import Mathlib.Data.List.ReduceOption
import LibMongo.Wire.Grammar

/-!
# Commands are decoded exactly

A `WireCall` is a call of one of the seven encoders.  Each encoder reserves a
block of a computed size and fills it with copies at computed offsets.  The
layout lemmas (`update_data` to `custom_data`) say that the copies fill the
block from front to end, so its content is the concatenation the grammar asks
for.  `wire_exact` puts them together with the reference decoder.
-/

namespace LibMongo

open Bytes Parser

/-! ## Filling a fresh block -/

/-- The first copy into a fresh block. -/
theorem memcpy_start (n : Nat) (src : Bytes) :
    memcpy (fresh n) 0 src = src ++ fresh (n - src.length) := by
  have h := memcpy_fresh [] src n
  simpa using h

/-- A copy right behind the part already written. -/
theorem memcpy_next {written src : Bytes} {off n : Nat} (h : off = written.length) :
    memcpy (written ++ fresh n) off src = (written ++ src) ++ fresh (n - src.length) := by
  rw [h, memcpy_fresh]

/-- A block that is written to its end. -/
theorem fresh_full {written : Bytes} {n : Nat} (h : n = 0) : written ++ fresh n = written := by
  rw [h, fresh, List.replicate_zero, List.append_nil]

/-! ## Calls -/

/-- The calls of the encoders, with the arguments they accept. -/
inductive WireCall where
  | update (ns : CString) (flags : BitVec 32) (selector update : Document)
  | insertN (ns : CString) (docs : List Document)
  | query (ns : CString) (flags skip ret : BitVec 32) (query : Document) (sel : Option Document)
  | getMore (ns : CString) (ret : BitVec 32) (cursorId : BitVec 64)
  | delete (ns : CString) (flags : BitVec 32) (sel : Document)
  | killCursors (cids : List (BitVec 64))
  | custom (db : CString) (flags : BitVec 32) (command : Document)

namespace WireCall

/-- The packet a call builds. -/
def packet (o : ByteOrder) (id : BitVec 32) : WireCall → Except Errno MongoPacket
  | update ns flags selector upd =>
      mongoWireCmdUpdate o id (some ns) flags (some selector.bson) (some upd.bson)
  | insertN ns docs =>
      mongoWireCmdInsertN o id (some ns) docs.length (some (docs.map fun d => some d.bson))
  | query ns flags skip ret qry sel =>
      mongoWireCmdQuery o id (some ns) flags skip ret (some qry.bson)
        (sel.map fun d => d.bson)
  | getMore ns ret cursorId => mongoWireCmdGetMore o id (some ns) ret cursorId
  | delete ns flags sel => mongoWireCmdDelete o id (some ns) flags (some sel.bson)
  | killCursors cids => mongoWireCmdKillCursors o id cids
  | custom db flags command => mongoWireCmdCustom o id (some db) flags (some command.bson)

/-- An insert has a document at least, and kill cursors an id. -/
def Nonempty : WireCall → Prop
  | insertN _ docs => docs ≠ []
  | killCursors cids => cids ≠ []
  | _ => True

/-- The size of the data of a call. -/
def dataSize : WireCall → Nat
  | update ns _ selector upd =>
      4 + (ns.length + 1) + 4 + selector.bytes.length + upd.bytes.length
  | insertN ns docs => 4 + (ns.length + 1) + (docs.flatMap Document.bytes).length
  | query ns _ _ _ qry sel =>
      4 + (ns.length + 1) + 4 + 4 + qry.bytes.length
        + ((sel.map Document.bytes).getD []).length
  | getMore ns _ _ => 4 + (ns.length + 1) + 4 + 8
  | delete ns _ sel => 4 + (ns.length + 1) + 4 + sel.bytes.length
  | killCursors cids => 4 + 4 + 8 * cids.length
  | custom db _ command => 4 + (db.length + 5 + 1) + 4 + 4 + command.bytes.length + 5

/-- The message a call stands for. -/
def message : WireCall → WireMessage
  | update ns flags selector upd => .update ns flags selector.bytes upd.bytes
  | insertN ns docs => .insert ns (docs.map Document.bytes)
  | query ns flags skip ret qry sel =>
      .query ns flags skip ret qry.bytes (sel.map Document.bytes)
  | getMore ns ret cursorId => .getMore ns ret cursorId
  | delete ns flags sel => .delete ns flags sel.bytes
  | killCursors cids => .killCursors cids
  | custom db flags command =>
      .query (db.append cmdSuffix) flags 0 1 command.bytes (some Doc.nil.encode)

/-- The opcode of a call. -/
def opcode : WireCall → MongoWireOpcode
  | update .. => .update
  | insertN .. => .insert
  | query .. => .query
  | getMore .. => .getMore
  | delete .. => .delete
  | killCursors .. => .killCursors
  | custom .. => .query

/-- The data of a call, field by field. -/
def body : WireCall → Bytes
  | update ns flags selector upd =>
      leBytes 4 0 ++ (ns.image ++ (leBytes 4 flags.toNat ++ (selector.bytes ++ upd.bytes)))
  | insertN ns docs => leBytes 4 0 ++ (ns.image ++ docs.flatMap Document.bytes)
  | query ns flags skip ret qry sel =>
      leBytes 4 flags.toNat ++ (ns.image ++ (leBytes 4 skip.toNat ++ (leBytes 4 ret.toNat
        ++ (qry.bytes ++ (sel.map Document.bytes).getD []))))
  | getMore ns ret cursorId =>
      leBytes 4 0 ++ (ns.image ++ (leBytes 4 ret.toNat ++ leBytes 8 cursorId.toNat))
  | delete ns flags sel => leBytes 4 0 ++ (ns.image ++ (leBytes 4 flags.toNat ++ sel.bytes))
  | killCursors cids =>
      leBytes 4 0 ++ (leBytes 4 cids.length ++ cids.flatMap fun cid => leBytes 8 cid.toNat)
  | custom db flags command =>
      leBytes 4 flags.toNat ++ ((db.append cmdSuffix).image ++ (leBytes 4 0 ++ (leBytes 4 1
        ++ (command.bytes ++ Doc.nil.encode))))

theorem body_length (c : WireCall) : c.body.length = c.dataSize := by
  cases c with
  | custom db flags command =>
      have hns : (db.append cmdSuffix).length = db.length + 5 := by
        simp [CString.append, CString.length, cmdSuffix, CString.ascii]
      simp only [body, dataSize, List.length_append, leBytes_length, CString.image_length, hns,
        Doc.encode_length, Doc.elems_nil, List.length_nil]
      omega
  | killCursors cids =>
      have hlen : (cids.flatMap fun cid => leBytes 8 cid.toNat).length = 8 * cids.length := by
        induction cids with
        | nil => rfl
        | cons cid cids ih =>
            simp only [List.flatMap_cons, List.length_append, leBytes_length, ih,
              List.length_cons]
            omega
      simp only [body, dataSize, List.length_append, leBytes_length, hlen]
      omega
  | _ =>
      simp only [body, dataSize, List.length_append, leBytes_length, CString.image_length]
      omega

end WireCall

/-! ## Layouts -/

section Layouts

variable (o : ByteOrder) (id : BitVec 32)

theorem update_data (ns : CString) (flags : BitVec 32) (selector update : Document) :
    (WireCall.update ns flags selector update).packet o id
      = .ok (commandPacket o id .update (WireCall.update ns flags selector update).body
          (WireCall.update ns flags selector update).dataSize) := by
  have hs := selector.size_eq
  have hu := update.size_eq
  have hneg : ¬ ((selector.bytes.length : Int) < 0 ∨ (update.bytes.length : Int) < 0) := by omega
  simp only [WireCall.packet, mongoWireCmdUpdate, if_neg hneg, hs, hu, selector.bsonBytes_eq,
    update.bsonBytes_eq, ByteOrder.mem32_le32, Int.toNat_natCast]
  rw [memcpy_start, memcpy_next (by simp), memcpy_next (by simp),
    memcpy_next (by simp; omega), memcpy_next (by simp; omega),
    fresh_full (by simp; omega)]
  simp only [WireCall.body, WireCall.dataSize, List.append_assoc, Except.ok.injEq]
  congr 1
  omega

theorem getMore_data (ns : CString) (ret : BitVec 32) (cursorId : BitVec 64) :
    (WireCall.getMore ns ret cursorId).packet o id
      = .ok (commandPacket o id .getMore (WireCall.getMore ns ret cursorId).body
          (WireCall.getMore ns ret cursorId).dataSize) := by
  simp only [WireCall.packet, mongoWireCmdGetMore, ByteOrder.mem32_le32]
  rw [memcpy_start, memcpy_next (by simp), memcpy_next (by simp),
    memcpy_next (by simp; omega), fresh_full (by simp; omega)]
  simp only [WireCall.body, WireCall.dataSize, List.append_assoc]

theorem delete_data (ns : CString) (flags : BitVec 32) (sel : Document) :
    (WireCall.delete ns flags sel).packet o id
      = .ok (commandPacket o id .delete (WireCall.delete ns flags sel).body
          (WireCall.delete ns flags sel).dataSize) := by
  have hs := sel.size_eq
  have hneg : ¬ ((sel.bytes.length : Int) < 0) := by omega
  simp only [WireCall.packet, mongoWireCmdDelete, if_neg hneg, hs, sel.bsonBytes_eq,
    ByteOrder.mem32_le32]
  rw [memcpy_start, memcpy_next (by simp), memcpy_next (by simp),
    memcpy_next (by simp; omega), fresh_full (by simp; omega)]
  simp only [WireCall.body, WireCall.dataSize, List.append_assoc, Except.ok.injEq]
  congr 1

/-- The query, with the selector the source adds at the end if there is one. -/
theorem query_data (ns : CString) (flags skip ret : BitVec 32) (query : Document)
    (sel : Option Document) :
    (WireCall.query ns flags skip ret query sel).packet o id
      = .ok (commandPacket o id .query (WireCall.query ns flags skip ret query sel).body
          (WireCall.query ns flags skip ret query sel).dataSize) := by
  have hq := query.size_eq
  cases sel with
  | none =>
      have hneg : ¬ ((query.bytes.length : Int) < 0) := by omega
      simp only [WireCall.packet, mongoWireCmdQuery, Option.map_none, Option.isSome_none,
        Bool.false_eq_true, false_and, or_false, if_neg hneg, if_false, hq, query.bsonBytes_eq,
        ByteOrder.mem32_le32]
      rw [memcpy_start, memcpy_next (by simp), memcpy_next (by simp),
        memcpy_next (by simp; omega), memcpy_next (by simp; omega), fresh_full (by simp; omega)]
      simp only [WireCall.body, WireCall.dataSize, List.append_assoc, Except.ok.injEq,
        Option.map_none, Option.getD_none, List.append_nil, List.length_nil]
      congr 1
  | some sel =>
      have hs := sel.size_eq
      have hneg : ¬ ((query.bytes.length : Int) < 0 ∨ (sel.bytes.length : Int) < 0) := by omega
      simp only [WireCall.packet, mongoWireCmdQuery, Option.map_some, Option.isSome_some,
        true_and, if_neg hneg, if_true, hq, hs, query.bsonBytes_eq, sel.bsonBytes_eq,
        ByteOrder.mem32_le32, Int.toNat_natCast]
      rw [memcpy_start, memcpy_next (by simp), memcpy_next (by simp),
        memcpy_next (by simp; omega), memcpy_next (by simp; omega), memcpy_next (by simp; omega),
        fresh_full (by simp; omega)]
      simp only [WireCall.body, WireCall.dataSize, List.append_assoc, Except.ok.injEq,
        Option.map_some, Option.getD_some]
      congr 1

/-- A command is the query the source makes of it. -/
theorem custom_data (db : CString) (flags : BitVec 32) (command : Document) :
    (WireCall.custom db flags command).packet o id
      = .ok (commandPacket o id .query (WireCall.custom db flags command).body
          (WireCall.custom db flags command).dataSize) := by
  have hneg : ¬ bsonSize (some command.bson) < 0 := by
    have := command.size_eq
    omega
  have hempty : (bsonFinish (some bsonNew)).2
      = (some (Document.ofDoc .nil (by simp))).map fun d => d.bson := rfl
  have hquery := query_data o id (db.append cmdSuffix) flags 0 1 command
    (some (Document.ofDoc .nil (by simp)))
  have hbody : (WireCall.custom db flags command).body
      = (WireCall.query (db.append cmdSuffix) flags 0 1 command
          (some (Document.ofDoc .nil (by simp)))).body := rfl
  rw [← WireCall.body_length, hbody, WireCall.body_length, ← hquery]
  simp only [WireCall.packet, mongoWireCmdCustom, if_neg hneg, hempty]

/-- The loop over the documents fills the rest of the block. -/
theorem copyDocuments_fresh (docs : List Document) {written : Bytes} {n pos : Nat}
    (hpos : pos = written.length) :
    copyDocuments (written ++ fresh n) pos (docs.map fun d => d.bson)
      = (written ++ docs.flatMap Document.bytes)
          ++ fresh (n - (docs.flatMap Document.bytes).length) := by
  induction docs generalizing written n pos with
  | nil => simp [copyDocuments]
  | cons d docs ih =>
      have hd := d.size_eq
      rw [List.map_cons, copyDocuments, d.bsonBytes_eq, memcpy_next hpos, hd, Int.toNat_natCast,
        ih (by rw [hpos, List.length_append])]
      simp only [List.flatMap_cons, List.append_assoc, List.length_append, Nat.sub_sub]

theorem insertN_data (ns : CString) {docs : List Document} (hne : docs ≠ []) :
    (WireCall.insertN ns docs).packet o id
      = .ok (commandPacket o id .insert (WireCall.insertN ns docs).body
          (WireCall.insertN ns docs).dataSize) := by
  have hpos : ¬ ((docs.length : Int) ≤ 0) := by
    have := List.length_pos_of_ne_nil hne
    omega
  have htake : (docs.map fun d => some d.bson).take ((docs.length : Int)).toNat
      = docs.map fun d => some d.bson := by
    rw [List.take_of_length_le (by simp)]
  have hany : ((docs.map fun d => some d.bson).any fun b => decide (bsonSize b ≤ 0)) = false := by
    rw [List.any_eq_false]
    intro b hb
    obtain ⟨d, -, rfl⟩ := List.mem_map.mp hb
    have hs := d.size_eq
    have hge := d.length_ge
    simp only [decide_eq_true_eq]
    omega
  have hreduce : (docs.map fun d => some d.bson).reduceOption = docs.map fun d => d.bson := by
    clear hne hpos htake hany
    induction docs with
    | nil => rfl
    | cons d docs ih => rw [List.map_cons, List.reduceOption_cons_of_some, ih, List.map_cons]
  have hsum : ((docs.map fun d => d.bson).map fun b => bsonSize (some b)).sum
      = ((docs.flatMap Document.bytes).length : Int) := by
    clear hne hpos htake hany hreduce
    induction docs with
    | nil => rfl
    | cons d docs ih =>
        have hs := d.size_eq
        simp only [List.map_cons, List.sum_cons, ih, hs, List.flatMap_cons, List.length_append]
        omega
  simp only [WireCall.packet, mongoWireCmdInsertN, if_neg hpos, htake, hany, Bool.false_eq_true,
    if_false, hreduce, hsum]
  have hlen : (leBytes 4 0 ++ ns.image).length = 4 + ns.length + 1 := by
    rw [List.length_append, leBytes_length, CString.image_length]
    rfl
  rw [memcpy_start, memcpy_next (by simp), copyDocuments_fresh docs hlen.symm,
    fresh_full (by rw [leBytes_length, CString.image_length]; omega)]
  simp only [WireCall.body, WireCall.dataSize, List.append_assoc, Except.ok.injEq]
  congr 1

/-- The loop over the cursor ids fills the rest of the block. -/
theorem copyCursorIds_fresh (cids : List (BitVec 64)) {written : Bytes} {n pos : Nat}
    (hpos : pos = written.length) :
    copyCursorIds (written ++ fresh n) pos cids
      = (written ++ cids.flatMap fun cid => leBytes 8 cid.toNat)
          ++ fresh (n - 8 * cids.length) := by
  induction cids generalizing written n pos with
  | nil => simp [copyCursorIds]
  | cons cid cids ih =>
      rw [copyCursorIds, memcpy_next hpos, ih (by rw [hpos, List.length_append, leBytes_length])]
      simp only [List.flatMap_cons, List.append_assoc, leBytes_length, Nat.sub_sub,
        List.length_cons]
      congr 4
      omega

theorem killCursors_data {cids : List (BitVec 64)} (hne : cids ≠ [])
    (hsmall : cids.length < 4294967296) :
    (WireCall.killCursors cids).packet o id
      = .ok (commandPacket o id .killCursors (WireCall.killCursors cids).body
          (WireCall.killCursors cids).dataSize) := by
  have hpos : cids.length ≠ 0 := by
    have := List.length_pos_of_ne_nil hne
    omega
  have hn : (BitVec.ofNat 32 cids.length).toNat = cids.length := by
    rw [BitVec.toNat_ofNat, Nat.mod_eq_of_lt hsmall]
  simp only [WireCall.packet, mongoWireCmdKillCursors, if_neg hpos, mongoWireCmdKillCursorsVa,
    ByteOrder.mem32_le32, hn]
  rw [memcpy_start, memcpy_next (by simp), copyCursorIds_fresh cids (by simp),
    fresh_full (by simp; omega)]
  simp only [WireCall.body, WireCall.dataSize, List.append_assoc]

/-- Every call builds its packet around its body. -/
theorem WireCall.packet_eq {c : WireCall} (hne : c.Nonempty) (hsmall : c.dataSize < 4294967296) :
    c.packet o id = .ok (commandPacket o id c.opcode c.body c.dataSize) := by
  cases c with
  | update ns flags selector upd => exact update_data o id ns flags selector upd
  | insertN ns docs => exact insertN_data o id ns hne
  | query ns flags skip ret qry sel => exact query_data o id ns flags skip ret qry sel
  | getMore ns ret cursorId => exact getMore_data o id ns ret cursorId
  | delete ns flags sel => exact delete_data o id ns flags sel
  | killCursors cids =>
      simp only [WireCall.dataSize] at hsmall
      exact killCursors_data o id hne (by omega)
  | custom db flags command => exact custom_data o id db flags command

end Layouts

/-! ## Decoding -/

section Decoding

variable (o : ByteOrder) (id : BitVec 32)

/-- The body of a call is the message it stands for, to the last byte. -/
theorem WireCall.parses_body {c : WireCall} (hsmall : c.dataSize < 4294967296) :
    Parses (parseBody c.opcode.code) c.body c.message := by
  cases c with
  | update ns flags selector upd =>
      refine Reads.then (reads_expect 0) (Reads.then (reads_cstring ns)
        (Reads.then (reads_word32 flags) (Reads.then (reads_document selector) ?_)))
      exact (reads_document upd).parses.map
  | insertN ns docs =>
      refine Reads.then (reads_expect 0) (Reads.then (reads_cstring ns) ?_)
      exact (parses_documents docs).map
  | query ns flags skip ret qry sel =>
      refine Reads.then (reads_word32 flags) (Reads.then (reads_cstring ns)
        (Reads.then (reads_word32 skip) (Reads.then (reads_word32 ret)
          (Reads.then (reads_document qry) ?_))))
      exact (parses_optionalDocument sel).map
  | getMore ns ret cursorId =>
      refine Reads.then (reads_expect 0) (Reads.then (reads_cstring ns)
        (Reads.then (reads_word32 ret) ?_))
      exact (reads_word64 cursorId).parses.map
  | delete ns flags sel =>
      refine Reads.then (reads_expect 0) (Reads.then (reads_cstring ns)
        (Reads.then (reads_word32 flags) ?_))
      exact (reads_document sel).parses.map
  | killCursors cids =>
      simp only [WireCall.dataSize] at hsmall
      have hn : (BitVec.ofNat 32 cids.length).toNat = cids.length := by
        rw [BitVec.toNat_ofNat, Nat.mod_eq_of_lt (by omega)]
      have hcount := reads_word32 (BitVec.ofNat 32 cids.length)
      rw [hn] at hcount
      refine Reads.then (reads_expect 0) (Reads.then hcount ?_)
      show (toEnd word64 >>= _).run _ = _
      rw [StateT.run_bind, parses_cursorIds cids]
      show (if cids.length = (BitVec.ofNat 32 cids.length).toNat then _ else _ :
        Parser WireMessage).run [] = _
      rw [if_pos hn.symm]
      rfl
  | custom db flags command =>
      refine Reads.then (reads_word32 flags) (Reads.then (reads_cstring (db.append cmdSuffix))
        (Reads.then (reads_word32 0) (Reads.then (reads_word32 1)
          (Reads.then (reads_document command) ?_))))
      exact (parses_optionalDocument (some (Document.ofDoc .nil (by simp)))).map

theorem reads_header (h : MongoPacketHeader) :
    Reads parseHeader (leBytes 4 h.length.toNat ++ (leBytes 4 h.id.toNat
      ++ (leBytes 4 h.respTo.toNat ++ leBytes 4 h.opcode.toNat))) h :=
  (reads_word32 h.length).bind ((reads_word32 h.id).bind ((reads_word32 h.respTo).bind
    (Reads.map (f := fun opcode => MongoPacketHeader.mk h.length h.id h.respTo opcode)
      (reads_word32 h.opcode))))

/-- The header of a command has the same bytes on every host. -/
theorem commandPacket_image (opcode : MongoWireOpcode) (data : Bytes) (dataSize : Int) :
    (commandPacket o id opcode data dataSize).header.image o
      = leBytes 4 (BitVec.ofInt 32 (16 + dataSize)).toNat ++ (leBytes 4 id.toNat
          ++ (leBytes 4 (0 : BitVec 32).toNat ++ leBytes 4 opcode.code.toNat)) := by
  have hzero : o.mem32 0 = leBytes 4 (0 : BitVec 32).toNat := by cases o <;> rfl
  simp only [MongoPacketHeader.image, commandPacket, ByteOrder.mem32_le32, hzero]

/-- What a call puts on the wire is decoded as the message it stands for. -/
theorem WireCall.decode {c : WireCall} (hsmall : 16 + c.dataSize < 2147483648) :
    decodeMessage ((commandPacket o id c.opcode c.body c.dataSize).header.image o ++ c.body)
      = some (id, c.message) := by
  have hnat : (BitVec.ofInt 32 (16 + (c.dataSize : Int))).toNat = 16 + c.dataSize := by
    rw [BitVec.toNat_ofInt]
    omega
  have hhead := reads_header ⟨BitVec.ofInt 32 (16 + (c.dataSize : Int)), id, 0, c.opcode.code⟩
    c.body
  have hlen : (leBytes 4 (BitVec.ofInt 32 (16 + (c.dataSize : Int))).toNat ++ (leBytes 4 id.toNat
      ++ (leBytes 4 (0 : BitVec 32).toNat ++ leBytes 4 c.opcode.code.toNat)) ++ c.body).length
      = 16 + c.dataSize := by
    simp only [List.length_append, leBytes_length, c.body_length]
  have hbody : (parseBody c.opcode.code).run c.body = some (c.message, []) :=
    c.parses_body (by omega)
  rw [commandPacket_image]
  show (parseHeader.run _ >>= _) = _
  rw [hhead]
  simp only [Option.bind_eq_bind, Option.bind_some, hnat] at hlen ⊢
  rw [if_pos ⟨hlen.symm, trivial⟩, hbody]

end Decoding

/-! ## Exactness -/

/-- The encoders. -/
inductive WireEncoder where
  | update
  | insertN
  | query
  | getMore
  | delete
  | killCursors
  | custom
deriving DecidableEq

/-- The encoder a call is a call of. -/
def WireCall.encoder : WireCall → WireEncoder
  | update .. => .update
  | insertN .. => .insertN
  | query .. => .query
  | getMore .. => .getMore
  | delete .. => .delete
  | killCursors .. => .killCursors
  | custom .. => .custom

theorem Document.map_bytes_inj {ds es : List Document}
    (h : ds.map Document.bytes = es.map Document.bytes) : ds = es :=
  List.map_injective_iff.mpr (fun _ _ => Document.ext) h

/-- The calls of one encoder are told apart by their messages. -/
theorem WireCall.message_inj {c d : WireCall} (henc : c.encoder = d.encoder)
    (h : c.message = d.message) : c = d := by
  cases c <;> cases d <;> simp only [WireCall.encoder, reduceCtorEq] at henc
  case update.update =>
    simp only [WireCall.message, WireMessage.update.injEq] at h
    obtain ⟨rfl, rfl, hs, hu⟩ := h
    rw [Document.ext hs, Document.ext hu]
  case insertN.insertN =>
    simp only [WireCall.message, WireMessage.insert.injEq] at h
    obtain ⟨rfl, hd⟩ := h
    rw [Document.map_bytes_inj hd]
  case query.query sel _ _ _ _ _ sel' =>
    simp only [WireCall.message, WireMessage.query.injEq] at h
    obtain ⟨rfl, rfl, rfl, rfl, hq, hs⟩ := h
    have hsel : sel = sel' := Option.map_injective (fun _ _ => Document.ext) hs
    rw [Document.ext hq, hsel]
  case getMore.getMore =>
    simp only [WireCall.message, WireMessage.getMore.injEq] at h
    obtain ⟨rfl, rfl, rfl⟩ := h
    rfl
  case delete.delete =>
    simp only [WireCall.message, WireMessage.delete.injEq] at h
    obtain ⟨rfl, rfl, hs⟩ := h
    rw [Document.ext hs]
  case killCursors.killCursors =>
    simp only [WireCall.message, WireMessage.killCursors.injEq] at h
    rw [h]
  case custom.custom =>
    simp only [WireCall.message, WireMessage.query.injEq] at h
    obtain ⟨hns, rfl, -, -, hc, -⟩ := h
    have hdb : ∀ {s t : CString}, s.append cmdSuffix = t.append cmdSuffix → s = t := by
      intro s t hst
      exact CString.ext_bytes (List.append_cancel_right (congrArg CString.bytes hst))
    rw [hdb hns, Document.ext hc]

/-- A call of an encoder builds a packet whose length is that of the header and
the data, which a decoder of the wire grammar reads back exactly, and which no
other call of the encoder builds. -/
theorem wire_exact (o : ByteOrder) (id : BitVec 32) (c : WireCall) (hne : c.Nonempty)
    (hsmall : 16 + c.dataSize < 2147483648) :
    ∃ p data, c.packet o id = .ok p ∧ mongoWirePacketGetData p = .ok (data, p.dataSize) ∧
      p.dataSize = data.length ∧
      (mongoWirePacketGetHeader o p).length.toInt = 16 + p.dataSize ∧
      decodeMessage ((mongoWirePacketGetHeaderRaw p).image o ++ data) = some (id, c.message) ∧
      ∀ id' c', c'.encoder = c.encoder → c'.Nonempty → 16 + c'.dataSize < 2147483648 →
        c'.packet o id' = .ok p → id' = id ∧ c' = c := by
  refine ⟨_, c.body, c.packet_eq o id hne (by omega), rfl, ?_, ?_, c.decode o id hsmall, ?_⟩
  · rw [c.body_length]
    rfl
  · show (o.le32 (o.le32 (BitVec.ofInt 32 (16 + (c.dataSize : Int))))).toInt = 16 + (c.dataSize : Int)
    rw [ByteOrder.le32_le32, BitVec.toInt_ofInt]
    exact Int.bmod_eq_of_le (by omega) (by omega)
  · intro id' c' henc hne' hsmall' hpacket
    rw [c'.packet_eq o id' hne' (by omega), Except.ok.injEq] at hpacket
    have hbody : c'.body = c.body := Option.some.inj (congrArg MongoPacket.data hpacket)
    have hdecode := c'.decode o id' hsmall'
    rw [hpacket, hbody, c.decode o id hsmall, Option.some.injEq, Prod.mk.injEq] at hdecode
    exact ⟨hdecode.1.symm, WireCall.message_inj henc hdecode.2.symm⟩

/-- A query document with two fields. -/
def sampleQuery : Doc := .cons (.ascii ['a']) (.int32 7) (.cons (.ascii ['b']) (.boolean 1) .nil)

/-- A selector of one of the fields. -/
def sampleSelector : Doc := .cons (.ascii ['b']) (.int32 1) .nil

theorem sampleQuery_small : sampleQuery.encode.length < 2147483648 := by decide

theorem sampleSelector_small : sampleSelector.encode.length < 2147483648 := by decide

/-- A query that selects a field. -/
def sampleCall : WireCall :=
  .query (.ascii ['d', '.', 'c']) 4 0 2 (.ofDoc sampleQuery sampleQuery_small)
    (some (.ofDoc sampleSelector sampleSelector_small))

theorem wire_exact_sample :
    ∃ p data, sampleCall.packet .big 7 = .ok p ∧ mongoWirePacketGetData p = .ok (data, p.dataSize) ∧
      decodeMessage ((mongoWirePacketGetHeaderRaw p).image .big ++ data)
        = some (7, .query (.ascii ['d', '.', 'c']) 4 0 2 sampleQuery.encode
            (some sampleSelector.encode)) := by
  obtain ⟨p, data, hp, hdata, -, -, hdec, -⟩ := wire_exact .big 7 sampleCall
    (by simp [sampleCall, WireCall.Nonempty]) (by decide)
  exact ⟨p, data, hp, hdata, hdec⟩

end LibMongo
