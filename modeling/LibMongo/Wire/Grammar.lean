import LibMongo.Base.Parser
import LibMongo.Wire.Packet
import LibMongo.Bson.Grammar

/-!
# The wire grammar

A reference decoder for the messages a client sends.  It is written from the
grammar of the protocol and shares nothing with the encoders.  A message is a
header of four little-endian words (the length of the message with the header,
the id, the id it answers, the opcode) and a body that depends on the opcode:

* update: zero, namespace, flags, selector, update;
* insert: zero, namespace, documents to the end;
* query: flags, namespace, skip, count, query, selector if there is more;
* get more: zero, namespace, count, cursor id;
* delete: zero, namespace, flags, selector;
* kill cursors: zero, number of ids, ids.

The decoder accepts a message only if every byte belongs to it.
-/

namespace LibMongo

open Bytes Parser

/-! ## Documents -/

/-- A finished object with its length in front and its terminator behind. -/
structure Document where
  /-- The object. -/
  bson : Bson
  finished : bson.finished = true
  /-- The bytes between the length and the terminator are arbitrary. -/
  framed : ∃ elems, bson.data = frame elems
  small : bson.data.length < 2147483648

namespace Document

theorem ext {d e : Document} (h : d.bson.data = e.bson.data) : d = e := by
  obtain ⟨⟨data, fin⟩, hfin, _, _⟩ := d
  obtain ⟨⟨data', fin'⟩, hfin', _, _⟩ := e
  simp only at hfin hfin' h
  subst hfin hfin' h
  rfl

/-- The bytes of the document. -/
def bytes (d : Document) : Bytes := d.bson.data

theorem size_eq (d : Document) : bsonSize (some d.bson) = d.bytes.length :=
  bsonSize_finished d.finished d.small

theorem bsonBytes_eq (d : Document) : bsonBytes d.bson = d.bytes := by
  rw [bsonBytes, d.size_eq, Int.toNat_natCast]
  exact List.take_of_length_le (Nat.le_refl _)

theorem length_ge (d : Document) : 5 ≤ d.bytes.length := by
  obtain ⟨elems, h⟩ := d.framed
  rw [bytes, h, frame_length]
  omega

/-- What `bson_finish` makes of an open object is a document. -/
theorem of_finish {b : Bson} (hopen : b.finished = false) (hlen : 4 ≤ b.data.length)
    (hsmall : b.data.length + 1 < 2147483648) :
    ∃ d : Document, (bsonFinish (some b)).2 = some d.bson := by
  obtain ⟨data, fin⟩ := b
  simp only at hopen hlen hsmall
  subst hopen
  have hsplit : data = data.take 4 ++ data.drop 4 := (List.take_append_drop 4 data).symm
  have hfront : (data.take 4).length = 4 := by
    rw [List.length_take, Nat.min_eq_left hlen]
  have hframe : (frame (data.drop 4)).length < 2147483648 := by
    rw [frame_length, List.length_drop]
    omega
  refine ⟨⟨⟨frame (data.drop 4), true⟩, rfl, ⟨_, rfl⟩, hframe⟩, ?_⟩
  have hfinish := @bsonFinish_open _ (data.drop 4) hfront
  rw [← hsplit] at hfinish
  exact congrArg Prod.snd hfinish

/-- The image of a document tree. -/
def ofDoc (d : Doc) (h : d.encode.length < 2147483648) : Document :=
  ⟨⟨d.encode, true⟩, rfl, ⟨d.elems, rfl⟩, h⟩

end Document

/-- A document: its length, what it holds, and a NUL. -/
def parseDocument : Parser Bytes := fun bs => do
  let (size, _) ← word32.run bs
  let n := size.toNat
  if 5 ≤ n ∧ n ≤ bs.length ∧ (bs.take n).getLast? = some 0 then
    some (bs.take n, bs.drop n)
  else none

theorem reads_document (d : Document) : Reads parseDocument d.bytes d.bytes := by
  intro rest
  have hsmall := d.small
  have hge := d.length_ge
  obtain ⟨elems, hdata⟩ := d.framed
  have hlen : elems.length + 5 = d.bytes.length := by
    rw [Document.bytes, hdata, frame_length]
  have hword : word32.run (d.bytes ++ rest)
      = some (BitVec.ofNat 32 d.bytes.length, elems ++ [0] ++ rest) := by
    have h := reads_word32 (BitVec.ofNat 32 d.bytes.length) (elems ++ [0] ++ rest)
    have hnat : (BitVec.ofNat 32 d.bytes.length).toNat = d.bytes.length := by
      rw [BitVec.toNat_ofNat, Nat.mod_eq_of_lt (by rw [Document.bytes]; omega)]
    rw [hnat] at h
    have hsplit : d.bytes ++ rest = leBytes 4 d.bytes.length ++ (elems ++ [0] ++ rest) := by
      rw [← hlen, Document.bytes, hdata, frame]
      simp only [List.append_assoc]
    rw [hsplit]
    exact h
  have hnat : (BitVec.ofNat 32 d.bytes.length).toNat = d.bytes.length := by
    rw [BitVec.toNat_ofNat, Nat.mod_eq_of_lt (by rw [Document.bytes]; omega)]
  have hlast : ((d.bytes ++ rest).take d.bytes.length).getLast? = some 0 := by
    rw [List.take_left, Document.bytes, hdata, frame, ← List.append_assoc]
    simp
  have hle : d.bytes.length ≤ (d.bytes ++ rest).length := by simp
  show (word32.run (d.bytes ++ rest) >>= _) = _
  rw [hword]
  simp only [Option.bind_eq_bind, Option.bind_some, hnat]
  rw [if_pos ⟨hge, hle, hlast⟩, List.take_left, List.drop_left]

/-! ## Messages -/

/-- The messages a client sends, with documents as their bytes. -/
inductive WireMessage where
  | update (ns : CString) (flags : BitVec 32) (selector update : Bytes)
  | insert (ns : CString) (docs : List Bytes)
  | query (ns : CString) (flags skip ret : BitVec 32) (query : Bytes) (selector : Option Bytes)
  | getMore (ns : CString) (ret : BitVec 32) (cursorId : BitVec 64)
  | delete (ns : CString) (flags : BitVec 32) (selector : Bytes)
  | killCursors (cursorIds : List (BitVec 64))
deriving DecidableEq

/-- The header of a message. -/
def parseHeader : Parser MongoPacketHeader := do
  let length ← word32
  let id ← word32
  let respTo ← word32
  let opcode ← word32
  return ⟨length, id, respTo, opcode⟩

/-- A document, unless the input has ended. -/
def parseOptionalDocument : Parser (Option Bytes) := fun bs =>
  if bs = [] then some (none, []) else (some <$> parseDocument).run bs

/-- The data of an update. -/
def parseUpdate : Parser WireMessage := do
  expect 0
  let ns ← cstring
  let flags ← word32
  let selector ← parseDocument
  let update ← parseDocument
  return .update ns flags selector update

/-- The data of an insert, with the documents up to the end. -/
def parseInsert : Parser WireMessage := do
  expect 0
  let ns ← cstring
  let docs ← toEnd parseDocument
  return .insert ns docs

/-- The data of a query, with a selector if there is more behind the query document. -/
def parseQuery : Parser WireMessage := do
  let flags ← word32
  let ns ← cstring
  let skip ← word32
  let ret ← word32
  let query ← parseDocument
  let selector ← parseOptionalDocument
  return .query ns flags skip ret query selector

/-- The data of a `get_more`. -/
def parseGetMore : Parser WireMessage := do
  expect 0
  let ns ← cstring
  let ret ← word32
  let cursorId ← word64
  return .getMore ns ret cursorId

/-- The data of a delete. -/
def parseDelete : Parser WireMessage := do
  expect 0
  let ns ← cstring
  let flags ← word32
  let selector ← parseDocument
  return .delete ns flags selector

/-- The data of a `kill_cursors`, which states how many ids follow. -/
def parseKillCursors : Parser WireMessage := do
  expect 0
  let n ← word32
  let cids ← toEnd word64
  if cids.length = n.toNat then return .killCursors cids else failure

/-- The body of a message with the given opcode. -/
def parseBody (opcode : BitVec 32) : Parser WireMessage :=
  if opcode = 2001 then parseUpdate
  else if opcode = 2002 then parseInsert
  else if opcode = 2004 then parseQuery
  else if opcode = 2005 then parseGetMore
  else if opcode = 2006 then parseDelete
  else if opcode = 2007 then parseKillCursors
  else failure

/-- The id and the content of a message. -/
def decodeMessage (bs : Bytes) : Option (BitVec 32 × WireMessage) := do
  let (h, body) ← parseHeader.run bs
  if h.length.toNat = bs.length ∧ h.respTo = 0 then
    match (parseBody h.opcode).run body with
    | some (m, []) => some (h.id, m)
    | _ => none
  else none

/-! ## Reading to the end -/

/-- Documents to the end. -/
theorem parses_documents (docs : List Document) :
    Parses (toEnd parseDocument) (docs.flatMap Document.bytes) (docs.map Document.bytes) := by
  have hne : ∀ d : Document, d.bytes ≠ [] := by
    intro d h
    have := d.length_ge
    rw [h] at this
    simp at this
  have hfuel : docs.length ≤ (docs.flatMap Document.bytes).length := by
    induction docs with
    | nil => simp
    | cons d docs ih =>
        have := d.length_ge
        simp only [List.flatMap_cons, List.length_append, List.length_cons]
        omega
  show (parseAll parseDocument _ _).map _ = _
  rw [parseAll_flatMap reads_document hne docs hfuel]
  rfl

/-- Cursor ids to the end. -/
theorem parses_cursorIds (cids : List (BitVec 64)) :
    Parses (toEnd word64) (cids.flatMap fun cid => leBytes 8 cid.toNat) cids := by
  have hne : ∀ cid : BitVec 64, leBytes 8 cid.toNat ≠ [] := by
    intro cid h
    have := leBytes_length 8 cid.toNat
    rw [h] at this
    simp at this
  have hfuel : cids.length ≤ (cids.flatMap fun cid => leBytes 8 cid.toNat).length := by
    induction cids with
    | nil => simp
    | cons cid cids ih =>
        simp only [List.flatMap_cons, List.length_append, List.length_cons, leBytes_length]
        omega
  show (parseAll word64 _ _).map _ = _
  rw [parseAll_flatMap (f := id) reads_word64 hne cids hfuel, List.map_id]
  rfl

/-- The selector that is there, and the one that is not. -/
theorem parses_optionalDocument (sel : Option Document) :
    Parses parseOptionalDocument ((sel.map Document.bytes).getD []) (sel.map Document.bytes) := by
  cases sel with
  | none => rfl
  | some d =>
      have hne : d.bytes ≠ [] := by
        intro h
        have := d.length_ge
        rw [h] at this
        simp at this
      show (if d.bytes = [] then _ else (some <$> parseDocument).run d.bytes) = _
      rw [if_neg hne]
      exact ((reads_document d).map).run

end LibMongo
