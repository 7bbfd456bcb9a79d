import LibMongo.Net.Client
import LibMongo.Bson.Lookup

/-!
# Replies

`Reply` is what a server answers: the fields of the reply header and documents
given as trees.  `Reply.bytes` is what goes over the wire and `Reply.packet` what
`mongo_packet_recv` makes of it (`mongoPacketRecv_reply`).  The first document of
the packet, once finished, is the object that encodes the first tree
(`getNthDocument_first`).
-/

namespace LibMongo

open Bytes

/-! ## The header on the wire -/

/-- The four words of a header as a server writes them. -/
def MongoPacketHeader.wire (h : MongoPacketHeader) : Bytes :=
  leBytes 4 h.length.toNat ++ (leBytes 4 h.id.toNat ++ (leBytes 4 h.respTo.toNat ++
    leBytes 4 h.opcode.toNat))

@[simp] theorem MongoPacketHeader.wire_length (h : MongoPacketHeader) : h.wire.length = 16 := by
  simp [MongoPacketHeader.wire]

/-- A word in front is skipped. -/
theorem drop_word (k n x : Nat) (rest : Bytes) :
    (leBytes k x ++ rest).drop (k + n) = rest.drop n := by
  rw [← List.drop_drop, List.drop_left' (leBytes_length k x)]

/-- A word in front is read. -/
theorem take_word (k x : Nat) (rest : Bytes) : (leBytes k x ++ rest).take k = leBytes k x :=
  List.take_left' (leBytes_length k x)

/-- The words of a header are read back on every host. -/
theorem loadHeader_wire (o : ByteOrder) (h : MongoPacketHeader) : loadHeader o h.wire = h := by
  have hword : ∀ x : BitVec 32, o.le32 (o.load32 (leBytes 4 x.toNat)) = x := by
    intro x
    rw [← ByteOrder.mem32_le32 o, ByteOrder.load32_mem32, ByteOrder.le32_le32]
  have h₁ : h.wire.take 4 = leBytes 4 h.length.toNat := take_word 4 _ _
  have h₂ : (h.wire.drop 4).take 4 = leBytes 4 h.id.toNat := by
    rw [MongoPacketHeader.wire, drop_word 4 0, List.drop_zero, take_word]
  have h₃ : (h.wire.drop 8).take 4 = leBytes 4 h.respTo.toNat := by
    rw [MongoPacketHeader.wire, drop_word 4 4, drop_word 4 0, List.drop_zero, take_word]
  have h₄ : (h.wire.drop 12).take 4 = leBytes 4 h.opcode.toNat := by
    rw [MongoPacketHeader.wire, drop_word 4 8, drop_word 4 4, drop_word 4 0, List.drop_zero,
      List.take_of_length_le (by simp)]
  simp only [loadHeader, MongoPacketHeader.le32, h₁, h₂, h₃, h₄, hword]

/-- Sixteen bytes are the header that is read from them. -/
theorem wire_loadHeader {o : ByteOrder} {bs : Bytes} (h : bs.length = 16) :
    (loadHeader o bs).wire = bs := by
  have hword : ∀ {x : Bytes}, x.length = 4 → leBytes 4 (o.le32 (o.load32 x)).toNat = x := by
    intro x hx
    rw [o.le32_load32 hx, leBytes4_ofNat_leNat hx]
  simp only [loadHeader, MongoPacketHeader.le32, MongoPacketHeader.wire]
  rw [hword (by simp [h]), hword (by simp [h]), hword (by simp [h]), hword (by simp [h])]
  have h₄ : (bs.drop 12).take 4 = bs.drop 12 := List.take_of_length_le (by simp [h])
  have h₃ : (bs.drop 8).take 4 ++ bs.drop 12 = bs.drop 8 := by
    rw [show bs.drop 12 = (bs.drop 8).drop 4 by rw [List.drop_drop], List.take_append_drop]
  have h₂ : (bs.drop 4).take 4 ++ bs.drop 8 = bs.drop 4 := by
    rw [show bs.drop 8 = (bs.drop 4).drop 4 by rw [List.drop_drop], List.take_append_drop]
  rw [h₄, h₃, h₂, List.take_append_drop]

/-- A reply with all its documents, as a server builds it. -/
structure Reply where
  id : BitVec 32
  respTo : BitVec 32
  flags : BitVec 32
  cursorId : BitVec 64
  start : BitVec 32
  docs : List Doc

namespace Reply

/-- What comes behind the header of the packet. -/
def body (r : Reply) : Bytes :=
  leBytes 4 r.flags.toNat ++ (leBytes 8 r.cursorId.toNat ++ (leBytes 4 r.start.toNat ++
    (leBytes 4 r.docs.length ++ r.docs.flatMap Doc.encode)))

/-- The header of the packet, in the order of the host. -/
def header (r : Reply) : MongoPacketHeader where
  length := BitVec.ofNat 32 (16 + r.body.length)
  id := r.id
  respTo := r.respTo
  opcode := MongoWireOpcode.reply.code

/-- The packet as the library holds it. -/
def packet (o : ByteOrder) (r : Reply) : MongoPacket where
  header := { r.header with length := o.le32 r.header.length }
  data := some r.body
  dataSize := r.body.length

/-- The four words of the header on the wire. -/
def head (r : Reply) : Bytes :=
  leBytes 4 r.header.length.toNat ++ (leBytes 4 r.id.toNat ++ (leBytes 4 r.respTo.toNat ++
    leBytes 4 r.header.opcode.toNat))

/-- The data of the reply. -/
def bytes (r : Reply) : Bytes := r.head ++ r.body

/-- The reply is no longer than its length can say. -/
def Fits (r : Reply) : Prop := 16 + r.body.length < 2147483648

theorem head_length (r : Reply) : r.head.length = 16 := by simp [head]

theorem body_length_ge (r : Reply) : 20 ≤ r.body.length := by
  simp only [body, List.length_append, leBytes_length]
  omega

theorem length_le_documents (ds : List Doc) : ds.length ≤ (ds.flatMap Doc.encode).length := by
  induction ds with
  | nil => exact Nat.zero_le _
  | cons d ds ih =>
      rw [List.flatMap_cons, List.length_append, Doc.encode_length, List.length_cons]
      omega

/-! ## The packet is received -/

theorem loadHeader_head (o : ByteOrder) (r : Reply) : loadHeader o r.head = r.header :=
  loadHeader_wire o r.header

variable {r : Reply}

theorem Fits.length_eq (h : r.Fits) : r.header.length.toNat = 16 + r.body.length := by
  have hfits : 16 + r.body.length < 2147483648 := h
  rw [header, BitVec.toNat_ofNat, Nat.mod_eq_of_lt (by omega)]

theorem Fits.size_eq (h : r.Fits) : (r.header.length - 16).toNat = r.body.length := by
  have hfits : 16 + r.body.length < 2147483648 := h
  have hlen := h.length_eq
  have h16 : (16 : BitVec 32).toNat = 16 := rfl
  rw [BitVec.toNat_sub_of_le (by rw [BitVec.le_def]; omega), hlen, h16]
  omega

/-- The size that is passed on is the length of the body. -/
theorem Fits.size_toInt (h : r.Fits) : (r.header.length - 16).toInt = r.body.length := by
  have hfits : 16 + r.body.length < 2147483648 := h
  rw [BitVec.toInt_eq_toNat_of_lt (by rw [h.size_eq]; omega), h.size_eq]

/-- A reply that arrives whole is received as its packet. -/
theorem mongoPacketRecv_reply {σ : Type} (N : Net σ) {w : World σ} {s s' : σ} (h : r.Fits)
    (hfd : 0 ≤ w.conn.fd) (hhead : N.recv w.conn.fd 16 w.net = (.ok r.head, s))
    (hbody : N.recv w.conn.fd r.body.length s = (.ok r.body, s')) :
    (mongoPacketRecv N).exec w = (.ok (some (r.packet N.order)), { w with net := s' }) := by
  have hfits : 16 + r.body.length < 2147483648 := h
  have hge := r.body_length_ge
  have hrecvHead : (recvAll N w.conn.fd 16).exec w = (.ok (some r.head), { w with net := s }) := by
    rw [recvAll]
    refine (Program.exec_bind_ok (exec_system hhead) _).trans ?_
    show (Except.ok (if r.head.length = 16 then some r.head else none), _) = _
    rw [if_pos r.head_length]
  have hrecvBody : (recvAll N w.conn.fd (r.header.length - 16)).exec { w with net := s }
      = (.ok (some r.body), { w with net := s' }) := by
    rw [recvAll]
    rw [← h.size_eq] at hbody
    refine (Program.exec_bind_ok (exec_system hbody) _).trans ?_
    show (Except.ok (if r.body.length = (r.header.length - 16).toNat then some r.body else none),
      _) = _
    rw [h.size_eq, if_pos rfl]
  rw [mongoPacketRecv, Program.exec_get_bind, if_neg (by omega),
    Program.exec_bind_ok hrecvHead]
  dsimp only
  rw [loadHeader_head, Program.exec_bind_ok hrecvBody]
  dsimp only
  have hset : mongoWirePacketSetData N.order
      (mongoWirePacketSetHeaderRaw (mongoWirePacketNew N.order) r.header) r.body
        (r.header.length - 16).toInt = .ok (r.packet N.order) := by
    rw [h.size_toInt, mongoWirePacketSetData, if_neg (by omega), Int.toNat_natCast,
      List.take_length, mongoWirePacketSetHeaderRaw, packet, header]
    have hlen : BitVec.ofInt 32 ((r.body.length : Int) + 16)
        = BitVec.ofNat 32 (16 + r.body.length) := by
      rw [← BitVec.ofInt_natCast]
      congr 1
      omega
    rw [hlen]
  rw [hset]
  rfl

/-! ## The packet is read -/

theorem Fits.count_lt (h : r.Fits) : r.docs.length < 2 ^ 32 := by
  have hfits : 16 + r.body.length < 2147483648 := h
  have hlen := length_le_documents r.docs
  simp only [body, List.length_append, leBytes_length] at hfits
  omega

theorem getHeader (o : ByteOrder) (h : r.Fits) :
    mongoWireReplyPacketGetHeader (some (r.packet o))
      = .ok (.ok ⟨r.flags, r.cursorId, r.start, BitVec.ofNat 32 r.docs.length⟩) := by
  have hload : load r.body 20 = .ok (r.body.take 20) := by rw [load, if_pos r.body_length_ge]
  have hflags : (r.body.take 20).take 4 = leBytes 4 r.flags.toNat := by
    rw [List.take_take, body]
    exact take_word 4 _ _
  have hcursor : ((r.body.take 20).drop 4).take 8 = leBytes 8 r.cursorId.toNat := by
    rw [List.drop_take, List.take_take, body, drop_word 4 0, List.drop_zero]
    exact take_word 8 _ _
  have hstart : ((r.body.take 20).drop 12).take 4 = leBytes 4 r.start.toNat := by
    rw [List.drop_take, List.take_take, body, drop_word 4 8, drop_word 8 0, List.drop_zero]
    exact take_word 4 _ _
  have hreturned : ((r.body.take 20).drop 16).take 4 = leBytes 4 r.docs.length := by
    rw [List.drop_take, List.take_take, body, drop_word 4 12, drop_word 8 4, drop_word 4 0,
      List.drop_zero]
    exact take_word 4 _ _
  rw [mongoWireReplyPacketGetHeader, if_neg (by simp [packet, header])]
  simp only [mongoWirePacketGetData, packet]
  rw [hload, Program.ok_bind, hflags, hcursor, hstart, hreturned]
  simp only [ofNat_leNat_leBytes4, ofNat_leNat_leBytes8]
  rw [leNat_leBytes_of_lt (by simpa using h.count_lt)]
  rfl

/-- The documents start behind the reply header. -/
theorem getData (o : ByteOrder) (r : Reply) :
    mongoWireReplyPacketGetData (some (r.packet o)) = .ok (r.docs.flatMap Doc.encode) := by
  rw [mongoWireReplyPacketGetData, if_neg (by simp [packet, header])]
  simp only [mongoWirePacketGetData, packet]
  rw [body, drop_word 4 16, drop_word 8 8, drop_word 4 4, drop_word 4 0, List.drop_zero]

/-- Documents are skipped by their sizes. -/
theorem skipDocuments_encode {data : Bytes} {pos : Nat} {ds : List Doc} {rest : Bytes}
    (hdata : data.drop (20 + pos) = ds.flatMap Doc.encode ++ rest)
    (hfits : pos + (ds.flatMap Doc.encode).length < 2147483628) :
    skipDocuments data ds.length pos = .ok ((pos + (ds.flatMap Doc.encode).length : Nat) : Int) := by
  induction ds generalizing pos with
  | nil => simp [skipDocuments]
  | cons d ds ih =>
      rw [List.flatMap_cons, List.length_append] at hfits
      rw [List.flatMap_cons, List.append_assoc] at hdata
      have hd : d.encode.length = d.elems.length + 5 := d.encode_length
      have hstart : sizeT (20 + (pos : Int)) = 20 + pos := by
        rw [sizeT]
        omega
      have hsize : bsonStreamDocSize data (20 + pos) = .ok (d.encode.length : Int) := by
        rw [bsonStreamDocSize_drop, hdata, hd, Doc.encode, frame, List.append_assoc,
          bsonStreamDocSize_leBytes (by omega)]
      have hnext : data.drop (20 + (pos + d.encode.length)) = ds.flatMap Doc.encode ++ rest := by
        rw [← Nat.add_assoc, ← List.drop_drop, hdata, List.drop_left' rfl]
      have hwrap : wrap32 ((pos : Int) + (d.encode.length : Int)) = (pos + d.encode.length : Nat) := by
        rw [wrap32_of_range (by omega) (by omega)]
        omega
      rw [List.length_cons, skipDocuments, hstart, hsize, Program.ok_bind, hwrap,
        ih hnext (by omega), List.flatMap_cons, List.length_append, Nat.add_assoc]

/-- A document of a reply is found under its number. -/
theorem getNthDocument_docs (o : ByteOrder) (h : r.Fits) {front : List Doc} {d : Doc}
    {ds : List Doc} (hdocs : r.docs = front ++ d :: ds) :
    ∃ b, mongoWireReplyPacketGetNthDocument (some (r.packet o)) (front.length + 1)
        = .ok (.ok (some b)) ∧
      (bsonFinish (some b)).2 = some ⟨d.encode, true⟩ ∧ d.encode.length < 2147483648 := by
  have hfits : 16 + r.body.length < 2147483648 := h
  have hsmall : (front.flatMap Doc.encode).length + d.encode.length + front.length + ds.length
      < 2147483612 + front.length := by
    have hlen := length_le_documents ds
    simp only [body, List.length_append, leBytes_length, hdocs, List.flatMap_append,
      List.flatMap_cons] at hfits
    omega
  have hfront := length_le_documents front
  have hreturned : ¬ (BitVec.ofNat 32 r.docs.length).toInt < front.length + 1 := by
    have hcount : (BitVec.ofNat 32 r.docs.length).toNat = front.length + (ds.length + 1) := by
      rw [hdocs, BitVec.toNat_ofNat, List.length_append, List.length_cons, Nat.mod_eq_of_lt (by omega)]
    rw [BitVec.toInt_eq_toNat_of_lt (by omega), hcount]
    omega
  have hd : d.encode.length = d.elems.length + 5 := d.encode_length
  have hdata : r.body.drop (20 + 0) = front.flatMap Doc.encode ++ (d.encode ++ ds.flatMap Doc.encode) := by
    rw [body, drop_word 4 16, drop_word 8 8, drop_word 4 4, drop_word 4 0, List.drop_zero, hdocs,
      List.flatMap_append, List.flatMap_cons]
  have hskip := skipDocuments_encode hdata (by omega)
  rw [Nat.zero_add, Int.natCast_zero] at hskip
  have hstart : sizeT (20 + ((front.flatMap Doc.encode).length : Int))
      = 20 + (front.flatMap Doc.encode).length := by
    rw [sizeT]
    omega
  have hrest : r.body.drop (20 + (front.flatMap Doc.encode).length)
      = d.encode ++ ds.flatMap Doc.encode := by
    rw [← Nat.add_zero 20, ← List.drop_drop, hdata, List.drop_left' rfl]
  have hsize : bsonStreamDocSize (d.encode ++ ds.flatMap Doc.encode) 0
      = .ok ((d.elems.length + 5 : Nat) : Int) := by
    rw [Doc.encode, frame, List.append_assoc, bsonStreamDocSize_leBytes (by omega)]
  have hcut : d.encode ++ ds.flatMap Doc.encode
      = (leBytes 4 (d.elems.length + 5) ++ d.elems) ++ ([0] ++ ds.flatMap Doc.encode) := by
    simp [Doc.encode, frame]
  have hload : load (d.encode ++ ds.flatMap Doc.encode) (d.elems.length + 4)
      = .ok (leBytes 4 (d.elems.length + 5) ++ d.elems) := by
    have hlen : d.elems.length + 4 = (leBytes 4 (d.elems.length + 5) ++ d.elems).length := by
      simp [Nat.add_comm]
    rw [hcut, hlen, load_append]
  have hwrap : wrap32 (((d.elems.length + 5 : Nat) : Int) - 1) = (d.elems.length + 4 : Nat) := by
    rw [wrap32_of_range (by omega) (by omega)]
    omega
  have hnumber : ((front.length : Int) + 1).toNat - 1 = front.length := by omega
  refine ⟨⟨leBytes 4 (d.elems.length + 5) ++ d.elems, false⟩, ?_, ?_, by omega⟩
  · rw [mongoWireReplyPacketGetNthDocument]
    rw [if_neg (by omega), if_neg (by simp [packet, header]), getHeader o h, Program.ok_bind]
    dsimp only
    rw [if_neg hreturned]
    simp only [mongoWirePacketGetData, packet]
    rw [hnumber, hskip, Program.ok_bind, hstart, bsonStreamDocSize_drop, hrest, hsize,
      Program.ok_bind, hwrap, bsonNewFromData, if_neg (by omega), Int.toNat_natCast, hload]
    rfl
  · rw [bsonFinish_open (by simp), Doc.encode, frame]

/-- The first document of a packet is the first of the reply. -/
theorem getNthDocument_first (o : ByteOrder) (h : r.Fits) {d : Doc} {ds : List Doc}
    (hdocs : r.docs = d :: ds) :
    ∃ b, mongoWireReplyPacketGetNthDocument (some (r.packet o)) 1 = .ok (.ok (some b)) ∧
      ∃ b', (bsonFinish (some b)).2 = some b' ∧ b'.Encodes d := by
  obtain ⟨b, hnth, hfinish, hsmall⟩ := r.getNthDocument_docs o h (show r.docs = [] ++ d :: ds from hdocs)
  exact ⟨b, hnth, _, hfinish, rfl, rfl, hsmall⟩

end Reply

/-! ## A script -/

/-- A node whose answers are fixed beforehand.  It accepts every packet, no matter which,
and the answers are read one after the other. -/
def scriptNet : Net Bytes where
  order := .little
  strerror _ := .ascii ['e', 'r', 'r', 'o', 'r']
  md5 _ := .ascii ['m', 'd', '5']
  tcp _ _ _ script := (.refused, script)
  unix _ _ script := (false, script)
  sendmsg _ bytes script := (.ok bytes.length, script)
  recv _ n script := (.ok (script.take n), script.drop n)
  close _ script := script

/-- How the attempts to open a connection and to send a packet end, and the bytes that
arrive.  A packet is accepted up to a number of bytes, or the socket is dead.  Once the
list is used up everything is accepted, and no connection. -/
structure Script where
  connects : List Bool
  sends : List (Option Nat)
  bytes : Bytes

/-- The net that plays a script. -/
def playNet : Net Script where
  order := .little
  strerror _ := .ascii ['e', 'r', 'r', 'o', 'r']
  md5 _ := .ascii ['m', 'd', '5']
  tcp _ _ _ s := (if s.connects.headD false then .connected else .refused,
    { s with connects := s.connects.tail })
  unix _ _ s := (false, s)
  sendmsg _ bytes s :=
    (match s.sends with
      | [] => .ok bytes.length
      | none :: _ => .error (.system 32)
      | some n :: _ => .ok (min n bytes.length), { s with sends := s.sends.tail })
  recv _ n s := (.ok (s.bytes.take n), { s with bytes := s.bytes.drop n })
  close _ s := s

end LibMongo
