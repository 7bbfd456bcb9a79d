import LibMongo.Bson.Inside
import LibMongo.Wire.Reply

/-!
# Replies from a hostile server

What `mongo_packet_recv` asks for and returns when the header is any sixteen bytes
(`receives_soundly_iff`), and what the functions that read a reply packet read when its
data is any bytes.  `hostile_reply_iff` puts the two together: each is sound exactly
under a bound that the source does not check.

`mongo_wire_reply_packet_get_data` only computes a pointer, so it reads nothing.
-/

namespace LibMongo

open Bytes Program

variable {σ : Type}

/-! ## What is asked for -/

/-- The net, with a list of what `recv` was asked for. -/
def Net.recording (N : Net σ) : Net (σ × List (Int × Nat)) where
  order := N.order
  strerror := N.strerror
  md5 := N.md5
  tcp fd host port s := ((N.tcp fd host port s.1).1, (N.tcp fd host port s.1).2, s.2)
  unix fd path s := ((N.unix fd path s.1).1, (N.unix fd path s.1).2, s.2)
  sendmsg fd bytes s := ((N.sendmsg fd bytes s.1).1, (N.sendmsg fd bytes s.1).2, s.2)
  recv fd n s := ((N.recv fd n s.1).1, (N.recv fd n s.1).2, s.2 ++ [(fd, n)])
  close fd s := (N.close fd s.1, s.2)
  freed s := N.freed s.1

/-- The state with a note of what was asked of `recv`. -/
def World.recording (w : World σ) : World (σ × List (Int × Nat)) :=
  ⟨(w.net, []), w.conn, w.errno, w.nextFd, w.log⟩

variable (N : Net σ) (w : World σ)

/-- The header of the next packet, if it is received whole. -/
def Net.header : Option MongoPacketHeader :=
  if w.conn.fd < 0 then none
  else
    match (N.recv w.conn.fd 16 w.net).1 with
    | .error _ => none
    | .ok head => if head.length = 16 then some (loadHeader N.order head) else none

/-- The body behind that header, if it is received whole. -/
def Net.body (h : MongoPacketHeader) : Option Bytes :=
  match (N.recv w.conn.fd (h.length - 16).toNat (N.recv w.conn.fd 16 w.net).2).1 with
  | .error _ => none
  | .ok body => if body.length = (h.length - 16).toNat then some body else none

/-- A packet is returned only with a body as long as its header says, and a body is
asked for only if there is one. -/
structure ReceivesSoundly (N : Net σ) (w : World σ) : Prop where
  asks : ((mongoPacketRecv N.recording).exec w.recording).2.net.2.length ≤ 1 ∨
    ∃ h, N.header w = some h ∧ 16 < h.length.toInt ∧
      ((mongoPacketRecv N.recording).exec w.recording).2.net.2
        = [(w.conn.fd, 16), (w.conn.fd, (h.length.toInt - 16).toNat)]
  returns : ∀ p w', (mongoPacketRecv N).exec w = (.ok (some p), w') →
    ∃ h body, N.header w = some h ∧ 16 < h.length.toInt ∧ N.body w h = some body ∧
      p.data = some body ∧ (body.length : Int) = h.length.toInt - 16

/-- What `recv` delivers counts if it is as long as asked for, and so does a failure if
the length asked for is the largest. -/
def whole (size : BitVec 32) : Except Errno Bytes → Option Bytes
  | .error _ => if size = -1 then some [] else none
  | .ok bytes => if bytes.length = size.toNat then some bytes else none

theorem exec_recvAll (fd : Int) (size : BitVec 32) :
    ∃ e, (recvAll N fd size).exec w = (.ok (whole size (N.recv fd size.toNat w.net).1),
      { w with net := (N.recv fd size.toNat w.net).2, errno := e }) := by
  cases hrecv : (N.recv fd size.toNat w.net).1 with
  | error e =>
      refine ⟨e, ?_⟩
      rw [recvAll, exec_bind_ok (exec_system (Prod.ext hrecv rfl))]
      rfl
  | ok bytes =>
      refine ⟨w.errno, ?_⟩
      rw [recvAll, exec_bind_ok (exec_system (Prod.ext hrecv rfl))]
      rfl

/-- Without a whole header nothing more is asked for. -/
theorem exec_recv_noHeader (h : N.header w = none) :
    ∃ e s, (mongoPacketRecv N).exec w = (.ok none, { w with net := s, errno := e }) ∧
      (s = w.net ∨ ¬ w.conn.fd < 0 ∧ s = (N.recv w.conn.fd 16 w.net).2) := by
  rw [mongoPacketRecv, exec_get_bind]
  by_cases hfd : w.conn.fd < 0
  · rw [if_pos hfd]
    exact ⟨.EBADF, w.net, rfl, .inl rfl⟩
  · obtain ⟨e, hhead⟩ := exec_recvAll N w w.conn.fd 16
    rw [if_neg hfd, exec_bind_ok hhead]
    have hnone : whole 16 (N.recv w.conn.fd 16 w.net).1 = none := by
      rw [Net.header, if_neg hfd] at h
      cases hrecv : (N.recv w.conn.fd 16 w.net).1 with
      | error e => rfl
      | ok head =>
          simp only [hrecv] at h
          split at h
          next => cases h
          next hlen => exact if_neg hlen
    refine ⟨e, _, ?_, .inr ⟨hfd, rfl⟩⟩
    have h16 : (16 : BitVec 32).toNat = 16 := rfl
    rw [h16, hnone]
    rfl

/-- With one the body is asked for, of the size that the header says, in 32 bits. -/
theorem exec_recv_header {h : MongoPacketHeader} (hheader : N.header w = some h) :
    ∃ e, (mongoPacketRecv N).exec w
      = match whole (h.length - 16) (N.recv w.conn.fd (h.length - 16).toNat
          (N.recv w.conn.fd 16 w.net).2).1 with
        | none => (.ok none, { w with
            net := (N.recv w.conn.fd (h.length - 16).toNat (N.recv w.conn.fd 16 w.net).2).2
            errno := e })
        | some data => (orErrno (mongoWirePacketSetData N.order
            (mongoWirePacketSetHeaderRaw (mongoWirePacketNew N.order) h) data
              (h.length - 16).toInt)).exec { w with
            net := (N.recv w.conn.fd (h.length - 16).toNat (N.recv w.conn.fd 16 w.net).2).2
            errno := e } := by
  have h16 : (16 : BitVec 32).toNat = 16 := rfl
  rw [Net.header] at hheader
  split at hheader
  next => cases hheader
  next hfd =>
    obtain ⟨e, hhead⟩ := exec_recvAll N w w.conn.fd 16
    rw [h16] at hhead
    cases hrecv : (N.recv w.conn.fd 16 w.net).1 with
    | error e =>
        rw [hrecv] at hheader
        cases hheader
    | ok head =>
        simp only [hrecv] at hheader hhead
        split at hheader
        next hlen =>
          cases hheader
          have hwhole : whole 16 (.ok head) = some head := if_pos hlen
          rw [hwhole] at hhead
          obtain ⟨e', hbody⟩ := exec_recvAll N
            { w with net := (N.recv w.conn.fd 16 w.net).2, errno := e } w.conn.fd
            ((loadHeader N.order head).length - 16)
          refine ⟨e', ?_⟩
          rw [mongoPacketRecv, exec_get_bind, if_neg hfd, exec_bind_ok hhead]
          dsimp only
          rw [exec_bind_ok hbody]
          cases whole ((loadHeader N.order head).length - 16) _ with
          | none => rfl
          | some data => rfl
        next => cases hheader

section Receiving

variable {N w}

theorem header_recording : N.recording.header w.recording = N.header w := rfl

/-- The requests of a call that gets a header. -/
theorem requests_header {h : MongoPacketHeader} (hheader : N.header w = some h) :
    ((mongoPacketRecv N.recording).exec w.recording).2.net.2
      = [(w.conn.fd, 16), (w.conn.fd, (h.length - 16).toNat)] := by
  obtain ⟨e, hexec⟩ := exec_recv_header N.recording w.recording (header_recording.trans hheader)
  rw [hexec]
  cases whole (h.length - 16) _ with
  | none => rfl
  | some data =>
      dsimp only
      cases mongoWirePacketSetData N.recording.order _ data (h.length - 16).toInt with
      | error e => rfl
      | ok p => rfl

/-- A length above sixteen is the length of the body and sixteen. -/
theorem body_size {length : BitVec 32} (h : 16 < length.toInt) :
    ((length - 16).toNat : Int) = length.toInt - 16 ∧ (length - 16).toInt = length.toInt - 16 := by
  have hnat := length.toInt_eq_toNat_cond
  have hlt := length.isLt
  have h16 : (16 : BitVec 32).toNat = 16 := rfl
  have hpos : length.toInt = length.toNat := by
    split at hnat
    next => exact hnat
    next => omega
  have hsub : (length - 16).toNat = length.toNat - 16 := by
    rw [BitVec.toNat_sub_of_le (by rw [BitVec.le_def]; omega), h16]
  have hsmall : 2 * length.toNat < 2 ^ 32 := by
    by_contra hbig
    rw [if_neg hbig] at hnat
    omega
  refine ⟨by omega, ?_⟩
  rw [BitVec.toInt_eq_toNat_of_lt (by omega), hsub]
  omega

/-- The packet made of a header and a body. -/
def receivedPacket (o : ByteOrder) (h : MongoPacketHeader) (body : Bytes) : MongoPacket where
  header := { h with length := o.le32 (BitVec.ofInt 32 ((h.length - 16).toInt + 16)) }
  data := some body
  dataSize := (h.length - 16).toInt

theorem body_length {h : MongoPacketHeader} (hlong : 16 < h.length.toInt) {body : Bytes}
    (hbody : N.body w h = some body) : (body.length : Int) = h.length.toInt - 16 := by
  rw [Net.body] at hbody
  split at hbody
  next => cases hbody
  next bytes hrecv =>
    split at hbody
    next hlen =>
      cases hbody
      rw [hlen, (body_size hlong).1]
    next => cases hbody

/-- With a header whose length is above sixteen a packet is returned if the body is whole. -/
theorem exec_recv_long {h : MongoPacketHeader} (hheader : N.header w = some h)
    (hlong : 16 < h.length.toInt) :
    ∃ e, (mongoPacketRecv N).exec w = (.ok ((N.body w h).map (receivedPacket N.order h)),
      { w with
        net := (N.recv w.conn.fd (h.length - 16).toNat (N.recv w.conn.fd 16 w.net).2).2
        errno := e }) := by
  obtain ⟨hsize, hint⟩ := body_size hlong
  obtain ⟨e, hrun⟩ := exec_recv_header N w hheader
  refine ⟨e, ?_⟩
  rw [hrun, Net.body]
  cases hrecv : (N.recv w.conn.fd (h.length - 16).toNat (N.recv w.conn.fd 16 w.net).2).1 with
  | error err =>
      have hne : h.length - 16 ≠ -1 := by
        intro heq
        have hval : (h.length - 16).toNat = 4294967295 := by rw [heq]; rfl
        have hlt := (h.length - 16).toInt_eq_toNat_cond
        rw [if_neg (by omega)] at hlt
        omega
      rw [whole, if_neg hne]
      rfl
  | ok bytes =>
      rw [whole]
      by_cases hlen : bytes.length = (h.length - 16).toNat
      · have hall : bytes.take (h.length - 16).toInt.toNat = bytes :=
          List.take_of_length_le (by omega)
        dsimp only
        rw [if_pos hlen]
        dsimp only
        rw [mongoWirePacketSetData, if_neg (by omega), hall]
        rfl
      · dsimp only
        rw [if_neg hlen]
        rfl

/-- What is returned with a header whose length is above sixteen. -/
theorem returns_header {h : MongoPacketHeader} (hheader : N.header w = some h)
    (hlong : 16 < h.length.toInt) {p : MongoPacket} {w' : World σ}
    (hexec : (mongoPacketRecv N).exec w = (.ok (some p), w')) :
    ∃ body, N.body w h = some body ∧ p = receivedPacket N.order h body := by
  obtain ⟨e, hrun⟩ := exec_recv_long hheader hlong
  rw [hrun] at hexec
  have hp := Except.ok.inj (congrArg Prod.fst hexec)
  cases hbody : N.body w h with
  | none =>
      rw [hbody] at hp
      cases hp
  | some body =>
      rw [hbody] at hp
      exact ⟨body, rfl, (Option.some.inj hp).symm⟩

/-- `mongo_packet_recv` is sound exactly with a length above sixteen. -/
theorem receives_soundly_iff :
    ReceivesSoundly N w ↔ ∀ h, N.header w = some h → 16 < h.length.toInt := by
  constructor
  · intro hsound h hheader
    have hrequests := requests_header hheader
    rcases hsound.asks with hfew | ⟨h', hheader', hlong, -⟩
    · rw [hrequests] at hfew
      exact absurd hfew (Nat.not_succ_le_self 1)
    · have heq : h = h' := Option.some.inj (hheader.symm.trans hheader')
      rwa [heq]
  · intro hlong
    cases hheader : N.header w with
    | none =>
        refine ⟨.inl ?_, fun p w' hexec => ?_⟩
        · obtain ⟨e, s, hexec, hs⟩ := exec_recv_noHeader N.recording w.recording
            (header_recording.trans hheader)
          rw [hexec]
          rcases hs with rfl | ⟨-, rfl⟩
          · exact Nat.zero_le _
          · exact le_rfl
        · obtain ⟨e, s, hnone, -⟩ := exec_recv_noHeader N w hheader
          rw [hnone] at hexec
          cases hexec
    | some h =>
        have h16 := hlong h hheader
        obtain ⟨hsize, -⟩ := body_size h16
        refine ⟨.inr ⟨h, hheader, h16, ?_⟩, fun p w' hexec => ?_⟩
        · rw [requests_header hheader, ← hsize, Int.toNat_natCast]
        · obtain ⟨body, hbody, rfl⟩ := returns_header hheader h16 hexec
          exact ⟨h, body, hheader, h16, hbody, rfl, body_length h16 hbody⟩

end Receiving

/-! ## What is read of a packet -/

/-- From the document at `pos`, counted from byte 20 of the data, `n` documents are
skipped, and the one behind them states a size and lies in the data. -/
def DocumentLies (data : Bytes) : Nat → Int → Prop
  | 0, pos => ∃ size, -20 ≤ pos ∧ bsonStreamDocSize data (20 + pos).toNat = .ok size ∧
      0 < wrap32 (size - 1) ∧ 20 + pos + wrap32 (size - 1) ≤ data.length
  | n + 1, pos => ∃ size, -20 ≤ pos ∧ bsonStreamDocSize data (20 + pos).toNat = .ok size ∧
      DocumentLies data n (wrap32 (pos + size))

/-- The number of documents a reply states. -/
def returnedCount (data : Bytes) : Int := (BitVec.ofNat 32 (leNat ((data.drop 16).take 4))).toInt

/-- What reading the document `n` takes. -/
def NthFits (p : MongoPacket) (data : Bytes) (n : Int) : Prop :=
  0 < n → p.header.opcode = MongoWireOpcode.reply.code →
    20 ≤ data.length ∧ (n ≤ returnedCount data → DocumentLies data (n.toNat - 1) 0)

/-- Reading the document `n` stays in the data, and a document that is returned is a
part of it. -/
structure NthInside (p : MongoPacket) (data : Bytes) (n : Int) : Prop where
  stays : Stays (mongoWireReplyPacketGetNthDocument (some p) n)
  document : ∀ doc, mongoWireReplyPacketGetNthDocument (some p) n = .ok (.ok doc) →
    ∃ b pos, doc = some b ∧ pos + b.data.length ≤ data.length ∧
      b.data = (data.drop pos).take b.data.length

section Reading

variable {p : MongoPacket} {data : Bytes}

theorem getHeader_eq (hdata : p.data = some data)
    (hopcode : p.header.opcode = MongoWireOpcode.reply.code) :
    mongoWireReplyPacketGetHeader (some p) = do
      let h ← load data 20
      return .ok
        { flags := BitVec.ofNat 32 (leNat (h.take 4))
          cursorId := BitVec.ofNat 64 (leNat ((h.drop 4).take 8))
          start := BitVec.ofNat 32 (leNat ((h.drop 12).take 4))
          returned := BitVec.ofNat 32 (leNat ((h.drop 16).take 4)) } := by
  rw [mongoWireReplyPacketGetHeader, if_neg (not_not_intro hopcode)]
  simp only [mongoWirePacketGetData, hdata]

theorem stays_getHeader (hdata : p.data = some data) :
    Stays (mongoWireReplyPacketGetHeader (some p)) ↔
      (p.header.opcode = MongoWireOpcode.reply.code → 20 ≤ data.length) := by
  by_cases hopcode : p.header.opcode = MongoWireOpcode.reply.code
  · rw [getHeader_eq hdata hopcode, Stays.bind_iff, and_iff_left fun _ _ => .ok _]
    have hload : Stays (load (data.drop 0) 20) ↔ 0 + 20 ≤ data.length := stays_load (by decide)
    rw [List.drop_zero, Nat.zero_add] at hload
    rw [hload]
    exact ⟨fun h _ => h, fun h => h hopcode⟩
  · rw [mongoWireReplyPacketGetHeader, if_pos hopcode]
    exact iff_of_true (.ok _) fun h => absurd h hopcode

/-- A position is the offset from byte 20, and one in front of the block is outside. -/
theorem docSize_at (hsmall : data.length ≤ 2147483648) {pos : Int} (hlow : -2147483648 ≤ pos)
    (hhigh : pos < 2147483648) (size : Int) :
    bsonStreamDocSize data (sizeT (20 + pos)) = .ok size ↔
      -20 ≤ pos ∧ bsonStreamDocSize data (20 + pos).toNat = .ok size := by
  by_cases hpos : -20 ≤ pos
  · have heq : sizeT (20 + pos) = (20 + pos).toNat := by
      unfold sizeT
      omega
    rw [heq, and_iff_right hpos]
  · refine iff_of_false (fun h => ?_) (fun h => hpos h.1)
    have hin := (docSize_le h).1
    unfold sizeT at hin
    omega

/-- The document behind `n` others. -/
def readDocument (data : Bytes) (n : Nat) (pos : Int) : Except Halt (Option Bson) := do
  let pos ← skipDocuments data n pos
  let size ← bsonStreamDocSize data (sizeT (20 + pos))
  bsonNewFromData (some (data.drop (sizeT (20 + pos)))) (wrap32 (size - 1))

/-- It is read inside the data, and lies there. -/
def DocumentInside (data : Bytes) (x : Except Halt (Option Bson)) : Prop :=
  Stays x ∧ ∀ doc, x = .ok doc → ∃ b pos, doc = some b ∧ pos + b.data.length ≤ data.length ∧
    b.data = (data.drop pos).take b.data.length

theorem newFromData_inside {pos : Nat} {size : Int} :
    DocumentInside data (bsonNewFromData (some (data.drop pos)) size) ↔
      0 < size ∧ pos + size ≤ data.length := by
  rw [bsonNewFromData]
  by_cases hsize : size ≤ 0
  · rw [if_pos hsize]
    refine iff_of_false (fun h => ?_) (fun h => by omega)
    obtain ⟨b, pos, hb, -⟩ := h.2 none rfl
    cases hb
  · rw [if_neg hsize]
    have hload : Stays (load (data.drop pos) size.toNat) ↔ pos + size.toNat ≤ data.length :=
      stays_load (by omega)
    constructor
    · rintro ⟨hstays, -⟩
      have := hload.mp (Stays.bind_iff.mp hstays).1
      omega
    · rintro ⟨hpos, hfits⟩
      refine ⟨Stays.bind_iff.mpr ⟨hload.mpr (by omega), fun _ _ => .ok _⟩, fun doc hdoc => ?_⟩
      obtain ⟨bytes, hbytes, hrest⟩ := Program.bind_eq_ok.mp hdoc
      obtain ⟨hle, rfl⟩ := load_ok hbytes
      cases hrest
      refine ⟨_, pos, rfl, ?_, ?_⟩
      · simp only [List.length_take, List.length_drop] at hle ⊢
        omega
      · simp only [List.length_take, List.length_drop] at hle ⊢
        rw [Nat.min_eq_left hle]

/-- A document that is read behind a size. -/
theorem documentInside_bind (hsmall : data.length ≤ 2147483648) {pos : Int}
    (hlow : -2147483648 ≤ pos) (hhigh : pos < 2147483648) (f : Int → Except Halt (Option Bson)) :
    DocumentInside data (bsonStreamDocSize data (sizeT (20 + pos)) >>= f) ↔
      ∃ size, -20 ≤ pos ∧ bsonStreamDocSize data (20 + pos).toNat = .ok size ∧
        DocumentInside data (f size) := by
  constructor
  · rintro ⟨hstays, hdoc⟩
    have hsize := (Stays.bind_iff.mp hstays).1
    obtain ⟨size, hsize⟩ := (Stays.iff_ok fun _ => bsonStreamDocSize_error).mp hsize
    obtain ⟨hpos, hsize'⟩ := (docSize_at hsmall hlow hhigh size).mp hsize
    rw [hsize, Program.ok_bind] at hstays hdoc
    exact ⟨size, hpos, hsize', hstays, hdoc⟩
  · rintro ⟨size, hpos, hsize, hrest⟩
    rw [(docSize_at hsmall hlow hhigh size).mpr ⟨hpos, hsize⟩, Program.ok_bind]
    exact hrest

theorem readDocument_inside (hsmall : data.length ≤ 2147483648) (n : Nat) {pos : Int}
    (hlow : -2147483648 ≤ pos) (hhigh : pos < 2147483648) :
    DocumentInside data (readDocument data n pos) ↔ DocumentLies data n pos := by
  induction n generalizing pos with
  | zero =>
      rw [readDocument, skipDocuments, Program.ok_bind, documentInside_bind hsmall hlow hhigh,
        DocumentLies]
      refine exists_congr fun size => and_congr_right fun hpos => and_congr_right fun hsize => ?_
      have heq : sizeT (20 + pos) = (20 + pos).toNat := by
        unfold sizeT
        omega
      rw [newFromData_inside, heq]
      refine and_congr_right fun _ => ?_
      omega
  | succ n ih =>
      have hsucc : readDocument data (n + 1) pos
          = bsonStreamDocSize data (sizeT (20 + pos)) >>= fun size =>
              readDocument data n (wrap32 (pos + size)) := by
        rw [readDocument, skipDocuments]
        cases bsonStreamDocSize data (sizeT (20 + pos)) with
        | error e => rfl
        | ok size => rfl
      rw [hsucc, documentInside_bind hsmall hlow hhigh, DocumentLies]
      exact exists_congr fun size => and_congr_right fun _ => and_congr_right fun _ =>
        ih (le_wrap32 _) (wrap32_lt _)

theorem nthInside_iff (hdata : p.data = some data) (hsmall : data.length ≤ 2147483648) (n : Int) :
    NthInside p data n ↔ NthFits p data n := by
  by_cases hn : n ≤ 0
  · have hfalse : mongoWireReplyPacketGetNthDocument (some p) n = .ok (.error .EINVAL) := by
      rw [mongoWireReplyPacketGetNthDocument, if_pos hn]
    refine iff_of_true ⟨by rw [hfalse]; exact .ok _, fun doc hdoc => ?_⟩ (fun hpos => by omega)
    rw [hfalse] at hdoc
    cases hdoc
  by_cases hopcode : p.header.opcode = MongoWireOpcode.reply.code
  case neg =>
    have hfalse : mongoWireReplyPacketGetNthDocument (some p) n = .ok (.error .EPROTO) := by
      rw [mongoWireReplyPacketGetNthDocument, if_neg hn, if_pos hopcode]
    refine iff_of_true ⟨by rw [hfalse]; exact .ok _, fun doc hdoc => ?_⟩
      (fun _ h => absurd h hopcode)
    rw [hfalse] at hdoc
    cases hdoc
  have hnth : mongoWireReplyPacketGetNthDocument (some p) n = (do
      let h ← load data 20
      if (BitVec.ofNat 32 (leNat ((h.drop 16).take 4))).toInt < n then return .error .ERANGE
      else
        let doc ← readDocument data (n.toNat - 1) 0
        return .ok doc) := by
    rw [mongoWireReplyPacketGetNthDocument, if_neg hn, if_neg (not_not_intro hopcode),
      getHeader_eq hdata hopcode]
    cases load data 20 with
    | error e => rfl
    | ok h =>
        simp only [Program.ok_bind, mongoWirePacketGetData, hdata, readDocument, bind_assoc]
        rfl
  by_cases hlong : 20 ≤ data.length
  case neg =>
    refine iff_of_false (fun h => ?_) (fun h => hlong (h (by omega) hopcode).1)
    have hload := h.stays
    rw [hnth, load, if_neg hlong] at hload
    exact hload rfl
  have hload : load data 20 = .ok (data.take 20) := by rw [load, if_pos hlong]
  have hcount : (BitVec.ofNat 32 (leNat (((data.take 20).drop 16).take 4))).toInt
      = returnedCount data := by
    rw [returnedCount, List.drop_take, List.take_take]
    rfl
  rw [hload, Program.ok_bind, hcount] at hnth
  by_cases hreturned : returnedCount data < n
  · rw [if_pos hreturned] at hnth
    refine iff_of_true ⟨by rw [hnth]; exact .ok _, fun doc hdoc => ?_⟩
      (fun _ _ => ⟨hlong, fun h => by omega⟩)
    rw [hnth] at hdoc
    cases hdoc
  · rw [if_neg hreturned] at hnth
    have hlies : DocumentInside data (readDocument data (n.toNat - 1) 0)
        ↔ DocumentLies data (n.toNat - 1) 0 :=
      readDocument_inside hsmall (n.toNat - 1) (by decide) (by decide)
    constructor
    · rintro ⟨hstays, hdoc⟩ _ _
      refine ⟨hlong, fun _ => hlies.mp ⟨?_, fun doc hread => ?_⟩⟩
      · rw [hnth] at hstays
        exact (Stays.bind_iff.mp hstays).1
      · apply hdoc
        rw [hnth, hread]
        rfl
    · intro hfits
      obtain ⟨hstays, hdoc⟩ := hlies.mpr ((hfits (by omega) hopcode).2 (by omega))
      refine ⟨?_, fun doc hread => ?_⟩
      · rw [hnth]
        exact Stays.bind_iff.mpr ⟨hstays, fun _ _ => .ok _⟩
      · rw [hnth] at hread
        obtain ⟨doc', hdoc', hrest⟩ := Program.bind_eq_ok.mp hread
        cases hrest
        exact hdoc doc hdoc'

end Reading

/-! ## Any stream of bytes -/

/-- A receive is sound, and so is every reading of the packet it returns. -/
structure ReadsSoundly (N : Net σ) (w : World σ) : Prop where
  receives : ReceivesSoundly N w
  header : ∀ p w' data, (mongoPacketRecv N).exec w = (.ok (some p), w') → p.data = some data →
    Stays (mongoWireReplyPacketGetHeader (some p))
  documents : ∀ p w' data, (mongoPacketRecv N).exec w = (.ok (some p), w') →
    p.data = some data → ∀ n, NthInside p data n

/-- The body of a reply has room for the reply header and for every document that this
counts. -/
def ReplyHolds (body : Bytes) : Prop :=
  20 ≤ body.length ∧ ∀ n : Nat, (n : Int) < returnedCount body → DocumentLies body n 0

/-- The next header states a body, and a body that is a reply holds what it counts. -/
def ServedSoundly (N : Net σ) (w : World σ) : Prop :=
  ∀ h, N.header w = some h → 16 < h.length.toInt ∧
    ∀ body, N.body w h = some body → h.opcode = MongoWireOpcode.reply.code → ReplyHolds body

/-- All documents of a packet can be read when the body holds them, and only then. -/
theorem replyHolds_iff {p : MongoPacket} {data : Bytes} (hdata : p.data = some data)
    (hsmall : data.length ≤ 2147483648) :
    (Stays (mongoWireReplyPacketGetHeader (some p)) ∧ ∀ n, NthInside p data n) ↔
      (p.header.opcode = MongoWireOpcode.reply.code → ReplyHolds data) := by
  rw [stays_getHeader hdata]
  constructor
  · rintro ⟨hlong, hall⟩ hopcode
    refine ⟨hlong hopcode, fun n hn => ?_⟩
    have hfits := (nthInside_iff hdata hsmall (n + 1)).mp (hall (n + 1)) (by omega) hopcode
    exact hfits.2 (by omega)
  · intro h
    refine ⟨fun hopcode => (h hopcode).1, fun n => ?_⟩
    rw [nthInside_iff hdata hsmall]
    intro hn hopcode
    refine ⟨(h hopcode).1, fun hcount => (h hopcode).2 (n.toNat - 1) ?_⟩
    omega

theorem hostile_reply_iff (N : Net σ) (w : World σ) : ReadsSoundly N w ↔ ServedSoundly N w := by
  constructor
  · intro hsound h hheader
    have hlong := receives_soundly_iff.mp hsound.receives h hheader
    refine ⟨hlong, fun body hbody hopcode => ?_⟩
    obtain ⟨e, hexec⟩ := exec_recv_long hheader hlong
    rw [hbody] at hexec
    have hsmall := body_length hlong hbody
    have hlt := h.length.toInt_lt
    have hdata : (receivedPacket N.order h body).data = some body := rfl
    exact (replyHolds_iff hdata (by omega)).mp
      ⟨hsound.header _ _ _ hexec hdata, hsound.documents _ _ _ hexec hdata⟩ hopcode
  · intro hserved
    have hreads : ∀ p w' data, (mongoPacketRecv N).exec w = (.ok (some p), w') →
        p.data = some data →
        Stays (mongoWireReplyPacketGetHeader (some p)) ∧ ∀ n, NthInside p data n := by
      intro p w' data hexec hdata
      cases hheader : N.header w with
      | none =>
          obtain ⟨e, s, hnone, -⟩ := exec_recv_noHeader N w hheader
          rw [hnone] at hexec
          cases hexec
      | some h =>
          obtain ⟨hlong, hholds⟩ := hserved h hheader
          obtain ⟨body, hbody, rfl⟩ := returns_header hheader hlong hexec
          cases hdata
          have hsmall := body_length hlong hbody
          have hlt := h.length.toInt_lt
          exact (replyHolds_iff rfl (by omega)).mpr (hholds data hbody)
    exact ⟨receives_soundly_iff.mpr fun h hheader => (hserved h hheader).1,
      fun p w' data hexec hdata => (hreads p w' data hexec hdata).1,
      fun p w' data hexec hdata => (hreads p w' data hexec hdata).2⟩

/-- A connection on a socket. -/
def socketWorld (s : σ) : World σ where
  net := s
  conn :=
    { fd := 5
      requestId := 0
      slaveok := true
      safeMode := false
      autoReconnect := false
      lastError := none
      maxInsertSize := 1000
      rs := ⟨[], [], none⟩
      auth := ⟨none, none, none⟩
      recoveryCache := none }
  errno := .ok
  nextFd := 6
  log := []

/-- A header that states the length zero. -/
def emptyHeader : Bytes := List.replicate 16 0

/-- A reply of one byte. -/
def shortReply : Bytes := [17, 0, 0, 0] ++ List.replicate 8 0 ++ [1, 0, 0, 0] ++ [0]

/-- A reply that counts one document, which states a size of one. -/
def sizelessReply : Bytes :=
  [40, 0, 0, 0] ++ List.replicate 8 0 ++ [1, 0, 0, 0] ++
    (List.replicate 16 0 ++ [1, 0, 0, 0]) ++ [1, 0, 0, 0]

/-- For the first a body of almost four gigabytes is asked for, in the second the header
is read behind the data, and the third yields a `NULL` document with `TRUE`. -/
theorem hostile_reply_unsound :
    ¬ ReadsSoundly scriptNet (socketWorld emptyHeader) ∧
      ¬ ReadsSoundly scriptNet (socketWorld shortReply) ∧
      ¬ ReadsSoundly scriptNet (socketWorld sizelessReply) := by
  refine ⟨fun h => ?_, fun h => ?_, fun h => ?_⟩
  · have hasked : ((mongoPacketRecv scriptNet.recording).exec
        (socketWorld emptyHeader).recording).2.net.2 = [(5, 16), (5, 4294967280)] := by decide
    rcases h.receives.asks with hfew | ⟨head, hheader, hlong, -⟩
    · rw [hasked] at hfew
      exact absurd hfew (by decide)
    · have hread : scriptNet.header (socketWorld emptyHeader) = some ⟨0, 0, 0, 0⟩ := by decide
      rw [hread] at hheader
      cases hheader
      exact absurd hlong (by decide)
  · exact h.header (receivedPacket .little ⟨17, 0, 0, 1⟩ [0]) _ [0] rfl rfl rfl
  · have hread : mongoWireReplyPacketGetNthDocument
        (some (receivedPacket .little ⟨40, 0, 0, 1⟩ (sizelessReply.drop 16))) 1 = .ok (.ok none) := by
      decide +kernel
    obtain ⟨b, pos, hdoc, -⟩ := (h.documents _ _ _ rfl rfl 1).document none hread
    cases hdoc

end LibMongo
