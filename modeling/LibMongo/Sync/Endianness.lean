import LibMongo.Sync.Hosts

/-!
# Programs on two hosts

A program that uses the library builds packets, sends and receives them, looks at their
headers and at the replies, and calls the commands of `mongo-sync.c`.  `HostCall` is one such
call and `answers` what a program gets from a list of them.

The library does not get along with big-endian hosts.  The connection remembers the id of a
packet as the header holds it, which is little-endian, and counts on from there.  A packet that
was received has its header in the order of the host, except for the length, and the functions
that are handed one convert it once more.  Replies are told from other packets by the opcode as
it is held, and the length given for a header is converted before it is compared.
`HostCall.Steady` says of each call when none of this shows, and a program whose calls are all
steady gets the same on both hosts (`hosts_agree`).
-/

namespace LibMongo

open Bytes Program

variable {σ : Type} (N : Net σ)

/-! ## Calls -/

/-- The commands of the wire protocol. -/
inductive WireCommand where
  | update (ns : Option CString) (flags : BitVec 32) (selector update : Option Bson)
  | insertN (ns : Option CString) (n : Int) (docs : Option (List (Option Bson)))
  | query (ns : Option CString) (flags skip ret : BitVec 32) (query sel : Option Bson)
  | getMore (ns : Option CString) (ret : BitVec 32) (cursorId : BitVec 64)
  | delete (ns : Option CString) (flags : BitVec 32) (sel : Option Bson)
  | killCursors (cids : List (BitVec 64))
  | custom (db : Option CString) (flags : BitVec 32) (command : Option Bson)

/-- The packet that the library builds. -/
def WireCommand.packet (o : ByteOrder) (id : BitVec 32) : WireCommand → Except Errno MongoPacket
  | .update ns flags selector upd => mongoWireCmdUpdate o id ns flags selector upd
  | .insertN ns n docs => mongoWireCmdInsertN o id ns n docs
  | .query ns flags skip ret q sel => mongoWireCmdQuery o id ns flags skip ret q sel
  | .getMore ns ret cursorId => mongoWireCmdGetMore o id ns ret cursorId
  | .delete ns flags sel => mongoWireCmdDelete o id ns flags sel
  | .killCursors cids => mongoWireCmdKillCursors o id cids
  | .custom db flags command => mongoWireCmdCustom o id db flags command

/-- A packet that a program holds, and whether its header came from the other side. -/
structure Held where
  packet : MongoPacket
  received : Bool
deriving DecidableEq

/-- The calls of a program.  A packet is named by its number among those that it holds. -/
inductive HostCall where
  | build (c : WireCommand) (id : BitVec 32)
  | setHeader (i : Nat) (header : MongoPacketHeader)
  | setData (i : Nat) (data : Bytes) (size : Int)
  | getHeader (i : Nat)
  | getData (i : Nat)
  | replyHeader (i : Nat)
  | replyData (i : Nat)
  | replyDocument (i : Nat) (n : Int)
  | send (i : Nat)
  | recv
  | getRequestid
  | command (c : Command)
  | reply (c : ReplyCall)
  | getLastError (db : Option CString)

/-- What a call returns. -/
inductive HostAnswer where
  | done (ok : Bool)
  | header (header : Option MongoPacketHeader)
  | data (data : Option (Bytes × Int))
  | replyHeader (header : Option MongoReplyPacketHeader)
  | replyData (data : Option Bytes)
  | document (doc : Option (Option Bson))
  | requestId (id : BitVec 32)
  | lastError (error : Option (Option CString))
deriving DecidableEq

/-- The packet with this number, `NULL` if there is none. -/
def packetAt (held : List Held) (i : Nat) : Option MongoPacket := held[i]?.map Held.packet

/-- A packet is returned, which the program keeps if it is not `NULL`. -/
def keep (held : List Held) (received : Bool) (p : Option MongoPacket) : HostAnswer × List Held :=
  (.done p.isSome, held ++ (p.map fun p => ⟨p, received⟩).toList)

/-- A packet is changed by a function that may fail. -/
def changeHeld (held : List Held) (i : Nat) (f : Held → Except Errno Held) :
    Program (World σ) (HostAnswer × List Held) := do
  match ← orErrno (held[i]?.elim (.error .EINVAL) f) with
  | none => return (.done false, held)
  | some x => return (.done true, held.set i x)

/-- `mongo_packet_send`, for a packet of which the header may state less or more than its
block holds. -/
def sendHeld (p : Option MongoPacket) : Program (World σ) Bool := do
  match p with
  | none =>
      setErrno .EINVAL
      return false
  | some p =>
      let w ← get
      match p.data with
      | none => mongoPacketSend N p
      | some data =>
          if w.conn.fd < 0 then mongoPacketSend N p
          else if p.dataSize = -1 then return false
          else
            let block ← Program.ofExcept (load data (sizeT p.dataSize))
            mongoPacketSend N { p with data := some block }

/-- The call of the library, on the packets that the program holds. -/
def HostCall.run (fuel : Nat) (held : List Held) :
    HostCall → Program (World σ) (HostAnswer × List Held)
  | .build c id => keep held false <$> orErrno (c.packet N.order id)
  | .setHeader i header =>
      changeHeld held i fun x =>
        (mongoWirePacketSetHeader N.order x.packet header).map fun p => ⟨p, false⟩
  | .setData i data size =>
      changeHeld held i fun x =>
        (mongoWirePacketSetData N.order x.packet data size).map fun p => ⟨p, x.received⟩
  | .getHeader i => do
      let header ← orErrno ((packetAt held i).elim (.error .EINVAL) fun p =>
        .ok (mongoWirePacketGetHeader N.order p))
      return (.header header, held)
  | .getData i => do
      let data ← orErrno ((packetAt held i).elim (.error .EINVAL) mongoWirePacketGetData)
      return (.data data, held)
  | .replyHeader i => do
      let header ← readOrErrno (mongoWireReplyPacketGetHeader (packetAt held i))
      return (.replyHeader header, held)
  | .replyData i => do
      let data ← orErrno (mongoWireReplyPacketGetData (packetAt held i))
      return (.replyData data, held)
  | .replyDocument i n => do
      let doc ← readOrErrno (mongoWireReplyPacketGetNthDocument (packetAt held i) n)
      return (.document doc, held)
  | .send i => do
      let ok ← sendHeld N (packetAt held i)
      return (.done ok, held)
  | .recv => keep held true <$> mongoPacketRecv N
  | .getRequestid => do
      let w ← get
      return (.requestId w.conn.requestId, held)
  | .command c => do
      let ok ← c.run N fuel
      return (.done ok, held)
  | .reply c => keep held true <$> c.run N (mongoSyncReconnect N fuel)
  | .getLastError db => do
      let error ← mongoSyncCmdGetLastError N db
      return (.lastError error, held)

/-- What the calls return, until one of them halts, and the state after them. -/
def answers (fuel : Nat) : List HostCall → List Held → World σ →
    List (Except Halt HostAnswer) × World σ
  | [], _, w => ([], w)
  | c :: cs, held, w =>
      match (c.run N fuel held).exec w with
      | (.error e, w') => ([.error e], w')
      | (.ok (answer, held'), w') =>
          (.ok answer :: (answers fuel cs held' w').1, (answers fuel cs held' w').2)

/-! ## Calls on both hosts -/

/-- The packet as the other host holds it. -/
def Held.turned (x : Held) : Held where
  packet := if x.received then x.packet.turnedLength else x.packet.turned
  received := x.received

/-- The words of a header that reached the program in the order of the host are mirrored. -/
def Held.Mirrored (x : Held) : Prop :=
  x.received = true → LibMongo.Mirrored x.packet.header.id ∧
    LibMongo.Mirrored x.packet.header.respTo ∧ LibMongo.Mirrored x.packet.header.opcode

instance Held.decidableMirrored : DecidablePred Held.Mirrored := fun _ =>
  inferInstanceAs (Decidable (_ → _ ∧ _ ∧ _))

/-- A packet that was built is taken for a reply by both hosts or by none. -/
def Held.Told (x : Held) : Prop :=
  x.received = false → (ByteOrder.big.le32 x.packet.header.opcode = MongoWireOpcode.reply.code ↔
    x.packet.header.opcode = MongoWireOpcode.reply.code)

instance Held.decidableTold : DecidablePred Held.Told := fun _ =>
  inferInstanceAs (Decidable (_ → (_ ↔ _)))

/-- The call does not show the order of the host.  `w` is the state in which it is made on the
little-endian host. -/
def HostCall.Steady (fuel : Nat) (held : List Held) (w : World σ) : HostCall → Prop
  | .setHeader i header => ∀ _x ∈ held[i]?,
      (ByteOrder.big.le32 header.length).toInt < 16 ↔ header.length.toInt < 16
  | .getHeader i | .send i => ∀ x ∈ held[i]?, x.Mirrored
  | .replyHeader i | .replyData i => ∀ x ∈ held[i]?, x.Told
  | .replyDocument i n => 0 < n → ∀ x ∈ held[i]?, x.Told
  | .getRequestid => Mirrored w.conn.requestId
  | .command c => w.Meets Event.Steady ((c.run (N.on .little) fuel).exec w).2
  | .reply c => w.Meets Event.Steady
      ((c.run (N.on .little) (mongoSyncReconnect (N.on .little) fuel)).exec w).2
  | .getLastError db => w.Meets Event.Steady ((mongoSyncCmdGetLastError (N.on .little) db).exec w).2
  | .build .. | .setData .. | .getData _ | .recv => True

/-- Every call of the program is steady when it is made. -/
def SteadyCalls (fuel : Nat) : List HostCall → List Held → World σ → Prop
  | [], _, _ => True
  | c :: cs, held, w => c.Steady N fuel held w ∧
      match (c.run (N.on .little) fuel held).exec w with
      | (.error _, _) => True
      | (.ok (_, held'), w') => SteadyCalls fuel cs held' w'

instance HostCall.decidableSteady (fuel : Nat) (held : List Held) (w : World σ) :
    DecidablePred (HostCall.Steady N fuel held w)
  | .setHeader i header => inferInstanceAs (Decidable (∀ _x ∈ held[i]?,
      (ByteOrder.big.le32 header.length).toInt < 16 ↔ header.length.toInt < 16))
  | .getHeader i | .send i => inferInstanceAs (Decidable (∀ x ∈ held[i]?, x.Mirrored))
  | .replyHeader i | .replyData i => inferInstanceAs (Decidable (∀ x ∈ held[i]?, x.Told))
  | .replyDocument i n => inferInstanceAs (Decidable (0 < n → ∀ x ∈ held[i]?, x.Told))
  | .getRequestid => inferInstanceAs (Decidable (Mirrored w.conn.requestId))
  | .command c => inferInstanceAs (Decidable (w.Meets Event.Steady
      ((c.run (N.on .little) fuel).exec w).2))
  | .reply c => inferInstanceAs (Decidable (w.Meets Event.Steady
      ((c.run (N.on .little) (mongoSyncReconnect (N.on .little) fuel)).exec w).2))
  | .getLastError db => inferInstanceAs (Decidable (w.Meets Event.Steady
      ((mongoSyncCmdGetLastError (N.on .little) db).exec w).2))
  | .build .. | .setData .. | .getData _ | .recv => inferInstanceAs (Decidable True)

instance decidableSteadyCalls (fuel : Nat) : (calls : List HostCall) → (held : List Held) →
    (w : World σ) → Decidable (SteadyCalls N fuel calls held w)
  | [], _, _ => inferInstanceAs (Decidable True)
  | c :: cs, held, w =>
      have : Decidable (match (c.run (N.on .little) fuel held).exec w with
          | (.error _, _) => True
          | (.ok (_, held'), w') => SteadyCalls N fuel cs held' w') :=
        match (c.run (N.on .little) fuel held).exec w with
        | (.error _, _) => inferInstanceAs (Decidable True)
        | (.ok (_, held'), w') => decidableSteadyCalls fuel cs held' w'
      inferInstanceAs (Decidable (_ ∧ _))

theorem WireCommand.stamps (c : WireCommand) : Stamps fun o id => c.packet o id := by
  cases c with
  | update ns flags selector upd => exact mongoWireCmdUpdate_stamps ns flags selector upd
  | insertN ns n docs => exact mongoWireCmdInsertN_stamps ns n docs
  | query ns flags skip ret q sel => exact mongoWireCmdQuery_stamps ns flags skip ret q sel
  | getMore ns ret cursorId => exact mongoWireCmdGetMore_stamps ns ret cursorId
  | delete ns flags sel => exact mongoWireCmdDelete_stamps ns flags sel
  | killCursors cids => exact mongoWireCmdKillCursors_stamps cids
  | custom db flags command => exact mongoWireCmdCustom_stamps db flags command

namespace Held

variable (x : Held)

@[simp] theorem turned_data : x.turned.packet.data = x.packet.data := by
  rw [turned]
  dsimp only
  split
  · rfl
  · rfl

@[simp] theorem turned_dataSize : x.turned.packet.dataSize = x.packet.dataSize := by
  rw [turned]
  dsimp only
  split
  · rfl
  · rfl

/-- Setting the header makes it little-endian. -/
theorem turned_setHeader {header : MongoPacketHeader}
    (h : (ByteOrder.big.le32 header.length).toInt < 16 ↔ header.length.toInt < 16) :
    ((mongoWirePacketSetHeader .big x.turned.packet header).map fun p => (⟨p, false⟩ : Held))
      = ((mongoWirePacketSetHeader .little x.packet header).map fun p => ⟨p, false⟩).map
          Held.turned := by
  rw [mongoWirePacketSetHeader, mongoWirePacketSetHeader, le32_little]
  by_cases hlen : header.length.toInt < 16
  · rw [if_pos (h.mpr hlen), if_pos hlen]
    rfl
  · rw [if_neg (mt h.mp hlen), if_neg hlen, x.turned_data]
    rfl

theorem turned_setData (data : Bytes) (size : Int) :
    ((mongoWirePacketSetData .big x.turned.packet data size).map fun p =>
        (⟨p, x.turned.received⟩ : Held))
      = ((mongoWirePacketSetData .little x.packet data size).map fun p => ⟨p, x.received⟩).map
          Held.turned := by
  rw [mongoWirePacketSetData, mongoWirePacketSetData]
  split
  · rfl
  · cases hx : x.received with
    | false =>
        simp [Except.map, turned, hx, MongoPacket.turned, MongoPacketHeader.le32]
    | true => simp [Except.map, turned, hx, MongoPacket.turnedLength]

variable {x}

theorem Mirrored.turned (h : x.Mirrored) : x.turned.packet = x.packet.turned := by
  cases hx : x.received with
  | false =>
      rw [Held.turned, hx]
      rfl
  | true =>
      obtain ⟨hid, hresp, hop⟩ := h hx
      rw [Held.turned, hx]
      simp only [if_true, MongoPacket.turnedLength, MongoPacket.turned, MongoPacketHeader.le32]
      rw [hid, hresp, hop]

theorem Mirrored.getHeader (h : x.Mirrored) :
    mongoWirePacketGetHeader .big x.turned.packet = mongoWirePacketGetHeader .little x.packet := by
  rw [h.turned]
  simp [mongoWirePacketGetHeader, MongoPacket.turned, MongoPacketHeader.le32]

theorem Told.opcode (h : x.Told) : x.turned.packet.header.opcode = MongoWireOpcode.reply.code ↔
    x.packet.header.opcode = MongoWireOpcode.reply.code := by
  cases hx : x.received with
  | false =>
      rw [turned, hx]
      exact h hx
  | true =>
      rw [turned, hx]
      exact Iff.rfl

end Held

/-- The answer and the packets held afterwards, as the other host has them. -/
def turnedHeld (r : HostAnswer × List Held) : HostAnswer × List Held :=
  (r.1, r.2.map Held.turned)

section Calls

variable {good : Event → Prop} {held : List Held}

theorem packetAt_turned (held : List Held) (i : Nat) :
    packetAt (held.map Held.turned) i = held[i]?.map fun x => x.turned.packet := by
  rw [packetAt, List.getElem?_map, Option.map_map]
  rfl

/-- A call that leaves the packets alone. -/
theorem answer_matches {α : Type} {m m' : Program (World σ) α} (h : Alike good m m')
    (f : α → HostAnswer) :
    Matches good turnedHeld (do let a ← m; return (f a, held))
      (do let a ← m'; return (f a, held.map Held.turned)) :=
  h.bind fun _ => .pure rfl

/-- A packet that was built. -/
theorem keep_built {m m' : Program (World σ) (Option MongoPacket)}
    (h : Matches good (Option.map MongoPacket.turned) m m') :
    Matches good turnedHeld (keep held false <$> m) (keep (held.map Held.turned) false <$> m') := by
  rw [map_eq_pure_bind, map_eq_pure_bind]
  refine Twins.bind h fun p => .pure ?_
  cases p with
  | none => simp [keep, turnedHeld]
  | some p => simp [keep, turnedHeld, Held.turned]

/-- A packet that was received. -/
theorem keep_received {m m' : Program (World σ) (Option MongoPacket)}
    (h : Matches good (Option.map MongoPacket.turnedLength) m m') :
    Matches good turnedHeld (keep held true <$> m) (keep (held.map Held.turned) true <$> m') := by
  rw [map_eq_pure_bind, map_eq_pure_bind]
  refine Twins.bind h fun p => .pure ?_
  cases p with
  | none => simp [keep, turnedHeld]
  | some p => simp [keep, turnedHeld, Held.turned]

theorem changeHeld_matches {i : Nat} {f f' : Held → Except Errno Held}
    (h : ∀ x ∈ held[i]?, f' x.turned = (f x).map Held.turned) :
    Matches good turnedHeld (changeHeld (σ := σ) held i f)
      (changeHeld (held.map Held.turned) i f') := by
  have hf : (held.map Held.turned)[i]?.elim (.error .EINVAL) f'
      = (held[i]?.elim (.error .EINVAL) f).map Held.turned := by
    rw [List.getElem?_map]
    cases hx : held[i]? with
    | none => rfl
    | some x => exact h x hx
  refine (orErrno_matches hf).bind fun x => ?_
  cases x with
  | none => exact .pure rfl
  | some x =>
      refine .pure ?_
      rw [turnedHeld, List.map_set]

/-- A packet is sent as the other host sends it turned. -/
theorem sendHeld_alike (p : Option MongoPacket) :
    Alike good (sendHeld (N.on .little) p)
      (sendHeld (N.on .big) (p.map MongoPacket.turned)) := by
  cases p with
  | none => exact fail_alike _ _
  | some p =>
      refine Twins.get_bind fun w w' h => ?_
      rw [World.Twin.fd h]
      dsimp only [MongoPacket.turned_data, MongoPacket.turned_dataSize]
      cases p.data with
      | none => exact mongoPacketSend_alike N p w w' h
      | some data =>
          refine Twins.ite Iff.rfl (fun _ => mongoPacketSend_alike N p) (fun _ => ?_) w w' h
          refine Twins.ite Iff.rfl (fun _ => .pure rfl) (fun _ => ?_)
          refine (ofExcept_alike _).bind fun block => ?_
          exact mongoPacketSend_alike N { p with data := some block }

/-- What is read of a reply, if both packets count as one or none. -/
theorem reply_congr {p p' : MongoPacket} (hdata : p'.data = p.data)
    (hsize : p'.dataSize = p.dataSize)
    (hop : p'.header.opcode = MongoWireOpcode.reply.code ↔
      p.header.opcode = MongoWireOpcode.reply.code) :
    mongoWireReplyPacketGetHeader (some p') = mongoWireReplyPacketGetHeader (some p) ∧
      mongoWireReplyPacketGetData (some p') = mongoWireReplyPacketGetData (some p) ∧
      ∀ n, mongoWireReplyPacketGetNthDocument (some p') n
        = mongoWireReplyPacketGetNthDocument (some p) n := by
  have hget : mongoWirePacketGetData p' = mongoWirePacketGetData p := by
    rw [mongoWirePacketGetData, mongoWirePacketGetData, hdata, hsize]
  have hheader : mongoWireReplyPacketGetHeader (some p')
      = mongoWireReplyPacketGetHeader (some p) := by
    simp only [mongoWireReplyPacketGetHeader, ne_eq, hop, hget]
  refine ⟨hheader, ?_, fun n => ?_⟩
  · simp only [mongoWireReplyPacketGetData, ne_eq, hop, hget]
  · simp only [mongoWireReplyPacketGetNthDocument, ne_eq, hop, hget, hheader]

theorem reply_refused (p : Option MongoPacket) {n : Int} (h : n ≤ 0) :
    mongoWireReplyPacketGetNthDocument p n = .ok (.error .EINVAL) := by
  cases p with
  | none => rfl
  | some p => rw [mongoWireReplyPacketGetNthDocument, if_pos h]

/-- What is read of a reply that was told is read of its twin. -/
theorem reply_turned {i : Nat} (htold : ∀ x ∈ held[i]?, x.Told) :
    mongoWireReplyPacketGetHeader (packetAt (held.map Held.turned) i)
        = mongoWireReplyPacketGetHeader (packetAt held i) ∧
      mongoWireReplyPacketGetData (packetAt (held.map Held.turned) i)
        = mongoWireReplyPacketGetData (packetAt held i) ∧
      ∀ n, mongoWireReplyPacketGetNthDocument (packetAt (held.map Held.turned) i) n
        = mongoWireReplyPacketGetNthDocument (packetAt held i) n := by
  rw [packetAt_turned, packetAt]
  cases hx : held[i]? with
  | none => exact ⟨rfl, rfl, fun _ => rfl⟩
  | some x => exact reply_congr x.turned_data x.turned_dataSize (htold x hx).opcode

/-- A steady call returns the same on both hosts. -/
theorem HostCall.run_twins {fuel : Nat} {c : HostCall} {w w' : World σ} (h : w.Twin w')
    (hc : c.Steady N fuel held w) :
    ((c.run (N.on .little) fuel held).exec w).2.Twin
        ((c.run (N.on .big) fuel (held.map Held.turned)).exec w').2 ∧
      Matched (fun r r' => r' = turnedHeld r) ((c.run (N.on .little) fuel held).exec w).1
        ((c.run (N.on .big) fuel (held.map Held.turned)).exec w').1 := by
  have hall : ∀ {m m' : Program (World σ) (HostAnswer × List Held)},
      Matches (fun _ => True) turnedHeld m m' →
      (exec m w).2.Twin (exec m' w').2 ∧
        Matched (fun r r' => r' = turnedHeld r) (exec m w).1 (exec m' w').1 :=
    fun hm => (hm w w' h).same fun _ _ => trivial
  cases c with
  | build c id => exact hall (keep_built (orErrno_matches (c.stamps.turned id)))
  | setHeader i header =>
      exact hall (changeHeld_matches fun x hx => x.turned_setHeader (hc x hx))
  | setData i data size => exact hall (changeHeld_matches fun x _ => x.turned_setData data size)
  | getHeader i =>
      refine hall (answer_matches ?_ _)
      rw [packetAt_turned, packetAt]
      cases hx : held[i]? with
      | none => exact orErrno_alike _
      | some x =>
          have hheader : mongoWirePacketGetHeader (N.on .big).order x.turned.packet
              = mongoWirePacketGetHeader (N.on .little).order x.packet := (hc x hx).getHeader
          rw [Option.map_some, Option.map_some, Option.elim_some, Option.elim_some, hheader]
          exact orErrno_alike _
  | getData i =>
      refine hall (answer_matches ?_ _)
      rw [packetAt_turned, packetAt]
      cases held[i]? with
      | none => exact orErrno_alike _
      | some x =>
          have hdata : mongoWirePacketGetData x.turned.packet = mongoWirePacketGetData x.packet := by
            rw [mongoWirePacketGetData, mongoWirePacketGetData, x.turned_data, x.turned_dataSize]
          rw [Option.map_some, Option.map_some, Option.elim_some, Option.elim_some, hdata]
          exact orErrno_alike _
  | replyHeader i =>
      refine hall (answer_matches ?_ _)
      rw [(reply_turned hc).1]
      exact readOrErrno_alike _
  | replyData i =>
      refine hall (answer_matches ?_ _)
      rw [(reply_turned hc).2.1]
      exact orErrno_alike _
  | replyDocument i n =>
      refine hall (answer_matches ?_ _)
      have hdocument : mongoWireReplyPacketGetNthDocument (packetAt (held.map Held.turned) i) n
          = mongoWireReplyPacketGetNthDocument (packetAt held i) n := by
        by_cases hn : 0 < n
        · exact (reply_turned (hc hn)).2.2 n
        · rw [reply_refused _ (by omega), reply_refused _ (by omega)]
      rw [hdocument]
      exact readOrErrno_alike _
  | send i =>
      refine hall (answer_matches ?_ _)
      have hpacket : packetAt (held.map Held.turned) i
          = (packetAt held i).map MongoPacket.turned := by
        rw [packetAt_turned, packetAt]
        cases hx : held[i]? with
        | none => rfl
        | some x => exact congrArg some (hc x hx).turned
      rw [hpacket]
      exact sendHeld_alike N _
  | recv => exact hall (keep_received (mongoPacketRecv_matches N))
  | getRequestid =>
      refine ⟨h, ?_⟩
      show (HostAnswer.requestId w'.conn.requestId, held.map Held.turned)
        = (HostAnswer.requestId w.conn.requestId, held.map Held.turned)
      rw [h.conn]
      exact congrArg (fun id => (HostAnswer.requestId id, held.map Held.turned)) hc
  | command c =>
      refine (answer_matches (c.run_alike N fuel) HostAnswer.done w w' h).same ?_
      rw [exec_bind_pure_state]
      exact hc
  | reply c =>
      refine (keep_received (c.run_matches N fuel) w w' h).same ?_
      rw [map_eq_pure_bind, exec_bind_pure_state]
      exact hc
  | getLastError db =>
      refine (answer_matches (mongoSyncCmdGetLastError_alike N db) HostAnswer.lastError w w'
        h).same ?_
      rw [exec_bind_pure_state]
      exact hc

/-- What a program of steady calls gets on the two hosts, and the states that it leaves. -/
theorem answers_twins {fuel : Nat} {calls : List HostCall} {w w' : World σ} (h : w.Twin w')
    (hcalls : SteadyCalls N fuel calls held w) :
    (answers (N.on .big) fuel calls (held.map Held.turned) w').1
        = (answers (N.on .little) fuel calls held w).1 ∧
      (answers (N.on .little) fuel calls held w).2.Twin
        (answers (N.on .big) fuel calls (held.map Held.turned) w').2 := by
  induction calls generalizing held w w' with
  | nil => exact ⟨rfl, h⟩
  | cons c calls ih =>
      obtain ⟨hc, hrest⟩ := hcalls
      obtain ⟨htwin, hmatched⟩ := HostCall.run_twins N h hc
      rw [answers, answers]
      cases hrun : (c.run (N.on .little) fuel held).exec w with
      | mk r v =>
          cases hrun' : (c.run (N.on .big) fuel (held.map Held.turned)).exec w' with
          | mk r' v' =>
              rw [hrun, hrun'] at htwin hmatched
              rw [hrun] at hrest
              cases r with
              | error e =>
                  cases r' with
                  | error e' =>
                      cases hmatched
                      exact ⟨rfl, htwin⟩
                  | ok x' => cases hmatched
              | ok x =>
                  cases r' with
                  | error e' => cases hmatched
                  | ok x' =>
                      cases hmatched
                      obtain ⟨hanswers, hlast⟩ := ih htwin hrest
                      exact ⟨congrArg (Except.ok x.1 :: ·) hanswers, hlast⟩

end Calls

/-- A fresh connection to a node that answers with the bytes. -/
def freshWorld (bytes : Bytes) : World Bytes :=
  ⟨bytes, mongoSyncConnInit ⟨5, 0⟩ true, .ok, 6, []⟩

/-- A packet with the id is built and sent, and a ping follows. -/
def sendAndPing (id : BitVec 32) : List HostCall :=
  [.build (.killCursors [5]) id, .send 0, .getRequestid, .getHeader 0, .command .ping]

end LibMongo
