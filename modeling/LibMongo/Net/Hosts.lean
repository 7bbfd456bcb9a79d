import LibMongo.Base.Twins
import LibMongo.Net.Client

/-!
# Two hosts

The library on a little-endian host and on a big-endian one, with the same outside.  A packet
that the library builds holds its header in little-endian, so on the other host all four words
of it are turned (`MongoPacket.turned`).  Of a packet that was received only the length is
(`MongoPacket.turnedLength`).  The connection remembers the id of a packet as the header holds
it, so the id it remembers is turned as well.

`hostFrame` relates the states of the two hosts.  A step is steady as long as no packet is
handed out whose id follows on an id that is another one when it is turned.
-/

namespace LibMongo

open Bytes Program

/-! ## Words and packets -/

/-- The word is the same with its bytes in the other order. -/
def Mirrored (x : BitVec 32) : Prop := ByteOrder.big.le32 x = x

instance (x : BitVec 32) : Decidable (Mirrored x) := inferInstanceAs (Decidable (_ = _))

@[simp] theorem le32_little (x : BitVec 32) : ByteOrder.little.le32 x = x := rfl

@[simp] theorem le32_big_zero : ByteOrder.big.le32 0#32 = 0#32 := by decide

@[simp] theorem le32_big_neg_one : ByteOrder.big.le32 (-1) = -1 := by decide

/-- The packet as the other host builds it. -/
def MongoPacket.turned (p : MongoPacket) : MongoPacket := { p with header := p.header.le32 .big }

/-- The packet as the other host receives it. -/
def MongoPacket.turnedLength (p : MongoPacket) : MongoPacket :=
  { p with header := { p.header with length := ByteOrder.big.le32 p.header.length } }

@[simp] theorem MongoPacket.turned_data (p : MongoPacket) : p.turned.data = p.data := rfl

@[simp] theorem MongoPacket.turned_dataSize (p : MongoPacket) :
    p.turned.dataSize = p.dataSize := rfl

@[simp] theorem MongoPacket.turned_id (p : MongoPacket) :
    p.turned.header.id = ByteOrder.big.le32 p.header.id := rfl

/-- The two headers lie in memory as the same bytes. -/
theorem MongoPacketHeader.image_big (h : MongoPacketHeader) :
    (h.le32 .big).image .big = h.image .little := by
  have hword : ∀ x, ByteOrder.big.mem32 (ByteOrder.big.le32 x) = ByteOrder.little.mem32 x :=
    fun x => ByteOrder.mem32_le32 .big x
  simp only [MongoPacketHeader.image, MongoPacketHeader.le32, hword]

theorem MongoPacket.turned_wireBytes (p : MongoPacket) (data : Bytes) :
    p.turned.wireBytes .big data = p.wireBytes .little data := by
  rw [MongoPacket.wireBytes, MongoPacket.wireBytes]
  exact congrArg (· ++ data) p.header.image_big

/-- Setting the data converts the length and leaves the other words as they are. -/
theorem mongoWirePacketSetData_big (p : MongoPacket) (data : Bytes) (size : Int) :
    mongoWirePacketSetData .big p data size
      = (mongoWirePacketSetData .little p data size).map MongoPacket.turnedLength := by
  rw [mongoWirePacketSetData, mongoWirePacketSetData]
  split
  · rfl
  · rfl

/-- The builder puts the opcode and the data of a command, if there are any, into a packet. -/
def Stamps (build : ByteOrder → BitVec 32 → Except Errno MongoPacket) : Prop :=
  ∃ x : Except Errno (MongoWireOpcode × Bytes × Int), ∀ o id,
    build o id = x.map fun y => commandPacket o id y.1 y.2.1 y.2.2

theorem commandPacket_turned (id : BitVec 32) (opcode : MongoWireOpcode) (data : Bytes)
    (size : Int) : commandPacket .big id opcode data size
      = (commandPacket .little id opcode data size).turned := by
  simp [commandPacket, MongoPacket.turned, MongoPacketHeader.le32]

namespace Stamps

variable {build : ByteOrder → BitVec 32 → Except Errno MongoPacket} (h : Stamps build)
include h

/-- The other host builds the packet turned. -/
theorem turned (id : BitVec 32) :
    build .big id = (build .little id).map MongoPacket.turned := by
  obtain ⟨x, hx⟩ := h
  rw [hx, hx]
  cases x with
  | error e => rfl
  | ok y => exact congrArg Except.ok (commandPacket_turned id y.1 y.2.1 y.2.2)

theorem id_eq {id : BitVec 32} {p : MongoPacket} (hp : build .little id = .ok p) :
    p.header.id = id := by
  obtain ⟨x, hx⟩ := h
  rw [hx] at hp
  cases x with
  | error e => cases hp
  | ok y =>
      cases hp
      rfl

/-- Whether there is a packet does not depend on the id. -/
theorem error {id : BitVec 32} {e : Errno} (hp : build .little id = .error e) (o : ByteOrder)
    (id' : BitVec 32) : build o id' = .error e := by
  obtain ⟨x, hx⟩ := h
  rw [hx] at hp
  cases x with
  | error e' =>
      cases hp
      rw [hx]
      rfl
  | ok y => cases hp

theorem ok {id : BitVec 32} {p : MongoPacket} (hp : build .little id = .ok p) (o : ByteOrder)
    (id' : BitVec 32) : ∃ p', build o id' = .ok p' := by
  obtain ⟨x, hx⟩ := h
  rw [hx] at hp
  cases x with
  | error e => cases hp
  | ok y =>
      rw [hx]
      exact ⟨_, rfl⟩

end Stamps

section Builders

theorem mongoWireCmdUpdate_stamps (ns : Option CString) (flags : BitVec 32)
    (selector update : Option Bson) :
    Stamps fun o id => mongoWireCmdUpdate o id ns flags selector update := by
  refine ⟨(mongoWireCmdUpdate .little 0 ns flags selector update).map fun p =>
    (.update, p.data.getD [], p.dataSize), fun o id => ?_⟩
  simp only [mongoWireCmdUpdate, ByteOrder.mem32_le32]
  split
  · split
    · rfl
    · rfl
  · rfl

theorem mongoWireCmdInsertN_stamps (ns : Option CString) (n : Int)
    (docs : Option (List (Option Bson))) :
    Stamps fun o id => mongoWireCmdInsertN o id ns n docs := by
  refine ⟨(mongoWireCmdInsertN .little 0 ns n docs).map fun p =>
    (.insert, p.data.getD [], p.dataSize), fun o id => ?_⟩
  simp only [mongoWireCmdInsertN]
  split
  · split
    · rfl
    · split
      · rfl
      · rfl
  · rfl

theorem mongoWireCmdQuery_stamps (ns : Option CString) (flags skip ret : BitVec 32)
    (query sel : Option Bson) :
    Stamps fun o id => mongoWireCmdQuery o id ns flags skip ret query sel := by
  refine ⟨(mongoWireCmdQuery .little 0 ns flags skip ret query sel).map fun p =>
    (.query, p.data.getD [], p.dataSize), fun o id => ?_⟩
  simp only [mongoWireCmdQuery, ByteOrder.mem32_le32]
  split
  · split
    · rfl
    · rfl
  · rfl

theorem mongoWireCmdGetMore_stamps (ns : Option CString) (ret : BitVec 32)
    (cursorId : BitVec 64) : Stamps fun o id => mongoWireCmdGetMore o id ns ret cursorId := by
  refine ⟨(mongoWireCmdGetMore .little 0 ns ret cursorId).map fun p =>
    (.getMore, p.data.getD [], p.dataSize), fun o id => ?_⟩
  simp only [mongoWireCmdGetMore, ByteOrder.mem32_le32]
  split
  · rfl
  · rfl

theorem mongoWireCmdDelete_stamps (ns : Option CString) (flags : BitVec 32)
    (sel : Option Bson) : Stamps fun o id => mongoWireCmdDelete o id ns flags sel := by
  refine ⟨(mongoWireCmdDelete .little 0 ns flags sel).map fun p =>
    (.delete, p.data.getD [], p.dataSize), fun o id => ?_⟩
  simp only [mongoWireCmdDelete, ByteOrder.mem32_le32]
  split
  · split
    · rfl
    · rfl
  · rfl

theorem mongoWireCmdKillCursors_stamps (cids : List (BitVec 64)) :
    Stamps fun o id => mongoWireCmdKillCursors o id cids := by
  refine ⟨(mongoWireCmdKillCursors .little 0 cids).map fun p =>
    (.killCursors, p.data.getD [], p.dataSize), fun o id => ?_⟩
  simp only [mongoWireCmdKillCursors, mongoWireCmdKillCursorsVa, ByteOrder.mem32_le32]
  split
  · rfl
  · rfl

theorem mongoWireCmdCustom_stamps (db : Option CString) (flags : BitVec 32)
    (command : Option Bson) : Stamps fun o id => mongoWireCmdCustom o id db flags command := by
  cases db with
  | none => exact ⟨.error .EINVAL, fun _ _ => rfl⟩
  | some db =>
      cases command with
      | none => exact ⟨.error .EINVAL, fun _ _ => rfl⟩
      | some command =>
          obtain ⟨x, hx⟩ := mongoWireCmdQuery_stamps (some (db.append cmdSuffix)) flags 0 1
            (some command) (bsonFinish (some bsonNew)).2
          by_cases hsize : bsonSize (some command) < 0
          · refine ⟨.error .EINVAL, fun o id => ?_⟩
            simp only [mongoWireCmdCustom, if_pos hsize]
            rfl
          · refine ⟨x, fun o id => ?_⟩
            simp only [mongoWireCmdCustom, if_neg hsize]
            exact hx o id

end Builders

/-! ## Runs on both hosts -/

section Hosts

variable {σ : Type}

/-- The outside of a host with this byte order. -/
def Net.on (N : Net σ) (o : ByteOrder) : Net σ := { N with order := o }

/-- What the other side sees of sending a packet. -/
def Event.sent (o : ByteOrder) : Event → Option (Int × Option Bytes × Option Nat)
  | .send fd p count => some (fd, p.data.map fun data => p.wireBytes o data, count)
  | _ => none

/-- The bytes handed to sockets, in order. -/
def written (o : ByteOrder) (es : List Event) : List (Int × Option Bytes × Option Nat) :=
  es.filterMap (Event.sent o)

theorem written_snoc (o : ByteOrder) (es : List Event) (e : Event) :
    written o (es ++ [e]) = written o es ++ (e.sent o).toList := by
  rw [written, List.filterMap_append, List.filterMap_cons, List.filterMap_nil]
  cases e.sent o with
  | none => rfl
  | some x => rfl

/-- The event as the other host has it. -/
def Event.turned : Event → Event
  | .send fd p count => .send fd p.turned count
  | e => e

theorem Event.turned_sent (e : Event) : e.turned.sent .big = e.sent .little := by
  cases e with
  | send fd p count =>
      simp only [Event.turned, Event.sent, MongoPacket.turned_data, MongoPacket.turned_wireBytes]
  | _ => rfl

/-- The packet, if it is one, has an id that follows on a mirrored one. -/
def Event.Steady : Event → Prop
  | .send _ p _ => Mirrored (p.header.id - 1)
  | _ => True

instance Event.decidableSteady : DecidablePred Event.Steady
  | .send _ p _ => inferInstanceAs (Decidable (Mirrored (p.header.id - 1)))
  | .connect .. | .close _ | .ping _ | .isMaster _ | .replace .. | .dangling =>
      inferInstanceAs (Decidable True)

/-- The connection as the other host has it. -/
def MongoConnection.turned (c : MongoConnection) : MongoConnection :=
  { c with requestId := ByteOrder.big.le32 c.requestId }

/-- The connection of the host with the other byte order. -/
def MongoSyncConnection.turned (c : MongoSyncConnection) : MongoSyncConnection :=
  { c with toMongoConnection := c.toMongoConnection.turned }

/-- The states of the two hosts: the same outside, and the same bytes written. -/
structure World.Twin (w w' : World σ) : Prop where
  net : w'.net = w.net
  conn : w'.conn = w.conn.turned
  errno : w'.errno = w.errno
  nextFd : w'.nextFd = w.nextFd
  log : written .big w'.log = written .little w.log

theorem World.Twin.total (w : World σ) : ∃ w', w.Twin w' := by
  refine ⟨{ w with conn := w.conn.turned, log := w.log.map Event.turned }, rfl, rfl, rfl, rfl, ?_⟩
  rw [written, written, List.filterMap_map]
  refine List.filterMap_congr fun e _ => ?_
  exact e.turned_sent

/-- Every event in between is a good one. -/
def World.Meets (good : Event → Prop) (w w' : World σ) : Prop :=
  ∀ e ∈ w'.log.drop w.log.length, good e

instance World.decidableMeets (good : Event → Prop) [DecidablePred good] (w w' : World σ) :
    Decidable (w.Meets good w') :=
  inferInstanceAs (Decidable (∀ e ∈ w'.log.drop w.log.length, good e))

theorem World.Meets.of_log {good : Event → Prop} {w w' : World σ} {es : List Event}
    (h : w'.log = w.log ++ es) : w.Meets good w' ↔ ∀ e ∈ es, good e := by
  rw [World.Meets, h, List.drop_left]

/-- Runs on both hosts, where a step is steady if its events are good ones. -/
def hostFrame (good : Event → Prop) : TwinFrame (World σ) where
  twin := World.Twin
  total := World.Twin.total
  grows := World.Grows
  frame := World.Grows.frame
  steady := World.Meets good
  split := by
    rintro w u v ⟨es, hes⟩ ⟨es', hes'⟩ hsteady
    rw [World.Meets.of_log (by rw [hes', hes, List.append_assoc])] at hsteady
    rw [World.Meets.of_log hes, World.Meets.of_log hes']
    exact ⟨fun e he => hsteady e (List.mem_append_left es' he),
      fun e he => hsteady e (List.mem_append_right es he)⟩

/-- The runs on the two hosts match, and the second host sees the result as `φ` says. -/
abbrev Matches {α α' : Type} (good : Event → Prop) (φ : α → α') (m : Program (World σ) α)
    (m' : Program (World σ) α') : Prop :=
  Twins (hostFrame good) (fun a a' => a' = φ a) m m'

/-- The runs on the two hosts match and return the same. -/
abbrev Alike {α : Type} (good : Event → Prop) (m m' : Program (World σ) α) : Prop :=
  Matches good (fun a => a) m m'

variable {good : Event → Prop}

/-! ## Steps -/

theorem setErrno_alike (e : Errno) : Alike good (setErrno (σ := σ) e) (setErrno e) := by
  refine Twins.modify (F := hostFrame good) (fun w => show w.Grows _ from .of_log rfl) ?_
  intro w w' h
  exact ⟨h.net, h.conn, rfl, h.nextFd, h.log⟩

theorem setConn_alike {f f' : MongoSyncConnection → MongoSyncConnection}
    (hf : ∀ c, f' c.turned = (f c).turned) : Alike good (setConn (σ := σ) f) (setConn f') := by
  refine Twins.modify (F := hostFrame good) (fun w => show w.Grows _ from .of_log rfl) ?_
  intro w w' h
  refine ⟨h.net, ?_, h.errno, h.nextFd, h.log⟩
  show f' w'.conn = _
  rw [h.conn, hf]

theorem emit_alike {e e' : Event} (he : e'.sent .big = e.sent .little) :
    Alike good (emit (σ := σ) e) (emit e') := by
  refine Twins.modify (F := hostFrame good) (fun w => show w.Grows _ from ⟨[e], rfl⟩) ?_
  intro w w' h
  refine ⟨h.net, h.conn, h.errno, h.nextFd, ?_⟩
  rw [written_snoc, written_snoc, h.log, he]

theorem orErrno_matches {α α' : Type} {φ : α → α'} {x : Except Errno α} {x' : Except Errno α'}
    (h : x' = x.map φ) : Matches good (Option.map φ) (orErrno (σ := σ) x) (orErrno x') := by
  subst h
  cases x with
  | ok a => exact .pure rfl
  | error e => exact (setErrno_alike e).bind fun _ => .pure rfl

theorem orErrno_alike {α : Type} (x : Except Errno α) :
    Alike good (orErrno (σ := σ) x) (orErrno x) := by
  cases x with
  | ok a => exact .pure rfl
  | error e => exact (setErrno_alike e).bind fun _ => .pure rfl

theorem ofExcept_alike {α : Type} (x : Except Halt α) :
    Alike good (Program.ofExcept (S := World σ) x) (Program.ofExcept x) := by
  refine .ofExcept ?_
  cases x with
  | ok a => exact rfl
  | error e => exact rfl

theorem readOrErrno_alike {α : Type} (x : Except Halt (Except Errno α)) :
    Alike good (readOrErrno (σ := σ) x) (readOrErrno x) :=
  (ofExcept_alike x).bind fun y => orErrno_alike y

theorem system_alike {α : Type} (call : σ → α × σ) : Alike good (system call) (system call) := by
  intro w w' h
  refine ⟨.of_log rfl, fun _ => ⟨⟨?_, h.conn, h.errno, h.nextFd, h.log⟩, ?_⟩⟩
  · show (call w'.net).2 = (call w.net).2
    rw [h.net]
  · show (call w'.net).1 = (call w.net).1
    rw [h.net]

theorem newFd_alike : Alike good (newFd (σ := σ)) newFd := by
  intro w w' h
  refine ⟨.of_log rfl, fun _ => ⟨⟨h.net, h.conn, h.errno, ?_, h.log⟩, ?_⟩⟩
  · show w'.nextFd + 1 = w.nextFd + 1
    rw [h.nextFd]
  · show (w'.nextFd : Int) = w.nextFd
    rw [h.nextFd]

/-- A program that fails with an `errno`. -/
theorem fail_alike {α : Type} (e : Errno) (a : α) :
    Alike good (σ := σ) (do setErrno e; return a) (do setErrno e; return a) :=
  (setErrno_alike e).bind fun _ => .pure rfl

/-! ## Sockets -/

variable (N : Net σ)

theorem MongoConnection.turned_fresh (fd : Int) :
    MongoConnection.turned ⟨fd, 0⟩ = ⟨fd, 0⟩ :=
  congrArg (MongoConnection.mk fd) le32_big_zero

theorem mongoTcpConnect_matches (host : CString) (port : Int) :
    Matches good (Option.map MongoConnection.turned) (mongoTcpConnect (N.on .little) host port)
      (mongoTcpConnect (N.on .big) host port) := by
  refine newFd_alike.bind fun fd => ?_
  refine (system_alike (N.tcp fd host port)).bind fun outcome => ?_
  cases outcome with
  | connected =>
      refine (emit_alike rfl).bind fun _ => .pure ?_
      rw [Option.map_some, MongoConnection.turned_fresh]
  | refused => exact (setErrno_alike _).bind fun _ => .pure rfl
  | unresolved e =>
      cases e with
      | none => exact .pure rfl
      | some e => exact (setErrno_alike _).bind fun _ => .pure rfl

theorem mongoUnixConnect_matches (path : CString) :
    Matches good (Option.map MongoConnection.turned) (mongoUnixConnect (N.on .little) path)
      (mongoUnixConnect (N.on .big) path) := by
  refine Twins.ite Iff.rfl (fun _ => (setErrno_alike _).bind fun _ => .pure rfl) (fun _ => ?_)
  refine newFd_alike.bind fun fd => ?_
  refine (system_alike (N.unix fd path)).bind fun connected => ?_
  refine Twins.ite Iff.rfl (fun _ => ?_) (fun _ => (setErrno_alike _).bind fun _ => .pure rfl)
  refine (emit_alike rfl).bind fun _ => .pure ?_
  rw [Option.map_some, MongoConnection.turned_fresh]

theorem mongoConnect_matches (address : CString) (port : Int) :
    Matches good (Option.map MongoConnection.turned) (mongoConnect (N.on .little) address port)
      (mongoConnect (N.on .big) address port) :=
  Twins.ite Iff.rfl (fun _ => mongoUnixConnect_matches N address)
    (fun _ => mongoTcpConnect_matches N address port)

theorem closeFd_alike (fd : Int) :
    Alike good (closeFd (N.on .little) fd) (closeFd (N.on .big) fd) :=
  (emit_alike rfl).bind fun _ => system_alike fun s => ((), N.close fd s)

/-- The same bytes are handed to the socket, and the id is remembered as it is held. -/
theorem mongoPacketSend_alike (p : MongoPacket) :
    Alike good (mongoPacketSend (N.on .little) p) (mongoPacketSend (N.on .big) p.turned) := by
  refine Twins.get_bind fun w w' h => ?_
  have hfd : w'.conn.fd = w.conn.fd := by
    rw [h.conn]
    rfl
  have hemit : ∀ count, Alike good (emit (σ := σ) (.send w.conn.fd p count))
      (emit (.send w.conn.fd p.turned count)) := fun count =>
    emit_alike (Event.send w.conn.fd p count).turned_sent
  rw [hfd]
  refine Twins.ite Iff.rfl (fun _ => ?_) (fun _ => ?_) w w' h
  · exact (hemit none).bind fun _ => fail_alike _ _
  · cases hdata : p.data with
    | none =>
        simp only [mongoWirePacketGetData, MongoPacket.turned_data, hdata]
        exact (hemit none).bind fun _ => fail_alike _ _
    | some data =>
        simp only [mongoWirePacketGetData, MongoPacket.turned_data, hdata]
        have hbytes : p.turned.wireBytes (N.on .big).order data
            = p.wireBytes (N.on .little).order data := p.turned_wireBytes data
        rw [hbytes]
        refine (system_alike (N.sendmsg w.conn.fd _)).bind fun sent => ?_
        cases sent with
        | error e => exact (hemit none).bind fun _ => fail_alike _ _
        | ok count =>
            refine (hemit (some count)).bind fun _ => ?_
            refine Twins.ite Iff.rfl (fun _ => .pure rfl) (fun _ => ?_)
            refine Twins.bind (setConn_alike fun c => ?_) fun _ => .pure rfl
            rfl

theorem recvAll_alike (fd : Int) (size : BitVec 32) :
    Alike good (recvAll (N.on .little) fd size) (recvAll (N.on .big) fd size) := by
  refine (system_alike (N.recv fd size.toNat)).bind fun received => ?_
  cases received with
  | error e => exact (setErrno_alike e).bind fun _ => .pure rfl
  | ok bytes => exact .pure rfl

/-- The header of a packet is read in the order of the host. -/
theorem loadHeader_order (o : ByteOrder) {head : Bytes} (h : head.length = 16) :
    loadHeader o head = loadHeader .little head := by
  simp only [loadHeader, MongoPacketHeader.le32]
  rw [o.le32_load32 (by simp [h]), o.le32_load32 (by simp [h]), o.le32_load32 (by simp [h]),
    o.le32_load32 (by simp [h])]
  rfl

/-- A header that is read has sixteen bytes. -/
theorem recvAll_header (fd : Int) :
    Twins (hostFrame good) (fun head head' => head' = head ∧ ∀ bytes ∈ head, bytes.length = 16)
      (recvAll (N.on .little) fd 16) (recvAll (N.on .big) fd 16) := by
  refine (system_alike (N.recv fd 16)).bind fun received => ?_
  cases received with
  | error e => exact (setErrno_alike e).bind fun _ => .pure ⟨rfl, fun bytes h => nomatch h⟩
  | ok bytes =>
      refine .pure ⟨rfl, fun bytes' h => ?_⟩
      split at h
      · cases h
        assumption
      · cases h

theorem recvBody_still (fd : Int) (size : BitVec 32) (p : MongoPacket) : Keeps World.Still (do
    match ← recvAll (N.on .little) fd size with
    | none => return none
    | some data => orErrno (mongoWirePacketSetData .little p data size.toInt)) := by
  refine Keeps.bind World.Still.frame (recvAll_still _ _ _) fun data => ?_
  cases data with
  | none => exact Keeps.pure World.Still.frame _
  | some data => exact orErrno_still _

/-- Of the header of a packet that is received the other host keeps only the length turned. -/
theorem mongoPacketRecv_matches :
    Matches good (Option.map MongoPacket.turnedLength) (mongoPacketRecv (N.on .little))
      (mongoPacketRecv (N.on .big)) := by
  refine Twins.get_bind fun w w' h => ?_
  have hfd : w'.conn.fd = w.conn.fd := by
    rw [h.conn]
    rfl
  rw [hfd]
  refine Twins.ite Iff.rfl (fun _ => ?_) (fun _ => ?_) w w' h
  · exact (setErrno_alike _).bind fun _ => .pure rfl
  refine (recvAll_header N w.conn.fd).bind_of (fun head => ?_) ?_
  · cases head with
    | none => exact Keeps.pure World.Grows.frame _
    | some head => exact (recvBody_still N _ _ _).mono fun _ _ hs => .of_log hs.log
  · rintro _ head ⟨rfl, hlen⟩
    cases head with
    | none => exact .pure rfl
    | some head =>
        have hload : loadHeader (N.on .big).order head = loadHeader .little head :=
          loadHeader_order .big (hlen head rfl)
        dsimp only
        rw [hload]
        refine (recvAll_alike N _ _).bind fun data => ?_
        cases data with
        | none => exact .pure rfl
        | some data =>
            exact orErrno_matches (mongoWirePacketSetData_big _ data _)

/-! ## Numbered packets -/

/-- Nothing is to be shown of a run that hands out a packet whose id follows on one that is not
mirrored. -/
theorem mongoPacketSend_never {p : MongoPacket} (hp : ¬ Mirrored (p.header.id - 1))
    (w : World σ) : ¬ w.Meets Event.Steady (exec (mongoPacketSend N p) w).2 := by
  intro hsteady
  have hspec := mongoPacketSend_spec N p w
  unfold wp at hspec
  cases hrun : exec (mongoPacketSend N p) w with
  | mk r w' =>
      rw [hrun] at hspec hsteady
      cases r with
      | error e => exact hspec
      | ok sent =>
          obtain ⟨count, hlog, -⟩ := hspec
          rw [World.Meets.of_log hlog] at hsteady
          exact hp (hsteady _ (List.mem_singleton_self _))

/-- A packet is built under the next id and something is done with it.  If the last id is
mirrored, the other host has the packet turned. -/
theorem Stamps.numbered {build : ByteOrder → BitVec 32 → Except Errno MongoPacket}
    (h : Stamps build) {α α' : Type} {V : α → α' → Prop}
    {f : Option MongoPacket → Program (World σ) α} {f' : Option MongoPacket → Program (World σ) α'}
    {w w' : World σ} (hw : w.Twin w') (hnone : Twins (hostFrame good) V (f none) (f' none))
    (hsteady : w'.conn.requestId = w.conn.requestId →
      ∀ p, Twins (hostFrame good) V (f (some p)) (f' (some p.turned)))
    (hunsteady : ∀ p p', ¬ Mirrored (p.header.id - 1) →
      Twins (hostFrame good) V (f (some p)) (f' (some p'))) :
    TwinsAt (hostFrame good) V (orErrno (build .little (w.conn.requestId + 1)) >>= f)
      (orErrno (build .big (w'.conn.requestId + 1)) >>= f') w w' := by
  cases hbuild : build .little (w.conn.requestId + 1) with
  | error e =>
      rw [h.error hbuild .big]
      exact ((setErrno_alike e).bind fun _ => hnone) w w' hw
  | ok p =>
      by_cases hid : Mirrored w.conn.requestId
      · have heq : w'.conn.requestId = w.conn.requestId := by
          rw [hw.conn]
          exact hid
        rw [heq, h.turned, hbuild]
        exact hsteady heq p w w' hw
      · obtain ⟨p', hp'⟩ := h.ok hbuild .big (w'.conn.requestId + 1)
        rw [hp']
        refine hunsteady p p' ?_ w w' hw
        rw [h.id_eq hbuild, BitVec.add_sub_cancel]
        exact hid

end Hosts

end LibMongo
