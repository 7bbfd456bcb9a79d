import LibMongo.Base.Program
import LibMongo.Net.Address

/-!
# Connections

`mongo-client.c`: opening a connection, sending a packet and receiving one.

The library talks to the outside through `Net`: the byte order of the host, the
system calls on sockets, and two functions of the C library and GLib.  A system
call takes the state of everything outside and gives back the next one, so a
run is determined by the net and the state it starts in, and a statement about
all nets is one about all sequences of outcomes.

A descriptor is the name of a socket.  A new socket gets a name that was not in
use before, so that two sockets are never confused, not even after one was
closed.

The state of a program is a `World`: the connection it works on, `errno`, and
what is outside.  It also keeps the log of the run, which the source does not
have.  An event of the log is something the other side could see, or one of a few
steps of `mongo-sync.c` that the results about the library speak of.  No
definition of the model reads the log.

Connections are never `NULL` here.  The tests of the source for one are left out.
-/

namespace LibMongo

open Bytes

/-! ## Connections -/

/-- `struct _mongo_connection`. -/
structure MongoConnection where
  fd : Int
  requestId : BitVec 32
deriving DecidableEq

/-- `replica_set`: the seeds, and the hosts and the primary that a node has told. -/
structure ReplicaSet where
  seeds : List CString
  hosts : List CString
  primary : Option CString
deriving DecidableEq

/-- `auth_credentials`: the texts of the last authentication, if there was one. -/
structure AuthCredentials where
  db : Option CString
  user : Option CString
  pw : Option CString
deriving DecidableEq

/-- `struct _mongo_sync_connection`.  A recovery cache is managed by the caller
and known by its number.  Storing the credentials frees the strings stored before, so the
model counts how often that was done. -/
structure MongoSyncConnection extends MongoConnection where
  slaveok : Bool
  safeMode : Bool
  autoReconnect : Bool
  lastError : Option CString
  maxInsertSize : Int
  rs : ReplicaSet
  auth : AuthCredentials
  recoveryCache : Option Nat
  stored : Nat := 0
deriving DecidableEq

/-! ## The outside -/

/-- How an attempt to open a TCP connection ends. -/
inductive TcpOutcome where
  /-- One of the addresses of the host accepts. -/
  | connected
  /-- None of them does. -/
  | refused
  /-- `getaddrinfo` fails and may set `errno`. -/
  | unresolved (e : Option Errno)
deriving DecidableEq

/-- What the library gets from outside. -/
structure Net (σ : Type) where
  order : ByteOrder
  strerror : Errno → CString
  /-- The MD5 checksum of GLib, in hexadecimal. -/
  md5 : Bytes → CString
  /-- `getaddrinfo`, `socket` and `connect`, with the name of the new socket. -/
  tcp : Int → CString → Int → σ → TcpOutcome × σ
  /-- The same for a socket in the file system. -/
  unix : Int → CString → σ → Bool × σ
  /-- The number of bytes accepted. -/
  sendmsg : Int → Bytes → σ → Except Errno Nat × σ
  /-- The bytes received, which may be fewer than asked for. -/
  recv : Int → Nat → σ → Except Errno Bytes × σ
  close : Int → σ → σ
  /-- What is read in place of a string that was freed. -/
  freed : σ → CString → CString := fun _ _ => CString.ofBytes []

/-- What happens in a run. -/
inductive Event where
  /-- A connection is opened. -/
  | connect (fd : Int) (host : CString) (port : Int)
  | close (fd : Int)
  /-- A packet is handed to `mongo_packet_send`, and the socket accepts so many bytes or
  fails. -/
  | send (fd : Int) (p : MongoPacket) (count : Option Nat)
  /-- `mongo_sync_cmd_ping` returns `TRUE`. -/
  | ping (fd : Int)
  /-- `mongo_sync_cmd_is_master` returns `TRUE`. -/
  | isMaster (fd : Int)
  /-- `mongo_sync_reconnect` hands the result of calling itself, a connection on this
  socket or `NULL`, to `_mongo_sync_connect_replace`. -/
  | replace (forceMaster : Bool) (fd : Option Int)
  /-- A string is read that was freed. -/
  | dangling
deriving DecidableEq

/-- The state of a program. -/
structure World (σ : Type) where
  net : σ
  conn : MongoSyncConnection
  errno : Errno
  /-- The name of the next socket. -/
  nextFd : Nat
  log : List Event

variable {σ : Type}

/-! ## Steps -/

/-- An assignment to `errno`. -/
def setErrno (e : Errno) : Program (World σ) Unit := modify fun w => { w with errno := e }

/-- A change of the connection. -/
def setConn (f : MongoSyncConnection → MongoSyncConnection) : Program (World σ) Unit :=
  modify fun w => { w with conn := f w.conn }

/-- A note of what happened to a socket. -/
def emit (e : Event) : Program (World σ) Unit := modify fun w => { w with log := w.log ++ [e] }

/-- A function that fails with an `errno`. -/
def orErrno {α : Type} (x : Except Errno α) : Program (World σ) (Option α) :=
  match x with
  | .ok a => return some a
  | .error e => do
      setErrno e
      return none

/-- A function that reads memory and fails with an `errno`. -/
def readOrErrno {α : Type} (x : Except Halt (Except Errno α)) : Program (World σ) (Option α) := do
  let x ← Program.ofExcept x
  orErrno x

/-- A system call on the outside. -/
def system {α : Type} (call : σ → α × σ) : Program (World σ) α := do
  let w ← get
  set { w with net := (call w.net).2 }
  return (call w.net).1

section Steps

variable {α : Type} {E : World σ → Prop} {w : World σ}

@[simp] theorem wp_setErrno {Q : Unit → World σ → Prop} (e : Errno) :
    Program.wp (setErrno e) Q E w ↔ Q () { w with errno := e } := Iff.rfl

@[simp] theorem wp_setConn {Q : Unit → World σ → Prop}
    (f : MongoSyncConnection → MongoSyncConnection) :
    Program.wp (setConn f) Q E w ↔ Q () { w with conn := f w.conn } := Iff.rfl

@[simp] theorem wp_emit {Q : Unit → World σ → Prop} (e : Event) :
    Program.wp (emit e) Q E w ↔ Q () { w with log := w.log ++ [e] } := Iff.rfl

@[simp] theorem wp_system {Q : α → World σ → Prop} (call : σ → α × σ) :
    Program.wp (system call) Q E w
      ↔ Q (call w.net).1 { w with net := (call w.net).2 } := Iff.rfl

/-- A system call whose outcome is known. -/
theorem exec_system {call : σ → α × σ} {a : α} {s : σ} (h : call w.net = (a, s)) :
    Program.exec (system call) w = (.ok a, { w with net := s }) := by
  show (Except.ok (call w.net).1, { w with net := (call w.net).2 }) = _
  rw [h]

theorem wp_orErrno {Q : Option α → World σ → Prop} {x : Except Errno α}
    (hok : ∀ a, x = .ok a → Q (some a) w)
    (herr : ∀ e, x = .error e → Q none { w with errno := e }) :
    Program.wp (orErrno x) Q E w := by
  cases x with
  | ok a => exact hok a rfl
  | error e => exact herr e rfl

theorem wp_readOrErrno {Q : Option α → World σ → Prop} {x : Except Halt (Except Errno α)}
    (hok : ∀ a, x = .ok (.ok a) → Q (some a) w)
    (herr : ∀ e, x = .ok (.error e) → Q none { w with errno := e })
    (hhalt : ∀ e, x = .error e → E w) : Program.wp (readOrErrno x) Q E w := by
  rw [readOrErrno, Program.wp_bind]
  refine Program.wp_ofExcept (fun a ha => ?_) hhalt
  exact wp_orErrno (fun b hb => hok b (by rw [ha, hb])) (fun e he => herr e (by rw [ha, he]))

end Steps

/-! ## The log -/

/-- The second state has a longer log. -/
def World.Grows (w w' : World σ) : Prop := ∃ es, w'.log = w.log ++ es

theorem World.Grows.frame : Program.Frame (World.Grows (σ := σ)) where
  refl w := ⟨[], (List.append_nil _).symm⟩
  trans := by
    rintro w u v ⟨es, hes⟩ ⟨es', hes'⟩
    exact ⟨es ++ es', by rw [hes', hes, List.append_assoc]⟩

theorem World.Grows.of_log {w w' : World σ} (h : w'.log = w.log) : w.Grows w' :=
  ⟨[], by rw [h, List.append_nil]⟩

theorem World.Grows.length_le {w w' : World σ} (h : w.Grows w') : w.log.length ≤ w'.log.length := by
  obtain ⟨es, hes⟩ := h
  simp [hes]

variable (N : Net σ)

/-! ## Opening a connection -/

/-- The name of a new socket. -/
def newFd : Program (World σ) Int := do
  let w ← get
  set { w with nextFd := w.nextFd + 1 }
  return w.nextFd

@[simp] theorem wp_newFd {Q : Int → World σ → Prop} {E : World σ → Prop} {w : World σ} :
    Program.wp newFd Q E w ↔ Q w.nextFd { w with nextFd := w.nextFd + 1 } := Iff.rfl

/-- `mongo_tcp_connect`. -/
def mongoTcpConnect (host : CString) (port : Int) :
    Program (World σ) (Option MongoConnection) := do
  let fd ← newFd
  match ← system (N.tcp fd host port) with
  | .connected =>
      emit (.connect fd host port)
      return some ⟨fd, 0⟩
  | .refused =>
      setErrno .EADDRNOTAVAIL
      return none
  | .unresolved none => return none
  | .unresolved (some e) =>
      setErrno e
      return none

/-- `sun_path` has room for 107 bytes and a terminator. -/
def mongoUnixConnect (path : CString) : Program (World σ) (Option MongoConnection) := do
  if 108 ≤ path.length then
    setErrno .ENAMETOOLONG
    return none
  else
    let fd ← newFd
    let connected ← system (N.unix fd path)
    if connected then
      emit (.connect fd path mongoConnLocal)
      return some ⟨fd, 0⟩
    else
      setErrno .EADDRNOTAVAIL
      return none

/-- `mongo_connect`: the port decides between the two kinds of sockets. -/
def mongoConnect (address : CString) (port : Int) :
    Program (World σ) (Option MongoConnection) :=
  if port = mongoConnLocal then mongoUnixConnect N address
  else mongoTcpConnect N address port

/-- `close` on a socket. -/
def closeFd (fd : Int) : Program (World σ) Unit := do
  emit (.close fd)
  system fun s => ((), N.close fd s)

/-! ## Packets on a socket -/

/-- The bytes of a packet: the header as it lies in memory, and the data. -/
def MongoPacket.wireBytes (o : ByteOrder) (p : MongoPacket) (data : Bytes) : Bytes :=
  (mongoWirePacketGetHeaderRaw p).image o ++ data

/-- The id the connection remembers is that of the raw header. -/
def mongoPacketSend (p : MongoPacket) : Program (World σ) Bool := do
  let w ← get
  if w.conn.fd < 0 then
    emit (.send w.conn.fd p none)
    setErrno .EBADF
    return false
  else
    match mongoWirePacketGetData p with
    | .error e =>
        emit (.send w.conn.fd p none)
        setErrno e
        return false
    | .ok (data, size) =>
        match ← system (N.sendmsg w.conn.fd (p.wireBytes N.order data)) with
        | .error e =>
            emit (.send w.conn.fd p none)
            setErrno e
            return false
        | .ok count =>
            emit (.send w.conn.fd p (some count))
            if (count : Int) ≠ 16 + size then return false
            else
              setConn fun c => { c with requestId := (mongoWirePacketGetHeaderRaw p).id }
              return true

/-- The number of bytes a socket accepts of a packet it accepts whole. -/
def MongoPacket.Whole (p : MongoPacket) (count : Option Nat) : Prop :=
  count.map (fun n => (n : Int)) = some (16 + p.dataSize)

instance (p : MongoPacket) (count : Option Nat) : Decidable (p.Whole count) :=
  inferInstanceAs (Decidable (_ = _))

/-- What sending a packet does: one attempt on the socket, with success for a whole
packet. -/
theorem mongoPacketSend_spec (p : MongoPacket) (w : World σ) :
    Program.wp (mongoPacketSend N p)
      (fun ok w' => ∃ count, w'.log = w.log ++ [.send w.conn.fd p count] ∧
        (ok = true ↔ p.Whole count) ∧ w'.nextFd = w.nextFd ∧
        w'.conn = { w.conn with requestId := if ok then p.header.id else w.conn.requestId })
      (fun _ => False) w := by
  have hfail : false = true ↔ p.Whole none := by simp [MongoPacket.Whole]
  unfold mongoPacketSend
  rw [Program.wp_bind, Program.wp_get]
  refine Program.wp_ite (fun _ => ?_) (fun _ => ?_)
  · exact ⟨none, rfl, hfail, rfl, rfl⟩
  · unfold mongoWirePacketGetData
    cases p.data with
    | none => exact ⟨none, rfl, hfail, rfl, rfl⟩
    | some data =>
        show Program.wp (system _ >>= _) _ _ _
        rw [Program.wp_bind, wp_system]
        dsimp only
        cases (N.sendmsg w.conn.fd (p.wireBytes N.order data) w.net).1 with
        | error e => exact ⟨none, rfl, hfail, rfl, rfl⟩
        | ok count =>
            show Program.wp (emit _ >>= _) _ _ _
            rw [Program.wp_bind, wp_emit]
            refine Program.wp_ite (fun hne => ?_) (fun heq => ?_)
            · exact ⟨some count, rfl, by simpa [MongoPacket.Whole] using hne, rfl, rfl⟩
            · exact ⟨some count, rfl, by simpa [MongoPacket.Whole] using heq, rfl, rfl⟩

/-- `recv` with `MSG_WAITALL`.  The length returned is compared as a `guint32`, in
which a failure is the largest length. -/
def recvAll (fd : Int) (size : BitVec 32) : Program (World σ) (Option Bytes) := do
  match ← system (N.recv fd size.toNat) with
  | .error e =>
      setErrno e
      return if size = -1 then some [] else none
  | .ok bytes =>
      return if bytes.length = size.toNat then some bytes else none

/-- The four words at the front of a packet, in the order of the host. -/
def loadHeader (o : ByteOrder) (bytes : Bytes) : MongoPacketHeader :=
  MongoPacketHeader.le32 o
    { length := o.load32 (bytes.take 4)
      id := o.load32 ((bytes.drop 4).take 4)
      respTo := o.load32 ((bytes.drop 8).take 4)
      opcode := o.load32 ((bytes.drop 12).take 4) }

/-- `mongo_packet_recv`: the header, and as many bytes as it states. -/
def mongoPacketRecv : Program (World σ) (Option MongoPacket) := do
  let w ← get
  if w.conn.fd < 0 then
    setErrno .EBADF
    return none
  else
    match ← recvAll N w.conn.fd 16 with
    | none => return none
    | some head =>
        let h := loadHeader N.order head
        let p := mongoWirePacketSetHeaderRaw (mongoWirePacketNew N.order) h
        let size := h.length - 16
        match ← recvAll N w.conn.fd size with
        | none => return none
        | some data => orErrno (mongoWirePacketSetData N.order p data size.toInt)

/-! ## What receiving leaves alone -/

/-- Only what is outside and `errno` may differ. -/
structure World.Still (w w' : World σ) : Prop where
  conn : w'.conn = w.conn
  log : w'.log = w.log
  nextFd : w'.nextFd = w.nextFd

theorem World.Still.frame : Program.Frame (World.Still (σ := σ)) where
  refl _ := ⟨rfl, rfl, rfl⟩
  trans h h' := ⟨h'.conn.trans h.conn, h'.log.trans h.log, h'.nextFd.trans h.nextFd⟩

theorem orErrno_still {α : Type} (x : Except Errno α) :
    Program.Keeps World.Still (orErrno (σ := σ) x) :=
  fun _ => wp_orErrno (fun _ _ => ⟨rfl, rfl, rfl⟩) (fun _ _ => ⟨rfl, rfl, rfl⟩)

theorem readOrErrno_still {α : Type} (x : Except Halt (Except Errno α)) :
    Program.Keeps World.Still (readOrErrno (σ := σ) x) :=
  fun _ => wp_readOrErrno (fun _ _ => ⟨rfl, rfl, rfl⟩) (fun _ _ => ⟨rfl, rfl, rfl⟩)
    (fun _ _ => ⟨rfl, rfl, rfl⟩)

theorem recvAll_still (fd : Int) (size : BitVec 32) :
    Program.Keeps World.Still (recvAll N fd size) := by
  intro w
  unfold recvAll
  rw [Program.wp_bind, wp_system]
  cases (N.recv fd size.toNat w.net).1 with
  | error e => exact ⟨rfl, rfl, rfl⟩
  | ok bytes => exact ⟨rfl, rfl, rfl⟩

theorem mongoPacketRecv_still : Program.Keeps World.Still (mongoPacketRecv N) := by
  intro w
  unfold mongoPacketRecv
  rw [Program.wp_bind, Program.wp_get]
  refine Program.wp_ite (fun _ => ⟨rfl, rfl, rfl⟩) (fun _ => ?_)
  refine Program.Keeps.bind World.Still.frame (recvAll_still N _ _) (fun head => ?_) w
  cases head with
  | none => exact Program.Keeps.pure World.Still.frame _
  | some head =>
      refine Program.Keeps.bind World.Still.frame (recvAll_still N _ _) (fun data => ?_)
      cases data with
      | none => exact Program.Keeps.pure World.Still.frame _
      | some data => exact orErrno_still _

end LibMongo
