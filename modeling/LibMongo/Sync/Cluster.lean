import LibMongo.Sync.Query
import LibMongo.Wire.RoundTrip
import LibMongo.Wire.Sealed
import Mathlib.Logic.Function.Basic

/-!
# A replica set that stays as it is

`Cluster` says which addresses accept a connection and what the node behind an
address answers to a message.  `Cluster.net` is the network it makes: a socket is
connected to an address or dead, and a message that arrives whole is answered at
once, or never.

On a socket that is connected and has nothing left to read, a command is a
question to the cluster (`exec_custom`).
-/

namespace LibMongo

open Bytes Program

/-! ## The cluster -/

/-- A host and a port, or the path of a socket with the port `MONGO_CONN_LOCAL`. -/
abbrev Addr := CString × Int

/-- A document that fits into a reply. -/
structure Answer where
  doc : Doc
  small : doc.encode.length < 2147483612

/-- Nodes that accept connections and answer messages the same way every time. -/
structure Cluster where
  order : ByteOrder
  strerror : Errno → CString
  md5 : Bytes → CString
  /-- The addresses that accept a connection. -/
  accepts : Addr → Bool
  /-- What a node answers. -/
  answer : Addr → WireMessage → Option Answer
  /-- What is read in place of a string that was freed. -/
  freed : CString → CString := fun _ => CString.ofBytes []

/-- The sockets: the node each of them is connected to, and the bytes it has sent. -/
structure Sockets where
  peer : Int → Option Addr
  pending : Int → Bytes

namespace Sockets

variable (s : Sockets) (fd : Int)

/-- The socket leads to a node now. -/
def connect (a : Addr) : Sockets where
  peer := Function.update s.peer fd (some a)
  pending := Function.update s.pending fd []

/-- More bytes to read. -/
def push (bytes : Bytes) : Sockets :=
  { s with pending := Function.update s.pending fd (s.pending fd ++ bytes) }

/-- The first bytes are read. -/
def pop (n : Nat) : Sockets :=
  { s with pending := Function.update s.pending fd ((s.pending fd).drop n) }

/-- The socket leads nowhere now. -/
def close : Sockets where
  peer := Function.update s.peer fd none
  pending := Function.update s.pending fd []

end Sockets

namespace Cluster

variable (E : Cluster)

/-- The answer to a message, and the id it answers. -/
def served (a : Addr) (bytes : Bytes) : Option (BitVec 32 × Answer) := do
  let (id, message) ← decodeMessage bytes
  let answer ← E.answer a message
  return (id, answer)

/-- The reply with an answer. -/
def replyTo (id : BitVec 32) (answer : Answer) : Reply := ⟨0, id, 0, 0, 0, [answer.doc]⟩

/-- The bytes a node sends for a message. -/
def replyBytes (served : Option (BitVec 32 × Answer)) : Bytes :=
  (served.map fun x => (replyTo x.1 x.2).bytes).getD []

/-- The cluster as the net of a client. -/
def net : Net Sockets where
  order := E.order
  strerror := E.strerror
  md5 := E.md5
  tcp fd host port s :=
    if E.accepts (host, port) then (.connected, s.connect fd (host, port)) else (.refused, s)
  unix fd path s :=
    if E.accepts (path, mongoConnLocal) then (true, s.connect fd (path, mongoConnLocal))
    else (false, s)
  sendmsg fd bytes s :=
    match s.peer fd with
    | none => (.error (.system 32), s)
    | some a => (.ok bytes.length, s.push fd (replyBytes (E.served a bytes)))
  recv fd n s := (.ok ((s.pending fd).take n), s.pop fd n)
  close fd s := s.close fd
  freed _ := E.freed

theorem replyTo_fits (id : BitVec 32) (answer : Answer) : (replyTo id answer).Fits := by
  have hdoc : (replyTo id answer).docs.flatMap Doc.encode = answer.doc.encode := by
    rw [replyTo, List.flatMap_cons, List.flatMap_nil, List.append_nil]
  have hsmall := answer.small
  rw [Reply.Fits, Reply.body, hdoc]
  simp only [List.length_append, leBytes_length]
  omega

end Cluster

/-! ## Sockets in a state -/

/-- The node the connection is connected to. -/
def World.socket (w : World Sockets) : Option Addr :=
  if w.conn.fd < 0 then none else w.net.peer w.conn.fd

/-- There is nothing left to read, and the next socket is another one. -/
structure World.Idle (w : World Sockets) : Prop where
  pending : w.net.pending w.conn.fd = []
  fd_lt : w.conn.fd < w.nextFd

/-- A question to the node leaves the sockets as they were, and so does an attempt to
connect that fails.  What the connection knows of the replica set is `rs` afterwards. -/
structure World.Served (w : World Sockets) (rs : ReplicaSet) (w' : World Sockets) : Prop where
  conn : ∃ rid err, w'.conn = { w.conn with requestId := rid, lastError := err, rs := rs }
  net : w'.net = w.net
  nextFd_le : w.nextFd ≤ w'.nextFd

namespace World.Served

variable {w w' w'' : World Sockets} {rs rs' : ReplicaSet}

theorem rs_eq (h : w.Served rs w') : w'.conn.rs = rs := by
  obtain ⟨rid, err, hconn⟩ := h.conn
  rw [hconn]

theorem fd_eq (h : w.Served rs w') : w'.conn.fd = w.conn.fd := by
  obtain ⟨rid, err, hconn⟩ := h.conn
  rw [hconn]

theorem slaveok_eq (h : w.Served rs w') : w'.conn.slaveok = w.conn.slaveok := by
  obtain ⟨rid, err, hconn⟩ := h.conn
  rw [hconn]

theorem socket_eq (h : w.Served rs w') : w'.socket = w.socket := by
  rw [World.socket, World.socket, h.fd_eq, h.net]

theorem idle (h : w.Served rs w') (hidle : w.Idle) : w'.Idle where
  pending := by rw [h.net, h.fd_eq, hidle.pending]
  fd_lt := by
    have hlt := hidle.fd_lt
    have hle := h.nextFd_le
    rw [h.fd_eq]
    omega

theorem trans (h : w.Served rs w') (h' : w'.Served rs' w'') : w.Served rs' w'' := by
  obtain ⟨rid, err, hconn⟩ := h.conn
  obtain ⟨rid', err', hconn'⟩ := h'.conn
  refine ⟨⟨rid', err', ?_⟩, h'.net.trans h.net, h.nextFd_le.trans h'.nextFd_le⟩
  rw [hconn', hconn]

theorem refl (w : World Sockets) : w.Served w.conn.rs w := ⟨⟨_, _, rfl⟩, rfl, Nat.le_refl _⟩

theorem setErrno (h : w.Served rs w') (e : Errno) : w.Served rs { w' with errno := e } :=
  ⟨h.conn, h.net, h.nextFd_le⟩

end World.Served

/-! ## Sending and receiving -/

section Packets

variable (E : Cluster) {w : World Sockets} {a : Addr} {p : MongoPacket} {data : Bytes}

theorem World.socket_fd (h : w.socket = some a) : 0 ≤ w.conn.fd ∧ w.net.peer w.conn.fd = some a := by
  unfold World.socket at h
  split at h
  · cases h
  · exact ⟨by omega, h⟩

/-- A packet arrives whole, and is answered. -/
theorem exec_mongoPacketSend (hsocket : w.socket = some a) (hdata : p.data = some data)
    (hsize : p.dataSize = data.length) :
    ∃ v, (mongoPacketSend E.net p).exec w = (.ok true, v) ∧
      v.net = w.net.push w.conn.fd (Cluster.replyBytes (E.served a (p.wireBytes E.order data))) ∧
      v.conn = { w.conn with requestId := p.header.id } ∧ v.nextFd = w.nextFd := by
  obtain ⟨hfd, hpeer⟩ := World.socket_fd hsocket
  have hlen : (p.wireBytes E.order data).length = 16 + data.length := by
    simp [MongoPacket.wireBytes]
  have hcall : E.net.sendmsg w.conn.fd (p.wireBytes E.net.order data) w.net
      = (.ok (p.wireBytes E.order data).length, w.net.push w.conn.fd
          (Cluster.replyBytes (E.served a (p.wireBytes E.order data)))) := by
    simp only [Cluster.net, hpeer]
  refine ⟨{ w with
    net := w.net.push w.conn.fd (Cluster.replyBytes (E.served a (p.wireBytes E.order data)))
    log := w.log ++ [.send w.conn.fd p (some (p.wireBytes E.order data).length)]
    conn := { w.conn with requestId := p.header.id } }, ?_, rfl, rfl, rfl⟩
  rw [mongoPacketSend, exec_get_bind, if_neg (by omega), mongoWirePacketGetData, hdata]
  dsimp only
  rw [exec_bind_ok (exec_system hcall)]
  dsimp only
  rw [emit, exec_modify_bind, hlen, hsize, if_neg (fun h => h (by omega))]
  rfl

/-- On a dead socket it does not. -/
theorem exec_mongoPacketSend_dead (hsocket : w.socket = none) :
    ∃ log e, (mongoPacketSend E.net p).exec w
      = (.ok false, { w with log := log, errno := e }) := by
  rw [mongoPacketSend, exec_get_bind]
  by_cases hfd : w.conn.fd < 0
  · rw [if_pos hfd]
    exact ⟨_, _, rfl⟩
  · have hpeer : w.net.peer w.conn.fd = none := by rwa [World.socket, if_neg hfd] at hsocket
    rw [if_neg hfd, mongoWirePacketGetData]
    cases p.data with
    | none => exact ⟨_, _, rfl⟩
    | some data =>
        have hcall : E.net.sendmsg w.conn.fd (p.wireBytes E.net.order data) w.net
            = (.error (.system 32), w.net) := by
          simp only [Cluster.net, hpeer]
        dsimp only
        rw [exec_bind_ok (exec_system hcall)]
        exact ⟨_, _, rfl⟩

/-- What is received of what was sent. -/
def Cluster.received (rid : BitVec 32) (served : Option (BitVec 32 × Answer)) :
    Option MongoPacket :=
  served.bind fun x =>
    if x.1 = rid ∧ x.2.doc.isOk then some ((Cluster.replyTo x.1 x.2).packet E.order) else none

theorem Sockets.push_pop (s : Sockets) (fd : Int) {bytes : Bytes} {n : Nat}
    (hpending : s.pending fd = []) (hn : bytes.length ≤ n) : (s.push fd bytes).pop fd n = s := by
  have hdrop : ((s.push fd bytes).pending fd).drop n = [] := by
    simp only [push, Function.update_self, hpending, List.nil_append]
    exact List.drop_of_length_le hn
  rw [pop, hdrop]
  obtain ⟨peer, pending⟩ := s
  simp only [push, mk.injEq, true_and]
  simp only at hpending
  rw [Function.update_idem, ← hpending, Function.update_eq_self]

/-- Where nothing was answered nothing is received. -/
theorem exec_packetRecv_unserved (hidle : w.Idle) (hfd : 0 ≤ w.conn.fd) {v : World Sockets}
    (hnet : v.net = w.net.push w.conn.fd (Cluster.replyBytes none))
    (hconn : v.conn.fd = w.conn.fd) :
    (mongoPacketRecv E.net).exec v = (.ok none, { v with net := w.net }) := by
  have hcall : E.net.recv v.conn.fd (16 : BitVec 32).toNat v.net = (.ok [], w.net) := by
    show (Except.ok ((v.net.pending v.conn.fd).take 16), v.net.pop v.conn.fd 16) = _
    rw [hnet, hconn, Sockets.push_pop w.net w.conn.fd hidle.pending (Nat.zero_le _)]
    simp [Sockets.push, hidle.pending, Cluster.replyBytes]
  have hrecv : (recvAll E.net v.conn.fd 16).exec v = (.ok none, { v with net := w.net }) := by
    rw [recvAll, exec_bind_ok (exec_system hcall)]
    rfl
  rw [mongoPacketRecv, exec_get_bind, if_neg (by omega), exec_bind_ok hrecv]
  rfl

/-- An answer is received as a packet, and then nothing is pending. -/
theorem exec_packetRecv_served (hidle : w.Idle) (hfd : 0 ≤ w.conn.fd) (id : BitVec 32)
    (answer : Answer) {v : World Sockets}
    (hnet : v.net = w.net.push w.conn.fd (Cluster.replyBytes (some (id, answer))))
    (hconn : v.conn.fd = w.conn.fd) :
    (mongoPacketRecv E.net).exec v
      = (.ok (some ((Cluster.replyTo id answer).packet E.net.order)), { v with net := w.net }) := by
  have hfits := Cluster.replyTo_fits id answer
  have hlen := Reply.head_length (Cluster.replyTo id answer)
  have hpending : v.net.pending v.conn.fd = (Cluster.replyTo id answer).bytes := by
    rw [hnet, hconn]
    simp [Sockets.push, hidle.pending, Cluster.replyBytes]
  have hpop : (v.net.pop v.conn.fd 16).pop v.conn.fd (Cluster.replyTo id answer).body.length
      = w.net := by
    have hall : (v.net.pop v.conn.fd 16).pop v.conn.fd
        (Cluster.replyTo id answer).body.length
          = v.net.pop v.conn.fd (16 + (Cluster.replyTo id answer).body.length) := by
      simp [Sockets.pop, List.drop_drop]
    rw [hall, hnet, hconn]
    refine Sockets.push_pop w.net w.conn.fd hidle.pending (Nat.le_of_eq ?_)
    rw [Cluster.replyBytes, Option.map_some, Option.getD_some, Reply.bytes,
      List.length_append, hlen]
  refine Reply.mongoPacketRecv_reply E.net (s := v.net.pop v.conn.fd 16) hfits (by omega) ?_ ?_
  · show (Except.ok ((v.net.pending v.conn.fd).take 16), v.net.pop v.conn.fd 16) = _
    rw [hpending, Reply.bytes, List.take_left' hlen]
  · show (Except.ok (((v.net.pop v.conn.fd 16).pending v.conn.fd).take _),
      (v.net.pop v.conn.fd 16).pop v.conn.fd _) = _
    rw [hpop]
    simp only [Sockets.pop, Function.update_self, hpending, Reply.bytes]
    rw [List.drop_left' hlen, List.take_length]

/-- The reply to a command is received and checked. -/
theorem exec_receive (hidle : w.Idle) (hfd : 0 ≤ w.conn.fd) (rid : BitVec 32)
    (served : Option (BitVec 32 × Answer)) {v : World Sockets}
    (hnet : v.net = w.net.push w.conn.fd (Cluster.replyBytes served))
    (hconn : v.conn.fd = w.conn.fd) :
    ∃ err e, (mongoSyncPacketRecv E.net rid replyFlagQueryFail >>= fun p =>
        mongoSyncPacketCheckError p true).exec v
      = (.ok (E.received rid served),
          { v with net := w.net, conn := { v.conn with lastError := err }, errno := e }) := by
  cases served with
  | none =>
      have hpacket := exec_packetRecv_unserved E hidle hfd hnet hconn
      have hsync : (mongoSyncPacketRecv E.net rid replyFlagQueryFail).exec v
          = (.ok none, { v with net := w.net }) := by
        rw [mongoSyncPacketRecv, exec_bind_ok hpacket]
        rfl
      exact ⟨v.conn.lastError, v.errno, exec_bind_ok hsync _⟩
  | some x =>
      obtain ⟨id, answer⟩ := x
      have hfits := Cluster.replyTo_fits id answer
      have hpacket := exec_packetRecv_served E hidle hfd id answer hnet hconn
      by_cases hid : id = rid
      · have hdocs : (Cluster.replyTo id answer).docs ≠ [] := List.cons_ne_nil _ _
        have hflags : (Cluster.replyTo id answer).flags &&& replyFlagQueryFail = 0 := by
          show (0 : BitVec 32) &&& replyFlagQueryFail = 0
          decide
        have hrecv := exec_packetRecv E.net hpacket hfits hid hflags hdocs
        obtain ⟨err, e, hcheck⟩ := exec_packetCheckError_command E.net.order hfits
          (rfl : (Cluster.replyTo id answer).docs = [answer.doc]) { v with net := w.net }
        refine ⟨err, e, ?_⟩
        rw [exec_bind_ok hrecv, hcheck, Cluster.received, Option.bind_some]
        simp only [hid, true_and]
        rfl
      · refine ⟨v.conn.lastError, .EPROTO, ?_⟩
        have hrecv : (mongoSyncPacketRecv E.net rid replyFlagQueryFail).exec v
            = (.ok none, { v with net := w.net, errno := .EPROTO }) := by
          have hne : (mongoWirePacketGetHeaderRaw
              ((Cluster.replyTo id answer).packet E.net.order)).respTo ≠ rid := hid
          rw [mongoSyncPacketRecv, exec_bind_ok hpacket]
          dsimp only
          rw [if_pos hne]
          rfl
        rw [exec_bind_ok hrecv, Cluster.received, Option.bind_some, if_neg (fun h => hid h.1)]
        rfl

end Packets

/-! ## Commands -/

section Commands

variable (E : Cluster) {w : World Sockets} {a : Addr}
  (ensureConn reconnect : Bool → Program (World Sockets) Bool)

/-- What a command gets from the node. -/
def Cluster.result (a : Addr) (w : World Sockets) (db : Option CString) (command : Option Bson) :
    Option MongoPacket :=
  match mongoWireCmdCustom E.order (w.conn.requestId + 1) db (slaveFlag w.conn) command with
  | .error _ => none
  | .ok p =>
      E.received (w.conn.requestId + 1) (E.served a (p.wireBytes E.order (p.data.getD [])))

/-- A command on a socket that is connected.  It does not reconnect. -/
theorem exec_custom (hsocket : w.socket = some a) (hidle : w.Idle) (db : Option CString)
    (command : Option Bson) (checkConn : Bool) :
    ∃ w', (mongoSyncCmdCustomWith E.net ensureConn reconnect db command checkConn false).exec w
        = (.ok (E.result a w db command), w') ∧ w.Served w.conn.rs w' := by
  rw [mongoSyncCmdCustomWith, exec_get_bind]
  dsimp only
  rw [Cluster.result]
  have horder : E.net.order = E.order := rfl
  rw [horder]
  cases hpacket : mongoWireCmdCustom E.order (w.conn.requestId + 1) db (slaveFlag w.conn) command with
  | error e => exact ⟨{ w with errno := e }, rfl, (World.Served.refl w).setErrno e⟩
  | ok p =>
      obtain ⟨data, hdata, hsize⟩ := (mongoWireCmdCustom_sealed hpacket).block
      obtain ⟨v, hsend, hnet, hconn, hnext⟩ := exec_mongoPacketSend E hsocket hdata hsize
      have hsent : (mongoSyncPacketSendWith E.net ensureConn reconnect p false checkConn).exec w
          = (.ok true, v) := by
        show (sendRound _ _ _ _ _ _ _).exec w = _
        rw [sendRound, exec_bind_ok hsend]
        rfl
      obtain ⟨err, e, hreceive⟩ := exec_receive E hidle (World.socket_fd hsocket).1
        (w.conn.requestId + 1) (E.served a (p.wireBytes E.order data)) hnet (by rw [hconn])
      refine ⟨{ v with net := w.net, conn := { v.conn with lastError := err }, errno := e },
        ?_, ⟨p.header.id, err, by rw [hconn]⟩, rfl, hnext.ge⟩
      show (do
        let sent ← mongoSyncPacketSendWith E.net ensureConn reconnect p false checkConn
        if sent then
          let p ← mongoSyncPacketRecv E.net (w.conn.requestId + 1) replyFlagQueryFail
          mongoSyncPacketCheckError p true
        else return none : Program (World Sockets) (Option MongoPacket)).exec w = _
      rw [exec_bind_ok hsent, if_pos rfl]
      dsimp only
      rw [hdata]
      exact hreceive

end Commands

end LibMongo
