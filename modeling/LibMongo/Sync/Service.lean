import Mathlib.Logic.Function.Basic
import LibMongo.Base.Refinement
import LibMongo.Sync.Query
import LibMongo.Sync.Reconnect
import LibMongo.Sync.Report
import LibMongo.Wire.RoundTrip

/-!
# A server behind a socket

A `Service` is a server with a state.  It is given messages, one after the other, and answers
the queries among them with a `Response`.  `Service.net` is the network with this server:
what arrives on a socket is decoded by the grammar of the protocol, and the bytes of the
reply wait on the socket to be read.

A `Dialogue` is a connection to the server as its user may think of it: the state of the
server, what the connection knows, and `errno`.  There are no bytes in it.  `tell` and `ask`
hand a message to the server, and `receive` looks at what it says.

`Service.view` sees a dialogue in every world in which the socket is open, has nothing left
to read, and is never replaced by another one.  Sending a packet is `tell` there
(`exec_mongoPacketSend`), and sending one and receiving the reply is `ask` and `receive`
(`exchange_refines`).
-/

namespace LibMongo

open Bytes Program

/-! ## Services -/

/-- What a server says to a query.  It is far shorter than the length of a packet can say. -/
structure Response where
  id : BitVec 32
  flags : BitVec 32
  cursorId : BitVec 64
  start : BitVec 32
  docs : List Doc
  fits : 36 + (docs.flatMap Doc.encode).length < 1073741824

namespace Response

/-- The reply to the message with the id. -/
def reply (r : Response) (id : BitVec 32) : Reply := ⟨r.id, id, r.flags, r.cursorId, r.start, r.docs⟩

theorem reply_fits (r : Response) (id : BitVec 32) : (r.reply id).Fits := by
  have hfits := r.fits
  simp only [Reply.Fits, Reply.body, reply, List.length_append, leBytes_length]
  omega

theorem first_small {d : Doc} {ds : List Doc}
    (h : 36 + ((d :: ds).flatMap Doc.encode).length < 1073741824) :
    d.encode.length < 1073741824 := by
  simp only [List.flatMap_cons, List.length_append] at h
  omega

end Response

/-- The message is answered. -/
def WireMessage.asks : WireMessage → Bool
  | .query .. => true
  | .getMore .. => true
  | _ => false

/-- A server with a state, and the outside that it is reached through. -/
structure Service (S : Type) where
  order : ByteOrder
  strerror : Errno → CString
  md5 : Bytes → CString
  /-- The addresses that accept a connection. -/
  accepts : CString → Int → Bool
  /-- The response is sent if the message is one that is answered. -/
  serve : S → WireMessage → S × Response

/-- The state of the server, and the bytes that wait on the sockets. -/
structure Desk (S : Type) where
  server : S
  pending : Int → Bytes

namespace Service

variable {S : Type} (V : Service S)

/-- A message is served, and the reply to it, if there is one, waits on the socket. -/
def deliver (fd : Int) (id : BitVec 32) (m : WireMessage) (d : Desk S) : Desk S where
  server := (V.serve d.server m).1
  pending :=
    if m.asks then
      Function.update d.pending fd (d.pending fd ++ ((V.serve d.server m).2.reply id).bytes)
    else d.pending

/-- Bytes arrive.  Those that are no message break the socket. -/
def arrive (fd : Int) (bytes : Bytes) (d : Desk S) : Except Errno Nat × Desk S :=
  match decodeMessage bytes with
  | none => (.error (.system 32), d)
  | some (id, m) => (.ok bytes.length, V.deliver fd id m d)

/-- The service as the net of a client. -/
def net : Net (Desk S) where
  order := V.order
  strerror := V.strerror
  md5 := V.md5
  tcp fd host port d :=
    if V.accepts host port then
      (.connected, { d with pending := Function.update d.pending fd [] })
    else (.refused, d)
  unix fd path d :=
    if V.accepts path mongoConnLocal then
      (true, { d with pending := Function.update d.pending fd [] })
    else (false, d)
  sendmsg fd bytes d := V.arrive fd bytes d
  recv fd n d :=
    (.ok ((d.pending fd).take n),
      { d with pending := Function.update d.pending fd ((d.pending fd).drop n) })
  close fd d := { d with pending := Function.update d.pending fd [] }

end Service

/-! ## Dialogues -/

theorem Bson.Encodes.eq_encode {b : Bson} {d : Doc} (h : b.Encodes d) : b = ⟨d.encode, true⟩ := by
  obtain ⟨data, fin⟩ := b
  cases h.finished
  cases h.data_eq
  rfl

/-- A reply with a document at least. -/
structure Received where
  reply : Reply
  fits : reply.Fits
  first : Doc
  rest : List Doc
  docs_eq : reply.docs = first :: rest
  small : first.encode.length < 1073741824

namespace Received

/-- The packet it is received as. -/
def packet (o : ByteOrder) (r : Received) : MongoPacket := r.reply.packet o

/-- The first document is read. -/
theorem exec_read {S : Type} (o : ByteOrder) (r : Received) (w : World S) :
    ∃ b, (readOrErrno (mongoWireReplyPacketGetNthDocument (some (r.packet o)) 1)).exec w
        = (.ok (some (some b)), w) ∧
      ∃ b', (bsonFinish (some b)).2 = some b' ∧ b'.Encodes r.first := by
  obtain ⟨b, hnth, hfirst⟩ := r.reply.getNthDocument_first o r.fits r.docs_eq
  refine ⟨b, ?_, hfirst⟩
  rw [packet, hnth]
  rfl

end Received

/-- The reply, if there is a document in it. -/
def Response.received (id : BitVec 32) : Response → Option Received
  | ⟨_, _, _, _, [], _⟩ => none
  | ⟨rid, flags, cursorId, start, d :: ds, fits⟩ =>
      some ⟨⟨rid, id, flags, cursorId, start, d :: ds⟩,
        Response.reply_fits ⟨rid, flags, cursorId, start, d :: ds, fits⟩ id, d, ds, rfl,
        Response.first_small fits⟩

/-- What `_mongo_sync_check_ok` says about a document. -/
def Doc.okErrno (d : Doc) : Errno :=
  match d.lookup okKey with
  | none => .ENOENT
  | some v =>
      match v.asDouble with
      | none => .EINVAL
      | some x => if x = doubleOne then .ok else .EPROTO

theorem mongoSyncCheckOk_okErrno {b : Bson} {d : Doc} (h : b.Encodes d) :
    mongoSyncCheckOk (some b) = .ok (d.isOk, d.okErrno) := by
  have hget := find_getDouble h okKey
  rw [mongoSyncCheckOk, Doc.isOk, Doc.okErrno]
  cases hl : d.lookup okKey with
  | none =>
      rw [bsonFind_none h hl]
      rfl
  | some v =>
      obtain ⟨d₁, d₂, rfl, -, hfind⟩ := bsonFind_some h hl
      rw [hfind, Program.ok_bind, hl, Option.bind_some] at hget
      rw [hfind, Program.ok_bind]
      dsimp only
      rw [hget, Option.bind_some]
      cases v.asDouble with
      | none => rfl
      | some x =>
          simp
          rfl

theorem Doc.okErrno_of_isOk {d : Doc} (h : d.isOk = true) : d.okErrno = .ok := by
  have hok := of_decide_eq_true h
  rw [okErrno]
  cases hl : d.lookup okKey with
  | none =>
      rw [hl] at hok
      cases hok
  | some v =>
      rw [hl, Option.bind_some] at hok
      dsimp only
      rw [hok]
      exact if_pos rfl

/-- A client and a service that hand each other messages, without sockets and bytes. -/
structure Dialogue (S : Type) where
  server : S
  conn : MongoSyncConnection
  errno : Errno

namespace Dialogue

variable {S : Type} (V : Service S)

/-- An assignment to `errno`. -/
def setErrno (e : Errno) : Program (Dialogue S) Unit := modify fun d => { d with errno := e }

/-- A change of the connection. -/
def setConn (f : MongoSyncConnection → MongoSyncConnection) : Program (Dialogue S) Unit :=
  modify fun d => { d with conn := f d.conn }

/-- A message is handed to the server.  The id is remembered as it lies in the packet. -/
def tell (id : BitVec 32) (m : WireMessage) : Program (Dialogue S) Unit :=
  modify fun d =>
    { d with
      server := (V.serve d.server m).1
      conn := { d.conn with requestId := V.order.le32 id } }

/-- A message that is answered. -/
def ask (id : BitVec 32) (m : WireMessage) : Program (Dialogue S) Response := do
  let d ← get
  tell V id m
  return (V.serve d.server m).2

/-- A reply to a command, of which the first document says whether it succeeded. -/
def checkCommand (r : Received) : Program (Dialogue S) (Option Received) := do
  if r.first.isOk then
    setErrno .ok
    return some r
  else
    setConn fun c => { c with lastError := r.first.report.toOption.join }
    setErrno r.first.okErrno
    return none

/-- A reply to a query, which is one unless its first document reports an error. -/
def checkQuery (r : Received) : Program (Dialogue S) (Option Received) :=
  match r.first.report with
  | .error e => do
      setConn fun c => { c with lastError := none }
      setErrno e
      return some r
  | .ok err => do
      setConn fun c => { c with lastError := err }
      return none

/-- What a response is to the one who asked. -/
def receive (id flags : BitVec 32) (checkOk : Bool) (r : Response) :
    Program (Dialogue S) (Option Received) :=
  if r.flags &&& flags ≠ 0 then do
    setErrno .EPROTO
    return none
  else
    match r.received id with
    | none => do
        setErrno .ENOENT
        return none
    | some r => if checkOk then checkCommand r else checkQuery r

/-- A message is handed over once the connection is ready for it. -/
def send (ready : Program (Dialogue S) Bool) (id : BitVec 32) (m : WireMessage) :
    Program (Dialogue S) Bool := do
  if ← ready then
    tell V id m
    return true
  else return false

/-- A question, once the connection is ready for it. -/
def exchange (ready : Program (Dialogue S) Bool) (id : BitVec 32) (m : WireMessage)
    (flags : BitVec 32) (checkOk : Bool) : Program (Dialogue S) (Option Received) := do
  if ← ready then
    let r ← ask V id m
    receive id flags checkOk r
  else return none

end Dialogue

/-! ## The view -/

namespace Service

variable {S : Type} (V : Service S)

/-- The dialogue in a world. -/
def view (_ : Service S) : Abstraction (World (Desk S)) (Dialogue S) where
  valid w := 0 ≤ w.conn.fd ∧ w.net.pending w.conn.fd = [] ∧ w.conn.autoReconnect = false
  view w := ⟨w.net.server, w.conn, w.errno⟩

/-! ## Packets -/

section Packets

variable {c : WireCall} {id : BitVec 32} {w : World (Desk S)}

/-- The state of the world once a packet has been sent. -/
def sent (c : WireCall) (id : BitVec 32) (w : World (Desk S)) : World (Desk S) :=
  { w with
    net := V.deliver w.conn.fd id c.message w.net
    log := w.log ++ [.send w.conn.fd (commandPacket V.order id c.opcode c.body c.dataSize)
      (some (16 + c.dataSize))]
    conn := { w.conn with requestId := V.order.le32 id } }

/-- A packet arrives whole. -/
theorem exec_mongoPacketSend (hfd : 0 ≤ w.conn.fd) (hsmall : 16 + c.dataSize < 2147483648) :
    (mongoPacketSend V.net (commandPacket V.order id c.opcode c.body c.dataSize)).exec w
      = (.ok true, V.sent c id w) := by
  have hdecode := c.decode V.order id hsmall
  have hlen : ((commandPacket V.order id c.opcode c.body c.dataSize).wireBytes V.order
      c.body).length = 16 + c.dataSize := by
    rw [← c.body_length]
    simp [MongoPacket.wireBytes]
  have hcall : V.net.sendmsg w.conn.fd ((commandPacket V.order id c.opcode c.body
      c.dataSize).wireBytes V.net.order c.body) w.net
        = (.ok (16 + c.dataSize), V.deliver w.conn.fd id c.message w.net) := by
    show V.arrive _ _ _ = _
    rw [← hlen, arrive]
    show (match decodeMessage ((commandPacket V.order id c.opcode c.body c.dataSize).header.image
      V.order ++ c.body) with | none => _ | some (id, m) => _) = _
    rw [hdecode]
    rfl
  have hwhole : ¬ (((16 + c.dataSize : Nat) : Int) ≠ 16 + (c.dataSize : Int)) := by omega
  rw [mongoPacketSend, exec_get_bind, if_neg (by omega)]
  show (system _ >>= _).exec w = _
  rw [exec_bind_ok (exec_system hcall)]
  dsimp only
  rw [emit, exec_modify_bind]
  refine (congrArg (fun m => Program.exec m _) (if_neg hwhole)).trans ?_
  rfl

/-- Nothing waits on the socket any more. -/
def drained (_ : Service S) (w : World (Desk S)) : World (Desk S) :=
  { w with net := { w.net with pending := Function.update w.net.pending w.conn.fd [] } }

/-- What waits on a socket is received as a packet. -/
theorem exec_mongoPacketRecv {r : Reply} (hfd : 0 ≤ w.conn.fd) (hfits : r.Fits)
    (hpending : w.net.pending w.conn.fd = r.bytes) :
    (mongoPacketRecv V.net).exec w
      = (.ok (some (r.packet V.order)), V.drained w) := by
  have hlen := r.head_length
  refine Reply.mongoPacketRecv_reply V.net hfits hfd
    (s := { w.net with pending := Function.update w.net.pending w.conn.fd r.body }) ?_ ?_
  · show (Except.ok ((w.net.pending w.conn.fd).take 16), _) = _
    rw [hpending, Reply.bytes, List.take_left' hlen, List.drop_left' hlen]
  · show (Except.ok ((Function.update w.net.pending w.conn.fd r.body w.conn.fd).take _), _) = _
    simp

/-! ## Replies -/

/-- The packet that is received, and the reply it stands for. -/
def Same (p : Option MongoPacket) (q : Option Received) : Prop := p = q.map (Received.packet V.order)

/-- The check of a reply. -/
theorem checkError_refinesAt (r : Received) (checkOk : Bool) (hw : V.view.valid w) :
    RefinesAt V.view V.Same (mongoSyncPacketCheckError (some (r.packet V.order)) checkOk)
      (if checkOk then Dialogue.checkCommand r else Dialogue.checkQuery r) w := by
  obtain ⟨b, hread, b', hfinish, hfirst⟩ := r.exec_read V.order w
  have herror := mongoSyncGetError_encodes hfirst
  cases checkOk with
  | true =>
      have hok := mongoSyncCheckOk_okErrno hfirst
      rw [if_pos rfl, Dialogue.checkCommand]
      cases hisOk : r.first.isOk with
      | true =>
          rw [if_pos rfl]
          have herrno := Doc.okErrno_of_isOk hisOk
          have hexec : (mongoSyncPacketCheckError (some (r.packet V.order)) true).exec w
              = (.ok (some (r.packet V.order)), { w with errno := .ok }) := by
            rw [mongoSyncPacketCheckError, exec_bind_ok hread]
            dsimp only
            rw [hfinish, if_pos rfl, hok, hisOk, herrno]
            rfl
          exact .of_exec hexec rfl rfl hw rfl
      | false =>
          rw [if_neg Bool.false_ne_true]
          have hexec : (mongoSyncPacketCheckError (some (r.packet V.order)) true).exec w
              = (.ok none, { w with
                  conn := { w.conn with lastError := r.first.report.toOption.join }
                  errno := r.first.okErrno }) := by
            rw [mongoSyncPacketCheckError, exec_bind_ok hread]
            dsimp only
            rw [hfinish, if_pos rfl, hok, hisOk]
            show (readOrErrno (mongoSyncGetError (some b')) >>= _).exec _ = _
            rw [herror]
            cases r.first.report with
            | error e => rfl
            | ok err => rfl
          exact .of_exec hexec rfl rfl hw rfl
  | false =>
      have hexec := exec_packetCheckError V.order r.fits r.docs_eq w
      rw [if_neg Bool.false_ne_true, Dialogue.checkQuery]
      cases hreport : r.first.report with
      | error e =>
          rw [hreport] at hexec
          exact .of_exec hexec rfl rfl hw rfl
      | ok err =>
          rw [hreport] at hexec
          exact .of_exec hexec rfl rfl hw rfl

theorem exec_recv_reply {r : Response} (hfd : 0 ≤ w.conn.fd)
    (hpending : w.net.pending w.conn.fd = (r.reply id).bytes) :
    (mongoPacketRecv V.net).exec w = (.ok (some ((r.reply id).packet V.order)), V.drained w) :=
  exec_mongoPacketRecv V hfd (r.reply_fits id) hpending

/-- A reply that waits on the socket is received and checked. -/
theorem receive_refinesAt {r : Response} (hfd : 0 ≤ w.conn.fd) (hauto : w.conn.autoReconnect = false)
    (hpending : w.net.pending w.conn.fd = (r.reply id).bytes) (flags : BitVec 32) (checkOk : Bool) :
    RefinesAt V.view V.Same
      (mongoSyncPacketRecv V.net id flags >>= fun p => mongoSyncPacketCheckError p checkOk)
      (Dialogue.receive id flags checkOk r) w := by
  have hvalid : V.view.valid (V.drained w) := ⟨hfd, by simp [drained], hauto⟩
  have hrecv := exec_recv_reply V hfd hpending
  have hheader : (readOrErrno (mongoWireReplyPacketGetHeader (some ((r.reply id).packet
      V.order)))).exec (V.drained w)
        = (.ok (some ⟨r.flags, r.cursorId, r.start, BitVec.ofNat 32 r.docs.length⟩), V.drained w) := by
    rw [(r.reply id).getHeader V.order (r.reply_fits id)]
    rfl
  rw [Dialogue.receive]
  by_cases hflags : r.flags &&& flags = 0
  · rw [if_neg (fun h => h hflags)]
    obtain ⟨rid, rflags, cursorId, start, docs, hfits⟩ := r
    cases docs with
    | nil =>
        have hnone : (mongoSyncPacketRecv V.net id flags).exec w
            = (.ok none, { V.drained w with errno := .ENOENT }) := by
          rw [mongoSyncPacketRecv, exec_bind_ok hrecv]
          dsimp only
          rw [if_neg (fun h => h rfl), exec_bind_ok hheader]
          dsimp only
          rw [if_neg (fun h => h hflags)]
          rfl
        exact .of_exec (exec_bind_ok hnone _) rfl rfl hvalid rfl
    | cons d ds =>
        have hsome : (mongoSyncPacketRecv V.net id flags).exec w
            = (.ok (some (Reply.packet V.order _)), V.drained w) :=
          exec_packetRecv V.net hrecv (Response.reply_fits _ id) rfl hflags (List.cons_ne_nil d ds)
        exact .after_silent hsome rfl (checkError_refinesAt V
          ⟨_, Response.reply_fits ⟨rid, rflags, cursorId, start, d :: ds, hfits⟩ id, d, ds, rfl,
            Response.first_small hfits⟩
          checkOk hvalid)
  · have hnone : (mongoSyncPacketRecv V.net id flags).exec w
        = (.ok none, { V.drained w with errno := .EPROTO }) := by
      rw [mongoSyncPacketRecv, exec_bind_ok hrecv]
      dsimp only
      rw [if_neg (fun h => h rfl), exec_bind_ok hheader]
      dsimp only
      rw [if_pos hflags]
      rfl
    rw [if_pos hflags]
    exact .of_exec (exec_bind_ok hnone _) rfl rfl hvalid rfl

/-! ## Sending with the flags of a call -/

variable {ensureConn reconnect : Bool → Program (World (Desk S)) Bool}
  {ready : Program (Dialogue S) Bool}

/-- The first attempt to send a packet succeeds. -/
theorem exec_sendLoop (hfd : 0 ≤ w.conn.fd) (hsmall : 16 + c.dataSize < 2147483648)
    (forceMaster autoReconnect : Bool) :
    (sendLoop V.net reconnect (commandPacket V.order id c.opcode c.body c.dataSize) forceMaster
      autoReconnect).exec w = (.ok true, V.sent c id w) := by
  rw [sendLoop, sendRound, exec_bind_ok (V.exec_mongoPacketSend hfd hsmall), if_pos rfl]
  rfl

/-- A message that is not answered. -/
theorem send_refines (hnone : c.message.asks = false) (hsmall : 16 + c.dataSize < 2147483648)
    {forceMaster : Bool}
    (hready : Refines V.view Eq (if forceMaster then ensureConn forceMaster else pure true) ready)
    (autoReconnect : Bool) :
    Refines V.view Eq
      (mongoSyncPacketSendWith V.net ensureConn reconnect
        (commandPacket V.order id c.opcode c.body c.dataSize) forceMaster autoReconnect)
      (Dialogue.send V ready id c.message) := by
  refine hready.bind_eq fun ok => .ite (fun _ => ?_) fun _ => .pure rfl
  rintro w ⟨hfd, hpending, hauto⟩
  refine .of_exec (V.exec_sendLoop hfd hsmall forceMaster autoReconnect) rfl rfl ⟨hfd, ?_, hauto⟩ rfl
  simp [sent, deliver, hnone, hpending]

/-- A message that is answered. -/
theorem exchange_refines (hasks : c.message.asks = true) (hsmall : 16 + c.dataSize < 2147483648)
    {forceMaster : Bool}
    (hready : Refines V.view Eq (if forceMaster then ensureConn forceMaster else pure true) ready)
    (autoReconnect : Bool) (flags : BitVec 32) (checkOk : Bool) :
    Refines V.view V.Same
      (do
        let sent ← mongoSyncPacketSendWith V.net ensureConn reconnect
          (commandPacket V.order id c.opcode c.body c.dataSize) forceMaster autoReconnect
        if sent then
          let p ← mongoSyncPacketRecv V.net id flags
          mongoSyncPacketCheckError p checkOk
        else return none)
      (Dialogue.exchange V ready id c.message flags checkOk) := by
  rw [mongoSyncPacketSendWith, bind_assoc]
  refine hready.bind_eq fun ok => ?_
  cases ok with
  | false => exact .pure rfl
  | true =>
      rintro w ⟨hfd, hpending, hauto⟩
      rw [if_pos rfl, if_pos rfl]
      refine .after (V.exec_sendLoop hfd hsmall forceMaster autoReconnect) rfl ?_
      rw [if_pos rfl]
      refine V.receive_refinesAt (w := V.sent c id w) hfd hauto ?_ flags checkOk
      simp [sent, deliver, hasks, hpending, view]

end Packets

/-! ## Connecting -/

/-- A connection to an address that accepts one.  Nothing waits on its socket. -/
theorem exec_connect {host : CString} {port : Int} (hport : port = mongoConnLocal → host.length < 108)
    (haccepts : V.accepts host port = true) (slaveok : Bool) (w : World (Desk S)) :
    (mongoSyncConnect V.net host port slaveok).exec w
      = (.ok (some { mongoSyncConnInit ⟨w.nextFd, 0⟩ slaveok with
          rs := ⟨[formatAddr host port], [], none⟩ }), { w with
        nextFd := w.nextFd + 1
        net := { w.net with pending := Function.update w.net.pending w.nextFd [] }
        log := w.log ++ [.connect w.nextFd host port] }) := by
  have hconnect : (mongoConnect V.net host port).exec w = (.ok (some ⟨w.nextFd, 0⟩), { w with
      nextFd := w.nextFd + 1
      net := { w.net with pending := Function.update w.net.pending w.nextFd [] }
      log := w.log ++ [.connect w.nextFd host port] }) := by
    have hnew : newFd.exec w = (.ok (w.nextFd : Int), { w with nextFd := w.nextFd + 1 }) := rfl
    rw [mongoConnect]
    by_cases hlocal : port = mongoConnLocal
    · have hunix : V.net.unix w.nextFd host w.net
          = (true, { w.net with pending := Function.update w.net.pending w.nextFd [] }) :=
        if_pos (hlocal ▸ haccepts)
      have hlen : ¬ 108 ≤ host.length := Nat.not_le.mpr (hport hlocal)
      rw [if_pos hlocal, mongoUnixConnect, if_neg hlen, exec_bind_ok hnew,
        exec_bind_ok (exec_system (w := { w with nextFd := w.nextFd + 1 }) hunix), hlocal]
      rfl
    · have htcp : V.net.tcp w.nextFd host port w.net
          = (.connected, { w.net with pending := Function.update w.net.pending w.nextFd [] }) :=
        if_pos haccepts
      rw [if_neg hlocal, mongoTcpConnect, exec_bind_ok hnew,
        exec_bind_ok (exec_system (w := { w with nextFd := w.nextFd + 1 }) htcp)]
      rfl
  rw [mongoSyncConnect, exec_bind_ok hconnect]
  rfl

end Service

end LibMongo
