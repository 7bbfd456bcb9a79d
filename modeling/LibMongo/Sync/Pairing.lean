import LibMongo.Net.Boundary
import LibMongo.Sync.Client
import LibMongo.Sync.Settings

/-!
# Replies and their requests

A server that answers in order, and a client that may give up waiting.  The answer it
did not wait for is the first that the next call reads on the socket, and the call
tells it from its own by the request id alone.

A packet that was built before the library reconnected keeps the id that was the next
one on the old socket, and the new socket may have used it already.  `reply_own_iff`
says when a call takes the reply to another packet for its own.
-/

namespace LibMongo

open Bytes Program

variable {σ : Type} (N : Net σ)

/-! ## A server that answers in order -/

/-- The packet asks for a reply. -/
def MongoPacketHeader.Asks (h : MongoPacketHeader) : Prop :=
  h.opcode = MongoWireOpcode.query.code ∨ h.opcode = MongoWireOpcode.getMore.code

instance (h : MongoPacketHeader) : Decidable h.Asks := inferInstanceAs (Decidable (_ ∨ _))

/-- Every packet that asks for a reply gets one, on each socket in the order of the
packets, and a receive gets the next reply or nothing.  `unread` are the replies on the
sockets that were not received, in a state in which none is being received. -/
structure OrderedServer (resting : σ → Prop) (unread : σ → Int → List ServedPacket) : Prop where
  asked : ∀ {s s' fd data} {h : MongoPacketHeader}, resting s → h.Asks →
    N.sendmsg fd (h.wire ++ data) s = (.ok (16 + data.length), s') →
    resting s' ∧ ∃ q : ServedPacket, q.header.respTo = h.id ∧
      unread s' = Function.update (unread s) fd (unread s fd ++ [q])
  unasked : ∀ {s s' fd bytes r}, resting s → N.sendmsg fd bytes s = (r, s') →
    (∀ (h : MongoPacketHeader) data, bytes = h.wire ++ data → r = .ok (16 + data.length) →
      ¬ h.Asks) →
    resting s' ∧ unread s' = unread s
  attempt : ∀ {s} fd, resting s →
    ((∀ head, (N.recv fd 16 s).1 = .ok head → head = []) ∧ resting (N.recv fd 16 s).2 ∧
      unread (N.recv fd 16 s).2 = unread s) ∨
    ∃ q rest t t', unread s fd = q :: rest ∧ N.recv fd 16 s = (.ok q.header.wire, t) ∧
      N.recv fd q.body.length t = (.ok q.body, t') ∧ resting t' ∧
      unread t' = Function.update (unread s) fd rest
  tcp : ∀ {s} fd host port, resting s →
    resting (N.tcp fd host port s).2 ∧ unread (N.tcp fd host port s).2 = unread s
  unix : ∀ {s} fd path, resting s →
    resting (N.unix fd path s).2 ∧ unread (N.unix fd path s).2 = unread s
  close : ∀ {s} fd, resting s → resting (N.close fd s) ∧
    ∀ fd', fd' ≠ fd → unread (N.close fd s) fd' = unread s fd'

/-- A header lies in memory as it is on the wire, if it holds words in little-endian. -/
theorem MongoPacketHeader.image_eq (o : ByteOrder) (h : MongoPacketHeader) :
    h.image o = (h.le32 o).wire := by
  have hword : ∀ x : BitVec 32, o.mem32 x = leBytes 4 (o.le32 x).toNat := fun x => by
    rw [← ByteOrder.mem32_le32, ByteOrder.le32_le32]
  simp only [MongoPacketHeader.image, MongoPacketHeader.wire, MongoPacketHeader.le32, hword]

/-- The header in front of a packet. -/
theorem MongoPacketHeader.wire_append_inj {h h' : MongoPacketHeader} {data data' : Bytes}
    (heq : h.wire ++ data = h'.wire ++ data') : h = h' ∧ data = data' := by
  obtain ⟨hwire, hdata⟩ := List.append_inj heq (by simp)
  refine ⟨?_, hdata⟩
  rw [← loadHeader_wire .little h, hwire, loadHeader_wire]

section Server

variable {N} {resting : σ → Prop} {unread : σ → Int → List ServedPacket}
  (hserver : OrderedServer N resting unread)
include hserver

/-- Sending a packet: the reply to it comes behind the others. -/
theorem OrderedServer.send {p : MongoPacket} (hp : p.Sealed N.order) {w : World σ}
    (hw : resting w.net) :
    wp (mongoPacketSend N p)
      (fun ok w' => resting w'.net ∧ w'.conn.fd = w.conn.fd ∧
        (ok = true → (mongoWirePacketGetHeader N.order p).Asks →
          ∃ q : ServedPacket, q.header.respTo = (mongoWirePacketGetHeader N.order p).id ∧
            unread w'.net w.conn.fd = unread w.net w.conn.fd ++ [q]))
      (fun _ => False) w := by
  obtain ⟨data, hdata, hsize⟩ := hp.block
  rw [mongoPacketSend, wp_bind, wp_get]
  refine wp_ite (fun _ => ?_) (fun _ => ?_)
  · exact ⟨hw, rfl, fun h => by cases h⟩
  · rw [mongoWirePacketGetData, hdata]
    show wp (system _ >>= _) _ _ _
    rw [wp_bind, wp_system]
    have hbytes : p.wireBytes N.order data = (mongoWirePacketGetHeader N.order p).wire ++ data := by
      rw [MongoPacket.wireBytes, mongoWirePacketGetHeaderRaw, MongoPacketHeader.image_eq,
        mongoWirePacketGetHeader]
    rw [hbytes]
    cases hsend : N.sendmsg w.conn.fd ((mongoWirePacketGetHeader N.order p).wire ++ data) w.net with
    | mk r s =>
        by_cases hasked : (mongoWirePacketGetHeader N.order p).Asks ∧ r = .ok (16 + data.length)
        · obtain ⟨hasks, rfl⟩ := hasked
          obtain ⟨hs, q, hid, hunread⟩ := hserver.asked hw hasks hsend
          have hlen : ((16 + data.length : Nat) : Int) = 16 + p.dataSize := by
            rw [hsize]
            omega
          show wp (emit _ >>= _) _ _ _
          rw [wp_bind, wp_emit, if_neg (fun hne => hne hlen)]
          refine ⟨hs, rfl, fun _ _ => ⟨q, hid, ?_⟩⟩
          rw [hunread, Function.update_self]
        · obtain ⟨hs, hunread⟩ := hserver.unasked hw hsend fun h data' heq hr hasks => by
            obtain ⟨rfl, rfl⟩ := MongoPacketHeader.wire_append_inj heq
            exact hasked ⟨hasks, hr⟩
          cases r with
          | error e => exact ⟨hs, rfl, fun h => by cases h⟩
          | ok count =>
              show wp (emit _ >>= _) _ _ _
              rw [wp_bind, wp_emit]
              refine wp_ite (fun _ => ?_) (fun hwhole => ?_)
              · exact ⟨hs, rfl, fun h => by cases h⟩
              · refine ⟨hs, rfl, fun _ hasks => absurd ⟨hasks, ?_⟩ hasked⟩
                rw [not_not, hsize] at hwhole
                rw [show count = 16 + data.length by omega]

/-- A receive gets the next reply or nothing. -/
theorem OrderedServer.recv {w : World σ} (hw : resting w.net) :
    ∃ p u, (mongoPacketRecv N).exec w = (.ok p, u) ∧ resting u.net ∧
      (p = none ∨ ∃ q rest, unread w.net w.conn.fd = q :: rest ∧ p = some (q.packet N.order) ∧
        unread u.net w.conn.fd = rest) := by
  rcases hserver.attempt w.conn.fd hw with ⟨hempty, hs, -⟩ | ⟨q, rest, t, t', hq, hhead, hbody, ht, hunread⟩
  · have hheader : N.header w = none := by
      rw [Net.header]
      split
      · rfl
      · cases hrecv : (N.recv w.conn.fd 16 w.net).1 with
        | error e => rfl
        | ok head => rw [hempty head hrecv]; rfl
    obtain ⟨e, s, hrun, hnet⟩ := exec_recv_noHeader N w hheader
    refine ⟨none, _, hrun, ?_, .inl rfl⟩
    rcases hnet with rfl | ⟨-, rfl⟩
    · exact hw
    · exact hs
  · by_cases hfd : w.conn.fd < 0
    · obtain ⟨e, s, hrun, hnet⟩ := exec_recv_noHeader N w (by rw [Net.header, if_pos hfd])
      refine ⟨none, _, hrun, ?_, .inl rfl⟩
      rcases hnet with rfl | ⟨hnot, -⟩
      · exact hw
      · exact absurd hfd hnot
    · have hheader : N.header w = some q.header := by
        rw [Net.header, if_neg hfd, hhead]
        dsimp only
        rw [if_pos q.header.wire_length, loadHeader_wire]
      obtain ⟨e, hrun⟩ := exec_recv_long hheader q.long
      have hwhole : N.body w q.header = some q.body := by
        rw [Net.body, q.size_eq, hhead, hbody]
        exact if_pos rfl
      rw [hwhole, q.size_eq, hhead, hbody] at hrun
      refine ⟨_, _, hrun, ht, .inr ⟨q, rest, hq, rfl, ?_⟩⟩
      show unread t' w.conn.fd = rest
      rw [hunread, Function.update_self]

/-! ## Runs -/

/-- Between two calls no reply is being received. -/
theorem OrderedServer.rule : ClientRule N (fun w w' => resting w.net → resting w'.net) where
  frame := ⟨fun _ => id, fun h h' => h' ∘ h⟩
  conn _ _ := id
  errno _ _ := id
  event _ _ _ := id
  send hp _ := wp_imp fun hw => wp_mono (hserver.send hp hw) (fun _ _ h => h.1) (fun _ h => h.elim)
  recv w := wp_imp fun hw => by
    obtain ⟨p, u, hrun, hu, -⟩ := hserver.recv hw
    rw [wp, hrun]
    exact hu
  connect host port w := wp_imp fun hw => by
    rw [mongoConnect]
    refine wp_ite (fun _ => ?_) (fun _ => ?_)
    · rw [mongoUnixConnect]
      refine wp_ite (fun _ => hw) (fun _ => ?_)
      rw [wp_bind, wp_newFd, wp_bind, wp_system]
      have hs := (hserver.unix w.nextFd host hw).1
      exact wp_ite (fun _ => hs) (fun _ => hs)
    · rw [mongoTcpConnect, wp_bind, wp_newFd, wp_bind, wp_system]
      have hs := (hserver.tcp w.nextFd host port hw).1
      cases (N.tcp w.nextFd host port w.net).1 with
      | connected => exact hs
      | refused => exact hs
      | unresolved e =>
          cases e with
          | none => exact hs
          | some e => exact hs
  close fd w := by
    rw [closeFd, wp_bind, wp_emit, wp_system]
    exact fun hw => (hserver.close fd hw).1

end Server

/-! ## The calls that return a reply -/

/-- `mongo_sync_cmd_query`, `mongo_sync_cmd_get_more`, and `_mongo_sync_cmd_custom`, which
is behind every other command. -/
inductive ReplyCall where
  | query (call : QueryCall)
  | custom (db : Option CString) (command : Option Bson) (checkConn forceMaster : Bool)

namespace ReplyCall

variable (reconnect : Bool → Program (World σ) Bool)

/-- The call of the library. -/
def run : ReplyCall → Program (World σ) (Option MongoPacket)
  | .query call => call.run N reconnect
  | .custom db command checkConn forceMaster =>
      mongoSyncCmdCustomWith N (mongoCmdEnsureConn N reconnect) reconnect db command checkConn
        forceMaster

/-- The call sends the packet, and is then in the state `x`. -/
def Sends (v : World σ) (p : MongoPacket) (x : World σ) : ReplyCall → Prop
  | .query call => ∃ a, (mongoCmdVerifySlaveok N reconnect).exec v = (.ok true, a) ∧
      call.packet N.order a.conn = .ok p ∧
      (mongoSyncPacketSend N reconnect p (call.forceMaster a.conn) true).exec a = (.ok true, x)
  | .custom db command checkConn forceMaster =>
      mongoWireCmdCustom N.order (v.conn.requestId + 1) db (slaveFlag v.conn) command = .ok p ∧
      (mongoSyncPacketSend N reconnect p forceMaster checkConn).exec v = (.ok true, x)

/-- The flags of a reply that say the request failed. -/
def failure : ReplyCall → BitVec 32
  | .query call => call.failure
  | .custom .. => replyFlagQueryFail

/-- Whether the reply has to say that the command worked. -/
def checkOk : ReplyCall → Bool
  | .query _ => false
  | .custom .. => true

end ReplyCall

/-- The request states the id the call looks for in the reply. -/
structure Requests (o : ByteOrder) (p : MongoPacket) (rid : BitVec 32) : Prop where
  isSealed : p.Sealed o
  asks : (mongoWirePacketGetHeader o p).Asks
  id : (mongoWirePacketGetHeader o p).id = rid

theorem commandPacket_id (o : ByteOrder) (id : BitVec 32) (opcode : MongoWireOpcode) (data : Bytes)
    (dataSize : Int) :
    (mongoWirePacketGetHeader o (commandPacket o id opcode data dataSize)).id = id :=
  ByteOrder.le32_le32 o id

theorem mongoWireCmdQuery_requests {o : ByteOrder} {id flags skip ret : BitVec 32}
    {ns : Option CString} {query sel : Option Bson} {p : MongoPacket}
    (h : mongoWireCmdQuery o id ns flags skip ret query sel = .ok p) : Requests o p id := by
  refine ⟨mongoWireCmdQuery_sealed h, .inl (mongoWireCmdQuery_hasOpcode h), ?_⟩
  unfold mongoWireCmdQuery at h
  split at h
  case h_1 =>
    dsimp only at h
    split at h
    · cases h
    · cases h
      exact commandPacket_id ..
  case h_2 => cases h

theorem mongoWireCmdCustom_requests {o : ByteOrder} {id flags : BitVec 32} {db : Option CString}
    {command : Option Bson} {p : MongoPacket}
    (h : mongoWireCmdCustom o id db flags command = .ok p) : Requests o p id := by
  unfold mongoWireCmdCustom at h
  split at h
  case h_1 =>
    split at h
    · cases h
    · exact mongoWireCmdQuery_requests h
  case h_2 => cases h

theorem mongoWireCmdGetMore_requests {o : ByteOrder} {id ret : BitVec 32} {ns : Option CString}
    {cursorId : BitVec 64} {p : MongoPacket}
    (h : mongoWireCmdGetMore o id ns ret cursorId = .ok p) : Requests o p id := by
  refine ⟨mongoWireCmdGetMore_sealed h, .inr ?_, ?_⟩
  · cases ns with
    | none => cases h
    | some ns =>
        cases h
        exact ByteOrder.le32_le32 ..
  · cases ns with
    | none => cases h
    | some ns =>
        cases h
        exact commandPacket_id ..

theorem QueryCall.packet_requests {o : ByteOrder} {c : MongoSyncConnection} {call : QueryCall}
    {p : MongoPacket} (h : call.packet o c = .ok p) : Requests o p (c.requestId + 1) := by
  cases call with
  | query => exact mongoWireCmdQuery_requests h
  | getMore => exact mongoWireCmdGetMore_requests h

/-- A packet that could be built. -/
theorem exec_orErrno_some {α : Type} {x : Except Errno α} {a : α} {w w' : World σ}
    (h : (orErrno x).exec w = (.ok (some a), w')) : x = .ok a ∧ w' = w := by
  cases x with
  | ok b =>
      cases h
      exact ⟨rfl, rfl⟩
  | error e => cases h

/-- A value that could be read. -/
theorem exec_readOrErrno_some {α : Type} {x : Except Halt (Except Errno α)} {a : α} {w w' : World σ}
    (h : (readOrErrno x).exec w = (.ok (some a), w')) : w' = w := by
  cases x with
  | ok x => exact (exec_orErrno_some h).2
  | error e => cases h

/-- The part of a query behind the check of the connection. -/
theorem QueryCall.run_eq_some {reconnect : Bool → Program (World σ) Bool} {call : QueryCall}
    {v w' : World σ} {r : MongoPacket} (h : (call.run N reconnect).exec v = (.ok (some r), w')) :
    ∃ a p, (mongoCmdVerifySlaveok N reconnect).exec v = (.ok true, a) ∧
      call.packet N.order a.conn = .ok p ∧
      (sendAndReceive N reconnect p (a.conn.requestId + 1) call.failure
        (call.forceMaster a.conn)).exec a = (.ok (some r), w') := by
  cases call with
  | query ns flags skip ret q sel =>
      obtain ⟨verified, a, hverified, h⟩ := exec_bind_eq_ok.mp h
      cases verified with
      | false => cases h
      | true =>
          rw [if_pos rfl, exec_get_bind] at h
          obtain ⟨p, u, hbuild, h⟩ := exec_bind_eq_ok.mp h
          cases p with
          | none => cases h
          | some p =>
              obtain ⟨hp, rfl⟩ := exec_orErrno_some hbuild
              exact ⟨u, p, hverified, hp, h⟩
  | getMore ns ret cursorId =>
      obtain ⟨verified, a, hverified, h⟩ := exec_bind_eq_ok.mp h
      cases verified with
      | false => cases h
      | true =>
          rw [if_pos rfl, exec_get_bind] at h
          obtain ⟨p, u, hbuild, h⟩ := exec_bind_eq_ok.mp h
          cases p with
          | none => cases h
          | some p =>
              obtain ⟨hp, rfl⟩ := exec_orErrno_some hbuild
              exact ⟨u, p, hverified, hp, h⟩

/-- A call that returns a packet has sent one and received one. -/
theorem ReplyCall.run_eq_some {reconnect : Bool → Program (World σ) Bool} {c : ReplyCall}
    {v w' : World σ} {r : MongoPacket} (h : (c.run N reconnect).exec v = (.ok (some r), w')) :
    ∃ p x rid, c.Sends N reconnect v p x ∧ Requests N.order p rid ∧
      (mongoSyncPacketRecv N rid c.failure >>= fun reply =>
        mongoSyncPacketCheckError reply c.checkOk).exec x = (.ok (some r), w') := by
  cases c with
  | custom db command checkConn forceMaster =>
      rw [run, mongoSyncCmdCustomWith, exec_get_bind] at h
      obtain ⟨p, a, hbuild, h⟩ := exec_bind_eq_ok.mp h
      cases p with
      | none => cases h
      | some p =>
          obtain ⟨hp, rfl⟩ := exec_orErrno_some hbuild
          obtain ⟨sent, x, hsent, h⟩ := exec_bind_eq_ok.mp h
          cases sent with
          | false => cases h
          | true => exact ⟨p, x, _, ⟨hp, hsent⟩, mongoWireCmdCustom_requests hp, h⟩
  | query call =>
      obtain ⟨a, p, hverified, hp, h⟩ := QueryCall.run_eq_some N h
      obtain ⟨sent, x, hsent, h⟩ := exec_bind_eq_ok.mp h
      cases sent with
      | false => cases h
      | true => exact ⟨p, x, _, ⟨a, hverified, hp, hsent⟩, QueryCall.packet_requests hp, h⟩

/-! ## From the request to the reply -/

/-- The packet that was sent was handed to the socket last. -/
theorem mongoSyncPacketSendWith_handed {R : World σ → World σ → Prop} (hF : Frame R)
    {p : MongoPacket} (hsend : Keeps R (mongoPacketSend N p))
    {ensureConn reconnect : Bool → Program (World σ) Bool} (hensure : ∀ force, Keeps R (ensureConn force))
    (hreconnect : ∀ force, Keeps R (reconnect force)) {forceMaster autoReconnect : Bool}
    {v x : World σ} (h : (mongoSyncPacketSendWith N ensureConn reconnect p forceMaster
      autoReconnect).exec v = (.ok true, x)) :
    ∃ u, R v u ∧ (mongoPacketSend N p).exec u = (.ok true, x) := by
  have hround : ∀ {out : Bool} {again : Program (World σ) Bool} {a : World σ},
      (∀ {b}, again.exec b = (.ok true, x) → ∃ u, R b u ∧ (mongoPacketSend N p).exec u = (.ok true, x)) →
      (sendRound N reconnect p forceMaster autoReconnect out again).exec a = (.ok true, x) →
      ∃ u, R a u ∧ (mongoPacketSend N p).exec u = (.ok true, x) := by
    intro out again a hagain h
    obtain ⟨sent, b, hsent, h⟩ := exec_bind_eq_ok.mp h
    cases sent with
    | true =>
        cases h
        exact ⟨a, hF.refl a, hsent⟩
    | false =>
        have hb := wp_ok (hsend a) hsent
        rw [if_neg (by decide), exec_get_bind] at h
        split at h
        · cases h
        · obtain ⟨connected, c, hconnected, h⟩ := exec_bind_eq_ok.mp h
          have hc := wp_ok (hreconnect forceMaster b) hconnected
          cases connected with
          | false => cases h
          | true =>
              obtain ⟨u, hu, hhanded⟩ := hagain h
              exact ⟨u, hF.trans hb (hF.trans hc hu), hhanded⟩
  obtain ⟨ready, a, hready, h⟩ := exec_bind_eq_ok.mp h
  have ha : R v a := by
    cases forceMaster with
    | false =>
        cases hready
        exact hF.refl v
    | true =>
        have hready' := wp_ok (hensure true v) hready
        exact hready'
  cases ready with
  | false => cases h
  | true =>
      obtain ⟨u, hu, hhanded⟩ := hround (fun hagain => hround (fun hlast => by cases hlast) hagain) h
      exact ⟨u, hF.trans ha hu, hhanded⟩

/-- The packet of a call was handed to the socket last. -/
theorem ReplyCall.Sends.handed {R : World σ → World σ → Prop} (h : ClientRule N R) {fuel : Nat}
    {p : MongoPacket} (hp : p.Sealed N.order) {c : ReplyCall} {v x : World σ}
    (hsends : c.Sends N (mongoSyncReconnect N fuel) v p x) :
    ∃ u, R v u ∧ (mongoPacketSend N p).exec u = (.ok true, x) := by
  have hensure : ∀ force, Keeps R (mongoCmdEnsureConn N (mongoSyncReconnect N fuel) force) :=
    fun force => mongoCmdEnsureConn_keeps h.socket.talk h.frame.halts h.socket.cmdIsMaster
      (h.reconnect fuel) force
  cases c with
  | custom db command checkConn forceMaster =>
      exact mongoSyncPacketSendWith_handed N h.frame (h.send hp) hensure (h.reconnect fuel) hsends.2
  | query call =>
      obtain ⟨a, hverified, -, hsent⟩ := hsends
      have ha := wp_ok ((h.calls fuel).verifySlaveok v) hverified
      obtain ⟨u, hu, hhanded⟩ :=
        mongoSyncPacketSendWith_handed N h.frame (h.send hp) hensure (h.reconnect fuel) hsent
      exact ⟨u, h.frame.trans ha hu, hhanded⟩

/-- The check for an error returns the packet it was given. -/
theorem mongoSyncPacketCheckError_returns (p : Option MongoPacket) (checkOk : Bool) (w : World σ) :
    wp (mongoSyncPacketCheckError p checkOk) (fun r _ => r.isSome → r = p) (fun _ => True) w := by
  cases p with
  | none => exact fun _ => rfl
  | some p =>
      have hnone : (none : Option MongoPacket).isSome → none = some p := fun h => by cases h
      rw [mongoSyncPacketCheckError, wp_bind]
      refine wp_readOrErrno (fun b _ => ?_) (fun _ _ => hnone) (fun _ _ => trivial)
      refine wp_ite (fun _ => ?_) (fun _ => ?_)
      · rw [wp_bind]
        refine wp_ofExcept (fun verdict _ => ?_) (fun _ _ => trivial)
        refine wp_ite (fun _ _ => rfl) (fun _ => ?_)
        rw [wp_bind, wp_setConn, wp_bind]
        exact wp_readOrErrno (fun _ _ => hnone) (fun _ _ => hnone) (fun _ _ => trivial)
      · rw [wp_bind, wp_setConn, wp_bind]
        exact wp_readOrErrno (fun _ _ => hnone) (fun _ _ _ => rfl) (fun _ _ => trivial)

/-- The sockets are left alone. -/
structure World.SameSockets (w w' : World σ) : Prop where
  net : w'.net = w.net
  fd : w'.conn.fd = w.conn.fd

theorem World.SameSockets.frame : Frame (World.SameSockets (σ := σ)) where
  refl _ := ⟨rfl, rfl⟩
  trans h h' := ⟨h'.net.trans h.net, h'.fd.trans h.fd⟩

theorem mongoSyncPacketCheckError_sameSockets (p : Option MongoPacket) (checkOk : Bool) :
    Keeps (World.SameSockets (σ := σ)) (mongoSyncPacketCheckError p checkOk) :=
  mongoSyncPacketCheckError_keeps World.SameSockets.frame (fun _ _ => ⟨rfl, rfl⟩)
    (fun _ _ => ⟨rfl, rfl⟩) p checkOk

/-- The reply that is returned is the one that was received. -/
theorem recv_check_eq_some {rid flags : BitVec 32} {checkOk : Bool} {x w' : World σ}
    {r : MongoPacket} (h : (mongoSyncPacketRecv N rid flags >>= fun reply =>
      mongoSyncPacketCheckError reply checkOk).exec x = (.ok (some r), w')) :
    ∃ y, (mongoPacketRecv N).exec x = (.ok (some r), y) ∧ r.header.respTo = rid ∧
      y.SameSockets w' := by
  obtain ⟨reply, z, hrecv, hcheck⟩ := exec_bind_eq_ok.mp h
  have hreply := wp_ok (mongoSyncPacketCheckError_returns reply checkOk z) hcheck rfl
  have hsame := wp_ok (mongoSyncPacketCheckError_sameSockets reply checkOk z) hcheck
  subst hreply
  obtain ⟨received, y, hreceived, hrecv⟩ := exec_bind_eq_ok.mp hrecv
  cases received with
  | none => cases hrecv
  | some p =>
      dsimp only at hrecv
      split at hrecv
      · cases hrecv
      · next hid =>
        rw [not_not] at hid
        obtain ⟨rh, u, hheader, hrecv⟩ := exec_bind_eq_ok.mp hrecv
        cases rh with
        | none => cases hrecv
        | some rh =>
            have hu := exec_readOrErrno_some hheader
            dsimp only at hrecv
            split at hrecv
            · cases hrecv
            · split at hrecv
              · cases hrecv
              · cases hrecv
                subst hu
                exact ⟨_, hreceived, hid, hsame⟩

/-- A call that returns a reply returns the first one on its socket, and its own comes
last. -/
theorem reply_first {resting : σ → Prop} {unread : σ → Int → List ServedPacket}
    (hserver : OrderedServer N resting unread) {fuel : Nat} {w v w' : World σ}
    (hw : resting w.net) (hrun : ClientRun N fuel w v) {c : ReplyCall} {r : MongoPacket}
    (hcall : (c.run N (mongoSyncReconnect N fuel)).exec v = (.ok (some r), w')) :
    ∃ p u x, c.Sends N (mongoSyncReconnect N fuel) v p x ∧
      (mongoPacketSend N p).exec u = (.ok true, x) ∧ w'.conn.fd = u.conn.fd ∧
      ∃ own q, unread x.net u.conn.fd = unread u.net u.conn.fd ++ [own] ∧
        unread u.net u.conn.fd ++ [own] = q :: unread w'.net u.conn.fd ∧
        r = q.packet N.order ∧ q.header.respTo = (mongoWirePacketGetHeader N.order p).id := by
  have hrule := hserver.rule
  obtain ⟨p, x, rid, hsends, hp, hreply⟩ := c.run_eq_some N hcall
  obtain ⟨u, hu, hhanded⟩ := hsends.handed N hrule hp.isSealed
  have hu : resting u.net := hu (hrule.run hrun hw)
  obtain ⟨hx, hfd, hasked⟩ := wp_ok (hserver.send hp.isSealed hu) hhanded
  obtain ⟨own, -, hunread⟩ := hasked rfl hp.asks
  obtain ⟨y, hrecv, hid, hsame⟩ := recv_check_eq_some N hreply
  have hstill := wp_ok (mongoPacketRecv_still N x) hrecv
  obtain ⟨p', y', hrecv', -, hnext⟩ := hserver.recv hx
  rw [hrecv] at hrecv'
  cases hrecv'
  rcases hnext with hnone | ⟨q, rest, hq, hr, hrest⟩
  · cases hnone
  · cases hr
    have hfd' : w'.conn.fd = u.conn.fd := by rw [hsame.fd, hstill.conn, hfd]
    rw [hfd, hunread] at hq
    refine ⟨p, u, x, hsends, hhanded, hfd', own, q, hunread, ?_, rfl, hid.trans hp.id.symm⟩
    rw [hq, hsame.net, ← hrest, hfd]

/-- A reply that a call returned in `w'` is the reply to the packet that was handed to the
socket in `u` and sent in `x`: the reply that came for it, and the last one. -/
def IsReplyTo (unread : σ → Int → List ServedPacket) (u x w' : World σ) (r : MongoPacket) : Prop :=
  ∃ q, unread x.net u.conn.fd = unread u.net u.conn.fd ++ [q] ∧ r = q.packet N.order ∧
    unread w'.net u.conn.fd = []

/-- A call returns the reply to its own packet, in every run, exactly if the oldest reply
that was not received when the packet was sent answers a packet with another id. -/
theorem reply_own_iff {resting : σ → Prop} {unread : σ → Int → List ServedPacket}
    (hserver : OrderedServer N resting unread) {fuel : Nat} {w v w' : World σ}
    (hw : resting w.net) (hrun : ClientRun N fuel w v) {c : ReplyCall} {r : MongoPacket}
    (hcall : (c.run N (mongoSyncReconnect N fuel)).exec v = (.ok (some r), w')) :
    ∃ p u x, c.Sends N (mongoSyncReconnect N fuel) v p x ∧
      (mongoPacketSend N p).exec u = (.ok true, x) ∧
      (IsReplyTo N unread u x w' r ↔ ∀ q ∈ (unread u.net u.conn.fd).head?,
        q.header.respTo ≠ (mongoWirePacketGetHeader N.order p).id) := by
  obtain ⟨p, u, x, hsends, hhanded, -, own, q, hx, hq, hr, hid⟩ :=
    reply_first N hserver hw hrun hcall
  refine ⟨p, u, x, hsends, hhanded, ?_⟩
  cases hpending : unread u.net u.conn.fd with
  | nil =>
      rw [hpending] at hx hq
      obtain ⟨rfl, hrest⟩ := List.cons.inj hq
      constructor
      · intro _ q' hq'
        cases hq'
      · intro _
        exact ⟨own, by rw [hx, hpending], hr, hrest.symm⟩
  | cons oldest pending =>
      rw [hpending] at hq
      obtain ⟨rfl, hrest⟩ := List.cons.inj hq
      constructor
      · rintro ⟨q', -, -, hnone⟩
        rw [hnone] at hrest
        simp at hrest
      · intro hdiffers
        exact absurd hid (hdiffers oldest rfl)

/-! ## A late reply -/

section Late

/-- A server that sends the same document to everyone. -/
structure Queue where
  /-- Whether the next packets are accepted. -/
  sends : List Bool
  /-- Whether the next replies come in time. -/
  recvs : List Bool
  unread : Int → List ServedPacket
  /-- The rest of the reply that is being received. -/
  reading : Option Bytes

theorem nonceReply_fits (respTo : BitVec 32) : (Reply.mk 7 respTo 0 0 0 [nonceDoc]).Fits := by
  have hbody : (Reply.mk 7 0 0 0 0 [nonceDoc]).Fits := by
    rw [Reply.Fits]
    decide +kernel
  exact hbody

/-- The reply with a challenge, as it is served. -/
def nonceServed (respTo : BitVec 32) : ServedPacket := (Reply.mk 7 respTo 0 0 0 [nonceDoc]).served
  (nonceReply_fits respTo)

/-- A packet was accepted. -/
def Queue.got (s : Queue) (fd : Int) (bytes : Bytes) : Queue :=
  let h := loadHeader .little (bytes.take 16)
  { s with
    sends := s.sends.tail
    unread := if 16 ≤ bytes.length ∧ h.Asks then
        Function.update s.unread fd (s.unread fd ++ [nonceServed h.id])
      else s.unread }

/-- The net that plays such a queue. -/
def queueNet : Net Queue where
  order := .little
  strerror _ := .ascii ['e', 'r', 'r', 'o', 'r']
  md5 _ := .ascii ['m', 'd', '5']
  tcp _ _ _ s := (.connected, s)
  unix _ _ s := (false, s)
  sendmsg fd bytes s :=
    if s.sends.headD true then (.ok bytes.length, s.got fd bytes)
    else (.error (.system 32), { s with sends := s.sends.tail })
  recv fd n s :=
    match s.reading with
    | some body => (.ok (body.take n), { s with reading := none })
    | none =>
        let next := { s with recvs := s.recvs.tail }
        match s.recvs.headD true, s.unread fd with
        | true, q :: rest => (.ok (q.header.wire.take n),
            { next with unread := Function.update s.unread fd rest, reading := some q.body })
        | _, _ => (.error (.system 11), next)
  close _ s := s

/-- No reply is being received. -/
def Queue.Resting (s : Queue) : Prop := s.reading = none

theorem queueNet_ordered : OrderedServer queueNet Queue.Resting Queue.unread where
  asked := by
    intro s s' fd data h hs hasks hsend
    have hheader : loadHeader .little ((h.wire ++ data).take 16) = h := by
      rw [List.take_left' h.wire_length, loadHeader_wire]
    have hlong : 16 ≤ (h.wire ++ data).length := by simp
    simp only [queueNet] at hsend
    split at hsend
    · obtain ⟨-, rfl⟩ := Prod.mk.inj hsend
      refine ⟨hs, nonceServed h.id, rfl, ?_⟩
      simp only [Queue.got, hheader]
      rw [if_pos ⟨hlong, hasks⟩]
    · cases hsend
  unasked := by
    intro s s' fd bytes r hs hsend hno
    simp only [queueNet] at hsend
    split at hsend
    · cases hsend
      refine ⟨hs, ?_⟩
      simp only [Queue.got]
      rw [if_neg]
      rintro ⟨hlong, hasks⟩
      have hwire : (loadHeader .little (bytes.take 16)).wire = bytes.take 16 :=
        wire_loadHeader (by simp [hlong])
      refine hno _ (bytes.drop 16) ?_ ?_ hasks
      · rw [hwire, List.take_append_drop]
      · simp
        omega
    · cases hsend
      exact ⟨hs, rfl⟩
  attempt := by
    intro s fd hs
    rw [Queue.Resting] at hs
    simp only [queueNet, hs]
    cases hready : s.recvs.headD true with
    | false =>
        refine .inl ⟨fun head h => ?_, rfl, ?_⟩
        · cases h
        · rfl
    | true =>
        cases hunread : s.unread fd with
        | nil =>
            refine .inl ⟨fun head h => ?_, rfl, ?_⟩
            · cases h
            · rfl
        | cons q rest =>
            have hhead : q.header.wire.take 16 = q.header.wire := List.take_of_length_le (by simp)
            have hbody : q.body.take q.body.length = q.body := List.take_length
            refine .inr ⟨q, rest, { s with
                recvs := s.recvs.tail
                unread := Function.update s.unread fd rest
                reading := some q.body }, { s with
                recvs := s.recvs.tail
                unread := Function.update s.unread fd rest
                reading := none }, rfl, ?_, ?_, rfl, rfl⟩
            · simp only [hhead]
            · simp only [hbody]
  tcp _ _ _ h := ⟨h, rfl⟩
  unix _ _ h := ⟨h, rfl⟩
  close _ h := ⟨h, fun _ _ => rfl⟩

/-- A connection from a recovery cache with a primary and credentials. -/
def sessionCache : RecoveryCache where
  rs := ⟨[], [], some (.ascii ['b', ':', '1'])⟩
  auth := ⟨some (.ascii ['d']), some (.ascii ['u']), some (.ascii ['p'])⟩

/-- The state before a connection is opened. -/
def sessionWorld (sends recvs : List Bool) : World Queue where
  net := ⟨sends, recvs, fun _ => [], none⟩
  conn := mongoSyncConnInit ⟨-1, 0⟩ true
  errno := .ok
  nextFd := 5
  log := []

/-- The connection that is opened. -/
def sessionConn : MongoSyncConnection :=
  { mongoSyncConnInit ⟨5, 0⟩ true with
    rs := sessionCache.rs
    auth := sessionCache.auth
    recoveryCache := some 0 }

/-- The state after it, where the socket is 5. -/
def opened (sends recvs : List Bool) : World Queue :=
  { sessionWorld sends recvs with
    nextFd := 6
    log := [.connect 5 (.ascii ['b']) 1] }

theorem session_opens (sends recvs : List Bool) :
    (mongoSyncConnectRecoveryCache queueNet (mongoSyncReconnect queueNet 3) 0 true
      sessionCache).exec (sessionWorld sends recvs)
      = (.ok (some sessionConn, sessionCache), opened sends recvs) := rfl

/-- The connection may reconnect. -/
def session (sends recvs : List Bool) : World Queue :=
  { opened sends recvs with conn := { sessionConn with autoReconnect := true } }

theorem session_run (sends recvs : List Bool) :
    ClientRun queueNet 3 (sessionWorld sends recvs) (session sends recvs) := by
  have hauto : ((Command.setAutoReconnect true).run queueNet 3).exec
      { opened sends recvs with conn := sessionConn } = (.ok true, session sends recvs) := rfl
  exact .command (.recover .start (session_opens sends recvs)) hauto

/-- A command that may reconnect. -/
def sessionCall : ReplyCall := .custom (some (.ascii ['d'])) (commandOne pingKey) true false

/-- The command after a session. -/
def called (sends recvs : List Bool) : Except Halt (Option MongoPacket) × World Queue :=
  (sessionCall.run queueNet (mongoSyncReconnect queueNet 3)).exec (session sends recvs)

/-- The packet is sent on the socket that was opened, and its reply is returned. -/
theorem reply_own_inTime : ∃ p u x, sessionCall.Sends queueNet (mongoSyncReconnect queueNet 3)
      (session [] []) p x ∧ (mongoPacketSend queueNet p).exec u = (.ok true, x) ∧
    (IsReplyTo queueNet Queue.unread u x (called [] []).2 (nonceServed 1 |>.packet .little) ↔
      ∀ q ∈ (u.net.unread u.conn.fd).head?,
        q.header.respTo ≠ (mongoWirePacketGetHeader .little p).id) :=
  reply_own_iff queueNet queueNet_ordered (w := sessionWorld [] []) rfl (session_run [] [])
    (exec_of_fst (by decide +kernel) rfl)

/-- Socket 5 is dead, and on socket 6 the reply to `authenticate` comes late.  The command,
which has the same id, returns it, and leaves its own reply behind. -/
theorem reply_other_late :
    let late := called [false, false] [true, true, false]
    OrderedServer queueNet Queue.Resting Queue.unread ∧
      ClientRun queueNet 3 (sessionWorld [false, false] [true, true, false])
        (session [false, false] [true, true, false]) ∧
      ∃ r, late.1 = .ok (some r) ∧ ∃ p u x,
        sessionCall.Sends queueNet (mongoSyncReconnect queueNet 3)
          (session [false, false] [true, true, false]) p x ∧
        (mongoPacketSend queueNet p).exec u = (.ok true, x) ∧
        ¬ IsReplyTo queueNet Queue.unread u x late.2 r := by
  have hreply : (called [false, false] [true, true, false]).1
      = .ok (some ((nonceServed 1).packet .little)) := by decide +kernel
  have hfd : (called [false, false] [true, true, false]).2.conn.fd = 6 := by decide +kernel
  have hleft : ((called [false, false] [true, true, false]).2.net.unread 6).length = 1 := by
    decide +kernel
  have hrun := session_run [false, false] [true, true, false]
  have hcalled : (sessionCall.run queueNet (mongoSyncReconnect queueNet 3)).exec
      (session [false, false] [true, true, false])
      = (.ok (some ((nonceServed 1).packet .little)), (called [false, false] [true, true, false]).2) :=
    exec_of_fst hreply rfl
  obtain ⟨p, u, x, hsends, hhanded, hsocket, -⟩ := reply_first queueNet queueNet_ordered
    (w := sessionWorld [false, false] [true, true, false]) rfl hrun hcalled
  refine ⟨queueNet_ordered, hrun, _, hreply, p, u, x, hsends, hhanded, ?_⟩
  rintro ⟨q, -, -, hnone⟩
  rw [← hsocket, hfd] at hnone
  rw [hnone] at hleft
  cases hleft

end Late

end LibMongo
