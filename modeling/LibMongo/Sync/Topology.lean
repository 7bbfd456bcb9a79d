import LibMongo.Sync.Cluster
import LibMongo.Sync.Reconnect

/-!
# What a connection sees of a cluster

`ping` and `ismaster` on a socket find what the tree of the answer says
(`exec_ping`, `exec_isMaster`).  What a connection knows of the replica set, and the
first address it can connect to among what it knows, are functions of the cluster
(`Cluster.known`, `Cluster.candidate`), and one call of `mongo_sync_reconnect` ends
with the connection it has, with `NULL`, or with the candidate
(`exec_reconnectWith`).
-/

namespace LibMongo

open Bytes Program

/-! ## Questions -/

namespace Cluster

variable (E : Cluster)

/-- The message of a command that is a single integer 1. -/
def question (slaveok : Bool) (name : CString) : WireMessage :=
  .query (systemDb.append cmdSuffix) (if slaveok then flagQuerySlaveOk else 0) 0 1
    (Doc.cons name (.int32 1) .nil).encode (some Doc.nil.encode)

/-- The answer to a command, if it says that the command has succeeded. -/
def asks (slaveok : Bool) (name : CString) (socket : Option Addr) : Option Answer := do
  let a ← socket
  let answer ← E.answer a (question slaveok name)
  if answer.doc.isOk then some answer else none

/-- The node answers `ping`. -/
def pings (slaveok : Bool) (socket : Option Addr) : Bool :=
  (E.asks slaveok pingKey socket).isSome

/-- What the node says to `ismaster`. -/
def describes (slaveok : Bool) (socket : Option Addr) : Option (Doc × BitVec 32) := do
  let answer ← E.asks slaveok ismasterKey socket
  let b ← answer.doc.isMaster
  return (answer.doc, b)

/-- The node answers `ismaster` with yes. -/
def masters (slaveok : Bool) (socket : Option Addr) : Bool :=
  ((E.describes slaveok socket).map fun x => decide (x.2 ≠ 0)).getD false

/-- What is known of the replica set after the answer to `ismaster`. -/
def refresh (slaveok : Bool) (socket : Option Addr) (rs : ReplicaSet) : ReplicaSet :=
  match E.describes slaveok socket with
  | none => rs
  | some (d, b) =>
      { rs with
        primary := (if b = 0 then d.primary else none).or rs.primary
        hosts := d.hosts.getD rs.hosts }

end Cluster

section Commands

variable (E : Cluster) {w : World Sockets}

/-- A packet is not sent over a dead socket, and a command that does not reconnect
fails. -/
theorem exec_custom_dead (ensureConn reconnect : Bool → Program (World Sockets) Bool)
    (hsocket : w.socket = none) (db : Option CString) (command : Option Bson) {checkConn : Bool}
    (hcheck : (checkConn && w.conn.autoReconnect) = false) :
    ∃ w', (mongoSyncCmdCustomWith E.net ensureConn reconnect db command checkConn false).exec w
        = (.ok none, w') ∧ w.Served w.conn.rs w' := by
  rw [mongoSyncCmdCustomWith, exec_get_bind]
  dsimp only
  cases hpacket : mongoWireCmdCustom E.net.order (w.conn.requestId + 1) db (slaveFlag w.conn)
      command with
  | error e => exact ⟨{ w with errno := e }, rfl, (World.Served.refl w).setErrno e⟩
  | ok p =>
      obtain ⟨log, e, hsend⟩ := exec_mongoPacketSend_dead E (p := p) hsocket
      have hgives : (!checkConn || !w.conn.autoReconnect || false) = true := by
        rw [Bool.or_false, ← Bool.not_and, hcheck]
        rfl
      have hsent : (mongoSyncPacketSendWith E.net ensureConn reconnect p false checkConn).exec w
          = (.ok false, { w with log := log, errno := e }) := by
        show (sendRound _ _ _ _ _ _ _).exec w = _
        rw [sendRound, exec_bind_ok hsend, if_neg (by decide), exec_get_bind, if_pos hgives]
        rfl
      exact ⟨{ w with log := log, errno := e }, exec_bind_ok hsent _, ⟨_, _, rfl⟩, rfl,
        Nat.le_refl _⟩

/-- A command that is a single integer 1, as a tree. -/
theorem commandOne_eq (name : CString) :
    commandOne name = some ⟨(Doc.cons name (.int32 1) .nil).encode, true⟩ := by
  have hopen : bsonAppendElement (some ⟨leBytes 4 0, false⟩) .int32 (some name)
      (leBytes 4 (1 : BitVec 32).toNat) = _ := bsonAppendElement_open _ _ _
  have hnew : bsonNewSized 32 = ⟨leBytes 4 0, false⟩ := rfl
  rw [commandOne, bsonAppendInt32, hnew, hopen]
  dsimp only
  rw [bsonFinish_open (leBytes_length 4 0), Doc.encode, frame, Doc.elems_cons, Doc.elems_nil,
    List.append_nil, element, Value.encode]
  rfl

/-- Its packet is the question. -/
theorem question_packet (o : ByteOrder) (id : BitVec 32) (slaveok : Bool) {name : CString}
    (hname : name.length < 256) :
    ∃ p, mongoWireCmdCustom o id (some systemDb) (if slaveok then flagQuerySlaveOk else 0)
        (commandOne name) = .ok p ∧
      decodeMessage (p.wireBytes o (p.data.getD [])) = some (id, Cluster.question slaveok name) := by
  have hlen : (Doc.cons name (.int32 1) .nil).encode.length = name.length + 11 := by
    rw [Doc.encode_length, Doc.elems_cons, Doc.elems_nil, List.append_nil, element_length,
      Value.encode, leBytes_length]
  have hsmall : (Doc.cons name (.int32 1) .nil).encode.length < 2147483648 := by omega
  -- the question as a call of the encoder
  have hcall := @WireCall.decode o id (.custom systemDb (if slaveok then flagQuerySlaveOk else 0)
    (Document.ofDoc _ hsmall)) (by
      show 16 + (4 + (6 + 5 + 1) + 4 + 4 + (Doc.cons name (.int32 1) .nil).encode.length + 5) < _
      omega)
  have hpacket := custom_data o id systemDb (if slaveok then flagQuerySlaveOk else 0)
    (Document.ofDoc _ hsmall)
  rw [WireCall.packet] at hpacket
  rw [commandOne_eq]
  exact ⟨_, hpacket, hcall⟩

/-- A command over a socket is a question to its node. -/
theorem exec_question (hidle : w.Idle) {name : CString} (hname : name.length < 256) :
    ∃ w', (mongoSyncCmdCustomBare E.net (some systemDb) (commandOne name)).exec w
        = (.ok ((E.asks w.conn.slaveok name w.socket).map fun answer =>
            (Cluster.replyTo (w.conn.requestId + 1) answer).packet E.order), w') ∧
      w.Served w.conn.rs w' := by
  cases hsocket : w.socket with
  | none => exact exec_custom_dead E unreached unreached hsocket _ _ rfl
  | some a =>
      obtain ⟨w', hexec, hserved⟩ := exec_custom E unreached unreached hsocket hidle
        (some systemDb) (commandOne name) false
      refine ⟨w', ?_, hserved⟩
      obtain ⟨p, hpacket, hdecode⟩ := question_packet E.order (w.conn.requestId + 1)
        w.conn.slaveok hname
      have hresult : E.result a w (some systemDb) (commandOne name)
          = (E.asks w.conn.slaveok name (some a)).map fun answer =>
              (Cluster.replyTo (w.conn.requestId + 1) answer).packet E.order := by
        rw [Cluster.result, slaveFlag, hpacket]
        dsimp only
        rw [Cluster.served, hdecode, Cluster.received, Cluster.asks]
        simp only [Option.bind_eq_bind, Option.bind_some, Option.pure_def]
        cases E.answer a (Cluster.question w.conn.slaveok name) with
        | none => rfl
        | some answer =>
            simp only [Option.bind_some, true_and]
            split
            · rfl
            · rfl
      rw [mongoSyncCmdCustomBare, hexec, hresult]

theorem exec_ping (hidle : w.Idle) :
    ∃ w', (mongoSyncCmdPing E.net).exec w = (.ok (E.pings w.conn.slaveok w.socket), w') ∧
      w.Served w.conn.rs w' := by
  have hname : pingKey.length < 256 := by decide
  obtain ⟨w', hexec, hserved⟩ := exec_question E hidle hname
  rw [mongoSyncCmdPing, exec_bind_ok hexec, Cluster.pings]
  cases E.asks w.conn.slaveok pingKey w.socket with
  | none => exact ⟨w', rfl, hserved⟩
  | some answer => exact ⟨_, rfl, ⟨hserved.conn, hserved.net, hserved.nextFd_le⟩⟩

theorem exec_isMaster (hidle : w.Idle) :
    ∃ w', (mongoSyncCmdIsMaster E.net).exec w = (.ok (E.masters w.conn.slaveok w.socket), w') ∧
      w.Served (E.refresh w.conn.slaveok w.socket w.conn.rs) w' := by
  have hname : ismasterKey.length < 256 := by decide
  obtain ⟨w', hexec, hserved⟩ := exec_question E hidle hname
  rw [mongoSyncCmdIsMaster, exec_bind_ok hexec, Cluster.masters, Cluster.refresh,
    Cluster.describes]
  cases E.asks w.conn.slaveok ismasterKey w.socket with
  | none => exact ⟨w', rfl, hserved⟩
  | some answer =>
      have hfits := Cluster.replyTo_fits (w.conn.requestId + 1) answer
      obtain ⟨b, hnth, b', hfinish, hb'⟩ := Reply.getNthDocument_first E.order hfits
        (rfl : (Cluster.replyTo (w.conn.requestId + 1) answer).docs = [answer.doc])
      have hread : (readOrErrno (mongoWireReplyPacketGetNthDocument
          (some ((Cluster.replyTo (w.conn.requestId + 1) answer).packet E.order)) 1)).exec w'
          = (.ok (some (some b)), w') := by
        rw [hnth]
        rfl
      have hboolean : (bsonFind (some b') (some ismasterKey) >>= bsonCursorGetBoolean)
          = .ok answer.doc.isMaster := find_getBoolean hb' ismasterKey
      have hprimary := replyPrimary_encodes hb'
      have hhosts := replyHosts_encodes hb'
      simp only [Option.map_some, Option.bind_eq_bind, Option.bind_some, Option.pure_def]
      rw [exec_bind_ok hread]
      dsimp only
      rw [hfinish, exec_ofExcept_bind hboolean]
      cases answer.doc.isMaster with
      | none => exact ⟨_, rfl, hserved.setErrno .EPROTO⟩
      | some x =>
          obtain ⟨⟨rid, err, hconn⟩, hnet, hnext⟩ := hserved
          dsimp only
          rw [exec_ofExcept_bind (hprimary x), exec_ofExcept_bind hhosts, storeReplicaSet, setConn,
            exec_modify_bind, setErrno, exec_modify_bind]
          by_cases hx : x = 0
          · rw [if_pos hx]
            have hno : decide (x ≠ 0) = false := decide_eq_false fun h => h hx
            refine ⟨_, Prod.ext (congrArg Except.ok hno.symm) rfl, ⟨rid, err, ?_⟩, hnet, hnext⟩
            simp only [exec_pure, hconn, hx, if_true, Option.bind_some]
          · rw [if_neg hx, exec_get_bind, emit, exec_modify_bind]
            have hyes : decide (x ≠ 0) = true := decide_eq_true hx
            refine ⟨_, Prod.ext (congrArg Except.ok hyes.symm) rfl, ⟨rid, err, ?_⟩, hnet, hnext⟩
            simp only [exec_pure, hconn, hx, if_false, Option.bind_some]

end Commands

/-! ## Candidates -/

/-- What a connection to an address knows when it is new. -/
def freshSet (a : Addr) : ReplicaSet := ⟨[formatAddr a.1 a.2], [], none⟩

/-- A new connection. -/
def freshConn (a : Addr) (slaveok : Bool) (fd : Int) : MongoSyncConnection :=
  { mongoSyncConnInit ⟨fd, 0⟩ slaveok with rs := freshSet a }

namespace Cluster

variable (E : Cluster)

/-- A connection to the address can be opened. -/
def connects (a : Addr) : Bool :=
  (decide (a.2 ≠ mongoConnLocal) || decide (a.1.length < 108)) && E.accepts a

/-- The address a string names, if a connection to it can be opened. -/
def reach (addr : CString) : Option Addr :=
  match mongoUtilParseAddr addr with
  | .error _ => none
  | .ok a => if E.connects a then some a else none

/-- The first address that can be connected to. -/
def candidate (rs : ReplicaSet) : Option Addr :=
  (rs.primary.toList ++ (rs.hosts ++ rs.seeds)).findSome? E.reach

/-- The connection stays on its socket. -/
def stays (forceMaster slaveok : Bool) (socket : Option Addr) : Bool :=
  E.pings slaveok socket && (!forceMaster || E.masters slaveok socket)

/-- What the connection knows when it looks for another socket. -/
def known (forceMaster slaveok : Bool) (socket : Option Addr) (rs : ReplicaSet) : ReplicaSet :=
  if E.pings slaveok socket && forceMaster then E.refresh slaveok socket rs else rs

/-- The address a reconnect goes on to, if it goes on. -/
def goesTo (forceMaster slaveok : Bool) (socket : Option Addr) (rs : ReplicaSet) : Option Addr :=
  if E.stays forceMaster slaveok socket then none
  else E.candidate (E.known forceMaster slaveok socket rs)

/-- The same from a new connection. -/
def next (forceMaster slaveok : Bool) (a : Addr) : Option Addr :=
  E.goesTo forceMaster slaveok (some a) (freshSet a)

theorem refresh_refresh (slaveok : Bool) (socket : Option Addr) (rs : ReplicaSet) :
    E.refresh slaveok socket (E.refresh slaveok socket rs) = E.refresh slaveok socket rs := by
  unfold refresh
  cases E.describes slaveok socket with
  | none => rfl
  | some x =>
      obtain ⟨d, b⟩ := x
      dsimp only
      cases (if b = 0 then d.primary else none) with
      | none => cases d.hosts <;> rfl
      | some primary => cases d.hosts <;> rfl

end Cluster

/-- A connection to `a` was opened after some questions and attempts. -/
structure World.Opened (w : World Sockets) (rs : ReplicaSet) (a : Addr) (fd : Nat)
    (w' : World Sockets) : Prop where
  conn : ∃ rid err, w'.conn = { w.conn with requestId := rid, lastError := err, rs := rs }
  net : w'.net = w.net.connect fd a
  fd_ge : w.nextFd ≤ fd
  nextFd : w'.nextFd = fd + 1

theorem World.Served.opened {w v w' : World Sockets} {rs rs' : ReplicaSet} {a : Addr} {fd : Nat}
    (h : w.Served rs v) (h' : v.Opened rs' a fd w') : w.Opened rs' a fd w' := by
  obtain ⟨rid, err, hconn⟩ := h.conn
  obtain ⟨rid', err', hconn'⟩ := h'.conn
  refine ⟨⟨rid', err', ?_⟩, ?_, h.nextFd_le.trans h'.fd_ge, h'.nextFd⟩
  · rw [hconn', hconn]
  · rw [h'.net, h.net]

section Candidates

variable (E : Cluster) {w : World Sockets}

theorem exec_newFd (w : World Sockets) :
    newFd.exec w = (.ok (w.nextFd : Int), { w with nextFd := w.nextFd + 1 }) := rfl

/-- A connection that is not accepted. -/
theorem exec_connect_none {a : Addr} (h : E.connects a = false) (slaveok : Bool) :
    ∃ w', (mongoSyncConnect E.net a.1 a.2 slaveok).exec w = (.ok none, w') ∧
      w.Served w.conn.rs w' := by
  obtain ⟨host, port⟩ := a
  have hconnect : ∃ n e, (mongoConnect E.net host port).exec w
      = (.ok none, { w with nextFd := w.nextFd + n, errno := e }) := by
    rw [mongoConnect]
    by_cases hport : port = mongoConnLocal
    · subst hport
      rw [if_pos rfl, mongoUnixConnect]
      by_cases hlen : 108 ≤ host.length
      · rw [if_pos hlen]
        exact ⟨0, .ENAMETOOLONG, rfl⟩
      · have hrefused : E.accepts (host, mongoConnLocal) = false := by
          rw [Cluster.connects, decide_eq_true (Nat.not_le.mp hlen), Bool.or_true,
            Bool.true_and] at h
          exact h
        have hunix : E.net.unix w.nextFd host w.net = (false, w.net) := by
          simp only [Cluster.net, hrefused, Bool.false_eq_true, if_false]
        rw [if_neg hlen, exec_bind_ok (exec_newFd w), exec_bind_ok (exec_system (w := { w with nextFd := w.nextFd + 1 }) hunix)]
        exact ⟨1, .EADDRNOTAVAIL, rfl⟩
    · have hrefused : E.accepts (host, port) = false := by
        rw [Cluster.connects, decide_eq_true hport, Bool.true_or, Bool.true_and] at h
        exact h
      have htcp : E.net.tcp w.nextFd host port w.net = (.refused, w.net) := by
        simp only [Cluster.net, hrefused, Bool.false_eq_true, if_false]
      rw [if_neg hport, mongoTcpConnect, exec_bind_ok (exec_newFd w),
        exec_bind_ok (exec_system (w := { w with nextFd := w.nextFd + 1 }) htcp)]
      exact ⟨1, .EADDRNOTAVAIL, rfl⟩
  obtain ⟨n, e, hconnect⟩ := hconnect
  rw [mongoSyncConnect, exec_bind_ok hconnect]
  exact ⟨_, rfl, ⟨_, _, rfl⟩, rfl, Nat.le_add_right _ n⟩

/-- A connection that is accepted. -/
theorem exec_connect_some {a : Addr} (h : E.connects a = true) (slaveok : Bool) :
    ∃ w', (mongoSyncConnect E.net a.1 a.2 slaveok).exec w
        = (.ok (some (freshConn a slaveok w.nextFd)), w') ∧
      w.Opened w.conn.rs a w.nextFd w' := by
  obtain ⟨host, port⟩ := a
  rw [Cluster.connects, Bool.and_eq_true, Bool.or_eq_true, decide_eq_true_iff,
    decide_eq_true_iff] at h
  obtain ⟨hpath, haccepts⟩ := h
  have hconnect : (mongoConnect E.net host port).exec w
      = (.ok (some ⟨w.nextFd, 0⟩), { w with
          nextFd := w.nextFd + 1
          net := w.net.connect w.nextFd (host, port)
          log := w.log ++ [.connect w.nextFd host port] }) := by
    rw [mongoConnect]
    by_cases hport : port = mongoConnLocal
    · have hlen : ¬ 108 ≤ host.length := by
        rcases hpath with hne | hlt
        · exact absurd hport hne
        · exact Nat.not_le.mpr hlt
      subst hport
      have hunix : E.net.unix w.nextFd host w.net
          = (true, w.net.connect w.nextFd (host, mongoConnLocal)) := if_pos haccepts
      rw [if_pos rfl, mongoUnixConnect, if_neg hlen, exec_bind_ok (exec_newFd w),
        exec_bind_ok (exec_system (w := { w with nextFd := w.nextFd + 1 }) hunix)]
      rfl
    · have htcp : E.net.tcp w.nextFd host port w.net
          = (.connected, w.net.connect w.nextFd (host, port)) := if_pos haccepts
      rw [if_neg hport, mongoTcpConnect, exec_bind_ok (exec_newFd w),
        exec_bind_ok (exec_system (w := { w with nextFd := w.nextFd + 1 }) htcp)]
      rfl
  rw [mongoSyncConnect, exec_bind_ok hconnect]
  exact ⟨_, rfl, ⟨_, _, rfl⟩, rfl, Nat.le_refl _, rfl⟩

theorem exec_connectAddr (addr : CString) :
    match E.reach addr with
    | none => ∃ w', (connectAddr E.net addr).exec w = (.ok none, w') ∧ w.Served w.conn.rs w'
    | some a => ∃ w', (connectAddr E.net addr).exec w
          = (.ok (some (freshConn a w.conn.slaveok w.nextFd)), w') ∧
        w.Opened w.conn.rs a w.nextFd w' := by
  rw [Cluster.reach, connectAddr]
  cases mongoUtilParseAddr addr with
  | error e => exact ⟨_, rfl, (World.Served.refl w).setErrno e⟩
  | ok a =>
      dsimp only
      cases h : E.connects a with
      | false => exact exec_connect_none E h _
      | true => exact exec_connect_some E h _

variable (reconnect : Bool → Program (World Sockets) Bool) (forceMaster : Bool)

/-- What happens with a candidate. -/
def adoptThen (a : Addr) (slaveok : Bool) (fd : Nat) : Program (World Sockets) Bool := do
  adopt E.net reconnect forceMaster (freshConn a slaveok fd)
  return true

/-- The program adopts the candidate `o`.  Without one it returns `r`, and has only
asked questions and tried to connect. -/
def Leads (m : Program (World Sockets) Bool) (w : World Sockets) (rs : ReplicaSet) (r : Bool) :
    Option Addr → Prop
  | none => ∃ w', m.exec w = (.ok r, w') ∧ w.Served rs w'
  | some a => ∃ w' fd, m.exec w
        = (adoptThen E reconnect forceMaster a w.conn.slaveok fd).exec w' ∧ w.Opened rs a fd w'

section Leads

variable {E reconnect forceMaster} {m m' : Program (World Sockets) Bool} {v : World Sockets}
  {rs rs' : ReplicaSet} {r : Bool} {o o' : Option Addr}

/-- Questions and attempts in front. -/
theorem Leads.of_exec (h : Leads E reconnect forceMaster m v rs r o) (hexec : m'.exec w = m.exec v)
    (hserved : w.Served rs' v) : Leads E reconnect forceMaster m' w rs r o := by
  cases o with
  | none =>
      obtain ⟨w', hm, hserved'⟩ := h
      exact ⟨w', hexec.trans hm, hserved.trans hserved'⟩
  | some a =>
      obtain ⟨w', fd, hm, hopened⟩ := h
      refine ⟨w', fd, hexec.trans ?_, hserved.opened hopened⟩
      rw [hm, hserved.slaveok_eq]

/-- A second program tries where the first has no candidate. -/
theorem Leads.orElse (h : Leads E reconnect forceMaster m w rs false o)
    (h' : ∀ v, w.Served rs v → Leads E reconnect forceMaster m' v rs r o') :
    Leads E reconnect forceMaster (do if ← m then return true else m') w rs r
      (o.or o') := by
  cases o with
  | none =>
      obtain ⟨v, hm, hserved⟩ := h
      exact (h' v hserved).of_exec (exec_bind_ok hm _) hserved
  | some a =>
      obtain ⟨w', fd, hm, hopened⟩ := h
      refine ⟨w', fd, ?_, hopened⟩
      rw [exec_bind, hm, adoptThen, exec_bind]
      cases (adopt E.net reconnect forceMaster (freshConn a w.conn.slaveok fd)).exec w' with
      | mk x u =>
          cases x with
          | ok x => rfl
          | error e => rfl

end Leads

theorem reconnectVia_leads (addrs : List CString) (w : World Sockets) :
    Leads E reconnect forceMaster (reconnectVia E.net reconnect forceMaster addrs) w w.conn.rs false
      (addrs.findSome? E.reach) := by
  induction addrs generalizing w with
  | nil => exact ⟨w, rfl, .refl w⟩
  | cons addr addrs ih =>
      have hconnect := exec_connectAddr E (w := w) addr
      rw [List.findSome?_cons]
      cases hreach : E.reach addr with
      | some a =>
          rw [hreach] at hconnect
          obtain ⟨w', hexec, hopened⟩ := hconnect
          refine ⟨w', w.nextFd, ?_, hopened⟩
          rw [reconnectVia, exec_bind_ok hexec]
          rfl
      | none =>
          rw [hreach] at hconnect
          obtain ⟨v, hexec, hserved⟩ := hconnect
          have hrest := ih v
          rw [hserved.rs_eq] at hrest
          refine hrest.of_exec ?_ hserved
          rw [reconnectVia, exec_bind_ok hexec]

theorem reconnectCandidates_leads (w : World Sockets) :
    Leads E reconnect forceMaster (reconnectCandidates E.net reconnect forceMaster) w w.conn.rs
      false (E.candidate w.conn.rs) := by
  have hvia : ∀ addrs v, w.Served w.conn.rs v →
      Leads E reconnect forceMaster (reconnectVia E.net reconnect forceMaster addrs) v w.conn.rs
        false (addrs.findSome? E.reach) := by
    intro addrs v hserved
    have h := reconnectVia_leads E reconnect forceMaster addrs v
    rwa [hserved.rs_eq] at h
  have hend : ∀ v, w.Served w.conn.rs v → Leads E reconnect forceMaster
      (do setErrno .EHOSTUNREACH; return false) v w.conn.rs false none := by
    intro v hserved
    refine ⟨_, rfl, ?_⟩
    have hrefl := World.Served.refl v
    rw [hserved.rs_eq] at hrefl
    exact hrefl.setErrno .EHOSTUNREACH
  have htrans : ∀ {v u : World Sockets}, w.Served w.conn.rs v → v.Served w.conn.rs u →
      w.Served w.conn.rs u := fun h h' => h.trans h'
  rw [Cluster.candidate, List.findSome?_append, List.findSome?_append]
  -- the primary, then the hosts, then the seeds
  have hcandidates := (hvia w.conn.rs.primary.toList w (.refl w)).orElse fun v hv =>
    (hvia w.conn.rs.hosts v hv).orElse fun u hu =>
      (hvia w.conn.rs.seeds u (htrans hv hu)).orElse fun t ht => hend t (htrans (htrans hv hu) ht)
  rw [Option.or_none] at hcandidates
  exact hcandidates.of_exec rfl (.refl w)

/-- One call of `mongo_sync_reconnect`. -/
theorem reconnectWith_leads (hidle : w.Idle) :
    Leads E reconnect forceMaster (mongoSyncReconnectWith E.net reconnect forceMaster) w
      (E.known forceMaster w.conn.slaveok w.socket w.conn.rs)
      (E.stays forceMaster w.conn.slaveok w.socket)
      (E.goesTo forceMaster w.conn.slaveok w.socket w.conn.rs) := by
  obtain ⟨v, hping, hserved⟩ := exec_ping E hidle
  rw [Cluster.goesTo, Cluster.known, Cluster.stays]
  have hcandidates : ∀ {rs : ReplicaSet} {v : World Sockets}, w.Served rs v →
      Leads E reconnect forceMaster (reconnectCandidates E.net reconnect forceMaster) v rs false
        (E.candidate rs) := by
    intro rs v hserved
    have h := reconnectCandidates_leads E reconnect forceMaster v
    rwa [hserved.rs_eq] at h
  cases hpings : E.pings w.conn.slaveok w.socket with
  | false =>
      refine (hcandidates hserved).of_exec ?_ hserved
      rw [mongoSyncReconnectWith, exec_bind_ok hping, hpings]
      rfl
  | true =>
      cases forceMaster with
      | false =>
          refine ⟨v, ?_, hserved⟩
          rw [mongoSyncReconnectWith, exec_bind_ok hping, hpings]
          rfl
      | true =>
          obtain ⟨u, hmaster, hserved'⟩ := exec_isMaster E (hserved.idle hidle)
          rw [hserved.slaveok_eq, hserved.socket_eq] at hmaster hserved'
          rw [hserved.rs_eq] at hserved'
          cases hmasters : E.masters w.conn.slaveok w.socket with
          | true =>
              refine ⟨u, ?_, hserved.trans hserved'⟩
              rw [mongoSyncReconnectWith, exec_bind_ok hping, hpings]
              show (do
                let master ← mongoSyncCmdIsMaster E.net
                if master then return true
                else
                  let _ ← mongoSyncCmdIsMaster E.net
                  reconnectCandidates E.net reconnect true).exec v = _
              rw [exec_bind_ok hmaster, hmasters]
              rfl
          | false =>
              -- the host list is refreshed once more, with the same answer
              obtain ⟨t, hagain, hserved''⟩ := exec_isMaster E
                ((hserved.trans hserved').idle hidle)
              rw [hserved'.rs_eq, (hserved.trans hserved').slaveok_eq,
                (hserved.trans hserved').socket_eq, E.refresh_refresh] at hserved''
              have hserved₃ := (hserved.trans hserved').trans hserved''
              refine (hcandidates hserved₃).of_exec ?_ hserved₃
              rw [mongoSyncReconnectWith, exec_bind_ok hping, hpings]
              show (do
                let master ← mongoSyncCmdIsMaster E.net
                if master then return true
                else
                  let _ ← mongoSyncCmdIsMaster E.net
                  reconnectCandidates E.net reconnect true).exec v = _
              rw [exec_bind_ok hmaster, hmasters]
              show (do
                let _ ← mongoSyncCmdIsMaster E.net
                reconnectCandidates E.net reconnect true).exec u = _
              rw [exec_bind_ok hagain]

end Candidates

end LibMongo
