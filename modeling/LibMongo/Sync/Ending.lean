import LibMongo.Base.Chain
import LibMongo.Sync.Topology

/-!
# When reconnecting ends

A reconnect goes from one candidate to the next.  Where it goes from a new connection
depends on the address alone (`Cluster.next`), so the calls it makes of itself follow a
chain of addresses, and it returns when the chain has an end
(`reconnect_returns`).

There is one way out of the chain.  If the connection has credentials, it authenticates
again with whatever it has got, and a command over a dead socket reconnects once more
when the connection says so.  It has got a dead socket only if the nested call had no
candidate at all (`World.Retries`).
-/

namespace LibMongo

open Bytes Program

/-! ## What a run leaves -/

/-- The connection has these credentials. -/
def World.Knows (w : World Sockets) (db user pw : CString) : Prop :=
  w.conn.auth = ⟨some db, some user, some pw⟩

/-- A run of `mongo_sync_reconnect` leaves the sockets of other connections alone, and
the one it has is no worse than before. -/
structure World.Ran (w w' : World Sockets) : Prop where
  others : ∀ fd : Int, fd ≠ w.conn.fd → fd < w.nextFd →
    w'.net.peer fd = w.net.peer fd ∧ w'.net.pending fd = w.net.pending fd
  nextFd_le : w.nextFd ≤ w'.nextFd
  idle : w'.Idle
  alive : w.socket ≠ none → w'.socket ≠ none
  fd : w'.conn.fd = w.conn.fd ∨ (w.nextFd : Int) ≤ w'.conn.fd
  slaveok : w'.conn.slaveok = w.conn.slaveok
  auth : (∃ db user pw, w'.Knows db user pw) ↔ ∃ db user pw, w.Knows db user pw
  autoReconnect : w'.conn.autoReconnect = w.conn.autoReconnect

/-- Every call that returns leaves this. -/
def Sound (reconnect : Bool → Program (World Sockets) Bool) : Prop :=
  ∀ forceMaster w r w', w.Idle → (reconnect forceMaster).exec w = (.ok r, w') → w.Ran w'

theorem World.Served.auth_eq {w w' : World Sockets} {rs : ReplicaSet} (h : w.Served rs w') :
    w'.conn.auth = w.conn.auth := by
  obtain ⟨rid, err, hconn⟩ := h.conn
  rw [hconn]

theorem World.Served.autoReconnect_eq {w w' : World Sockets} {rs : ReplicaSet}
    (h : w.Served rs w') : w'.conn.autoReconnect = w.conn.autoReconnect := by
  obtain ⟨rid, err, hconn⟩ := h.conn
  rw [hconn]

theorem World.knows_congr {w w' : World Sockets} (h : w'.conn.auth = w.conn.auth) :
    (∃ db user pw, w'.Knows db user pw) ↔ ∃ db user pw, w.Knows db user pw := by
  unfold World.Knows
  rw [h]

theorem World.Served.ran {w w' : World Sockets} {rs : ReplicaSet} (h : w.Served rs w')
    (hidle : w.Idle) : w.Ran w' where
  others fd _ _ := by rw [h.net]; exact ⟨rfl, rfl⟩
  nextFd_le := h.nextFd_le
  idle := h.idle hidle
  alive := by rw [h.socket_eq]; exact id
  fd := .inl h.fd_eq
  slaveok := h.slaveok_eq
  auth := World.knows_congr h.auth_eq
  autoReconnect := h.autoReconnect_eq

theorem World.Ran.trans {w w' w'' : World Sockets} (h : w.Ran w') (h' : w'.Ran w'') :
    w.Ran w'' where
  others fd hfd hlt := by
    have hle := h.nextFd_le
    have hne : fd ≠ w'.conn.fd := by
      rcases h.fd with heq | hge
      · rw [heq]
        exact hfd
      · omega
    obtain ⟨hpeer, hpending⟩ := h.others fd hfd hlt
    obtain ⟨hpeer', hpending'⟩ := h'.others fd hne (by omega)
    exact ⟨hpeer'.trans hpeer, hpending'.trans hpending⟩
  nextFd_le := h.nextFd_le.trans h'.nextFd_le
  idle := h'.idle
  alive halive := h'.alive (h.alive halive)
  fd := by
    have hle := h.nextFd_le
    rcases h'.fd with heq | hge
    · rw [heq]
      exact h.fd
    · exact .inr (by omega)
  slaveok := h'.slaveok.trans h.slaveok
  auth := h'.auth.trans h.auth
  autoReconnect := h'.autoReconnect.trans h.autoReconnect

/-! ## Authenticating again -/

section Commands

variable (E : Cluster) (reconnect : Bool → Program (World Sockets) Bool)

/-- A packet of the cluster. -/
def Replied (x : Option MongoPacket) : Prop :=
  ∀ p, x = some p → ∃ id answer, p = (Cluster.replyTo id answer).packet E.order

theorem Cluster.received_replied (rid : BitVec 32) (served : Option (BitVec 32 × Answer)) :
    Replied E (E.received rid served) := by
  intro p hp
  obtain ⟨⟨id, answer⟩, -, h⟩ := Option.bind_eq_some_iff.mp hp
  dsimp only at h
  split at h
  · cases h
    exact ⟨id, answer, rfl⟩
  · cases h

/-- How a command ends.  It was answered only if its socket is alive. -/
structure Asked (x : Option MongoPacket) (w w' : World Sockets) : Prop where
  served : w.Served w.conn.rs w'
  replied : Replied E x
  alive : x ≠ none → w'.socket ≠ none

theorem Asked.unanswered {w w' : World Sockets} (h : w.Served w.conn.rs w') : Asked E none w w' where
  served := h
  replied p hp := by cases hp
  alive hne := absurd rfl hne

/-- A command that has no reason to reconnect, or no right to. -/
theorem exec_cmdCustom {w : World Sockets} (hidle : w.Idle)
    (hcalm : w.socket ≠ none ∨ w.conn.autoReconnect = false) (db : CString)
    (command : Option Bson) :
    ∃ x w', (mongoSyncCmdCustom E.net reconnect (some db) command).exec w = (.ok x, w') ∧
      Asked E x w w' := by
  cases hsocket : w.socket with
  | some a =>
      obtain ⟨w', hexec, hserved⟩ := exec_custom E (mongoCmdEnsureConn E.net reconnect) reconnect
        hsocket hidle (some db) command true
      refine ⟨_, w', hexec, hserved, ?_, ?_⟩
      · rw [Cluster.result]
        split
        · intro p hp
          cases hp
        · exact E.received_replied _ _
      · rw [hserved.socket_eq, hsocket]
        intro _ h
        cases h
  | none =>
      have hauto : w.conn.autoReconnect = false := hcalm.resolve_left fun h => h hsocket
      have hcheck : (true && w.conn.autoReconnect) = false := by rw [hauto]; rfl
      obtain ⟨w', hexec, hserved⟩ := exec_custom_dead E (mongoCmdEnsureConn E.net reconnect)
        reconnect hsocket (some db) command hcheck
      exact ⟨_, w', hexec, .unanswered E hserved⟩

/-- The second attempt at a packet, and the reply. -/
theorem exec_resent {v : World Sockets} (hidle : v.Idle) {p : MongoPacket} {data : Bytes}
    (hdata : p.data = some data) (hsize : p.dataSize = data.length) (rid : BitVec 32) :
    ∃ x v', (sendRound E.net reconnect p false true true (return false) >>= fun sent =>
        if sent then do
          let p ← mongoSyncPacketRecv E.net rid replyFlagQueryFail
          mongoSyncPacketCheckError p true
        else return none).exec v = (.ok x, v') ∧ Asked E x v v' := by
  cases hsocket : v.socket with
  | none =>
      obtain ⟨log, e, hsend⟩ := exec_mongoPacketSend_dead E (p := p) hsocket
      have hround : (sendRound E.net reconnect p false true true (return false)).exec v
          = (.ok false, { v with log := log, errno := e }) := by
        rw [sendRound, exec_bind_ok hsend, if_neg (by decide), exec_get_bind,
          if_pos (Bool.or_true _)]
        rfl
      refine ⟨none, { v with log := log, errno := e }, ?_,
        .unanswered E ⟨⟨_, _, rfl⟩, rfl, Nat.le_refl _⟩⟩
      rw [exec_bind_ok hround]
      rfl
  | some a =>
      obtain ⟨t, hsend, hnet, hconn, hnext⟩ := exec_mongoPacketSend E hsocket hdata hsize
      obtain ⟨err, e, hreceive⟩ := exec_receive E hidle (World.socket_fd hsocket).1 rid
        (E.served a (p.wireBytes E.order data)) hnet (by rw [hconn])
      have hround : (sendRound E.net reconnect p false true true (return false)).exec v
          = (.ok true, t) := by
        rw [sendRound, exec_bind_ok hsend, if_pos rfl]
        rfl
      refine ⟨E.received rid (E.served a (p.wireBytes E.order data)),
        { t with net := v.net, conn := { t.conn with lastError := err }, errno := e }, ?_,
        ⟨⟨p.header.id, err, by rw [hconn]⟩, rfl, hnext.ge⟩, E.received_replied _ _, ?_⟩
      · rw [exec_bind_ok hround, if_pos rfl]
        exact hreceive
      · intro _ h
        rw [World.socket, hconn] at h
        rw [World.socket] at hsocket
        exact absurd (hsocket.symm.trans h) (by simp)

/-- A command that finds its socket dead goes on with the verdict of a reconnect. -/
theorem exec_cmdCustom_dead {w : World Sockets} (hdead : w.socket = none)
    (hauto : w.conn.autoReconnect = true) (db : CString) {command : Option Bson} {p : MongoPacket}
    (hpacket : mongoWireCmdCustom E.order (w.conn.requestId + 1) (some db) (slaveFlag w.conn)
      command = .ok p) :
    ∃ u, w.Served w.conn.rs u ∧
      (∀ e v, (reconnect false).exec u = (.error e, v) →
        (mongoSyncCmdCustom E.net reconnect (some db) command).exec w = (.error e, v)) ∧
      (∀ r v, (reconnect false).exec u = (.ok r, v) → v.Idle →
        ∃ x v', (mongoSyncCmdCustom E.net reconnect (some db) command).exec w = (.ok x, v') ∧
          Asked E x v v') := by
  obtain ⟨log, e, hsend⟩ := exec_mongoPacketSend_dead E (p := p) hdead
  have hsent : (mongoSyncPacketSendWith E.net (mongoCmdEnsureConn E.net reconnect) reconnect p
      false true).exec w = (do
        let connected ← reconnect false
        if connected then
          sendRound E.net reconnect p false true true (return false)
        else
          setErrno e
          return false : Program (World Sockets) Bool).exec { w with log := log, errno := e } := by
    show (sendRound _ _ _ _ _ _ _).exec w = _
    rw [sendRound, exec_bind_ok hsend, if_neg (by decide), exec_get_bind]
    rw [hauto]
    rfl
  have hrun : (mongoSyncCmdCustom E.net reconnect (some db) command).exec w
      = (mongoSyncPacketSendWith E.net (mongoCmdEnsureConn E.net reconnect) reconnect p
          false true >>= fun sent => if sent then do
            let p ← mongoSyncPacketRecv E.net (w.conn.requestId + 1) replyFlagQueryFail
            mongoSyncPacketCheckError p true
          else return none).exec w := by
    rw [mongoSyncCmdCustom, mongoSyncCmdCustomWith, exec_get_bind]
    have horder : E.net.order = E.order := rfl
    dsimp only
    rw [horder, hpacket]
    rfl
  rw [exec_bind_congr hsent] at hrun
  refine ⟨{ w with log := log, errno := e }, ⟨⟨_, _, rfl⟩, rfl, Nat.le_refl _⟩, ?_, ?_⟩
  · intro e' v hreconnect
    rw [hrun, exec_bind_error (exec_bind_error hreconnect _)]
  · intro r v hreconnect hidle
    cases r with
    | false =>
        refine ⟨none, { v with errno := e }, ?_,
          .unanswered E ((World.Served.refl v).setErrno e)⟩
        rw [hrun, exec_bind_congr (exec_bind_ok hreconnect _)]
        rfl
    | true =>
        obtain ⟨data, hdata, hsize⟩ := (mongoWireCmdCustom_sealed hpacket).block
        rw [hrun, exec_bind_congr (exec_bind_ok hreconnect _), if_pos rfl]
        exact exec_resent E reconnect hidle hdata hsize (w.conn.requestId + 1)

/-- The packet that asks for a nonce can be built. -/
theorem getnonce_packet (o : ByteOrder) (id : BitVec 32) (db : CString) (flags : BitVec 32) :
    ∃ p, mongoWireCmdCustom o id (some db) flags (commandOne getnonceKey) = .ok p := by
  have hsmall : (Doc.cons getnonceKey (.int32 1) .nil).encode.length < 2147483648 := by
    rw [Doc.encode_length, Doc.elems_cons, Doc.elems_nil, List.append_nil, element_length,
      Value.encode, leBytes_length]
    decide
  rw [commandOne_eq]
  exact ⟨_, custom_data o id db flags (Document.ofDoc _ hsmall)⟩

theorem exec_readString (lent : Option Nat) (x : CString) (w : World Sockets) :
    ∃ x' log, (readString E.net lent x).exec w = (.ok x', { w with log := log }) := by
  rw [readString, exec_get_bind]
  split
  · exact ⟨x, w.log, rfl⟩
  · exact ⟨_, _, rfl⟩

theorem exec_storeCredentials (lent : Option Nat) (db user pw : CString) (w : World Sockets) :
    ∃ log db' user' pw', (storeCredentials E.net lent db user pw).exec w
      = (.ok (), { w with
          log := log
          conn := { w.conn with
            auth := ⟨some db', some user', some pw'⟩
            stored := w.conn.stored + 1 } }) := by
  obtain ⟨db', log₁, hdb⟩ := exec_readString E lent db w
  obtain ⟨user', log₂, huser⟩ := exec_readString E lent user { w with log := log₁ }
  obtain ⟨pw', log₃, hpw⟩ := exec_readString E lent pw { w with log := log₂ }
  refine ⟨log₃, db', user', pw', ?_⟩
  rw [storeCredentials, exec_bind_ok hdb, exec_bind_ok huser, exec_bind_ok hpw]
  rfl

/-- Authentication goes on where its first command has ended. -/
theorem exec_authenticate {w v : World Sockets} (lent : Option Nat) {db user pw : CString}
    {x : Option MongoPacket}
    (hfirst : (mongoSyncCmdCustom E.net reconnect (some db) (commandOne getnonceKey)).exec w
      = (.ok x, v)) (hidle : v.Idle) (hreplied : Replied E x)
    (halive : x ≠ none → v.socket ≠ none) (hknows : ∃ db user pw, v.Knows db user pw) :
    ∃ r v', (mongoSyncCmdAuthenticateWith E.net reconnect lent db user pw).exec w = (.ok r, v') ∧
      v.Ran v' := by
  rw [mongoSyncCmdAuthenticateWith, exec_bind_ok hfirst]
  cases x with
  | none => exact ⟨false, v, rfl, (World.Served.refl v).ran hidle⟩
  | some p =>
      obtain ⟨id, answer, rfl⟩ := hreplied p rfl
      have hfits := Cluster.replyTo_fits id answer
      obtain ⟨b, hnth, b', hfinish, hb'⟩ := Reply.getNthDocument_first E.order hfits
        (rfl : (Cluster.replyTo id answer).docs = [answer.doc])
      have hread : (readOrErrno (mongoWireReplyPacketGetNthDocument
          (some ((Cluster.replyTo id answer).packet E.order)) 1)).exec v
            = (.ok (some (some b)), v) := by
        rw [hnth]
        rfl
      have hnonce : replyNonce (some b') = .ok ((answer.doc.lookup nonceKey).bind Value.asText) := by
        have hget := find_getString hb' nonceKey
        rw [replyNonce]
        cases hl : answer.doc.lookup nonceKey with
        | none =>
            rw [bsonFind_none hb' hl]
            rfl
        | some v =>
            obtain ⟨d₁, d₂, -, -, hfind⟩ := bsonFind_some hb' hl
            rw [hfind, Program.ok_bind, hl] at hget
            rw [hfind, Program.ok_bind]
            exact hget
      dsimp only
      rw [exec_bind_ok hread]
      dsimp only
      rw [hfinish, exec_ofExcept_bind hnonce]
      cases (answer.doc.lookup nonceKey).bind Value.asText with
      | none => exact ⟨false, _, rfl, ((World.Served.refl v).setErrno .EPROTO).ran hidle⟩
      | some nonce =>
          obtain ⟨user', log₁, huser⟩ := exec_readString E lent user v
          obtain ⟨pw', log₂, hpw⟩ := exec_readString E lent pw { v with log := log₁ }
          obtain ⟨db', log₃, hdb⟩ := exec_readString E lent db { v with log := log₂ }
          obtain ⟨y, v', hsecond, hasked⟩ := exec_cmdCustom E reconnect
            (w := { v with log := log₃ }) ⟨hidle.pending, hidle.fd_lt⟩
            (.inl (halive (by simp))) db' (authenticateCommand user' nonce
              (E.net.md5 (nonce.bytes ++ user'.bytes ++ (passDigest E.net user' pw').bytes)))
          have hserved : v.Served v.conn.rs v' :=
            ⟨hasked.served.conn, hasked.served.net, hasked.served.nextFd_le⟩
          dsimp only
          rw [exec_bind_ok huser, exec_bind_ok hpw, exec_bind_ok hdb, exec_bind_ok hsecond]
          cases y with
          | none => exact ⟨false, v', rfl, hserved.ran hidle⟩
          | some _ =>
              obtain ⟨log, db'', user'', pw'', hstore⟩ := exec_storeCredentials E lent db user pw v'
              have hran := hserved.ran hidle
              refine ⟨true, _, exec_bind_ok hstore _, ⟨hran.others, hran.nextFd_le,
                ⟨hran.idle.pending, hran.idle.fd_lt⟩, hran.alive, hran.fd, hran.slaveok, ?_,
                hran.autoReconnect⟩⟩
              exact iff_of_true ⟨db'', user'', pw'', rfl⟩ hknows

/-- A connection that may reconnect once more while it authenticates. -/
def World.Retries (w : World Sockets) : Prop :=
  w.socket = none ∧ w.conn.autoReconnect = true ∧ ∃ db user pw, w.Knows db user pw

theorem exec_reauthenticate {w : World Sockets} (hidle : w.Idle) (h : ¬ w.Retries) :
    ∃ w', (reauthenticate E.net reconnect).exec w = (.ok (), w') ∧ w.Ran w' := by
  rw [reauthenticate, exec_get_bind]
  split
  · next db user pw hauth =>
      have hcalm : w.socket ≠ none ∨ w.conn.autoReconnect = false := by
        by_cases hsocket : w.socket = none
        · refine .inr (Bool.eq_false_iff.mpr fun hauto => h ⟨hsocket, hauto, db, user, pw, hauth⟩)
        · exact .inl hsocket
      obtain ⟨x, v, hfirst, hasked⟩ := exec_cmdCustom E reconnect hidle hcalm db
        (commandOne getnonceKey)
      have hran := hasked.served.ran hidle
      obtain ⟨r, w', hexec, hran'⟩ := exec_authenticate E reconnect (some w.conn.stored)
        hfirst hran.idle hasked.replied hasked.alive (hran.auth.mpr ⟨db, user, pw, hauth⟩)
      refine ⟨w', ?_, hran.trans hran'⟩
      rw [exec_bind_ok hexec]
      rfl
  · exact ⟨w, rfl, (World.Served.refl w).ran hidle⟩

theorem exec_reauthenticate_retries {w : World Sockets} (h : w.Retries) :
    ∃ u, w.Served w.conn.rs u ∧
      (∀ e v, (reconnect false).exec u = (.error e, v) →
        (reauthenticate E.net reconnect).exec w = (.error e, v)) ∧
      (∀ r v, (reconnect false).exec u = (.ok r, v) → v.Idle →
        (∃ db user pw, v.Knows db user pw) →
        ∃ v', (reauthenticate E.net reconnect).exec w = (.ok (), v') ∧ v.Ran v') := by
  obtain ⟨hdead, hauto, db, user, pw, hauth⟩ := h
  obtain ⟨p, hpacket⟩ := getnonce_packet E.order (w.conn.requestId + 1) db (slaveFlag w.conn)
  obtain ⟨u, hserved, herror, hok⟩ := exec_cmdCustom_dead E reconnect hdead hauto db hpacket
  have hrun : (reauthenticate E.net reconnect).exec w
      = (do
        let _ ← mongoSyncCmdAuthenticateWith E.net reconnect (some w.conn.stored) db user pw
        return : Program (World Sockets) Unit).exec w := by
    rw [reauthenticate, exec_get_bind, hauth]
  refine ⟨u, hserved, ?_, ?_⟩
  · intro e v hreconnect
    have hfirst := herror e v hreconnect
    rw [hrun, mongoSyncCmdAuthenticateWith, exec_bind_error (exec_bind_error hfirst _)]
  · intro r v hreconnect hidle hknows
    obtain ⟨x, t, hfirst, hasked⟩ := hok r v hreconnect hidle
    have hran := hasked.served.ran hidle
    obtain ⟨r', v', hexec, hran'⟩ := exec_authenticate E reconnect (some w.conn.stored)
      hfirst hran.idle hasked.replied hasked.alive (hran.auth.mpr hknows)
    refine ⟨v', ?_, hran.trans hran'⟩
    rw [hrun, exec_bind_ok hexec]
    rfl

end Commands

/-! ## Adopting a candidate -/

section Adopting

variable {E : Cluster} {reconnect : Bool → Program (World Sockets) Bool} {forceMaster : Bool}
  {w u v : World Sockets} {rs : ReplicaSet} {a : Addr} {fd : Nat} {slaveok : Bool}

/-- The state in which the nested call starts. -/
def World.nested (u : World Sockets) (a : Addr) (slaveok : Bool) (fd : Nat) : World Sockets :=
  { u with conn := freshConn a slaveok fd }

theorem World.Opened.nested_idle (h : w.Opened rs a fd u) : (u.nested a slaveok fd).Idle where
  pending := by
    show u.net.pending fd = []
    rw [h.net]
    exact Function.update_self _ _ _
  fd_lt := by
    show (fd : Int) < u.nextFd
    rw [h.nextFd]
    omega

theorem World.Opened.nested_socket (h : w.Opened rs a fd u) :
    (u.nested a slaveok fd).socket = some a := by
  show (if (fd : Int) < 0 then none else u.net.peer fd) = some a
  rw [if_neg (by omega), h.net]
  exact Function.update_self _ _ _

/-- The other sockets are not touched by the nested call. -/
theorem World.Opened.others (h : w.Opened rs a fd u) (hran : (u.nested a slaveok fd).Ran v)
    {fd' : Int} (hlt : fd' < w.nextFd) :
    v.net.peer fd' = w.net.peer fd' ∧ v.net.pending fd' = w.net.pending fd' := by
  have hge := h.fd_ge
  have hnext := h.nextFd
  have hne : fd' ≠ fd := by omega
  obtain ⟨hpeer, hpending⟩ := hran.others fd' hne (by show fd' < u.nextFd; omega)
  have hnet : (u.nested a slaveok fd).net = w.net.connect fd a := h.net
  rw [hnet] at hpeer hpending
  constructor
  · rw [hpeer]
    exact Function.update_of_ne hne _ _
  · rw [hpending]
    exact Function.update_of_ne hne _ _

theorem exec_adopt {r : Bool} {nc : MongoSyncConnection}
    (hrun : (reconnect forceMaster).exec { u with conn := nc } = (.ok r, v)) :
    ∃ t, (adopt E.net reconnect forceMaster nc).exec u = (reauthenticate E.net reconnect).exec t ∧
      t.conn = (if r then u.conn.takeOver v.conn else u.conn) ∧ t.nextFd = v.nextFd ∧
      (t.net = v.net ∨ r = true ∧ u.conn.fd ≠ v.conn.fd ∧ t.net = v.net.close u.conn.fd) := by
  refine ⟨_, exec_adopt_ok E.net reconnect hrun, ?_⟩
  rw [afterReplace]
  cases r with
  | false => exact ⟨rfl, rfl, .inl rfl⟩
  | true =>
      rw [if_pos rfl]
      split
      next hclose => exact ⟨rfl, rfl, .inr ⟨rfl, hclose.2, rfl⟩⟩
      next => exact ⟨rfl, rfl, .inl rfl⟩

section Replaced

variable {t : World Sockets} (h : w.Opened rs a fd u)
  (hran : (u.nested a w.conn.slaveok fd).Ran v) (hnext : t.nextFd = v.nextFd)
include h hran hnext

theorem World.Opened.nextFd_le : w.nextFd ≤ t.nextFd := by
  have hle : u.nextFd ≤ v.nextFd := hran.nextFd_le
  have hge := h.fd_ge
  have hopened := h.nextFd
  omega

/-- The nested call returned a connection, whose socket takes the place of the old one. -/
theorem World.Opened.taken (hconn : t.conn = u.conn.takeOver v.conn)
    (hnet : t.net = v.net ∨ u.conn.fd ≠ v.conn.fd ∧ t.net = v.net.close u.conn.fd) :
    w.Ran t ∧ t.socket ≠ none := by
  obtain ⟨rid, err, hu⟩ := h.conn
  have hfd : t.conn.fd = v.conn.fd := by rw [hconn]; rfl
  have hsame : t.net.peer v.conn.fd = v.net.peer v.conn.fd ∧
      t.net.pending v.conn.fd = v.net.pending v.conn.fd := by
    rcases hnet with heq | ⟨hne, heq⟩
    · rw [heq]
      exact ⟨rfl, rfl⟩
    · rw [heq]
      exact ⟨Function.update_of_ne hne.symm _ _, Function.update_of_ne hne.symm _ _⟩
  have halive : t.socket ≠ none := by
    rw [World.socket, hfd, hsame.1]
    exact hran.alive (by rw [h.nested_socket]; simp)
  refine ⟨?_, halive⟩
  exact {
    others := fun fd' hne hlt => by
      obtain ⟨hpeer, hpending⟩ := h.others hran hlt
      have hold : u.conn.fd = w.conn.fd := by rw [hu]
      rcases hnet with heq | ⟨-, heq⟩
      · rw [heq]
        exact ⟨hpeer, hpending⟩
      · rw [heq, hold]
        exact ⟨(Function.update_of_ne hne _ _).trans hpeer,
          (Function.update_of_ne hne _ _).trans hpending⟩
    nextFd_le := h.nextFd_le hran hnext
    idle := {
      pending := by rw [hfd, hsame.2, hran.idle.pending]
      fd_lt := by
        rw [hfd, hnext]
        exact hran.idle.fd_lt }
    alive := fun _ => halive
    fd := by
      have hge := h.fd_ge
      have hopened := h.nextFd
      refine .inr ?_
      rw [hfd]
      rcases hran.fd with heq | hle
      · rw [heq]
        show (w.nextFd : Int) ≤ fd
        omega
      · have hle' : (u.nextFd : Int) ≤ v.conn.fd := hle
        omega
    slaveok := by
      rw [hconn]
      exact hran.slaveok
    auth := by
      refine World.knows_congr ?_
      rw [hconn, hu]
      rfl
    autoReconnect := by
      rw [hconn, hu]
      rfl }

/-- The nested call returned nothing, and the connection is as it was. -/
theorem World.Opened.forgotten (hidle : w.Idle) (hconn : t.conn = u.conn) (hnet : t.net = v.net) :
    w.Ran t ∧ t.socket = w.socket ∧ t.conn.rs = rs := by
  obtain ⟨rid, err, hu⟩ := h.conn
  have hfd : t.conn.fd = w.conn.fd := by rw [hconn, hu]
  obtain ⟨hpeer, hpending⟩ := h.others hran hidle.fd_lt
  have hsame : t.socket = w.socket := by
    rw [World.socket, World.socket, hfd, hnet, hpeer]
  have hle := h.nextFd_le hran hnext
  refine ⟨?_, hsame, by rw [hconn, hu]⟩
  exact {
    others := fun fd' _ hlt => by
      rw [hnet]
      exact h.others hran hlt
    nextFd_le := hle
    idle := {
      pending := by rw [hfd, hnet, hpending, hidle.pending]
      fd_lt := by
        have hlt := hidle.fd_lt
        rw [hfd]
        omega }
    alive := by
      rw [hsame]
      exact id
    fd := .inl hfd
    slaveok := by rw [hconn, hu]
    auth := by
      refine World.knows_congr ?_
      rw [hconn, hu]
    autoReconnect := by rw [hconn, hu] }

end Replaced

/-- The state once a nested call that returned has been replaced, or forgotten. -/
theorem World.Opened.replaced (h : w.Opened rs a fd u) (hidle : w.Idle) {r : Bool}
    {t : World Sockets} (hran : (u.nested a w.conn.slaveok fd).Ran v)
    (hconn : t.conn = (if r then u.conn.takeOver v.conn else u.conn)) (hnext : t.nextFd = v.nextFd)
    (hnet : t.net = v.net ∨ r = true ∧ u.conn.fd ≠ v.conn.fd ∧ t.net = v.net.close u.conn.fd) :
    w.Ran t ∧ (r = true → t.socket ≠ none) ∧
      (r = false → t.socket = w.socket ∧ t.conn.rs = rs) := by
  cases r with
  | true =>
      obtain ⟨hran', halive⟩ := h.taken hran hnext hconn (hnet.imp_right fun hclosed => hclosed.2)
      exact ⟨hran', fun _ => halive, fun hr => by cases hr⟩
  | false =>
      have hkept : t.net = v.net := hnet.resolve_right fun hclosed => by cases hclosed.1
      obtain ⟨hran', hsame⟩ := h.forgotten hran hnext hidle hconn hkept
      exact ⟨hran', (fun hr => by cases hr), fun _ => hsame⟩

/-- The rest of a call whose nested call has returned: it authenticates again, and for
that it may reconnect. -/
theorem World.Opened.adopt_ok (h : w.Opened rs a fd u) (hidle : w.Idle) {r : Bool}
    (hran : (u.nested a w.conn.slaveok fd).Ran v)
    (hrun : (reconnect forceMaster).exec (u.nested a w.conn.slaveok fd) = (.ok r, v)) :
    ∃ t, (adoptThen E reconnect forceMaster a w.conn.slaveok fd).exec u
        = (reauthenticate E.net reconnect >>= fun _ => return true).exec t ∧ w.Ran t ∧
      (t.Retries ↔ r = false ∧ w.Retries) ∧ (r = false → t.socket = w.socket ∧ t.conn.rs = rs) := by
  obtain ⟨t, hexec, hconn, hnext, hnet⟩ := exec_adopt hrun
  obtain ⟨hran', htrue, hfalse⟩ := h.replaced hidle hran hconn hnext hnet
  refine ⟨t, exec_bind_congr hexec _, hran', ?_, hfalse⟩
  cases r with
  | true =>
      constructor
      · rintro ⟨hdead, -⟩
        exact absurd hdead (htrue rfl)
      · rintro ⟨hr, -⟩
        cases hr
  | false =>
      have hsocket := (hfalse rfl).1
      rw [World.Retries, World.Retries, hsocket, hran'.auth, hran'.autoReconnect]
      exact ⟨fun h => ⟨rfl, h⟩, fun h => h.2⟩

/-- A nested call that halts. -/
theorem adopt_error {e : Halt}
    (hrun : (reconnect forceMaster).exec (u.nested a slaveok fd) = (.error e, v)) :
    ¬ Returns (adoptThen E reconnect forceMaster a slaveok fd) u := by
  have hnested : (onConnection (freshConn a slaveok fd) (reconnect forceMaster)).exec u
      = (.error e, { v with conn := u.conn }) := by
    have hrun' : (reconnect forceMaster).exec { u with conn := freshConn a slaveok fd }
        = (.error e, v) := hrun
    rw [exec_onConnection, hrun']
    rfl
  rintro ⟨r, t, hexec⟩
  rw [adoptThen, adopt, exec_bind_error (exec_bind_error hnested _)] at hexec
  cases hexec

/-- A call that returns leaves what its calls of itself leave. -/
theorem World.Opened.adopt_ran (hsound : Sound reconnect) (h : w.Opened rs a fd u) (hidle : w.Idle)
    {r : Bool} {w' : World Sockets}
    (hexec : (adoptThen E reconnect forceMaster a w.conn.slaveok fd).exec u = (.ok r, w')) :
    r = true ∧ w.Ran w' := by
  cases hrun : (reconnect forceMaster).exec (u.nested a w.conn.slaveok fd) with
  | mk x v =>
      cases x with
      | error e => exact absurd ⟨r, w', hexec⟩ (adopt_error hrun)
      | ok r' =>
          have hran := hsound _ _ _ _ h.nested_idle hrun
          obtain ⟨t, hadopt, hran', -, -⟩ := h.adopt_ok hidle hran hrun
          rw [hadopt] at hexec
          obtain ⟨_, t', hauth, hend⟩ := exec_bind_eq_ok.mp hexec
          cases hend
          refine ⟨rfl, ?_⟩
          by_cases hretries : t.Retries
          · obtain ⟨s, hserved, herror, hok⟩ := exec_reauthenticate_retries E reconnect hretries
            have hran'' := hserved.ran hran'.idle
            cases hagain : (reconnect false).exec s with
            | mk y t'' =>
                cases y with
                | error e =>
                    rw [herror e t'' hagain] at hauth
                    cases hauth
                | ok r'' =>
                    have hran₃ := hsound _ _ _ _ hran''.idle hagain
                    obtain ⟨v', hv', hrest⟩ := hok r'' t'' hagain hran₃.idle
                      (hran₃.auth.mpr (hran''.auth.mpr hretries.2.2))
                    rw [hv'] at hauth
                    cases hauth
                    exact ((hran'.trans hran'').trans hran₃).trans hrest
          · obtain ⟨v', hv', hrest⟩ := exec_reauthenticate E reconnect hran'.idle hretries
            rw [hv'] at hauth
            cases hauth
            exact hran'.trans hrest

end Adopting

/-! ## One call -/

section Calls

variable (E : Cluster)

/-- What a call of `mongo_sync_reconnect` returns, and what it leaves. -/
theorem reconnectWith_ok {reconnect : Bool → Program (World Sockets) Bool}
    (hsound : Sound reconnect) {forceMaster : Bool} {w w' : World Sockets} {r : Bool}
    (hidle : w.Idle)
    (hexec : (mongoSyncReconnectWith E.net reconnect forceMaster).exec w = (.ok r, w')) :
    w.Ran w' ∧ (r = true ↔ E.stays forceMaster w.conn.slaveok w.socket = true ∨
      E.goesTo forceMaster w.conn.slaveok w.socket w.conn.rs ≠ none) := by
  have hleads := reconnectWith_leads E reconnect forceMaster hidle
  cases hgoes : E.goesTo forceMaster w.conn.slaveok w.socket w.conn.rs with
  | none =>
      rw [hgoes] at hleads
      obtain ⟨v, hv, hserved⟩ := hleads
      rw [hv] at hexec
      cases hexec
      exact ⟨hserved.ran hidle, by simp⟩
  | some a =>
      rw [hgoes] at hleads
      obtain ⟨u, fd, hu, hopened⟩ := hleads
      rw [hu] at hexec
      obtain ⟨rfl, hran⟩ := hopened.adopt_ran hsound hidle hexec
      exact ⟨hran, by simp⟩

theorem mongoSyncReconnect_sound : ∀ fuel, Sound (mongoSyncReconnect E.net fuel)
  | 0, _, _, _, _, _, hexec => by cases hexec
  | fuel + 1, _, _, _, _, hidle, hexec =>
      (reconnectWith_ok E (mongoSyncReconnect_sound fuel) hidle hexec).1

/-- The verdict is a matter of the cluster and of what the connection knows. -/
theorem mongoSyncReconnect_result {fuel : Nat} {forceMaster r : Bool} {w w' : World Sockets}
    (hidle : w.Idle) (hexec : (mongoSyncReconnect E.net fuel forceMaster).exec w = (.ok r, w')) :
    r = true ↔ E.stays forceMaster w.conn.slaveok w.socket = true ∨
      E.goesTo forceMaster w.conn.slaveok w.socket w.conn.rs ≠ none := by
  cases fuel with
  | zero => cases hexec
  | succ fuel => exact (reconnectWith_ok E (mongoSyncReconnect_sound E fuel) hidle hexec).2

variable {E} {reconnect : Bool → Program (World Sockets) Bool} {forceMaster : Bool}
  {w : World Sockets}

theorem returns_of_goesTo_none (hidle : w.Idle)
    (h : E.goesTo forceMaster w.conn.slaveok w.socket w.conn.rs = none) :
    Returns (mongoSyncReconnectWith E.net reconnect forceMaster) w := by
  have hleads := reconnectWith_leads E reconnect forceMaster hidle
  rw [h] at hleads
  obtain ⟨v, hv, -⟩ := hleads
  exact ⟨_, v, hv⟩

/-- A new connection to an address. -/
structure World.Fresh (x : World Sockets) (a : Addr) (slaveok : Bool) : Prop where
  idle : x.Idle
  socket : x.socket = some a
  rs : x.conn.rs = freshSet a
  slaveok : x.conn.slaveok = slaveok

/-- The connection as it was, except for what it knows of the replica set. -/
structure World.Resumes (w t : World Sockets) (rs : ReplicaSet) : Prop where
  idle : t.Idle
  rs : t.conn.rs = rs
  slaveok : t.conn.slaveok = w.conn.slaveok
  retries : t.Retries

/-- A call that goes on to a candidate returns when its nested call does, and it may have
to reconnect once more if that one failed. -/
theorem returns_of_goesTo_some (hsound : Sound reconnect) (hidle : w.Idle) {a : Addr}
    (h : E.goesTo forceMaster w.conn.slaveok w.socket w.conn.rs = some a) :
    ∃ x : World Sockets, x.Fresh a w.conn.slaveok ∧ ¬ x.Retries ∧
      (Returns (mongoSyncReconnectWith E.net reconnect forceMaster) w →
        Returns (reconnect forceMaster) x) ∧
      ∀ r v, (reconnect forceMaster).exec x = (.ok r, v) →
        (¬ (r = false ∧ w.Retries) →
          Returns (mongoSyncReconnectWith E.net reconnect forceMaster) w) ∧
        (r = false ∧ w.Retries → ∃ t,
          w.Resumes t (E.known forceMaster w.conn.slaveok w.socket w.conn.rs) ∧
          (Returns (mongoSyncReconnectWith E.net reconnect forceMaster) w ↔
            Returns (reconnect false) t)) := by
  have hleads := reconnectWith_leads E reconnect forceMaster hidle
  rw [h] at hleads
  obtain ⟨u, fd, hexec, hopened⟩ := hleads
  have hreturns : Returns (mongoSyncReconnectWith E.net reconnect forceMaster) w
      ↔ Returns (adoptThen E reconnect forceMaster a w.conn.slaveok fd) u := by
    rw [Returns, Returns, hexec]
  refine ⟨u.nested a w.conn.slaveok fd, ⟨hopened.nested_idle, hopened.nested_socket, rfl, rfl⟩,
    ?_, ?_, ?_⟩
  · rintro ⟨hdead, -⟩
    rw [hopened.nested_socket] at hdead
    cases hdead
  · intro hr
    rw [hreturns] at hr
    cases hrun : (reconnect forceMaster).exec (u.nested a w.conn.slaveok fd) with
    | mk y v =>
        cases y with
        | error e => exact absurd hr (adopt_error hrun)
        | ok r => exact ⟨r, v, hrun⟩
  · intro r v hrun
    have hran := hsound _ _ _ _ hopened.nested_idle hrun
    obtain ⟨t, hadopt, hran', hretries, hfalse⟩ := hopened.adopt_ok hidle hran hrun
    have hreturns' : Returns (mongoSyncReconnectWith E.net reconnect forceMaster) w
        ↔ Returns (reauthenticate E.net reconnect >>= fun _ => return true) t := by
      rw [hreturns, Returns, Returns, hadopt]
    constructor
    · intro hcalm
      obtain ⟨t', hauth, -⟩ := exec_reauthenticate E reconnect hran'.idle
        (fun hr => hcalm (hretries.mp hr))
      rw [hreturns']
      exact ⟨true, t', exec_bind_ok hauth _⟩
    · intro hagain
      have htries := hretries.mpr hagain
      obtain ⟨s, hserved, herror, hok⟩ := exec_reauthenticate_retries E reconnect htries
      have hidle' := hserved.idle hran'.idle
      refine ⟨s, ⟨hidle', ?_, hserved.slaveok_eq.trans hran'.slaveok, ?_⟩, ?_⟩
      · rw [hserved.rs_eq, (hfalse hagain.1).2]
      · rw [World.Retries, hserved.socket_eq, hserved.autoReconnect_eq]
        exact ⟨htries.1, htries.2.1, (World.knows_congr hserved.auth_eq).mpr htries.2.2⟩
      · rw [hreturns']
        cases hrun' : (reconnect false).exec s with
        | mk y s' =>
            cases y with
            | error e =>
                constructor
                · rintro ⟨b, t', hexec'⟩
                  rw [exec_bind_error (herror e s' hrun')] at hexec'
                  cases hexec'
                · rintro ⟨b, t', hexec'⟩
                  rw [hrun'] at hexec'
                  cases hexec'
            | ok r' =>
                have hran₃ := hsound _ _ _ _ hidle' hrun'
                obtain ⟨t', hauth, -⟩ := hok r' s' hrun' hran₃.idle
                  (hran₃.auth.mpr ((World.knows_congr hserved.auth_eq).mpr htries.2.2))
                exact ⟨fun _ => ⟨r', s', hrun'⟩, fun _ => ⟨true, t', exec_bind_ok hauth _⟩⟩

end Calls

/-! ## The chain -/

section Chains

variable (E : Cluster)

/-- Where a call goes on to. -/
def World.goesTo (forceMaster : Bool) (w : World Sockets) : Option Addr :=
  E.goesTo forceMaster w.conn.slaveok w.socket w.conn.rs

/-- A call that returns has followed the chain to its end. -/
theorem ends_of_returns {slaveok : Bool} (fuel : Nat) (forceMaster : Bool) (w : World Sockets)
    (hidle : w.Idle) (hslaveok : w.conn.slaveok = slaveok)
    (h : Returns (mongoSyncReconnect E.net fuel forceMaster) w) :
    Chain.Ends (E.next forceMaster slaveok) (w.goesTo E forceMaster) := by
  induction fuel generalizing w with
  | zero =>
      obtain ⟨r, v, hexec⟩ := h
      cases hexec
  | succ fuel ih =>
      cases hgoes : w.goesTo E forceMaster with
      | none => exact .none
      | some a =>
          obtain ⟨x, hfresh, -, hnested, -⟩ := returns_of_goesTo_some
            (mongoSyncReconnect_sound E fuel) hidle hgoes
          have hrest := ih x hfresh.idle (hfresh.slaveok.trans hslaveok) (hnested h)
          rw [World.goesTo, hfresh.slaveok, hfresh.socket, hfresh.rs, hslaveok] at hrest
          exact .some hrest

/-- At the end of the chain a call returns, unless it has to reconnect once more. -/
theorem returns_of_ends {slaveok forceMaster : Bool} {o : Option Addr}
    (h : Chain.Ends (E.next forceMaster slaveok) o) :
    ∃ n, ∀ fuel w, n ≤ fuel → w.Idle → w.conn.slaveok = slaveok → ¬ w.Retries →
      w.goesTo E forceMaster = o → Returns (mongoSyncReconnect E.net fuel forceMaster) w := by
  induction h with
  | none =>
      refine ⟨1, fun fuel w hfuel hidle _ _ hgoes => ?_⟩
      obtain ⟨fuel, rfl⟩ := Nat.exists_eq_add_of_le' hfuel
      exact returns_of_goesTo_none hidle hgoes
  | some _ ih =>
      obtain ⟨n, ih⟩ := ih
      refine ⟨n + 1, fun fuel w hfuel hidle hslaveok hcalm hgoes => ?_⟩
      obtain ⟨fuel, rfl⟩ : ∃ k, fuel = k + 1 := ⟨fuel - 1, by omega⟩
      obtain ⟨x, hfresh, hcalm', -, hresult⟩ := returns_of_goesTo_some
        (mongoSyncReconnect_sound E fuel) hidle hgoes
      obtain ⟨r, v, hrun⟩ := ih fuel x (by omega) hfresh.idle (hfresh.slaveok.trans hslaveok) hcalm'
        (by rw [World.goesTo, hfresh.slaveok, hfresh.socket, hfresh.rs, hslaveok]; rfl)
      exact (hresult r v hrun).1 fun h => hcalm h.2

/-- The connection would have to reconnect over and over: its only candidate does not
answer, and that candidate's own address does not lead back to it. -/
def World.Stuck (w : World Sockets) : Prop :=
  w.Retries ∧ ∃ a, E.candidate w.conn.rs = some a ∧ E.pings w.conn.slaveok (some a) = false ∧
    E.candidate (freshSet a) = none

section Silent

variable {E} {forceMaster slaveok : Bool} {socket : Option Addr} {rs : ReplicaSet}
  (h : E.pings slaveok socket = false)
include h

theorem stays_silent : E.stays forceMaster slaveok socket = false := by
  rw [Cluster.stays, h]
  rfl

theorem known_silent : E.known forceMaster slaveok socket rs = rs := by
  rw [Cluster.known, h]
  rfl

/-- Without an answer to `ping` a connection goes to what it knew before. -/
theorem goesTo_silent : E.goesTo forceMaster slaveok socket rs = E.candidate rs := by
  rw [Cluster.goesTo, stays_silent h, known_silent h]
  rfl

end Silent

theorem pings_dead (slaveok : Bool) : E.pings slaveok none = false := rfl

/-- A connection that reconnects once more still does. -/
theorem World.Resumes.stuck {w t : World Sockets} {forceMaster : Bool}
    (h : w.Resumes t (E.known forceMaster w.conn.slaveok w.socket w.conn.rs)) (hstuck : w.Stuck E) :
    t.Stuck E := by
  obtain ⟨⟨hdead, -⟩, a, hcandidate, hpings, hfresh⟩ := hstuck
  rw [hdead, known_silent (pings_dead E _)] at h
  refine ⟨h.retries, a, ?_, ?_, hfresh⟩
  · rw [h.rs, hcandidate]
  · rw [h.slaveok, hpings]

theorem not_returns_of_stuck (fuel : Nat) (forceMaster : Bool) (w : World Sockets)
    (hidle : w.Idle) (hstuck : w.Stuck E) :
    ¬ Returns (mongoSyncReconnect E.net fuel forceMaster) w := by
  induction fuel generalizing w forceMaster with
  | zero =>
      rintro ⟨r, v, hexec⟩
      cases hexec
  | succ fuel ih =>
      intro h
      obtain ⟨hretries, a, hcandidate, hpings, hfresh⟩ := id hstuck
      have hgoes : w.goesTo E forceMaster = some a := by
        rw [World.goesTo, hretries.1, goesTo_silent (pings_dead E _), hcandidate]
      obtain ⟨x, hx, -, hnested, hresult⟩ := returns_of_goesTo_some
        (mongoSyncReconnect_sound E fuel) hidle hgoes
      obtain ⟨r, v, hrun⟩ := hnested h
      -- the nested call has no candidate
      have hfalse : r = false := by
        have hr := mongoSyncReconnect_result E hx.idle hrun
        rw [hx.slaveok, hx.socket, hx.rs, goesTo_silent hpings,
          stays_silent hpings, hfresh] at hr
        simpa using hr
      obtain ⟨t, hresumes, hiff⟩ := (hresult r v hrun).2 ⟨hfalse, hretries⟩
      exact ih false t hresumes.idle (hresumes.stuck E hstuck) (hiff.mp h)

/-- A connection that has to reconnect once more does so with success. -/
theorem returns_of_retries {forceMaster : Bool} {w : World Sockets} {n : Nat} {a : Addr}
    (hidle : w.Idle) (hretries : w.Retries) (hstuck : ¬ w.Stuck E)
    (hgoes : w.goesTo E forceMaster = some a)
    (hends : ∀ fuel x, n ≤ fuel → x.Idle → x.conn.slaveok = w.conn.slaveok → ¬ x.Retries →
      x.goesTo E forceMaster = E.next forceMaster w.conn.slaveok a →
      Returns (mongoSyncReconnect E.net fuel forceMaster) x) :
    ∃ fuel, Returns (mongoSyncReconnect E.net fuel forceMaster) w := by
  have hcandidate : E.candidate w.conn.rs = some a := by
    rw [← hgoes, World.goesTo, hretries.1, goesTo_silent (pings_dead E _)]
  refine ⟨n + 2 + 1, ?_⟩
  obtain ⟨x, hx, hcalm, -, hresult⟩ := returns_of_goesTo_some
    (mongoSyncReconnect_sound E (n + 2)) hidle hgoes
  obtain ⟨r, v, hrun⟩ := hends (n + 2) x (by omega) hx.idle hx.slaveok hcalm
    (by rw [World.goesTo, hx.slaveok, hx.socket, hx.rs]; rfl)
  by_cases hfalse : r = false ∧ w.Retries
  · -- the nested call failed, although its node answers
    have hr := mongoSyncReconnect_result E hx.idle hrun
    rw [hx.slaveok, hx.socket, hx.rs, hfalse.1] at hr
    have hpings : E.pings w.conn.slaveok (some a) = true := by
      by_contra hno
      have hsilent := Bool.eq_false_iff.mpr hno
      refine hstuck ⟨hretries, a, hcandidate, hsilent, ?_⟩
      rw [goesTo_silent hsilent] at hr
      by_contra hsome
      exact absurd (hr.mpr (.inr hsome)) (by decide)
    obtain ⟨t, ht, hiff⟩ := (hresult r v hrun).2 hfalse
    refine hiff.mpr ?_
    -- once more, and now an answer to `ping` is enough
    have hrs : t.conn.rs = w.conn.rs := by
      rw [ht.rs, hretries.1, known_silent (pings_dead E _)]
    have hagain : t.goesTo E false = some a := by
      rw [World.goesTo, ht.retries.1, goesTo_silent (pings_dead E _), hrs, hcandidate]
    obtain ⟨y, hy, -, -, hresult'⟩ := returns_of_goesTo_some
      (mongoSyncReconnect_sound E (n + 1)) ht.idle hagain
    have hstays : E.stays false y.conn.slaveok y.socket = true := by
      rw [hy.slaveok, hy.socket, ht.slaveok, Cluster.stays, hpings]
      rfl
    have hnone : y.goesTo E false = none := by
      rw [World.goesTo, Cluster.goesTo, hstays]
      rfl
    obtain ⟨r', v', hrun'⟩ : Returns (mongoSyncReconnect E.net (n + 1) false) y :=
      returns_of_goesTo_none hy.idle hnone
    have htrue : r' = true :=
      (mongoSyncReconnect_result E hy.idle hrun').mpr (.inl hstays)
    exact (hresult' r' v' hrun').1 fun h => by
      rw [htrue] at h
      cases h.1
  · exact (hresult r v hrun).1 hfalse

/-- A reconnect returns if the chain of its candidates has an end, and it would not have
to reconnect over and over. -/
theorem reconnect_returns (forceMaster : Bool) (w : World Sockets) (hidle : w.Idle) :
    (∃ fuel, Returns (mongoSyncReconnect E.net fuel forceMaster) w) ↔
      Chain.Ends (E.next forceMaster w.conn.slaveok) (w.goesTo E forceMaster) ∧ ¬ w.Stuck E := by
  constructor
  · rintro ⟨fuel, h⟩
    exact ⟨ends_of_returns E fuel forceMaster w hidle rfl h,
      fun hstuck => not_returns_of_stuck E fuel forceMaster w hidle hstuck h⟩
  · rintro ⟨hends, hstuck⟩
    by_cases hretries : w.Retries
    · cases hgoes : w.goesTo E forceMaster with
      | none => exact ⟨1, returns_of_goesTo_none hidle hgoes⟩
      | some a =>
          rw [hgoes] at hends
          cases hends with
          | some hends =>
              obtain ⟨n, hnested⟩ := returns_of_ends E hends
              exact returns_of_retries E hidle hretries hstuck hgoes hnested
    · obtain ⟨n, h⟩ := returns_of_ends E hends
      exact ⟨n, h n w (Nat.le_refl n) hidle rfl hretries rfl⟩

end Chains

/-! ## A node that names its primary -/

section Named

/-- A node that names the primary. -/
def followerAddr : Addr := (.ascii ['b'], 1)

/-- The primary. -/
def primaryAddr : Addr := (.ascii ['c'], 1)

/-- The answer of the node that is no master. -/
def followerDoc : Doc :=
  .cons ismasterKey (.boolean 0) (.cons primaryKey (.string (formatAddr primaryAddr.1 primaryAddr.2).bytes)
    (.cons okKey (.double doubleOne) .nil))

/-- What the primary answers. -/
def primaryDoc : Doc := .cons ismasterKey (.boolean 1) (.cons okKey (.double doubleOne) .nil)

theorem followerDoc_small : followerDoc.encode.length < 2147483612 := by decide +kernel

theorem primaryDoc_small : primaryDoc.encode.length < 2147483612 := by decide +kernel

/-- One node names another as its primary. -/
def namingCluster : Cluster where
  order := .little
  strerror _ := .ascii ['e', 'r', 'r', 'o', 'r']
  md5 _ := .ascii ['m', 'd', '5']
  accepts a := decide (a = followerAddr ∨ a = primaryAddr)
  answer a _ :=
    if a = primaryAddr then some ⟨primaryDoc, primaryDoc_small⟩
    else some ⟨followerDoc, followerDoc_small⟩

/-- A connection whose socket is dead, and that knows the node that is no master. -/
def namingWorld : World Sockets where
  net := Sockets.mk (fun _ => none) (fun _ => [])
  conn := freshConn followerAddr false 3
  errno := .ok
  nextFd := 4
  log := []

/-- The nested call goes on to the primary, and there the chain ends. -/
theorem reconnect_returns_named :
    ∃ fuel, Returns (mongoSyncReconnect namingCluster.net fuel true) namingWorld := by
  have hfirst : namingWorld.goesTo namingCluster true = some followerAddr := by decide +kernel
  have hsecond : namingCluster.next true false followerAddr = some primaryAddr := by decide +kernel
  have hlast : namingCluster.next true false primaryAddr = none := by decide +kernel
  have hends : Chain.Ends (namingCluster.next true false) (namingCluster.next true false primaryAddr) := by
    rw [hlast]
    exact .none
  refine (reconnect_returns namingCluster true namingWorld ⟨rfl, by decide⟩).mpr ⟨?_, ?_⟩
  · rw [hfirst]
    refine .some ?_
    have hnext : Chain.Ends (namingCluster.next true false) (some primaryAddr) := .some hends
    rwa [← hsecond] at hnext
  · rintro ⟨⟨-, hauto, -⟩, -⟩
    cases hauto

end Named

/-! ## A node that accepts connections and says nothing -/

section Silence

/-- The only node. -/
def silentAddr : Addr := (.ascii ['a'], 1)

/-- It accepts connections and answers nothing. -/
def silentCluster : Cluster where
  order := .little
  strerror _ := .ascii ['e', 'r', 'r', 'o', 'r']
  md5 _ := .ascii ['m', 'd', '5']
  accepts a := decide (a = silentAddr)
  answer _ _ := none

/-- A connection that has just been opened. -/
def silentWorld : World Sockets :=
  { net := (Sockets.mk (fun _ => none) (fun _ => [])).connect 3 silentAddr
    conn := freshConn silentAddr false 3
    errno := .ok
    nextFd := 4
    log := [] }

theorem silentWorld_idle : silentWorld.Idle := ⟨rfl, by decide⟩

/-- The candidate is the address itself, over and over. -/
theorem silentCluster_next (forceMaster : Bool) :
    silentCluster.next forceMaster false silentAddr = some silentAddr := by
  rw [Cluster.next, goesTo_silent rfl]
  decide +kernel

theorem reconnect_endless :
    ¬ ∃ fuel, Returns (mongoSyncReconnect silentCluster.net fuel true) silentWorld := by
  rintro ⟨fuel, h⟩
  have hgoes : silentWorld.goesTo silentCluster true = some silentAddr :=
    silentCluster_next true
  have hends := ends_of_returns silentCluster fuel true silentWorld silentWorld_idle rfl h
  exact Chain.not_ends (P := fun a => a = silentAddr)
    (fun a ha => ⟨silentAddr, ha ▸ silentCluster_next true, rfl⟩) hends silentAddr hgoes rfl

end Silence

end LibMongo
