import LibMongo.Sync.Command

/-!
# Reconnecting

`mongo_sync_connect`, `mongo_sync_reconnect` and the functions that may
reconnect.

`mongoSyncReconnectWith` is one call of `mongo_sync_reconnect`.  The calls it
makes of itself go to its argument `reconnect`, directly or through a command
that finds its socket dead.  `mongoSyncReconnect` closes the circle, for as many
nested calls as the fuel says.  Running out of fuel is `Halt.endless`.
-/

namespace LibMongo

open Bytes Program

variable {σ : Type} (N : Net σ)

/-! ## Fresh connections -/

/-- `MONGO_SYNC_DEFAULT_MAX_INSERT_SIZE`. -/
def defaultMaxInsertSize : Int := 4 * 1000 * 1000

/-- `_mongo_sync_conn_init`. -/
def mongoSyncConnInit (c : MongoConnection) (slaveok : Bool) : MongoSyncConnection where
  toMongoConnection := c
  slaveok := slaveok
  safeMode := false
  autoReconnect := false
  lastError := none
  maxInsertSize := defaultMaxInsertSize
  rs := ⟨[], [], none⟩
  auth := ⟨none, none, none⟩
  recoveryCache := none

/-- The seed list holds the address itself. -/
def mongoSyncConnect (address : CString) (port : Int) (slaveok : Bool) :
    Program (World σ) (Option MongoSyncConnection) := do
  match ← mongoConnect N address port with
  | none => return none
  | some c =>
      let s := mongoSyncConnInit c slaveok
      return some { s with rs := { s.rs with seeds := [formatAddr address port] } }

/-- `mongo_sync_conn_seed_add`. -/
def mongoSyncConnSeedAdd (host : CString) (port : Int) : Program (World σ) Bool := do
  if port < 0 then
    setErrno .EINVAL
    return false
  else
    setConn fun c => { c with rs := { c.rs with seeds := c.rs.seeds ++ [formatAddr host port] } }
    return true

/-- What a connection takes over from a new one, and what it forgets. -/
def MongoSyncConnection.takeOver (old new : MongoSyncConnection) : MongoSyncConnection :=
  { old with
    rs := ⟨old.rs.seeds, [], none⟩
    fd := new.fd
    requestId := -1
    slaveok := new.slaveok
    lastError := none }

/-- `_mongo_sync_connect_replace`.  It does nothing without a new connection. -/
def mongoSyncConnectReplace (new : Option MongoSyncConnection) : Program (World σ) Unit := do
  match new with
  | none => return
  | some new =>
      let w ← get
      if w.conn.fd ≠ 0 ∧ w.conn.fd ≠ new.fd then closeFd N w.conn.fd
      setConn fun old => old.takeOver new

/-- A program run on another connection, and that connection after it if it returns
`TRUE`.  Afterwards, also if it halts, the connection is the one it was. -/
def onConnection (nc : MongoSyncConnection) (m : Program (World σ) Bool) :
    Program (World σ) (Option MongoSyncConnection) := ExceptT.mk fun w =>
  let run := m.exec { w with conn := nc }
  (run.1.map fun ok => if ok then some run.2.conn else none, { run.2 with conn := w.conn })

theorem exec_onConnection (nc : MongoSyncConnection) (m : Program (World σ) Bool) (w : World σ) :
    Program.exec (onConnection nc m) w
      = ((m.exec { w with conn := nc }).1.map fun ok =>
          if ok then some (m.exec { w with conn := nc }).2.conn else none,
        { (m.exec { w with conn := nc }).2 with conn := w.conn }) := rfl

theorem wp_onConnection {nc : MongoSyncConnection} {m : Program (World σ) Bool}
    {Q : Option MongoSyncConnection → World σ → Prop} {E : World σ → Prop} {w : World σ} :
    Program.wp (onConnection nc m) Q E w
      ↔ Program.wp m
          (fun ok w' => Q (if ok then some w'.conn else none) { w' with conn := w.conn })
          (fun w' => E { w' with conn := w.conn }) { w with conn := nc } := by
  unfold Program.wp
  rw [exec_onConnection]
  cases m.exec { w with conn := nc } with
  | mk r w' =>
      cases r with
      | ok ok => exact Iff.rfl
      | error e => exact Iff.rfl

/-! ## Functions that may reconnect -/

section Reconnecting

variable (reconnect : Bool → Program (World σ) Bool)

/-- What `_mongo_cmd_ensure_conn` and `_mongo_cmd_verify_slaveok` do about a
connection that is no master. -/
def ensureMaster : Program (World σ) Bool := do
  setErrno .ok
  let master ← mongoSyncCmdIsMaster N
  if master then return true
  else
    let w ← get
    if w.errno = .EPROTO then return false
    else if !w.conn.autoReconnect then
      setErrno .ENOTCONN
      return false
    else reconnect true

/-- `_mongo_cmd_ensure_conn`. -/
def mongoCmdEnsureConn (forceMaster : Bool) : Program (World σ) Bool := do
  let w ← get
  if forceMaster || !w.conn.slaveok then ensureMaster N reconnect
  else
    setErrno .ok
    let ping ← mongoSyncCmdPing N
    if ping then
      setErrno .ok
      return true
    else
      let w ← get
      if w.errno = .EPROTO then return false
      else if !w.conn.autoReconnect then
        setErrno .ENOTCONN
        return false
      else
        let connected ← reconnect false
        if connected then
          setErrno .ok
          return true
        else
          setErrno .ENOTCONN
          return false

/-- `_mongo_cmd_verify_slaveok`. -/
def mongoCmdVerifySlaveok : Program (World σ) Bool := do
  let w ← get
  if w.conn.slaveok || !w.conn.safeMode then return true
  else ensureMaster N reconnect

/-- `_mongo_sync_packet_send`. -/
def mongoSyncPacketSend (p : MongoPacket) (forceMaster autoReconnect : Bool) :
    Program (World σ) Bool :=
  mongoSyncPacketSendWith N (mongoCmdEnsureConn N reconnect) reconnect p forceMaster
    autoReconnect

/-- `mongo_sync_cmd_custom`. -/
def mongoSyncCmdCustom (db : Option CString) (command : Option Bson) :
    Program (World σ) (Option MongoPacket) :=
  mongoSyncCmdCustomWith N (mongoCmdEnsureConn N reconnect) reconnect db command true false

/-- `user`. -/
def userKey : CString := .ascii ['u', 's', 'e', 'r']

/-- `nonce`, the challenge of the server. -/
def nonceKey : CString := .ascii ['n', 'o', 'n', 'c', 'e']

/-- `key`, the answer to the challenge. -/
def keyKey : CString := .ascii ['k', 'e', 'y']

/-- `getnonce`. -/
def getnonceKey : CString := .ascii ['g', 'e', 't', 'n', 'o', 'n', 'c', 'e']

/-- `authenticate`. -/
def authenticateKey : CString :=
  .ascii ['a', 'u', 't', 'h', 'e', 'n', 't', 'i', 'c', 'a', 't', 'e']

/-- `_pass_digest`. -/
def passDigest (user pw : CString) : CString :=
  N.md5 (user.bytes ++ [58, 109, 111, 110, 103, 111, 58] ++ pw.bytes)

/-- The command that authenticates. -/
@[irreducible] def authenticateCommand (user nonce digest : CString) : Option Bson :=
  let b := (bsonAppendInt32 (some bsonNew) (some authenticateKey) 1).2
  let b := (bsonAppendString b (some userKey) (some user.image) (-1)).2
  let b := (bsonAppendString b (some nonceKey) (some nonce.image) (-1)).2
  let b := (bsonAppendString b (some keyKey) (some digest.image) (-1)).2
  (bsonFinish b).2

/-- The nonce in the reply to `getnonce`. -/
def replyNonce (b : Option Bson) : Except Halt (Option CString) := do
  match ← bsonFind b (some nonceKey) with
  | none => return none
  | some c => bsonCursorGetString (some c)

/-- Reading a string that was handed to `mongo_sync_cmd_authenticate`.  `lent` is `none`
for a string of the caller.  Otherwise it is a string of the connection, from when the
credentials had been stored so often. -/
def readString (lent : Option Nat) (s : CString) : Program (World σ) CString := do
  let w ← get
  if lent.all fun n => n = w.conn.stored then return s
  else
    emit .dangling
    return N.freed w.net s

/-- The credentials are stored in new strings, and the old ones are freed. -/
def storeCredentials (lent : Option Nat) (db user pw : CString) : Program (World σ) Unit := do
  let db ← readString N lent db
  let user ← readString N lent user
  let pw ← readString N lent pw
  setConn fun c => { c with auth := ⟨some db, some user, some pw⟩, stored := c.stored + 1 }

/-- `mongo_sync_cmd_authenticate`, for strings of the caller or of the connection. -/
def mongoSyncCmdAuthenticateWith (lent : Option Nat) (db user pw : CString) :
    Program (World σ) Bool := do
  match ← mongoSyncCmdCustom N reconnect (some db) (commandOne getnonceKey) with
  | none => return false
  | some p =>
      match ← readOrErrno (mongoWireReplyPacketGetNthDocument (some p) 1) with
      | none => return false
      | some b =>
          match ← Program.ofExcept (replyNonce (bsonFinish b).2) with
          | none =>
              setErrno .EPROTO
              return false
          | some nonce =>
              let user' ← readString N lent user
              let pw' ← readString N lent pw
              let db' ← readString N lent db
              let digest := N.md5 (nonce.bytes ++ user'.bytes ++ (passDigest N user' pw').bytes)
              match ← mongoSyncCmdCustom N reconnect (some db')
                (authenticateCommand user' nonce digest) with
              | none => return false
              | some _ =>
                  storeCredentials N lent db user pw
                  return true

/-- `mongo_sync_cmd_authenticate`, called by the client with its own texts. -/
def mongoSyncCmdAuthenticate (db user pw : CString) : Program (World σ) Bool :=
  mongoSyncCmdAuthenticateWith N reconnect none db user pw

/-! ## One call of reconnect -/

/-- Authenticating again, with the strings of the connection. -/
def reauthenticate : Program (World σ) Unit := do
  let w ← get
  match w.conn.auth with
  | ⟨some db, some user, some pw⟩ =>
      let _ ← mongoSyncCmdAuthenticateWith N reconnect (some w.conn.stored) db user pw
      return
  | _ => return

/-- What it does with a connection to a candidate: call itself on it, replace the
socket by that of the result, and authenticate again. -/
def adopt (forceMaster : Bool) (nc : MongoSyncConnection) : Program (World σ) Unit := do
  let new ← onConnection nc (reconnect forceMaster)
  let w ← get
  emit (.replace forceMaster (new.map fun c => c.fd))
  mongoSyncConnectReplace N new
  setErrno w.errno
  reauthenticate N reconnect

/-- The state once the result of the nested call has replaced the socket.  `w` is the
state before and `u` the one in which that call ends. -/
def afterReplace (forceMaster ok : Bool) (w u : World σ) : World σ :=
  if ok then
    if w.conn.fd ≠ 0 ∧ w.conn.fd ≠ u.conn.fd then
      { u with
        net := N.close w.conn.fd u.net
        conn := w.conn.takeOver u.conn
        log := u.log ++ [.replace forceMaster (some u.conn.fd), .close w.conn.fd] }
    else
      { u with
        conn := w.conn.takeOver u.conn
        log := u.log ++ [.replace forceMaster (some u.conn.fd)] }
  else { u with conn := w.conn, log := u.log ++ [.replace forceMaster none] }

/-- A candidate is adopted in three steps. -/
theorem exec_adopt_ok {forceMaster ok : Bool} {nc : MongoSyncConnection} {w u : World σ}
    (h : (reconnect forceMaster).exec { w with conn := nc } = (.ok ok, u)) :
    (adopt N reconnect forceMaster nc).exec w
      = (reauthenticate N reconnect).exec (afterReplace N forceMaster ok w u) := by
  have hnested : (onConnection nc (reconnect forceMaster)).exec w
      = (.ok (if ok then some u.conn else none), { u with conn := w.conn }) := by
    rw [exec_onConnection, h]
    rfl
  have hreplace : ∀ log, (mongoSyncConnectReplace N (some u.conn)).exec
      { u with conn := w.conn, log := log }
        = (.ok (), if w.conn.fd ≠ 0 ∧ w.conn.fd ≠ u.conn.fd then
            { u with
              net := N.close w.conn.fd u.net
              conn := w.conn.takeOver u.conn
              log := log ++ [.close w.conn.fd] }
          else { u with conn := w.conn.takeOver u.conn, log := log }) := by
    intro log
    rw [mongoSyncConnectReplace, exec_get_bind]
    by_cases hclose : w.conn.fd ≠ 0 ∧ w.conn.fd ≠ u.conn.fd
    · rw [if_pos hclose, if_pos hclose]
      rfl
    · rw [if_neg hclose, if_neg hclose]
      rfl
  rw [adopt, exec_bind_ok hnested, exec_get_bind, emit, exec_modify_bind]
  cases ok with
  | false => rfl
  | true =>
      refine (exec_bind_ok (hreplace _) _).trans ?_
      rw [setErrno, exec_modify_bind, afterReplace, if_pos rfl]
      split
      · rw [List.append_assoc]
        rfl
      · rfl

theorem exec_adopt_error {forceMaster : Bool} {e : Halt} {nc : MongoSyncConnection} {w u : World σ}
    (h : (reconnect forceMaster).exec { w with conn := nc } = (.error e, u)) :
    (adopt N reconnect forceMaster nc).exec w = (.error e, { u with conn := w.conn }) := by
  have hnested : (onConnection nc (reconnect forceMaster)).exec w
      = (.error e, { u with conn := w.conn }) := by
    rw [exec_onConnection, h]
    rfl
  rw [adopt, exec_bind_error hnested]

/-- What is shown of adopting a candidate from what is shown of the nested call. -/
theorem wp_adopt {forceMaster : Bool} {nc : MongoSyncConnection} {w : World σ}
    {Q E : World σ → Prop}
    (h : wp (reconnect forceMaster)
      (fun ok u => wp (reauthenticate N reconnect) (fun _ => Q) E (afterReplace N forceMaster ok w u))
      (fun u => E { u with conn := w.conn }) { w with conn := nc }) :
    wp (adopt N reconnect forceMaster nc) (fun _ => Q) E w := by
  unfold wp at h
  cases hrun : (reconnect forceMaster).exec { w with conn := nc } with
  | mk r u =>
      rw [hrun] at h
      cases r with
      | ok ok =>
          unfold wp
          rw [exec_adopt_ok N reconnect hrun]
          exact h
      | error e =>
          unfold wp
          rw [exec_adopt_error N reconnect hrun]
          exact h

/-- A connection to an address, if it parses and accepts. -/
def connectAddr (addr : CString) : Program (World σ) (Option MongoSyncConnection) := do
  match ← orErrno (mongoUtilParseAddr addr) with
  | none => return none
  | some (host, port) =>
      let w ← get
      mongoSyncConnect N host port w.conn.slaveok

/-- The first of the addresses that can be connected to is adopted. -/
def reconnectVia (forceMaster : Bool) : List CString → Program (World σ) Bool
  | [] => return false
  | addr :: addrs => do
      match ← connectAddr N addr with
      | none => reconnectVia forceMaster addrs
      | some nc =>
          adopt N reconnect forceMaster nc
          return true

/-- The candidates: the primary, then the hosts, then the seeds. -/
def reconnectCandidates (forceMaster : Bool) : Program (World σ) Bool := do
  let w ← get
  if ← reconnectVia N reconnect forceMaster w.conn.rs.primary.toList then return true
  else if ← reconnectVia N reconnect forceMaster w.conn.rs.hosts then return true
  else if ← reconnectVia N reconnect forceMaster w.conn.rs.seeds then return true
  else
    setErrno .EHOSTUNREACH
    return false

/-- A call of `mongo_sync_reconnect`.  It returns the connection it was given, or
`NULL`. -/
def mongoSyncReconnectWith (forceMaster : Bool) : Program (World σ) Bool := do
  let ping ← mongoSyncCmdPing N
  if ping then
    if !forceMaster then return true
    else
      let master ← mongoSyncCmdIsMaster N
      if master then return true
      else
        let _ ← mongoSyncCmdIsMaster N
        reconnectCandidates N reconnect forceMaster
  else reconnectCandidates N reconnect forceMaster

end Reconnecting

/-- `mongo_sync_reconnect`, for as many nested calls as the fuel says. -/
def mongoSyncReconnect : Nat → Bool → Program (World σ) Bool
  | 0, _ => throw .endless
  | fuel + 1, forceMaster => mongoSyncReconnectWith N (mongoSyncReconnect fuel) forceMaster

end LibMongo
