import LibMongo.Sync.Admin
import LibMongo.Sync.Bulk
import LibMongo.Sync.Service

/-!
# The operations as dialogues

What the operations of `mongo-sync.c` say to a server and make of its answers, in terms of
messages and documents.  There is one dialogue for each operation.  They say what the
functions of `Command.lean`, `Reconnect.lean`, `Operation.lean` and `Admin.lean` are for, and
`Refines` connects the two: over the bytes of a socket that stays open, every function is its
dialogue.  `Conversation.lean` has the theorem for a list of operations.

The connections are those that do not reconnect, so a server that is no master is an error.
-/

namespace LibMongo

open Bytes Program

/-! ## Documents -/

/-- The tree of a command with a single integer 1. -/
def oneDoc (name : CString) : Doc := .cons name (.int32 1) .nil

/-- The tree of the command that authenticates. -/
def authenticateDoc (user nonce digest : CString) : Doc :=
  .cons authenticateKey (.int32 1) (.cons userKey (.string user.bytes)
    (.cons nonceKey (.string nonce.bytes) (.cons keyKey (.string digest.bytes) .nil)))

theorem authenticateCommand_eq (user nonce digest : CString) :
    authenticateCommand user nonce digest
      = some ⟨(authenticateDoc user nonce digest).encode, true⟩ := by
  rw [authenticateCommand]
  exact ((((builds_new 0).int32 authenticateKey 1).string userKey user).string nonceKey
    nonce |>.string keyKey digest).finish

/-- The number a reply to `count` has. -/
def Doc.number (d : Doc) : Except Errno GDouble :=
  match d.lookup numberKey with
  | none => .error .ENOENT
  | some v =>
      match v.asDouble with
      | none => .error .EINVAL
      | some x => .ok x

/-! ## Dialogues -/

namespace Dialogue

variable {S : Type} (V : Service S)

/-! ### Settings -/

/-- `mongo_sync_conn_set_safe_mode`, between messages. -/
def setSafeMode (safeMode : Bool) : Program (Dialogue S) Bool := do
  setErrno .ok
  setConn fun c => { c with safeMode := safeMode }
  return true

/-- `mongo_sync_conn_set_slaveok`, between messages. -/
def setSlaveok (slaveok : Bool) : Program (Dialogue S) Bool := do
  setErrno .ok
  setConn fun c => { c with slaveok := slaveok }
  return true

/-- `mongo_sync_conn_set_max_insert_size`, between messages. -/
def setMaxInsertSize (maxSize : Int) : Program (Dialogue S) Bool := do
  if maxSize ≤ 0 then
    setErrno .ERANGE
    return false
  else
    setErrno .ok
    setConn fun c => { c with maxInsertSize := maxSize }
    return true

/-! ### Commands -/

/-- The connection is ready as it is. -/
def atOnce : Program (Dialogue S) Bool := return true

/-- A command to a database. -/
def command (ready : Program (Dialogue S) Bool) (db : CString) (command : Bytes) :
    Program (Dialogue S) (Option Received) := do
  let d ← get
  exchange V ready (d.conn.requestId + 1)
    (.query (db.append cmdSuffix) (slaveFlag d.conn) 0 1 command (some Doc.nil.encode))
    replyFlagQueryFail true

/-- A ping. -/
def ping : Program (Dialogue S) Bool := do
  match ← command V atOnce systemDb (oneDoc pingKey).encode with
  | none => return false
  | some _ =>
      setErrno .ok
      return true

/-- Whether the node is a master.  What it says about the set is taken over. -/
def isMaster : Program (Dialogue S) Bool := do
  match ← command V atOnce systemDb (oneDoc ismasterKey).encode with
  | none => return false
  | some r =>
      match r.first.isMaster with
      | none =>
          setErrno .EPROTO
          return false
      | some b =>
          setConn fun c =>
            { c with
              rs := { c.rs with
                primary := (if b = 0 then r.first.primary else none).or c.rs.primary
                hosts := r.first.hosts.getD c.rs.hosts } }
          setErrno .ok
          return b ≠ 0

/-- The connection is ready if the server is a master. -/
def ensureMaster : Program (Dialogue S) Bool := do
  setErrno .ok
  let master ← isMaster V
  if master then return true
  else
    let d ← get
    if d.errno = .EPROTO then return false
    else
      setErrno .ENOTCONN
      return false

/-- What is asked of the node before a query. -/
def verifySlaveok : Program (Dialogue S) Bool := do
  let d ← get
  if d.conn.slaveok || !d.conn.safeMode then return true
  else ensureMaster V

/-! ### The last error -/

/-- An error of the client itself is remembered. -/
def setLastError (e : Errno) : Program (Dialogue S) Unit :=
  setConn fun c => { c with lastError := some (V.strerror e) }

/-- The document that answers `getlasterror`. -/
def lastErrorDoc (db : CString) : Program (Dialogue S) (Option Doc) := do
  match ← command V atOnce db (oneDoc getlasterrorKey).encode with
  | none =>
      let d ← get
      setLastError V d.errno
      return none
  | some r => return some r.first

/-- The report in that document, which is remembered. -/
def getLastError (db : CString) : Program (Dialogue S) (Option (Option CString)) := do
  match ← lastErrorDoc V db with
  | none => return none
  | some doc =>
      match doc.report with
      | .error e =>
          setErrno e
          setLastError V e
          return none
      | .ok none =>
          let d ← get
          return some d.conn.lastError
      | .ok (some error) =>
          setConn fun c => { c with lastError := some error }
          return some (some error)

/-- No error is remembered, on either side. -/
def resetError (db : CString) : Program (Dialogue S) Bool := do
  setConn fun c => { c with lastError := none }
  let r ← command V atOnce db (oneDoc reseterrorKey).encode
  return r.isSome

/-- In safe mode, whether the last write is reported without an error. -/
def verifyResult (ns : CString) : Program (Dialogue S) Bool := do
  let d ← get
  if !d.conn.safeMode then return true
  else
    match ← getLastError V (nsDb ns) with
    | none => return false
    | some error => return error.isNone

/-! ### Writes -/

/-- A message to the master, under the next request id. -/
def sendMaster (m : WireMessage) : Program (Dialogue S) Bool := do
  let d ← get
  send V (ensureMaster V) (d.conn.requestId + 1) m

/-- A write that is verified. -/
def write (ns : CString) (m : WireMessage) : Program (Dialogue S) Bool := do
  let sent ← sendMaster V m
  if sent then verifyResult V ns else return false

/-- Cursors that are given back.  There is no answer. -/
def killCursors (cids : List (BitVec 64)) : Program (Dialogue S) Bool := do
  let d ← get
  send V atOnce (d.conn.requestId + 1) (.killCursors cids)

/-- One packet of a bulk insert. -/
def insertBatch (ns : CString) (docs : List Document) : Program (Dialogue S) Bool := do
  if docs.isEmpty then
    setErrno .ERANGE
    return false
  else
    let sent ← sendMaster V (.insert ns (docs.map Document.bytes))
    if !sent then
      let d ← get
      setLastError V d.errno
      return false
    else verifyResult V ns

/-- The packets of a bulk insert, one after the other. -/
def insertLoop (ns : CString) : Nat → List Document → Program (Dialogue S) Bool
  | 0, _ => throw .endless
  | fuel + 1, docs => do
      let d ← get
      let c := (batchLength d.conn.maxInsertSize (pointers docs)).toNat
      let ok ← insertBatch V ns (docs.take c)
      if !ok then return false
      else if (docs.drop c).isEmpty then return true
      else insertLoop ns fuel (docs.drop c)

/-- An insert, in as many messages as the limit asks for. -/
def insertN (ns : CString) (docs : List Document) : Program (Dialogue S) Bool := do
  if docs.isEmpty then
    setErrno .EINVAL
    return false
  else
    let d ← get
    if docs.any fun doc => d.conn.maxInsertSize ≤ doc.bytes.length then
      setErrno .EMSGSIZE
      return false
    else insertLoop V ns docs.length docs

/-! ### Queries -/

/-- A query and its reply. -/
def query (ns : CString) (flags skip ret : BitVec 32) (query : Bytes) (sel : Option Bytes) :
    Program (Dialogue S) (Option Received) := do
  let verified ← verifySlaveok V
  if verified then
    let d ← get
    exchange V (if d.conn.slaveok || flags &&& flagQuerySlaveOk ≠ 0 then atOnce else ensureMaster V)
      (d.conn.requestId + 1) (.query ns (flags ||| slaveFlag d.conn) skip ret query sel)
      replyFlagQueryFail false
  else return none

/-- The next reply for a cursor. -/
def getMore (ns : CString) (ret : BitVec 32) (cursorId : BitVec 64) :
    Program (Dialogue S) (Option Received) := do
  let verified ← verifySlaveok V
  if verified then
    let d ← get
    exchange V atOnce (d.conn.requestId + 1) (.getMore ns ret cursorId) replyFlagNoCursor false
  else return none

/-! ### Collections -/

/-- The number of documents that match, or -1. -/
def count (db coll : CString) (query : Option Doc) : Program (Dialogue S) GDouble := do
  match ← command V atOnce db (countDoc coll query).encode with
  | none => return doubleMinusOne
  | some r =>
      match r.first.number with
      | .error e =>
          setErrno e
          return doubleMinusOne
      | .ok x => return x

/-- A new collection. -/
def create (db coll : CString) (flags : BitVec 32) (size max : BitVec 64) :
    Program (Dialogue S) Bool := do
  if CreateFits flags size max then
    let r ← command V (ensureMaster V) db (createDoc coll flags size max).encode
    return r.isSome
  else
    setErrno .ERANGE
    return false

/-- The tree of a `drop`. -/
def dropDoc (coll : CString) : Doc := .cons dropKey (.string coll.bytes) .nil

/-- A collection is dropped. -/
def drop (db coll : CString) : Program (Dialogue S) Bool := do
  let r ← command V (ensureMaster V) db (dropDoc coll).encode
  return r.isSome

/-- The tree of the query for a collection. -/
def existsDoc (ns : CString) : Doc := .cons namespaceKey (.string ns.bytes) .nil

/-- The document that describes a collection. -/
def describe (db coll : CString) : Program (Dialogue S) (Option Doc) := do
  let d ← get
  let r ← exchange V (if d.conn.slaveok then atOnce else ensureMaster V) (d.conn.requestId + 1)
    (.query (db.append systemNamespaces) (slaveFlag d.conn) 0 1
      (existsDoc ((db.append dot).append coll)).encode none) replyFlagQueryFail false
  return r.map Received.first

/-! ### Users -/

/-- The MD5 sum that is stored for a user. -/
def digest (user pw : CString) : CString :=
  V.md5 (user.bytes ++ [58, 109, 111, 110, 103, 111, 58] ++ pw.bytes)

/-- A user is added, or changed. -/
def userAdd (db user pw : CString) (roles : Option Doc) : Program (Dialogue S) Bool :=
  write V (db.append systemUsers) (.update (db.append systemUsers) flagUpdateUpsert
    (userDoc user).encode (userUpdateDoc (digest V user pw) roles).encode)

/-- A user is removed. -/
def userRemove (db user : CString) : Program (Dialogue S) Bool :=
  sendMaster V (.delete (db.append systemUsers) 0 (userDoc user).encode)

/-- The answer to a challenge. -/
def respond (nonce user pw : CString) : CString :=
  V.md5 (nonce.bytes ++ user.bytes ++ (digest V user pw).bytes)

/-- A challenge and the answer to it. -/
def authenticate (db user pw : CString) : Program (Dialogue S) Bool := do
  match ← command V atOnce db (oneDoc getnonceKey).encode with
  | none => return false
  | some r =>
      match (r.first.lookup nonceKey).bind Value.asText with
      | none =>
          setErrno .EPROTO
          return false
      | some nonce =>
          let r ← command V atOnce db (authenticateDoc user nonce (respond V nonce user pw)).encode
          if r.isSome then
            setConn fun c =>
              { c with auth := ⟨some db, some user, some pw⟩, stored := c.stored + 1 }
          return r.isSome

/-! ## Every dialogue comes to an end -/

theorem setSafeMode_total (safeMode : Bool) : Total (setSafeMode (S := S) safeMode) :=
  fun _ => ⟨_, _, rfl⟩

theorem setSlaveok_total (slaveok : Bool) : Total (setSlaveok (S := S) slaveok) :=
  fun _ => ⟨_, _, rfl⟩

theorem setMaxInsertSize_total (maxSize : Int) : Total (setMaxInsertSize (S := S) maxSize) :=
  .ite (.modify_bind (.pure _)) fun _ => ⟨_, _, rfl⟩

theorem checkCommand_total (r : Received) : Total (checkCommand (S := S) r) :=
  .ite (.modify_bind (.pure _)) (.modify_bind (.modify_bind (.pure _)))

theorem checkQuery_total (r : Received) : Total (checkQuery (S := S) r) := by
  rw [checkQuery]
  cases r.first.report with
  | error e => exact .modify_bind (.modify_bind (.pure _))
  | ok err => exact .modify_bind (.pure _)

theorem receive_total (id flags : BitVec 32) (checkOk : Bool) (r : Response) :
    Total (receive (S := S) id flags checkOk r) := by
  refine .ite (.modify_bind (.pure _)) ?_
  cases r.received id with
  | none => exact .modify_bind (.pure _)
  | some r => exact .ite (checkCommand_total r) (checkQuery_total r)

theorem send_total {ready : Program (Dialogue S) Bool} (h : Total ready) (id : BitVec 32)
    (m : WireMessage) : Total (send V ready id m) :=
  h.bind fun _ => .ite (.modify_bind (.pure _)) (.pure _)

theorem ask_total (id : BitVec 32) (m : WireMessage) : Total (ask V id m) :=
  .get_bind fun _ => .modify_bind (.pure _)

theorem exchange_total {ready : Program (Dialogue S) Bool} (h : Total ready) (id : BitVec 32)
    (m : WireMessage) (flags : BitVec 32) (checkOk : Bool) :
    Total (exchange V ready id m flags checkOk) :=
  h.bind fun _ => .ite ((ask_total V id m).bind fun _ => receive_total id flags checkOk _) (.pure _)

theorem atOnce_total : Total (atOnce (S := S)) := .pure _

theorem command_total {ready : Program (Dialogue S) Bool} (h : Total ready) (db : CString)
    (cmd : Bytes) : Total (command V ready db cmd) :=
  .get_bind fun _ => exchange_total V h _ _ _ _

theorem ping_total : Total (ping V) := by
  refine (command_total V atOnce_total _ _).bind fun r => ?_
  cases r with
  | none => exact .pure _
  | some r => exact .modify_bind (.pure _)

theorem isMaster_total : Total (isMaster V) := by
  refine (command_total V atOnce_total _ _).bind fun r => ?_
  cases r with
  | none => exact .pure _
  | some r =>
      dsimp only
      cases r.first.isMaster with
      | none => exact .modify_bind (.pure _)
      | some b => exact .modify_bind (.modify_bind (.pure _))

theorem ensureMaster_total : Total (ensureMaster V) :=
  .modify_bind ((isMaster_total V).bind fun _ =>
    .ite (.pure _) (.get_bind fun _ => .ite (.pure _) (.modify_bind (.pure _))))

theorem verifySlaveok_total : Total (verifySlaveok V) :=
  .get_bind fun _ => .ite (.pure _) (ensureMaster_total V)

theorem lastErrorDoc_total (db : CString) : Total (lastErrorDoc V db) := by
  refine (command_total V atOnce_total _ _).bind fun r => ?_
  cases r with
  | none => exact .get_bind fun _ => .modify_bind (.pure _)
  | some r => exact .pure _

theorem getLastError_total (db : CString) : Total (getLastError V db) := by
  refine (lastErrorDoc_total V db).bind fun d => ?_
  cases d with
  | none => exact .pure _
  | some d =>
      dsimp only
      cases d.report with
      | error e => exact .modify_bind (.modify_bind (.pure _))
      | ok err =>
          cases err with
          | none => exact .get_bind fun _ => .pure _
          | some error => exact .modify_bind (.pure _)

theorem resetError_total (db : CString) : Total (resetError V db) :=
  .modify_bind ((command_total V atOnce_total _ _).bind fun _ => .pure _)

theorem verifyResult_total (ns : CString) : Total (verifyResult V ns) := by
  refine .get_bind fun _ => .ite (.pure _) ((getLastError_total V _).bind fun error => ?_)
  cases error with
  | none => exact .pure _
  | some error => exact .pure _

theorem sendMaster_total (m : WireMessage) : Total (sendMaster V m) :=
  .get_bind fun _ => send_total V (ensureMaster_total V) _ _

theorem write_total (ns : CString) (m : WireMessage) : Total (write V ns m) :=
  (sendMaster_total V m).bind fun _ => .ite (verifyResult_total V ns) (.pure _)

theorem killCursors_total (cids : List (BitVec 64)) : Total (killCursors V cids) :=
  .get_bind fun _ => send_total V atOnce_total _ _

/-- An empty packet is not sent. -/
theorem exec_insertBatch_nil (ns : CString) (d : Dialogue S) :
    (insertBatch V ns []).exec d = (.ok false, { d with errno := .ERANGE }) := rfl

theorem insertBatch_total (ns : CString) (docs : List Document) : Total (insertBatch V ns docs) :=
  .ite (.modify_bind (.pure _)) ((sendMaster_total V _).bind fun _ =>
    .ite (.get_bind fun _ => .modify_bind (.pure _)) (verifyResult_total V ns))

/-- Each packet takes a document at least, so the loop does not run out of rounds. -/
theorem insertLoop_total (ns : CString) (fuel : Nat) :
    ∀ docs : List Document, docs ≠ [] → docs.length ≤ fuel → Total (insertLoop V ns fuel docs) := by
  induction fuel with
  | zero => exact fun docs hne hlen => absurd (List.length_eq_zero_iff.mp (by omega)) hne
  | succ fuel ih =>
      intro docs hne hlen
      refine .get_bind fun d => ?_
      cases hc : (batchLength d.conn.maxInsertSize (pointers docs)).toNat with
      | zero =>
          intro s
          exact ⟨false, _, exec_bind_ok (exec_insertBatch_nil V ns s) _⟩
      | succ c =>
          refine (insertBatch_total V ns _).bind fun ok => .ite (.pure _) ?_
          by_cases hrest : docs.drop (c + 1) = []
          · rw [hrest]
            exact .pure _
          · rw [if_neg (by simpa using hrest)]
            exact ih _ hrest (by rw [List.length_drop]; omega)

theorem insertN_total (ns : CString) (docs : List Document) : Total (insertN V ns docs) := by
  rw [insertN]
  by_cases hne : docs = []
  · rw [if_pos (by simp [hne])]
    exact .modify_bind (.pure _)
  · rw [if_neg (by simpa using hne)]
    exact .get_bind fun _ => .ite (.modify_bind (.pure _))
      (insertLoop_total V ns docs.length docs hne (Nat.le_refl _))

theorem ready_total {c : Prop} [Decidable c] : Total (if c then atOnce else ensureMaster V) :=
  .ite atOnce_total (ensureMaster_total V)

theorem query_total (ns : CString) (flags skip ret : BitVec 32) (q : Bytes) (sel : Option Bytes) :
    Total (query V ns flags skip ret q sel) :=
  (verifySlaveok_total V).bind fun _ =>
    .ite (.get_bind fun _ => exchange_total V (ready_total V) _ _ _ _) (.pure _)

theorem getMore_total (ns : CString) (ret : BitVec 32) (cursorId : BitVec 64) :
    Total (getMore V ns ret cursorId) :=
  (verifySlaveok_total V).bind fun _ =>
    .ite (.get_bind fun _ => exchange_total V atOnce_total _ _ _ _) (.pure _)

theorem count_total (db coll : CString) (q : Option Doc) : Total (count V db coll q) := by
  refine (command_total V atOnce_total _ _).bind fun r => ?_
  cases r with
  | none => exact .pure _
  | some r =>
      dsimp only
      cases r.first.number with
      | error e => exact .modify_bind (.pure _)
      | ok x => exact .pure _

theorem create_total (db coll : CString) (flags : BitVec 32) (size max : BitVec 64) :
    Total (create V db coll flags size max) :=
  .ite ((command_total V (ensureMaster_total V) _ _).bind fun _ => .pure _) (.modify_bind (.pure _))

theorem drop_total (db coll : CString) : Total (drop V db coll) :=
  (command_total V (ensureMaster_total V) _ _).bind fun _ => .pure _

theorem describe_total (db coll : CString) : Total (describe V db coll) :=
  .get_bind fun _ => (exchange_total V (ready_total V) _ _ _ _).bind fun _ => .pure _

theorem authenticate_total (db user pw : CString) : Total (authenticate V db user pw) := by
  refine (command_total V atOnce_total _ _).bind fun r => ?_
  cases r with
  | none => exact .pure _
  | some r =>
      dsimp only
      cases (r.first.lookup nonceKey).bind Value.asText with
      | none => exact .modify_bind (.pure _)
      | some nonce =>
          refine (command_total V atOnce_total _ _).bind fun r => ?_
          cases r with
          | none => exact .pure _
          | some r => exact .modify_bind (.pure _)

end Dialogue

end LibMongo
