import LibMongo.Net.Client

/-!
# Commands

`mongo-sync.c` up to the commands that only use the socket a connection has:
sending a packet, receiving the reply to it, looking for an error in the reply,
and the commands `ping`, `ismaster` and `getlasterror`.

The functions of the source call each other in a circle.  Sending a packet may
reconnect, reconnecting asks the new node whether it is a master, and asking
sends a packet.  `mongoSyncPacketSendWith` takes the two functions that close
the circle as arguments.  A command sent with neither flag set uses neither
(`mongoSyncPacketSendWith_bare`), so `mongoSyncCmdIsMaster` and its like are
defined without them.
-/

namespace LibMongo

open Bytes

variable {σ : Type} (N : Net σ)

/-! ## Sending -/

section Sending

variable (ensureConn reconnect : Bool → Program (World σ) Bool)

/-- One round of the loop that sends a packet.  `out` says whether it has reconnected
before, and `again` is the next round. -/
def sendRound (p : MongoPacket) (forceMaster autoReconnect out : Bool)
    (again : Program (World σ) Bool) : Program (World σ) Bool := do
  let sent ← mongoPacketSend N p
  if sent then return true
  else
    let w ← get
    if !autoReconnect || !w.conn.autoReconnect || out then
      setErrno w.errno
      return false
    else
      let connected ← reconnect forceMaster
      if connected then again
      else
        setErrno w.errno
        return false

/-- The loop ends with its second round. -/
def sendLoop (p : MongoPacket) (forceMaster autoReconnect : Bool) : Program (World σ) Bool :=
  sendRound N reconnect p forceMaster autoReconnect false
    (sendRound N reconnect p forceMaster autoReconnect true (return false))

/-- `_mongo_sync_packet_send`. -/
def mongoSyncPacketSendWith (p : MongoPacket) (forceMaster autoReconnect : Bool) :
    Program (World σ) Bool := do
  let ready ← (if forceMaster then ensureConn forceMaster else pure true)
  if ready then sendLoop N reconnect p forceMaster autoReconnect
  else return false

end Sending

/-! ## Receiving -/

/-- `MONGO_REPLY_FLAG_NO_CURSOR`. -/
def replyFlagNoCursor : BitVec 32 := 0x1

/-- `MONGO_REPLY_FLAG_QUERY_FAIL`. -/
def replyFlagQueryFail : BitVec 32 := 0x2

/-- `_mongo_sync_packet_recv`. -/
def mongoSyncPacketRecv (rid flags : BitVec 32) : Program (World σ) (Option MongoPacket) := do
  match ← mongoPacketRecv N with
  | none => return none
  | some p =>
      let h := mongoWirePacketGetHeaderRaw p
      if h.respTo ≠ rid then
        setErrno .EPROTO
        return none
      else
        match ← readOrErrno (mongoWireReplyPacketGetHeader (some p)) with
        | none => return none
        | some rh =>
            if rh.flags &&& flags ≠ 0 then
              setErrno .EPROTO
              return none
            else if rh.returned = 0 then
              setErrno .ENOENT
              return none
            else return some p

/-! ## Errors in a reply -/

/-- `ok`, whether a reply reports that the command succeeded. -/
def okKey : CString := .ascii ['o', 'k']

/-- `err`, the error that `getlasterror` reports. -/
def errKey : CString := .ascii ['e', 'r', 'r']

/-- `errmsg`, why a command failed. -/
def errmsgKey : CString := .ascii ['e', 'r', 'r', 'm', 's', 'g']

/-- The bits of the double 1. -/
def doubleOne : GDouble := 0x3ff0000000000000

/-- The verdict and the `errno` of `_mongo_sync_check_ok`. -/
def mongoSyncCheckOk (b : Option Bson) : Except Halt (Bool × Errno) := do
  match ← bsonFind b (some okKey) with
  | none => return (false, .ENOENT)
  | some c =>
      match ← bsonCursorGetDouble (some c) with
      | none => return (false, .EINVAL)
      | some d => return (d = doubleOne, if d = doubleOne then .ok else .EPROTO)

/-- Where `_mongo_sync_get_error` finds an error. -/
def findError (rep : Option Bson) : Except Halt (Option BsonCursor) := do
  match ← bsonFind rep (some errKey) with
  | some c => return some c
  | none => bsonFind rep (some errmsgKey)

/-- `_mongo_sync_get_error`: the error it stores, `NULL` for one that says there is
none. -/
def mongoSyncGetError (rep : Option Bson) : Except Halt (Except Errno (Option CString)) := do
  match ← findError rep with
  | none => return .error .EPROTO
  | some c =>
      match ← bsonCursorType (some c) with
      | .none | .null => return .ok none
      | .string =>
          let err ← bsonCursorGetString (some c)
          return .ok err
      | _ => return .error .EPROTO

/-- `_mongo_sync_packet_check_error`. -/
def mongoSyncPacketCheckError (p : Option MongoPacket) (checkOk : Bool) :
    Program (World σ) (Option MongoPacket) := do
  match p with
  | none => return none
  | some p =>
      match ← readOrErrno (mongoWireReplyPacketGetNthDocument (some p) 1) with
      | none =>
          setErrno .EPROTO
          return none
      | some b =>
          let b := (bsonFinish b).2
          if checkOk then
            let (ok, e) ← Program.ofExcept (mongoSyncCheckOk b)
            if ok then
              setErrno e
              return some p
            else
              setConn fun c => { c with lastError := none }
              match ← readOrErrno (mongoSyncGetError b) with
              | none =>
                  setErrno e
                  return none
              | some err =>
                  setConn fun c => { c with lastError := err }
                  setErrno e
                  return none
          else
            setConn fun c => { c with lastError := none }
            match ← readOrErrno (mongoSyncGetError b) with
            | none => return some p
            | some err =>
                setConn fun c => { c with lastError := err }
                return none

/-! ## Commands to a database -/

/-- The flag that lets a slave answer, `MONGO_WIRE_FLAG_QUERY_SLAVE_OK`. -/
def flagQuerySlaveOk : BitVec 32 := 4

/-- `_SLAVE_FLAG`. -/
def slaveFlag (c : MongoSyncConnection) : BitVec 32 := if c.slaveok then flagQuerySlaveOk else 0

/-- `_mongo_sync_cmd_custom`. -/
def mongoSyncCmdCustomWith (ensureConn reconnect : Bool → Program (World σ) Bool)
    (db : Option CString) (command : Option Bson) (checkConn forceMaster : Bool) :
    Program (World σ) (Option MongoPacket) := do
  let w ← get
  let rid := w.conn.requestId + 1
  match ← orErrno (mongoWireCmdCustom N.order rid db (slaveFlag w.conn) command) with
  | none => return none
  | some p =>
      let sent ← mongoSyncPacketSendWith N ensureConn reconnect p forceMaster checkConn
      if sent then
        let p ← mongoSyncPacketRecv N rid replyFlagQueryFail
        mongoSyncPacketCheckError p true
      else return none

/-- A call the source has and never reaches. -/
def unreached (_ : Bool) : Program (World σ) Bool := throw .endless

/-- A command on the socket the connection has. -/
def mongoSyncCmdCustomBare (db : Option CString) (command : Option Bson) :
    Program (World σ) (Option MongoPacket) :=
  mongoSyncCmdCustomWith N unreached unreached db command false false

/-- The command document with a single integer 1. -/
def commandOne (name : CString) : Option Bson :=
  (bsonFinish (bsonAppendInt32 (some (bsonNewSized 32)) (some name) 1).2).2

/-- `system`, the database that the commands of a connection are sent to. -/
def systemDb : CString := .ascii ['s', 'y', 's', 't', 'e', 'm']

/-- `ping`. -/
def pingKey : CString := .ascii ['p', 'i', 'n', 'g']

/-- `ismaster`, the command and the field of its reply. -/
def ismasterKey : CString := .ascii ['i', 's', 'm', 'a', 's', 't', 'e', 'r']

/-- `primary`, the address of the master that a node knows. -/
def primaryKey : CString := .ascii ['p', 'r', 'i', 'm', 'a', 'r', 'y']

/-- `hosts`, the addresses of the members. -/
def hostsKey : CString := .ascii ['h', 'o', 's', 't', 's']

/-- `passives`, the addresses of members that never become masters. -/
def passivesKey : CString := .ascii ['p', 'a', 's', 's', 'i', 'v', 'e', 's']

/-- `getlasterror`. -/
def getlasterrorKey : CString :=
  .ascii ['g', 'e', 't', 'l', 'a', 's', 't', 'e', 'r', 'r', 'o', 'r']

/-- `reseterror`. -/
def reseterrorKey : CString := .ascii ['r', 'e', 's', 'e', 't', 'e', 'r', 'r', 'o', 'r']

/-- `mongo_sync_cmd_ping`: any reply without an error will do. -/
def mongoSyncCmdPing : Program (World σ) Bool := do
  match ← mongoSyncCmdCustomBare N (some systemDb) (commandOne pingKey) with
  | none => return false
  | some _ =>
      setErrno .ok
      let w ← get
      emit (.ping w.conn.fd)
      return true

/-- The loop that collects the strings of an array.  A cursor has a position in the
object, so after as many rounds as it has bytes the loop is endless. -/
def collectStrings : Nat → Option BsonCursor → Except Halt (List CString)
  | 0, _ => .error .endless
  | fuel + 1, c => do
      let (more, c) ← bsonCursorNext c
      if more then
        let s ← bsonCursorGetString c
        let rest ← collectStrings fuel c
        return s.toList ++ rest
      else return []

/-- The strings of an array. -/
def arrayStrings (array : Bson) : Except Halt (List CString) :=
  let array := (bsonFinish (some array)).2
  collectStrings ((array.map fun b => b.data.length).getD 0 + 1) (bsonCursorNew array)

/-- The primary `mongo_sync_cmd_is_master` finds in a reply, for which it only looks in
that of a node that is no master. -/
def replyPrimary (res : Option Bson) (b : BitVec 32) : Except Halt (Option CString) := do
  if b = 0 then bsonCursorGetString (← bsonFind res (some primaryKey))
  else return none

/-- The addresses `mongo_sync_cmd_is_master` finds in a reply, if it names hosts. -/
def replyHosts (res : Option Bson) : Except Halt (Option (List CString)) := do
  match ← bsonFind res (some hostsKey) with
  | none => return none
  | some c =>
      match ← bsonCursorGetArray (some c) with
      | none => return none
      | some hosts =>
          let members ← arrayStrings hosts
          match ← bsonCursorGetArray (← bsonFind res (some passivesKey)) with
          | none => return some members
          | some passives =>
              let more ← arrayStrings passives
              return some (members ++ more)

/-- What `mongo_sync_cmd_is_master` stores. -/
def storeReplicaSet (primary : Option CString) (hosts : Option (List CString)) :
    Program (World σ) Unit :=
  setConn fun c =>
    { c with
      rs := { c.rs with primary := primary.or c.rs.primary, hosts := hosts.getD c.rs.hosts } }

/-- `mongo_sync_cmd_is_master`, which also takes over the primary and the hosts that the
reply names. -/
def mongoSyncCmdIsMaster : Program (World σ) Bool := do
  match ← mongoSyncCmdCustomBare N (some systemDb) (commandOne ismasterKey) with
  | none => return false
  | some p =>
      match ← readOrErrno (mongoWireReplyPacketGetNthDocument (some p) 1) with
      | none => return false
      | some res =>
          let res := (bsonFinish res).2
          let ismaster ← Program.ofExcept do
            bsonCursorGetBoolean (← bsonFind res (some ismasterKey))
          match ismaster with
          | none =>
              setErrno .EPROTO
              return false
          | some b =>
              let primary ← Program.ofExcept (replyPrimary res b)
              let hosts ← Program.ofExcept (replyHosts res)
              storeReplicaSet primary hosts
              setErrno .ok
              if b = 0 then return false
              else
                let w ← get
                emit (.isMaster w.conn.fd)
                return true

/-! ## The last error -/

/-- `_set_last_error`. -/
def setLastError (e : Errno) : Program (World σ) Unit :=
  setConn fun c => { c with lastError := some (N.strerror e) }

/-- The document it stores, if it returns `TRUE`. -/
def mongoSyncCmdGetLastErrorFull (db : Option CString) :
    Program (World σ) (Option (Option Bson)) := do
  match ← mongoSyncCmdCustomBare N db (commandOne getlasterrorKey) with
  | none =>
      let w ← get
      setLastError N w.errno
      return none
  | some p =>
      match ← readOrErrno (mongoWireReplyPacketGetNthDocument (some p) 1) with
      | none =>
          let w ← get
          setLastError N w.errno
          return none
      | some error => return some (bsonFinish error).2

/-- The error it stores, if it returns `TRUE`. -/
def mongoSyncCmdGetLastError (db : Option CString) :
    Program (World σ) (Option (Option CString)) := do
  match ← mongoSyncCmdGetLastErrorFull N db with
  | none => return none
  | some errBson =>
      match ← readOrErrno (mongoSyncGetError errBson) with
      | none =>
          let w ← get
          setLastError N w.errno
          return none
      | some none =>
          let w ← get
          return some w.conn.lastError
      | some (some error) =>
          setConn fun c => { c with lastError := some error }
          return some (some error)

/-- `mongo_sync_cmd_reset_error`.  The remembered error is dropped before the server is asked. -/
def mongoSyncCmdResetError (db : Option CString) : Program (World σ) Bool := do
  setConn fun c => { c with lastError := none }
  match ← mongoSyncCmdCustomBare N db (commandOne reseterrorKey) with
  | none => return false
  | some _ => return true

/-- The part of a namespace in front of its first dot. -/
def nsDb (ns : CString) : CString := CString.ofBytes (ns.bytes.takeWhile (· ≠ 46))

/-- `_mongo_sync_cmd_verify_result`. -/
def mongoSyncCmdVerifyResult (ns : Option CString) : Program (World σ) Bool := do
  match ns with
  | none => return false
  | some ns =>
      let w ← get
      if !w.conn.safeMode then return true
      else
        match ← mongoSyncCmdGetLastError N (some (nsDb ns)) with
        | none => return false
        | some error => return error.isNone

/-! ## Sending with neither flag -/

/-- Without the flags sending a packet is one attempt on the socket. -/
theorem mongoSyncPacketSendWith_bare (ensureConn reconnect : Bool → Program (World σ) Bool)
    (p : MongoPacket) :
    mongoSyncPacketSendWith N ensureConn reconnect p false false
      = mongoSyncPacketSendWith N unreached unreached p false false := rfl

theorem mongoSyncCmdCustomWith_bare (ensureConn reconnect : Bool → Program (World σ) Bool)
    (db : Option CString) (command : Option Bson) :
    mongoSyncCmdCustomWith N ensureConn reconnect db command false false
      = mongoSyncCmdCustomBare N db command := rfl

end LibMongo
