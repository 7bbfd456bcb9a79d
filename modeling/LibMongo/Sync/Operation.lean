import LibMongo.Sync.Reconnect

/-!
# Operations

The operations of `mongo-sync.c` on collections.  They may reconnect, and take
`mongo_sync_reconnect` as an argument (see `Reconnect.lean`).
-/

namespace LibMongo

open Bytes

variable {σ : Type} (N : Net σ) (reconnect : Bool → Program (World σ) Bool)

/-! ## Settings -/

/-- `mongo_sync_conn_set_max_insert_size`, for positive sizes. -/
def mongoSyncConnSetMaxInsertSize (maxSize : Int) : Program (World σ) Bool := do
  if maxSize ≤ 0 then
    setErrno .ERANGE
    return false
  else
    setErrno .ok
    setConn fun c => { c with maxInsertSize := maxSize }
    return true

/-- `mongo_sync_conn_set_safe_mode`. -/
def mongoSyncConnSetSafeMode (safeMode : Bool) : Program (World σ) Bool := do
  setErrno .ok
  setConn fun c => { c with safeMode := safeMode }
  return true

/-- It leaves `errno` alone, unlike the others. -/
def mongoSyncConnSetAutoReconnect (autoReconnect : Bool) : Program (World σ) Bool := do
  setConn fun c => { c with autoReconnect := autoReconnect }
  return true

/-- `mongo_sync_conn_set_slaveok`. -/
def mongoSyncConnSetSlaveok (slaveok : Bool) : Program (World σ) Bool := do
  setErrno .ok
  setConn fun c => { c with slaveok := slaveok }
  return true

/-! ## Writes -/

/-- The end of a write that is verified: the packet is sent and the verdict asked for. -/
def sendAndVerify (p : MongoPacket) (ns : Option CString) : Program (World σ) Bool := do
  let sent ← mongoSyncPacketSend N reconnect p true true
  if sent then mongoSyncCmdVerifyResult N ns
  else return false

/-- The packet of a command, under the next request id. -/
def nextPacket (build : BitVec 32 → Except Errno MongoPacket) :
    Program (World σ) (Option MongoPacket) := do
  let w ← get
  orErrno (build (w.conn.requestId + 1))

/-- `mongo_sync_cmd_update`. -/
def mongoSyncCmdUpdate (ns : Option CString) (flags : BitVec 32) (selector update : Option Bson) :
    Program (World σ) Bool := do
  match ← nextPacket fun rid => mongoWireCmdUpdate N.order rid ns flags selector update with
  | none => return false
  | some p => sendAndVerify N reconnect p ns

/-- `mongo_sync_cmd_delete`, whose result is not asked for in safe mode. -/
def mongoSyncCmdDelete (ns : Option CString) (flags : BitVec 32) (sel : Option Bson) :
    Program (World σ) Bool := do
  match ← nextPacket fun rid => mongoWireCmdDelete N.order rid ns flags sel with
  | none => return false
  | some p => mongoSyncPacketSend N reconnect p true true

/-- The loop that counts the documents of a packet: their number, and whether all are
counted.  `size` is that of the documents counted so far. -/
def countDocuments (maxInsertSize : Int) : Int → List (Option Bson) → Int × Bool
  | _, [] => (0, true)
  | size, b :: docs =>
      if size < maxInsertSize then
        let (c, all) := countDocuments maxInsertSize (size + bsonSize b) docs
        (c + 1, all)
      else (0, false)

/-- The number of documents of the next packet.  The last one counted is one too many,
unless it is the last of all. -/
def batchLength (maxInsertSize : Int) (docs : List (Option Bson)) : Int :=
  let (c, all) := countDocuments maxInsertSize 0 docs
  if all then c else c - 1

/-- One round of the loop: the packet with the first `c` documents. -/
def insertBatch (ns : CString) (c : Int) (docs : List (Option Bson)) : Program (World σ) Bool := do
  match ← nextPacket fun rid => mongoWireCmdInsertN N.order rid (some ns) c (some docs) with
  | none => return false
  | some p =>
      let sent ← mongoSyncPacketSend N reconnect p true true
      if !sent then
        let w ← get
        setLastError N w.errno
        return false
      else mongoSyncCmdVerifyResult N (some ns)

/-- The loop that sends the documents from `&docs[pos]` on.  There are at most as many
packets as documents. -/
def insertLoop (ns : CString) : Nat → List (Option Bson) → Program (World σ) Bool
  | 0, _ => throw .endless
  | fuel + 1, docs => do
      let w ← get
      let c := batchLength w.conn.maxInsertSize docs
      let ok ← insertBatch N reconnect ns c docs
      if !ok then return false
      else
        let rest := docs.drop c.toNat
        if rest = [] then return true
        else insertLoop ns fuel rest

/-- The packet of the next round. -/
def batchPacket (ns : CString) (docs : List (Option Bson)) (w : World σ) : Except Errno MongoPacket :=
  mongoWireCmdInsertN N.order (w.conn.requestId + 1) (some ns)
    (batchLength w.conn.maxInsertSize docs) (some docs)

/-- The documents that a bulk insert has left, and its state, when a round begins. -/
inductive Batches (ns : CString) :
    List (Option Bson) → World σ → List (Option Bson) → World σ → Prop
  | first {docs : List (Option Bson)} {w : World σ} : Batches ns docs w docs w
  | next {docs rest : List (Option Bson)} {w v u : World σ} (c : Int) :
      batchLength w.conn.maxInsertSize docs = c →
      (insertBatch N reconnect ns c docs).exec w = (.ok true, v) →
      docs.drop c.toNat ≠ [] → Batches ns (docs.drop c.toNat) v rest u →
      Batches ns docs w rest u

/-- `n` is the number of pointers in the array. -/
def mongoSyncCmdInsertN (ns : Option CString) (docs : Option (List (Option Bson))) :
    Program (World σ) Bool := do
  match ns, docs with
  | some ns, some docs =>
      if docs.length = 0 then
        setErrno .EINVAL
        return false
      else
        let w ← get
        if docs.any fun b => w.conn.maxInsertSize ≤ bsonSize b then
          setErrno .EMSGSIZE
          return false
        else insertLoop N reconnect ns docs.length docs
  | _, _ =>
      setErrno .EINVAL
      return false

/-- `mongo_sync_cmd_insert`: every document is checked before any is sent. -/
def mongoSyncCmdInsert (ns : Option CString) (docs : List Bson) : Program (World σ) Bool := do
  if ns.isNone ∨ docs.any fun d => bsonSize (some d) < 0 then
    setErrno .EINVAL
    return false
  else mongoSyncCmdInsertN N reconnect ns (some (docs.map some))

/-! ## Queries -/

/-- The end of a query: the packet is sent, and the reply taken if it is no error. -/
def sendAndReceive (p : MongoPacket) (rid flags : BitVec 32) (forceMaster : Bool) :
    Program (World σ) (Option MongoPacket) := do
  let sent ← mongoSyncPacketSend N reconnect p forceMaster true
  if sent then
    let p ← mongoSyncPacketRecv N rid flags
    mongoSyncPacketCheckError p false
  else return none

/-- `mongo_sync_cmd_query`. -/
def mongoSyncCmdQuery (ns : Option CString) (flags skip ret : BitVec 32)
    (query sel : Option Bson) : Program (World σ) (Option MongoPacket) := do
  let verified ← mongoCmdVerifySlaveok N reconnect
  if verified then
    let w ← get
    let rid := w.conn.requestId + 1
    match ← orErrno (mongoWireCmdQuery N.order rid ns (flags ||| slaveFlag w.conn) skip ret
      query sel) with
    | none => return none
    | some p =>
        sendAndReceive N reconnect p rid replyFlagQueryFail
          (!(w.conn.slaveok || flags &&& flagQuerySlaveOk ≠ 0))
  else return none

/-- `mongo_sync_cmd_get_more`. -/
def mongoSyncCmdGetMore (ns : Option CString) (ret : BitVec 32) (cursorId : BitVec 64) :
    Program (World σ) (Option MongoPacket) := do
  let verified ← mongoCmdVerifySlaveok N reconnect
  if verified then
    let w ← get
    let rid := w.conn.requestId + 1
    match ← orErrno (mongoWireCmdGetMore N.order rid ns ret cursorId) with
    | none => return none
    | some p => sendAndReceive N reconnect p rid replyFlagNoCursor false
  else return none

/-- The list holds as many ids as its count says. -/
def mongoSyncCmdKillCursors (cids : List (BitVec 64)) : Program (World σ) Bool := do
  match ← nextPacket fun rid => mongoWireCmdKillCursors N.order rid cids with
  | none => return false
  | some p => mongoSyncPacketSend N reconnect p false true

end LibMongo
