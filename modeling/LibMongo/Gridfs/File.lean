import LibMongo.Base.Interaction
import LibMongo.Sync.Cursor

/-!
# GridFS files

`sync-gridfs.c` and `sync-gridfs-chunk.c`: uploading a file from a buffer, finding it
again, and removing files.

What the functions call on their connection is a `GridCall`, and they are interactions, so
that they can be run on a connection and on a store of documents alike.  A function that
fails gives its `errno`.

A chunk is a document with the id of its file, its number and its bytes, and the metadata
of a file is a document with its id, its length and the size of its chunks.
-/

namespace LibMongo

open Bytes Interaction

/-! ## Calls -/

/-- The collections of a GridFS. -/
inductive Collection where
  | files
  | chunks
deriving DecidableEq

/-- `GTimeVal`, seconds and microseconds. -/
structure GTimeVal where
  tvSec : Int
  tvUsec : Int
deriving DecidableEq

/-- What is called on the connection of a GridFS. -/
inductive GridCall where
  /-- `mongo_util_oid_new`, with the request id of the connection. -/
  | oidNew
  | getCurrentTime
  /-- `mongo_sync_cmd_insert`, with one document. -/
  | insert (coll : Collection) (doc : Option Bson)
  | delete (coll : Collection) (sel : Option Bson)
  /-- `mongo_sync_cmd_query`, without flags and from the first document on. -/
  | query (coll : Collection) (ret : BitVec 32) (query : Option Bson)
  | cursorNew (coll : Collection) (packet : Option MongoPacket)
  | cursorNext (c : MongoSyncCursor)
  | cursorGetData (c : MongoSyncCursor)
  | cursorFree (c : MongoSyncCursor)

/-- What a call returns.  Freeing a cursor asks the server to forget it, which sets
`errno`. -/
abbrev GridCall.Response : GridCall → Type
  | oidNew => Option Oid
  | getCurrentTime => GTimeVal
  | insert _ _ => Except Errno Unit
  | delete _ _ => Except Errno Unit
  | query _ _ _ => Except Errno MongoPacket
  | cursorNew _ _ => Except Errno MongoSyncCursor
  | cursorNext _ => Bool × MongoSyncCursor
  | cursorGetData _ => Option Bson
  | cursorFree _ => Errno

/-- A program that works on a GridFS. -/
abbrev Grid (α : Type) := Interaction GridCall GridCall.Response α

namespace Grid

/-- A new object id. -/
abbrev oidNew : Grid (Option Oid) := perform GridCall.oidNew

/-- The time. -/
abbrev getCurrentTime : Grid GTimeVal := perform GridCall.getCurrentTime

/-- A document is inserted. -/
abbrev insert (coll : Collection) (doc : Option Bson) : Grid (Except Errno Unit) :=
  perform (GridCall.insert coll doc)

/-- The documents that are selected are deleted. -/
abbrev delete (coll : Collection) (sel : Option Bson) : Grid (Except Errno Unit) :=
  perform (GridCall.delete coll sel)

/-- The first reply to a query. -/
abbrev query (coll : Collection) (ret : BitVec 32) (q : Option Bson) :
    Grid (Except Errno MongoPacket) :=
  perform (GridCall.query coll ret q)

/-- A cursor on a reply. -/
abbrev cursorNew (coll : Collection) (packet : Option MongoPacket) :
    Grid (Except Errno MongoSyncCursor) :=
  perform (GridCall.cursorNew coll packet)

/-- The cursor is moved on. -/
abbrev cursorNext (c : MongoSyncCursor) : Grid (Bool × MongoSyncCursor) := perform (GridCall.cursorNext c)

/-- The document at the cursor. -/
abbrev cursorGetData (c : MongoSyncCursor) : Grid (Option Bson) := perform (GridCall.cursorGetData c)

/-- The cursor is freed.  The answer is what that leaves in `errno`. -/
abbrev cursorFree (c : MongoSyncCursor) : Grid Errno := perform (GridCall.cursorFree c)

end Grid

/-- What a call leaves of its result: without one, it is `errno`. -/
def orFailure {σ α : Type} (result : Option α) : Program (World σ) (Except Errno α) := do
  let w ← get
  match result with
  | some a => return .ok a
  | none => return .error w.errno

/-! ## Types -/

/-- `struct _mongo_sync_gridfs`.  The two collections have the prefix in front of their
names. -/
structure MongoSyncGridfs where
  nsPrefix : CString
  chunkSize : Nat
  chunkSize_pos : 0 < chunkSize
  chunkSize_lt : chunkSize < 2147483648
deriving DecidableEq

/-- `mongo_sync_gridfs_set_chunk_size`, for positive sizes. -/
def mongoSyncGridfsSetChunkSize (gfs : MongoSyncGridfs) (chunkSize : BitVec 32) :
    Except Errno MongoSyncGridfs :=
  if h : chunkSize.toInt < 1 then .error .EINVAL
  else .ok
    { gfs with
      chunkSize := chunkSize.toInt.toNat
      chunkSize_pos := by omega
      chunkSize_lt := by
        have := BitVec.toInt_lt (x := chunkSize)
        omega }

/-- `struct _mongo_sync_gridfs_chunked_file`. -/
structure MongoSyncGridfsChunkedFile where
  gfs : MongoSyncGridfs
  chunkSize : Int
  length : Int
  oid : Option Oid
  md5 : Option CString
  date : BitVec 64
  metadata : Option Bson

/-- A checksum of GLib: the bytes it was fed.  Once its string was asked for it takes no
more. -/
structure GChecksum where
  fed : Bytes
  closed : Bool
deriving DecidableEq

/-- `g_checksum_new`: nothing was fed. -/
def gChecksumNew : GChecksum := ⟨[], false⟩

/-- `g_checksum_update`, which a sum that was read ignores. -/
def gChecksumUpdate (chk : GChecksum) (data : Bytes) : GChecksum :=
  if chk.closed then chk else { chk with fed := chk.fed ++ data }

/-- The string, and the checksum as the call leaves it. -/
def gChecksumGetString (md5 : Bytes → CString) (chk : GChecksum) : CString × GChecksum :=
  (md5 chk.fed, { chk with closed := true })

/-! ## Documents -/

/-- `_id`, the id of a file in its metadata. -/
def idKey : CString := .ascii ['_', 'i', 'd']

/-- `length`, the number of bytes of a file. -/
def lengthKey : CString := .ascii ['l', 'e', 'n', 'g', 't', 'h']

/-- `chunkSize`, the number of bytes of a chunk that is not the last one. -/
def chunkSizeKey : CString := .ascii ['c', 'h', 'u', 'n', 'k', 'S', 'i', 'z', 'e']

/-- `uploadDate`. -/
def uploadDateKey : CString := .ascii ['u', 'p', 'l', 'o', 'a', 'd', 'D', 'a', 't', 'e']

/-- `md5`, the checksum of the bytes. -/
def md5Key : CString := .ascii ['m', 'd', '5']

/-- `files_id`, the id of the file in a chunk. -/
def filesIdKey : CString := .ascii ['f', 'i', 'l', 'e', 's', '_', 'i', 'd']

/-- `n`, the number of a chunk. -/
def nKey : CString := .ascii ['n']

/-- `data`, the bytes of a chunk. -/
def dataKey : CString := .ascii ['d', 'a', 't', 'a']

/-- `BSON_BINARY_SUBTYPE_GENERIC`. -/
def subtypeGeneric : UInt8 := 0x00

/-- `BSON_BINARY_SUBTYPE_BINARY`. -/
def subtypeBinary : UInt8 := 0x02

/-- The document of a chunk. -/
def chunkBson (oid : Oid) (n : Nat) (data : Bytes) : Option Bson :=
  let b := some (bsonNewSized (data.length + 128))
  let b := (bsonAppendOid b (some filesIdKey) (some oid)).2
  let b := (bsonAppendInt64 b (some nKey) (BitVec.ofNat 64 n)).2
  let b := (bsonAppendBinary b (some dataKey) subtypeGeneric (some data) data.length).2
  (bsonFinish b).2

/-- The query for what has this id under this key. -/
def oidQuery (key : CString) (oid : Oid) : Option Bson :=
  (bsonFinish (bsonAppendOid (some bsonNew) (some key) (some oid)).2).2

/-- An open copy of a document. -/
def reopen (b : Option Bson) : Except Halt (Option Bson) :=
  bsonNewFromData (bsonData b) (bsonSize b - 1)

/-- The date in milliseconds. -/
def GTimeVal.date (tv : GTimeVal) : BitVec 64 :=
  BitVec.ofInt 64 (tv.tvSec * 1000 + tv.tvUsec.tdiv 1000)

/-- The first document of a packet, finished.  Without one it is `NULL`. -/
def firstDocument (p : Option MongoPacket) : Except Halt (Option Bson) := do
  match ← mongoWireReplyPacketGetNthDocument p 1 with
  | .error _ => return none
  | .ok doc => return (bsonFinish doc).2

/-! ## Uploading -/

/-- The loop that inserts the chunks: `rest` are the bytes from `pos` on, and `n` is the
number of the next chunk. -/
def insertChunks (gfs : MongoSyncGridfs) (oid : Oid) :
    Nat → Nat → Bytes → GChecksum → Grid (Except Errno GChecksum)
  | 0, _, _, _ => .halt .endless
  | fuel + 1, n, rest, chk =>
      if rest = [] then return .ok chk
      else do
        let csize := if rest.length < gfs.chunkSize then rest.length else gfs.chunkSize
        let chk := gChecksumUpdate chk (rest.take csize)
        match ← Grid.insert .chunks (chunkBson oid n (rest.take csize)) with
        | .error e => return .error e
        | .ok () => insertChunks gfs oid fuel (n + 1) (rest.drop csize) chk

/-- What an upload adds to the metadata. -/
def uploadMeta (md5 : Bytes → CString) (gfs : MongoSyncGridfs) (oid : Oid) (size : Nat)
    (tv : GTimeVal) (chk : GChecksum) (b : Option Bson) : Option Bson :=
  let b := (bsonAppendInt64 b (some lengthKey) (BitVec.ofNat 64 size)).2
  let b := (bsonAppendInt32 b (some chunkSizeKey) (BitVec.ofNat 32 gfs.chunkSize)).2
  let b := (bsonAppendUtcDatetime b (some uploadDateKey) tv.date).2
  let b := (bsonAppendString b (some md5Key) (some (gChecksumGetString md5 chk).1.image) (-1)).2
  let b := (bsonAppendOid b (some idKey) (some oid)).2
  (bsonFinish b).2

/-- `data` is a block of `size` bytes. -/
def mongoSyncGridfsChunkedFileNewFromBuffer (md5 : Bytes → CString) (gfs : MongoSyncGridfs)
    (metadata : Option Bson) (data : Option Bytes) :
    Grid (Except Errno MongoSyncGridfsChunkedFile) :=
  match data with
  | none => return .error .EINVAL
  | some data =>
      if data = [] then return .error .EINVAL
      else do
        match ← Grid.oidNew with
        | none => return .error .EFAULT
        | some oid =>
            match ← insertChunks gfs oid (data.length + 1) 0 data gChecksumNew with
            | .error e => return .error e
            | .ok chk =>
                let front ← (match metadata with
                  | some m => ofExcept (reopen (some m))
                  | none => return some (bsonNewSized 128))
                let tv ← Grid.getCurrentTime
                let b := uploadMeta md5 gfs oid data.length tv chk front
                match ← Grid.insert .files b with
                | .error e => return .error e
                | .ok () =>
                    let c ← ofExcept (bsonFind b (some idKey))
                    let id ← ofExcept (bsonCursorGetOid c)
                    let (_, c) ← ofExcept (bsonCursorFind c (some md5Key))
                    let sum ← ofExcept (bsonCursorGetString c)
                    return .ok ⟨gfs, gfs.chunkSize, data.length, id, sum, 0, b⟩

/-! ## Finding -/

/-- The length of a file, from a cursor that may stand on it: an `int64`, or an `int32` if
that gives nothing. -/
def cursorLength (c : Option BsonCursor) : Except Halt Int := do
  let long ← bsonCursorGetInt64 c
  let length := (long.map BitVec.toInt).getD 0
  if length = 0 then
    let short ← bsonCursorGetInt32 c
    return (short.map BitVec.toInt).getD 0
  else return length

/-- The length and the size of the chunks, and where the cursor is left. -/
def findSizes (c : Option BsonCursor) : Except Halt (Int × Int × Option BsonCursor) := do
  let (_, c) ← bsonCursorFind c (some lengthKey)
  let length ← cursorLength c
  let (_, c) ← bsonCursorFind c (some chunkSizeKey)
  let size ← bsonCursorGetInt32 c
  return (length, (size.map BitVec.toInt).getD 0, c)

/-- What `mongo_sync_gridfs_chunked_find` makes of the metadata. -/
def chunkedFile (gfs : MongoSyncGridfs) (b : Option Bson) :
    Except Halt (Except Errno MongoSyncGridfsChunkedFile) := do
  let c ← bsonFind b (some idKey)
  match ← bsonCursorGetOid c with
  | none => return .error .EPROTO
  | some oid =>
      let (length, chunkSize, c) ← findSizes c
      if length = 0 ∨ chunkSize = 0 then return .error .EPROTO
      else
        let (_, c) ← bsonCursorFind c (some uploadDateKey)
        match ← bsonCursorGetUtcDatetime c with
        | none => return .error .EPROTO
        | some date =>
            let (_, c) ← bsonCursorFind c (some md5Key)
            match ← bsonCursorGetString c with
            | none => return .error .EPROTO
            | some md5 => return .ok ⟨gfs, chunkSize, length, some oid, some md5, date, b⟩

/-- `mongo_sync_gridfs_chunked_find`: the first file that the query finds. -/
def mongoSyncGridfsChunkedFind (gfs : MongoSyncGridfs) (query : Option Bson) :
    Grid (Except Errno MongoSyncGridfsChunkedFile) := do
  if query.isNone then return .error .EINVAL
  else
    match ← Grid.query .files 1 query with
    | .error e => return .error e
    | .ok p =>
        let b ← ofExcept (firstDocument (some p))
        ofExcept (chunkedFile gfs b)

/-! ## Removing -/

/-- Without a query it lists all files. -/
def mongoSyncGridfsList (query : Option Bson) : Grid (Except Errno MongoSyncCursor) := do
  let q := if query.isSome then query else (bsonFinish (some bsonNew)).2
  match ← Grid.query .files 0 q with
  | .error _ => Grid.cursorNew .files none
  | .ok p => Grid.cursorNew .files (some p)

/-- The loop that removes the files under a cursor, for as many files as the fuel says.
First the metadata is deleted, then the chunks, which need not be there. -/
def removeLoop : Nat → MongoSyncCursor → Grid (Except Errno Unit)
  | 0, _ => .halt .endless
  | fuel + 1, fc => do
      let (found, fc) ← Grid.cursorNext fc
      if !found then
        let _ ← Grid.cursorFree fc
        return .ok ()
      else
        let b ← Grid.cursorGetData fc
        let c ← ofExcept (bsonFind b (some idKey))
        match ← ofExcept (bsonCursorGetOid c) with
        | none =>
            let _ ← Grid.cursorFree fc
            return .error .EPROTO
        | some oid =>
            match ← Grid.delete .files (oidQuery idKey oid) with
            | .error _ =>
                let e ← Grid.cursorFree fc
                return .error e
            | .ok () =>
                let _ ← Grid.delete .chunks (oidQuery filesIdKey oid)
                removeLoop fuel fc

/-- `mongo_sync_gridfs_remove`: every file that the query finds is removed. -/
def mongoSyncGridfsRemove (fuel : Nat) (query : Option Bson) : Grid (Except Errno Unit) := do
  match ← mongoSyncGridfsList query with
  | .error e => return .error (if e = .ENOTCONN then .ENOTCONN else .ENOENT)
  | .ok fc => removeLoop fuel fc

end LibMongo
