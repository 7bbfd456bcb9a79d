import LibMongo.Gridfs.File

/-!
# GridFS streams

`sync-gridfs-stream.c`.  A stream is a reader or a writer, and a function called on the
other kind fails.  Each function returns its result and the stream as it leaves it.

* A writer collects bytes in a buffer of the size of a chunk, and inserts the buffer when
  it is full.  Closing inserts what is left in the buffer and then the metadata.
* A reader holds one chunk and loads the next one as soon as a chunk is used up.
-/

namespace LibMongo

open Bytes Interaction

/-! ## Types -/

/-- A stream of the type `LMC_GRIDFS_FILE_STREAM_WRITER`.  The buffer is given by the bytes
before `buffer_offset`. -/
structure GridfsWriter where
  gfs : MongoSyncGridfs
  chunkSize : Nat
  length : Nat
  offset : Nat
  currentChunk : Nat
  id : Oid
  metadata : Option Bson
  buffer : Bytes
  checksum : GChecksum
deriving DecidableEq

/-- A stream of the type `LMC_GRIDFS_FILE_STREAM_READER`. -/
structure GridfsReader where
  gfs : MongoSyncGridfs
  chunkSize : Int
  length : Int
  offset : Int
  currentChunk : Int
  id : Oid
  bson : Option Bson
  /-- The block behind `chunk.data`. -/
  data : Option Bytes
  startOffset : Int
  size : Int
  chunkOffset : Int
deriving DecidableEq

/-- `struct _mongo_sync_gridfs_stream`. -/
inductive MongoSyncGridfsStream where
  | reader (r : GridfsReader)
  | writer (w : GridfsWriter)
deriving DecidableEq

/-! ## Writing -/

/-- The id of the new file: that of the metadata, or a new one, which is appended to the
copy of the metadata. -/
def streamId (metadata copy : Option Bson) : Grid (Except Errno (Oid × Option Bson)) := do
  match ← ofExcept (bsonFind metadata (some idKey)) with
  | none =>
      match ← Grid.oidNew with
      | none => return .error .EFAULT
      | some oid => return .ok (oid, (bsonAppendOid copy (some idKey) (some oid)).2)
  | some c =>
      match ← ofExcept (bsonCursorGetOid (some c)) with
      | none => return .error .EPROTO
      | some oid => return .ok (oid, copy)

/-- `mongo_sync_gridfs_stream_new`: a copy of the metadata, with an id of its own if it has none. -/
def mongoSyncGridfsStreamNew (gfs : MongoSyncGridfs) (metadata : Option Bson) :
    Grid (Except Errno MongoSyncGridfsStream) := do
  let copy ← ofExcept (reopen metadata)
  match ← streamId metadata copy with
  | .error e => return .error e
  | .ok (id, copy) =>
      return .ok (.writer
        { gfs := gfs
          chunkSize := gfs.chunkSize
          length := 0
          offset := 0
          currentChunk := 0
          id := id
          metadata := (bsonFinish copy).2
          buffer := []
          checksum := gChecksumNew })

/-- `_stream_chunk_write`. -/
def streamChunkWrite (oid : Oid) (n : Nat) (buffer : Bytes) : Grid (Except Errno Unit) :=
  Grid.insert .chunks (chunkBson oid n buffer)

/-- The bytes of a round of the loop: what fits into the buffer. -/
def GridfsWriter.room (w : GridfsWriter) (rest : Bytes) : Nat :=
  if rest.length < w.chunkSize - w.buffer.length then rest.length
  else w.chunkSize - w.buffer.length

/-- The writer with bytes copied into its buffer. -/
def GridfsWriter.take (w : GridfsWriter) (bytes : Bytes) : GridfsWriter :=
  { w with
    buffer := w.buffer ++ bytes
    offset := w.offset + bytes.length
    length := w.length + bytes.length }

/-- The writer after its buffer was inserted. -/
def GridfsWriter.flushed (w : GridfsWriter) : GridfsWriter :=
  { w with
    checksum := gChecksumUpdate w.checksum w.buffer
    buffer := []
    currentChunk := w.currentChunk + 1 }

/-- The loop that fills and inserts the buffer.  `rest` are the bytes from `pos` on.  Every
round but the first takes a byte at least. -/
def writeLoop : Nat → GridfsWriter → Bytes → Grid (Except Errno Unit × GridfsWriter)
  | 0, _, _ => .halt .endless
  | fuel + 1, w, rest =>
      if rest = [] then return (.ok (), w)
      else do
        let csize := w.room rest
        let w := w.take (rest.take csize)
        if w.buffer.length = w.chunkSize then
          match ← streamChunkWrite w.id w.currentChunk w.buffer with
          | .error e => return (.error e, w)
          | .ok () => writeLoop fuel w.flushed (rest.drop csize)
        else writeLoop fuel w (rest.drop csize)

/-- `buffer` is a block of `size` bytes. -/
def mongoSyncGridfsStreamWrite (stream : MongoSyncGridfsStream) (buffer : Option Bytes) :
    Grid (Except Errno Unit × MongoSyncGridfsStream) :=
  match stream with
  | .reader r => return (.error .EOPNOTSUPP, .reader r)
  | .writer w =>
      match buffer with
      | none => return (.error .EINVAL, .writer w)
      | some data =>
          if data = [] then return (.error .EINVAL, .writer w)
          else do
            let (result, w) ← writeLoop (data.length + 2) w data
            return (result, .writer w)

/-- What closing adds to the metadata. -/
def closeMeta (md5 : Bytes → CString) (w : GridfsWriter) (tv : GTimeVal) (b : Option Bson) :
    Option Bson :=
  let b := (bsonAppendInt64 b (some lengthKey) (BitVec.ofNat 64 w.length)).2
  let b := (bsonAppendInt32 b (some chunkSizeKey) (BitVec.ofNat 32 w.chunkSize)).2
  let b := (bsonAppendUtcDatetime b (some uploadDateKey) tv.date).2
  let b := if w.length ≠ 0 then
      (bsonAppendString b (some md5Key) (some (gChecksumGetString md5 w.checksum).1.image) (-1)).2
    else b
  (bsonFinish b).2

/-- What is left in the buffer is inserted: whether it was, and the writer. -/
def closeFlush (w : GridfsWriter) : Grid (Bool × GridfsWriter) := do
  if w.buffer = [] then return (false, w)
  else
    match ← streamChunkWrite w.id w.currentChunk w.buffer with
    | .error _ => return (false, w)
    | .ok () => return (true, { w with checksum := gChecksumUpdate w.checksum w.buffer })

/-- The writer that is left, if it is not freed. -/
def closeWriter (md5 : Bytes → CString) (w : GridfsWriter) :
    Grid (Except Errno Unit × Option GridfsWriter) := do
  let (closed, w) ← closeFlush w
  if closed then
    let tv ← Grid.getCurrentTime
    let front ← ofExcept (reopen w.metadata)
    match ← Grid.insert .files (closeMeta md5 w tv front) with
    | .error e =>
        let checksum := if w.length ≠ 0 then (gChecksumGetString md5 w.checksum).2 else w.checksum
        return (.error e, some { w with checksum := checksum })
    | .ok () => return (.ok (), none)
  else return (.ok (), none)

/-- The stream that is left, if it is not freed. -/
def mongoSyncGridfsStreamClose (md5 : Bytes → CString) (stream : MongoSyncGridfsStream) :
    Grid (Except Errno Unit × Option MongoSyncGridfsStream) := do
  match stream with
  | .reader _ => return (.ok (), none)
  | .writer w =>
      let (result, w) ← closeWriter md5 w
      return (result, w.map .writer)

/-! ## Reading -/

/-- What `mongo_sync_gridfs_stream_find` makes of the metadata. -/
def streamReader (gfs : MongoSyncGridfs) (b : Option Bson) :
    Except Halt (Except Errno MongoSyncGridfsStream) := do
  let c ← bsonFind b (some idKey)
  match ← bsonCursorGetOid c with
  | none => return .error .EPROTO
  | some oid =>
      let (length, chunkSize, _) ← findSizes c
      if length = 0 ∨ chunkSize = 0 then return .error .EPROTO
      else
        return .ok (.reader
          { gfs := gfs
            chunkSize := chunkSize
            length := length
            offset := 0
            currentChunk := 0
            id := oid
            bson := none
            data := none
            startOffset := 0
            size := 0
            chunkOffset := 0 })

/-- `mongo_sync_gridfs_stream_find`: a reader of the first file that the query finds. -/
def mongoSyncGridfsStreamFind (gfs : MongoSyncGridfs) (query : Option Bson) :
    Grid (Except Errno MongoSyncGridfsStream) := do
  if query.isNone then return .error .EINVAL
  else
    match ← Grid.query .files 1 query with
    | .error e => return .error e
    | .ok p =>
        let b ← ofExcept (firstDocument (some p))
        ofExcept (streamReader gfs b)

/-- The query for a chunk. -/
def chunkQuery (oid : Oid) (chunk : Int) : Option Bson :=
  let b := some (bsonNewSized 32)
  let b := (bsonAppendOid b (some filesIdKey) (some oid)).2
  let b := (bsonAppendInt64 b (some nKey) (BitVec.ofInt 64 chunk)).2
  (bsonFinish b).2

/-- The reader with the chunk of this document, which need not be one. -/
def GridfsReader.load (r : GridfsReader) (b : Option Bson) :
    Except Halt (Except Errno Unit × GridfsReader) := do
  let c ← bsonFind b (some dataKey)
  match ← bsonCursorGetBinary c with
  | none => return (.error .EPROTO, { r with bson := none, data := none })
  | some bin =>
      if bin.subtype = subtypeGeneric then
        return (.ok (),
          { r with
            bson := b
            data := some bin.data
            size := bin.size
            chunkOffset := 0 })
      else if bin.subtype = subtypeBinary then
        return (.ok (),
          { r with
            bson := b
            data := some bin.data
            startOffset := 4
            size := bin.size - 4
            chunkOffset := 0 })
      else return (.error .EPROTO, { r with bson := none, data := none, size := bin.size })

/-- `_stream_seek_chunk`. -/
def streamSeekChunk (r : GridfsReader) (chunk : Int) :
    Grid (Except Errno Unit × GridfsReader) := do
  match ← Grid.query .chunks 1 (chunkQuery r.id chunk) with
  | .error _ =>
      let b ← ofExcept (firstDocument none)
      ofExcept (r.load b)
  | .ok p =>
      let b ← ofExcept (firstDocument (some p))
      ofExcept (r.load b)

/-- The bytes of a `memcpy`, whose size is a `size_t`. -/
def memcpyFrom (data : Option Bytes) (start size : Int) : Except Halt Bytes :=
  match data with
  | none => .error .outside
  | some data =>
      if start < 0 ∨ size < 0 then .error .outside else load (data.drop start.toNat) size.toNat

/-- The reader after it has read so many bytes of its chunk. -/
def GridfsReader.advance (r : GridfsReader) (csize : Int) : GridfsReader :=
  { r with chunkOffset := r.chunkOffset + csize, offset := r.offset + csize }

/-- The loop that reads, for as many rounds as the fuel says.  `rest` is the number of bytes
that are still wanted and `done` is what was read. -/
def readLoop : Nat → GridfsReader → Int → Bytes → Grid (Except Errno Bytes × GridfsReader)
  | 0, _, _, _ => .halt .endless
  | fuel + 1, r, rest, done =>
      if 0 < rest ∧ r.offset + r.startOffset < r.length then do
        let left := r.size - r.chunkOffset
        let csize := if rest < left then rest else left
        let bytes ← ofExcept (memcpyFrom r.data (r.startOffset + r.chunkOffset) csize)
        let r := r.advance csize
        if r.size ≤ r.chunkOffset + r.startOffset ∧ r.offset + r.startOffset < r.length then
          let r := { r with currentChunk := r.currentChunk + 1 }
          match ← streamSeekChunk r r.currentChunk with
          | (.error e, r) => return (.error e, r)
          | (.ok (), r) => readLoop fuel r (rest - csize) (done ++ bytes)
        else readLoop fuel r (rest - csize) (done ++ bytes)
      else return (.ok done, r)

/-- `size` is the size of the buffer, if there is one.  The bytes come in place of their
number. -/
def mongoSyncGridfsStreamRead (fuel : Nat) (stream : MongoSyncGridfsStream) (size : Option Int) :
    Grid (Except Errno Bytes × MongoSyncGridfsStream) :=
  match stream with
  | .writer w => return (.error .EOPNOTSUPP, .writer w)
  | .reader r =>
      match size with
      | none => return (.error .EINVAL, .reader r)
      | some size =>
          if size ≤ 0 then return (.error .EINVAL, .reader r)
          else do
            let (ready, r) ← (if r.data.isNone then streamSeekChunk r 0 else return (.ok (), r))
            match ready with
            | .error e => return (.error e, .reader r)
            | .ok () =>
                let (result, r) ← readLoop fuel r size []
                return (result, .reader r)

/-- Where a seek starts from. -/
inductive Whence where
  | seekSet
  | seekCur
  | seekEnd
  | other
deriving DecidableEq

/-- The position a seek asks for.  Without one there is nothing to do. -/
def GridfsReader.target (r : GridfsReader) (pos : Int) : Whence → Except Errno (Option Int)
  | .seekSet =>
      if pos = r.offset then .ok none
      else if pos < 0 ∨ r.length < pos then .error .ERANGE
      else .ok (some pos)
  | .seekCur =>
      if pos + r.offset < 0 ∨ r.length < pos + r.offset then .error .ERANGE
      else if pos = 0 then .ok none
      else .ok (some (pos + r.offset))
  | .seekEnd =>
      if 0 < pos ∨ pos + r.length < 0 then .error .ERANGE
      else .ok (some (pos + r.length))
  | .other => .error .EINVAL

/-- `mongo_sync_gridfs_stream_seek`, which loads the chunk at the new position. -/
def mongoSyncGridfsStreamSeek (stream : MongoSyncGridfsStream) (pos : Int) (whence : Whence) :
    Grid (Except Errno Unit × MongoSyncGridfsStream) :=
  match stream with
  | .writer w => return (.error .EOPNOTSUPP, .writer w)
  | .reader r =>
      match r.target pos whence with
      | .error e => return (.error e, .reader r)
      | .ok none => return (.ok (), .reader r)
      | .ok (some realPos) => do
          match ← streamSeekChunk r (realPos.tdiv r.chunkSize) with
          | (.error e, r) => return (.error e, .reader r)
          | (.ok (), r) =>
              return (.ok (), .reader
                { r with
                  chunkOffset := realPos.tmod r.chunkSize
                  currentChunk := realPos.tdiv r.chunkSize
                  offset := realPos })

end LibMongo
