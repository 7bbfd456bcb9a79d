import LibMongo.Bson.Cursor

/-!
# Packets of the wire protocol

`mongo-wire.c`: packets, the commands as packets, and reading replies.

The header of a packet is kept as the source keeps it, in whatever order the
function that made the packet left it.  The encoders convert to little-endian,
while a received packet holds its header in the order of the host.  Functions
that convert take the byte order of the host.

A function that returns `NULL` or `FALSE` returns the `errno` it sets.  Reading
a reply may leave the block of the packet, which is `Halt.outside`.  The sizes
of the packets built are sums without overflow.  The tests of the source for a
`NULL` destination are left out.
-/

namespace LibMongo

open Bytes

/-- The values of `errno` the library sets or tests, and those the system sets. -/
inductive Errno where
  | ok
  | EINVAL
  | EPROTO
  | ENOENT
  | ERANGE
  | ENOTCONN
  | EBADF
  | EMSGSIZE
  | EHOSTUNREACH
  | EADDRNOTAVAIL
  | ENAMETOOLONG
  | EAGAIN
  | EFAULT
  | EOPNOTSUPP
  | system (code : Nat)
deriving DecidableEq, Repr

/-! ## Packets -/

/-- The operations that the header of a packet names, with the source's words. -/
inductive MongoWireOpcode where
  | reply
  | msg
  | update
  | insert
  | reserved
  | query
  | getMore
  | delete
  | killCursors
deriving DecidableEq, Repr

/-- The number of an opcode. -/
def MongoWireOpcode.code : MongoWireOpcode → BitVec 32
  | reply => 1
  | msg => 1000
  | update => 2001
  | insert => 2002
  | reserved => 2003
  | query => 2004
  | getMore => 2005
  | delete => 2006
  | killCursors => 2007

/-- `mongo_packet_header`, as the fields stand in memory. -/
structure MongoPacketHeader where
  length : BitVec 32
  id : BitVec 32
  respTo : BitVec 32
  opcode : BitVec 32
deriving DecidableEq, Repr

/-- `struct _mongo_packet`. -/
structure MongoPacket where
  header : MongoPacketHeader
  /-- The block of the data, if there is one. -/
  data : Option Bytes
  dataSize : Int
deriving DecidableEq, Repr

/-- Every field of a header converted between the order of the host and
little-endian. -/
def MongoPacketHeader.le32 (o : ByteOrder) (h : MongoPacketHeader) : MongoPacketHeader :=
  ⟨o.le32 h.length, o.le32 h.id, o.le32 h.respTo, o.le32 h.opcode⟩

/-- A header as it lies in the memory of the host. -/
def MongoPacketHeader.image (o : ByteOrder) (h : MongoPacketHeader) : Bytes :=
  o.mem32 h.length ++ (o.mem32 h.id ++ (o.mem32 h.respTo ++ o.mem32 h.opcode))

@[simp] theorem MongoPacketHeader.image_length (o : ByteOrder) (h : MongoPacketHeader) :
    (h.image o).length = 16 := by
  simp [MongoPacketHeader.image]

/-- `mongo_wire_packet_new`: a header for no data. -/
def mongoWirePacketNew (o : ByteOrder) : MongoPacket :=
  ⟨⟨o.le32 16, 0, 0, 0⟩, none, 0⟩

/-- `mongo_wire_packet_get_header`: the fields in the byte order of the machine. -/
def mongoWirePacketGetHeader (o : ByteOrder) (p : MongoPacket) : MongoPacketHeader :=
  p.header.le32 o

/-- `mongo_wire_packet_get_header_raw`: the fields as they stand. -/
def mongoWirePacketGetHeaderRaw (p : MongoPacket) : MongoPacketHeader := p.header

/-- The length given is converted before it is compared. -/
def mongoWirePacketSetHeader (o : ByteOrder) (p : MongoPacket) (header : MongoPacketHeader) :
    Except Errno MongoPacket :=
  if (o.le32 header.length).toInt < 16 then .error .ERANGE
  else .ok { p with header := header.le32 o, dataSize := wrap32 (header.length.toInt - 16) }

/-- `mongo_wire_packet_set_header_raw`, which does not look at the length. -/
def mongoWirePacketSetHeaderRaw (p : MongoPacket) (header : MongoPacketHeader) : MongoPacket :=
  { p with header := header, dataSize := wrap32 (header.length.toInt - 16) }

/-- The block of the data and its size. -/
def mongoWirePacketGetData (p : MongoPacket) : Except Errno (Bytes × Int) :=
  match p.data with
  | none => .error .EINVAL
  | some data => .ok (data, p.dataSize)

/-- `mongo_wire_packet_set_data`: a copy of the data, and the length in the header. -/
def mongoWirePacketSetData (o : ByteOrder) (p : MongoPacket) (data : Bytes) (size : Int) :
    Except Errno MongoPacket :=
  if size ≤ 0 then .error .EINVAL
  else
    .ok { header := { p.header with length := o.le32 (BitVec.ofInt 32 (size + 16)) }
          data := some (data.take size.toNat)
          dataSize := size }

/-! ## Commands -/

/-- The bytes a command copies from a document. -/
def bsonBytes (b : Bson) : Bytes := b.data.take (bsonSize (some b)).toNat

/-- The packet around the data of a command. -/
def commandPacket (o : ByteOrder) (id : BitVec 32) (opcode : MongoWireOpcode) (data : Bytes)
    (dataSize : Int) : MongoPacket where
  header := ⟨o.le32 (BitVec.ofInt 32 (16 + dataSize)), o.le32 id, 0, o.le32 opcode.code⟩
  data := some data
  dataSize := dataSize

/-- `mongo_wire_cmd_update`. -/
def mongoWireCmdUpdate (o : ByteOrder) (id : BitVec 32) (ns : Option CString)
    (flags : BitVec 32) (selector update : Option Bson) : Except Errno MongoPacket :=
  match ns, selector, update with
  | some ns, some selector, some update =>
      let selectorSize := bsonSize (some selector)
      let updateSize := bsonSize (some update)
      if selectorSize < 0 ∨ updateSize < 0 then .error .EINVAL
      else
        let nslen := ns.length + 1
        let dataSize := selectorSize + updateSize + 4 * 2 + nslen
        let data := fresh dataSize.toNat
        let data := memcpy data 0 (leBytes 4 0)
        let data := memcpy data 4 ns.image
        let data := memcpy data (4 + nslen) (o.mem32 (o.le32 flags))
        let data := memcpy data (4 * 2 + nslen) (bsonBytes selector)
        let data := memcpy data (4 * 2 + nslen + selectorSize.toNat) (bsonBytes update)
        .ok (commandPacket o id .update data dataSize)
  | _, _, _ => .error .EINVAL

/-- The loop that copies the documents of an insert one behind the other. -/
def copyDocuments (data : Bytes) (pos : Nat) : List Bson → Bytes
  | [] => data
  | b :: bs => copyDocuments (memcpy data pos (bsonBytes b)) (pos + (bsonSize (some b)).toNat) bs

/-- The array has `n` documents at least, and the first `n` go into the packet. -/
def mongoWireCmdInsertN (o : ByteOrder) (id : BitVec 32) (ns : Option CString) (n : Int)
    (docs : Option (List (Option Bson))) : Except Errno MongoPacket :=
  match ns, docs with
  | some ns, some docs =>
      if n ≤ 0 then .error .ERANGE
      else
        let docs := docs.take n.toNat
        if docs.any fun b => bsonSize b ≤ 0 then .error .EINVAL
        else
          let docs := docs.reduceOption
          let dsize := (docs.map fun b => bsonSize (some b)).sum
          let pos := 4 + ns.length + 1
          let dataSize := pos + dsize
          let data := fresh dataSize.toNat
          let data := memcpy data 0 (leBytes 4 0)
          let data := memcpy data 4 ns.image
          let data := copyDocuments data pos docs
          .ok (commandPacket o id .insert data dataSize)
  | _, _ => .error .EINVAL

/-- The selector is optional. -/
def mongoWireCmdQuery (o : ByteOrder) (id : BitVec 32) (ns : Option CString)
    (flags skip ret : BitVec 32) (query sel : Option Bson) : Except Errno MongoPacket :=
  match ns, query with
  | some ns, some query =>
      let querySize := bsonSize (some query)
      if querySize < 0 ∨ (sel.isSome ∧ bsonSize sel < 0) then .error .EINVAL
      else
        let nslen := ns.length + 1
        let dataSize := 4 + nslen + 4 * 2 + querySize
        let dataSize := if sel.isSome then dataSize + bsonSize sel else dataSize
        let data := fresh dataSize.toNat
        let data := memcpy data 0 (o.mem32 (o.le32 flags))
        let data := memcpy data 4 ns.image
        let data := memcpy data (4 + nslen) (o.mem32 (o.le32 skip))
        let data := memcpy data (4 * 2 + nslen) (o.mem32 (o.le32 ret))
        let data := memcpy data (4 * 3 + nslen) (bsonBytes query)
        let data := match sel with
          | none => data
          | some sel => memcpy data (4 * 3 + nslen + querySize.toNat) (bsonBytes sel)
        .ok (commandPacket o id .query data dataSize)
  | _, _ => .error .EINVAL

/-- `mongo_wire_cmd_get_more`. -/
def mongoWireCmdGetMore (o : ByteOrder) (id : BitVec 32) (ns : Option CString)
    (ret : BitVec 32) (cursorId : BitVec 64) : Except Errno MongoPacket :=
  match ns with
  | none => .error .EINVAL
  | some ns =>
      let nslen := ns.length + 1
      let dataSize := 4 + nslen + 4 + 8
      let data := fresh dataSize
      let data := memcpy data 0 (leBytes 4 0)
      let data := memcpy data 4 ns.image
      let data := memcpy data (4 + nslen) (o.mem32 (o.le32 ret))
      let data := memcpy data (4 * 2 + nslen) (leBytes 8 cursorId.toNat)
      .ok (commandPacket o id .getMore data dataSize)

/-- `mongo_wire_cmd_delete`. -/
def mongoWireCmdDelete (o : ByteOrder) (id : BitVec 32) (ns : Option CString)
    (flags : BitVec 32) (sel : Option Bson) : Except Errno MongoPacket :=
  match ns, sel with
  | some ns, some sel =>
      let selSize := bsonSize (some sel)
      if selSize < 0 then .error .EINVAL
      else
        let nslen := ns.length + 1
        let dataSize := 4 + nslen + 4 + selSize
        let data := fresh dataSize.toNat
        let data := memcpy data 0 (leBytes 4 0)
        let data := memcpy data 4 ns.image
        let data := memcpy data (4 + nslen) (o.mem32 (o.le32 flags))
        let data := memcpy data (4 * 2 + nslen) (bsonBytes sel)
        .ok (commandPacket o id .delete data dataSize)
  | _, _ => .error .EINVAL

/-- The loop that copies the cursor ids. -/
def copyCursorIds (data : Bytes) (pos : Nat) : List (BitVec 64) → Bytes
  | [] => data
  | cid :: cids => copyCursorIds (memcpy data pos (leBytes 8 cid.toNat)) (pos + 8) cids

/-- `mongo_wire_cmd_kill_cursors_va`, for a list that holds as many ids as its
count says. -/
def mongoWireCmdKillCursorsVa (o : ByteOrder) (id : BitVec 32) (cids : List (BitVec 64)) :
    MongoPacket :=
  let n := cids.length
  let dataSize := 4 + 4 + 8 * n
  let data := fresh dataSize
  let data := memcpy data 0 (leBytes 4 0)
  let data := memcpy data 4 (o.mem32 (o.le32 (BitVec.ofNat 32 n)))
  let data := copyCursorIds data (4 * 2) cids
  commandPacket o id .killCursors data dataSize

/-- `mongo_wire_cmd_kill_cursors`, for at least one cursor. -/
def mongoWireCmdKillCursors (o : ByteOrder) (id : BitVec 32) (cids : List (BitVec 64)) :
    Except Errno MongoPacket :=
  if cids.length = 0 then .error .EINVAL
  else .ok (mongoWireCmdKillCursorsVa o id cids)

/-- The suffix that makes the command collection of a database. -/
def cmdSuffix : CString := .ascii ['.', '$', 'c', 'm', 'd']

/-- A command is a query for one document, with an empty selector. -/
def mongoWireCmdCustom (o : ByteOrder) (id : BitVec 32) (db : Option CString)
    (flags : BitVec 32) (command : Option Bson) : Except Errno MongoPacket :=
  match db, command with
  | some db, some command =>
      if bsonSize (some command) < 0 then .error .EINVAL
      else
        let empty := (bsonFinish (some bsonNew)).2
        mongoWireCmdQuery o id (some (db.append cmdSuffix)) flags 0 1 (some command) empty
  | _, _ => .error .EINVAL

/-! ## Replies -/

/-- `mongo_reply_packet_header`, the front of the data of a reply. -/
structure MongoReplyPacketHeader where
  flags : BitVec 32
  cursorId : BitVec 64
  start : BitVec 32
  returned : BitVec 32
deriving DecidableEq, Repr

/-- `mongo_wire_reply_packet_get_header`.  The length of the data is not looked at, so a
short reply is read past its end. -/
def mongoWireReplyPacketGetHeader (p : Option MongoPacket) :
    Except Halt (Except Errno MongoReplyPacketHeader) :=
  match p with
  | none => .ok (.error .EINVAL)
  | some p =>
      if p.header.opcode ≠ MongoWireOpcode.reply.code then .ok (.error .EPROTO)
      else
        match mongoWirePacketGetData p with
        | .error e => .ok (.error e)
        | .ok (data, _) => do
            let h ← load data 20
            return .ok
              { flags := BitVec.ofNat 32 (leNat (h.take 4))
                cursorId := BitVec.ofNat 64 (leNat ((h.drop 4).take 8))
                start := BitVec.ofNat 32 (leNat ((h.drop 12).take 4))
                returned := BitVec.ofNat 32 (leNat ((h.drop 16).take 4)) }

/-- `mongo_wire_reply_packet_get_data`: what follows the header of a reply. -/
def mongoWireReplyPacketGetData (p : Option MongoPacket) : Except Errno Bytes :=
  match p with
  | none => .error .EINVAL
  | some p =>
      if p.header.opcode ≠ MongoWireOpcode.reply.code then .error .EPROTO
      else
        match mongoWirePacketGetData p with
        | .error e => .error e
        | .ok (data, _) => .ok (data.drop 20)

/-- The position behind `n` more documents.  It counts from byte 20 of the block, where
`mongo_wire_reply_packet_get_data` points, and negative sizes may lead in front of that. -/
def skipDocuments (data : Bytes) : Nat → Int → Except Halt Int
  | 0, pos => .ok pos
  | n + 1, pos => do
      let size ← bsonStreamDocSize data (sizeT (20 + pos))
      skipDocuments data n (wrap32 (pos + size))

/-- The document is a new object, left open.  It is `NULL` when the reply states no
size for it, which still counts as success. -/
def mongoWireReplyPacketGetNthDocument (p : Option MongoPacket) (n : Int) :
    Except Halt (Except Errno (Option Bson)) :=
  match p with
  | none => .ok (.error .EINVAL)
  | some p =>
      if n ≤ 0 then .ok (.error .EINVAL)
      else if p.header.opcode ≠ MongoWireOpcode.reply.code then .ok (.error .EPROTO)
      else do
        match ← mongoWireReplyPacketGetHeader (some p) with
        | .error e => return .error e
        | .ok h =>
            if h.returned.toInt < n then return .error .ERANGE
            else
              match mongoWirePacketGetData p with
              | .error e => return .error e
              | .ok (data, _) =>
                  let pos ← skipDocuments data (n.toNat - 1) 0
                  let size ← bsonStreamDocSize data (sizeT (20 + pos))
                  let doc ← bsonNewFromData (some (data.drop (sizeT (20 + pos)))) (wrap32 (size - 1))
                  return .ok doc

end LibMongo
