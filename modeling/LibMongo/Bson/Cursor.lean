import LibMongo.Bson.Object

/-!
# BSON cursors

The reading half of `bson.c`.  A cursor is a position in a finished object.  A
pointer into the object is the suffix of its bytes that starts there, so a
read behind the object is `Halt.outside`, and the endless loop of a search
that returns to an element it has seen is `Halt.endless`.

Positions are `size_t` in a cursor and `gint32` while they are computed.
`sizeT` is the conversion back, and sums of a `size_t` go through it.  A getter that hands out a pointer to a string
or an ObjectID is modelled by what the caller reads there.
-/

namespace LibMongo

open Bytes

/-! ## Reading a stream -/

/-- Conversion of a signed integer to `size_t`. -/
def sizeT (i : Int) : Nat := (i % 18446744073709551616).toNat

theorem sizeT_ofNat {n : Nat} (h : n < 2147483648) : sizeT n = n := by
  unfold sizeT
  omega

/-- Conversion to `guint32`. -/
def guint32 (i : Int) : Nat := (i % 4294967296).toNat

theorem guint32_ofNat {n : Nat} (h : n < 4294967296) : guint32 n = n := by
  unfold guint32
  omega

/-- The byte behind a pointer. -/
def byteAt (mem : Bytes) : Except Halt UInt8 :=
  match mem with
  | [] => .error .outside
  | b :: _ => .ok b

/-- `bson_stream_doc_size`: the signed length at a position. -/
def bsonStreamDocSize (doc : Bytes) (pos : Nat) : Except Halt Int := do
  let size ← load (doc.drop pos) 4
  return wrap32 (leNat size)

/-- Twelve bytes read as an object id. -/
def loadOid (mem : Bytes) : Except Halt Oid :=
  if h : 12 ≤ mem.length then .ok ⟨mem.take 12, Oid.length_take h⟩ else .error .outside

/-- `data` starts right after the key of the element. -/
def bsonGetBlockSize (type : BsonType) (data : Bytes) : Except Halt Int :=
  match type with
  | .string | .jsCode | .symbol => do
      let size ← bsonStreamDocSize data 0
      return wrap32 (size + 4)
  | .document | .array | .jsCodeWScope => bsonStreamDocSize data 0
  | .double => .ok 8
  | .binary => do
      let size ← bsonStreamDocSize data 0
      return wrap32 (size + 4 + 1)
  | .oid => .ok 12
  | .boolean => .ok 1
  | .utcDatetime | .timestamp | .int64 => .ok 8
  | .null | .undefined | .min | .max => .ok 0
  | .regexp => do
      let regexp ← CString.load data
      let options ← CString.load (data.drop (regexp.length + 1))
      return wrap32 (regexp.length + options.length + 2)
  | .int32 => .ok 4
  | .dbpointer => do
      let size ← bsonStreamDocSize data 0
      return wrap32 (size + 4 + 12)
  | .none | .other _ => .ok (-1)

/-! ## Cursors -/

/-- `struct _bson_cursor`. -/
structure BsonCursor where
  /-- The object. -/
  obj : Bson
  /-- Where the key of the current element starts. -/
  key : Option Nat
  /-- Where the current element starts, zero before the first. -/
  pos : Nat
  /-- Where the value of the current element starts. -/
  valuePos : Nat
deriving DecidableEq

/-- The bytes `bson_data` gives. -/
def BsonCursor.data (c : BsonCursor) : Bytes := (bsonData (some c.obj)).getD []

/-- The bytes from the value of the current element on. -/
def BsonCursor.value (c : BsonCursor) : Bytes := c.data.drop c.valuePos

/-- `bson_cursor_new`, only for a finished object, before its first element. -/
def bsonCursorNew (b : Option Bson) : Option BsonCursor :=
  match b with
  | none => none
  | some obj => if bsonSize (some obj) = -1 then none else some ⟨obj, none, 0, 0⟩

/-- `bson_cursor_type`: the type byte at the cursor, if it has an element. -/
def bsonCursorType (c : Option BsonCursor) : Except Halt BsonType :=
  match c with
  | none => .ok .none
  | some c =>
      if c.pos < 4 then .ok .none
      else do
        let b ← byteAt (c.data.drop c.pos)
        return BsonType.ofByte b

/-- The key pointer is set by the calls that move a cursor, and read as the string
it points to. -/
def bsonCursorKey (c : Option BsonCursor) : Except Halt (Option CString) :=
  match c with
  | none => .ok none
  | some c =>
      match c.key with
      | none => .ok none
      | some key => do
          let s ← CString.load (c.data.drop key)
          return some s

/-- Where `bson_cursor_next` goes: nowhere from an element of unknown size. -/
def bsonCursorNextPos (c : BsonCursor) : Except Halt (Option Int) :=
  if c.pos = 0 then .ok (some 4)
  else do
    let type ← bsonCursorType (some c)
    let bs ← bsonGetBlockSize type c.value
    return if bs = -1 then none else some (wrap32 (c.valuePos + bs))

/-- `bson_cursor_next`: the header of the next block, as long as it starts before the end of
the object. -/
def bsonCursorNext (c : Option BsonCursor) : Except Halt (Bool × Option BsonCursor) :=
  match c with
  | none => .ok (false, none)
  | some c => do
      match ← bsonCursorNextPos c with
      | none => return (false, some c)
      | some pos =>
          if bsonSize (some c.obj) - 1 ≤ pos then return (false, some c)
          else
            let key ← CString.load (c.data.drop (sizeT (pos + 1)))
            return (true, some
              { c with
                key := some (sizeT (pos + 1))
                pos := sizeT pos
                valuePos := sizeT (pos + key.length + 2) })

/-! ## Searching -/

/-- How the loop of `_bson_cursor_find` ends. -/
inductive FindResult where
  /-- At an element with the key. -/
  | found (pos valuePos : Nat)
  /-- At the end of the range. -/
  | exhausted
  /-- At an element of unknown size. -/
  | stopped
deriving DecidableEq, Repr

/-- The loop of `_bson_cursor_find`, for as many elements as the fuel says. -/
def bsonCursorFindLoop (d : Bytes) (name : CString) (endPos : Nat) :
    Nat → Nat → Except Halt FindResult
  | 0, _ => .error .endless
  | fuel + 1, pos =>
      if pos < endPos then do
        let t ← byteAt (d.drop pos)
        let key ← CString.load (d.drop (pos + 1))
        let valuePos := wrap32 (pos + key.length + 2)
        if key = name then return .found pos (sizeT valuePos)
        else
          let bs ← bsonGetBlockSize (BsonType.ofByte t) (d.drop (sizeT valuePos))
          if bs = -1 then return .stopped
          else bsonCursorFindLoop d name endPos fuel (sizeT (wrap32 (valuePos + bs)))
      else .ok .exhausted

/-- The loop of `_bson_cursor_find`.  Its only state is the position, which stays
below the length of the object, so after that many rounds a position has come
back and the loop is endless. -/
def bsonCursorFindRange (b : Bson) (name : CString) (startPos endPos : Nat) :
    Except Halt FindResult :=
  let d := (bsonData (some b)).getD []
  bsonCursorFindLoop d name endPos (d.length + 1) startPos

/-- `_bson_cursor_find`.  With `wrapOver` the search goes on from the first element
to where it began. -/
def bsonCursorFindFrom (b : Bson) (name : CString) (startPos endPos : Nat) (wrapOver : Bool)
    (dest : BsonCursor) : Except Halt (Bool × BsonCursor) := do
  match ← bsonCursorFindRange b name startPos endPos with
  | .found pos valuePos => return (true, ⟨b, some (pos + 1), pos, valuePos⟩)
  | .stopped => return (false, dest)
  | .exhausted =>
      if wrapOver then
        match ← bsonCursorFindRange b name 4 (guint32 startPos) with
        | .found pos valuePos => return (true, ⟨b, some (pos + 1), pos, valuePos⟩)
        | _ => return (false, dest)
      else return (false, dest)

/-- `bson_cursor_find` and `bson_cursor_find_next` search to the terminator of the
object and differ in `wrapOver`. -/
def bsonCursorFindWith (wrapOver : Bool) (c : Option BsonCursor) (name : Option CString) :
    Except Halt (Bool × Option BsonCursor) :=
  match c, name with
  | some c, some name => do
      let (found, c) ← bsonCursorFindFrom c.obj name c.pos
        (guint32 (bsonSize (some c.obj) - 1)) wrapOver c
      return (found, some c)
  | c, _ => .ok (false, c)

/-- `bson_cursor_find`, which starts over from the front if need be. -/
def bsonCursorFind (c : Option BsonCursor) (name : Option CString) :
    Except Halt (Bool × Option BsonCursor) := bsonCursorFindWith true c name

/-- `bson_cursor_find_next`, which does not start over. -/
def bsonCursorFindNext (c : Option BsonCursor) (name : Option CString) :
    Except Halt (Bool × Option BsonCursor) := bsonCursorFindWith false c name

/-- `bson_find`: a new cursor on the element, from the front of the object. -/
def bsonFind (b : Option Bson) (name : Option CString) : Except Halt (Option BsonCursor) :=
  match bsonCursorNew b, name with
  | some c, some name => do
      let (found, c) ← bsonCursorFindFrom c.obj name 4 (guint32 (bsonSize (some c.obj) - 1))
        false c
      return if found then some c else none
  | _, _ => .ok none

/-! ## Getters

A getter returns `none` where the source returns `FALSE`. -/

/-- `BSON_CURSOR_CHECK_TYPE`, then the rest of a getter on the value. -/
def bsonCursorGet {α : Type} (type : BsonType) (c : Option BsonCursor)
    (get : BsonCursor → Except Halt α) : Except Halt (Option α) := do
  let t ← bsonCursorType c
  match c with
  | none => return none
  | some c =>
      if t ≠ type then return none
      else
        let a ← get c
        return some a

/-- The getters of the types stored as a length and a string. -/
def bsonCursorGetText (type : BsonType) (c : Option BsonCursor) :
    Except Halt (Option CString) :=
  bsonCursorGet type c fun c => CString.load (c.value.drop 4)

/-- `bson_cursor_get_string`. -/
def bsonCursorGetString (c : Option BsonCursor) : Except Halt (Option CString) :=
  bsonCursorGetText .string c

/-- `bson_cursor_get_javascript`. -/
def bsonCursorGetJavascript (c : Option BsonCursor) : Except Halt (Option CString) :=
  bsonCursorGetText .jsCode c

/-- `bson_cursor_get_symbol`. -/
def bsonCursorGetSymbol (c : Option BsonCursor) : Except Halt (Option CString) :=
  bsonCursorGetText .symbol c

/-- The new object a getter makes of the document at `value`: an empty object, the
bytes between the length and the terminator, and `bson_finish`. -/
def bsonCopyDocument (value : Bytes) : Except Halt Bson := do
  let docSize ← bsonStreamDocSize value 0
  let size := wrap32 (docSize - 4 - 1)
  if size < 0 then .error .outside
  else
    let bytes ← load (value.drop 4) size.toNat
    let (_, b) := bsonFinish (gByteArrayAppend (some (bsonNewSized size)) bytes)
    return b.getD bsonNew

/-- `bson_cursor_get_document`, a copy. -/
def bsonCursorGetDocument (c : Option BsonCursor) : Except Halt (Option Bson) :=
  bsonCursorGet .document c fun c => bsonCopyDocument c.value

/-- `bson_cursor_get_array`, a copy. -/
def bsonCursorGetArray (c : Option BsonCursor) : Except Halt (Option Bson) :=
  bsonCursorGet .array c fun c => bsonCopyDocument c.value

/-- What `bson_cursor_get_binary` sets. -/
structure BsonBinary where
  /-- The subtype. -/
  subtype : UInt8
  /-- The block from the data pointer on. -/
  data : Bytes
  /-- The size the element states. -/
  size : Int
deriving DecidableEq

/-- `bson_cursor_get_binary`: the subtype, the memory behind it and the size that is stated. -/
def bsonCursorGetBinary (c : Option BsonCursor) : Except Halt (Option BsonBinary) :=
  bsonCursorGet .binary c fun c => do
    let size ← bsonStreamDocSize c.value 0
    let subtype ← byteAt (c.value.drop 4)
    return ⟨subtype, c.value.drop (4 + 1), size⟩

/-- `bson_cursor_get_oid`. -/
def bsonCursorGetOid (c : Option BsonCursor) : Except Halt (Option Oid) :=
  bsonCursorGet .oid c fun c => loadOid c.value

/-- `bson_cursor_get_boolean`: the byte as it is, not only 0 and 1. -/
def bsonCursorGetBoolean (c : Option BsonCursor) : Except Halt (Option (BitVec 32)) :=
  bsonCursorGet .boolean c fun c => do
    let b ← byteAt c.value
    return BitVec.ofNat 32 b.toNat

/-- The getters of the types stored as eight bytes. -/
def bsonCursorGetWord64 (type : BsonType) (c : Option BsonCursor) :
    Except Halt (Option (BitVec 64)) :=
  bsonCursorGet type c fun c => do
    let bytes ← load c.value 8
    return BitVec.ofNat 64 (leNat bytes)

/-- `bson_cursor_get_double`. -/
def bsonCursorGetDouble (c : Option BsonCursor) : Except Halt (Option GDouble) :=
  bsonCursorGetWord64 .double c

/-- `bson_cursor_get_utc_datetime`. -/
def bsonCursorGetUtcDatetime (c : Option BsonCursor) : Except Halt (Option (BitVec 64)) :=
  bsonCursorGetWord64 .utcDatetime c

/-- `bson_cursor_get_timestamp`. -/
def bsonCursorGetTimestamp (c : Option BsonCursor) : Except Halt (Option (BitVec 64)) :=
  bsonCursorGetWord64 .timestamp c

/-- `bson_cursor_get_int64`. -/
def bsonCursorGetInt64 (c : Option BsonCursor) : Except Halt (Option (BitVec 64)) :=
  bsonCursorGetWord64 .int64 c

/-- `bson_cursor_get_regex`: two texts, each up to its NUL. -/
def bsonCursorGetRegex (c : Option BsonCursor) :
    Except Halt (Option (CString × CString)) :=
  bsonCursorGet .regexp c fun c => do
    let regex ← CString.load c.value
    let options ← CString.load (c.value.drop (regex.length + 1))
    return (regex, options)

/-- The scope follows the two lengths and the code. -/
def bsonCursorGetJavascriptWScope (c : Option BsonCursor) :
    Except Halt (Option (CString × Bson)) :=
  bsonCursorGet .jsCodeWScope c fun c => do
    let size ← bsonStreamDocSize c.value 4
    let docpos := wrap32 (size + 4 * 2)
    let scope ← bsonCopyDocument (c.data.drop (sizeT (c.valuePos + docpos)))
    let js ← CString.load (c.value.drop (4 * 2))
    return (js, scope)

/-- `bson_cursor_get_int32`. -/
def bsonCursorGetInt32 (c : Option BsonCursor) : Except Halt (Option (BitVec 32)) :=
  bsonCursorGet .int32 c fun c => do
    let bytes ← load c.value 4
    return BitVec.ofNat 32 (leNat bytes)

end LibMongo
