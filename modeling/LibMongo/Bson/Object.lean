import LibMongo.Base.Bytes

/-!
# BSON objects

The writing half of `bson.c`: making objects, finishing them and appending
elements.  A definition with the name of a source function, in camel case, is
that function.

A pointer to an object is an `Option Bson`, and `none` is `NULL`.  An append
call returns its verdict and the object as the call leaves it.  The object
holds the bytes of the `GByteArray`.  How much memory is reserved for them is
not modelled.

Every integer the source stores passes through `GINT32_TO_LE` or
`GINT64_TO_LE`, so its bytes are little-endian on every host
(`Bytes.ByteOrder.mem32_le32`), and the model writes `leBytes`.

A `gdouble` is its 64 bits.
-/

namespace LibMongo

open Bytes

/-! ## Types -/

/-- `bson_type`.  A byte read from a stream is converted to the enumeration
unchecked, so the values without a name are there too. -/
inductive BsonType where
  | none
  | double
  | string
  | document
  | array
  | binary
  | undefined
  | oid
  | boolean
  | utcDatetime
  | null
  | regexp
  | dbpointer
  | jsCode
  | symbol
  | jsCodeWScope
  | int32
  | timestamp
  | int64
  | min
  | max
  /-- A byte that is no type. -/
  | other (b : UInt8)
deriving DecidableEq, Repr

namespace BsonType

/-- The byte that stands for a type. -/
def toByte : BsonType → UInt8
  | none => 0x00
  | double => 0x01
  | string => 0x02
  | document => 0x03
  | array => 0x04
  | binary => 0x05
  | undefined => 0x06
  | oid => 0x07
  | boolean => 0x08
  | utcDatetime => 0x09
  | null => 0x0a
  | regexp => 0x0b
  | dbpointer => 0x0c
  | jsCode => 0x0d
  | symbol => 0x0e
  | jsCodeWScope => 0x0f
  | int32 => 0x10
  | timestamp => 0x11
  | int64 => 0x12
  | min => 0xff
  | max => 0x7f
  | other b => b

/-- The conversion of a byte to `bson_type`. -/
def ofByte (b : UInt8) : BsonType :=
  if b = 0x00 then none
  else if b = 0x01 then double
  else if b = 0x02 then string
  else if b = 0x03 then document
  else if b = 0x04 then array
  else if b = 0x05 then binary
  else if b = 0x06 then undefined
  else if b = 0x07 then oid
  else if b = 0x08 then boolean
  else if b = 0x09 then utcDatetime
  else if b = 0x0a then null
  else if b = 0x0b then regexp
  else if b = 0x0c then dbpointer
  else if b = 0x0d then jsCode
  else if b = 0x0e then symbol
  else if b = 0x0f then jsCodeWScope
  else if b = 0x10 then int32
  else if b = 0x11 then timestamp
  else if b = 0x12 then int64
  else if b = 0xff then min
  else if b = 0x7f then max
  else other b

/-- A type written to a stream is the type read from it. -/
theorem ofByte_toByte {t : BsonType} (h : ∀ b, t ≠ other b) : ofByte t.toByte = t := by
  cases t with
  | other b => exact absurd rfl (h b)
  | _ => rfl

end BsonType

/-- A `gdouble`, as its bits. -/
abbrev GDouble := BitVec 64

/-- The twelve bytes of an ObjectID. -/
structure Oid where
  /-- The bytes. -/
  bytes : Bytes
  /-- There are twelve. -/
  length_eq : bytes.length = 12
deriving DecidableEq

theorem Oid.length_take {bs : Bytes} (h : 12 ≤ bs.length) : (bs.take 12).length = 12 := by simp [h]

/-! ## Objects -/

/-- `struct _bson`. -/
structure Bson where
  /-- The bytes written so far. -/
  data : Bytes
  /-- Whether the object is finished. -/
  finished : Bool
deriving DecidableEq, Repr

/-- The size only reserves memory. -/
def bsonNewSized (_size : Int) : Bson := ⟨leBytes 4 0, false⟩

/-- `bson_new`: an open object without room set aside. -/
def bsonNew : Bson := bsonNewSized 0

/-- The length is a `guint`, the result a `gint32`. -/
def bsonSize : Option Bson → Int
  | none => -1
  | some b => if b.finished then wrap32 b.data.length else -1

/-- `bson_data`: the bytes of a finished object. -/
def bsonData : Option Bson → Option Bytes
  | none => none
  | some b => if b.finished then some b.data else none

/-- `data` is the block behind the pointer. -/
def bsonNewFromData (data : Option Bytes) (size : Int) : Except Halt (Option Bson) :=
  match data with
  | none => .ok none
  | some data =>
      if size ≤ 0 then .ok none
      else do
        let bytes ← load data size.toNat
        return some ⟨bytes, false⟩

/-- `g_byte_array_append` on the bytes of an object. -/
def gByteArrayAppend (b : Option Bson) (bytes : Bytes) : Option Bson :=
  b.map fun b => { b with data := b.data ++ bytes }

/-- The terminator is appended first, then the length is written
over the first four bytes of the array, which keeps its length. -/
def bsonFinish : Option Bson → Bool × Option Bson
  | none => (false, none)
  | some b =>
      if b.finished then (true, some b)
      else
        let data := b.data ++ [0]
        (true, some ⟨(leBytes 4 data.length ++ data.drop 4).take data.length, true⟩)

/-- `bson_reset`: an empty open object again. -/
def bsonReset : Option Bson → Bool × Option Bson
  | none => (false, none)
  | some _ => (true, some ⟨leBytes 4 0, false⟩)

/-! ## Appending elements -/

/-- `_bson_append_element_header`: the type and the name.  A finished object takes none. -/
def bsonAppendElementHeader (b : Option Bson) (type : BsonType) (name : Option CString) :
    Bool × Option Bson :=
  match b, name with
  | some b, some name =>
      if b.finished then (false, some b)
      else (true, gByteArrayAppend (some b) (type.toByte :: name.image))
  | b, _ => (false, b)

/-- What every append call does once it has checked its value: write the header,
give up if that fails, and write the bytes of the value. -/
def bsonAppendElement (b : Option Bson) (type : BsonType) (name : Option CString)
    (payload : Bytes) : Bool × Option Bson :=
  match bsonAppendElementHeader b type name with
  | (false, b) => (false, b)
  | (true, b) => (true, gByteArrayAppend b payload)

/-- The length of the text a string-like append call stores: the length given, or
`strlen` when that is -1. -/
def textLength (val : Bytes) (length : Int) : Nat :=
  if length ≠ -1 then length.toNat else (CString.ofBytes val).length

/-- A stored text: its length with the terminator, its bytes and the terminator. -/
def textBytes (val : Bytes) (length : Int) : Bytes :=
  leBytes 4 (textLength val length + 1) ++ val.take (textLength val length) ++ [0]

/-- `val` is the block behind the pointer, of which the call copies a part. -/
def bsonAppendStringElement (b : Option Bson) (type : BsonType) (name : Option CString)
    (val : Option Bytes) (length : Int) : Bool × Option Bson :=
  match val with
  | none => (false, b)
  | some val =>
      if length = 0 ∨ length < -1 then (false, b)
      else bsonAppendElement b type name (textBytes val length)

/-- `_bson_append_document_element`, of documents and arrays.  They must be finished. -/
def bsonAppendDocumentElement (b : Option Bson) (type : BsonType) (name : Option CString)
    (doc : Option Bson) : Bool × Option Bson :=
  if bsonSize doc < 0 then (false, b)
  else bsonAppendElement b type name ((bsonData doc).getD [])

/-- `_bson_append_int64_element`, of dates, timestamps and integers. -/
def bsonAppendInt64Element (b : Option Bson) (type : BsonType) (name : Option CString)
    (i : BitVec 64) : Bool × Option Bson :=
  bsonAppendElement b type name (leBytes 8 i.toNat)

/-- `bson_append_double`. -/
def bsonAppendDouble (b : Option Bson) (name : Option CString) (val : GDouble) :
    Bool × Option Bson :=
  bsonAppendElement b .double name (leBytes 8 val.toNat)

/-- `bson_append_string`. -/
def bsonAppendString (b : Option Bson) (name : Option CString) (val : Option Bytes)
    (length : Int) : Bool × Option Bson :=
  bsonAppendStringElement b .string name val length

/-- `bson_append_document`. -/
def bsonAppendDocument (b : Option Bson) (name : Option CString) (doc : Option Bson) :
    Bool × Option Bson :=
  bsonAppendDocumentElement b .document name doc

/-- `bson_append_array`. -/
def bsonAppendArray (b : Option Bson) (name : Option CString) (array : Option Bson) :
    Bool × Option Bson :=
  bsonAppendDocumentElement b .array name array

/-- `bson_append_binary`, which refuses `NULL` and sizes that are not positive. -/
def bsonAppendBinary (b : Option Bson) (name : Option CString) (subtype : UInt8)
    (data : Option Bytes) (size : Int) : Bool × Option Bson :=
  match data with
  | none => (false, b)
  | some data =>
      if size ≤ 0 then (false, b)
      else
        bsonAppendElement b .binary name
          (leBytes 4 size.toNat ++ [subtype] ++ data.take size.toNat)

/-- `bson_append_oid`. -/
def bsonAppendOid (b : Option Bson) (name : Option CString) (oid : Option Oid) :
    Bool × Option Bson :=
  match oid with
  | none => (false, b)
  | some oid => bsonAppendElement b .oid name oid.bytes

/-- A `gboolean` is a `gint`, stored as its low byte. -/
def bsonAppendBoolean (b : Option Bson) (name : Option CString) (value : BitVec 32) :
    Bool × Option Bson :=
  bsonAppendElement b .boolean name [UInt8.ofNat value.toNat]

/-- `bson_append_utc_datetime`. -/
def bsonAppendUtcDatetime (b : Option Bson) (name : Option CString) (ts : BitVec 64) :
    Bool × Option Bson :=
  bsonAppendInt64Element b .utcDatetime name ts

/-- `bson_append_null`, an element that is only a header. -/
def bsonAppendNull (b : Option Bson) (name : Option CString) : Bool × Option Bson :=
  bsonAppendElementHeader b .null name

/-- `bson_append_regex`: both texts with their NULs. -/
def bsonAppendRegex (b : Option Bson) (name : Option CString)
    (regexp options : Option CString) : Bool × Option Bson :=
  match regexp, options with
  | some regexp, some options =>
      bsonAppendElement b .regexp name (regexp.image ++ options.image)
  | _, _ => (false, b)

/-- `bson_append_javascript`. -/
def bsonAppendJavascript (b : Option Bson) (name : Option CString) (js : Option Bytes)
    (len : Int) : Bool × Option Bson :=
  bsonAppendStringElement b .jsCode name js len

/-- `bson_append_symbol`. -/
def bsonAppendSymbol (b : Option Bson) (name : Option CString) (symbol : Option Bytes)
    (len : Int) : Bool × Option Bson :=
  bsonAppendStringElement b .symbol name symbol len

/-- Unlike the other string-like calls it accepts
a length of zero. -/
def bsonAppendJavascriptWScope (b : Option Bson) (name : Option CString) (js : Option Bytes)
    (len : Int) (scope : Option Bson) : Bool × Option Bson :=
  match js, scope with
  | some js, some scope =>
      if bsonSize (some scope) < 0 ∨ len < -1 then (false, b)
      else
        let size := textLength js len + 1 + 4 + 4 + scope.data.length
        bsonAppendElement b .jsCodeWScope name
          (leBytes 4 size ++ textBytes js len ++ scope.data)
  | _, _ => (false, b)

/-- `bson_append_int32`. -/
def bsonAppendInt32 (b : Option Bson) (name : Option CString) (i : BitVec 32) :
    Bool × Option Bson :=
  bsonAppendElement b .int32 name (leBytes 4 i.toNat)

/-- `bson_append_timestamp`. -/
def bsonAppendTimestamp (b : Option Bson) (name : Option CString) (ts : BitVec 64) :
    Bool × Option Bson :=
  bsonAppendInt64Element b .timestamp name ts

/-- `bson_append_int64`. -/
def bsonAppendInt64 (b : Option Bson) (name : Option CString) (i : BitVec 64) :
    Bool × Option Bson :=
  bsonAppendInt64Element b .int64 name i

/-! ## What an append call does -/

theorem bsonAppendElementHeader_open {data : Bytes} (type : BsonType) (name : CString) :
    bsonAppendElementHeader (some ⟨data, false⟩) type (some name)
      = (true, some ⟨data ++ type.toByte :: name.image, false⟩) := rfl

/-- An append call that passed its checks, on an open object with a key, writes the
type, the key and the value behind what is there. -/
theorem bsonAppendElement_open {data : Bytes} (type : BsonType) (name : CString)
    (payload : Bytes) :
    bsonAppendElement (some ⟨data, false⟩) type (some name) payload
      = (true, some ⟨data ++ type.toByte :: (name.image ++ payload), false⟩) := by
  simp [bsonAppendElement, bsonAppendElementHeader_open, gByteArrayAppend]

@[simp] theorem bsonFinish_finished (data : Bytes) :
    bsonFinish (some ⟨data, true⟩) = (true, some ⟨data, true⟩) := rfl

/-- Finishing an open object closes it with a terminator and puts its length in
front. -/
theorem bsonFinish_open {front rest : Bytes} (h : front.length = 4) :
    bsonFinish (some ⟨front ++ rest, false⟩)
      = (true, some ⟨leBytes 4 (rest.length + 5) ++ (rest ++ [0]), true⟩) := by
  have hlen : (front ++ rest ++ [0]).length = rest.length + 5 := by
    simp only [List.length_append, h, List.length_cons, List.length_nil]
    omega
  have hdrop : (front ++ rest ++ [0]).drop 4 = rest ++ [0] := by
    rw [List.append_assoc, ← h, List.drop_left]
  simp only [bsonFinish, hlen, hdrop]
  rw [List.take_of_length_le (by simp; omega)]
  simp

end LibMongo
