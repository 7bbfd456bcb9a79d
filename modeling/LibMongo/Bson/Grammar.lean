import LibMongo.Bson.Cursor

/-!
# The BSON grammar

Documents as trees, and the bytes that stand for them.  `Value` has a
constructor for each of the twenty types a document can hold, also for those
the library cannot append, and a `Doc` is a list of keys and values.

`Doc.encode` is the image of a document.  A finished object *encodes* `d` when
its bytes are that image and its size is in the range of a `gint32`
(`Bson.Encodes`).

The lemmas at the end say what the functions of `Cursor.lean` read from the
image of one element (`Bson.Holds`): its type, its key, the size of its value
and the value itself.  Everything said of a walk or of a search rests on them.
-/

namespace LibMongo

open Bytes

/-! ## Trees -/

mutual

/-- A value of a document. -/
inductive Value where
  | double (bits : GDouble)
  | string (s : Bytes)
  | document (d : Doc)
  | array (d : Doc)
  | binary (subtype : UInt8) (data : Bytes)
  | undefined
  | oid (o : Oid)
  | boolean (b : UInt8)
  | utcDatetime (t : BitVec 64)
  | null
  | regexp (r o : CString)
  | dbpointer (ns : Bytes) (o : Oid)
  | jsCode (s : Bytes)
  | symbol (s : Bytes)
  | jsCodeWScope (s : Bytes) (scope : Doc)
  | int32 (i : BitVec 32)
  | timestamp (t : BitVec 64)
  | int64 (i : BitVec 64)
  | min
  | max

/-- A document: keys and values in order. -/
inductive Doc where
  | nil
  | cons (key : CString) (value : Value) (rest : Doc)

end

/-- The type of a value. -/
def Value.type : Value → BsonType
  | .double _ => .double
  | .string _ => .string
  | .document _ => .document
  | .array _ => .array
  | .binary _ _ => .binary
  | .undefined => .undefined
  | .oid _ => .oid
  | .boolean _ => .boolean
  | .utcDatetime _ => .utcDatetime
  | .null => .null
  | .regexp _ _ => .regexp
  | .dbpointer _ _ => .dbpointer
  | .jsCode _ => .jsCode
  | .symbol _ => .symbol
  | .jsCodeWScope _ _ => .jsCodeWScope
  | .int32 _ => .int32
  | .timestamp _ => .timestamp
  | .int64 _ => .int64
  | .min => .min
  | .max => .max

theorem Value.type_ne_other (v : Value) (b : UInt8) : v.type ≠ .other b := by
  cases v <;> intro h <;> cases h

/-! ## Images -/

/-- A text with its length in front and its terminator behind. -/
def textImage (s : Bytes) : Bytes := leBytes 4 (s.length + 1) ++ (s ++ [0])

/-- Elements with the length in front and the terminator behind. -/
def frame (elems : Bytes) : Bytes := leBytes 4 (elems.length + 5) ++ (elems ++ [0])

mutual

/-- The bytes of a value. -/
def Value.encode : Value → Bytes
  | .double bits => leBytes 8 bits.toNat
  | .string s => textImage s
  | .document d => frame d.elems
  | .array d => frame d.elems
  | .binary subtype data => leBytes 4 data.length ++ (subtype :: data)
  | .undefined => []
  | .oid o => o.bytes
  | .boolean b => [b]
  | .utcDatetime t => leBytes 8 t.toNat
  | .null => []
  | .regexp r o => r.image ++ o.image
  | .dbpointer ns o => textImage ns ++ o.bytes
  | .jsCode s => textImage s
  | .symbol s => textImage s
  | .jsCodeWScope s scope =>
      leBytes 4 (4 + (textImage s ++ frame scope.elems).length)
        ++ (textImage s ++ frame scope.elems)
  | .int32 i => leBytes 4 i.toNat
  | .timestamp t => leBytes 8 t.toNat
  | .int64 i => leBytes 8 i.toNat
  | .min => []
  | .max => []

/-- The bytes of the elements of a document. -/
def Doc.elems : Doc → Bytes
  | .nil => []
  | .cons key value rest => (value.type.toByte :: (key.image ++ value.encode)) ++ rest.elems

end

/-- The bytes of an element. -/
def element (key : CString) (value : Value) : Bytes :=
  value.type.toByte :: (key.image ++ value.encode)

/-- The bytes of a document. -/
def Doc.encode (d : Doc) : Bytes := frame d.elems

@[simp] theorem Doc.elems_nil : Doc.nil.elems = [] := by rw [Doc.elems]

@[simp] theorem Doc.elems_cons (key : CString) (value : Value) (rest : Doc) :
    (Doc.cons key value rest).elems = element key value ++ rest.elems := by
  rw [Doc.elems, element]

@[simp] theorem textImage_length (s : Bytes) : (textImage s).length = s.length + 5 := by
  simp [textImage]
  omega

@[simp] theorem frame_length (elems : Bytes) : (frame elems).length = elems.length + 5 := by
  simp [frame]
  omega

@[simp] theorem Doc.encode_length (d : Doc) : d.encode.length = d.elems.length + 5 :=
  frame_length d.elems

theorem element_length (key : CString) (value : Value) :
    (element key value).length = key.length + 2 + value.encode.length := by
  simp only [element, List.length_cons, List.length_append, CString.image_length]
  omega

/-! ## Documents as lists -/

/-- The first value stored under a key. -/
def Doc.lookup (name : CString) : Doc → Option Value
  | .nil => none
  | .cons key value rest => if key = name then some value else rest.lookup name

/-- The elements of one document behind those of another. -/
def Doc.append : Doc → Doc → Doc
  | .nil, e => e
  | .cons key value rest, e => .cons key value (rest.append e)

@[simp] theorem Doc.nil_append (d : Doc) : Doc.nil.append d = d := by rw [Doc.append]

@[simp] theorem Doc.cons_append (key : CString) (value : Value) (d e : Doc) :
    (Doc.cons key value d).append e = .cons key value (d.append e) := by rw [Doc.append]

theorem Doc.append_nil (d : Doc) : d.append .nil = d := by
  match d with
  | .nil => rfl
  | .cons key value rest => rw [Doc.cons_append, Doc.append_nil rest]

theorem Doc.append_assoc (d e f : Doc) : (d.append e).append f = d.append (e.append f) := by
  match d with
  | .nil => rfl
  | .cons key value rest => simp [Doc.append_assoc rest e f]

theorem Doc.elems_append (d e : Doc) : (d.append e).elems = d.elems ++ e.elems := by
  match d with
  | .nil => simp
  | .cons key value rest => simp [Doc.elems_append rest e]

theorem Doc.lookup_append (name : CString) (d e : Doc) :
    (d.append e).lookup name = (d.lookup name).or (e.lookup name) := by
  match d with
  | .nil => simp [Doc.lookup]
  | .cons key value rest =>
      by_cases h : key = name
      · simp [Doc.lookup, h]
      · simp [Doc.lookup, h, Doc.lookup_append name rest e]

/-! ## Objects that hold a document -/

/-- A finished object whose bytes are the image of a document. -/
structure Bson.Encodes (b : Bson) (d : Doc) : Prop where
  /-- The object is finished. -/
  finished : b.finished = true
  /-- Its bytes. -/
  data_eq : b.data = d.encode
  /-- Its size is a `gint32`. -/
  small : b.data.length < 2147483648

/-- A finished object with the image of an element between `pre` and `post`. -/
structure Bson.Holds (b : Bson) (pre : Bytes) (key : CString) (value : Value)
    (post : Bytes) : Prop where
  finished : b.finished = true
  data_eq : b.data = pre ++ (element key value ++ post)
  small : b.data.length < 2147483648
  /-- The element lies behind the length of the object. -/
  pre_length : 4 ≤ pre.length

/-- The cursor on the element with this key that starts at `pos`. -/
def BsonCursor.on (b : Bson) (pos : Nat) (key : CString) : BsonCursor :=
  ⟨b, some (pos + 1), pos, pos + key.length + 2⟩

theorem bsonData_finished {b : Bson} (h : b.finished = true) : bsonData (some b) = some b.data := by
  simp [bsonData, h]

theorem bsonSize_finished {b : Bson} (h : b.finished = true) (hs : b.data.length < 2147483648) :
    bsonSize (some b) = b.data.length := by
  simp [bsonSize, h, wrap32_ofNat hs]

/-! ## Words and sizes in an image -/

theorem bsonStreamDocSize_leBytes {n : Nat} (h : n < 2147483648) (rest : Bytes) :
    bsonStreamDocSize (leBytes 4 n ++ rest) 0 = .ok n := by
  have hload : load (leBytes 4 n ++ rest) 4 = .ok (leBytes 4 n) := by
    simpa using load_append (leBytes 4 n) rest
  have hval : leNat (leBytes 4 n) = n := leNat_leBytes_of_lt (by omega)
  simp only [bsonStreamDocSize, List.drop_zero, hload, Program.ok_bind, hval, wrap32_ofNat h]
  rfl

theorem bsonStreamDocSize_drop (doc : Bytes) (pos : Nat) :
    bsonStreamDocSize doc pos = bsonStreamDocSize (doc.drop pos) 0 := by
  simp [bsonStreamDocSize]

/-- The size the library computes for a value is the number of its bytes. -/
theorem bsonGetBlockSize_encode (v : Value) (rest : Bytes) (h : v.encode.length < 2147483648) :
    bsonGetBlockSize v.type (v.encode ++ rest) = .ok v.encode.length := by
  cases v with
  | double | undefined | boolean | utcDatetime | null | int32 | timestamp | int64 | min | max =>
      simp [Value.type, Value.encode, bsonGetBlockSize]
  | oid o => simp [Value.type, Value.encode, bsonGetBlockSize, o.length_eq]
  | string s | jsCode s | symbol s =>
      simp only [Value.encode, textImage_length] at h
      simp only [Value.type, Value.encode, bsonGetBlockSize, textImage_length]
      rw [textImage, List.append_assoc, bsonStreamDocSize_leBytes (by omega)]
      simp only [Program.ok_bind]
      rw [wrap32_of_range (by omega) (by omega)]
      simp only [pure, Except.pure, Except.ok.injEq]
      omega
  | document d | array d =>
      simp only [Value.encode, frame_length] at h
      simp only [Value.type, Value.encode, bsonGetBlockSize, frame_length]
      rw [frame, List.append_assoc, bsonStreamDocSize_leBytes h]
  | binary subtype data =>
      simp only [Value.encode, List.length_append, leBytes_length, List.length_cons] at h
      simp only [Value.type, Value.encode, bsonGetBlockSize, List.length_append, leBytes_length,
        List.length_cons]
      rw [List.append_assoc, bsonStreamDocSize_leBytes (by omega)]
      simp only [Program.ok_bind]
      rw [wrap32_of_range (by omega) (by omega)]
      simp only [pure, Except.pure, Except.ok.injEq]
      omega
  | regexp r o =>
      simp only [Value.encode, List.length_append, CString.image_length] at h
      have hopt : (r.image ++ (o.image ++ rest)).drop (r.length + 1) = o.image ++ rest := by
        rw [← CString.image_length, List.drop_left]
      simp only [Value.type, Value.encode, bsonGetBlockSize, List.append_assoc,
        CString.load_image, Program.ok_bind, hopt, List.length_append, CString.image_length]
      rw [wrap32_of_range (by omega) (by omega)]
      simp only [pure, Except.pure, Except.ok.injEq]
      omega
  | dbpointer ns o =>
      simp only [Value.encode, List.length_append, textImage_length, o.length_eq] at h
      simp only [Value.type, Value.encode, bsonGetBlockSize, List.length_append,
        textImage_length, o.length_eq]
      rw [textImage, List.append_assoc, List.append_assoc, bsonStreamDocSize_leBytes (by omega)]
      simp only [Program.ok_bind]
      rw [wrap32_of_range (by omega) (by omega)]
      simp only [pure, Except.pure, Except.ok.injEq]
      omega
  | jsCodeWScope s scope =>
      simp only [Value.encode, List.length_append, leBytes_length] at h
      simp only [Value.type, Value.encode, bsonGetBlockSize]
      rw [List.append_assoc, bsonStreamDocSize_leBytes (by simpa using h)]
      simp

/-! ## Reading an element -/

namespace Bson.Holds

variable {b : Bson} {pre post : Bytes} {key : CString} {value : Value}

theorem data_on (h : b.Holds pre key value post) (pos : Nat) :
    (BsonCursor.on b pos key).data = b.data := by
  simp [BsonCursor.data, BsonCursor.on, bsonData_finished h.finished]

theorem length_eq (h : b.Holds pre key value post) :
    b.data.length = pre.length + (key.length + 2 + value.encode.length) + post.length := by
  rw [h.data_eq, List.length_append, List.length_append, element_length]
  omega

theorem encode_small (h : b.Holds pre key value post) : value.encode.length < 2147483648 := by
  have hlen := h.length_eq
  have hs := h.small
  omega

/-- The bytes from the element on. -/
theorem drop_pre (h : b.Holds pre key value post) :
    b.data.drop pre.length = element key value ++ post := by
  rw [h.data_eq, List.drop_left]

theorem drop_key (h : b.Holds pre key value post) :
    b.data.drop (pre.length + 1) = key.image ++ (value.encode ++ post) := by
  rw [← List.drop_drop, h.drop_pre]
  simp [element]

/-- The bytes from the value on. -/
theorem drop_value (h : b.Holds pre key value post) :
    b.data.drop (pre.length + key.length + 2) = value.encode ++ post := by
  have hsplit : pre.length + key.length + 2 = pre.length + 1 + key.image.length := by
    simp only [CString.image_length]
    omega
  rw [hsplit, ← List.drop_drop, h.drop_key, List.drop_left]

theorem value_on (h : b.Holds pre key value post) :
    (BsonCursor.on b pre.length key).value = value.encode ++ post := by
  rw [BsonCursor.value, h.data_on]
  exact h.drop_value

theorem type_on (h : b.Holds pre key value post) :
    bsonCursorType (some (.on b pre.length key)) = .ok value.type := by
  have hpos : ¬ (BsonCursor.on b pre.length key).pos < 4 := Nat.not_lt.mpr h.pre_length
  have hdrop : (BsonCursor.on b pre.length key).data.drop (BsonCursor.on b pre.length key).pos
      = element key value ++ post := by
    rw [h.data_on]
    exact h.drop_pre
  simp only [bsonCursorType, if_neg hpos, hdrop, element, List.cons_append, byteAt,
    Program.ok_bind, BsonType.ofByte_toByte value.type_ne_other]
  rfl

theorem key_on (h : b.Holds pre key value post) :
    bsonCursorKey (some (.on b pre.length key)) = .ok (some key) := by
  have hdrop : (BsonCursor.on b pre.length key).data.drop (pre.length + 1)
      = key.image ++ (value.encode ++ post) := by
    rw [h.data_on]
    exact h.drop_key
  show (CString.load ((BsonCursor.on b pre.length key).data.drop (pre.length + 1)) >>= _) = _
  rw [hdrop, CString.load_image]
  rfl

theorem blockSize_on (h : b.Holds pre key value post) :
    bsonGetBlockSize value.type (b.data.drop (pre.length + key.length + 2))
      = .ok value.encode.length := by
  rw [h.drop_value]
  exact bsonGetBlockSize_encode value post h.encode_small

/-- A getter for the type of the element runs on its value. -/
theorem get_on {α : Type} (h : b.Holds pre key value post)
    (get : BsonCursor → Except Halt α) :
    bsonCursorGet value.type (some (.on b pre.length key)) get
      = (get (.on b pre.length key) >>= fun a => .ok (some a)) := by
  simp only [bsonCursorGet, h.type_on, Program.ok_bind, ne_eq, not_true, if_false]
  rfl

/-- A getter for another type returns `FALSE`. -/
theorem get_on_ne {α : Type} (h : b.Holds pre key value post) {type : BsonType}
    (htype : value.type ≠ type) (get : BsonCursor → Except Halt α) :
    bsonCursorGet type (some (.on b pre.length key)) get = .ok none := by
  simp only [bsonCursorGet, h.type_on, Program.ok_bind, if_pos htype]
  rfl

end Bson.Holds

end LibMongo
