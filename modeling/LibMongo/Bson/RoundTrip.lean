import LibMongo.Bson.Getters

/-!
# Decoding undoes encoding

An `Arg` is one call of the `bson_append_*` family without its object and its
key, with the arguments as the caller gives them.  `Args` is a sequence of
calls, and a document argument is such a sequence again, built and finished on
its own before it is appended.

`Args.build` runs the calls on a new object and finishes it.  `Args.doc` is
the tree the calls stand for, and `Args.build_encodes` says the object encodes
it.  `Visits` is what a caller sees who walks an object with
`bson_cursor_next` and asks for the key, the type and the value of each
element.
-/

namespace LibMongo

open Bytes

/-! ## Append calls -/

mutual

/-- A call of the `bson_append_*` family. -/
inductive Arg where
  | double (val : GDouble)
  | string (val : Bytes) (length : Int)
  | document (doc : Args)
  | array (array : Args)
  | binary (subtype : UInt8) (data : Bytes) (size : Int)
  | oid (oid : Oid)
  | boolean (value : Bool)
  | utcDatetime (ts : BitVec 64)
  | null
  | regex (regexp options : CString)
  | javascript (js : Bytes) (len : Int)
  | symbol (symbol : Bytes) (len : Int)
  | javascriptWScope (js : Bytes) (len : Int) (scope : Args)
  | int32 (i : BitVec 32)
  | timestamp (ts : BitVec 64)
  | int64 (i : BitVec 64)

/-- Calls in order, each with its key. -/
inductive Args where
  | nil
  | cons (key : CString) (arg : Arg) (rest : Args)

end

/-- A `gboolean`. -/
def gboolean (value : Bool) : BitVec 32 := if value then 1 else 0

mutual

/-- Whether the calls succeed, those for its documents included, and the object
they leave. -/
def Arg.append (b : Option Bson) (key : CString) : Arg → Bool × Option Bson
  | .double val => bsonAppendDouble b (some key) val
  | .string val length => bsonAppendString b (some key) (some val) length
  | .document doc =>
      let (built, sub) := doc.appendTo (some bsonNew)
      let (ok, b) := bsonAppendDocument b (some key) (bsonFinish sub).2
      (built && ok, b)
  | .array array =>
      let (built, sub) := array.appendTo (some bsonNew)
      let (ok, b) := bsonAppendArray b (some key) (bsonFinish sub).2
      (built && ok, b)
  | .binary subtype data size => bsonAppendBinary b (some key) subtype (some data) size
  | .oid oid => bsonAppendOid b (some key) (some oid)
  | .boolean value => bsonAppendBoolean b (some key) (gboolean value)
  | .utcDatetime ts => bsonAppendUtcDatetime b (some key) ts
  | .null => bsonAppendNull b (some key)
  | .regex regexp options => bsonAppendRegex b (some key) (some regexp) (some options)
  | .javascript js len => bsonAppendJavascript b (some key) (some js) len
  | .symbol symbol len => bsonAppendSymbol b (some key) (some symbol) len
  | .javascriptWScope js len scope =>
      let (built, sub) := scope.appendTo (some bsonNew)
      let (ok, b) := bsonAppendJavascriptWScope b (some key) (some js) len (bsonFinish sub).2
      (built && ok, b)
  | .int32 i => bsonAppendInt32 b (some key) i
  | .timestamp ts => bsonAppendTimestamp b (some key) ts
  | .int64 i => bsonAppendInt64 b (some key) i

/-- The calls one after the other. -/
def Args.appendTo (b : Option Bson) : Args → Bool × Option Bson
  | .nil => (true, b)
  | .cons key arg rest =>
      let (ok, b) := arg.append b key
      let (oks, b) := rest.appendTo b
      (ok && oks, b)

end

/-- `bson_new`, the calls and `bson_finish`. -/
def Args.build (d : Args) : Bool × Option Bson :=
  let (ok, b) := d.appendTo (some bsonNew)
  (ok, (bsonFinish b).2)

/-! ## The tree of a sequence of calls -/

/-- The text a string-like call stores. -/
def textContent (val : Bytes) (length : Int) : Bytes := val.take (textLength val length)

mutual

/-- The value that an argument is encoded to. -/
def Arg.value : Arg → Value
  | .double val => .double val
  | .string val length => .string (textContent val length)
  | .document doc => .document doc.doc
  | .array array => .array array.doc
  | .binary subtype data size => .binary subtype (data.take size.toNat)
  | .oid oid => .oid oid
  | .boolean value => .boolean (if value then 1 else 0)
  | .utcDatetime ts => .utcDatetime ts
  | .null => .null
  | .regex regexp options => .regexp regexp options
  | .javascript js len => .jsCode (textContent js len)
  | .symbol symbol len => .symbol (textContent symbol len)
  | .javascriptWScope js len scope => .jsCodeWScope (textContent js len) scope.doc
  | .int32 i => .int32 i
  | .timestamp ts => .timestamp ts
  | .int64 i => .int64 i

/-- The document that arguments are encoded to. -/
def Args.doc : Args → Doc
  | .nil => .nil
  | .cons key arg rest => .cons key arg.value rest.doc

end

/-- An explicit length stays inside the buffer, and the text has no NUL. -/
def TextFits (val : Bytes) (length : Int) : Prop :=
  length.toNat ≤ val.length ∧ (0 : UInt8) ∉ textContent val length

mutual

/-- The arguments are what the caller may pass: lengths stay inside the buffers, and
texts have no NUL. -/
def Arg.Fits : Arg → Prop
  | .string val length => TextFits val length
  | .document doc => doc.Fits
  | .array array => array.Fits
  | .binary _ data size => size.toNat ≤ data.length
  | .javascript js len => TextFits js len
  | .symbol symbol len => TextFits symbol len
  | .javascriptWScope js len scope => TextFits js len ∧ scope.Fits
  | _ => True

/-- Every argument is in the range of its C type. -/
def Args.Fits : Args → Prop
  | .nil => True
  | .cons _ arg rest => arg.Fits ∧ rest.Fits

end

/-! ## The object encodes the tree -/

/-- The text that is stored is as long as it is said to be. -/
theorem textContent_length {val : Bytes} {length : Int} (h : length.toNat ≤ val.length) :
    (textContent val length).length = textLength val length := by
  rw [textContent, List.length_take, Nat.min_eq_left]
  unfold textLength
  split
  next => exact h
  next => exact (List.takeWhile_prefix (l := val) (· ≠ (0 : UInt8))).length_le

theorem textBytes_eq {val : Bytes} {length : Int} (h : length.toNat ≤ val.length) :
    textBytes val length = textImage (textContent val length) := by
  rw [textBytes, textImage, textContent_length h, List.append_assoc]
  rfl

/-- A finished object made of an open one. -/
theorem bsonFinish_elems (elems : Bytes) :
    bsonFinish (some ⟨leBytes 4 0 ++ elems, false⟩) = (true, some ⟨frame elems, true⟩) := by
  rw [bsonFinish_open (by simp), frame]

theorem bsonAppendStringElement_ok {data : Bytes} {type : BsonType} {key : CString} {val : Bytes}
    {length : Int} (h : length.toNat ≤ val.length)
    (hok : (bsonAppendStringElement (some ⟨data, false⟩) type (some key) (some val) length).1
      = true) :
    bsonAppendStringElement (some ⟨data, false⟩) type (some key) (some val) length
      = (true, some ⟨data ++ type.toByte :: (key.image ++ textImage (textContent val length)),
          false⟩) := by
  by_cases hlen : length = 0 ∨ length < -1
  · simp [bsonAppendStringElement, hlen] at hok
  · simp only [bsonAppendStringElement, if_neg hlen, bsonAppendElement_open, textBytes_eq h]

theorem bsonAppendDocumentElement_ok {data elems : Bytes} {type : BsonType} {key : CString}
    (hok : (bsonAppendDocumentElement (some ⟨data, false⟩) type (some key)
      (some ⟨frame elems, true⟩)).1 = true) :
    bsonAppendDocumentElement (some ⟨data, false⟩) type (some key) (some ⟨frame elems, true⟩)
      = (true, some ⟨data ++ type.toByte :: (key.image ++ frame elems), false⟩) := by
  by_cases hsize : bsonSize (some ⟨frame elems, true⟩) < 0
  · simp [bsonAppendDocumentElement, hsize] at hok
  · simp only [bsonAppendDocumentElement, if_neg hsize, bsonAppendElement_open]
    rfl

/-- The bytes that are stored for code with a scope. -/
theorem scopeBytes_eq {elems js : Bytes} {len : Int} (h : len.toNat ≤ js.length) :
    leBytes 4 (textLength js len + 1 + 4 + 4 + (frame elems).length) ++ textBytes js len
        ++ frame elems
      = leBytes 4 (4 + (textImage (textContent js len) ++ frame elems).length)
          ++ (textImage (textContent js len) ++ frame elems) := by
  have hlen : textLength js len + 1 + 4 + 4 + (frame elems).length
      = 4 + (textImage (textContent js len) ++ frame elems).length := by
    rw [List.length_append, textImage_length, textContent_length h]
    omega
  rw [hlen, textBytes_eq h, List.append_assoc]

theorem bsonAppendJavascriptWScope_ok {data elems js : Bytes} {key : CString} {len : Int}
    (h : len.toNat ≤ js.length)
    (hok : (bsonAppendJavascriptWScope (some ⟨data, false⟩) (some key) (some js) len
      (some ⟨frame elems, true⟩)).1 = true) :
    bsonAppendJavascriptWScope (some ⟨data, false⟩) (some key) (some js) len
        (some ⟨frame elems, true⟩)
      = (true, some ⟨data ++ BsonType.jsCodeWScope.toByte :: (key.image
          ++ (leBytes 4 (4 + (textImage (textContent js len) ++ frame elems).length)
            ++ (textImage (textContent js len) ++ frame elems))), false⟩) := by
  by_cases hbad : bsonSize (some ⟨frame elems, true⟩) < 0 ∨ len < -1
  · simp [bsonAppendJavascriptWScope, hbad] at hok
  · simp only [bsonAppendJavascriptWScope, if_neg hbad, bsonAppendElement_open, scopeBytes_eq h]

mutual

/-- A call that succeeds appends the image of its element. -/
theorem Arg.append_ok : ∀ (a : Arg) {data : Bytes} {key : CString}, a.Fits →
    (a.append (some ⟨data, false⟩) key).1 = true →
    a.append (some ⟨data, false⟩) key = (true, some ⟨data ++ element key a.value, false⟩)
  | .double val, data, key, _, _ => bsonAppendElement_open .double key _
  | .string val length, data, key, hfit, hok => by
      rw [Arg.Fits] at hfit
      rw [Arg.append] at hok ⊢
      rw [bsonAppendString, bsonAppendStringElement_ok hfit.1 hok, Arg.value, element, Value.encode]
      rfl
  | .document doc, data, key, hfit, hok => by
      rw [Arg.Fits] at hfit
      simp only [Arg.append, Bool.and_eq_true] at hok
      have hsub := @Args.appendTo_ok doc (leBytes 4 0) hfit hok.1
      simp only [Arg.append, bsonNew, bsonNewSized, hsub, bsonFinish_elems] at hok ⊢
      rw [bsonAppendDocument, bsonAppendDocumentElement_ok hok.2, Arg.value, element, Value.encode]
      rfl
  | .array array, data, key, hfit, hok => by
      rw [Arg.Fits] at hfit
      simp only [Arg.append, Bool.and_eq_true] at hok
      have hsub := @Args.appendTo_ok array (leBytes 4 0) hfit hok.1
      simp only [Arg.append, bsonNew, bsonNewSized, hsub, bsonFinish_elems] at hok ⊢
      rw [bsonAppendArray, bsonAppendDocumentElement_ok hok.2, Arg.value, element, Value.encode]
      rfl
  | .binary subtype bytes size, data, key, hfit, hok => by
      rw [Arg.Fits] at hfit
      simp only [Arg.append, bsonAppendBinary] at hok ⊢
      by_cases hsize : size ≤ 0
      · simp [hsize] at hok
      · have hlen : (bytes.take size.toNat).length = size.toNat := by
          rw [List.length_take, Nat.min_eq_left hfit]
        rw [if_neg hsize, bsonAppendElement_open, Arg.value, element, Value.encode, hlen,
          List.append_assoc]
        rfl
  | .oid oid, data, key, _, _ => by
      simp only [Arg.append, bsonAppendOid, Arg.value, element, Value.encode]
      exact bsonAppendElement_open .oid key _
  | .boolean value, data, key, _, _ => by
      cases value <;> exact bsonAppendElement_open .boolean key _
  | .utcDatetime ts, data, key, _, _ => bsonAppendElement_open .utcDatetime key _
  | .null, data, key, _, _ => by
      simp only [Arg.append, bsonAppendNull, bsonAppendElementHeader_open, Arg.value, element,
        Value.encode, List.append_nil]
      rfl
  | .regex regexp options, data, key, _, _ => by
      simp only [Arg.append, bsonAppendRegex, Arg.value, element, Value.encode]
      exact bsonAppendElement_open .regexp key _
  | .javascript js len, data, key, hfit, hok => by
      rw [Arg.Fits] at hfit
      rw [Arg.append] at hok ⊢
      rw [bsonAppendJavascript, bsonAppendStringElement_ok hfit.1 hok, Arg.value, element,
        Value.encode]
      rfl
  | .symbol symbol len, data, key, hfit, hok => by
      rw [Arg.Fits] at hfit
      rw [Arg.append] at hok ⊢
      rw [bsonAppendSymbol, bsonAppendStringElement_ok hfit.1 hok, Arg.value, element, Value.encode]
      rfl
  | .javascriptWScope js len scope, data, key, hfit, hok => by
      rw [Arg.Fits] at hfit
      simp only [Arg.append, Bool.and_eq_true] at hok
      have hsub := @Args.appendTo_ok scope (leBytes 4 0) hfit.2 hok.1
      simp only [Arg.append, bsonNew, bsonNewSized, hsub, bsonFinish_elems] at hok ⊢
      rw [bsonAppendJavascriptWScope_ok hfit.1.1 hok.2, Arg.value, element, Value.encode]
      rfl
  | .int32 i, data, key, _, _ => bsonAppendElement_open .int32 key _
  | .timestamp ts, data, key, _, _ => bsonAppendElement_open .timestamp key _
  | .int64 i, data, key, _, _ => bsonAppendElement_open .int64 key _

/-- Calls that succeed append the images of their elements in order. -/
theorem Args.appendTo_ok : ∀ (d : Args) {data : Bytes}, d.Fits →
    (d.appendTo (some ⟨data, false⟩)).1 = true →
    d.appendTo (some ⟨data, false⟩) = (true, some ⟨data ++ d.doc.elems, false⟩)
  | .nil, data, _, _ => by simp [Args.appendTo, Args.doc]
  | .cons key arg rest, data, hfit, hok => by
      rw [Args.Fits] at hfit
      simp only [Args.appendTo, Bool.and_eq_true] at hok
      have harg := arg.append_ok hfit.1 hok.1
      simp only [harg] at hok
      have hrest := rest.appendTo_ok hfit.2 hok.2
      simp only [Args.appendTo, harg, hrest, Args.doc, Doc.elems_cons, List.append_assoc,
        Bool.and_self]

end

/-- Calls that succeed build an object that encodes their tree. -/
theorem Args.build_eq {d : Args} (hfit : d.Fits) (hok : d.build.1 = true) :
    d.build = (true, some ⟨d.doc.encode, true⟩) := by
  have happ := @Args.appendTo_ok d (leBytes 4 0) hfit hok
  have hbuild : d.build = ((d.appendTo (some ⟨leBytes 4 0, false⟩)).1,
      (bsonFinish (d.appendTo (some ⟨leBytes 4 0, false⟩)).2).2) := rfl
  rw [hbuild, happ, bsonFinish_elems, Doc.encode]

theorem Args.build_encodes {d : Args} {b : Bson} (hfit : d.Fits) (hbuild : d.build = (true, some b))
    (hsmall : b.data.length < 2147483648) : b.Encodes d.doc := by
  have heq := Args.build_eq hfit (by rw [hbuild])
  rw [hbuild, Prod.mk.injEq, Option.some.injEq] at heq
  obtain ⟨-, rfl⟩ := heq
  exact ⟨rfl, rfl, hsmall⟩

/-! ## Walking the object -/

/-- The result of a call of `bson_cursor_next` after `n` earlier calls. -/
def bsonCursorNextAfter : Nat → Option BsonCursor → Except Halt (Bool × Option BsonCursor)
  | 0, c => bsonCursorNext c
  | n + 1, c => do
      let (_, c) ← bsonCursorNext c
      bsonCursorNextAfter n c

/-- The getter for the type of an argument returns the argument. -/
def Arg.ReadAt (c : Option BsonCursor) : Arg → Prop
  | .double val => bsonCursorGetDouble c = .ok (some val)
  | .string val length =>
      ∃ s : CString, s.bytes = textContent val length ∧ bsonCursorGetString c = .ok (some s)
  | .document doc => bsonCursorGetDocument c = .ok doc.build.2
  | .array doc => bsonCursorGetArray c = .ok doc.build.2
  | .binary subtype data size =>
      ∃ p, bsonCursorGetBinary c = .ok (some p) ∧ p.subtype = subtype ∧ p.size = size ∧
        load p.data size.toNat = .ok (data.take size.toNat)
  | .oid o => bsonCursorGetOid c = .ok (some o)
  | .boolean value => bsonCursorGetBoolean c = .ok (some (gboolean value))
  | .utcDatetime ts => bsonCursorGetUtcDatetime c = .ok (some ts)
  | .null => True
  | .regex regexp options => bsonCursorGetRegex c = .ok (some (regexp, options))
  | .javascript js len =>
      ∃ s : CString, s.bytes = textContent js len ∧ bsonCursorGetJavascript c = .ok (some s)
  | .symbol sym len =>
      ∃ s : CString, s.bytes = textContent sym len ∧ bsonCursorGetSymbol c = .ok (some s)
  | .javascriptWScope js len scope =>
      ∃ s : CString, ∃ b, s.bytes = textContent js len ∧ scope.build.2 = some b ∧
        bsonCursorGetJavascriptWScope c = .ok (some (s, b))
  | .int32 i => bsonCursorGetInt32 c = .ok (some i)
  | .timestamp ts => bsonCursorGetTimestamp c = .ok (some ts)
  | .int64 i => bsonCursorGetInt64 c = .ok (some i)

/-- From the cursor on, `bson_cursor_next` visits the elements of the calls in
order, each with its key, its type and its value, and then returns `FALSE` at
every call. -/
def Visits (c : Option BsonCursor) : Args → Prop
  | .nil => ∀ n, bsonCursorNextAfter n c = .ok (false, c)
  | .cons key arg rest =>
      ∃ c', bsonCursorNext c = .ok (true, c') ∧ bsonCursorKey c' = .ok (some key) ∧
        bsonCursorType c' = .ok arg.value.type ∧ arg.ReadAt c' ∧ Visits c' rest

theorem ofBytes_textContent {val : Bytes} {length : Int} (h : TextFits val length) :
    (CString.ofBytes (textContent val length)).bytes = textContent val length :=
  congrArg CString.bytes (CString.ofBytes_bytes ⟨textContent val length, h.2⟩)

/-- A call that runs with the right verdict inside a sequence that succeeds. -/
theorem Arg.readAt {b : Bson} {d₁ d₂ : Doc} {key : CString} {data : Bytes} {a : Arg}
    (hfit : a.Fits) (hok : (a.append (some ⟨data, false⟩) key).1 = true)
    (h : b.Encodes (d₁.append (.cons key a.value d₂))) :
    a.ReadAt (some (.behind b d₁ key)) := by
  cases a with
  | double val => exact h.getDouble
  | string val length =>
      rw [Arg.Fits] at hfit
      exact ⟨_, ofBytes_textContent hfit, h.getString⟩
  | document doc =>
      rw [Arg.Fits] at hfit
      simp only [Arg.append, Bool.and_eq_true] at hok
      rw [Arg.ReadAt, Args.build_eq hfit hok.1]
      exact h.getDocument
  | array array =>
      rw [Arg.Fits] at hfit
      simp only [Arg.append, Bool.and_eq_true] at hok
      rw [Arg.ReadAt, Args.build_eq hfit hok.1]
      exact h.getArray
  | binary subtype bytes size =>
      rw [Arg.Fits] at hfit
      obtain ⟨post, hget⟩ := h.getBinary
      have hpos : ¬ size ≤ 0 := by
        intro hle
        simp [Arg.append, bsonAppendBinary, hle] at hok
      have hlen : (bytes.take size.toNat).length = size.toNat := by
        rw [List.length_take, Nat.min_eq_left hfit]
      refine ⟨_, hget, rfl, ?_, ?_⟩
      · show ((bytes.take size.toNat).length : Int) = size
        omega
      · have hload := load_append (bytes.take size.toNat) post
        rwa [hlen] at hload
  | oid oid => exact h.getOid
  | boolean value =>
      cases value <;> exact h.getBoolean
  | utcDatetime ts => exact h.getUtcDatetime
  | null => trivial
  | regex regexp options => exact h.getRegex
  | javascript js len =>
      rw [Arg.Fits] at hfit
      exact ⟨_, ofBytes_textContent hfit, h.getJavascript⟩
  | symbol symbol len =>
      rw [Arg.Fits] at hfit
      exact ⟨_, ofBytes_textContent hfit, h.getSymbol⟩
  | javascriptWScope js len scope =>
      rw [Arg.Fits] at hfit
      simp only [Arg.append, Bool.and_eq_true] at hok
      refine ⟨_, _, ofBytes_textContent hfit.1, ?_, h.getJavascriptWScope⟩
      rw [Args.build_eq hfit.2 hok.1]
  | int32 i => exact h.getInt32
  | timestamp ts => exact h.getTimestamp
  | int64 i => exact h.getInt64

/-- A call that returns `FALSE` without moving the cursor does so ever after. -/
theorem bsonCursorNextAfter_stuck {c : Option BsonCursor}
    (h : bsonCursorNext c = .ok (false, c)) (n : Nat) :
    bsonCursorNextAfter n c = .ok (false, c) := by
  induction n with
  | zero => exact h
  | succ n ih =>
      rw [bsonCursorNextAfter, h, Program.ok_bind]
      exact ih

/-- The walk over the calls still to come, from a cursor in front of their first
element. -/
theorem visits_of_encodes {b : Bson} : ∀ (d : Args) (before : Doc) {data : Bytes} {c : BsonCursor},
    d.Fits → (d.appendTo (some ⟨data, false⟩)).1 = true → b.Encodes (before.append d.doc) →
    c.obj = b → bsonCursorNextPos c = .ok (some (4 + before.elems.length : Nat)) →
    Visits (some c) d
  | .nil, before, data, c, _, _, h, hobj, hpos => by
      intro n
      rw [Args.doc, Doc.append_nil] at h
      exact bsonCursorNextAfter_stuck (h.next_nil hobj hpos) n
  | .cons key arg rest, before, data, c, hfit, hok, h, hobj, hpos => by
      rw [Args.Fits] at hfit
      rw [Args.doc] at h
      simp only [Args.appendTo, Bool.and_eq_true] at hok
      have hrest := hok.2
      rw [Arg.append_ok arg hfit.1 hok.1] at hrest
      refine ⟨some (.behind b before key), h.next_cons hobj hpos, h.cursorKey, h.cursorType,
        Arg.readAt hfit.1 hok.1 h, ?_⟩
      have hnext : b.Encodes ((before.append (.cons key arg.value .nil)).append rest.doc) := by
        rw [Doc.append_assoc, Doc.cons_append, Doc.nil_append]
        exact h
      exact visits_of_encodes rest _ hfit.2 hrest hnext rfl h.nextPos

/-- **Decoding undoes encoding.**  Walking the object that successful append calls
built, of less than 2 GiB, gives back the calls. -/
theorem bson_decode_encode (d : Args) (b : Bson) (hfit : d.Fits)
    (hbuild : d.build = (true, some b)) (hsmall : b.data.length < 2147483648) :
    Visits (bsonCursorNew (some b)) d := by
  have henc := Args.build_encodes hfit hbuild hsmall
  have hok : (d.appendTo (some bsonNew)).1 = true := congrArg Prod.fst hbuild
  rw [henc.cursorNew]
  exact visits_of_encodes d .nil hfit hok henc rfl (bsonCursorNextPos_new b)

/-- A document with a string, an embedded document and a code with scope. -/
def sampleArgs : Args :=
  .cons (.ascii ['s']) (.string [0x68, 0x69, 0x00, 0x78] (-1))
    (.cons (.ascii ['d']) (.document (.cons (.ascii ['i']) (.int32 7) .nil))
      (.cons (.ascii ['c']) (.javascriptWScope [0x66] 1 (.cons (.ascii ['n']) .null .nil)) .nil))

theorem bson_decode_encode_sample :
    ∃ b, sampleArgs.build = (true, some b) ∧ Visits (bsonCursorNew (some b)) sampleArgs := by
  have hfit : sampleArgs.Fits := by
    simp only [sampleArgs, Args.Fits, Arg.Fits, TextFits]
    decide
  have hbuild := Args.build_eq hfit (by decide)
  exact ⟨_, hbuild, bson_decode_encode _ _ hfit hbuild (by decide)⟩

end LibMongo
