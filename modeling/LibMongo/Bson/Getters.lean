import LibMongo.Bson.Walk

/-!
# What the getters read

Each getter on a cursor that stands on an element of its type gives the value
of the element.  A string is read up to its first NUL, and an embedded
document comes back as a finished object with the bytes of its image.
-/

namespace LibMongo

open Bytes

/-! ## Values behind a pointer -/

/-- A text in memory is read up to its first NUL. -/
theorem load_terminated (s rest : Bytes) :
    CString.load (s ++ 0 :: rest) = .ok (CString.ofBytes s) := by
  have hmem : (0 : UInt8) ∈ s ++ 0 :: rest := by simp
  have hof : CString.ofBytes (s ++ 0 :: rest) = CString.ofBytes s := by
    apply CString.ext_bytes
    simp only [CString.ofBytes]
    induction s with
    | nil => simp
    | cons x s ih =>
        by_cases hx : x = 0
        · simp [hx]
        · simpa [hx] using ih (by simp)
  rw [CString.load, if_pos hmem, hof]

theorem load_textImage (s post : Bytes) :
    CString.load ((textImage s ++ post).drop 4) = .ok (CString.ofBytes s) := by
  have hdrop : (textImage s ++ post).drop 4 = s ++ 0 :: post := by
    rw [textImage, List.append_assoc, List.drop_left' (by simp)]
    simp
  rw [hdrop, load_terminated]

theorem load_word64 (x : BitVec 64) (post : Bytes) :
    (load (leBytes 8 x.toNat ++ post) 8 >>= fun bytes => .ok (BitVec.ofNat 64 (leNat bytes)))
      = (.ok x : Except Halt (BitVec 64)) := by
  have hload : load (leBytes 8 x.toNat ++ post) 8 = .ok (leBytes 8 x.toNat) := by
    simpa using load_append (leBytes 8 x.toNat) post
  rw [hload, Program.ok_bind, ofNat_leNat_leBytes8]

theorem load_word32 (x : BitVec 32) (post : Bytes) :
    (load (leBytes 4 x.toNat ++ post) 4 >>= fun bytes => .ok (BitVec.ofNat 32 (leNat bytes)))
      = (.ok x : Except Halt (BitVec 32)) := by
  have hload : load (leBytes 4 x.toNat ++ post) 4 = .ok (leBytes 4 x.toNat) := by
    simpa using load_append (leBytes 4 x.toNat) post
  rw [hload, Program.ok_bind, ofNat_leNat_leBytes4]

theorem loadOid_append (o : Oid) (post : Bytes) : loadOid (o.bytes ++ post) = .ok o := by
  have hle : 12 ≤ (o.bytes ++ post).length := by simp [o.length_eq]
  rw [loadOid, dif_pos hle]
  cases o with
  | mk bytes length_eq =>
      simp only [Except.ok.injEq, Oid.mk.injEq]
      rw [List.take_left' length_eq]

/-- The copy of an embedded document is a finished object with the same bytes. -/
theorem bsonCopyDocument_frame (elems post : Bytes) (h : elems.length + 5 < 2147483648) :
    bsonCopyDocument (frame elems ++ post) = .ok ⟨frame elems, true⟩ := by
  have hsize : bsonStreamDocSize (frame elems ++ post) 0
      = .ok ((elems.length + 5 : Nat) : Int) := by
    rw [frame, List.append_assoc, bsonStreamDocSize_leBytes h]
  have hwrap : wrap32 (((elems.length + 5 : Nat) : Int) - 4 - 1) = elems.length := by
    rw [wrap32_of_range (by omega) (by omega)]
    omega
  have hneg : ¬ ((elems.length : Int) < 0) := by omega
  have hdrop : (frame elems ++ post).drop 4 = elems ++ ([0] ++ post) := by
    rw [frame, List.append_assoc, List.drop_left' (by simp), List.append_assoc]
  have hload : load (elems ++ ([0] ++ post)) (elems.length : Int).toNat = .ok elems := by
    rw [Int.toNat_natCast, load_append]
  have hfinish : bsonFinish (gByteArrayAppend (some (bsonNewSized elems.length)) elems)
      = (true, some ⟨frame elems, true⟩) := by
    show bsonFinish (some ⟨leBytes 4 0 ++ elems, false⟩) = _
    rw [bsonFinish_open (by simp), frame]
  simp only [bsonCopyDocument, hsize, Program.ok_bind, hwrap, if_neg hneg, hdrop, hload, hfinish]
  rfl

/-! ## Getters on an element -/

section Getters

variable {b : Bson} {d₁ d₂ : Doc} {key : CString}

/-- A getter that only looks at the bytes from the value on. -/
theorem Bson.Encodes.get_eq {α : Type} {v : Value} {get : BsonCursor → Except Halt α} {a : α}
    (h : b.Encodes (d₁.append (.cons key v d₂)))
    (hget : ∀ c : BsonCursor, ∀ post, c.value = v.encode ++ post → get c = .ok a) :
    bsonCursorGet v.type (some (.behind b d₁ key)) get = .ok (some a) := by
  obtain ⟨post, hvalue⟩ := h.cursorValue
  rw [h.get, hget _ post hvalue, Program.ok_bind]

/-- The texts differ only in their type. -/
theorem Bson.Encodes.getText {v : Value} {s : Bytes}
    (h : b.Encodes (d₁.append (.cons key v d₂))) (hv : v.encode = textImage s) :
    bsonCursorGetText v.type (some (.behind b d₁ key)) = .ok (some (CString.ofBytes s)) := by
  rw [bsonCursorGetText]
  refine h.get_eq fun c post hvalue => ?_
  rw [hvalue, hv]
  exact load_textImage s post

theorem Bson.Encodes.getString {s : Bytes}
    (h : b.Encodes (d₁.append (.cons key (.string s) d₂))) :
    bsonCursorGetString (some (.behind b d₁ key)) = .ok (some (CString.ofBytes s)) :=
  h.getText (by rw [Value.encode])

theorem Bson.Encodes.getJavascript {s : Bytes}
    (h : b.Encodes (d₁.append (.cons key (.jsCode s) d₂))) :
    bsonCursorGetJavascript (some (.behind b d₁ key)) = .ok (some (CString.ofBytes s)) :=
  h.getText (by rw [Value.encode])

theorem Bson.Encodes.getSymbol {s : Bytes}
    (h : b.Encodes (d₁.append (.cons key (.symbol s) d₂))) :
    bsonCursorGetSymbol (some (.behind b d₁ key)) = .ok (some (CString.ofBytes s)) :=
  h.getText (by rw [Value.encode])

/-- So do the values of eight bytes. -/
theorem Bson.Encodes.getWord64 {v : Value} {x : BitVec 64}
    (h : b.Encodes (d₁.append (.cons key v d₂))) (hv : v.encode = leBytes 8 x.toNat) :
    bsonCursorGetWord64 v.type (some (.behind b d₁ key)) = .ok (some x) := by
  rw [bsonCursorGetWord64]
  refine h.get_eq fun c post hvalue => ?_
  rw [hvalue, hv]
  exact load_word64 x post

theorem Bson.Encodes.getDouble {x : GDouble}
    (h : b.Encodes (d₁.append (.cons key (.double x) d₂))) :
    bsonCursorGetDouble (some (.behind b d₁ key)) = .ok (some x) :=
  h.getWord64 (by rw [Value.encode])

theorem Bson.Encodes.getUtcDatetime {x : BitVec 64}
    (h : b.Encodes (d₁.append (.cons key (.utcDatetime x) d₂))) :
    bsonCursorGetUtcDatetime (some (.behind b d₁ key)) = .ok (some x) :=
  h.getWord64 (by rw [Value.encode])

theorem Bson.Encodes.getTimestamp {x : BitVec 64}
    (h : b.Encodes (d₁.append (.cons key (.timestamp x) d₂))) :
    bsonCursorGetTimestamp (some (.behind b d₁ key)) = .ok (some x) :=
  h.getWord64 (by rw [Value.encode])

theorem Bson.Encodes.getInt64 {x : BitVec 64}
    (h : b.Encodes (d₁.append (.cons key (.int64 x) d₂))) :
    bsonCursorGetInt64 (some (.behind b d₁ key)) = .ok (some x) :=
  h.getWord64 (by rw [Value.encode])

theorem Bson.Encodes.getInt32 {x : BitVec 32}
    (h : b.Encodes (d₁.append (.cons key (.int32 x) d₂))) :
    bsonCursorGetInt32 (some (.behind b d₁ key)) = .ok (some x) :=
  h.get_eq fun c post hv => by
    rw [hv]
    exact load_word32 x post

theorem Bson.Encodes.getOid {o : Oid}
    (h : b.Encodes (d₁.append (.cons key (.oid o) d₂))) :
    bsonCursorGetOid (some (.behind b d₁ key)) = .ok (some o) :=
  h.get_eq fun c post hv => by
    rw [hv]
    exact loadOid_append o post

theorem Bson.Encodes.getBoolean {x : UInt8}
    (h : b.Encodes (d₁.append (.cons key (.boolean x) d₂))) :
    bsonCursorGetBoolean (some (.behind b d₁ key)) = .ok (some (BitVec.ofNat 32 x.toNat)) :=
  h.get_eq fun c post hv => by
    rw [hv]
    rfl

theorem Bson.Encodes.getRegex {r o : CString}
    (h : b.Encodes (d₁.append (.cons key (.regexp r o) d₂))) :
    bsonCursorGetRegex (some (.behind b d₁ key)) = .ok (some (r, o)) :=
  h.get_eq fun c post hv => by
    have hopt : (r.image ++ (o.image ++ post)).drop (r.length + 1) = o.image ++ post := by
      rw [← CString.image_length, List.drop_left]
    simp only [hv, Value.encode, List.append_assoc, CString.load_image, Program.ok_bind, hopt]
    rfl

/-- The data pointer of a binary element points to its bytes, and the size is
theirs. -/
theorem Bson.Encodes.getBinary_eq {subtype : UInt8} {data : Bytes}
    (h : b.Encodes (d₁.append (.cons key (.binary subtype data) d₂))) :
    bsonCursorGetBinary (some (.behind b d₁ key))
      = .ok (some ⟨subtype, data ++ (d₂.elems ++ [0]), data.length⟩) := by
  have hvalue := h.cursorValue_eq
  generalize d₂.elems ++ [0] = post at hvalue ⊢
  obtain ⟨pre, post', hh, -⟩ := h.holds
  have hsmall := hh.encode_small
  simp only [Value.encode, List.length_append, leBytes_length, List.length_cons] at hsmall
  simp only [Value.encode, List.append_assoc, List.cons_append] at hvalue
  have hsize : bsonStreamDocSize (leBytes 4 data.length ++ subtype :: (data ++ post)) 0
      = .ok (data.length : Int) := bsonStreamDocSize_leBytes (by omega) _
  have hsub : (leBytes 4 data.length ++ subtype :: (data ++ post)).drop 4
      = subtype :: (data ++ post) := List.drop_left' (by simp)
  have hdata : (leBytes 4 data.length ++ subtype :: (data ++ post)).drop (4 + 1)
      = data ++ post := by
    rw [← List.drop_drop, hsub]
    rfl
  show bsonCursorGet (Value.binary subtype data).type _ _ = _
  rw [h.get]
  simp only [hvalue, hsize, hsub, hdata, Program.ok_bind, byteAt]
  rfl

theorem Bson.Encodes.getBinary {subtype : UInt8} {data : Bytes}
    (h : b.Encodes (d₁.append (.cons key (.binary subtype data) d₂))) :
    ∃ post, bsonCursorGetBinary (some (.behind b d₁ key))
      = .ok (some ⟨subtype, data ++ post, data.length⟩) := ⟨_, h.getBinary_eq⟩

theorem Bson.Encodes.getDocument {e : Doc}
    (h : b.Encodes (d₁.append (.cons key (.document e) d₂))) :
    bsonCursorGetDocument (some (.behind b d₁ key)) = .ok (some ⟨e.encode, true⟩) := by
  obtain ⟨pre, post', hh, -⟩ := h.holds
  have hsmall := hh.encode_small
  simp only [Value.encode, frame_length] at hsmall
  exact h.get_eq fun c post hv => by
    rw [hv]
    exact bsonCopyDocument_frame e.elems post hsmall

theorem Bson.Encodes.getArray {e : Doc}
    (h : b.Encodes (d₁.append (.cons key (.array e) d₂))) :
    bsonCursorGetArray (some (.behind b d₁ key)) = .ok (some ⟨e.encode, true⟩) := by
  obtain ⟨pre, post', hh, -⟩ := h.holds
  have hsmall := hh.encode_small
  simp only [Value.encode, frame_length] at hsmall
  exact h.get_eq fun c post hv => by
    rw [hv]
    exact bsonCopyDocument_frame e.elems post hsmall

/-- The scope is read behind the code, whose length is stated in front of it. -/
theorem Bson.Encodes.getJavascriptWScope {s : Bytes} {e : Doc}
    (h : b.Encodes (d₁.append (.cons key (.jsCodeWScope s e) d₂))) :
    bsonCursorGetJavascriptWScope (some (.behind b d₁ key))
      = .ok (some (CString.ofBytes s, ⟨e.encode, true⟩)) := by
  obtain ⟨post, hvalue⟩ := h.cursorValue
  obtain ⟨pre, post', hh, hpre⟩ := h.holds
  have hlen := hh.length_eq
  have hall := hh.small
  have hsmall := hh.encode_small
  simp only [Value.encode, List.length_append, leBytes_length, textImage_length,
    frame_length] at hsmall hlen
  have hpos : (BsonCursor.behind b d₁ key).valuePos = pre.length + key.length + 2 := by
    rw [BsonCursor.behind, ← hpre]
    rfl
  simp only [Value.encode, List.append_assoc] at hvalue
  have hcode : (BsonCursor.behind b d₁ key).value.drop 4
      = textImage s ++ (frame e.elems ++ post) := by
    rw [hvalue, List.drop_left' (by simp)]
  have hsize : bsonStreamDocSize (BsonCursor.behind b d₁ key).value 4
      = .ok ((s.length + 1 : Nat) : Int) := by
    rw [bsonStreamDocSize_drop, hcode, textImage, List.append_assoc,
      bsonStreamDocSize_leBytes (by omega)]
  have hwrap : wrap32 (((s.length + 1 : Nat) : Int) + 4 * 2) = (s.length + 9 : Nat) := by
    rw [wrap32_of_range (by omega) (by omega)]
    omega
  have hto : sizeT (((BsonCursor.behind b d₁ key).valuePos : Int) + (s.length + 9 : Nat))
      = (BsonCursor.behind b d₁ key).valuePos + (4 + (textImage s).length) := by
    rw [hpos, sizeT, textImage_length]
    omega
  have hscope : (BsonCursor.behind b d₁ key).data.drop
      ((BsonCursor.behind b d₁ key).valuePos + (4 + (textImage s).length))
      = frame e.elems ++ post := by
    rw [← List.drop_drop, ← BsonCursor.value, ← List.drop_drop, hcode, List.drop_left]
  have hjs : CString.load ((BsonCursor.behind b d₁ key).value.drop (4 * 2))
      = .ok (CString.ofBytes s) := by
    rw [show 4 * 2 = 4 + 4 from rfl, ← List.drop_drop, hcode]
    exact load_textImage s _
  have hcopy : bsonCopyDocument (frame e.elems ++ post) = .ok ⟨e.encode, true⟩ :=
    bsonCopyDocument_frame e.elems post (by omega)
  have htype : (Value.jsCodeWScope s e).type = .jsCodeWScope := rfl
  rw [bsonCursorGetJavascriptWScope, ← htype, h.get]
  rw [hsize, Program.ok_bind, hwrap]
  dsimp only
  rw [hto, hscope, hcopy, Program.ok_bind, hjs]
  rfl

end Getters

end LibMongo
