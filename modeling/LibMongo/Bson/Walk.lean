import LibMongo.Bson.Grammar

/-!
# Walking and searching a document

What `bson_cursor_next` and the search functions do on an object that encodes
a document.

`Bson.Segment` says where in the object the elements of a part of the document
lie.  A walk keeps the part that is still to come, and a search splits the part
it searches at the first element with the key.

`bsonFind_lookup` is the summary the rest of the development uses: `bson_find`
is the lookup in the tree, and it hands out a cursor on the element found.
-/

namespace LibMongo

open Bytes

/-! ## Parts of a document -/

/-- The elements of `d` lie between `pre` and `post`. -/
structure Bson.Segment (b : Bson) (pre : Bytes) (d : Doc) (post : Bytes) : Prop where
  finished : b.finished = true
  data_eq : b.data = pre ++ (d.elems ++ post)
  small : b.data.length < 2147483648
  pre_length : 4 ≤ pre.length

namespace Bson.Segment

variable {b : Bson} {pre post : Bytes} {d rest : Doc} {key : CString} {value : Value}

/-- The first element of a part. -/
theorem head (h : b.Segment pre (.cons key value rest) post) :
    b.Holds pre key value (rest.elems ++ post) where
  finished := h.finished
  data_eq := by rw [h.data_eq, Doc.elems_cons, List.append_assoc]
  small := h.small
  pre_length := h.pre_length

/-- What comes after the first element. -/
theorem tail (h : b.Segment pre (.cons key value rest) post) :
    b.Segment (pre ++ element key value) rest post where
  finished := h.finished
  data_eq := by rw [h.data_eq, Doc.elems_cons, List.append_assoc, List.append_assoc]
  small := h.small
  pre_length := by
    have := h.pre_length
    rw [List.length_append]
    omega

/-- A part of a part. -/
theorem append_left {e : Doc} (h : b.Segment pre (d.append e) post) :
    b.Segment pre d (e.elems ++ post) where
  finished := h.finished
  data_eq := by rw [h.data_eq, Doc.elems_append, List.append_assoc]
  small := h.small
  pre_length := h.pre_length

theorem append_right {e : Doc} (h : b.Segment pre (d.append e) post) :
    b.Segment (pre ++ d.elems) e post where
  finished := h.finished
  data_eq := by rw [h.data_eq, Doc.elems_append, List.append_assoc, List.append_assoc]
  small := h.small
  pre_length := by
    have := h.pre_length
    rw [List.length_append]
    omega

theorem length_eq (h : b.Segment pre d post) :
    b.data.length = pre.length + d.elems.length + post.length := by
  rw [h.data_eq, List.length_append, List.length_append]
  omega

end Bson.Segment

/-- All elements of a document, between the length and the terminator. -/
theorem Bson.Encodes.segment {b : Bson} {d : Doc} (h : b.Encodes d) :
    b.Segment (leBytes 4 (d.elems.length + 5)) d [0] where
  finished := h.finished
  data_eq := by rw [h.data_eq, Doc.encode, frame]
  small := h.small
  pre_length := by simp

theorem Bson.Encodes.size_eq {b : Bson} {d : Doc} (h : b.Encodes d) :
    bsonSize (some b) = b.data.length := bsonSize_finished h.finished h.small

theorem Bson.Encodes.cursorNew {b : Bson} {d : Doc} (h : b.Encodes d) :
    bsonCursorNew (some b) = some ⟨b, none, 0, 0⟩ := by
  have hne : bsonSize (some b) ≠ -1 := by
    rw [h.size_eq]
    omega
  simp [bsonCursorNew, hne]

/-! ## Walking -/

section Walking

variable {b : Bson} {pre : Bytes} {d rest : Doc} {key : CString} {value : Value}

/-- `bson_cursor_next` in front of the next element. -/
theorem bsonCursorNext_cons (h : b.Segment pre (.cons key value rest) [0]) {c : BsonCursor}
    (hobj : c.obj = b) (hpos : bsonCursorNextPos c = .ok (some pre.length)) :
    bsonCursorNext (some c) = .ok (true, some (.on b pre.length key)) := by
  have hlen := h.head.length_eq
  rw [List.length_append, List.length_cons] at hlen
  have hsmall := h.small
  have hsize : ¬ bsonSize (some c.obj) - 1 ≤ (pre.length : Int) := by
    rw [hobj, bsonSize_finished h.finished h.small]
    omega
  have hsizeT : sizeT (pre.length : Int) = pre.length := sizeT_ofNat (by omega)
  have hkey : sizeT ((pre.length : Int) + 1) = pre.length + 1 :=
    sizeT_ofNat (n := pre.length + 1) (by omega)
  have hvalue : sizeT ((pre.length : Int) + key.length + 2) = pre.length + key.length + 2 :=
    sizeT_ofNat (n := pre.length + key.length + 2) (by omega)
  have hdata : c.data = b.data := by
    simp [BsonCursor.data, hobj, bsonData_finished h.finished]
  simp only [bsonCursorNext, hpos, Program.ok_bind, if_neg hsize, hkey, hdata, h.head.drop_key,
    CString.load_image, hsizeT, hvalue]
  simp only [pure, Except.pure, BsonCursor.on, hobj]

/-- `bson_cursor_next` in front of the terminator. -/
theorem bsonCursorNext_nil (h : b.Segment pre .nil [0]) {c : BsonCursor}
    (hobj : c.obj = b) (hpos : bsonCursorNextPos c = .ok (some pre.length)) :
    bsonCursorNext (some c) = .ok (false, some c) := by
  have hlen := h.length_eq
  have hsize : bsonSize (some c.obj) - 1 ≤ (pre.length : Int) := by
    rw [hobj, bsonSize_finished h.finished h.small]
    simp only [Doc.elems_nil, List.length_nil, List.length_cons] at hlen
    omega
  simp only [bsonCursorNext, hpos, Program.ok_bind, if_pos hsize]
  rfl

/-- A fresh cursor stands in front of the first element. -/
theorem bsonCursorNextPos_new (b : Bson) : bsonCursorNextPos ⟨b, none, 0, 0⟩ = .ok (some 4) := rfl

/-- A cursor on an element steps over the key and the value. -/
theorem bsonCursorNextPos_on {post : Bytes} (h : b.Holds pre key value post) :
    bsonCursorNextPos (.on b pre.length key)
      = .ok (some ((pre ++ element key value).length : Nat)) := by
  have hpos : (BsonCursor.on b pre.length key).pos ≠ 0 := by
    have := h.pre_length
    simp only [BsonCursor.on]
    omega
  have hlen := h.length_eq
  have hsmall := h.small
  have hblock : bsonGetBlockSize value.type (BsonCursor.on b pre.length key).value
      = .ok value.encode.length := by
    rw [h.value_on]
    exact bsonGetBlockSize_encode value post h.encode_small
  have hne : (value.encode.length : Int) ≠ -1 := by omega
  simp only [bsonCursorNextPos, if_neg hpos, h.type_on, Program.ok_bind, hblock, if_neg hne]
  rw [show ((BsonCursor.on b pre.length key).valuePos : Int)
      = ((pre.length + key.length + 2 : Nat) : Int) from rfl,
    wrap32_of_range (by omega) (by omega)]
  simp only [pure, Except.pure, List.length_append, element_length]
  congr 2
  omega

end Walking

/-! ## Searching -/

/-- A lookup that succeeds splits the document at the element it finds. -/
theorem Doc.split_of_lookup {name : CString} {v : Value} {d : Doc}
    (h : d.lookup name = some v) :
    ∃ d₁ d₂ : Doc, d = d₁.append (.cons name v d₂) ∧ d₁.lookup name = none := by
  match d with
  | .nil => simp [Doc.lookup] at h
  | .cons key value rest =>
      by_cases hkey : key = name
      · subst hkey
        simp only [Doc.lookup, if_true, Option.some.injEq] at h
        subst h
        exact ⟨.nil, rest, rfl, rfl⟩
      · simp only [Doc.lookup, if_neg hkey] at h
        obtain ⟨d₁, d₂, hd, hnone⟩ := Doc.split_of_lookup h
        refine ⟨.cons key value d₁, d₂, ?_, ?_⟩
        · rw [hd, Doc.cons_append]
        · simp only [Doc.lookup, if_neg hkey, hnone]

section Searching

variable {b : Bson} {pre post : Bytes} {d : Doc} {name : CString}

/-- One round of the search on an element with another key. -/
theorem bsonCursorFindLoop_step {key : CString} {value : Value} {fuel endPos : Nat}
    (h : b.Holds pre key value post) (hkey : key ≠ name) (hend : pre.length < endPos) :
    bsonCursorFindLoop b.data name endPos (fuel + 1) pre.length
      = bsonCursorFindLoop b.data name endPos fuel (pre ++ element key value).length := by
  have hlen := h.length_eq
  have hsmall := h.small
  have hbyte : byteAt (b.data.drop pre.length) = .ok value.type.toByte := by
    rw [h.drop_pre]
    rfl
  have hvp : wrap32 ((pre.length : Int) + key.length + 2)
      = ((pre.length + key.length + 2 : Nat) : Int) := by
    rw [wrap32_of_range (by omega) (by omega)]
    omega
  have hne : (value.encode.length : Int) ≠ -1 := by omega
  have hnext : sizeT (wrap32 (((pre.length + key.length + 2 : Nat) : Int)
      + (value.encode.length : Int))) = (pre ++ element key value).length := by
    rw [wrap32_of_range (by omega) (by omega), List.length_append, element_length, sizeT]
    omega
  rw [bsonCursorFindLoop, if_pos hend]
  simp only [hbyte, Program.ok_bind, h.drop_key, CString.load_image, hvp, if_neg hkey,
    sizeT_ofNat (show pre.length + key.length + 2 < 2147483648 by omega),
    BsonType.ofByte_toByte value.type_ne_other, h.blockSize_on, if_neg hne, hnext]

/-- The round of the search that reaches the key. -/
theorem bsonCursorFindLoop_hit {value : Value} {fuel endPos : Nat}
    (h : b.Holds pre name value post) (hend : pre.length < endPos) :
    bsonCursorFindLoop b.data name endPos (fuel + 1) pre.length
      = .ok (.found pre.length (pre.length + name.length + 2)) := by
  have hlen := h.length_eq
  have hsmall := h.small
  have hbyte : byteAt (b.data.drop pre.length) = .ok value.type.toByte := by
    rw [h.drop_pre]
    rfl
  have hvp : sizeT (wrap32 ((pre.length : Int) + name.length + 2))
      = pre.length + name.length + 2 := by
    rw [wrap32_of_range (by omega) (by omega), sizeT]
    omega
  rw [bsonCursorFindLoop, if_pos hend]
  simp only [hbyte, Program.ok_bind, h.drop_key, CString.load_image, if_true, hvp]
  rfl

/-- A search over elements without the key runs to the end of the range. -/
theorem bsonCursorFindLoop_skip {d' : Doc} (endPos : Nat) :
    ∀ (d : Doc) {pre : Bytes} (fuel : Nat), b.Segment pre (d.append d') post →
      d.lookup name = none → (pre ++ d.elems).length ≤ endPos → d.elems.length ≤ fuel →
      ∃ fuel', fuel ≤ fuel' + d.elems.length ∧
        bsonCursorFindLoop b.data name endPos fuel pre.length
          = bsonCursorFindLoop b.data name endPos fuel' (pre ++ d.elems).length
  | .nil, _, fuel, _, _, _, _ => ⟨fuel, by omega, by simp⟩
  | .cons key value rest, pre, fuel, h, hnone, hend, hfuel => by
      have hkey : key ≠ name := by
        intro heq
        simp [Doc.lookup, heq] at hnone
      have hrest : rest.lookup name = none := by
        simpa [Doc.lookup, hkey] using hnone
      have hel := element_length key value
      rw [Doc.elems_cons, List.length_append] at hfuel
      rw [Doc.elems_cons, ← List.append_assoc] at hend
      obtain ⟨fuel, rfl⟩ : ∃ n, fuel = n + 1 := ⟨fuel - 1, by omega⟩
      have hlt : pre.length < endPos := by
        simp only [List.length_append] at hend
        omega
      have hseg : b.Segment pre (.cons key value (rest.append d')) post := h
      obtain ⟨fuel', hle, hrec⟩ :=
        bsonCursorFindLoop_skip endPos rest fuel hseg.tail hrest hend (by omega)
      refine ⟨fuel', ?_, ?_⟩
      · rw [Doc.elems_cons, List.length_append]
        omega
      · rw [bsonCursorFindLoop_step hseg.head hkey hlt, hrec, Doc.elems_cons, List.append_assoc]

/-- A search in a part of the object that has the key stops at its first element
with the key. -/
theorem bsonCursorFindRange_found {d₁ d₂ : Doc} {v : Value} (startPos endPos : Nat)
    (h : b.Segment pre (d₁.append (.cons name v d₂)) post) (hnone : d₁.lookup name = none)
    (hstart : startPos = pre.length)
    (hend : endPos = pre.length + (d₁.append (.cons name v d₂)).elems.length) :
    bsonCursorFindRange b name startPos endPos
      = .ok (.found (pre ++ d₁.elems).length ((pre ++ d₁.elems).length + name.length + 2)) := by
  have hlen := h.length_eq
  have hel := element_length name v
  rw [Doc.elems_append, Doc.elems_cons] at hlen hend
  simp only [List.length_append] at hlen hend
  obtain ⟨fuel, hle, hskip⟩ := bsonCursorFindLoop_skip endPos _ (b.data.length + 1) h hnone
    (by rw [List.length_append]; omega) (by omega)
  obtain ⟨fuel, rfl⟩ : ∃ n, fuel = n + 1 := ⟨fuel - 1, by omega⟩
  simp only [bsonCursorFindRange, bsonData_finished h.finished, Option.getD_some]
  rw [hstart, hskip]
  exact bsonCursorFindLoop_hit h.append_right.head (by rw [List.length_append]; omega)

/-- A search in a part of the object that lacks the key runs out. -/
theorem bsonCursorFindRange_exhausted (startPos endPos : Nat)
    (h : b.Segment pre d post) (hnone : d.lookup name = none)
    (hstart : startPos = pre.length) (hend : endPos = pre.length + d.elems.length) :
    bsonCursorFindRange b name startPos endPos = .ok .exhausted := by
  have hlen := h.length_eq
  rw [← d.append_nil] at h
  obtain ⟨fuel, hle, hskip⟩ := bsonCursorFindLoop_skip endPos _ (b.data.length + 1) h hnone
    (by rw [List.length_append]; omega) (by omega)
  obtain ⟨fuel, rfl⟩ : ∃ n, fuel = n + 1 := ⟨fuel - 1, by omega⟩
  simp only [bsonCursorFindRange, bsonData_finished h.finished, Option.getD_some]
  rw [hstart, hskip, bsonCursorFindLoop, if_neg (by rw [List.length_append]; omega)]

end Searching

/-! ## Cursors on an element of a document -/

section Cursors

variable {b : Bson} {d d₁ d₂ : Doc} {name key : CString} {v w : Value}

/-- The cursor on the element that comes after those of `before`. -/
def BsonCursor.behind (b : Bson) (before : Doc) (key : CString) : BsonCursor :=
  .on b (4 + before.elems.length) key

/-- The image of a document holds each of its elements. -/
theorem Bson.Encodes.holds (h : b.Encodes (d₁.append (.cons key v d₂))) :
    ∃ pre post, b.Holds pre key v post ∧ pre.length = 4 + d₁.elems.length := by
  refine ⟨_, _, h.segment.append_right.head, ?_⟩
  simp

/-- `bson_cursor_next` in front of an element moves to it. -/
theorem Bson.Encodes.next_cons (h : b.Encodes (d₁.append (.cons key v d₂))) {c : BsonCursor}
    (hobj : c.obj = b) (hpos : bsonCursorNextPos c = .ok (some (4 + d₁.elems.length : Nat))) :
    bsonCursorNext (some c) = .ok (true, some (.behind b d₁ key)) := by
  have hlen : (leBytes 4 ((d₁.append (.cons key v d₂)).elems.length + 5) ++ d₁.elems).length
      = 4 + d₁.elems.length := by simp
  rw [← hlen] at hpos
  rw [bsonCursorNext_cons h.segment.append_right hobj hpos, hlen, BsonCursor.behind]

/-- Behind the last element it returns `FALSE` and does not move. -/
theorem Bson.Encodes.next_nil (h : b.Encodes d) {c : BsonCursor} (hobj : c.obj = b)
    (hpos : bsonCursorNextPos c = .ok (some (4 + d.elems.length : Nat))) :
    bsonCursorNext (some c) = .ok (false, some c) := by
  have hlen : (leBytes 4 ((d.append .nil).elems.length + 5) ++ d.elems).length
      = 4 + d.elems.length := by simp
  rw [← hlen] at hpos
  rw [← d.append_nil] at h
  exact bsonCursorNext_nil h.segment.append_right hobj hpos

theorem Bson.Encodes.nextPos (h : b.Encodes (d₁.append (.cons key v d₂))) :
    bsonCursorNextPos (.behind b d₁ key)
      = .ok (some (4 + (d₁.append (.cons key v .nil)).elems.length : Nat)) := by
  obtain ⟨pre, post, hh, hpre⟩ := h.holds
  rw [BsonCursor.behind, ← hpre, bsonCursorNextPos_on hh]
  simp only [List.length_append, Doc.elems_append, Doc.elems_cons, Doc.elems_nil, hpre,
    List.length_nil, Nat.add_zero, Nat.add_assoc]

theorem Bson.Encodes.cursorKey (h : b.Encodes (d₁.append (.cons key v d₂))) :
    bsonCursorKey (some (.behind b d₁ key)) = .ok (some key) := by
  obtain ⟨pre, post, hh, hpre⟩ := h.holds
  rw [BsonCursor.behind, ← hpre]
  exact hh.key_on

/-- `bson_find` stops at the first element with the key. -/
theorem bsonFind_first (h : b.Encodes (d₁.append (.cons name v d₂)))
    (hnone : d₁.lookup name = none) :
    bsonFind (some b) (some name) = .ok (some (.behind b d₁ name)) := by
  have hlen := h.segment.length_eq
  have hsmall := h.small
  have hend : guint32 (bsonSize (some b) - 1)
      = 4 + (d₁.append (.cons name v d₂)).elems.length := by
    rw [h.size_eq, guint32]
    simp only [leBytes_length, List.length_cons, List.length_nil] at hlen
    omega
  have hrange := bsonCursorFindRange_found 4 (guint32 (bsonSize (some b) - 1)) h.segment hnone
    (by simp) (by rw [hend, leBytes_length])
  simp only [bsonFind, h.cursorNew, bsonCursorFindFrom, hrange, Program.ok_bind]
  simp only [pure, Except.pure, BsonCursor.behind, BsonCursor.on, List.length_append,
    leBytes_length, Program.ok_bind, if_true]

theorem bsonFind_some (h : b.Encodes d) (hl : d.lookup name = some v) :
    ∃ d₁ d₂, d = d₁.append (.cons name v d₂) ∧ d₁.lookup name = none ∧
      bsonFind (some b) (some name) = .ok (some (.behind b d₁ name)) := by
  obtain ⟨d₁, d₂, rfl, hnone⟩ := Doc.split_of_lookup hl
  exact ⟨d₁, d₂, rfl, hnone, bsonFind_first h hnone⟩

/-- `bson_find` finds nothing when no element has the key. -/
theorem bsonFind_none (h : b.Encodes d) (hl : d.lookup name = none) :
    bsonFind (some b) (some name) = .ok none := by
  have hlen := h.segment.length_eq
  have hsmall := h.small
  have hend : guint32 (bsonSize (some b) - 1) = 4 + d.elems.length := by
    rw [h.size_eq, guint32]
    simp only [leBytes_length, List.length_cons, List.length_nil] at hlen
    omega
  have hrange := bsonCursorFindRange_exhausted 4 (guint32 (bsonSize (some b) - 1)) h.segment hl (by simp)
    (by rw [hend, leBytes_length])
  simp only [bsonFind, h.cursorNew, bsonCursorFindFrom, hrange, Program.ok_bind]
  rfl

/-- `bson_cursor_find` first looks from the current element on. -/
theorem bsonCursorFind_ahead (h : b.Encodes (d₁.append (.cons key v d₂)))
    (hl : (Doc.cons key v d₂).lookup name = some w) :
    ∃ e₁ e₂, Doc.cons key v d₂ = e₁.append (.cons name w e₂) ∧ e₁.lookup name = none ∧
      bsonCursorFind (some (.behind b d₁ key)) (some name)
        = .ok (true, some (.behind b (d₁.append e₁) name)) := by
  obtain ⟨e₁, e₂, he, hnone⟩ := Doc.split_of_lookup hl
  refine ⟨e₁, e₂, he, hnone, ?_⟩
  have hlen := h.segment.length_eq
  have hsmall := h.small
  have hend : guint32 (bsonSize (some b) - 1)
      = 4 + d₁.elems.length + (Doc.cons key v d₂).elems.length := by
    rw [h.size_eq, guint32]
    simp only [leBytes_length, Doc.elems_append, List.length_append, List.length_cons,
      List.length_nil] at hlen
    omega
  have hseg := h.segment.append_right
  rw [he] at hseg hend
  have hrange := bsonCursorFindRange_found (4 + d₁.elems.length)
    (guint32 (bsonSize (some b) - 1)) hseg hnone (by simp) (by rw [hend]; simp)
  simp only [bsonCursorFind, bsonCursorFindWith, BsonCursor.behind, BsonCursor.on,
    bsonCursorFindFrom, hrange, Program.ok_bind]
  simp only [pure, Except.pure, Program.ok_bind, Doc.elems_append, List.length_append,
    leBytes_length, Nat.add_assoc]

/-- Then it looks from the first element up to the current one. -/
theorem bsonCursorFind_around (h : b.Encodes (d₁.append (.cons key v d₂)))
    (hnone₂ : (Doc.cons key v d₂).lookup name = none) (hl : d₁.lookup name = some w) :
    ∃ e₁ e₂, d₁ = e₁.append (.cons name w e₂) ∧ e₁.lookup name = none ∧
      bsonCursorFind (some (.behind b d₁ key)) (some name)
        = .ok (true, some (.behind b e₁ name)) := by
  obtain ⟨e₁, e₂, rfl, hnone⟩ := Doc.split_of_lookup hl
  refine ⟨e₁, e₂, rfl, hnone, ?_⟩
  have hlen := h.segment.length_eq
  have hsmall := h.small
  have hend : guint32 (bsonSize (some b) - 1)
      = 4 + (e₁.append (.cons name w e₂)).elems.length + (Doc.cons key v d₂).elems.length := by
    rw [h.size_eq, guint32]
    rw [Doc.elems_append] at hlen
    simp only [leBytes_length, List.length_append, List.length_cons, List.length_nil] at hlen
    omega
  have hfirst := bsonCursorFindRange_exhausted
    (4 + (e₁.append (.cons name w e₂)).elems.length) (guint32 (bsonSize (some b) - 1))
    h.segment.append_right hnone₂ (by simp)
    (by rw [hend]; simp)
  have hsecond := bsonCursorFindRange_found 4 (4 + (e₁.append (.cons name w e₂)).elems.length)
    h.segment.append_left hnone
    (by simp) (by simp)
  have hwrap : guint32 ((4 + (e₁.append (.cons name w e₂)).elems.length : Nat) : Int)
      = 4 + (e₁.append (.cons name w e₂)).elems.length := by
    apply guint32_ofNat
    rw [Doc.elems_append, List.length_append, leBytes_length] at hlen
    omega
  simp only [bsonCursorFind, bsonCursorFindWith, BsonCursor.behind, BsonCursor.on,
    bsonCursorFindFrom, hfirst, hwrap, hsecond, Program.ok_bind, if_true]
  simp only [pure, Except.pure, Program.ok_bind, List.length_append, leBytes_length]

/-! ## Values through cursors -/

/-- The getter for the type of the element a cursor stands on runs on its value. -/
theorem Bson.Encodes.get {α : Type} (h : b.Encodes (d₁.append (.cons key v d₂)))
    (get : BsonCursor → Except Halt α) :
    bsonCursorGet v.type (some (.behind b d₁ key)) get
      = (get (.behind b d₁ key) >>= fun a => .ok (some a)) := by
  obtain ⟨pre, post, hh, hpre⟩ := h.holds
  rw [BsonCursor.behind, ← hpre]
  exact hh.get_on get

/-- A getter for another type returns `FALSE`. -/
theorem Bson.Encodes.get_ne {α : Type} (h : b.Encodes (d₁.append (.cons key v d₂)))
    {type : BsonType} (htype : v.type ≠ type) (get : BsonCursor → Except Halt α) :
    bsonCursorGet type (some (.behind b d₁ key)) get = .ok none := by
  obtain ⟨pre, post, hh, hpre⟩ := h.holds
  rw [BsonCursor.behind, ← hpre]
  exact hh.get_on_ne htype get

theorem Bson.Encodes.cursorType (h : b.Encodes (d₁.append (.cons key v d₂))) :
    bsonCursorType (some (.behind b d₁ key)) = .ok v.type := by
  obtain ⟨pre, post, hh, hpre⟩ := h.holds
  rw [BsonCursor.behind, ← hpre]
  exact hh.type_on

/-- Behind the value come the other elements and the terminator. -/
theorem Bson.Encodes.cursorValue_eq (h : b.Encodes (d₁.append (.cons key v d₂))) :
    (BsonCursor.behind b d₁ key).value = v.encode ++ (d₂.elems ++ [0]) := by
  have hh := h.segment.append_right.head
  have hpre : (leBytes 4 ((d₁.append (.cons key v d₂)).elems.length + 5) ++ d₁.elems).length
      = 4 + d₁.elems.length := by simp
  rw [BsonCursor.behind, ← hpre]
  exact hh.value_on

theorem Bson.Encodes.cursorValue (h : b.Encodes (d₁.append (.cons key v d₂))) :
    ∃ post, (BsonCursor.behind b d₁ key).value = v.encode ++ post := ⟨_, h.cursorValue_eq⟩

end Cursors

/-! ## Any document -/

/-- Repeated calls of `bson_cursor_next` move the cursor to these places and then return
`FALSE` where it is. -/
def BsonCursor.WalksOver (c : BsonCursor) : List BsonCursor → Prop
  | [] => bsonCursorNext (some c) = .ok (false, some c)
  | next :: rest => bsonCursorNext (some c) = .ok (true, some next) ∧ next.WalksOver rest

/-- The cursor stands on an element with this key and this value. -/
structure BsonCursor.StandsOn (c : BsonCursor) (key : CString) (value : Value) : Prop where
  key_eq : bsonCursorKey (some c) = .ok (some key)
  type_eq : bsonCursorType (some c) = .ok value.type
  value_eq : ∃ post, c.value = value.encode ++ post

/-- The elements of a document that start at `pos`, each with the cursor on it. -/
def Doc.stops (b : Bson) : Nat → Doc → List (BsonCursor × CString × Value)
  | _, .nil => []
  | pos, .cons key value rest =>
      (.on b pos key, key, value) :: rest.stops b (pos + (element key value).length)

/-- The keys and values of a document in order. -/
def Doc.elements : Doc → List (CString × Value)
  | .nil => []
  | .cons key value rest => (key, value) :: rest.elements

section Stops

variable {b : Bson} {d d₁ d₂ : Doc} {key name : CString} {v : Value}

theorem Doc.stops_elements (d : Doc) (pos : Nat) :
    (d.stops b pos).map (fun s => s.2) = d.elements := by
  match d with
  | .nil => rfl
  | .cons key value rest =>
      rw [Doc.stops, Doc.elements, List.map_cons, Doc.stops_elements rest]

/-- A part of a document stops where the document does. -/
theorem Doc.stops_append (d e : Doc) (pos : Nat) :
    (d.append e).stops b pos = d.stops b pos ++ e.stops b (pos + d.elems.length) := by
  match d with
  | .nil => simp [Doc.stops]
  | .cons key value rest =>
      rw [Doc.cons_append, Doc.stops, Doc.stops, Doc.stops_append rest e, Doc.elems_cons,
        List.length_append, Nat.add_assoc, List.cons_append]

/-- A document without the key has no stop with it. -/
theorem Doc.find_stops_none (d : Doc) (pos : Nat) (h : d.lookup name = none) :
    (d.stops b pos).find? (fun s => s.2.1 = name) = none := by
  match d with
  | .nil => rfl
  | .cons key value rest =>
      by_cases hkey : key = name
      · simp [Doc.lookup, hkey] at h
      · rw [Doc.lookup, if_neg hkey] at h
        rw [Doc.stops, List.find?_cons_of_neg (by simpa using hkey)]
        exact Doc.find_stops_none rest _ h

/-- The first stop with a key is the first element with it. -/
theorem Doc.find_stops_first (hnone : d₁.lookup name = none) :
    ((d₁.append (.cons name v d₂)).stops b 4).find? (fun s => s.2.1 = name)
      = some (.behind b d₁ name, name, v) := by
  rw [Doc.stops_append, List.find?_append, Doc.find_stops_none d₁ 4 hnone, Option.none_or,
    Doc.stops, List.find?_cons_of_pos (by simp), BsonCursor.behind]

theorem Bson.Encodes.standsOn (h : b.Encodes (d₁.append (.cons key v d₂))) :
    (BsonCursor.behind b d₁ key).StandsOn key v where
  key_eq := h.cursorKey
  type_eq := h.cursorType
  value_eq := h.cursorValue

/-- Every stop is on the element it is listed with. -/
theorem Bson.Encodes.stops_standOn (d₁ : Doc) :
    ∀ d₂ : Doc, b.Encodes (d₁.append d₂) →
      ∀ s ∈ d₂.stops b (4 + d₁.elems.length), s.1.StandsOn s.2.1 s.2.2
  | .nil, _, s, hs => by
      rw [Doc.stops] at hs
      cases hs
  | .cons key value rest, h, s, hs => by
      rw [Doc.stops, List.mem_cons] at hs
      rcases hs with rfl | hs
      · exact h.standsOn
      · have hnext : b.Encodes ((d₁.append (.cons key value .nil)).append rest) := by
          rw [Doc.append_assoc, Doc.cons_append, Doc.nil_append]
          exact h
        apply Bson.Encodes.stops_standOn _ rest hnext s
        rw [Doc.elems_append, Doc.elems_cons, Doc.elems_nil, List.append_nil, List.length_append,
          ← Nat.add_assoc]
        exact hs

/-- The walk over the elements that are still to come. -/
theorem Bson.Encodes.walksOver (d₁ : Doc) :
    ∀ (d₂ : Doc) {c : BsonCursor}, b.Encodes (d₁.append d₂) → c.obj = b →
      bsonCursorNextPos c = .ok (some (4 + d₁.elems.length : Nat)) →
      c.WalksOver ((d₂.stops b (4 + d₁.elems.length)).map fun s => s.1)
  | .nil, c, h, hobj, hpos => by
      rw [Doc.append_nil] at h
      exact h.next_nil hobj hpos
  | .cons key value rest, c, h, hobj, hpos => by
      rw [Doc.stops, List.map_cons]
      refine ⟨h.next_cons hobj hpos, ?_⟩
      have hnext : b.Encodes ((d₁.append (.cons key value .nil)).append rest) := by
        rw [Doc.append_assoc, Doc.cons_append, Doc.nil_append]
        exact h
      have hrest := Bson.Encodes.walksOver _ rest hnext rfl h.nextPos
      rw [Doc.elems_append, Doc.elems_cons, Doc.elems_nil, List.append_nil, List.length_append,
        ← Nat.add_assoc] at hrest
      exact hrest

end Stops

/-- **Cursors read every document.**  Walking an object that holds a document stops at
the elements of the document, in order, and `bson_find` stops at the first of these with
the key. -/
theorem cursors_read_documents {b : Bson} {d : Doc} (h : b.Encodes d) :
    (∃ c, bsonCursorNew (some b) = some c ∧ c.WalksOver ((d.stops b 4).map fun s => s.1)) ∧
    (d.stops b 4).map (fun s => s.2) = d.elements ∧
    (∀ s ∈ d.stops b 4, s.1.StandsOn s.2.1 s.2.2) ∧
    ∀ name, bsonFind (some b) (some name)
      = .ok (((d.stops b 4).find? fun s => s.2.1 = name).map fun s => s.1) := by
  refine ⟨⟨_, h.cursorNew, ?_⟩, d.stops_elements 4, ?_, ?_⟩
  · exact Bson.Encodes.walksOver .nil d h rfl (bsonCursorNextPos_new b)
  · exact Bson.Encodes.stops_standOn .nil d h
  · intro name
    cases hl : d.lookup name with
    | none =>
        rw [bsonFind_none h hl, Doc.find_stops_none d 4 hl]
        rfl
    | some v =>
        obtain ⟨d₁, d₂, rfl, hnone⟩ := Doc.split_of_lookup hl
        rw [bsonFind_first h hnone, Doc.find_stops_first hnone]
        rfl

/-- A document with elements the library itself cannot append. -/
def weirdDoc : Doc :=
  .cons (.ascii ['m']) .min (.cons (.ascii ['u']) .undefined
    (.cons (.ascii ['p']) (.dbpointer [0x75] ⟨List.replicate 12 0x75, rfl⟩)
      (.cons (.ascii ['x']) .max .nil)))

theorem cursors_read_documents_weird :
    bsonFind (some ⟨weirdDoc.encode, true⟩) (some (.ascii ['x']))
      = .ok (some (.behind ⟨weirdDoc.encode, true⟩
          (.cons (.ascii ['m']) .min (.cons (.ascii ['u']) .undefined
            (.cons (.ascii ['p']) (.dbpointer [0x75] ⟨List.replicate 12 0x75, rfl⟩) .nil)))
          (.ascii ['x']))) := by
  have h : Bson.Encodes ⟨weirdDoc.encode, true⟩ weirdDoc := ⟨rfl, rfl, by decide⟩
  rw [(cursors_read_documents h).2.2.2]
  rfl

end LibMongo
