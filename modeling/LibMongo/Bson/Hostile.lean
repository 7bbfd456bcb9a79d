import LibMongo.Base.Loop
import LibMongo.Bson.Walk

/-!
# Documents from a hostile sender

An object made of received bytes is finished, and that is all one knows of it
(`Bson.Terminated`): its elements may state any size.  The cursors a client can get on
such an object are those of `BsonCursor.Reached`.

The search goes from element to element as `Bson.Follows` says.  It ends if that never
leads back to an element, and `hostile_parsing_ends` says exactly when walking and
searching come to an end.
-/

namespace LibMongo

open Bytes Relation
open Loop (Circles)

/-! ## Finished objects -/

/-- What `bson_finish` leaves, if its size is a `gint32`: some bytes and a terminator. -/
structure Bson.Terminated (b : Bson) : Prop where
  finished : b.finished = true
  ends : ∃ front, b.data = front ++ [0]
  small : b.data.length < 2147483648

/-- An object with bytes in it is terminated once it is finished. -/
theorem bsonFinish_terminated {b b' : Bson} (hopen : b.finished = false) (hne : b.data ≠ [])
    (hfin : bsonFinish (some b) = (true, some b')) (hsmall : b.data.length + 1 < 2147483648) :
    b'.Terminated := by
  have hpos := List.length_pos_iff.mpr hne
  simp only [bsonFinish, hopen, Bool.false_eq_true, if_false, Prod.mk.injEq, Option.some.injEq,
    true_and, List.length_append, List.length_singleton] at hfin
  subst hfin
  refine ⟨rfl, ?_, ?_⟩
  · by_cases hlong : 4 ≤ b.data.length
    · refine ⟨leBytes 4 (b.data.length + 1) ++ b.data.drop 4, ?_⟩
      rw [List.drop_append_of_le_length hlong, ← List.append_assoc, List.take_of_length_le]
      simp only [List.length_append, leBytes_length, List.length_drop, List.length_singleton]
      omega
    -- the length is written over what is there, and its high bytes are zero
    · obtain h | h | h : b.data.length = 1 ∨ b.data.length = 2 ∨ b.data.length = 3 := by omega
      · exact ⟨[2], by rw [h]; rfl⟩
      · exact ⟨[3, 0], by rw [h]; rfl⟩
      · exact ⟨[4, 0, 0], by rw [h]; rfl⟩
  · simp only [List.length_take, List.length_append, leBytes_length, List.length_drop,
      List.length_singleton]
    omega

/-! ## Cursors and elements -/

/-- The cursors that calls on an object give. -/
inductive BsonCursor.Reached (b : Bson) : BsonCursor → Prop where
  | new {c : BsonCursor} : bsonCursorNew (some b) = some c → Reached b c
  | find {name : CString} {c : BsonCursor} :
      bsonFind (some b) (some name) = .ok (some c) → Reached b c
  | next {c c' : BsonCursor} {ok : Bool} :
      Reached b c → bsonCursorNext (some c) = .ok (ok, some c') → Reached b c'
  /-- `bson_cursor_find` and `bson_cursor_find_next`. -/
  | cursorFind {c c' : BsonCursor} {ok : Bool} (wrapOver : Bool) {name : CString} :
      Reached b c → bsonCursorFindWith wrapOver (some c) (some name) = .ok (ok, some c') →
      Reached b c'

/-- A type and a key are read at a position. -/
structure Bson.ElementAt (b : Bson) (pos : Nat) (type : BsonType) (key : CString) : Prop where
  type_eq : (byteAt (b.data.drop pos)).map BsonType.ofByte = .ok type
  key_eq : CString.load (b.data.drop (pos + 1)) = .ok key

/-- The size of the value a cursor stands on. -/
def BsonCursor.blockSize (c : BsonCursor) : Except Halt Int := do
  let type ← bsonCursorType (some c)
  bsonGetBlockSize type c.value

/-- The search goes on from the element at `p` at `q`. -/
def Bson.Follows (b : Bson) (p q : Nat) : Prop :=
  ∃ type key bs, b.ElementAt p type key ∧
    bsonGetBlockSize type (b.data.drop (p + key.length + 2)) = .ok bs ∧ bs ≠ -1 ∧
    q = sizeT (wrap32 ((p + key.length + 2 : Nat) + bs))

namespace Bson.Terminated

variable {b : Bson} {p q : Nat} {type : BsonType} {key : CString}

theorem size_eq (h : b.Terminated) : bsonSize (some b) = b.data.length :=
  bsonSize_finished h.finished h.small

theorem length_pos (h : b.Terminated) : 0 < b.data.length := by
  obtain ⟨front, hfront⟩ := h.ends
  rw [hfront, List.length_append, List.length_singleton]
  omega

theorem end_eq (h : b.Terminated) : guint32 (bsonSize (some b) - 1) = b.data.length - 1 := by
  have hpos := h.length_pos
  have hsmall := h.small
  rw [h.size_eq, guint32]
  omega

theorem cursorNew (h : b.Terminated) : bsonCursorNew (some b) = some ⟨b, none, 0, 0⟩ := by
  have hne : bsonSize (some b) ≠ -1 := by
    rw [h.size_eq]
    omega
  simp [bsonCursorNew, hne]

theorem find_eq (h : b.Terminated) (name : CString) :
    bsonFind (some b) (some name) = do
      let (found, c) ← bsonCursorFindFrom b name 4 (b.data.length - 1) false ⟨b, none, 0, 0⟩
      return if found then some c else none := by
  simp only [bsonFind, h.cursorNew, h.end_eq]

/-- Every string that starts in the object ends in it. -/
theorem load_key (h : b.Terminated) (hp : p < b.data.length) :
    ∃ key, CString.load (b.data.drop p) = .ok key := by
  obtain ⟨front, hfront⟩ := h.ends
  have hle : p ≤ front.length := by
    rw [hfront, List.length_append, List.length_singleton] at hp
    omega
  have hmem : (0 : UInt8) ∈ b.data.drop p := by
    rw [hfront, List.drop_append_of_le_length hle]
    simp
  exact ⟨_, by rw [CString.load, if_pos hmem]⟩

/-- There is an element wherever there is room for a type and a key. -/
theorem elementAt (h : b.Terminated) (hp : p + 1 < b.data.length) :
    ∃ type key, b.ElementAt p type key := by
  obtain ⟨key, hkey⟩ := h.load_key hp
  obtain ⟨t, rest, hdrop⟩ : ∃ t rest, b.data.drop p = t :: rest :=
    ⟨_, _, List.drop_eq_getElem_cons (by omega)⟩
  refine ⟨BsonType.ofByte t, key, ?_, hkey⟩
  rw [hdrop]
  rfl

end Bson.Terminated

namespace Bson.ElementAt

variable {b : Bson} {p : Nat} {type type' : BsonType} {key key' : CString}

/-- The key and its terminator lie in the object. -/
theorem key_inside (h : b.ElementAt p type key) : p + key.length + 2 ≤ b.data.length := by
  have hlen := CString.load_length h.key_eq
  rw [List.length_drop] at hlen
  omega

theorem unique (h : b.ElementAt p type key) (h' : b.ElementAt p type' key') :
    type = type' ∧ key = key' := by
  have htype := h.type_eq.symm.trans h'.type_eq
  have hkey := h.key_eq.symm.trans h'.key_eq
  cases htype
  cases hkey
  exact ⟨rfl, rfl⟩

end Bson.ElementAt

theorem Bson.Follows.elementAt {b : Bson} {p q : Nat} (h : b.Follows p q) :
    ∃ type key, b.ElementAt p type key := by
  obtain ⟨type, key, _, helem, _⟩ := h
  exact ⟨type, key, helem⟩

/-! ## The search as a loop -/

/-- One round of `_bson_cursor_find`. -/
def bsonCursorFindRound (d : Bytes) (name : CString) (endPos : Nat) (pos : Nat) :
    Except Halt (Nat ⊕ FindResult) :=
  if pos < endPos then do
    let t ← byteAt (d.drop pos)
    let key ← CString.load (d.drop (pos + 1))
    let valuePos := wrap32 (pos + key.length + 2)
    if key = name then return .inr (.found pos (sizeT valuePos))
    else
      let bs ← bsonGetBlockSize (BsonType.ofByte t) (d.drop (sizeT valuePos))
      if bs = -1 then return .inr .stopped
      else return .inl (sizeT (wrap32 (valuePos + bs)))
  else .ok (.inr .exhausted)

theorem bsonCursorFindLoop_eq_run (d : Bytes) (name : CString) (endPos fuel pos : Nat) :
    bsonCursorFindLoop d name endPos fuel pos
      = Loop.run (bsonCursorFindRound d name endPos) fuel pos := by
  induction fuel generalizing pos with
  | zero => rfl
  | succ fuel ih =>
      rw [bsonCursorFindLoop, Loop.run, bsonCursorFindRound]
      by_cases hpos : pos < endPos
      · rw [if_pos hpos, if_pos hpos]
        cases byteAt (d.drop pos) with
        | error e => rfl
        | ok t =>
            cases CString.load (d.drop (pos + 1)) with
            | error e => rfl
            | ok key =>
                simp only [Program.ok_bind]
                by_cases hkey : key = name
                · rw [if_pos hkey, if_pos hkey]
                  rfl
                · rw [if_neg hkey, if_neg hkey]
                  cases bsonGetBlockSize (BsonType.ofByte t)
                      (d.drop (sizeT (wrap32 (pos + key.length + 2)))) with
                  | error e => rfl
                  | ok bs =>
                      simp only [Program.ok_bind]
                      by_cases hbs : bs = -1
                      · rw [if_pos hbs, if_pos hbs]
                        rfl
                      · rw [if_neg hbs, if_neg hbs, ih]
                        rfl
      · rw [if_neg hpos, if_neg hpos]
        rfl

section Search

variable {b : Bson} {p q endPos : Nat} {type : BsonType} {key name : CString}

/-- Where a round stands on an element. -/
theorem bsonCursorFindRound_element (h : b.Terminated) (helem : b.ElementAt p type key)
    (hp : p < endPos) :
    bsonCursorFindRound b.data name endPos p
      = if key = name then .ok (.inr (.found p (p + key.length + 2)))
        else do
          let bs ← bsonGetBlockSize type (b.data.drop (p + key.length + 2))
          if bs = -1 then return .inr .stopped
          else return .inl (sizeT (wrap32 ((p + key.length + 2 : Nat) + bs))) := by
  have hin := helem.key_inside
  have hsmall := h.small
  have hvalue : wrap32 ((p : Int) + key.length + 2) = (p + key.length + 2 : Nat) :=
    wrap32_of_range (by omega) (by omega)
  have hto : sizeT ((p + key.length + 2 : Nat) : Int) = p + key.length + 2 :=
    sizeT_ofNat (by omega)
  obtain ⟨t, ht, rfl⟩ : ∃ t, byteAt (b.data.drop p) = .ok t ∧ BsonType.ofByte t = type := by
    have htype := helem.type_eq
    cases hbyte : byteAt (b.data.drop p) with
    | error e =>
        rw [hbyte] at htype
        cases htype
    | ok t =>
        rw [hbyte] at htype
        cases htype
        exact ⟨t, rfl, rfl⟩
  rw [bsonCursorFindRound, if_pos hp, ht, helem.key_eq]
  simp only [Program.ok_bind, hvalue, hto]
  rfl

/-- A round needs an element to go on. -/
theorem elementAt_of_round {o : Nat ⊕ FindResult} (hp : p < endPos)
    (h : bsonCursorFindRound b.data name endPos p = .ok o) :
    ∃ type key, b.ElementAt p type key := by
  rw [bsonCursorFindRound, if_pos hp] at h
  obtain ⟨t, ht, h⟩ := Program.bind_eq_ok.mp h
  obtain ⟨key, hkey, -⟩ := Program.bind_eq_ok.mp h
  refine ⟨BsonType.ofByte t, key, ?_, hkey⟩
  rw [ht]
  rfl

theorem lt_of_next (h : Loop.Next (bsonCursorFindRound b.data name endPos) p q) : p < endPos := by
  by_contra hp
  rw [Loop.Next, bsonCursorFindRound, if_neg hp] at h
  cases h

/-- A search goes on at the element that follows. -/
theorem follows_of_next (h : b.Terminated)
    (hnext : Loop.Next (bsonCursorFindRound b.data name endPos) p q) : b.Follows p q := by
  have hp := lt_of_next hnext
  obtain ⟨type, key, helem⟩ := elementAt_of_round hp hnext
  rw [Loop.Next, bsonCursorFindRound_element h helem hp] at hnext
  split at hnext
  next => cases hnext
  next =>
    obtain ⟨bs, hbs, hrest⟩ := Program.bind_eq_ok.mp hnext
    split at hrest
    next => cases hrest
    next hne =>
      cases hrest
      exact ⟨type, key, bs, helem, hbs, hne, rfl⟩

/-- It does so from every element before the end that has another key. -/
theorem next_of_follows (h : b.Terminated) (hfollows : b.Follows p q) (hp : p < endPos)
    (hname : b.data.length ≤ name.length) :
    Loop.Next (bsonCursorFindRound b.data name endPos) p q := by
  obtain ⟨type, key, bs, helem, hbs, hne, rfl⟩ := hfollows
  have hin := helem.key_inside
  have hkey : key ≠ name := by
    rintro rfl
    omega
  rw [Loop.Next, bsonCursorFindRound_element h helem hp, if_neg hkey, hbs, Program.ok_bind,
    if_neg hne]
  rfl

end Search

/-! ## What breaks off a computation -/

theorem byteAt_error {mem : Bytes} {e : Halt} (h : byteAt mem = .error e) : e = .outside := by
  cases mem with
  | nil =>
      cases h
      rfl
  | cons => cases h

theorem load_error {mem : Bytes} {n : Nat} {e : Halt} (h : load mem n = .error e) :
    e = .outside := by
  unfold load at h
  split at h
  next => cases h
  next =>
    cases h
    rfl

theorem loadString_error {mem : Bytes} {e : Halt} (h : CString.load mem = .error e) :
    e = .outside := by
  unfold CString.load at h
  split at h
  next => cases h
  next =>
    cases h
    rfl

theorem bsonStreamDocSize_error {doc : Bytes} {pos : Nat} {e : Halt}
    (h : bsonStreamDocSize doc pos = .error e) : e = .outside := by
  rcases Program.bind_eq_error h with h | ⟨size, -, h⟩
  · exact load_error h
  · cases h

theorem bsonGetBlockSize_error {type : BsonType} {data : Bytes} {e : Halt}
    (h : bsonGetBlockSize type data = .error e) : e = .outside := by
  cases type with
  | string | jsCode | symbol | binary | dbpointer =>
      rcases Program.bind_eq_error h with h | ⟨size, -, h⟩
      · exact bsonStreamDocSize_error h
      · cases h
  | document | array | jsCodeWScope => exact bsonStreamDocSize_error h
  | regexp =>
      rcases Program.bind_eq_error h with h | ⟨regexp, -, h⟩
      · exact loadString_error h
      · rcases Program.bind_eq_error h with h | ⟨options, -, h⟩
        · exact loadString_error h
        · cases h
  | _ => cases h

theorem bsonCursorFindRound_error {d : Bytes} {name : CString} {endPos pos : Nat} {e : Halt}
    (h : bsonCursorFindRound d name endPos pos = .error e) : e = .outside := by
  unfold bsonCursorFindRound at h
  split at h
  next =>
    rcases Program.bind_eq_error h with h | ⟨t, -, h⟩
    · exact byteAt_error h
    rcases Program.bind_eq_error h with h | ⟨key, -, h⟩
    · exact loadString_error h
    simp only at h
    split at h
    next => cases h
    next =>
      rcases Program.bind_eq_error h with h | ⟨bs, -, h⟩
      · exact bsonGetBlockSize_error h
      · split at h
        next => cases h
        next => cases h
  next => cases h

/-! ## How a search ends -/

section Range

variable {b : Bson} {name : CString} {startPos endPos : Nat}

theorem bsonCursorFindRound_ne_endless (d : Bytes) (name : CString) (endPos pos : Nat) :
    bsonCursorFindRound d name endPos pos ≠ .error .endless := by
  intro h
  cases bsonCursorFindRound_error h

theorem bsonCursorFindRange_eq_run (h : b.Terminated) :
    bsonCursorFindRange b name startPos endPos
      = Loop.run (bsonCursorFindRound b.data name endPos) (b.data.length + 1) startPos := by
  rw [bsonCursorFindRange, bsonData_finished h.finished, Option.getD_some,
    bsonCursorFindLoop_eq_run]

/-- The search goes on from positions inside the object only. -/
theorem mem_range_of_next (h : b.Terminated) (p q : Nat)
    (hnext : Loop.Next (bsonCursorFindRound b.data name endPos) p q) :
    p ∈ Finset.range b.data.length := by
  obtain ⟨type, key, helem⟩ := (follows_of_next h hnext).elementAt
  have hin := helem.key_inside
  rw [Finset.mem_range]
  omega

theorem circles_of_range (h : b.Terminated)
    (hend : bsonCursorFindRange b name startPos endPos = .error .endless) :
    Circles b.Follows startPos := by
  rw [bsonCursorFindRange_eq_run h] at hend
  have hcircles := Loop.circles_of_endless (bsonCursorFindRound_ne_endless b.data name endPos)
    (fun p q _ hnext => mem_range_of_next h p q hnext) (by rw [Finset.card_range]; omega) hend
  exact hcircles.mono fun p q hnext => follows_of_next h hnext

/-- The number of rounds a search is given decides nothing: without a result after
these, there is none after any. -/
theorem bsonCursorFindRange_endless (h : b.Terminated)
    (hend : bsonCursorFindRange b name startPos endPos = .error .endless) (fuel : Nat) :
    bsonCursorFindLoop b.data name endPos fuel startPos = .error .endless := by
  rw [bsonCursorFindRange_eq_run h] at hend
  rw [bsonCursorFindLoop_eq_run]
  exact (Loop.circles_of_endless (bsonCursorFindRound_ne_endless b.data name endPos)
    (fun p q _ hnext => mem_range_of_next h p q hnext)
    (by rw [Finset.card_range]; omega) hend).run fuel

/-- A key that no element has is searched for along the whole circle. -/
theorem range_of_circles (h : b.Terminated) (hcircles : Circles b.Follows startPos)
    (hname : b.data.length ≤ name.length) :
    bsonCursorFindRange b name startPos (b.data.length - 1) = .error .endless := by
  rw [bsonCursorFindRange_eq_run h]
  apply Circles.run
  refine hcircles.mono fun p q hfollows => ?_
  obtain ⟨type, key, helem⟩ := hfollows.elementAt
  have hin := helem.key_inside
  exact next_of_follows h hfollows (by omega) hname

/-- A search stops at an element it came to. -/
theorem element_of_found (h : b.Terminated) {p v : Nat}
    (hfound : bsonCursorFindRange b name startPos endPos = .ok (.found p v)) :
    (∃ type, b.ElementAt p type name) ∧ v = p + name.length + 2 ∧
      ReflTransGen b.Follows startPos p := by
  rw [bsonCursorFindRange_eq_run h] at hfound
  obtain ⟨q, hq, hlast⟩ := Loop.last_of_run hfound (by rintro ⟨⟩)
  have hround : bsonCursorFindRound b.data name endPos q = .ok (.inr (.found p v)) := by
    cases hr : bsonCursorFindRound b.data name endPos q with
    | error e =>
        rw [hr] at hlast
        cases hlast
    | ok o =>
        rw [hr] at hlast
        cases o with
        | inl a => cases hlast
        | inr r =>
            cases hlast
            rfl
  have hleads := ReflTransGen.mono (fun _ _ => follows_of_next h) _ _ hq
  by_cases hend : q < endPos
  · obtain ⟨type, key, helem⟩ := elementAt_of_round hend hround
    rw [bsonCursorFindRound_element h helem hend] at hround
    split at hround
    next hkey =>
      cases hround
      subst hkey
      exact ⟨⟨type, helem⟩, rfl, hleads⟩
    next =>
      obtain ⟨bs, -, hrest⟩ := Program.bind_eq_ok.mp hround
      split at hrest
      next => cases hrest
      next => cases hrest
  · rw [bsonCursorFindRound, if_neg hend] at hround
    cases hround

end Range

/-! ## Where cursors stand -/

/-- A cursor that is not a fresh one stands on an element, or one byte before the
object. -/
inductive BsonCursor.Stands (b : Bson) : BsonCursor → Prop where
  | new : Stands b ⟨b, none, 0, 0⟩
  | on {p : Nat} {type : BsonType} {key : CString} :
      b.ElementAt p type key → Stands b (.on b p key)
  | before {c : BsonCursor} : c.obj = b → c.pos = sizeT (-1) → Stands b c

section Stands

variable {b : Bson} {c c' : BsonCursor} {p : Nat} {type : BsonType} {key name : CString}

theorem BsonCursor.data_eq (h : b.Terminated) (hobj : c.obj = b) : c.data = b.data := by
  rw [BsonCursor.data, hobj, bsonData_finished h.finished, Option.getD_some]

theorem BsonCursor.Stands.obj_eq (h : c.Stands b) : c.obj = b := by
  cases h with
  | new => rfl
  | on => rfl
  | before hobj => exact hobj

theorem bsonCursorNextPos_eq (c : BsonCursor) :
    bsonCursorNextPos c = if c.pos = 0 then .ok (some 4) else do
      let bs ← c.blockSize
      return if bs = -1 then none else some (wrap32 (c.valuePos + bs)) := by
  rw [bsonCursorNextPos, BsonCursor.blockSize]
  split
  next => rfl
  next =>
    cases bsonCursorType (some c) with
    | error e => rfl
    | ok type => rfl

/-- What it takes for `bson_cursor_next` to return `TRUE`. -/
theorem bsonCursorNext_true_iff :
    bsonCursorNext (some c) = .ok (true, some c') ↔
      ∃ pos key, bsonCursorNextPos c = .ok (some pos) ∧ pos < bsonSize (some c.obj) - 1 ∧
        CString.load (c.data.drop (sizeT (pos + 1))) = .ok key ∧
        c' = ⟨c.obj, some (sizeT (pos + 1)), sizeT pos, sizeT (pos + key.length + 2)⟩ := by
  constructor
  · intro hnext
    obtain ⟨o, ho, hnext⟩ := Program.bind_eq_ok.mp hnext
    cases o with
    | none => cases hnext
    | some pos =>
        simp only at hnext
        split at hnext
        next => cases hnext
        next hlt =>
          obtain ⟨key, hkey, hrest⟩ := Program.bind_eq_ok.mp hnext
          cases hrest
          exact ⟨pos, key, ho, by omega, hkey, rfl⟩
  · rintro ⟨pos, key, hpos, hlt, hkey, rfl⟩
    have hle : ¬ bsonSize (some c.obj) - 1 ≤ pos := by omega
    simp only [bsonCursorNext, hpos, Program.ok_bind, if_neg hle, hkey]
    rfl

/-- When it returns `FALSE` the cursor stays. -/
theorem bsonCursorNext_false (h : bsonCursorNext (some c) = .ok (false, some c')) : c' = c := by
  obtain ⟨o, ho, h⟩ := Program.bind_eq_ok.mp h
  cases o with
  | none =>
      cases h
      rfl
  | some pos =>
      simp only at h
      split at h
      next =>
        cases h
        rfl
      next =>
        obtain ⟨key, hkey, hrest⟩ := Program.bind_eq_ok.mp h
        cases hrest

/-- The cursor `bson_cursor_next` moves to. -/
theorem stands_of_next (h : b.Terminated) (hobj : c.obj = b)
    (hnext : bsonCursorNext (some c) = .ok (true, some c')) :
    ∃ pos, bsonCursorNextPos c = .ok (some pos) ∧ pos < b.data.length - 1 ∧ c'.pos = sizeT pos ∧
      ((pos = -1 ∧ c'.obj = b) ∨
        ∃ p type key, pos = (p : Nat) ∧ b.ElementAt p type key ∧ c' = .on b p key) := by
  obtain ⟨pos, key, hpos, hlt, hkey, rfl⟩ := bsonCursorNext_true_iff.mp hnext
  have hsmall := h.small
  rw [hobj, h.size_eq] at hlt
  rw [BsonCursor.data_eq h hobj] at hkey
  have hlen := CString.load_length hkey
  rw [List.length_drop] at hlen
  refine ⟨pos, hpos, hlt, rfl, ?_⟩
  by_cases hneg : pos = -1
  · exact .inl ⟨hneg, hobj⟩
  have hpos0 : 0 ≤ pos := by
    by_contra hlow
    have hle : pos < -1 := by omega
    have hrange : -2147483648 ≤ pos := by
      rw [bsonCursorNextPos_eq] at hpos
      split at hpos
      next =>
        cases hpos
        omega
      next =>
        obtain ⟨bs, -, hrest⟩ := Program.bind_eq_ok.mp hpos
        split at hrest
        next => cases hrest
        next =>
          cases hrest
          exact le_wrap32 _
    unfold sizeT at hlen
    omega
  obtain ⟨p, rfl⟩ := Int.eq_ofNat_of_zero_le hpos0
  have hp : sizeT ((p : Int) + 1) = p + 1 := sizeT_ofNat (n := p + 1) (by omega)
  rw [hp] at hkey hlen
  obtain ⟨type, key', helem⟩ := h.elementAt (p := p) (by omega)
  have heq : key' = key := by
    have := helem.key_eq.symm.trans hkey
    cases this
    rfl
  subst heq
  refine .inr ⟨p, type, key', rfl, helem, ?_⟩
  have hvalue : sizeT ((p : Int) + key'.length + 2) = p + key'.length + 2 :=
    sizeT_ofNat (n := p + key'.length + 2) (by omega)
  rw [hp, hvalue, sizeT_ofNat (by omega), hobj, BsonCursor.on]

/-- The cursors `_bson_cursor_find` leaves. -/
theorem stands_of_find {startPos endPos : Nat} {wrapOver ok : Bool} {dest : BsonCursor}
    (h : b.Terminated)
    (hfind : bsonCursorFindFrom b name startPos endPos wrapOver dest = .ok (ok, c)) :
    (ok = false ∧ c = dest) ∨ (ok = true ∧ ∃ p type, b.ElementAt p type name ∧
      c = .on b p name ∧ (ReflTransGen b.Follows startPos p ∨ ReflTransGen b.Follows 4 p)) := by
  obtain ⟨r, hr, hfind⟩ := Program.bind_eq_ok.mp hfind
  cases r with
  | found p v =>
      cases hfind
      obtain ⟨⟨type, helem⟩, rfl, hleads⟩ := element_of_found h hr
      exact .inr ⟨rfl, p, type, helem, rfl, .inl hleads⟩
  | stopped =>
      cases hfind
      exact .inl ⟨rfl, rfl⟩
  | exhausted =>
      cases wrapOver with
      | false =>
          cases hfind
          exact .inl ⟨rfl, rfl⟩
      | true =>
          obtain ⟨r, hr, hfind⟩ := Program.bind_eq_ok.mp hfind
          cases r with
          | found p v =>
              cases hfind
              obtain ⟨⟨type, helem⟩, rfl, hleads⟩ := element_of_found h hr
              exact .inr ⟨rfl, p, type, helem, rfl, .inr hleads⟩
          | stopped =>
              cases hfind
              exact .inl ⟨rfl, rfl⟩
          | exhausted =>
              cases hfind
              exact .inl ⟨rfl, rfl⟩

theorem BsonCursor.Reached.stands (h : b.Terminated) (hc : c.Reached b) : c.Stands b := by
  induction hc with
  | new hnew =>
      rw [h.cursorNew] at hnew
      cases hnew
      exact .new
  | find hfind =>
      rw [h.find_eq] at hfind
      obtain ⟨⟨ok, c⟩, hfrom, hfind⟩ := Program.bind_eq_ok.mp hfind
      rcases stands_of_find h hfrom with ⟨rfl, rfl⟩ | ⟨rfl, p, type, helem, rfl, -⟩
      · cases hfind
      · cases hfind
        exact .on helem
  | @next c c' ok _ hnext ih =>
      cases ok with
      | false =>
          rw [bsonCursorNext_false hnext]
          exact ih
      | true =>
          obtain ⟨pos, -, -, hpos, ⟨rfl, hobj⟩ | ⟨p, type, key, -, helem, rfl⟩⟩ :=
            stands_of_next h ih.obj_eq hnext
          · exact .before hobj hpos
          · exact .on helem
  | @cursorFind c c' ok wrapOver name _ hfind ih =>
      obtain ⟨⟨ok', d⟩, hfrom, hrest⟩ := Program.bind_eq_ok.mp hfind
      cases hrest
      rw [ih.obj_eq] at hfrom
      rcases stands_of_find h hfrom with ⟨rfl, rfl⟩ | ⟨rfl, p, type, helem, rfl, -⟩
      · exact ih
      · exact .on helem

/-- A block size is a `gint32`. -/
theorem bsonGetBlockSize_range {data : Bytes} {bs : Int}
    (h : bsonGetBlockSize type data = .ok bs) : -2147483648 ≤ bs ∧ bs < 2147483648 := by
  have hwrap : ∀ i, pure (wrap32 i) = Except.ok (ε := Halt) bs →
      -2147483648 ≤ bs ∧ bs < 2147483648 := by
    intro i hi
    have heq : wrap32 i = bs := Except.ok.inj hi
    exact ⟨heq ▸ le_wrap32 i, heq ▸ wrap32_lt i⟩
  cases type with
  | string | jsCode | symbol | binary | dbpointer | document | array | jsCodeWScope =>
      obtain ⟨size, -, hrest⟩ := Program.bind_eq_ok.mp h
      exact hwrap _ hrest
  | regexp =>
      obtain ⟨regexp, -, h⟩ := Program.bind_eq_ok.mp h
      obtain ⟨options, -, hrest⟩ := Program.bind_eq_ok.mp h
      exact hwrap _ hrest
  | _ =>
      cases h
      decide

theorem Bson.ElementAt.blockSize_on (h : b.Terminated) (helem : b.ElementAt p type key)
    (hp : 4 ≤ p) : (BsonCursor.on b p key).blockSize
      = bsonGetBlockSize type (b.data.drop (p + key.length + 2)) := by
  have hdata := BsonCursor.data_eq (c := .on b p key) h rfl
  have htype : bsonCursorType (some (.on b p key)) = .ok type := by
    have hbyte := helem.type_eq
    rw [bsonCursorType, if_neg (show ¬ (BsonCursor.on b p key).pos < 4 from Nat.not_lt.mpr hp),
      hdata]
    exact hbyte
  rw [BsonCursor.blockSize, htype, Program.ok_bind, BsonCursor.value, hdata]
  rfl

theorem BsonCursor.blockSize_range {bs : Int} (h : c.blockSize = .ok bs) :
    -2147483648 ≤ bs ∧ bs < 2147483648 := by
  obtain ⟨type, -, hbs⟩ := Program.bind_eq_ok.mp h
  exact bsonGetBlockSize_range hbs

/-- In front of the first element no size is read. -/
theorem BsonCursor.blockSize_low (hp : c.pos < 4) : c.blockSize = .ok (-1) := by
  rw [BsonCursor.blockSize, bsonCursorType, if_pos hp]
  rfl

/-- Before the object no size can be read. -/
theorem BsonCursor.blockSize_before (h : b.Terminated) (hobj : c.obj = b)
    (hpos : c.pos = sizeT (-1)) : c.blockSize = .error .outside := by
  have hsmall := h.small
  have hfar : c.pos = 18446744073709551615 := hpos
  have hdrop : c.data.drop c.pos = [] := by
    rw [BsonCursor.data_eq h hobj]
    apply List.drop_eq_nil_of_le
    omega
  rw [BsonCursor.blockSize, bsonCursorType, if_neg (by omega), hdrop]
  rfl

/-- `bson_cursor_next` goes to the element at the position it computes. -/
theorem next_of_element (h : b.Terminated) (hobj : c.obj = b)
    (hpos : bsonCursorNextPos c = .ok (some (p : Int))) (helem : b.ElementAt p type key) :
    bsonCursorNext (some c) = .ok (true, some (.on b p key)) := by
  have hin := helem.key_inside
  have hsmall := h.small
  have hnext : sizeT ((p : Int) + 1) = p + 1 := sizeT_ofNat (n := p + 1) (by omega)
  have hvalue : sizeT ((p : Int) + key.length + 2) = p + key.length + 2 :=
    sizeT_ofNat (n := p + key.length + 2) (by omega)
  refine bsonCursorNext_true_iff.mpr ⟨p, key, hpos, ?_, ?_, ?_⟩
  · rw [hobj, h.size_eq]
    omega
  · rw [BsonCursor.data_eq h hobj, hnext]
    exact helem.key_eq
  · rw [hnext, hvalue, sizeT_ofNat (by omega), hobj, BsonCursor.on]

end Stands

/-! ## Walking and searching end -/

/-- A walk over the object only goes forward, and every search in it ends. -/
structure Bson.ParsingEnds (b : Bson) : Prop where
  next_moves : ∀ {c c' : BsonCursor}, c.Reached b →
    bsonCursorNext (some c) = .ok (true, some c') → c.pos < c'.pos
  find_ends : ∀ name, bsonFind (some b) (some name) ≠ .error .endless
  cursorFind_ends : ∀ {c : BsonCursor}, c.Reached b →
    ∀ name, bsonCursorFind (some c) (some name) ≠ .error .endless
  cursorFindNext_ends : ∀ {c : BsonCursor}, c.Reached b →
    ∀ name, bsonCursorFindNext (some c) (some name) ≠ .error .endless

/-- No size leads back over the key in front of it and still into the object, and the
elements that follow one another from the first byte of the object, where a search from
a fresh cursor starts, do not go round. -/
structure Bson.Advances (b : Bson) : Prop where
  block : ∀ {c : BsonCursor}, c.Reached b → ∀ {bs : Int}, c.blockSize = .ok bs →
    bs < -(c.valuePos : Int) ∨ (c.pos : Int) - c.valuePos < bs
  start : ¬ Circles b.Follows 0

section Climbing

variable {b : Bson} {c c' : BsonCursor} {p q : Nat} {type type' : BsonType}
  {key key' name : CString}

/-- Where one element follows another in the object, the sum of position and size is
in range. -/
theorem Bson.Follows.block (h : b.Terminated) (helem : b.ElementAt p type key)
    (hfollows : b.Follows p q) (hq : q < b.data.length) :
    ∃ bs, bsonGetBlockSize type (b.data.drop (p + key.length + 2)) = .ok bs ∧ bs ≠ -1 ∧
      ((p + key.length + 2 : Nat) : Int) + bs = q ∧
      wrap32 ((p + key.length + 2 : Nat) + bs) = q := by
  obtain ⟨type', key', bs, helem', hbs, hne, hq'⟩ := hfollows
  obtain ⟨rfl, rfl⟩ := helem.unique helem'
  have hrange := bsonGetBlockSize_range hbs
  have hin := helem.key_inside
  have hsmall := h.small
  have hlow := le_wrap32 (((p + key.length + 2 : Nat) : Int) + bs)
  have hhigh := wrap32_lt (((p + key.length + 2 : Nat) : Int) + bs)
  have hwrap : wrap32 (((p + key.length + 2 : Nat) : Int) + bs) = q := by
    unfold sizeT at hq'
    omega
  refine ⟨bs, hbs, hne, ?_, hwrap⟩
  unfold wrap32 at hwrap
  omega

/-- From an element of the object a walk climbs to the one that follows. -/
theorem climbs (h : b.Terminated) (ha : b.Advances) (hc : (BsonCursor.on b p key).Reached b)
    (hp : 4 ≤ p) (helem : b.ElementAt p type key) (hfollows : b.Follows p q)
    (helem' : b.ElementAt q type' key') : p < q ∧ (BsonCursor.on b q key').Reached b := by
  have hin := helem'.key_inside
  obtain ⟨bs, hbs, hne, hsum, hwrap⟩ := hfollows.block h helem (by omega)
  have hblock : (BsonCursor.on b p key).blockSize = .ok bs := by
    rw [helem.blockSize_on h hp, hbs]
  have hadvance := ha.block hc hblock
  have hpos : bsonCursorNextPos (.on b p key) = .ok (some (q : Int)) := by
    rw [bsonCursorNextPos_eq, if_neg (by simp only [BsonCursor.on]; omega), hblock,
      Program.ok_bind, if_neg hne, ← hwrap]
    rfl
  refine ⟨?_, .next hc (next_of_element h rfl hpos helem')⟩
  simp only [BsonCursor.on] at hadvance
  omega

/-- So it does not go round. -/
theorem not_circles_of_climb (h : b.Terminated) (ha : b.Advances) {n : Nat}
    (hn : b.data.length - p ≤ n) (hc : (BsonCursor.on b p key).Reached b) (hp : 4 ≤ p)
    (helem : b.ElementAt p type key) : ¬ Circles b.Follows p := by
  induction n generalizing p type key with
  | zero =>
      have hin := helem.key_inside
      omega
  | succ n ih =>
      intro hcircles
      obtain ⟨q, hfollows, hcircles'⟩ := hcircles.next
      obtain ⟨r, hnext, -⟩ := hcircles'.next
      obtain ⟨type', key', helem'⟩ := hnext.elementAt
      obtain ⟨hlt, hc'⟩ := climbs h ha hc hp helem hfollows helem'
      exact ih (by omega) hc' (by omega) helem' hcircles'

/-- Where a search that ends at an element passes there is one. -/
theorem elementAt_of_leads (hleads : ReflTransGen b.Follows p q) (hq : b.ElementAt q type key) :
    ∃ type key, b.ElementAt p type key := by
  rcases hleads.cases_head with rfl | ⟨s, hnext, -⟩
  · exact ⟨_, _, hq⟩
  · exact hnext.elementAt

/-- All it comes to is behind the length of the object. -/
theorem four_le_of_climb (h : b.Terminated) (ha : b.Advances)
    (hleads : ReflTransGen b.Follows p q) (hq : b.ElementAt q type' key')
    (hc : (BsonCursor.on b p key).Reached b) (hp : 4 ≤ p) (helem : b.ElementAt p type key) :
    4 ≤ q := by
  induction hleads using ReflTransGen.head_induction_on generalizing type key with
  | refl => exact hp
  | @head p r hfollows hrest ih =>
      obtain ⟨type'', key'', helem''⟩ := elementAt_of_leads hrest hq
      obtain ⟨hlt, hc'⟩ := climbs h ha hc hp helem hfollows helem''
      exact ih hc' (by omega) helem''

/-- The first element is reached if there is one. -/
theorem reached_first (h : b.Terminated) (helem : b.ElementAt 4 type key) :
    (BsonCursor.on b 4 key).Reached b :=
  .next (.new h.cursorNew) (next_of_element h rfl (bsonCursorNextPos_new b) helem)

theorem not_circles_first (h : b.Terminated) (ha : b.Advances) : ¬ Circles b.Follows 4 := by
  intro hcircles
  obtain ⟨q, hfollows, -⟩ := hcircles.next
  obtain ⟨type, key, helem⟩ := hfollows.elementAt
  exact not_circles_of_climb h ha le_rfl (reached_first h helem) le_rfl helem hcircles

/-- Where the search from the first element stops. -/
theorem four_le_of_first (h : b.Terminated) (ha : b.Advances)
    (hleads : ReflTransGen b.Follows 4 q) (hq : b.ElementAt q type key) : 4 ≤ q := by
  obtain ⟨type', key', helem⟩ := elementAt_of_leads hleads hq
  exact four_le_of_climb h ha hleads hq (reached_first h helem) le_rfl helem

/-- A step leads behind the length of the object. -/
theorem four_le_of_next (h : b.Terminated) (ha : b.Advances) (hc : c.Reached b)
    (hnext : bsonCursorNext (some c) = .ok (true, some c')) : 4 ≤ c'.pos := by
  have hstands := hc.stands h
  obtain ⟨pos, hpos, hlt, hpos', ⟨rfl, -⟩ | ⟨q, type', key', rfl, helem', rfl⟩⟩ :=
    stands_of_next h hstands.obj_eq hnext
  · rw [hpos']
    decide
  rw [bsonCursorNextPos_eq] at hpos
  by_cases hzero : c.pos = 0
  · rw [if_pos hzero] at hpos
    have hq := Option.some.inj (Except.ok.inj hpos)
    simp only [BsonCursor.on]
    omega
  rw [if_neg hzero] at hpos
  obtain ⟨bs, hbs, hrest⟩ := Program.bind_eq_ok.mp hpos
  by_cases hlow : c.pos < 4
  · rw [BsonCursor.blockSize_low hlow] at hbs
    cases hbs
    cases hrest
  have hne : bs ≠ -1 := by
    rintro rfl
    cases hrest
  rw [if_neg hne] at hrest
  have hwrap := Option.some.inj (Except.ok.inj hrest)
  have hin := helem'.key_inside
  have hsmall := h.small
  cases hstands with
  | new => exact absurd rfl hzero
  | @on p type key helem =>
      rw [helem.blockSize_on h (Nat.not_lt.mp hlow)] at hbs
      have hfollows : b.Follows p q :=
        ⟨type, key, bs, helem, hbs, hne, by
          show q = sizeT (wrap32 (((BsonCursor.on b p key).valuePos : Int) + bs))
          rw [hwrap, sizeT_ofNat (by omega)]⟩
      have hp := Nat.not_lt.mp hlow
      have hclimb := climbs h ha hc hp helem hfollows helem'
      simp only [BsonCursor.on] at hp ⊢
      omega
  | before hobj hfar =>
      rw [BsonCursor.blockSize_before h hobj hfar] at hbs
      cases hbs

/-- A search from a cursor behind the length of the object stays there. -/
theorem four_le_of_leads (h : b.Terminated) (ha : b.Advances) (hc : c.Reached b)
    (hhigh : 4 ≤ c.pos) (hleads : ReflTransGen b.Follows c.pos p)
    (helem : b.ElementAt p type key) : 4 ≤ p := by
  cases hc.stands h with
  | new => exact absurd hhigh (Nat.not_succ_le_zero 3)
  | on helem' => exact four_le_of_climb h ha hleads helem hc hhigh helem'
  | before hobj hfar =>
      have hsmall := h.small
      rw [hfar] at hleads
      obtain ⟨type', key', helem'⟩ := elementAt_of_leads hleads helem
      have hin := helem'.key_inside
      have hbig : sizeT (-1) = 18446744073709551615 := rfl
      omega

/-- In front of the elements a cursor only stands where a search from the first byte of
the object comes to. -/
theorem BsonCursor.Reached.low (h : b.Terminated) (ha : b.Advances) (hc : c.Reached b) :
    4 ≤ c.pos ∨ ReflTransGen b.Follows 0 c.pos := by
  induction hc with
  | new hnew =>
      rw [h.cursorNew] at hnew
      cases hnew
      exact .inr .refl
  | find hfind =>
      rw [h.find_eq] at hfind
      obtain ⟨⟨ok, c⟩, hfrom, hfind⟩ := Program.bind_eq_ok.mp hfind
      rcases stands_of_find h hfrom with ⟨rfl, rfl⟩ | ⟨rfl, p, type, helem, rfl, hleads⟩
      · cases hfind
      · cases hfind
        exact .inl (four_le_of_first h ha (hleads.elim id id) helem)
  | @next c c' ok hc hnext ih =>
      cases ok with
      | false =>
          rw [bsonCursorNext_false hnext]
          exact ih
      | true => exact .inl (four_le_of_next h ha hc hnext)
  | @cursorFind c c' ok wrapOver name hc hfind ih =>
      have hstands := hc.stands h
      obtain ⟨⟨ok', d⟩, hfrom, hrest⟩ := Program.bind_eq_ok.mp hfind
      cases hrest
      rw [hstands.obj_eq] at hfrom
      rcases stands_of_find h hfrom with ⟨rfl, rfl⟩ | ⟨rfl, p, type, helem, rfl, hleads⟩
      · exact ih
      rcases hleads with hleads | hleads
      · rcases ih with hhigh | hlow
        · exact .inl (four_le_of_leads h ha hc hhigh hleads helem)
        · exact .inr (hlow.trans hleads)
      · exact .inl (four_le_of_first h ha hleads helem)

/-- The elements that follow one another from a cursor do not go round. -/
theorem BsonCursor.Reached.not_circles (h : b.Terminated) (ha : b.Advances)
    (hc : c.Reached b) : ¬ Circles b.Follows c.pos := by
  intro hcircles
  rcases hc.low h ha with hhigh | hlow
  · obtain ⟨q, hfollows, -⟩ := hcircles.next
    obtain ⟨type, key, helem⟩ := hfollows.elementAt
    cases hc.stands h with
    | new => exact absurd hhigh (Nat.not_succ_le_zero 3)
    | on helem' => exact not_circles_of_climb h ha le_rfl hc hhigh helem' hcircles
    | before hobj hfar =>
        have hin := helem.key_inside
        have hsmall := h.small
        have hbig : sizeT (-1) = 18446744073709551615 := rfl
        omega
  · exact ha.start (.of_leads hlow hcircles)

end Climbing

section Ends

variable {b : Bson} {c : BsonCursor} {name : CString}

theorem circles_of_find {startPos endPos : Nat} {wrapOver : Bool} {dest : BsonCursor}
    (h : b.Terminated)
    (hfind : bsonCursorFindFrom b name startPos endPos wrapOver dest = .error .endless) :
    Circles b.Follows startPos ∨ Circles b.Follows 4 := by
  rcases Program.bind_eq_error hfind with hrange | ⟨r, -, hfind⟩
  · exact .inl (circles_of_range h hrange)
  cases r with
  | found => cases hfind
  | stopped => cases hfind
  | exhausted =>
      cases wrapOver with
      | false => cases hfind
      | true =>
          rcases Program.bind_eq_error hfind with hrange | ⟨r, -, hfind⟩
          · exact .inr (circles_of_range h hrange)
          · cases r <;> cases hfind

theorem cursorFind_ends (h : b.Terminated) (ha : b.Advances) (hc : c.Reached b)
    (wrapOver : Bool) (name : CString) :
    bsonCursorFindWith wrapOver (some c) (some name) ≠ .error .endless := by
  intro hend
  rcases Program.bind_eq_error hend with hfrom | ⟨⟨ok, d⟩, -, hrest⟩
  · rw [(hc.stands h).obj_eq] at hfrom
    rcases circles_of_find h hfrom with hcircles | hcircles
    · exact hc.not_circles h ha hcircles
    · exact not_circles_first h ha hcircles
  · cases hrest

theorem Bson.Advances.parsingEnds (h : b.Terminated) (ha : b.Advances) : b.ParsingEnds where
  next_moves := by
    intro c c' hc hnext
    have hc' : c'.Reached b := .next hc hnext
    have hsmall := h.small
    obtain ⟨pos, hpos, hlt, hpos', hcases⟩ := stands_of_next h (hc.stands h).obj_eq hnext
    rw [bsonCursorNextPos_eq] at hpos
    by_cases hzero : c.pos = 0
    · rw [if_pos hzero] at hpos
      cases hpos
      rw [hpos', hzero]
      decide
    rw [if_neg hzero] at hpos
    obtain ⟨bs, hbs, hrest⟩ := Program.bind_eq_ok.mp hpos
    have hne : bs ≠ -1 := by
      rintro rfl
      cases hrest
    rw [if_neg hne] at hrest
    have hwrap : wrap32 (c.valuePos + bs) = pos := Option.some.inj (Except.ok.inj hrest)
    have hadvance := ha.block hc hbs
    cases hc.stands h with
    | new => exact absurd rfl hzero
    | before hobj hfar =>
        rw [BsonCursor.blockSize_before h hobj hfar] at hbs
        cases hbs
    | @on p type key helem =>
        have hin := helem.key_inside
        have hrange := BsonCursor.blockSize_range hbs
        simp only [BsonCursor.on] at hadvance hwrap ⊢
        rw [hpos', sizeT]
        unfold wrap32 at hwrap
        omega
  find_ends := by
    intro name hend
    rw [h.find_eq] at hend
    rcases Program.bind_eq_error hend with hfrom | ⟨⟨ok, d⟩, -, hrest⟩
    · rcases circles_of_find h hfrom with hcircles | hcircles
      · exact not_circles_first h ha hcircles
      · exact not_circles_first h ha hcircles
    · cases hrest
  cursorFind_ends := fun hc name => LibMongo.cursorFind_ends h ha hc true name
  cursorFindNext_ends := fun hc name => LibMongo.cursorFind_ends h ha hc false name

/-- A key that is longer than the object. -/
def longName (n : Nat) : CString := ⟨List.replicate n 1, by simp [List.mem_replicate]⟩

theorem Bson.ParsingEnds.advances (h : b.Terminated) (hends : b.ParsingEnds) : b.Advances where
  block := by
    intro c hc bs hbs
    by_contra hback
    have hstands := hc.stands h
    by_cases hlow : c.pos < 4
    -- no size is read there
    · rw [BsonCursor.blockSize_low hlow] at hbs
      have hbs' : bs = -1 := (Except.ok.inj hbs).symm
      cases hstands with
      | new =>
          simp only at hback
          omega
      | on helem =>
          simp only [BsonCursor.on] at hback
          omega
      | before hobj hfar =>
          have hbig : sizeT (-1) = 18446744073709551615 := rfl
          omega
    cases hstands with
    | new => exact hlow (Nat.succ_pos 3)
    | before hobj hfar =>
        rw [BsonCursor.blockSize_before h hobj hfar] at hbs
        cases hbs
    | @on p type key helem =>
        have hin := helem.key_inside
        have hsmall := h.small
        simp only [BsonCursor.on] at hback hlow
        obtain ⟨q, hq⟩ : ∃ q : Nat, (q : Int) = (p + key.length + 2 : Nat) + bs :=
          ⟨((p + key.length + 2 : Nat) + bs).toNat, by omega⟩
        have hwrap : wrap32 ((p + key.length + 2 : Nat) + bs) = (q : Int) := by
          rw [← hq]
          exact wrap32_ofNat (by omega)
        have hpos : bsonCursorNextPos (.on b p key) = .ok (some (q : Int)) := by
          rw [bsonCursorNextPos_eq, if_neg (by simp only [BsonCursor.on]; omega), hbs,
            Program.ok_bind, if_neg (by omega), ← hwrap]
          rfl
        obtain ⟨type', key', helem'⟩ := h.elementAt (p := q) (by omega)
        have hmoves := hends.next_moves hc (next_of_element h rfl hpos helem')
        simp only [BsonCursor.on] at hmoves
        omega
  start := by
    intro hcircles
    apply hends.cursorFind_ends (.new h.cursorNew) (longName b.data.length)
    have hlong : b.data.length ≤ (longName b.data.length).length := by
      simp [longName, CString.length]
    have hrange := range_of_circles h hcircles hlong
    simp only [bsonCursorFind, bsonCursorFindWith, bsonCursorFindFrom, h.end_eq, hrange]
    rfl

end Ends

/-- **Parsing ends.**  Walking over a finished object goes forward and searching in it ends
for every key exactly when no size leads back and the search from a fresh cursor does not
go round. -/
theorem hostile_parsing_ends {b : Bson} (h : b.Terminated) : b.ParsingEnds ↔ b.Advances :=
  ⟨fun hends => hends.advances h, fun ha => ha.parsingEnds h⟩

/-- A string that states the size -6, in an object that is finished. -/
def backBson : Bson := ⟨[11, 0, 0, 0, 0x02, 0, 0xfa, 0xff, 0xff, 0xff, 0], true⟩

theorem hostile_parsing_ends_back : backBson.ParsingEnds ↔ backBson.Advances :=
  hostile_parsing_ends ⟨rfl, ⟨[11, 0, 0, 0, 0x02, 0, 0xfa, 0xff, 0xff, 0xff], rfl⟩, by decide⟩

/-- The string leads back to itself, and searching for another key never ends. -/
theorem hostile_parsing_endless :
    (∃ b, bsonNewFromData (some [0, 0, 0, 0, 0x02, 0, 0xfa, 0xff, 0xff, 0xff]) 10 = .ok (some b) ∧
      bsonFinish (some b) = (true, some backBson)) ∧
    (∃ c, c.Reached backBson ∧ bsonCursorNext (some c) = .ok (true, some c)) ∧
    bsonFind (some backBson) (some (.ascii ['x'])) = .error .endless ∧
    ¬ backBson.ParsingEnds := by
  have hfind : bsonFind (some backBson) (some (.ascii ['x'])) = .error .endless := rfl
  have hfirst : bsonCursorNext (some ⟨backBson, none, 0, 0⟩)
      = .ok (true, some ⟨backBson, some 5, 4, 6⟩) := by decide +kernel
  have hagain : bsonCursorNext (some ⟨backBson, some 5, 4, 6⟩)
      = .ok (true, some ⟨backBson, some 5, 4, 6⟩) := by decide +kernel
  refine ⟨⟨_, rfl, rfl⟩, ⟨_, .next (.new rfl) hfirst, hagain⟩, hfind, ?_⟩
  exact fun hends => hends.find_ends _ hfind

end LibMongo
