import LibMongo.Bson.Inside

/-!
# Searching on from a cursor

What `bson_cursor_find` and `bson_cursor_find_next` find on a document, from any cursor
that calls on it give.

Both hand the stored position to `_bson_cursor_find`, which takes it for the start of an
element.  The position of a fresh cursor is that of the length of the object, and the
search takes it for a type (`cursor_find_whole_iff`).  The position of a cursor on an
element is that element, and `bson_cursor_find_next` looks at it again
(`cursor_find_next_iff`).

Which elements a search comes to is the relation `Bson.Passes`, and `range_eq_iff` says
that a search ends as the walk along it does.
-/

namespace LibMongo

open Bytes Relation

/-! ## Places with a key -/

/-- The elements of a document with a key that start at `pos` or behind it. -/
def Doc.stopsFrom (b : Bson) (d : Doc) (pos : Nat) (name : CString) : List BsonCursor :=
  ((d.stops b 4).filter fun s => pos ≤ s.1.pos ∧ s.2.1 = name).map fun s => s.1

/-- The elements with a key of a part of the object that starts at `pos`. -/
def Doc.stopsWith (b : Bson) (pos : Nat) (d : Doc) (name : CString) : List BsonCursor :=
  ((d.stops b pos).filter fun s => s.2.1 = name).map fun s => s.1

section Places

variable {b : Bson} {d d₁ d₂ e : Doc} {name key : CString} {v : Value} {pos : Nat}

theorem Doc.stopsWith_cons :
    (Doc.cons key v d).stopsWith b pos name
      = if key = name then .on b pos key :: d.stopsWith b (pos + (element key v).length) name
        else d.stopsWith b (pos + (element key v).length) name := by
  rw [Doc.stopsWith, Doc.stops]
  by_cases hkey : key = name
  · rw [List.filter_cons_of_pos (by simpa using hkey), List.map_cons, if_pos hkey]
    rfl
  · rw [List.filter_cons_of_neg (by simpa using hkey), if_neg hkey]
    rfl

theorem Doc.stopsWith_append :
    (d.append e).stopsWith b pos name
      = d.stopsWith b pos name ++ e.stopsWith b (pos + d.elems.length) name := by
  rw [Doc.stopsWith, Doc.stops_append, List.filter_append, List.map_append]
  rfl

theorem Doc.stopsWith_none (d : Doc) (pos : Nat) (h : d.lookup name = none) :
    d.stopsWith b pos name = [] := by
  match d with
  | .nil => rfl
  | .cons key value rest =>
      rw [Doc.lookup] at h
      split at h
      next => cases h
      next hkey =>
        rw [Doc.stopsWith_cons, if_neg hkey]
        exact Doc.stopsWith_none rest _ h

/-- The first element with a key, and the others. -/
theorem Doc.stopsWith_split (hnone : d₁.lookup name = none) :
    (d₁.append (.cons name v d₂)).stopsWith b pos name
      = .on b (pos + d₁.elems.length) name ::
        d₂.stopsWith b (pos + d₁.elems.length + (element name v).length) name := by
  rw [Doc.stopsWith_append, Doc.stopsWith_none d₁ pos hnone, List.nil_append, Doc.stopsWith_cons,
    if_pos rfl]

/-- The elements of a part of a document start in it. -/
theorem Doc.stops_pos (d : Doc) (pos : Nat) {s : BsonCursor × CString × Value}
    (hs : s ∈ d.stops b pos) :
    pos ≤ s.1.pos ∧ s.1.pos < pos + d.elems.length := by
  match d with
  | .nil => cases hs
  | .cons key value rest =>
      have hlen := element_length key value
      rw [Doc.elems_cons, List.length_append]
      rw [Doc.stops, List.mem_cons] at hs
      rcases hs with rfl | hs
      · simp only [BsonCursor.on]
        omega
      · have hrest := Doc.stops_pos rest _ hs
        omega

/-- From the end of a part on, only what comes behind it counts. -/
theorem Doc.stopsFrom_append {q : Nat} (hlow : ∀ s ∈ d₁.stops b 4, s.1.pos < q)
    (hq : q ≤ 4 + d₁.elems.length) :
    (d₁.append e).stopsFrom b q name = e.stopsWith b (4 + d₁.elems.length) name := by
  have hfront : (d₁.stops b 4).filter (fun s => decide (q ≤ s.1.pos ∧ s.2.1 = name)) = [] := by
    rw [List.filter_eq_nil_iff]
    intro s hs
    have := hlow s hs
    simp only [decide_eq_true_eq, not_and]
    omega
  have hback : (e.stops b (4 + d₁.elems.length)).filter
        (fun s => decide (q ≤ s.1.pos ∧ s.2.1 = name))
      = (e.stops b (4 + d₁.elems.length)).filter fun s => decide (s.2.1 = name) := by
    refine List.filter_congr fun s hs => ?_
    have := (Doc.stops_pos e _ hs).1
    rw [decide_eq_decide]
    exact and_iff_right (by omega)
  rw [Doc.stopsFrom, Doc.stops_append, List.filter_append, hfront, List.nil_append, hback]
  rfl

theorem Doc.stopsFrom_zero : d.stopsFrom b 0 name = d.stopsWith b 4 name := by
  have h : (Doc.nil.append d).stopsFrom b 0 name =
      d.stopsWith b (4 + Doc.nil.elems.length) name :=
    Doc.stopsFrom_append (fun s hs => by cases hs) (by omega)
  rw [Doc.nil_append] at h
  exact h

/-- Where the document is when a cursor stands on one of its elements. -/
theorem Doc.split_of_stop {s : BsonCursor × CString × Value} :
    ∀ {d : Doc} (pos : Nat), s ∈ d.stops b pos → ∃ d₁ d₂ : Doc,
      d = d₁.append (.cons s.2.1 s.2.2 d₂) ∧
      s.1 = .on b (pos + d₁.elems.length) s.2.1
  | .nil, _, hs => by cases hs
  | .cons key value rest, pos, hs => by
      rw [Doc.stops, List.mem_cons] at hs
      rcases hs with rfl | hs
      · exact ⟨.nil, rest, rfl, rfl⟩
      · obtain ⟨d₁, d₂, hrest, hcursor⟩ := Doc.split_of_stop _ hs
        refine ⟨.cons key value d₁, d₂, ?_, ?_⟩
        · rw [Doc.cons_append, ← hrest]
        · rw [hcursor, Doc.elems_cons, List.length_append, Nat.add_assoc]

end Places

/-! ## Walks over a document -/

section Walks

variable {b : Bson} {d d₁ d₂ m : Doc} {name key : CString} {v : Value} {endPos : Nat}

theorem Bson.Encodes.length_eq (h : b.Encodes d) : b.data.length = d.elems.length + 5 := by
  rw [h.data_eq, Doc.encode, frame_length]

theorem Bson.Encodes.terminated (h : b.Encodes d) : b.Terminated where
  finished := h.finished
  ends := ⟨leBytes 4 (d.elems.length + 5) ++ d.elems, by
    rw [h.data_eq, Doc.encode, frame, List.append_assoc]⟩
  small := h.small

/-- What is read where an element starts. -/
theorem Bson.Encodes.elementAt (h : b.Encodes (d₁.append (.cons key v d₂))) :
    b.ElementAt (4 + d₁.elems.length) v.type key := by
  obtain ⟨pre, post, hh, hpre⟩ := h.holds
  rw [← hpre]
  refine ⟨?_, ?_⟩
  · rw [hh.drop_pre]
    simp only [element, List.cons_append, byteAt, Except.map]
    rw [BsonType.ofByte_toByte v.type_ne_other]
  · rw [hh.drop_key, CString.load_image]

/-- A search goes on from an element with another key at the next one. -/
theorem Bson.Encodes.passes (h : b.Encodes (d₁.append (.cons key v d₂))) (hkey : key ≠ name)
    (hend : 4 + d₁.elems.length < endPos) :
    b.Passes name endPos (4 + d₁.elems.length)
      (4 + (d₁.append (.cons key v .nil)).elems.length) := by
  have hlen := h.length_eq
  have hsmall := h.small
  have helem := h.elementAt
  obtain ⟨pre, post, hh, hpre⟩ := h.holds
  have hblock := hh.blockSize_on
  rw [hpre] at hblock
  refine ⟨hend, ⟨_, _, helem, hkey⟩, v.type, key, v.encode.length, helem, hblock, by omega, ?_⟩
  have hel := element_length key v
  rw [Doc.elems_append, Doc.elems_cons, List.length_append, List.length_append] at hlen
  rw [Doc.elems_append, Doc.elems_cons, Doc.elems_nil, List.append_nil, List.length_append]
  rw [wrap32_of_range (by omega) (by omega), sizeT]
  omega

/-- It comes over elements with other keys. -/
theorem Bson.Encodes.leads_over : ∀ (m : Doc) {d₁ : Doc}, b.Encodes (d₁.append (m.append d₂)) →
    m.lookup name = none → 4 + d₁.elems.length + m.elems.length ≤ endPos →
    ReflTransGen (b.Passes name endPos) (4 + d₁.elems.length)
      (4 + d₁.elems.length + m.elems.length)
  | .nil, _, _, _, _ => by
      rw [Doc.elems_nil, List.length_nil, Nat.add_zero]
  | .cons key value rest, d₁, h, hnone, hend => by
      have hel := element_length key value
      rw [Doc.lookup] at hnone
      split at hnone
      next => cases hnone
      next hkey =>
        rw [Doc.elems_cons, List.length_append] at hend ⊢
        have hnext : b.Encodes ((d₁.append (.cons key value .nil)).append (rest.append d₂)) := by
          rw [Doc.append_assoc, Doc.cons_append, Doc.nil_append]
          exact h
        have hlen : (d₁.append (.cons key value .nil)).elems.length
            = d₁.elems.length + (element key value).length := by
          rw [Doc.elems_append, Doc.elems_cons, Doc.elems_nil, List.append_nil,
            List.length_append]
        have hrest := Bson.Encodes.leads_over rest hnext hnone (by omega)
        have hpass := h.passes hkey (by omega : 4 + d₁.elems.length < endPos)
        rw [hlen] at hrest hpass
        simpa only [Nat.add_assoc] using ReflTransGen.head hpass hrest

/-- It comes to the end of its range, wherever that is. -/
theorem Bson.Encodes.exhausts_over : ∀ (m : Doc) {d₁ : Doc}, b.Encodes (d₁.append (m.append d₂)) →
    m.lookup name = none → endPos ≤ 4 + d₁.elems.length + m.elems.length →
    b.Exhausts name (4 + d₁.elems.length) endPos
  | .nil, _, _, _, hend => by
      rw [Doc.elems_nil, List.length_nil] at hend
      exact ⟨_, .refl, hend⟩
  | .cons key value rest, d₁, h, hnone, hend => by
      rw [Doc.lookup] at hnone
      split at hnone
      next => cases hnone
      next hkey =>
        by_cases hlast : endPos ≤ 4 + d₁.elems.length
        · exact ⟨_, .refl, hlast⟩
        rw [Doc.elems_cons, List.length_append] at hend
        have hnext : b.Encodes ((d₁.append (.cons key value .nil)).append (rest.append d₂)) := by
          rw [Doc.append_assoc, Doc.cons_append, Doc.nil_append]
          exact h
        have hlen : (d₁.append (.cons key value .nil)).elems.length
            = d₁.elems.length + (element key value).length := by
          rw [Doc.elems_append, Doc.elems_cons, Doc.elems_nil, List.append_nil,
            List.length_append]
        obtain ⟨p, hleads, hp⟩ := Bson.Encodes.exhausts_over rest hnext hnone (by omega)
        exact ⟨p, .head (h.passes hkey (Nat.not_le.mp hlast)) hleads, hp⟩

theorem Bson.Encodes.leads_from_start (h : b.Encodes (m.append d₂)) (hnone : m.lookup name = none)
    (hend : 4 + m.elems.length ≤ endPos) :
    ReflTransGen (b.Passes name endPos) 4 (4 + m.elems.length) := by
  have hstart : b.Encodes (Doc.nil.append (m.append d₂)) := by rwa [Doc.nil_append]
  have hleads := hstart.leads_over m hnone (by simpa using hend)
  simpa using hleads

theorem Bson.Encodes.exhausts_from_start (h : b.Encodes (m.append d₂))
    (hnone : m.lookup name = none) (hend : endPos ≤ 4 + m.elems.length) :
    b.Exhausts name 4 endPos := by
  have hstart : b.Encodes (Doc.nil.append (m.append d₂)) := by rwa [Doc.nil_append]
  have hexhausts := hstart.exhausts_over m hnone (by simpa using hend)
  simpa using hexhausts

/-- A stop is on an element. -/
theorem Bson.Encodes.stop_element (h : b.Encodes d) {s : BsonCursor × CString × Value}
    (hs : s ∈ d.stops b 4) :
    s.1 = .on b s.1.pos s.2.1 ∧ b.ElementAt s.1.pos s.2.2.type s.2.1 ∧
      s.1.pos < b.data.length - 1 := by
  obtain ⟨d₁, d₂, hd, hcursor⟩ := Doc.split_of_stop 4 hs
  have hlen := h.length_eq
  have hpos := (Doc.stops_pos d 4 hs).2
  rw [hd] at h
  refine ⟨?_, ?_, by omega⟩
  · rw [hcursor]
    rfl
  · rw [hcursor]
    exact h.elementAt

end Walks

/-! ## How a search ends -/

/-- A search comes to an element of unknown size. -/
def Bson.Stuck (b : Bson) (name : CString) (startPos endPos : Nat) : Prop :=
  ∃ p, ReflTransGen (b.Passes name endPos) startPos p ∧ p < endPos ∧ ∃ type key,
    b.ElementAt p type key ∧ key ≠ name ∧
      bsonGetBlockSize type (b.data.drop (p + key.length + 2)) = .ok (-1)

section Ends

variable {b : Bson} {c : BsonCursor} {name : CString} {startPos endPos p : Nat}
  {type : BsonType} {wrapOver : Bool}

/-- The last round of a search that stops at an element. -/
theorem found_of_last (h : b.Terminated) {q v : Nat}
    (hlast : Loop.last (bsonCursorFindRound b.data name endPos q) = some (.ok (.found p v))) :
    q = p ∧ p < endPos ∧ v = p + name.length + 2 := by
  by_cases hq : q < endPos
  · cases hr : bsonCursorFindRound b.data name endPos q with
    | error e =>
        rw [hr] at hlast
        cases hlast
    | ok o =>
        obtain ⟨type, key, helem⟩ := elementAt_of_round hq hr
        rw [bsonCursorFindRound_element h helem hq] at hlast
        split at hlast
        next hkey =>
          cases hlast
          exact ⟨rfl, hq, by rw [hkey]⟩
        next =>
          cases hbs : bsonGetBlockSize type (b.data.drop (q + key.length + 2)) with
          | error e =>
              rw [hbs] at hlast
              cases hlast
          | ok bs =>
              rw [hbs, Program.ok_bind] at hlast
              split at hlast
              next => cases hlast
              next => cases hlast
  · rw [bsonCursorFindRound, if_neg hq] at hlast
    cases hlast

/-- A search that is successful came to the element it found. -/
theorem leads_of_found (h : b.Terminated) {v : Nat}
    (hfound : bsonCursorFindRange b name startPos endPos = .ok (.found p v)) :
    ReflTransGen (b.Passes name endPos) startPos p ∧ p < endPos ∧ v = p + name.length + 2 := by
  obtain ⟨q, hq, hlast⟩ := (range_eq_iff h (by rintro ⟨⟩)).mp hfound
  obtain ⟨rfl, hp, hv⟩ := found_of_last h hlast
  exact ⟨hq, hp, hv⟩

/-- A search stops at the first element with the key it comes to. -/
theorem found_of_leads (h : b.Terminated) (helem : b.ElementAt p type name) (hp : p < endPos)
    (hleads : ReflTransGen (b.Passes name endPos) startPos p) :
    bsonCursorFindRange b name startPos endPos = .ok (.found p (p + name.length + 2)) := by
  refine (range_eq_iff h (by rintro ⟨⟩)).mpr ⟨p, hleads, ?_⟩
  rw [bsonCursorFindRound_element h helem hp, if_pos rfl]
  rfl

theorem stopped_iff (h : b.Terminated) :
    bsonCursorFindRange b name startPos endPos = .ok .stopped ↔ b.Stuck name startPos endPos := by
  rw [range_eq_iff h (by rintro ⟨⟩)]
  refine exists_congr fun p => and_congr_right fun _ => ?_
  constructor
  · intro hlast
    by_cases hp : p < endPos
    · refine ⟨hp, ?_⟩
      cases hr : bsonCursorFindRound b.data name endPos p with
      | error e =>
          rw [hr] at hlast
          cases hlast
      | ok o =>
          obtain ⟨type, key, helem⟩ := elementAt_of_round hp hr
          refine ⟨type, key, helem, ?_⟩
          rw [bsonCursorFindRound_element h helem hp] at hlast
          split at hlast
          next => cases hlast
          next hkey =>
            refine ⟨hkey, ?_⟩
            cases hbs : bsonGetBlockSize type (b.data.drop (p + key.length + 2)) with
            | error e =>
                rw [hbs] at hlast
                cases hlast
            | ok bs =>
                rw [hbs, Program.ok_bind] at hlast
                split at hlast
                next hone => rw [hone]
                next => cases hlast
    · rw [bsonCursorFindRound, if_neg hp] at hlast
      cases hlast
  · rintro ⟨hp, type, key, helem, hkey, hbs⟩
    rw [bsonCursorFindRound_element h helem hp, if_neg hkey, hbs, Program.ok_bind, if_pos rfl]
    rfl

/-- What a call makes of its first scan, and of the second if there is one. -/
def scanned (b : Bson) (c : BsonCursor) (name : CString) (first second : Except Halt FindResult)
    (wrapOver : Bool) : Except Halt (Bool × Option BsonCursor) := do
  match ← first with
  | .found p _ => return (true, some (.on b p name))
  | .stopped => return (false, some c)
  | .exhausted =>
      if wrapOver then
        match ← second with
        | .found p _ => return (true, some (.on b p name))
        | _ => return (false, some c)
      else return (false, some c)

theorem findWith_eq (h : b.Terminated) (hobj : c.obj = b) :
    bsonCursorFindWith wrapOver (some c) (some name)
      = scanned b c name (bsonCursorFindRange b name c.pos (b.data.length - 1))
          (bsonCursorFindRange b name 4 (guint32 c.pos)) wrapOver := by
  simp only [bsonCursorFindWith, bsonCursorFindFrom, hobj, h.end_eq, scanned]
  cases hfirst : bsonCursorFindRange b name c.pos (b.data.length - 1) with
  | error e => rfl
  | ok r =>
      cases r with
      | stopped => rfl
      | found q v =>
          obtain ⟨-, -, rfl⟩ := leads_of_found h hfirst
          rfl
      | exhausted =>
          cases wrapOver with
          | false => rfl
          | true =>
              cases hsecond : bsonCursorFindRange b name 4 (guint32 c.pos) with
              | error e => rfl
              | ok r =>
                  cases r with
                  | found q v =>
                      obtain ⟨-, -, rfl⟩ := leads_of_found h hsecond
                      rfl
                  | _ => rfl

/-- A cursor that is moved to an element was moved there by one of the two scans. -/
theorem scanned_found_iff {first second : Except Halt FindResult} :
    scanned b c name first second wrapOver = .ok (true, some (.on b p name)) ↔
      (∃ v, first = .ok (.found p v)) ∨
      (wrapOver = true ∧ first = .ok .exhausted ∧ ∃ v, second = .ok (.found p v)) := by
  have hon : ∀ {q : Nat}, BsonCursor.on b q name = .on b p name ↔ q = p := by
    intro q
    refine ⟨fun h => congrArg BsonCursor.pos h, ?_⟩
    rintro rfl
    rfl
  cases first with
  | error e => simp [scanned]
  | ok r =>
      cases r with
      | stopped => simp [scanned, pure, Except.pure]
      | found q v => simp [scanned, pure, Except.pure, hon]
      | exhausted =>
          cases wrapOver with
          | false => simp [scanned, pure, Except.pure]
          | true =>
              cases second with
              | error e => simp [scanned]
              | ok r =>
                  cases r with
                  | found q v => simp [scanned, pure, Except.pure, hon]
                  | _ => simp [scanned, pure, Except.pure]

/-- A cursor that stays was left by both scans. -/
theorem scanned_missed_iff {first second : Except Halt FindResult} :
    scanned b c name first second wrapOver = .ok (false, some c) ↔
      first = .ok .stopped ∨ (first = .ok .exhausted ∧
        (wrapOver = true → second = .ok .stopped ∨ second = .ok .exhausted)) := by
  cases first with
  | error e => simp [scanned]
  | ok r =>
      cases r with
      | stopped => simp [scanned, pure, Except.pure]
      | found q v => simp [scanned, pure, Except.pure]
      | exhausted =>
          cases wrapOver with
          | false => simp [scanned, pure, Except.pure]
          | true =>
              cases second with
              | error e => simp [scanned]
              | ok r =>
                  cases r with
                  | found q v => simp [scanned, pure, Except.pure]
                  | _ => simp [scanned, pure, Except.pure]

end Ends

/-! ## `bson_cursor_find_next` -/

/-- `bson_cursor_find_next` moves to the first element with the key that comes strictly
behind the current one, or leaves the cursor where it is. -/
def FindsNext (b : Bson) (d : Doc) (c : BsonCursor) (name : CString) : Prop :=
  bsonCursorFindNext (some c) (some name)
    = .ok (match (d.stopsFrom b (c.pos + 1) name).head? with
        | some c' => (true, some c')
        | none => (false, some c))

/-- Repeated calls with one key move the cursor to these places and then end. -/
inductive VisitsNext (name : CString) : BsonCursor → List BsonCursor → Prop where
  | last {c : BsonCursor} :
      bsonCursorFindNext (some c) (some name) = .ok (false, some c) → VisitsNext name c []
  | next {c c' : BsonCursor} {cs : List BsonCursor} :
      bsonCursorFindNext (some c) (some name) = .ok (true, some c') → VisitsNext name c' cs →
      VisitsNext name c (c' :: cs)

section Next

variable {b : Bson} {d d₁ d₂ : Doc} {key name : CString} {v : Value}

/-- Behind an element comes the rest of the document. -/
theorem Doc.stopsFrom_behind :
    (d₁.append (.cons key v d₂)).stopsFrom b (4 + d₁.elems.length + 1) name
      = d₂.stopsWith b (4 + d₁.elems.length + (element key v).length) name := by
  have hel := element_length key v
  have hlen : (d₁.append (.cons key v .nil)).elems.length
      = d₁.elems.length + (element key v).length := by
    rw [Doc.elems_append, Doc.elems_cons, Doc.elems_nil, List.append_nil, List.length_append]
  have hlow : ∀ s ∈ (d₁.append (.cons key v .nil)).stops b 4,
      s.1.pos < 4 + d₁.elems.length + 1 := by
    intro s hs
    rw [Doc.stops_append, List.mem_append] at hs
    rcases hs with hs | hs
    · have := (Doc.stops_pos d₁ 4 hs).2
      omega
    · rw [Doc.stops, Doc.stops, List.mem_singleton] at hs
      subst hs
      exact Nat.lt_succ_self _
  have h : ((d₁.append (.cons key v .nil)).append d₂).stopsFrom b (4 + d₁.elems.length + 1) name
      = d₂.stopsWith b (4 + (d₁.append (.cons key v .nil)).elems.length) name :=
    Doc.stopsFrom_append hlow (by omega)
  rw [Doc.append_assoc, Doc.cons_append, Doc.nil_append, hlen, ← Nat.add_assoc] at h
  exact h

/-- On an element with the key the cursor stays, with `TRUE`. -/
theorem findNext_stays (h : b.Encodes (d₁.append (.cons name v d₂))) :
    bsonCursorFindNext (some (.behind b d₁ name)) (some name)
      = .ok (true, some (.behind b d₁ name)) := by
  have hlen := h.length_eq
  rw [Doc.elems_append, Doc.elems_cons, List.length_append, List.length_append] at hlen
  have hel := element_length name v
  rw [bsonCursorFindNext, findWith_eq h.terminated rfl, BsonCursor.behind, scanned_found_iff]
  exact .inl ⟨_, found_of_leads h.terminated h.elementAt (by omega) .refl⟩

/-- On another element it moves as it should. -/
theorem findNext_moves (h : b.Encodes (d₁.append (.cons key v d₂))) (hkey : key ≠ name) :
    FindsNext b (d₁.append (.cons key v d₂)) (.behind b d₁ key) name := by
  have hlen := h.length_eq
  rw [Doc.elems_append, Doc.elems_cons, List.length_append, List.length_append] at hlen
  rw [FindsNext, bsonCursorFindNext, findWith_eq h.terminated rfl]
  rw [show (BsonCursor.behind b d₁ key).pos = 4 + d₁.elems.length from rfl,
    Doc.stopsFrom_behind]
  cases hl : d₂.lookup name with
  | none =>
      rw [Doc.stopsWith_none _ _ hl]
      refine scanned_missed_iff.mpr (.inr ⟨(exhausted_iff h.terminated).mpr ?_, by simp⟩)
      have hall : (Doc.cons key v d₂).lookup name = none := by rw [Doc.lookup, if_neg hkey, hl]
      rw [← d₂.append_nil, ← Doc.cons_append] at h
      refine h.exhausts_over _ hall ?_
      rw [Doc.elems_cons, List.length_append]
      omega
  | some w =>
      obtain ⟨m, r, rfl, hnone⟩ := Doc.split_of_lookup hl
      have hall : (Doc.cons key v m).lookup name = none := by
        rw [Doc.lookup, if_neg hkey, hnone]
      rw [Doc.stopsWith_split hnone]
      have helem : b.ElementAt (4 + d₁.elems.length + (element key v).length + m.elems.length)
          w.type name := by
        have h' := h
        rw [← Doc.cons_append, ← Doc.append_assoc] at h'
        have := h'.elementAt
        rw [Doc.elems_append, Doc.elems_cons, List.length_append, List.length_append,
          ← Nat.add_assoc, ← Nat.add_assoc] at this
        exact this
      have hel := element_length name w
      rw [Doc.elems_append, Doc.elems_cons, List.length_append, List.length_append] at hlen
      refine scanned_found_iff.mpr (.inl ⟨_, found_of_leads h.terminated helem (by omega) ?_⟩)
      rw [← Doc.cons_append] at h
      have hleads : ReflTransGen (b.Passes name (b.data.length - 1)) _ _ := h.leads_over _ hall
        (by rw [Doc.elems_cons, List.length_append]; omega)
      rw [Doc.elems_cons, List.length_append, ← Nat.add_assoc] at hleads
      exact hleads

/-- A loop that is left where it is does not end. -/
theorem not_visitsNext {c : BsonCursor} {cs : List BsonCursor}
    (hstays : bsonCursorFindNext (some c) (some name) = .ok (true, some c)) :
    ¬ VisitsNext name c cs := by
  intro h
  induction h with
  | last hlast =>
      rw [hstays] at hlast
      cases hlast
  | next hnext _ ih =>
      rw [hstays] at hnext
      cases hnext
      exact ih hstays

/-- A place with the key is listed. -/
theorem Doc.mem_stopsFrom {c : BsonCursor} {pos : Nat} :
    c ∈ d.stopsFrom b pos name ↔ ∃ s ∈ d.stops b 4, pos ≤ s.1.pos ∧ s.2.1 = name ∧ s.1 = c := by
  rw [Doc.stopsFrom, List.mem_map]
  simp only [List.mem_filter, decide_eq_true_eq, and_assoc]

/-- An element with the key holds the cursor. -/
theorem Bson.Encodes.findNext_holds (h : b.Encodes d) {s : BsonCursor × CString × Value}
    (hs : s ∈ d.stops b 4) (hkey : s.2.1 = name) :
    bsonCursorFindNext (some s.1) (some name) = .ok (true, some s.1) := by
  obtain ⟨d₁, d₂, hd, hcursor⟩ := Doc.split_of_stop 4 hs
  rw [hkey] at hd hcursor
  rw [hcursor]
  rw [hd] at h
  exact findNext_stays h

/-- From an element with another key the cursor moves as it should. -/
theorem Bson.Encodes.findsNext_of_ne (h : b.Encodes d) {s : BsonCursor × CString × Value}
    (hs : s ∈ d.stops b 4) (hkey : s.2.1 ≠ name) : FindsNext b d s.1 name := by
  obtain ⟨d₁, d₂, hd, hcursor⟩ := Doc.split_of_stop 4 hs
  rw [hcursor]
  have he := h
  rw [hd] at he
  rw [hd]
  exact findNext_moves he hkey

/-- At one position there is one key. -/
theorem Bson.Encodes.stop_key (h : b.Encodes d) {s t : BsonCursor × CString × Value}
    (hs : s ∈ d.stops b 4) (ht : t ∈ d.stops b 4) (hpos : t.1.pos = s.1.pos) :
    s.2.1 = t.2.1 := by
  have h₁ := (h.stop_element ht).2.1
  have h₂ := (h.stop_element hs).2.1
  rw [hpos] at h₁
  exact (h₂.unique h₁).2

/-- From an element with another key, a loop stops for good at the next one with the key. -/
theorem Bson.Encodes.not_visitsNext (h : b.Encodes d) {s t : BsonCursor × CString × Value}
    (hs : s ∈ d.stops b 4) (hkey : s.2.1 ≠ name) (ht : t ∈ d.stops b 4)
    (hle : s.1.pos ≤ t.1.pos) (hname : t.2.1 = name) :
    ¬ VisitsNext name s.1 (d.stopsFrom b (s.1.pos + 1) name) := by
  intro hvisits
  have hfinds := h.findsNext_of_ne hs hkey
  rw [FindsNext] at hfinds
  have hlater : s.1.pos + 1 ≤ t.1.pos := by
    by_contra hnot
    exact hkey ((h.stop_key hs ht (by omega)).trans hname)
  have hmem : t.1 ∈ d.stopsFrom b (s.1.pos + 1) name :=
    Doc.mem_stopsFrom.mpr ⟨t, ht, hlater, hname, rfl⟩
  cases hlist : d.stopsFrom b (s.1.pos + 1) name with
  | nil =>
      rw [hlist] at hmem
      cases hmem
  | cons c' cs =>
      rw [hlist] at hfinds hvisits
      have hc' : c' ∈ d.stopsFrom b (s.1.pos + 1) name := by
        rw [hlist]
        exact List.mem_cons_self
      obtain ⟨u, hu, -, hukey, rfl⟩ := Doc.mem_stopsFrom.mp hc'
      cases hvisits with
      | next hnext hrest => exact LibMongo.not_visitsNext (h.findNext_holds hu hukey) hrest

/-- **`bson_cursor_find_next` does not move past the current key.**  From a cursor on an
element it finds what comes behind exactly if the element has another key, and a loop
over all that comes behind ends exactly if there is nothing to find. -/
theorem cursor_find_next_iff (h : b.Encodes d) {s : BsonCursor × CString × Value}
    (hs : s ∈ d.stops b 4) (name : CString) :
    (FindsNext b d s.1 name ↔ s.2.1 ≠ name) ∧
    (VisitsNext name s.1 (d.stopsFrom b (s.1.pos + 1) name) ↔
      ∀ t ∈ d.stops b 4, s.1.pos ≤ t.1.pos → t.2.1 ≠ name) := by
  constructor
  · refine ⟨fun hfinds hkey => ?_, h.findsNext_of_ne hs⟩
    have heq := (h.findNext_holds hs hkey).symm.trans hfinds
    cases hhead : (d.stopsFrom b (s.1.pos + 1) name).head? with
    | none =>
        rw [hhead] at heq
        cases heq
    | some c' =>
        rw [hhead] at heq
        have hpos := congrArg BsonCursor.pos (Option.some.inj (congrArg Prod.snd (Except.ok.inj heq)))
        obtain ⟨t, -, hle, -, rfl⟩ := Doc.mem_stopsFrom.mp (List.mem_of_mem_head? hhead)
        omega
  · constructor
    · intro hvisits t ht hle hname
      by_cases hkey : s.2.1 = name
      · exact not_visitsNext (h.findNext_holds hs hkey) hvisits
      · exact h.not_visitsNext hs hkey ht hle hname hvisits
    · intro hnone
      have hempty : d.stopsFrom b (s.1.pos + 1) name = [] := by
        rw [List.eq_nil_iff_forall_not_mem]
        intro c' hc'
        obtain ⟨t, ht, hle, hname, -⟩ := Doc.mem_stopsFrom.mp hc'
        exact hnone t ht (by omega) hname
      have hfinds := h.findsNext_of_ne hs (hnone _ hs (le_refl _))
      rw [FindsNext, hempty] at hfinds
      rw [hempty]
      exact .last hfinds

end Next

/-- Two elements without values. -/
def pairDoc : Doc := .cons (.ascii ['a']) .null (.cons (.ascii ['b']) .null .nil)

/-- The encoded document. -/
def pairBson : Bson := ⟨pairDoc.encode, true⟩

theorem pairBson_encodes : pairBson.Encodes pairDoc := ⟨rfl, rfl, by decide⟩

theorem cursor_find_next_pair :
    FindsNext pairBson pairDoc (.on pairBson 4 (.ascii ['a'])) (.ascii ['b']) :=
  (cursor_find_next_iff pairBson_encodes
    (s := (.on pairBson 4 (.ascii ['a']), .ascii ['a'], .null)) List.mem_cons_self
    (.ascii ['b'])).1.mpr (by decide)

/-- A search for the key of the current element finds that element. -/
theorem cursor_find_next_again :
    bsonCursorFindNext (some (.on pairBson 4 (.ascii ['a']))) (some (.ascii ['a']))
      = .ok (true, some (.on pairBson 4 (.ascii ['a']))) ∧
    ¬ FindsNext pairBson pairDoc (.on pairBson 4 (.ascii ['a'])) (.ascii ['a']) := by
  have hstays : bsonCursorFindNext (some (.on pairBson 4 (.ascii ['a']))) (some (.ascii ['a']))
      = .ok (true, some (.on pairBson 4 (.ascii ['a']))) := by decide +kernel
  refine ⟨hstays, fun hfinds => ?_⟩
  have hnone : pairDoc.stopsFrom pairBson 5 (.ascii ['a']) = [] := by decide +kernel
  rw [FindsNext, hstays] at hfinds
  rw [show (BsonCursor.on pairBson 4 (.ascii ['a'])).pos + 1 = 5 from rfl, hnone] at hfinds
  cases hfinds

/-! ## `bson_cursor_find` -/

/-- `bson_cursor_find` moves to the first element with the key that starts where the
cursor stands or behind it, or else to the first one of all.  If there is none, the
cursor stays. -/
def FindsWhole (b : Bson) (d : Doc) (c : BsonCursor) (name : CString) : Prop :=
  bsonCursorFind (some c) (some name)
    = .ok (match (d.stopsFrom b c.pos name ++ d.stopsFrom b 0 name).head? with
        | some c' => (true, some c')
        | none => (false, some c))

/-- The search from the position of the cursor comes to the first element with the key
at or behind it.  If such elements come only in front of it, the search comes to the
end of the object, or to the first of them.  If there are none, it comes to an element of
unknown size, or from inside the object to the end. -/
def ScanMeets (b : Bson) (d : Doc) (c : BsonCursor) (name : CString) : Prop :=
  match (d.stopsFrom b c.pos name).head?, (d.stopsFrom b 0 name).head? with
  | some c', _ => ReflTransGen (b.Passes name (b.data.length - 1)) c.pos c'.pos
  | none, some c' =>
      ReflTransGen (b.Passes name (b.data.length - 1)) c.pos c'.pos ∨
        b.Exhausts name c.pos (b.data.length - 1)
  | none, none =>
      b.Stuck name c.pos (b.data.length - 1) ∨
        (b.Exhausts name c.pos (b.data.length - 1) ∧ c.pos < b.data.length)

section Whole

variable {b : Bson} {d : Doc} {c c' : BsonCursor} {name : CString}

theorem findsWhole_found (hhead : (d.stopsFrom b c.pos name ++ d.stopsFrom b 0 name).head?
      = some c') :
    FindsWhole b d c name ↔ bsonCursorFind (some c) (some name) = .ok (true, some c') := by
  rw [FindsWhole, hhead]

theorem findsWhole_missed
    (hhead : (d.stopsFrom b c.pos name ++ d.stopsFrom b 0 name).head? = none) :
    FindsWhole b d c name ↔ bsonCursorFind (some c) (some name) = .ok (false, some c) := by
  rw [FindsWhole, hhead]

/-- A place with the key, and the element there. -/
theorem stop_with_key (h : b.Encodes d) {pos : Nat} (hc : c ∈ d.stopsFrom b pos name) :
    pos ≤ c.pos ∧ c = .on b c.pos name ∧ (∃ type, b.ElementAt c.pos type name) ∧
      c.pos < b.data.length - 1 := by
  obtain ⟨s, hs, hle, hname, rfl⟩ := Doc.mem_stopsFrom.mp hc
  obtain ⟨heq, helem, hlt⟩ := h.stop_element hs
  rw [hname] at heq helem
  exact ⟨hle, heq, ⟨_, helem⟩, hlt⟩

/-- Where the second scan ends. -/
theorem guint32_stands (h : b.Terminated) (hc : c.Stands b) :
    (c.pos < b.data.length ∧ guint32 c.pos = c.pos) ∨
      (b.data.length ≤ c.pos ∧ guint32 c.pos = 4294967295) := by
  have hsmall := h.small
  have hpos := h.length_pos
  cases hc with
  | new => exact .inl ⟨hpos, rfl⟩
  | on helem =>
      have hin := helem.key_inside
      simp only [BsonCursor.on]
      exact .inl ⟨by omega, guint32_ofNat (by omega)⟩
  | before _ hbefore =>
      rw [hbefore]
      exact .inr ⟨by unfold sizeT; omega, by decide⟩

/-- An element with the key at or behind the cursor. -/
theorem findsWhole_ahead (h : b.Encodes d) (hc : c.Stands b)
    (hhead : (d.stopsFrom b c.pos name).head? = some c') :
    FindsWhole b d c name ↔
      ReflTransGen (b.Passes name (b.data.length - 1)) c.pos c'.pos := by
  obtain ⟨hle, hon, ⟨type, helem⟩, hlt⟩ := stop_with_key h (List.mem_of_mem_head? hhead)
  have hfirst : (d.stopsFrom b c.pos name ++ d.stopsFrom b 0 name).head? = some c' := by
    rw [List.head?_append, hhead]
    rfl
  rw [findsWhole_found hfirst, bsonCursorFind,
    findWith_eq h.terminated hc.obj_eq, hon, scanned_found_iff]
  constructor
  · rintro (⟨v, hfirst⟩ | ⟨-, -, v, hsecond⟩)
    · exact (leads_of_found h.terminated hfirst).1
    · have hp := (leads_of_found h.terminated hsecond).2.1
      rcases guint32_stands h.terminated hc with ⟨-, heq⟩ | ⟨hout, -⟩
      · rw [heq] at hp
        omega
      · omega
  · intro hleads
    exact .inl ⟨_, found_of_leads h.terminated helem hlt hleads⟩

/-- Elements with the key in front of the cursor only. -/
theorem findsWhole_around (h : b.Encodes d) (hc : c.Stands b)
    (hnone : (d.stopsFrom b c.pos name).head? = none)
    (hhead : (d.stopsFrom b 0 name).head? = some c') :
    FindsWhole b d c name ↔
      ReflTransGen (b.Passes name (b.data.length - 1)) c.pos c'.pos ∨
        b.Exhausts name c.pos (b.data.length - 1) := by
  obtain ⟨-, hon, ⟨type, helem⟩, hlt⟩ := stop_with_key h (List.mem_of_mem_head? hhead)
  have hfirst : (d.stopsFrom b c.pos name ++ d.stopsFrom b 0 name).head? = some c' := by
    rw [List.head?_append, hnone]
    exact hhead
  rw [findsWhole_found hfirst, bsonCursorFind, findWith_eq h.terminated hc.obj_eq, hon, scanned_found_iff]
  constructor
  · rintro (⟨v, hfirst⟩ | ⟨-, hexhausted, -⟩)
    · exact .inl (leads_of_found h.terminated hfirst).1
    · exact .inr ((exhausted_iff h.terminated).mp hexhausted)
  · rintro (hleads | hexhausts)
    · exact .inl ⟨_, found_of_leads h.terminated helem hlt hleads⟩
    · refine .inr ⟨rfl, (exhausted_iff h.terminated).mpr hexhausts, ?_⟩
      -- the first element of all lies in front of the position of the cursor
      have hbefore : c'.pos < c.pos := by
        by_contra hnot
        obtain ⟨t, ht, -, hname, rfl⟩ := Doc.mem_stopsFrom.mp (List.mem_of_mem_head? hhead)
        have hmem : t.1 ∈ d.stopsFrom b c.pos name :=
          Doc.mem_stopsFrom.mpr ⟨t, ht, by omega, hname, rfl⟩
        rw [List.head?_eq_none_iff.mp hnone] at hmem
        cases hmem
      have hend : c'.pos < guint32 c.pos := by
        have hsmall := h.small
        rcases guint32_stands h.terminated hc with ⟨-, heq⟩ | ⟨-, heq⟩
        · omega
        · omega
      have hl : d.lookup name ≠ none := by
        intro hl
        rw [Doc.stopsFrom_zero, Doc.stopsWith_none d 4 hl] at hhead
        cases hhead
      obtain ⟨w, hl⟩ := Option.ne_none_iff_exists'.mp hl
      obtain ⟨m, r, rfl, hm⟩ := Doc.split_of_lookup hl
      rw [Doc.stopsFrom_zero, Doc.stopsWith_split hm] at hhead
      cases hhead
      have hleads : ReflTransGen (b.Passes name (guint32 c.pos)) 4 (4 + m.elems.length) :=
        h.leads_from_start hm (by simpa only [BsonCursor.on] using hend.le)
      exact ⟨_, found_of_leads h.terminated helem hend hleads⟩

/-- A second scan that goes on to the end of the object reads behind it. -/
theorem second_scan_outside (h : b.Encodes d) (hl : d.lookup name = none)
    {endPos : Nat} (hend : b.data.length ≤ endPos) :
    bsonCursorFindRange b name 4 endPos = .error .outside := by
  have hlen := h.length_eq
  have hwhole : b.Encodes (d.append .nil) := by rwa [Doc.append_nil]
  have hleads : ReflTransGen (b.Passes name endPos) 4 (4 + d.elems.length) :=
    hwhole.leads_from_start hl (by omega)
  refine (range_eq_iff h.terminated (by rintro ⟨⟩)).mpr ⟨_, hleads, ?_⟩
  have hround : bsonCursorFindRound b.data name endPos (4 + d.elems.length) = .error .outside := by
    cases hr : bsonCursorFindRound b.data name endPos (4 + d.elems.length) with
    | error e => rw [bsonCursorFindRound_error hr]
    | ok o =>
        obtain ⟨type, key, helem⟩ := elementAt_of_round (by omega) hr
        have hin := helem.key_inside
        omega
  rw [hround]
  rfl

/-- No element with the key. -/
theorem findsWhole_nowhere (h : b.Encodes d) (hc : c.Stands b)
    (hnone : (d.stopsFrom b c.pos name).head? = none)
    (hempty : (d.stopsFrom b 0 name).head? = none) :
    FindsWhole b d c name ↔
      b.Stuck name c.pos (b.data.length - 1) ∨
        (b.Exhausts name c.pos (b.data.length - 1) ∧ c.pos < b.data.length) := by
  have hlen := h.length_eq
  have hl : d.lookup name = none := by
    cases hl : d.lookup name with
    | none => rfl
    | some w =>
        obtain ⟨m, r, rfl, hm⟩ := Doc.split_of_lookup hl
        rw [Doc.stopsFrom_zero, Doc.stopsWith_split hm] at hempty
        cases hempty
  rw [findsWhole_missed (by rw [List.head?_append, hnone]; exact hempty), bsonCursorFind,
    findWith_eq h.terminated hc.obj_eq, scanned_missed_iff, stopped_iff h.terminated,
    exhausted_iff h.terminated]
  refine or_congr_right (and_congr_right fun _ => ?_)
  rcases guint32_stands h.terminated hc with ⟨hin, heq⟩ | ⟨hout, heq⟩
  · refine iff_of_true (fun _ => .inr ((exhausted_iff h.terminated).mpr ?_)) hin
    rw [heq]
    have hwhole : b.Encodes (d.append .nil) := by rwa [Doc.append_nil]
    exact hwhole.exhausts_from_start hl (by omega)
  · refine iff_of_false (fun hsecond => ?_) (by omega)
    have hsmall := h.small
    have herror : bsonCursorFindRange b name 4 (guint32 c.pos) = .error .outside :=
      second_scan_outside h hl (by omega)
    rcases hsecond rfl with hsecond | hsecond
    · rw [herror] at hsecond
      cases hsecond
    · rw [herror] at hsecond
      cases hsecond

/-- What a search from a cursor does, told by the bytes it comes to. -/
theorem findsWhole_iff (h : b.Encodes d) (hc : c.Stands b) (name : CString) :
    FindsWhole b d c name ↔ ScanMeets b d c name := by
  rw [ScanMeets]
  cases hhead : (d.stopsFrom b c.pos name).head? with
  | some c' => exact findsWhole_ahead h hc hhead
  | none =>
      cases hfirst : (d.stopsFrom b 0 name).head? with
      | some c' => exact findsWhole_around h hc hhead hfirst
      | none => exact findsWhole_nowhere h hc hhead hfirst

/-- From an element the search is over elements only. -/
theorem scanMeets_of_stop (h : b.Encodes d) {s : BsonCursor × CString × Value}
    (hs : s ∈ d.stops b 4) (name : CString) : ScanMeets b d s.1 name := by
  obtain ⟨d₁, d₂, rfl, hcursor⟩ := Doc.split_of_stop 4 hs
  have hlen := h.length_eq
  have hpos : s.1.pos = 4 + d₁.elems.length := by
    rw [hcursor]
    rfl
  have hfrom : (d₁.append (.cons s.2.1 s.2.2 d₂)).stopsFrom b (4 + d₁.elems.length) name
      = (Doc.cons s.2.1 s.2.2 d₂).stopsWith b (4 + d₁.elems.length) name :=
    Doc.stopsFrom_append (fun t ht => (Doc.stops_pos d₁ 4 ht).2) le_rfl
  have hel := element_length s.2.1 s.2.2
  rw [Doc.elems_append, List.length_append] at hlen
  rw [ScanMeets, hpos, hfrom]
  cases hl : (Doc.cons s.2.1 s.2.2 d₂).lookup name with
  | some w =>
      obtain ⟨m, r, he, hm⟩ := Doc.split_of_lookup hl
      rw [he] at h hlen ⊢
      rw [Doc.stopsWith_split hm]
      rw [Doc.elems_append, List.length_append] at hlen
      exact h.leads_over m hm (by omega)
  | none =>
      rw [Doc.stopsWith_none _ _ hl]
      have hexhausts : b.Exhausts name (4 + d₁.elems.length) (b.data.length - 1) := by
        rw [← (Doc.cons s.2.1 s.2.2 d₂).append_nil] at h
        exact h.exhausts_over _ hl (by omega)
      cases (Doc.stopsFrom b (d₁.append (.cons s.2.1 s.2.2 d₂)) 0 name).head? with
      | some c' => exact .inr hexhausts
      | none =>
          refine .inr ⟨hexhausts, ?_⟩
          rw [Doc.elems_cons, List.length_append] at hlen
          omega

/-- From an element a search is over the whole object. -/
theorem cursor_finds_from_stop (h : b.Encodes d) {s : BsonCursor × CString × Value}
    (hs : s ∈ d.stops b 4) (name : CString) : FindsWhole b d s.1 name := by
  have hc : s.1.Stands b := by
    rw [(h.stop_element hs).1]
    exact .on (h.stop_element hs).2.1
  exact (findsWhole_iff h hc name).mpr (scanMeets_of_stop h hs name)

/-- **`bson_cursor_find` searches the whole object from an element, and from elsewhere if
the bytes lead there.**  From every element of a document it finds the first element with
the key in cyclic order.  From any cursor that calls give it does so exactly if the search
that takes the position of the cursor for an element meets the elements of the document. -/
theorem cursor_find_whole_iff (h : b.Encodes d) (name : CString) :
    (∀ s ∈ d.stops b 4, FindsWhole b d s.1 name) ∧
    ∀ c, c.Reached b → (FindsWhole b d c name ↔ ScanMeets b d c name) := by
  constructor
  · intro s hs
    exact cursor_finds_from_stop h hs name
  · intro c hc
    exact findsWhole_iff h (hc.stands h.terminated) name

theorem cursor_find_whole_pair :
    (pairDoc.stops pairBson 4).length = 2 ∧
      ∀ s ∈ pairDoc.stops pairBson 4, FindsWhole pairBson pairDoc s.1 (.ascii ['a']) :=
  ⟨rfl, (cursor_find_whole_iff pairBson_encodes (.ascii ['a'])).1⟩

/-- One element with a value. -/
def loneDoc : Doc := .cons (.ascii ['a']) (.int32 7) .nil

/-- The encoded document. -/
def loneBson : Bson := ⟨loneDoc.encode, true⟩

/-- A fresh cursor misses a key that is there. -/
theorem cursor_find_fresh :
    bsonCursorNew (some loneBson) = some ⟨loneBson, none, 0, 0⟩ ∧
    bsonCursorFind (some ⟨loneBson, none, 0, 0⟩) (some (.ascii ['a']))
      = .ok (false, some ⟨loneBson, none, 0, 0⟩) ∧
    ¬ FindsWhole loneBson loneDoc ⟨loneBson, none, 0, 0⟩ (.ascii ['a']) := by
  have hmiss : bsonCursorFind (some ⟨loneBson, none, 0, 0⟩) (some (.ascii ['a']))
      = .ok (false, some ⟨loneBson, none, 0, 0⟩) := by decide +kernel
  refine ⟨by decide +kernel, hmiss, fun hfinds => ?_⟩
  have hhead : (loneDoc.stopsFrom loneBson 0 (.ascii ['a']) ++
      loneDoc.stopsFrom loneBson 0 (.ascii ['a'])).head?
        = some (.on loneBson 4 (.ascii ['a'])) := by decide +kernel
  rw [FindsWhole, hmiss, hhead] at hfinds
  cases hfinds

end Whole

end LibMongo
