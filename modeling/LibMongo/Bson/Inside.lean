import LibMongo.Bson.Hostile

/-!
# Reads that stay inside

A call on a cursor is given the whole object but trusts the lengths it finds there.
`BsonCursorCall.Inside` says that a call reads only inside the object and that what it
hands out lies there too.  `BsonCursorCall.Fits` is what the bytes have to satisfy, one
bound for each place the call reads, and `cursor_call_inside_iff` says that this is exactly what
is needed.
-/

namespace LibMongo

open Bytes Relation

/-! ## Staying inside -/

/-- A computation that does not read outside its block. -/
def Stays {α : Type} (x : Except Halt α) : Prop := x ≠ .error .outside

namespace Stays

variable {α β : Type}

@[simp] theorem ok (a : α) : Stays (.ok a) := by
  rintro ⟨⟩

@[simp] theorem not_outside : ¬ Stays (.error .outside : Except Halt α) := fun h => h rfl

/-- A sequence stays inside when its parts do. -/
theorem bind_iff {x : Except Halt α} {f : α → Except Halt β} :
    Stays (x >>= f) ↔ Stays x ∧ ∀ a, x = .ok a → Stays (f a) := by
  constructor
  · intro h
    refine ⟨?_, ?_⟩
    · rintro rfl
      exact h rfl
    · rintro a rfl
      exact h
  · rintro ⟨hx, hf⟩ herr
    rcases Program.bind_eq_error herr with hx' | ⟨a, ha, hfa⟩
    · exact hx hx'
    · exact hf a ha hfa

/-- A computation that can only break off outside has a result when it stays inside. -/
theorem iff_ok {x : Except Halt α} (herror : ∀ e, x = .error e → e = .outside) :
    Stays x ↔ ∃ a, x = .ok a := by
  cases x with
  | ok a => exact ⟨fun _ => ⟨a, rfl⟩, fun _ => .ok a⟩
  | error e =>
      obtain rfl := herror e rfl
      exact ⟨fun h => absurd rfl h, fun ⟨a, ha⟩ => by cases ha⟩

end Stays

section Reads

variable {d : Bytes} {pos n : Nat}

theorem stays_load (hn : 0 < n) : Stays (load (d.drop pos) n) ↔ pos + n ≤ d.length := by
  unfold load
  rw [List.length_drop]
  split
  next h =>
    refine iff_of_true (.ok _) ?_
    omega
  next h =>
    refine iff_of_false Stays.not_outside ?_
    omega

theorem stays_byteAt : Stays (byteAt (d.drop pos)) ↔ pos < d.length := by
  cases hdrop : d.drop pos with
  | nil =>
      have hlen := congrArg List.length hdrop
      rw [List.length_drop, List.length_nil] at hlen
      refine iff_of_false Stays.not_outside ?_
      omega
  | cons b rest =>
      have hlen := congrArg List.length hdrop
      rw [List.length_drop, List.length_cons] at hlen
      refine iff_of_true (.ok _) ?_
      omega

theorem stays_loadOid : Stays (loadOid (d.drop pos)) ↔ pos + 12 ≤ d.length := by
  unfold loadOid
  split
  next h =>
    rw [List.length_drop] at h
    refine iff_of_true (.ok _) ?_
    omega
  next h =>
    rw [List.length_drop] at h
    refine iff_of_false Stays.not_outside ?_
    omega

theorem stays_docSize : Stays (bsonStreamDocSize d pos) ↔ pos + 4 ≤ d.length := by
  rw [bsonStreamDocSize, Stays.bind_iff, stays_load (by decide)]
  exact and_iff_left fun _ _ => .ok _

/-- The word at a position, where there is one. -/
theorem docSize_ok (h : pos + 4 ≤ d.length) : ∃ size, bsonStreamDocSize d pos = .ok size :=
  (Stays.iff_ok fun _ => bsonStreamDocSize_error).mp (stays_docSize.mpr h)

theorem docSize_le {size : Int} (h : bsonStreamDocSize d pos = .ok size) :
    pos + 4 ≤ d.length ∧ -2147483648 ≤ size ∧ size < 2147483648 := by
  have hstays : Stays (bsonStreamDocSize d pos) := by
    rw [h]
    exact .ok size
  obtain ⟨bytes, -, hrest⟩ := Program.bind_eq_ok.mp h
  have heq : wrap32 (leNat bytes) = size := Except.ok.inj hrest
  exact ⟨stays_docSize.mp hstays, heq ▸ le_wrap32 _, heq ▸ wrap32_lt _⟩

/-- In a terminated object a string is read from every position inside. -/
theorem stays_loadString {b : Bson} (h : b.Terminated) :
    Stays (CString.load (b.data.drop pos)) ↔ pos < b.data.length := by
  constructor
  · intro hstays
    obtain ⟨s, hs⟩ := (Stays.iff_ok fun _ => loadString_error).mp hstays
    have hlen := CString.load_length hs
    rw [List.length_drop] at hlen
    omega
  · intro hpos
    obtain ⟨s, hs⟩ := h.load_key hpos
    rw [hs]
    exact .ok s

end Reads

/-! ## Bounds -/

namespace Bson

variable (b : Bson)

/-- What the skipper reads of a value at `v`. -/
def SkipFits (v : Nat) : BsonType → Prop
  | .string | .jsCode | .symbol | .document | .array | .jsCodeWScope | .binary | .dbpointer =>
      v + 4 ≤ b.data.length
  | .regexp => ∃ regexp, CString.load (b.data.drop v) = .ok regexp ∧
      v + regexp.length + 1 < b.data.length
  | _ => True

/-- What is copied of the document at `pos`: all between its length and its terminator. -/
def DocumentFits (pos : Nat) : Prop :=
  ∃ size, bsonStreamDocSize b.data pos = .ok size ∧ 0 ≤ wrap32 (size - 5) ∧
    pos + 4 + wrap32 (size - 5) ≤ b.data.length

/-- What the getter for a type reads of a value at `v` and hands out. -/
def ValueFits (v : Nat) : BsonType → Prop
  | .string | .jsCode | .symbol => v + 4 < b.data.length
  | .double | .utcDatetime | .timestamp | .int64 => v + 8 ≤ b.data.length
  | .int32 => v + 4 ≤ b.data.length
  | .boolean => v < b.data.length
  | .oid => v + 12 ≤ b.data.length
  | .document | .array => b.DocumentFits v
  | .binary => ∃ size, bsonStreamDocSize b.data v = .ok size ∧ 0 ≤ size ∧
      v + 5 + size ≤ b.data.length
  | .regexp => b.SkipFits v .regexp
  | .jsCodeWScope => v + 8 < b.data.length ∧ ∃ size, bsonStreamDocSize b.data (v + 4) = .ok size ∧
      ∃ scope : Nat, (scope : Int) = v + 8 + size ∧ b.DocumentFits scope
  | _ => True

/-- The search for a key goes on from the element at `p` at `q`. -/
def Passes (name : CString) (endPos p q : Nat) : Prop :=
  p < endPos ∧ (∃ type key, b.ElementAt p type key ∧ key ≠ name) ∧ b.Follows p q

/-- Every element a search comes to before the end has a type and a key, and another key
only in front of a value that can be skipped. -/
def SearchFits (name : CString) (startPos endPos : Nat) : Prop :=
  ∀ p, ReflTransGen (b.Passes name endPos) startPos p → p < endPos →
    ∃ type key, b.ElementAt p type key ∧
      (key = name ∨ b.SkipFits (p + key.length + 2) type)

/-- A search comes to the end. -/
def Exhausts (name : CString) (startPos endPos : Nat) : Prop :=
  ∃ p, ReflTransGen (b.Passes name endPos) startPos p ∧ endPos ≤ p

end Bson

/-! ## Calls on a cursor -/

/-- A call on a cursor, or on its object.  Each type has at most one getter. -/
inductive BsonCursorCall where
  | next
  | find (name : CString)
  | cursorFind (name : CString)
  | cursorFindNext (name : CString)
  | get (type : BsonType)

namespace BsonCursorCall

variable (c : BsonCursor)

/-- The call reads inside the object only, and binary data it hands out with a size lies
there. -/
def Inside : BsonCursorCall → Prop
  | next => Stays (bsonCursorNext (some c))
  | find name => Stays (bsonFind (some c.obj) (some name))
  | cursorFind name => Stays (bsonCursorFind (some c) (some name))
  | cursorFindNext name => Stays (bsonCursorFindNext (some c) (some name))
  | get .string => Stays (bsonCursorGetString (some c))
  | get .double => Stays (bsonCursorGetDouble (some c))
  | get .document => Stays (bsonCursorGetDocument (some c))
  | get .array => Stays (bsonCursorGetArray (some c))
  | get .binary => Stays (bsonCursorGetBinary (some c)) ∧
      ∀ bin, bsonCursorGetBinary (some c) = .ok (some bin) →
        0 ≤ bin.size ∧ bin.size ≤ bin.data.length
  | get .oid => Stays (bsonCursorGetOid (some c))
  | get .boolean => Stays (bsonCursorGetBoolean (some c))
  | get .utcDatetime => Stays (bsonCursorGetUtcDatetime (some c))
  | get .regexp => Stays (bsonCursorGetRegex (some c))
  | get .jsCode => Stays (bsonCursorGetJavascript (some c))
  | get .symbol => Stays (bsonCursorGetSymbol (some c))
  | get .jsCodeWScope => Stays (bsonCursorGetJavascriptWScope (some c))
  | get .int32 => Stays (bsonCursorGetInt32 (some c))
  | get .timestamp => Stays (bsonCursorGetTimestamp (some c))
  | get .int64 => Stays (bsonCursorGetInt64 (some c))
  | get _ => True

/-- The bounds of a call. -/
def Fits (b : Bson) : BsonCursorCall → Prop
  | next => c.pos = 0 ∨ ∃ type, bsonCursorType (some c) = .ok type ∧ b.SkipFits c.valuePos type ∧
      ∀ bs, c.blockSize = .ok bs → bs ≠ -1 →
        -1 ≤ c.valuePos + bs ∧ c.valuePos + bs < 2147483648
  | find name => b.SearchFits name 4 (b.data.length - 1)
  | cursorFind name => b.SearchFits name c.pos (b.data.length - 1) ∧
      (b.Exhausts name c.pos (b.data.length - 1) → b.SearchFits name 4 (guint32 c.pos))
  | cursorFindNext name => b.SearchFits name c.pos (b.data.length - 1)
  | get .undefined | get .null | get .dbpointer | get .min | get .max | get .none
  | get (.other _) => True
  | get type => ∃ type', bsonCursorType (some c) = .ok type' ∧
      (type' = type → b.ValueFits c.valuePos type)

end BsonCursorCall

/-! ## Skipping and searching -/

section Searching

variable {b : Bson} {c : BsonCursor} {name : CString} {startPos endPos p q v : Nat}
  {type : BsonType}

theorem stays_blockSize (h : b.Terminated) :
    Stays (bsonGetBlockSize type (b.data.drop v)) ↔ b.SkipFits v type := by
  cases type with
  | string | jsCode | symbol | binary | dbpointer =>
      rw [bsonGetBlockSize, ← bsonStreamDocSize_drop, Stays.bind_iff, stays_docSize]
      exact and_iff_left fun _ _ => .ok _
  | document | array | jsCodeWScope =>
      rw [bsonGetBlockSize, ← bsonStreamDocSize_drop]
      exact stays_docSize
  | regexp =>
      rw [bsonGetBlockSize, Stays.bind_iff, stays_loadString h]
      constructor
      · rintro ⟨hv, hrest⟩
        obtain ⟨regexp, hregexp⟩ := h.load_key hv
        have hoptions := (Stays.bind_iff.mp (hrest regexp hregexp)).1
        rw [List.drop_drop, stays_loadString h] at hoptions
        exact ⟨regexp, hregexp, hoptions⟩
      · rintro ⟨regexp, hregexp, hlt⟩
        refine ⟨by omega, fun regexp' hregexp' => ?_⟩
        obtain rfl : regexp = regexp' := Except.ok.inj (hregexp.symm.trans hregexp')
        rw [Stays.bind_iff, List.drop_drop, stays_loadString h]
        exact ⟨hlt, fun _ _ => .ok _⟩
  | _ => exact iff_of_true (.ok _) trivial

/-- A round of the search goes on past an element with another key. -/
theorem next_iff_passes (h : b.Terminated) :
    Loop.Next (bsonCursorFindRound b.data name endPos) p q ↔ b.Passes name endPos p q := by
  constructor
  · intro hnext
    have hp := lt_of_next hnext
    refine ⟨hp, ?_, follows_of_next h hnext⟩
    obtain ⟨type, key, helem⟩ := elementAt_of_round hp hnext
    refine ⟨type, key, helem, ?_⟩
    rintro rfl
    rw [Loop.Next, bsonCursorFindRound_element h helem hp, if_pos rfl] at hnext
    cases hnext
  · rintro ⟨hp, ⟨type, key, helem, hkey⟩, type', key', bs, helem', hbs, hne, rfl⟩
    obtain ⟨rfl, rfl⟩ := helem.unique helem'
    rw [Loop.Next, bsonCursorFindRound_element h helem hp, if_neg hkey, hbs, Program.ok_bind,
      if_neg hne]
    rfl

theorem leads_iff_passes (h : b.Terminated) :
    Loop.Leads (bsonCursorFindRound b.data name endPos) p q
      ↔ ReflTransGen (b.Passes name endPos) p q :=
  ⟨ReflTransGen.mono (fun _ _ => (next_iff_passes h).mp) p q,
    ReflTransGen.mono (fun _ _ => (next_iff_passes h).mpr) p q⟩

/-- What a round reads. -/
theorem stays_round (h : b.Terminated) :
    Stays (bsonCursorFindRound b.data name endPos p) ↔ (p < endPos →
      ∃ type key, b.ElementAt p type key ∧
        (key = name ∨ b.SkipFits (p + key.length + 2) type)) := by
  by_cases hp : p < endPos
  · constructor
    · intro hstays _
      obtain ⟨o, ho⟩ := (Stays.iff_ok fun _ => bsonCursorFindRound_error).mp hstays
      obtain ⟨type, key, helem⟩ := elementAt_of_round hp ho
      refine ⟨type, key, helem, ?_⟩
      by_cases hkey : key = name
      · exact .inl hkey
      · rw [bsonCursorFindRound_element h helem hp, if_neg hkey, Stays.bind_iff] at hstays
        exact .inr ((stays_blockSize h).mp hstays.1)
    · intro hfits
      obtain ⟨type, key, helem, hskip⟩ := hfits hp
      rw [bsonCursorFindRound_element h helem hp]
      split
      next => exact .ok _
      next hkey =>
        refine Stays.bind_iff.mpr ⟨?_, fun bs _ => ?_⟩
        · exact (stays_blockSize h).mpr (hskip.resolve_left hkey)
        · split
          next => exact .ok _
          next => exact .ok _
  · rw [bsonCursorFindRound, if_neg hp]
    exact iff_of_true (.ok _) fun hp' => absurd hp' hp

/-- With the fuel a search has, its run ends as the search does. -/
theorem range_eq_iff (h : b.Terminated) {r : Except Halt FindResult}
    (hr : r ≠ .error .endless) :
    bsonCursorFindRange b name startPos endPos = r ↔
      ∃ p, ReflTransGen (b.Passes name endPos) startPos p ∧
        Loop.last (bsonCursorFindRound b.data name endPos p) = some r := by
  rw [bsonCursorFindRange_eq_run h,
    Loop.run_eq_iff (bsonCursorFindRound_ne_endless b.data name endPos)
      (fun p q _ hnext => mem_range_of_next h p q hnext)
      (by rw [Finset.card_range]; omega) hr]
  exact exists_congr fun p => and_congr_left fun _ => leads_iff_passes h

theorem stays_range (h : b.Terminated) :
    Stays (bsonCursorFindRange b name startPos endPos) ↔ b.SearchFits name startPos endPos := by
  constructor
  · intro hstays p hp
    rw [← stays_round h]
    intro herr
    refine hstays ((range_eq_iff h (by rintro ⟨⟩)).mpr ⟨p, hp, ?_⟩)
    rw [herr]
    rfl
  · intro hfits herr
    obtain ⟨p, hp, hlast⟩ := (range_eq_iff h (by rintro ⟨⟩)).mp herr
    have hround := (stays_round h).mpr (hfits p hp)
    cases hr : bsonCursorFindRound b.data name endPos p with
    | error e =>
        rw [bsonCursorFindRound_error hr] at hr
        exact hround hr
    | ok o =>
        rw [hr] at hlast
        cases o with
        | inl => cases hlast
        | inr => cases hlast

theorem exhausted_iff (h : b.Terminated) :
    bsonCursorFindRange b name startPos endPos = .ok .exhausted ↔
      b.Exhausts name startPos endPos := by
  rw [range_eq_iff h (by rintro ⟨⟩)]
  refine exists_congr fun p => and_congr_right fun _ => ?_
  by_cases hp : p < endPos
  · refine iff_of_false ?_ (Nat.not_le.mpr hp)
    intro hlast
    cases hr : bsonCursorFindRound b.data name endPos p with
    | error e =>
        rw [hr] at hlast
        cases hlast
    | ok o =>
        obtain ⟨type, key, helem⟩ := elementAt_of_round hp hr
        rw [bsonCursorFindRound_element h helem hp] at hlast
        split at hlast
        next => cases hlast
        next =>
          cases hbs : bsonGetBlockSize type (b.data.drop (p + key.length + 2)) with
          | error e =>
              rw [hbs] at hlast
              cases hlast
          | ok bs =>
              rw [hbs, Program.ok_bind] at hlast
              split at hlast
              next => cases hlast
              next => cases hlast
  · refine iff_of_true ?_ (Nat.not_lt.mp hp)
    rw [bsonCursorFindRound, if_neg hp]
    rfl

theorem stays_find (h : b.Terminated) (wrapOver : Bool) (dest : BsonCursor) :
    Stays (bsonCursorFindFrom b name startPos endPos wrapOver dest) ↔
      b.SearchFits name startPos endPos ∧ (wrapOver = true →
        b.Exhausts name startPos endPos → b.SearchFits name 4 (guint32 startPos)) := by
  rw [bsonCursorFindFrom, Stays.bind_iff, stays_range h, ← exhausted_iff h]
  refine and_congr_right fun _ => ?_
  constructor
  · rintro hrest rfl hexhausted
    have hsecond := hrest .exhausted hexhausted
    rw [← stays_range h]
    exact (Stays.bind_iff.mp hsecond).1
  · intro hwrap r hr
    cases r with
    | found => exact .ok _
    | stopped => exact .ok _
    | exhausted =>
        cases wrapOver with
        | false => exact .ok _
        | true =>
            refine Stays.bind_iff.mpr ⟨(stays_range h).mpr (hwrap rfl hr), fun r' _ => ?_⟩
            cases r' with
            | found => exact .ok _
            | stopped => exact .ok _
            | exhausted => exact .ok _

theorem stays_cursorFind (h : b.Terminated) (hobj : c.obj = b) (wrapOver : Bool) :
    Stays (bsonCursorFindWith wrapOver (some c) (some name)) ↔
      b.SearchFits name c.pos (b.data.length - 1) ∧ (wrapOver = true →
        b.Exhausts name c.pos (b.data.length - 1) → b.SearchFits name 4 (guint32 c.pos)) := by
  rw [← stays_find h wrapOver c, bsonCursorFindWith, hobj, h.end_eq, Stays.bind_iff]
  exact and_iff_left fun _ _ => .ok _

end Searching

/-! ## Walking -/

section Walking

variable {b : Bson} {c : BsonCursor}

theorem bsonCursorType_error {e : Halt} (h : bsonCursorType (some c) = .error e) :
    e = .outside := by
  simp only [bsonCursorType] at h
  split at h
  next => cases h
  next =>
    rcases Program.bind_eq_error h with h | ⟨t, -, h⟩
    · exact byteAt_error h
    · cases h

theorem BsonCursor.value_eq (h : b.Terminated) (hobj : c.obj = b) :
    c.value = b.data.drop c.valuePos := by
  rw [BsonCursor.value, BsonCursor.data_eq h hobj]

/-- What the size of the value under a cursor takes. -/
theorem stays_cursorBlockSize (h : b.Terminated) (hobj : c.obj = b) :
    Stays c.blockSize ↔
      ∃ type, bsonCursorType (some c) = .ok type ∧ b.SkipFits c.valuePos type := by
  rw [BsonCursor.blockSize, Stays.bind_iff, BsonCursor.value_eq h hobj,
    Stays.iff_ok fun _ => bsonCursorType_error]
  constructor
  · rintro ⟨⟨type, htype⟩, hsize⟩
    exact ⟨type, htype, (stays_blockSize h).mp (hsize type htype)⟩
  · rintro ⟨type, htype, hskip⟩
    refine ⟨⟨type, htype⟩, fun type' htype' => ?_⟩
    obtain rfl : type = type' := Except.ok.inj (htype.symm.trans htype')
    exact (stays_blockSize h).mpr hskip

/-- Where the walk goes on, a key is read. -/
theorem stays_nextKey (h : b.Terminated) {pos : Int} (hlow : -2147483648 ≤ pos) :
    Stays (if bsonSize (some b) - 1 ≤ pos then .ok (false, some c) else do
      let key ← CString.load (b.data.drop (sizeT (pos + 1)))
      return (true, some ⟨b, some (sizeT (pos + 1)), sizeT pos, sizeT (pos + key.length + 2)⟩))
      ↔ -1 ≤ pos := by
  have hsmall := h.small
  rw [h.size_eq]
  split
  next hle =>
    refine iff_of_true (.ok _) ?_
    omega
  next hlt =>
    rw [Stays.bind_iff, stays_loadString h, and_iff_left fun _ _ => .ok _]
    unfold sizeT
    omega

theorem bsonCursorNext_terminated (h : b.Terminated) (hobj : c.obj = b) :
    bsonCursorNext (some c) = do
      match ← bsonCursorNextPos c with
      | none => return (false, some c)
      | some pos =>
          if bsonSize (some b) - 1 ≤ pos then .ok (false, some c) else do
            let key ← CString.load (b.data.drop (sizeT (pos + 1)))
            return (true, some
              ⟨b, some (sizeT (pos + 1)), sizeT pos, sizeT (pos + key.length + 2)⟩) := by
  rw [bsonCursorNext, BsonCursor.data_eq h hobj, hobj]
  rfl

theorem stays_next (h : b.Terminated) (hc : c.Stands b) :
    Stays (bsonCursorNext (some c)) ↔ BsonCursorCall.next.Fits c b := by
  have hobj := hc.obj_eq
  have hsmall := h.small
  rw [bsonCursorNext_terminated h hobj, Stays.bind_iff, bsonCursorNextPos_eq, BsonCursorCall.Fits]
  by_cases hzero : c.pos = 0
  · rw [if_pos hzero]
    refine iff_of_true ⟨.ok _, ?_⟩ (.inl hzero)
    intro o ho
    cases ho
    exact (stays_nextKey h (by decide)).mpr (by decide)
  rw [if_neg hzero, Stays.bind_iff, stays_cursorBlockSize h hobj, or_iff_right hzero]
  constructor
  · rintro ⟨⟨⟨type, htype, hskip⟩, -⟩, hrest⟩
    refine ⟨type, htype, hskip, fun bs hbs hne => ?_⟩
    have hkey := hrest (some (wrap32 (c.valuePos + bs))) (by
      rw [hbs, Program.ok_bind, if_neg hne]
      rfl)
    have hpos := (stays_nextKey h (le_wrap32 _)).mp hkey
    have hrange := BsonCursor.blockSize_range hbs
    cases hc with
    | new => exact absurd rfl hzero
    | before hobj hfar =>
        rw [BsonCursor.blockSize_before h hobj hfar] at hbs
        cases hbs
    | on helem =>
        have hin := helem.key_inside
        simp only [BsonCursor.on] at hpos ⊢
        unfold wrap32 at hpos
        omega
  · rintro ⟨type, htype, hskip, hbound⟩
    refine ⟨⟨⟨type, htype, hskip⟩, fun bs _ => .ok _⟩, fun o ho => ?_⟩
    obtain ⟨bs, hbs, hrest⟩ := Program.bind_eq_ok.mp ho
    by_cases hne : bs = -1
    · rw [if_pos hne] at hrest
      cases hrest
      exact .ok _
    · rw [if_neg hne] at hrest
      cases hrest
      refine (stays_nextKey h (le_wrap32 _)).mpr ?_
      have hvalue := hbound bs hbs hne
      unfold wrap32
      omega

end Walking

/-! ## Getters -/

section Getting

variable {b : Bson} {c : BsonCursor} {v n : Nat}

/-- A getter looks at the value of its own type only. -/
theorem stays_get {α : Type} (type : BsonType) (get : BsonCursor → Except Halt α) :
    Stays (bsonCursorGet type (some c) get) ↔
      ∃ type', bsonCursorType (some c) = .ok type' ∧ (type' = type → Stays (get c)) := by
  rw [bsonCursorGet, Stays.bind_iff, Stays.iff_ok fun _ => bsonCursorType_error]
  constructor
  · rintro ⟨⟨type', htype⟩, hrest⟩
    refine ⟨type', htype, ?_⟩
    rintro rfl
    have hget := hrest type' htype
    simp only [ne_eq, not_true, if_false] at hget
    exact (Stays.bind_iff.mp hget).1
  · rintro ⟨type', htype, hget⟩
    refine ⟨⟨type', htype⟩, fun type'' htype'' => ?_⟩
    obtain rfl : type' = type'' := Except.ok.inj (htype.symm.trans htype'')
    by_cases heq : type' = type
    · simp only [ne_eq, heq, not_true, if_false]
      exact Stays.bind_iff.mpr ⟨hget heq, fun _ _ => .ok _⟩
    · simp only [ne_eq, heq, not_false_eq_true, if_true]
      exact .ok _

/-- A getter of a type, by what it reads of a value. -/
theorem stays_getter {α : Type} {type : BsonType} {get : BsonCursor → Except Halt α}
    (hget : Stays (get c) ↔ b.ValueFits c.valuePos type) :
    Stays (bsonCursorGet type (some c) get) ↔
      ∃ type', bsonCursorType (some c) = .ok type' ∧
        (type' = type → b.ValueFits c.valuePos type) := by
  rw [stays_get, hget]

theorem stays_word {α : Type} (h : b.Terminated) (hobj : c.obj = b) (hn : 0 < n)
    (f : Bytes → α) :
    Stays (load c.value n >>= fun bytes => .ok (f bytes)) ↔ c.valuePos + n ≤ b.data.length := by
  rw [BsonCursor.value_eq h hobj, Stays.bind_iff, stays_load hn]
  exact and_iff_left fun _ _ => .ok _

theorem stays_getText (h : b.Terminated) (hobj : c.obj = b) (type : BsonType) :
    Stays (bsonCursorGetText type (some c)) ↔
      ∃ type', bsonCursorType (some c) = .ok type' ∧
        (type' = type → c.valuePos + 4 < b.data.length) := by
  rw [bsonCursorGetText, stays_get, BsonCursor.value_eq h hobj, List.drop_drop,
    stays_loadString h]

theorem stays_getWord64 (h : b.Terminated) (hobj : c.obj = b) (type : BsonType) :
    Stays (bsonCursorGetWord64 type (some c)) ↔
      ∃ type', bsonCursorType (some c) = .ok type' ∧
        (type' = type → c.valuePos + 8 ≤ b.data.length) := by
  rw [bsonCursorGetWord64, stays_get]
  exact exists_congr fun type' => and_congr_right fun _ => imp_congr_right fun _ =>
    stays_word h hobj (by decide) _

theorem stays_copy :
    Stays (bsonCopyDocument (b.data.drop v)) ↔ b.DocumentFits v := by
  have hsub : ∀ size : Int, size - 4 - 1 = size - 5 := by
    intro size
    omega
  rw [bsonCopyDocument, ← bsonStreamDocSize_drop, Stays.bind_iff, stays_docSize]
  constructor
  · rintro ⟨hv, hrest⟩
    obtain ⟨size, hsize⟩ := docSize_ok hv
    refine ⟨size, hsize, ?_⟩
    have hcopy := hrest size hsize
    simp only [hsub] at hcopy
    split at hcopy
    next => exact absurd hcopy Stays.not_outside
    next hnonneg =>
      refine ⟨by omega, ?_⟩
      have hread := (Stays.bind_iff.mp hcopy).1
      rw [List.drop_drop] at hread
      by_cases hzero : wrap32 (size - 5) = 0
      · omega
      · rw [stays_load (by omega)] at hread
        omega
  · rintro ⟨size, hsize, hlow, hhigh⟩
    refine ⟨(docSize_le hsize).1, fun size' hsize' => ?_⟩
    obtain rfl : size = size' := Except.ok.inj (hsize.symm.trans hsize')
    simp only [hsub, if_neg (show ¬ wrap32 (size - 5) < 0 by omega)]
    refine Stays.bind_iff.mpr ⟨?_, fun _ _ => .ok _⟩
    rw [List.drop_drop]
    by_cases hzero : (wrap32 (size - 5)).toNat = 0
    · rw [hzero, load, if_pos (Nat.zero_le _)]
      exact .ok _
    · rw [stays_load (by omega)]
      omega

theorem bsonCopyDocument_error {mem : Bytes} {e : Halt} (h : bsonCopyDocument mem = .error e) :
    e = .outside := by
  rcases Program.bind_eq_error h with h | ⟨size, -, h⟩
  · exact bsonStreamDocSize_error h
  simp only at h
  split at h
  next =>
    cases h
    rfl
  next =>
    rcases Program.bind_eq_error h with h | ⟨bytes, -, h⟩
    · exact load_error h
    · cases h

theorem stays_regex (h : b.Terminated) (hobj : c.obj = b) :
    Stays (do
      let regex ← CString.load c.value
      let options ← CString.load (c.value.drop (regex.length + 1))
      return (regex, options)) ↔ b.SkipFits c.valuePos .regexp := by
  rw [← stays_blockSize h, bsonGetBlockSize, BsonCursor.value_eq h hobj, Stays.bind_iff,
    Stays.bind_iff]
  refine and_congr_right fun _ => forall_congr' fun regex => imp_congr_right fun _ => ?_
  rw [Stays.bind_iff, Stays.bind_iff]
  exact and_congr_right fun _ => iff_of_true (fun _ _ => .ok _) (fun _ _ => .ok _)

theorem stays_scope (h : b.Terminated) (hobj : c.obj = b) :
    Stays (do
      let size ← bsonStreamDocSize c.value 4
      let docpos := wrap32 (size + 4 * 2)
      let scope ← bsonCopyDocument (c.data.drop (sizeT (c.valuePos + docpos)))
      let js ← CString.load (c.value.drop (4 * 2))
      return (js, scope)) ↔ b.ValueFits c.valuePos .jsCodeWScope := by
  have hsmall := h.small
  rw [BsonCursor.value_eq h hobj, BsonCursor.data_eq h hobj, bsonStreamDocSize_drop,
    List.drop_drop, List.drop_drop, ← bsonStreamDocSize_drop, Stays.bind_iff, stays_docSize]
  constructor
  · rintro ⟨hv, hrest⟩
    obtain ⟨size, hsize⟩ := docSize_ok hv
    have hrange := docSize_le hsize
    obtain ⟨hcopy, hjs⟩ := Stays.bind_iff.mp (hrest size hsize)
    obtain ⟨scope, hscope⟩ := (Stays.iff_ok fun _ => bsonCopyDocument_error).mp hcopy
    have hload := (Stays.bind_iff.mp (hjs scope hscope)).1
    rw [stays_loadString h] at hload
    rw [stays_copy] at hcopy
    obtain ⟨size', hsize', -⟩ := hcopy
    have hin := (docSize_le hsize').1
    have hpos : ((sizeT (c.valuePos + wrap32 (size + 4 * 2)) : Nat) : Int)
        = c.valuePos + 8 + size := by
      unfold sizeT wrap32 at hin ⊢
      omega
    exact ⟨by omega, size, hsize, _, hpos, stays_copy.mp (by rw [hscope]; exact .ok _)⟩
  · rintro ⟨hv, size, hsize, pos, hpos, hfits⟩
    refine ⟨by omega, fun size' hsize' => ?_⟩
    obtain rfl : size = size' := Except.ok.inj (hsize.symm.trans hsize')
    obtain ⟨size', hsize', -⟩ := id hfits
    have hin := (docSize_le hsize').1
    have hrange := docSize_le hsize
    have heq : sizeT (c.valuePos + wrap32 (size + 4 * 2)) = pos := by
      unfold sizeT wrap32
      omega
    simp only [heq]
    refine Stays.bind_iff.mpr ⟨stays_copy.mpr hfits, fun scope _ => ?_⟩
    exact Stays.bind_iff.mpr ⟨(stays_loadString h).mpr (by omega), fun _ _ => .ok _⟩

theorem inside_binary (h : b.Terminated) (hobj : c.obj = b) :
    (BsonCursorCall.get .binary).Inside c ↔ (BsonCursorCall.get .binary).Fits c b := by
  have hvalue := BsonCursor.value_eq h hobj
  have hget : bsonCursorGetBinary (some c) = bsonCursorGet .binary (some c) fun c => do
      let size ← bsonStreamDocSize c.value 0
      let subtype ← byteAt (c.value.drop 4)
      return ⟨subtype, c.value.drop (4 + 1), size⟩ := rfl
  show _ ↔ ∃ type', bsonCursorType (some c) = .ok type' ∧
    (type' = .binary → b.ValueFits c.valuePos .binary)
  constructor
  · rintro ⟨hstays, hbinary⟩
    rw [hget, stays_get] at hstays
    obtain ⟨type, htype, hstays⟩ := hstays
    refine ⟨type, htype, ?_⟩
    rintro rfl
    have hread := hstays rfl
    rw [hvalue, ← bsonStreamDocSize_drop, Stays.bind_iff, stays_docSize] at hread
    obtain ⟨size, hsize⟩ := docSize_ok hread.1
    have hbyte := (Stays.bind_iff.mp (hread.2 size hsize)).1
    obtain ⟨subtype, hsubtype⟩ := (Stays.iff_ok fun _ => byteAt_error).mp hbyte
    have hok : bsonCursorGetBinary (some c)
        = .ok (some ⟨subtype, (b.data.drop c.valuePos).drop (4 + 1), size⟩) := by
      rw [hget, bsonCursorGet, htype]
      simp only [Program.ok_bind, hvalue, ← bsonStreamDocSize_drop, hsize, hsubtype]
      rfl
    have hfits := hbinary _ hok
    rw [List.drop_drop, stays_byteAt] at hbyte
    simp only [List.length_drop] at hfits
    exact ⟨size, hsize, hfits.1, by omega⟩
  · rintro ⟨type, htype, hfits⟩
    refine ⟨?_, fun bin hbin => ?_⟩
    · rw [hget, stays_get]
      refine ⟨type, htype, ?_⟩
      rintro rfl
      obtain ⟨size, hsize, hlow, hhigh⟩ := hfits rfl
      rw [hvalue, ← bsonStreamDocSize_drop, hsize, Program.ok_bind, Stays.bind_iff,
        List.drop_drop, stays_byteAt]
      exact ⟨by omega, fun _ _ => .ok _⟩
    · rw [hget, bsonCursorGet, htype, Program.ok_bind] at hbin
      by_cases heq : type = .binary
      · subst heq
        obtain ⟨size, hsize, hlow, hhigh⟩ := hfits rfl
        obtain ⟨bin', hbin', hrest⟩ := Program.bind_eq_ok.mp hbin
        rw [hvalue, ← bsonStreamDocSize_drop, hsize, Program.ok_bind] at hbin'
        obtain ⟨subtype, -, hbin'⟩ := Program.bind_eq_ok.mp hbin'
        cases hrest
        cases hbin'
        refine ⟨hlow, ?_⟩
        simp only [List.length_drop]
        omega
      · simp only [ne_eq, heq, not_false_eq_true, if_true] at hbin
        cases hbin

end Getting

/-- **What parsing reads.**  A call on a cursor that a client can have on a finished object
stays inside the object exactly when its bounds hold there. -/
theorem cursor_call_inside_iff {b : Bson} (h : b.Terminated) {c : BsonCursor}
    (hc : c.Reached b) (call : BsonCursorCall) : call.Inside c ↔ call.Fits c b := by
  have hstands := hc.stands h
  have hobj := hstands.obj_eq
  cases call with
  | next => exact stays_next h hstands
  | find name =>
      rw [BsonCursorCall.Inside, hobj, h.find_eq, Stays.bind_iff, stays_find h]
      constructor
      · rintro ⟨⟨hfits, -⟩, -⟩
        exact hfits
      · intro hfits
        exact ⟨⟨hfits, fun hfalse => by cases hfalse⟩, fun _ _ => .ok _⟩
  | cursorFind name =>
      rw [BsonCursorCall.Inside, bsonCursorFind, stays_cursorFind h hobj]
      exact and_congr_right fun _ => ⟨fun hwrap => hwrap rfl, fun hwrap _ => hwrap⟩
  | cursorFindNext name =>
      rw [BsonCursorCall.Inside, bsonCursorFindNext, stays_cursorFind h hobj]
      exact and_iff_left fun hfalse => by cases hfalse
  | get type =>
      cases type with
      | string => exact stays_getText h hobj .string
      | jsCode => exact stays_getText h hobj .jsCode
      | symbol => exact stays_getText h hobj .symbol
      | double => exact stays_getWord64 h hobj .double
      | utcDatetime => exact stays_getWord64 h hobj .utcDatetime
      | timestamp => exact stays_getWord64 h hobj .timestamp
      | int64 => exact stays_getWord64 h hobj .int64
      | int32 =>
          refine stays_getter ?_
          exact stays_word h hobj (n := 4) (by decide) _
      | document | array =>
          refine stays_getter ?_
          rw [BsonCursor.value_eq h hobj]
          exact stays_copy
      | binary => exact inside_binary h hobj
      | oid =>
          refine stays_getter ?_
          rw [BsonCursor.value_eq h hobj]
          exact stays_loadOid
      | boolean =>
          refine stays_getter ?_
          rw [BsonCursor.value_eq h hobj, Stays.bind_iff, stays_byteAt]
          exact and_iff_left fun _ _ => .ok _
      | regexp => exact stays_getter (stays_regex h hobj)
      | jsCodeWScope => exact stays_getter (stays_scope h hobj)
      | _ => exact Iff.rfl

/-- A double of which one byte was received, in an object that is finished. -/
def cutBson : Bson := ⟨[8, 0, 0, 0, 0x01, 0x61, 0, 0], true⟩

theorem cutBson_reached : BsonCursor.Reached cutBson ⟨cutBson, some 5, 4, 7⟩ := by
  have hnext : bsonCursorNext (some ⟨cutBson, none, 0, 0⟩)
      = .ok (true, some ⟨cutBson, some 5, 4, 7⟩) := by decide +kernel
  exact .next (.new rfl) hnext

theorem cursor_call_inside_iff_cut :
    (BsonCursorCall.get .double).Inside ⟨cutBson, some 5, 4, 7⟩
      ↔ (BsonCursorCall.get .double).Fits ⟨cutBson, some 5, 4, 7⟩ cutBson :=
  cursor_call_inside_iff ⟨rfl, ⟨[8, 0, 0, 0, 0x01, 0x61, 0], rfl⟩, by decide⟩ cutBson_reached _

/-- The getter reads eight bytes where there is one. -/
theorem hostile_parsing_outside :
    (∃ b, bsonNewFromData (some [0, 0, 0, 0, 0x01, 0x61, 0]) 7 = .ok (some b) ∧
      bsonFinish (some b) = (true, some cutBson)) ∧
    ∃ c, c.Reached cutBson ∧ bsonCursorGetDouble (some c) = .error .outside :=
  ⟨⟨_, rfl, rfl⟩, _, cutBson_reached, by decide +kernel⟩

end LibMongo
