import LibMongo.Bson.Object

/-!
# Building objects in one go

`bson_build` and `bson_build_full` take a list of types, keys and values and append
one element for each.  `_bson_build_add_single` sets `single_result` by the type
alone and drops what the append call returns, so an element whose append call fails
is left out and the rest is built without it.

A document given as a value is the object as the call finds it.  What is freed after
the call is not modelled.
-/

namespace LibMongo

open Bytes

/-! ## The two functions -/

/-- What `va_arg` reads for an element of each type. -/
inductive BuildValue where
  | none
  | double (d : GDouble)
  | string (s : Option Bytes) (l : Int)
  | document (d : Option Bson)
  | array (d : Option Bson)
  | binary (s : UInt8) (d : Option Bytes) (l : Int)
  | undefined
  | oid (o : Option Oid)
  | boolean (v : BitVec 32)
  | utcDatetime (ts : BitVec 64)
  | null
  | regexp (r o : Option CString)
  | dbpointer
  | jsCode (s : Option Bytes) (l : Int)
  | symbol (s : Option Bytes) (l : Int)
  | jsCodeWScope (s : Option Bytes) (l : Int) (scope : Option Bson)
  | int32 (l : BitVec 32)
  | timestamp (ts : BitVec 64)
  | int64 (l : BitVec 64)
  | min
  | max
  /-- A number that is no type. -/
  | other (t : Int)

/-- The arguments of `bson_build` for one element. -/
structure BuildEntry where
  name : Option CString
  value : BuildValue

/-- The arguments of `bson_build_full` for one element. -/
structure BuildElement extends BuildEntry where
  freeAfter : Bool

/-- A document that is freed afterwards is finished first. -/
def finishFreed (freeAfter : Bool) (d : Option Bson) : Option Bson :=
  if freeAfter ∧ bsonSize d < 0 then (bsonFinish d).2 else d

/-- The append call for an element, `none` for a type that has no case of its own. -/
def BuildElement.append (b : Option Bson) (e : BuildElement) : Option (Bool × Option Bson) :=
  match e.value with
  | .none | .undefined | .dbpointer => none
  | .min | .max | .other _ => none
  | .double d => some (bsonAppendDouble b e.name d)
  | .string s l => some (bsonAppendString b e.name s l)
  | .document d => some (bsonAppendDocument b e.name (finishFreed e.freeAfter d))
  | .array d => some (bsonAppendArray b e.name (finishFreed e.freeAfter d))
  | .binary s d l => some (bsonAppendBinary b e.name s d l)
  | .oid o => some (bsonAppendOid b e.name o)
  | .boolean v => some (bsonAppendBoolean b e.name v)
  | .utcDatetime ts => some (bsonAppendUtcDatetime b e.name ts)
  | .null => some (bsonAppendNull b e.name)
  | .regexp r o => some (bsonAppendRegex b e.name r o)
  | .jsCode s l => some (bsonAppendJavascript b e.name s l)
  | .symbol s l => some (bsonAppendSymbol b e.name s l)
  | .jsCodeWScope s l scope =>
      some (bsonAppendJavascriptWScope b e.name s l (finishFreed e.freeAfter scope))
  | .int32 l => some (bsonAppendInt32 b e.name l)
  | .timestamp ts => some (bsonAppendTimestamp b e.name ts)
  | .int64 l => some (bsonAppendInt64 b e.name l)

/-- `_bson_build_add_single`: what it leaves in `single_result`, and the object.  The
verdict of the append call is dropped. -/
def bsonBuildAddSingle (b : Option Bson) (e : BuildElement) : Bool × Option Bson :=
  match e.append b with
  | none => (false, b)
  | some (_, b) => (true, b)

/-- `BSON_TYPE_NONE` closes the list. -/
def BuildElement.closes (e : BuildElement) : Bool :=
  match e.value with
  | .none => true
  | _ => false

/-- The loop over the arguments behind the first element. -/
def bsonBuildLoop (b : Option Bson) : List BuildElement → Option Bson
  | [] => b
  | e :: es =>
      if e.closes then b
      else
        match bsonBuildAddSingle b e with
        | (false, _) => none
        | (true, b) => bsonBuildLoop b es

/-- `bson_build_full`: `NULL` if an element has a type that nothing appends. -/
def bsonBuildFull (first : BuildElement) (rest : List BuildElement) : Option Bson :=
  match bsonBuildAddSingle (some bsonNew) first with
  | (false, _) => none
  | (true, b) => bsonBuildLoop b rest

/-- The same with `free_after` always `FALSE`. -/
def bsonBuild (first : BuildEntry) (rest : List BuildEntry) : Option Bson :=
  bsonBuildFull ⟨first, false⟩ (rest.map fun e => ⟨e, false⟩)

/-! ## Elements and their append calls -/

/-- The elements of a call: the first, and the others up to the end of the list. -/
def buildElements (first : BuildElement) (rest : List BuildElement) : List BuildElement :=
  first :: rest.takeWhile fun e => !e.closes

/-- The append calls for a list of elements, one after the other, all `TRUE`. -/
inductive Appended : Bson → List BuildElement → Bson → Prop where
  | nil {b : Bson} : Appended b [] b
  | cons {b b' b'' : Bson} {e : BuildElement} {es : List BuildElement} :
      e.append (some b) = some (true, some b') → Appended b' es b'' → Appended b (e :: es) b''

namespace BuildElement

/-- The type has an append call. -/
def Supported (e : BuildElement) : Prop :=
  match e.value with
  | .none | .undefined | .dbpointer | .min | .max | .other _ => False
  | _ => True

/-- An unsupported type, or an append call that returns `FALSE` on every open object. -/
def Rejected (e : BuildElement) : Prop :=
  ¬ e.Supported ∨ ∀ data, e.append (some ⟨data, false⟩) = some (false, some ⟨data, false⟩)

end BuildElement

/-- A text with a length an append call takes. -/
def TextGiven (s : Option Bytes) (l : Int) : Prop := s ≠ none ∧ (0 < l ∨ l = -1)

/-- What the append call for a value checks. -/
def BuildValue.Given (freeAfter : Bool) : BuildValue → Prop
  | .string s l | .jsCode s l | .symbol s l => TextGiven s l
  | .document d | .array d => 0 ≤ bsonSize (finishFreed freeAfter d)
  | .binary _ d l => d.isSome ∧ 0 < l
  | .oid o => o.isSome
  | .regexp r o => r.isSome ∧ o.isSome
  | .jsCodeWScope s l scope => s.isSome ∧ -1 ≤ l ∧ 0 ≤ bsonSize (finishFreed freeAfter scope)
  | _ => True

/-- An element with a key, and with a value its append call takes. -/
def BuildElement.Given (e : BuildElement) : Prop :=
  e.name ≠ none ∧ e.value.Given e.freeAfter

/-! ## What one append call does -/

/-- What an append call does to an open object: it appends an element, or it returns
`FALSE` and leaves the object alone. -/
structure AppendsIff (data : Bytes) (given : Prop) (r : Bool × Option Bson) : Prop where
  takes : given → ∃ data', r = (true, some ⟨data', false⟩)
  rejects : ¬ given → r = (false, some ⟨data, false⟩)

section Calls

variable {data : Bytes} {type : BsonType} {name : Option CString}

theorem AppendsIff.element (payload : Bytes) :
    AppendsIff data (name ≠ none)
      (bsonAppendElement (some ⟨data, false⟩) type name payload) := by
  cases name with
  | none => exact ⟨fun h => absurd rfl h, fun _ => rfl⟩
  | some key =>
      constructor
      · intro _
        rw [bsonAppendElement_open]
        exact ⟨_, rfl⟩
      · intro h
        exact absurd (by simp) h

/-- A call that first checks its value. -/
theorem AppendsIff.checked {ok bad : Prop} [Decidable bad] (hbad : ok ↔ ¬ bad)
    {r : Bool × Option Bson} (h : AppendsIff data (name ≠ none) r) :
    AppendsIff data (name ≠ none ∧ ok) (if bad then (false, some ⟨data, false⟩) else r) := by
  constructor
  · rintro ⟨hname, hok⟩
    rw [if_neg (hbad.mp hok)]
    exact h.takes hname
  · intro hnot
    split
    · rfl
    · next hgood =>
        apply h.rejects
        intro hname
        exact hnot ⟨hname, hbad.mpr hgood⟩

/-- A call without its value. -/
theorem AppendsIff.missing {ok : Prop} (hok : ¬ ok) :
    AppendsIff data (name ≠ none ∧ ok) (false, some ⟨data, false⟩) where
  takes h := absurd h.2 hok
  rejects _ := rfl

/-- A call whose value passes. -/
theorem AppendsIff.passed {ok : Prop} (hok : ok) {r : Bool × Option Bson}
    (h : AppendsIff data (name ≠ none) r) : AppendsIff data (name ≠ none ∧ ok) r where
  takes hgiven := h.takes hgiven.1
  rejects hnot := h.rejects fun hname => hnot ⟨hname, hok⟩

theorem AppendsIff.string (s : Option Bytes) (l : Int) :
    AppendsIff data (name ≠ none ∧ TextGiven s l)
      (bsonAppendStringElement (some ⟨data, false⟩) type name s l) := by
  cases s with
  | none => exact .missing (by simp [TextGiven])
  | some s =>
      refine .checked ?_ (.element _)
      simp only [TextGiven, ne_eq, reduceCtorEq, not_false_eq_true, true_and]
      omega

theorem AppendsIff.document (d : Option Bson) :
    AppendsIff data (name ≠ none ∧ 0 ≤ bsonSize d)
      (bsonAppendDocumentElement (some ⟨data, false⟩) type name d) :=
  .checked (by omega) (.element _)

theorem AppendsIff.binary (s : UInt8) (d : Option Bytes) (l : Int) :
    AppendsIff data (name ≠ none ∧ d.isSome ∧ 0 < l)
      (bsonAppendBinary (some ⟨data, false⟩) name s d l) := by
  cases d with
  | none => exact .missing (by simp)
  | some d => exact .checked (by simp) (.element _)

theorem AppendsIff.oid (o : Option Oid) :
    AppendsIff data (name ≠ none ∧ o.isSome)
      (bsonAppendOid (some ⟨data, false⟩) name o) := by
  cases o with
  | none => exact .missing (by simp)
  | some o => exact .passed (by simp) (.element _)

theorem AppendsIff.regex (r o : Option CString) :
    AppendsIff data (name ≠ none ∧ r.isSome ∧ o.isSome)
      (bsonAppendRegex (some ⟨data, false⟩) name r o) := by
  cases r with
  | none => exact .missing (by simp)
  | some r =>
      cases o with
      | none => exact .missing (by simp)
      | some o => exact .passed (by simp) (.element _)

theorem AppendsIff.javascriptWScope (s : Option Bytes) (l : Int) (scope : Option Bson) :
    AppendsIff data (name ≠ none ∧ s.isSome ∧ -1 ≤ l ∧ 0 ≤ bsonSize scope)
      (bsonAppendJavascriptWScope (some ⟨data, false⟩) name s l scope) := by
  cases s with
  | none => exact .missing (by simp)
  | some s =>
      cases scope with
      | none => exact .missing (by simp [bsonSize])
      | some scope =>
          refine .checked ?_ (.element _)
          simp only [Option.isSome_some, true_and]
          omega

/-- Without a payload an element is its header. -/
theorem AppendsIff.null :
    AppendsIff data (name ≠ none) (bsonAppendNull (some ⟨data, false⟩) name) := by
  cases name with
  | none => exact ⟨fun h => absurd rfl h, fun _ => rfl⟩
  | some key => exact ⟨fun _ => ⟨_, rfl⟩, fun h => absurd (by simp) h⟩

/-- The append call for an element takes it if key and value are given. -/
theorem BuildElement.append_appendsIff (e : BuildElement) (h : e.Supported) (data : Bytes) :
    ∃ r, e.append (some ⟨data, false⟩) = some r ∧
      AppendsIff data e.Given r := by
  obtain ⟨⟨name, value⟩, freeAfter⟩ := e
  cases value with
  | none | undefined | dbpointer | min | max | other => exact h.elim
  | string | jsCode | symbol => exact ⟨_, rfl, .string _ _⟩
  | document | array => exact ⟨_, rfl, .document _⟩
  | binary => exact ⟨_, rfl, .binary _ _ _⟩
  | oid => exact ⟨_, rfl, .oid _⟩
  | regexp => exact ⟨_, rfl, .regex _ _⟩
  | jsCodeWScope => exact ⟨_, rfl, .javascriptWScope _ _ _⟩
  | null => exact ⟨_, rfl, .passed trivial .null⟩
  | double | boolean | utcDatetime | int32 | timestamp | int64 =>
      exact ⟨_, rfl, .passed trivial (.element _)⟩

/-- A type without a case has no append call. -/
theorem BuildElement.append_unsupported {e : BuildElement} (h : ¬ e.Supported)
    (b : Option Bson) : e.append b = none := by
  obtain ⟨⟨name, value⟩, freeAfter⟩ := e
  cases value with
  | none | undefined | dbpointer | min | max | other => rfl
  | _ => exact absurd trivial h

end Calls

theorem BuildElement.append_given {e : BuildElement} (hsup : e.Supported) (h : e.Given)
    (data : Bytes) :
    ∃ data', e.append (some ⟨data, false⟩) = some (true, some ⟨data', false⟩) := by
  obtain ⟨r, happend, hiff⟩ := e.append_appendsIff hsup data
  obtain ⟨data', hr⟩ := hiff.takes h
  exact ⟨data', by rw [happend, hr]⟩

theorem BuildElement.append_missing {e : BuildElement} (hsup : e.Supported) (h : ¬ e.Given)
    (data : Bytes) :
    e.append (some ⟨data, false⟩) = some (false, some ⟨data, false⟩) := by
  obtain ⟨r, happend, hiff⟩ := e.append_appendsIff hsup data
  rw [happend, hiff.rejects h]

theorem BuildElement.rejected_iff (e : BuildElement) :
    e.Rejected ↔ ¬ (e.Supported ∧ e.Given) := by
  constructor
  · rintro (hsup | hfalse) ⟨hyes, hgiven⟩
    · exact hsup hyes
    · obtain ⟨data', htrue⟩ := append_given hyes hgiven []
      rw [hfalse] at htrue
      cases htrue
  · intro hnot
    by_cases hsup : e.Supported
    · exact .inr fun data => append_missing hsup (fun h => hnot ⟨hsup, h⟩) data
    · exact .inl hsup

/-! ## What a run builds -/

/-- The elements added one after the other. -/
def buildAll (b : Option Bson) : List BuildElement → Option Bson
  | [] => b
  | e :: es =>
      match bsonBuildAddSingle b e with
      | (false, _) => none
      | (true, b) => buildAll b es

theorem bsonBuildLoop_eq (b : Option Bson) (rest : List BuildElement) :
    bsonBuildLoop b rest = buildAll b (rest.takeWhile fun e => !e.closes) := by
  induction rest generalizing b with
  | nil => rfl
  | cons e es ih =>
      cases hcloses : e.closes with
      | true => simp [bsonBuildLoop, hcloses, buildAll]
      | false =>
          simp only [bsonBuildLoop, hcloses, List.takeWhile_cons, Bool.not_false, buildAll,
            Bool.false_eq_true, if_false, if_true, ih]

theorem bsonBuildFull_eq (first : BuildElement) (rest : List BuildElement) :
    bsonBuildFull first rest = buildAll (some bsonNew) (buildElements first rest) := by
  simp only [bsonBuildFull, buildElements, buildAll, bsonBuildLoop_eq]

section Runs

variable {e : BuildElement} {es : List BuildElement} {data : Bytes}

theorem buildAll_unsupported (h : ¬ e.Supported) (b : Option Bson) :
    buildAll b (e :: es) = none := by
  rw [buildAll, bsonBuildAddSingle, e.append_unsupported h]

/-- One supported element, whatever its append call returns. -/
theorem buildAll_supported (h : e.Supported) (data : Bytes) :
    ∃ data', buildAll (some ⟨data, false⟩) (e :: es) = buildAll (some ⟨data', false⟩) es := by
  by_cases hgiven : e.Given
  · obtain ⟨data', happend⟩ := e.append_given h hgiven data
    exact ⟨data', by rw [buildAll, bsonBuildAddSingle, happend]⟩
  · exact ⟨data, by rw [buildAll, bsonBuildAddSingle, e.append_missing h hgiven]⟩

/-- `NULL` is for unsupported types only. -/
theorem buildAll_none_iff :
    buildAll (some ⟨data, false⟩) es = none ↔ ∃ e ∈ es, ¬ e.Supported := by
  induction es generalizing data with
  | nil => simp [buildAll]
  | cons e es ih =>
      by_cases hsup : e.Supported
      · obtain ⟨data', hstep⟩ : ∃ data', buildAll (some ⟨data, false⟩) (e :: es) =
            buildAll (some ⟨data', false⟩) es := buildAll_supported hsup data
        rw [hstep, ih]
        simp [hsup]
      · rw [buildAll_unsupported hsup]
        simp [hsup]

/-- Elements that are all taken. -/
theorem buildAll_given (h : ∀ e ∈ es, e.Supported ∧ e.Given) (data : Bytes) :
    ∃ data', buildAll (some ⟨data, false⟩) es = some ⟨data', false⟩ ∧
      Appended ⟨data, false⟩ es ⟨data', false⟩ := by
  induction es generalizing data with
  | nil => exact ⟨data, rfl, .nil⟩
  | cons e es ih =>
      obtain ⟨hsup, hgiven⟩ := h e List.mem_cons_self
      obtain ⟨data₁, happend⟩ := e.append_given hsup hgiven data
      obtain ⟨data', hall, hrun⟩ := ih (fun x hx => h x (List.mem_cons_of_mem _ hx)) data₁
      refine ⟨data', ?_, .cons happend hrun⟩
      rw [buildAll, bsonBuildAddSingle, happend]
      exact hall

/-- A run of append calls that are all `TRUE` took every element. -/
theorem Appended.given {b b' : Bson} (h : Appended b es b') (hopen : b.finished = false) :
    ∀ e ∈ es, e.Given := by
  induction h with
  | nil =>
      intro e he
      cases he
  | @cons b b₁ b' e es happend _ ih =>
      obtain ⟨data, finished⟩ := b
      cases hopen
      have hsup : e.Supported := by
        by_contra hno
        rw [e.append_unsupported hno] at happend
        cases happend
      have hgiven : e.Given := by
        by_contra hno
        rw [e.append_missing hsup hno] at happend
        cases happend
      obtain ⟨data', htakes⟩ := e.append_given hsup hgiven data
      rw [htakes] at happend
      cases happend
      intro x hx
      rcases List.mem_cons.mp hx with rfl | hx
      · exact hgiven
      · exact ih rfl x hx

end Runs

/-! ## What is dropped -/

/-- Nothing is dropped silently: the result is `NULL` exactly if an element is rejected,
and otherwise an open object made by append calls that all returned `TRUE`. -/
structure BuildsAll (elements : List BuildElement) (result : Option Bson) : Prop where
  whole : ∀ b, result = some b → b.finished = false ∧ Appended bsonNew elements b
  null_iff : result = none ↔ ∃ e ∈ elements, e.Rejected

/-- The elements of a call have values that are all taken, unless one is of an unsupported
type. -/
def Careful (elements : List BuildElement) : Prop :=
  (∃ e ∈ elements, ¬ e.Supported) ∨ ∀ e ∈ elements, e.Given

theorem buildsAll_iff (elements : List BuildElement) :
    BuildsAll elements (buildAll (some bsonNew) elements) ↔ Careful elements := by
  have hnone : buildAll (some bsonNew) elements = none ↔ ∃ e ∈ elements, ¬ e.Supported :=
    buildAll_none_iff
  by_cases hsup : ∃ e ∈ elements, ¬ e.Supported
  · refine ⟨fun _ => .inl hsup, fun _ => ⟨fun b hb => ?_, ?_⟩⟩
    · rw [hnone.mpr hsup] at hb
      cases hb
    · obtain ⟨e, he, hno⟩ := hsup
      exact iff_of_true (hnone.mpr ⟨e, he, hno⟩) ⟨e, he, .inl hno⟩
  · have hall : ∀ e ∈ elements, e.Supported := fun e he => by
      by_contra hno
      exact hsup ⟨e, he, hno⟩
    constructor
    · intro h
      obtain ⟨b, hb⟩ := Option.ne_none_iff_exists'.mp (hnone.not.mpr hsup)
      exact .inr ((h.whole b hb).2.given rfl)
    · rintro (hno | hgiven)
      · exact absurd hno hsup
      obtain ⟨data', hbuild, hrun⟩ :=
        buildAll_given (fun e he => ⟨hall e he, hgiven e he⟩) (leBytes 4 0)
      refine ⟨fun b hb => ?_, ?_⟩
      · rw [show some bsonNew = some ⟨leBytes 4 0, false⟩ from rfl, hbuild] at hb
        cases hb
        exact ⟨rfl, hrun⟩
      · refine iff_of_false (hnone.not.mpr hsup) ?_
        rintro ⟨e, he, hrejected⟩
        exact (e.rejected_iff.mp hrejected) ⟨hall e he, hgiven e he⟩

/-- **`bson_build` drops what an append call rejects.**  Both functions build all they
are given, or return `NULL`, exactly on the calls in which every key and value passes
the checks of its append call, or some type is unsupported. -/
theorem build_drops_nothing_iff (first : BuildElement) (rest : List BuildElement)
    (entry : BuildEntry) (entries : List BuildEntry) :
    (BuildsAll (buildElements first rest) (bsonBuildFull first rest) ↔
      Careful (buildElements first rest)) ∧
    (BuildsAll (buildElements ⟨entry, false⟩ (entries.map fun e => ⟨e, false⟩))
        (bsonBuild entry entries) ↔
      Careful (buildElements ⟨entry, false⟩ (entries.map fun e => ⟨e, false⟩))) := by
  constructor
  · rw [bsonBuildFull_eq]
    exact buildsAll_iff _
  · rw [bsonBuild, bsonBuildFull_eq]
    exact buildsAll_iff _

/-- A text of no length is dropped, and the result is an empty object. -/
theorem build_drops_empty_text :
    bsonBuild ⟨some (.ascii ['s']), .string (some []) 0⟩ [] = some bsonNew ∧
    ¬ BuildsAll [⟨⟨some (.ascii ['s']), .string (some []) 0⟩, false⟩]
      (bsonBuild ⟨some (.ascii ['s']), .string (some []) 0⟩ []) := by
  refine ⟨rfl, fun h => ?_⟩
  have hgiven := (h.whole bsonNew rfl).2.given rfl _ List.mem_cons_self
  exact absurd hgiven.2.2 (by decide)

end LibMongo
