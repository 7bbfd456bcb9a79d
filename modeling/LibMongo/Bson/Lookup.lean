import LibMongo.Bson.Getters

/-!
# Lookups

A search for a key followed by a getter, as the code does it, is the lookup of
the key in the document tree (`find_get`).  `Doc.strings` are the strings of an
array, in order.
-/

namespace LibMongo

open Bytes

/-! ## Values of one type -/

namespace Value

/-- A string as the getters hand it over, up to its first NUL. -/
def asText : Value → Option CString
  | .string s => some (CString.ofBytes s)
  | _ => none

/-- The byte of a boolean as a `gboolean`. -/
def asBoolean : Value → Option (BitVec 32)
  | .boolean x => some (BitVec.ofNat 32 x.toNat)
  | _ => none

/-- The bits of a double. -/
def asDouble : Value → Option GDouble
  | .double x => some x
  | _ => none

/-- The elements of an array. -/
def asArray : Value → Option Doc
  | .array d => some d
  | _ => none

/-- An object id. -/
def asOid : Value → Option Oid
  | .oid o => some o
  | _ => none

/-- A 32-bit integer. -/
def asInt32 : Value → Option (BitVec 32)
  | .int32 x => some x
  | _ => none

/-- A 64-bit integer. -/
def asInt64 : Value → Option (BitVec 64)
  | .int64 x => some x
  | _ => none

end Value

section Lookups

variable {b : Bson} {d : Doc}

/-- A search followed by a getter. -/
theorem find_get {α : Type} (h : b.Encodes d) (name : CString) (type : BsonType)
    (get : BsonCursor → Except Halt α) {read : Value → Option α}
    (hmiss : ∀ v, v.type ≠ type → read v = none)
    (hget : ∀ d₁ v d₂, v.type = type → b.Encodes (d₁.append (.cons name v d₂)) →
      bsonCursorGet type (some (.behind b d₁ name)) get = .ok (read v)) :
    (bsonFind (some b) (some name) >>= fun c => bsonCursorGet type c get)
      = .ok ((d.lookup name).bind read) := by
  cases hl : d.lookup name with
  | none =>
      rw [bsonFind_none h hl, Program.ok_bind]
      rfl
  | some v =>
      obtain ⟨d₁, d₂, rfl, -, hfind⟩ := bsonFind_some h hl
      rw [hfind, Program.ok_bind, Option.bind_some]
      by_cases htype : v.type = type
      · exact hget d₁ v d₂ htype h
      · rw [hmiss v htype]
        exact h.get_ne htype get

theorem find_getString (h : b.Encodes d) (name : CString) :
    (bsonFind (some b) (some name) >>= bsonCursorGetString)
      = .ok ((d.lookup name).bind Value.asText) := by
  refine find_get h name .string _ (fun v hv => ?_) fun d₁ v d₂ hv he => ?_
  · cases v with
    | string s => exact absurd rfl hv
    | _ => rfl
  · cases v with
    | string s => exact he.getString
    | _ => cases hv

theorem find_getBoolean (h : b.Encodes d) (name : CString) :
    (bsonFind (some b) (some name) >>= bsonCursorGetBoolean)
      = .ok ((d.lookup name).bind Value.asBoolean) := by
  refine find_get h name .boolean _ (fun v hv => ?_) fun d₁ v d₂ hv he => ?_
  · cases v with
    | boolean x => exact absurd rfl hv
    | _ => rfl
  · cases v with
    | boolean x => exact he.getBoolean
    | _ => cases hv

theorem find_getDouble (h : b.Encodes d) (name : CString) :
    (bsonFind (some b) (some name) >>= bsonCursorGetDouble)
      = .ok ((d.lookup name).bind Value.asDouble) := by
  refine find_get h name .double _ (fun v hv => ?_) fun d₁ v d₂ hv he => ?_
  · cases v with
    | double x => exact absurd rfl hv
    | _ => rfl
  · cases v with
    | double x => exact he.getDouble
    | _ => cases hv

theorem find_getOid (h : b.Encodes d) (name : CString) :
    (bsonFind (some b) (some name) >>= bsonCursorGetOid)
      = .ok ((d.lookup name).bind Value.asOid) := by
  refine find_get h name .oid _ (fun v hv => ?_) fun d₁ v d₂ hv he => ?_
  · cases v with
    | oid o => exact absurd rfl hv
    | _ => rfl
  · cases v with
    | oid o => exact he.getOid
    | _ => cases hv

/-- The bytes of a binary, and what lies behind them. -/
theorem find_getBinary (h : b.Encodes d) {name : CString} {subtype : UInt8} {data : Bytes}
    (hl : d.lookup name = some (.binary subtype data)) :
    ∃ post, (bsonFind (some b) (some name) >>= bsonCursorGetBinary)
      = .ok (some ⟨subtype, data ++ post, data.length⟩) := by
  obtain ⟨d₁, d₂, rfl, -, hfind⟩ := bsonFind_some h hl
  obtain ⟨post, hget⟩ := h.getBinary
  refine ⟨post, ?_⟩
  rw [hfind, Program.ok_bind]
  exact hget

/-- The object a getter makes of an array. -/
theorem find_getArray (h : b.Encodes d) (name : CString) :
    (bsonFind (some b) (some name) >>= bsonCursorGetArray)
      = .ok (((d.lookup name).bind Value.asArray).map fun e => ⟨e.encode, true⟩) := by
  have hfind : (bsonFind (some b) (some name) >>= bsonCursorGetArray)
      = .ok ((d.lookup name).bind fun v => v.asArray.map fun e => (⟨e.encode, true⟩ : Bson)) := by
    refine find_get h name .array _ (fun v hv => ?_) fun d₁ v d₂ hv he => ?_
    · cases v with
      | array e => exact absurd rfl hv
      | _ => rfl
    · cases v with
      | array e => exact he.getArray
      | _ => cases hv
  rw [hfind]
  cases d.lookup name with
  | none => rfl
  | some v => rfl

/-- An array in a document is a document that is no longer. -/
theorem array_encodes (h : b.Encodes d) {name : CString} {e : Doc}
    (he : (d.lookup name).bind Value.asArray = some e) : Bson.Encodes ⟨e.encode, true⟩ e := by
  obtain ⟨v, hv, hv'⟩ := Option.bind_eq_some_iff.mp he
  obtain ⟨d₁, d₂, rfl, -, -⟩ := bsonFind_some h hv
  cases v with
  | array a =>
      cases hv'
      obtain ⟨pre, post, hh, -⟩ := h.holds
      exact ⟨rfl, rfl, hh.encode_small⟩
  | _ => cases hv'

end Lookups

/-! ## Searches from an element -/

/-- The first element with a key is in one place. -/
theorem Doc.split_unique {name : CString} {v w : Value} {r s : Doc} :
    ∀ {d e : Doc}, d.lookup name = none → e.lookup name = none →
      d.append (.cons name v r) = e.append (.cons name w s) → d = e ∧ v = w ∧ r = s
  | .nil, .nil, _, _, h => by
      cases h
      exact ⟨rfl, rfl, rfl⟩
  | .nil, .cons key _ _, _, he, h => by
      rw [Doc.nil_append, Doc.cons_append] at h
      cases h
      rw [Doc.lookup, if_pos rfl] at he
      cases he
  | .cons key _ _, .nil, hd, _, h => by
      rw [Doc.nil_append, Doc.cons_append] at h
      cases h
      rw [Doc.lookup, if_pos rfl] at hd
      cases hd
  | .cons key u d, .cons key' u' e, hd, he, h => by
      rw [Doc.cons_append, Doc.cons_append] at h
      injection h with hkey hvalue hrest
      subst hkey
      subst hvalue
      rw [Doc.lookup] at hd he
      split at hd
      next => cases hd
      next hne =>
        rw [if_neg hne] at he
        obtain ⟨rfl, hv, hr⟩ := Doc.split_unique hd he hrest
        exact ⟨rfl, hv, hr⟩

section Searches

variable {b : Bson} {d₁ d₂ d₃ m : Doc} {key name : CString} {v w : Value}

/-- A key that comes behind the element. -/
theorem cursorFind_behind (name : CString)
    (h : b.Encodes (d₁.append (.cons key v (m.append (.cons name w d₂)))))
    (hkey : key ≠ name) (hm : m.lookup name = none) :
    bsonCursorFind (some (.behind b d₁ key)) (some name)
      = .ok (true, some (.behind b (d₁.append (.cons key v m)) name)) := by
  have hnone : (Doc.cons key v m).lookup name = none := by
    rw [Doc.lookup, if_neg hkey]
    exact hm
  have hl : (Doc.cons key v (m.append (.cons name w d₂))).lookup name = some w := by
    rw [← Doc.cons_append, Doc.lookup_append, hnone, Doc.lookup, if_pos rfl]
    rfl
  obtain ⟨e₁, e₂, he, hnone', hfind⟩ := bsonCursorFind_ahead h hl
  rw [← Doc.cons_append] at he
  obtain ⟨rfl, -, -⟩ := Doc.split_unique hnone hnone' he
  exact hfind

/-- A key that comes in front of the element only. -/
theorem cursorFind_before (name : CString)
    (h : b.Encodes ((m.append (.cons name w d₂)).append (.cons key v d₃)))
    (hbehind : (Doc.cons key v d₃).lookup name = none) (hm : m.lookup name = none) :
    bsonCursorFind (some (.behind b (m.append (.cons name w d₂)) key)) (some name)
      = .ok (true, some (.behind b m name)) := by
  have hl : (m.append (.cons name w d₂)).lookup name = some w := by
    rw [Doc.lookup_append, hm, Doc.lookup, if_pos rfl]
    rfl
  obtain ⟨e₁, e₂, he, hnone, hfind⟩ := bsonCursorFind_around h hbehind hl
  obtain ⟨rfl, -, -⟩ := Doc.split_unique hm hnone he
  exact hfind

end Searches

/-! ## The strings of an array -/

/-- The strings among the elements, in order. -/
def Doc.strings : Doc → List CString
  | .nil => []
  | .cons _ value rest => value.asText.toList ++ rest.strings

/-- The number of elements. -/
def Doc.length : Doc → Nat
  | .nil => 0
  | .cons _ _ rest => rest.length + 1

theorem Doc.length_le_elems (d : Doc) : d.length ≤ d.elems.length := by
  match d with
  | .nil => exact Nat.zero_le _
  | .cons key value rest =>
      have hrest := rest.length_le_elems
      rw [Doc.length, Doc.elems_cons, List.length_append, element_length]
      omega

end LibMongo
