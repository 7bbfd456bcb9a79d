import Mathlib.Dynamics.PeriodicPts.Defs

/-!
# Counters

A counter hands out one number after another, each made of the one before.  `Drawn` says which
numbers were drawn on the way from one state of the counter to another.  They are different
until the counter is back at the first of them (`Drawn.nodup`).
-/

namespace Counter

variable {α : Type} {next : α → α} {r r' r'' : α} {ids ids' : List α}

/-- The numbers that are drawn from a counter at `r`, which then is at `r'`. -/
def Drawn (next : α → α) : α → List α → α → Prop
  | r, [], r' => r' = r
  | r, id :: ids, r' => id = next r ∧ Drawn next id ids r'

theorem Drawn.nil (r : α) : Drawn next r [] r := rfl

theorem Drawn.one (r : α) : Drawn next r [next r] (next r) := ⟨rfl, rfl⟩

theorem Drawn.append (h : Drawn next r ids r') (h' : Drawn next r' ids' r'') :
    Drawn next r (ids ++ ids') r'' := by
  induction ids generalizing r with
  | nil =>
      cases h
      exact h'
  | cons id ids ih =>
      obtain ⟨hid, hrest⟩ := h
      exact ⟨hid, ih hrest⟩

/-- Each number is an iterate of the step. -/
theorem Drawn.getElem? (h : Drawn next r ids r') {k : Nat} {id : α} (hk : ids[k]? = some id) :
    id = next^[k] (next r) := by
  induction ids generalizing r k with
  | nil => simp at hk
  | cons id' ids ih =>
      obtain ⟨rfl, hrest⟩ := h
      cases k with
      | zero => simpa using hk.symm
      | succ k =>
          rw [List.getElem?_cons_succ] at hk
          exact ih hrest hk

/-- The numbers are different as long as the counter does not come back to the first. -/
theorem Drawn.nodup (h : Drawn next r ids r')
    (hlength : ∀ id, ids.head? = some id → ids.length ≤ Function.minimalPeriod next id) :
    ids.Nodup := by
  rw [List.nodup_iff_getElem?_ne_getElem?]
  intro i j hij hj heq
  have hi : i < ids.length := hij.trans hj
  have hperiod : ids.length ≤ Function.minimalPeriod next (next r) := by
    cases ids with
    | nil => simp at hj
    | cons id ids =>
        obtain ⟨rfl, -⟩ := h
        exact hlength _ rfl
  have hdrawn : next^[i] (next r) = next^[j] (next r) := by
    rw [← h.getElem? (List.getElem?_eq_getElem hi), ← h.getElem? (List.getElem?_eq_getElem hj)]
    rw [List.getElem?_eq_getElem hi, List.getElem?_eq_getElem hj] at heq
    exact Option.some.inj heq
  have hsame := (Function.iterate_eq_iterate_iff_of_lt_minimalPeriod (hi.trans_le hperiod)
    (hj.trans_le hperiod)).mp hdrawn
  exact Nat.ne_of_lt hij hsame

end Counter
