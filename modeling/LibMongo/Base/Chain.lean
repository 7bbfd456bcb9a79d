import Mathlib.Tactic.Common

/-!
# Chains

A partial function is followed from a point for as long as it is defined.  `Ends`
says that this comes to an end, and `not_ends` that it does not as long as it stays
among points that all have a successor there.
-/

namespace Chain

variable {α : Type} (next : α → Option α)

/-- The chain that starts here has a last point. -/
inductive Ends : Option α → Prop where
  | none : Ends none
  | some {a : α} : Ends (next a) → Ends (some a)

variable {next}

/-- A chain that never leaves a set of points with successors has no end. -/
theorem not_ends {P : α → Prop} (h : ∀ a, P a → ∃ b, next a = some b ∧ P b) {o : Option α}
    (hends : Ends next o) : ∀ a, o = some a → ¬ P a := by
  induction hends with
  | none =>
      intro a ha
      cases ha
  | some _ ih =>
      intro a ha hP
      cases ha
      obtain ⟨b, hb, hPb⟩ := h _ hP
      exact ih b hb hPb

end Chain
