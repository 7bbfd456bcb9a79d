import Mathlib.Tactic.Common

/-!
# Framed streams

A stream of frames written one behind the other can be cut up again if no frame
is the beginning of another.  `Framing` is such a set of frames, and `Framed`
says that a list is a sequence of frames.  What is left behind a sequence of
frames is one too (`Framed.of_append`), and a frame that was cut short is none
(`Framing.not_framed`).
-/

variable {α : Type}

/-- A set of frames, none of which is the beginning of another. -/
structure Framing (IsFrame : List α → Prop) : Prop where
  nonempty : ∀ {x}, IsFrame x → x ≠ []
  prefixFree : ∀ {x y}, IsFrame x → IsFrame y → x <+: y → x = y

/-- A sequence of frames. -/
inductive Framed (IsFrame : List α → Prop) : List α → Prop
  | nil : Framed IsFrame []
  | cons {x s : List α} : IsFrame x → Framed IsFrame s → Framed IsFrame (x ++ s)

variable {IsFrame : List α → Prop}

theorem Framed.one {x : List α} (h : IsFrame x) : Framed IsFrame x := by
  have hone := Framed.cons h .nil
  rwa [List.append_nil] at hone

theorem Framed.append {s t : List α} (h : Framed IsFrame s) (h' : Framed IsFrame t) :
    Framed IsFrame (s ++ t) := by
  induction h with
  | nil => exact h'
  | cons hx _ ih =>
      rw [List.append_assoc]
      exact .cons hx ih

/-- What is not empty begins with a frame. -/
theorem Framed.head {s : List α} (h : Framed IsFrame s) (hne : s ≠ []) :
    ∃ x t, IsFrame x ∧ Framed IsFrame t ∧ s = x ++ t := by
  cases h with
  | nil => exact (hne rfl).elim
  | cons hx ht => exact ⟨_, _, hx, ht, rfl⟩

namespace Framing

variable (hF : Framing IsFrame)
include hF

/-- Two frames at the beginning of the same list. -/
theorem eq_of_append {x y s t : List α} (hx : IsFrame x) (hy : IsFrame y)
    (h : x ++ s = y ++ t) : x = y := by
  rcases List.prefix_or_prefix_of_prefix (List.prefix_append x s) (h ▸ List.prefix_append y t) with
    hpre | hpre
  · exact hF.prefixFree hx hy hpre
  · exact (hF.prefixFree hy hx hpre).symm

/-- What is left behind a sequence of frames. -/
theorem of_append {s t : List α} (h : Framed IsFrame s) (h' : Framed IsFrame (s ++ t)) :
    Framed IsFrame t := by
  induction h with
  | nil => exact h'
  | @cons x s hx _ ih =>
      rw [List.append_assoc] at h'
      have hne : x ++ (s ++ t) ≠ [] := fun hnil => hF.nonempty hx (List.append_eq_nil_iff.mp hnil).1
      obtain ⟨y, r, hy, hr, heq⟩ := h'.head hne
      have hsame := hF.eq_of_append hx hy heq
      subst hsame
      rw [List.append_cancel_left heq] at ih
      exact ih hr

/-- A frame that was cut short. -/
theorem not_framed {x t : List α} (hx : IsFrame x) (hpre : t <+: x) (hne : t ≠ [])
    (hshort : t.length < x.length) : ¬ Framed IsFrame t := by
  intro h
  obtain ⟨y, r, hy, -, rfl⟩ := h.head hne
  have hyx := hF.prefixFree hy hx ((List.prefix_append y r).trans hpre)
  rw [hyx, List.length_append] at hshort
  omega

end Framing
