import Mathlib.Data.Finset.Card
import Mathlib.Logic.Relation
import LibMongo.Base.Program

/-!
# Loops

A round of a loop halts, says where the loop goes on, or says what it returns.
`run` repeats it for as many rounds as the fuel says.

Where the loop comes to is `Leads`, and `Circles` says that it comes back to a state
it has left.  A loop that goes on from finitely many states only runs out of fuel
when it circles (`circles_of_endless`), and then no fuel is enough (`Circles.run`).
So with more fuel than there are such states a run tells how the loop itself ends
(`run_eq_iff`).
-/

namespace Loop

open Relation

variable {α β : Type}

/-- A walk along a relation that comes back to a point it has left. -/
def Circles (rel : α → α → Prop) (a : α) : Prop :=
  ∃ p, ReflTransGen rel a p ∧ TransGen rel p p

/-- Rounds until one returns a result, at most as many as the fuel. -/
def run (round : α → Except Halt (α ⊕ β)) : Nat → α → Except Halt β
  | 0, _ => .error .endless
  | fuel + 1, a => do
      match ← round a with
      | .inl a' => run round fuel a'
      | .inr b => return b

/-- What a round that does not go on leaves. -/
def last : Except Halt (α ⊕ β) → Option (Except Halt β)
  | .error e => some (.error e)
  | .ok (.inl _) => none
  | .ok (.inr b) => some (.ok b)

variable (round : α → Except Halt (α ⊕ β))

/-- The loop goes on from the first state at the second. -/
def Next (a a' : α) : Prop := round a = .ok (.inl a')

/-- The loop comes from the first state to the second. -/
abbrev Leads : α → α → Prop := ReflTransGen (Next round)

variable {round} {a a' p : α} {fuel : Nat} {r : Except Halt β}

theorem run_next (h : Next round a a') : run round (fuel + 1) a = run round fuel a' := by
  rw [run, h, Program.ok_bind]

theorem run_last (h : last (round a) = some r) : run round (fuel + 1) a = r := by
  rw [run]
  cases hround : round a with
  | error e =>
      rw [hround] at h
      exact Option.some.inj h
  | ok o =>
      rw [hround] at h
      cases o with
      | inl a' => cases h
      | inr b => exact Option.some.inj h

/-- A round goes on or is the last. -/
theorem next_or_last (round : α → Except Halt (α ⊕ β)) (a : α) :
    (∃ a', Next round a a') ∨ ∃ r, last (round a) = some r := by
  unfold Next
  cases round a with
  | error e => exact .inr ⟨_, rfl⟩
  | ok o =>
      cases o with
      | inl a' => exact .inl ⟨a', rfl⟩
      | inr b => exact .inr ⟨_, rfl⟩

/-- The loop runs on from every state it comes to. -/
theorem run_of_leads (h : Leads round a p) :
    ∃ n, ∀ fuel, run round (fuel + n) a = run round fuel p := by
  induction h using ReflTransGen.head_induction_on with
  | refl => exact ⟨0, fun _ => rfl⟩
  | head hnext _ ih =>
      obtain ⟨n, hn⟩ := ih
      exact ⟨n + 1, fun fuel => (run_next hnext).trans (hn fuel)⟩

/-! ## Circles -/

section Circles

variable {rel rel' : α → α → Prop}

theorem Circles.next (h : Circles rel a) : ∃ a', rel a a' ∧ Circles rel a' := by
  obtain ⟨p, hap, hpp⟩ := h
  rcases hap.cases_head with rfl | ⟨a', hnext, hrest⟩
  · obtain ⟨a', hnext, hrest⟩ := TransGen.head'_iff.mp hpp
    exact ⟨a', hnext, a, hrest, hpp⟩
  · exact ⟨a', hnext, p, hrest, hpp⟩

theorem Circles.of_leads (hap : ReflTransGen rel a p) (h : Circles rel p) : Circles rel a := by
  obtain ⟨q, hpq, hqq⟩ := h
  exact ⟨q, hap.trans hpq, hqq⟩

theorem Circles.mono (hrel : ∀ p q, rel p q → rel' p q) (h : Circles rel a) :
    Circles rel' a := by
  obtain ⟨p, hap, hpp⟩ := h
  exact ⟨p, ReflTransGen.mono hrel _ _ hap, TransGen.mono hrel _ _ hpp⟩

end Circles

/-- No fuel is enough for a loop that circles. -/
theorem Circles.run (h : Circles (Next round) a) (fuel : Nat) :
    Loop.run round fuel a = .error .endless := by
  induction fuel generalizing a with
  | zero => rfl
  | succ fuel ih =>
      obtain ⟨a', hnext, hcircles⟩ := h.next
      rw [run_next hnext]
      exact ih hcircles

/-- Fuel for every state the loop goes on from runs out only in a circle. -/
theorem circles_of_endless (hround : ∀ a, round a ≠ .error .endless) {s : Finset α}
    (hs : ∀ p q, Leads round a p → Next round p q → p ∈ s) (hfuel : s.card < fuel)
    (h : run round fuel a = .error .endless) : Circles (Next round) a := by
  classical
  -- a state that is not seen again leaves the set, so the fuel stays ahead
  induction fuel generalizing a s with
  | zero => exact absurd hfuel (Nat.not_lt_zero _)
  | succ fuel ih =>
      rcases next_or_last round a with ⟨a', hnext⟩ | ⟨r, hlast⟩
      · by_cases hback : Leads round a' a
        · exact ⟨a, .refl, .head' hnext hback⟩
        · have ha : a ∈ s := hs a a' .refl hnext
          have hrest : ∀ p q, Leads round a' p → Next round p q → p ∈ s.erase a := by
            intro p q hp hpq
            refine Finset.mem_erase.mpr ⟨?_, hs p q (.head hnext hp) hpq⟩
            rintro rfl
            exact hback hp
          have hcard := Finset.card_erase_lt_of_mem ha
          rw [run_next hnext] at h
          exact .of_leads (.single hnext) (ih hrest (by omega) h)
      · rw [run_last hlast] at h
        subst h
        cases hround' : round a with
        | error e =>
            rw [hround'] at hlast
            cases hlast
            exact absurd hround' (hround a)
        | ok o =>
            rw [hround'] at hlast
            cases o with
            | inl a' => cases hlast
            | inr b => cases hlast

/-! ## Results -/

theorem last_of_run (h : run round fuel a = r) (hr : r ≠ .error .endless) :
    ∃ p, Leads round a p ∧ last (round p) = some r := by
  induction fuel generalizing a with
  | zero => exact absurd h.symm hr
  | succ fuel ih =>
      rcases next_or_last round a with ⟨a', hnext⟩ | ⟨r', hlast⟩
      · rw [run_next hnext] at h
        obtain ⟨p, hp, hlast⟩ := ih h
        exact ⟨p, .head hnext hp, hlast⟩
      · rw [run_last hlast] at h
        exact ⟨a, .refl, h ▸ hlast⟩

/-- More fuel does not change a result. -/
theorem run_mono (h : run round fuel a = r) (hr : r ≠ .error .endless) (n : Nat) :
    run round (fuel + n) a = r := by
  induction fuel generalizing a with
  | zero => exact absurd h.symm hr
  | succ fuel ih =>
      rw [Nat.add_right_comm]
      rcases next_or_last round a with ⟨a', hnext⟩ | ⟨r', hlast⟩
      · rw [run_next hnext] at h ⊢
        exact ih h
      · rw [run_last hlast] at h ⊢
        exact h

/-- With enough fuel a run ends as the loop does. -/
theorem run_eq_iff (hround : ∀ a, round a ≠ .error .endless) {s : Finset α}
    (hs : ∀ p q, Leads round a p → Next round p q → p ∈ s) (hfuel : s.card < fuel)
    (hr : r ≠ .error .endless) :
    run round fuel a = r ↔ ∃ p, Leads round a p ∧ last (round p) = some r := by
  refine ⟨fun h => last_of_run h hr, ?_⟩
  rintro ⟨p, hp, hlast⟩
  obtain ⟨n, hn⟩ := run_of_leads hp
  have hlong : run round (1 + n) a = r := (hn 1).trans (run_last hlast)
  by_cases hend : run round fuel a = .error .endless
  · have hcircles := (circles_of_endless hround hs hfuel hend).run (1 + n)
    exact absurd (hlong.symm.trans hcircles) hr
  · rcases Nat.le_total fuel (1 + n) with hle | hle
    · have hmore := run_mono rfl hend (1 + n - fuel)
      rw [Nat.add_sub_cancel' hle] at hmore
      exact hmore.symm.trans hlong
    · have hmore := run_mono hlong hr (fuel - (1 + n))
      rwa [Nat.add_sub_cancel' hle] at hmore

end Loop
