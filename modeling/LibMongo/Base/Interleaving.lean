import LibMongo.Base.Interaction
import Mathlib.Logic.Function.Basic

/-!
# Interleavings

Several clients call one server.  A call is one step, and between two calls of a client the
others may make any number of theirs.  `Interleaved` are the states that are reached so.

A `Discipline` says which calls a client with a given share of the server may make, and which
share it has after the answer.  `Obeys D Q t g` says that `t` keeps to it from the share `g`
on, whatever the answers are.  If the clients do, an invariant of the server and the shares
only has to be shown for one allowed call (`Interleaved.invariant`).
-/

namespace Interaction

variable {C : Type} {R : C → Type} {α β G S ι : Type}

/-! ## Disciplines -/

/-- What a client may call while it holds `g`, and what it holds after an answer. -/
structure Discipline (C : Type) (R : C → Type) (G : Type) where
  may : G → C → Prop
  after : G → (c : C) → R c → G → Prop

/-- All calls of the interaction are allowed from this share on, and the result and the share
at its end are a `Q`. -/
def Obeys (D : Discipline C R G) (Q : α → G → Prop) : Interaction C R α → G → Prop
  | ret a, g => Q a g
  | halt _, _ => True
  | call c k, g => D.may g c ∧ ∀ x g', D.after g c x g' → (k x).Obeys D Q g'

section Obeys

variable {D : Discipline C R G} {P Q : α → G → Prop} {t : Interaction C R α} {g : G}

@[simp] theorem obeys_ret {a : α} : (ret a : Interaction C R α).Obeys D Q g ↔ Q a g := Iff.rfl

@[simp] theorem obeys_halt {e : Halt} : (halt e : Interaction C R α).Obeys D Q g := trivial

theorem obeys_call {c : C} {k : R c → Interaction C R α} :
    (call c k).Obeys D Q g ↔ D.may g c ∧ ∀ x g', D.after g c x g' → (k x).Obeys D Q g' := Iff.rfl

theorem obeys_perform_bind {Q : β → G → Prop} {c : C} {f : R c → Interaction C R β} :
    (perform c >>= f).Obeys D Q g ↔ D.may g c ∧ ∀ x g', D.after g c x g' → (f x).Obeys D Q g' :=
  Iff.rfl

theorem Obeys.mono (h : t.Obeys D P g) (hPQ : ∀ a g', P a g' → Q a g') : t.Obeys D Q g := by
  induction t generalizing g with
  | ret a => exact hPQ a g h
  | halt e => trivial
  | call c k ih => exact ⟨h.1, fun x g' hafter => ih x (h.2 x g' hafter)⟩

/-- One part after the other. -/
theorem Obeys.bind {Q : β → G → Prop} {f : α → Interaction C R β} (ht : t.Obeys D P g)
    (hf : ∀ a g', P a g' → (f a).Obeys D Q g') : (t >>= f).Obeys D Q g := by
  induction t generalizing g with
  | ret a => exact hf a g ht
  | halt e => trivial
  | call c k ih => exact ⟨ht.1, fun x g' hafter => ih x (ht.2 x g' hafter)⟩

/-- A part that only reads memory. -/
theorem obeys_ofExcept_bind {Q : β → G → Prop} {x : Except Halt α} {f : α → Interaction C R β}
    (hf : ∀ a, x = .ok a → (f a).Obeys D Q g) : (ofExcept x >>= f).Obeys D Q g := by
  cases x with
  | ok a => exact hf a rfl
  | error e => trivial

end Obeys

/-! ## Clients -/

variable [DecidableEq ι]

/-- What the server and the clients can come to.  A client that has ended may begin again. -/
inductive Interleaved (answers : S → (c : C) → R c → S → Prop)
    (begins : S → α → Interaction C R α → S → Prop) (s₀ : S) (ts₀ : ι → Interaction C R α) :
    S → (ι → Interaction C R α) → Prop
  | start : Interleaved answers begins s₀ ts₀ s₀ ts₀
  | begins {s s' : S} {ts : ι → Interaction C R α} {t : Interaction C R α} {a : α} (i : ι) :
      Interleaved answers begins s₀ ts₀ s ts → ts i = ret a → begins s a t s' →
      Interleaved answers begins s₀ ts₀ s' (Function.update ts i t)
  | call {s s' : S} {ts : ι → Interaction C R α} {c : C} {k : R c → Interaction C R α} {x : R c}
      (i : ι) : Interleaved answers begins s₀ ts₀ s ts → ts i = .call c k → answers s c x s' →
      Interleaved answers begins s₀ ts₀ s' (Function.update ts i (k x))

/-- The invariant survives what is allowed. -/
structure Discipline.Guards (D : Discipline C R G) (Q : α → G → Prop)
    (answers : S → (c : C) → R c → S → Prop) (begins : S → α → Interaction C R α → S → Prop)
    (I : S → (ι → G) → Prop) : Prop where
  call : ∀ {s s' : S} {gs : ι → G} (i : ι) (c : C) (x : R c), I s gs → D.may (gs i) c →
    answers s c x s' → ∃ g, D.after (gs i) c x g ∧ I s' (Function.update gs i g)
  begins : ∀ {s s' : S} {gs : ι → G} (i : ι) (a : α) (t : Interaction C R α), I s gs →
    Q a (gs i) → begins s a t s' → ∃ g, t.Obeys D Q g ∧ I s' (Function.update gs i g)

/-- It holds at every moment, and all clients keep to the discipline. -/
theorem Interleaved.invariant {answers : S → (c : C) → R c → S → Prop}
    {begins : S → α → Interaction C R α → S → Prop} {D : Discipline C R G} {Q : α → G → Prop}
    {I : S → (ι → G) → Prop} (hguards : D.Guards Q answers begins I) {s₀ s : S}
    {ts₀ ts : ι → Interaction C R α} {gs₀ : ι → G} (hI : I s₀ gs₀)
    (hts : ∀ i, (ts₀ i).Obeys D Q (gs₀ i)) (h : Interleaved answers begins s₀ ts₀ s ts) :
    ∃ gs, I s gs ∧ ∀ i, (ts i).Obeys D Q (gs i) := by
  have hupdate : ∀ {ts : ι → Interaction C R α} {gs : ι → G} {t : Interaction C R α} {g : G}
      (i : ι), (∀ j, (ts j).Obeys D Q (gs j)) → t.Obeys D Q g →
      ∀ j, (Function.update ts i t j).Obeys D Q (Function.update gs i g j) := by
    intro ts gs t g i hall ht j
    rcases eq_or_ne j i with rfl | hne
    · simpa using ht
    · simpa [hne] using hall j
  induction h with
  | start => exact ⟨gs₀, hI, hts⟩
  | begins i _ hret hbegins ih =>
      obtain ⟨gs, hI, hall⟩ := ih
      have hQ := hall i
      rw [hret, obeys_ret] at hQ
      obtain ⟨g, ht, hI'⟩ := hguards.begins i _ _ hI hQ hbegins
      exact ⟨_, hI', hupdate i hall ht⟩
  | call i _ hcall hanswers ih =>
      obtain ⟨gs, hI, hall⟩ := ih
      have ht := hall i
      rw [hcall, obeys_call] at ht
      obtain ⟨g, hafter, hI'⟩ := hguards.call i _ _ hI ht.1 hanswers
      exact ⟨_, hI', hupdate i hall (ht.2 _ g hafter)⟩

end Interaction
