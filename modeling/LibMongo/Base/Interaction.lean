import LibMongo.Base.Program

/-!
# Interactions

An `Interaction C R α` is a program that calls the outside.  A call is a `c : C`, and its
answer an `R c`.  Nothing is said here of what the calls do, so that one program can be run
on different worlds.

* *Handlers.*  A handler is a program for each call, and `Interaction.run` runs an
  interaction with it.  The `exec` lemmas run the parts of an interaction one after the
  other.
* *Frames.*  `Calls P t` says that every call of `t` is a `P`.  What these calls keep is kept
  by every run of `t` (`run_keeps`).
-/

/-- A program that calls the outside. -/
inductive Interaction (C : Type) (R : C → Type) (α : Type) where
  | ret (a : α)
  | halt (e : Halt)
  | call (c : C) (k : R c → Interaction C R α)

namespace Interaction

variable {C : Type} {R : C → Type} {α β γ : Type}

/-! ## Sequencing -/

/-- One interaction after another. -/
protected def bind : Interaction C R α → (α → Interaction C R β) → Interaction C R β
  | ret a, f => f a
  | halt e, _ => halt e
  | call c k, f => call c fun x => (k x).bind f

instance : Monad (Interaction C R) where
  pure := ret
  bind := Interaction.bind

@[simp] theorem ret_bind (a : α) (f : α → Interaction C R β) : (ret a >>= f) = f a := rfl

@[simp] theorem halt_bind (e : Halt) (f : α → Interaction C R β) : (halt e >>= f) = halt e := rfl

@[simp] theorem call_bind (c : C) (k : R c → Interaction C R α) (f : α → Interaction C R β) :
    (call c k >>= f) = call c fun x => k x >>= f := rfl

@[simp] theorem pure_eq (a : α) : (pure a : Interaction C R α) = ret a := rfl

/-- Call the outside. -/
def perform (c : C) : Interaction C R (R c) := call c ret

@[simp] theorem perform_bind (c : C) (f : R c → Interaction C R α) :
    (perform c >>= f) = call c f := rfl

/-- A computation that reads memory. -/
def ofExcept : Except Halt α → Interaction C R α
  | .ok a => ret a
  | .error e => halt e

@[simp] theorem ofExcept_ok (a : α) : (ofExcept (.ok a) : Interaction C R α) = ret a := rfl

@[simp] theorem ofExcept_error (e : Halt) :
    (ofExcept (.error e) : Interaction C R α) = halt e := rfl

theorem bind_assoc (t : Interaction C R α) (f : α → Interaction C R β)
    (g : β → Interaction C R γ) : (t >>= f) >>= g = t >>= fun a => f a >>= g := by
  induction t with
  | ret a => rfl
  | halt e => rfl
  | call c k ih =>
      simp only [call_bind]
      congr 1
      funext x
      exact ih x

/-! ## Handlers -/

variable {S : Type}

/-- What the calls do to a state. -/
abbrev Handler (C : Type) (R : C → Type) (S : Type) := (c : C) → Program S (R c)

/-- The program an interaction is on a world. -/
def run (h : Handler C R S) : Interaction C R α → Program S α
  | ret a => pure a
  | halt e => throw e
  | call c k => h c >>= fun x => (k x).run h

section Run

open Program

variable {h : Handler C R S} {s s' : S}

@[simp] theorem exec_run_ret (a : α) : ((ret a : Interaction C R α).run h).exec s = (.ok a, s) := rfl

@[simp] theorem exec_run_halt (e : Halt) :
    ((halt e : Interaction C R α).run h).exec s = (.error e, s) := rfl

@[simp] theorem exec_run_perform (c : C) :
    ((perform c : Interaction C R (R c)).run h).exec s = (h c).exec s := by
  show (h c >>= pure).exec s = _
  rw [Program.exec_bind]
  rcases (h c).exec s with ⟨r, t⟩
  cases r with
  | ok a => rfl
  | error e => rfl

@[simp] theorem exec_run_ofExcept (x : Except Halt α) :
    ((ofExcept x : Interaction C R α).run h).exec s = (x, s) := by
  cases x <;> rfl

theorem exec_run_bind (t : Interaction C R α) (f : α → Interaction C R β) :
    ((t >>= f).run h).exec s = match (t.run h).exec s with
      | (.ok a, s') => ((f a).run h).exec s'
      | (.error e, s') => (.error e, s') := by
  induction t generalizing s with
  | ret a => rfl
  | halt e => rfl
  | call c k ih =>
      rw [call_bind]
      show (h c >>= fun x => (k x >>= f).run h).exec s = match (h c >>= fun x => (k x).run h).exec s with
        | (.ok a, s') => ((f a).run h).exec s'
        | (.error e, s') => (.error e, s')
      rw [Program.exec_bind, Program.exec_bind]
      rcases (h c).exec s with ⟨r, t⟩
      cases r with
      | ok x => exact ih x
      | error e => rfl

/-- An interaction whose first part is known. -/
theorem exec_run_bind_ok {t : Interaction C R α} {a : α} (ht : (t.run h).exec s = (.ok a, s'))
    (f : α → Interaction C R β) : ((t >>= f).run h).exec s = ((f a).run h).exec s' := by
  rw [exec_run_bind, ht]

/-- A sequence returns when its parts do, one after the other. -/
theorem exec_run_bind_eq_ok {t : Interaction C R α} {f : α → Interaction C R β} {b : β} {u : S} :
    ((t >>= f).run h).exec s = (.ok b, u) ↔
      ∃ a s', (t.run h).exec s = (.ok a, s') ∧ ((f a).run h).exec s' = (.ok b, u) := by
  rw [exec_run_bind]
  rcases (t.run h).exec s with ⟨r, s'⟩
  cases r with
  | ok a =>
      constructor
      · intro hf
        exact ⟨a, s', rfl, hf⟩
      · rintro ⟨a', u', ht, hf⟩
        cases ht
        exact hf
  | error e => simp

end Run

/-! ## Frames -/

/-- Every call is a `P`, whatever the answers are. -/
def Calls (P : C → Prop) : Interaction C R α → Prop
  | ret _ => True
  | halt _ => True
  | call c k => P c ∧ ∀ x, (k x).Calls P

section Calls

variable {P : C → Prop}

theorem Calls.bind {t : Interaction C R α} {f : α → Interaction C R β} (ht : t.Calls P)
    (hf : ∀ a, (f a).Calls P) : (t >>= f).Calls P := by
  induction t with
  | ret a => exact hf a
  | halt e => trivial
  | call c k ih => exact ⟨ht.1, fun x => ih x (ht.2 x)⟩

theorem calls_perform {c : C} (hc : P c) : (perform c : Interaction C R (R c)).Calls P :=
  ⟨hc, fun _ => trivial⟩

theorem calls_ofExcept (x : Except Halt α) : (ofExcept x : Interaction C R α).Calls P := by
  cases x <;> trivial

/-- Without a call a run leaves the state as it is. -/
theorem exec_run_silent {h : Handler C R S} {t : Interaction C R α} (ht : t.Calls fun _ => False)
    {s s' : S} {r : Except Halt α} (hexec : (t.run h).exec s = (r, s')) : s' = s := by
  cases t with
  | ret a =>
      cases hexec
      rfl
  | halt e =>
      cases hexec
      rfl
  | call c k => exact ht.1.elim

/-- What the calls keep is kept by a run. -/
theorem run_keeps {h : Handler C R S} {Q : S → S → Prop} (hQ : Program.Frame Q)
    (hh : ∀ c, P c → Program.Keeps Q (h c)) {t : Interaction C R α} (ht : t.Calls P) :
    Program.Keeps Q (t.run h) := by
  induction t with
  | ret a => exact Program.Keeps.pure hQ a
  | halt e => exact Program.Keeps.throw hQ e
  | call c k ih => exact Program.Keeps.bind hQ (hh c ht.1) fun x => ih x (ht.2 x)

end Calls

end Interaction
