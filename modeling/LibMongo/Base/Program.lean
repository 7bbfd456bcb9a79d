import Mathlib.Tactic.Common

/-!
# Programs

A program that leaves its blocks of memory, or that never stops, has no
result.  `Halt` tells the two apart, and `Except Halt` is the type of a
computation that reads memory.

`Program S` is the type of the programs that also work on a state.  A program
that halts still leaves the state it halted in, so what is said of the states
of a run holds up to the point where the run breaks off.

* *Running.*  `exec` runs a program, and the `exec` lemmas run its parts one
  after the other.
* *Assertions.*  `wp m Q E s` says that `m`, started in `s`, ends in `Q` if it
  returns and in `E` if it halts.  There is one rule for each way to make a
  program.
* *Frames.*  `Keeps R m` says that every run of `m` relates the state before
  and the state after by `R`.  For a preorder this carries over from the parts
  of a program to the whole.
-/

/-- Why a program has no result. -/
inductive Halt where
  /-- It reads outside the block it holds a pointer to. -/
  | outside
  /-- It never returns. -/
  | endless
deriving DecidableEq, Repr

/-- Programs that work on a state and may halt. -/
abbrev Program (S α : Type) := ExceptT Halt (StateM S) α

namespace Program

/-! ## Sequencing -/

@[simp] theorem ok_bind {ε α β : Type} (a : α) (f : α → Except ε β) :
    (Except.ok a >>= f) = f a := rfl

@[simp] theorem error_bind {ε α β : Type} (e : ε) (f : α → Except ε β) :
    ((Except.error e : Except ε α) >>= f) = .error e := rfl

/-- A sequence has a result when its parts have. -/
theorem bind_eq_ok {ε α β : Type} {x : Except ε α} {f : α → Except ε β} {b : β} :
    (x >>= f) = .ok b ↔ ∃ a, x = .ok a ∧ f a = .ok b := by
  cases x with
  | ok a => simp
  | error e => simp

/-- A sequence breaks off in one of its parts. -/
theorem bind_eq_error {ε α β : Type} {x : Except ε α} {f : α → Except ε β} {e : ε}
    (h : (x >>= f) = .error e) : x = .error e ∨ ∃ a, x = .ok a ∧ f a = .error e := by
  cases x with
  | ok a => exact .inr ⟨a, rfl, h⟩
  | error e' =>
      cases h
      exact .inl rfl

variable {S α β : Type}

/-- A computation that does not look at the state. -/
def ofExcept (x : Except Halt α) : Program S α := ExceptT.mk (pure x)

/-! ## Running -/

/-- The result and the state in which a program ends. -/
def exec (m : Program S α) (s : S) : Except Halt α × S := (ExceptT.run m).run s

@[simp] theorem exec_pure (a : α) (s : S) : exec (pure a : Program S α) s = (.ok a, s) := rfl

@[simp] theorem exec_get (s : S) : exec (get : Program S S) s = (.ok s, s) := rfl

@[simp] theorem exec_set (s s' : S) : exec (set s' : Program S PUnit) s = (.ok ⟨⟩, s') := rfl

@[simp] theorem exec_modify (f : S → S) (s : S) :
    exec (modify f : Program S PUnit) s = (.ok ⟨⟩, f s) := rfl

@[simp] theorem exec_throw (e : Halt) (s : S) :
    exec (throw e : Program S α) s = (.error e, s) := rfl

@[simp] theorem exec_ofExcept (x : Except Halt α) (s : S) :
    exec (ofExcept x : Program S α) s = (x, s) := rfl

theorem exec_bind (m : Program S α) (f : α → Program S β) (s : S) :
    exec (m >>= f) s = match exec m s with
      | (.ok a, s') => exec (f a) s'
      | (.error e, s') => (.error e, s') := by
  show (ExceptT.bindCont f (exec m s).1).run (exec m s).2 = _
  cases hm : exec m s with
  | mk r s' =>
      cases r with
      | ok a => rfl
      | error e => rfl

/-- A program whose first part is known. -/
theorem exec_bind_ok {m : Program S α} {s s' : S} {a : α} (h : exec m s = (.ok a, s'))
    (f : α → Program S β) : exec (m >>= f) s = exec (f a) s' := by
  rw [exec_bind, h]

theorem exec_bind_error {m : Program S α} {s s' : S} {e : Halt} (h : exec m s = (.error e, s'))
    (f : α → Program S β) : exec (m >>= f) s = (.error e, s') := by
  rw [exec_bind, h]

/-- Giving the result another form leaves the state. -/
theorem exec_bind_pure_state (m : Program S α) (f : α → β) (s : S) :
    (exec (m >>= fun a => pure (f a)) s).2 = (exec m s).2 := by
  cases hrun : exec m s with
  | mk r t =>
      cases r with
      | ok a =>
          rw [exec_bind_ok hrun]
          rfl
      | error e => rw [exec_bind_error hrun]

@[simp] theorem exec_pure_bind (a : α) (f : α → Program S β) (s : S) :
    exec ((pure a : Program S α) >>= f) s = exec (f a) s := exec_bind_ok rfl f

@[simp] theorem exec_get_bind (f : S → Program S β) (s : S) :
    exec ((get : Program S S) >>= f) s = exec (f s) s := exec_bind_ok rfl f

@[simp] theorem exec_set_bind (s s' : S) (f : PUnit → Program S β) :
    exec ((set s' : Program S PUnit) >>= f) s = exec (f ⟨⟩) s' := exec_bind_ok rfl f

@[simp] theorem exec_modify_bind (g : S → S) (f : PUnit → Program S β) (s : S) :
    exec ((modify g : Program S PUnit) >>= f) s = exec (f ⟨⟩) (g s) := exec_bind_ok rfl f

/-- Two first parts that run alike. -/
theorem exec_bind_congr {m m' : Program S α} {s s' : S} (h : exec m s = exec m' s')
    (f : α → Program S β) : exec (m >>= f) s = exec (m' >>= f) s' := by
  rw [exec_bind, exec_bind, h]

/-- Memory that can be read. -/
theorem exec_ofExcept_bind {x : Except Halt α} {a : α} (h : x = .ok a) (f : α → Program S β)
    (s : S) : exec (ofExcept x >>= f) s = exec (f a) s := by
  rw [h]
  rfl

/-- A sequence returns when its parts do, one after the other. -/
theorem exec_bind_eq_ok {m : Program S α} {f : α → Program S β} {s t : S} {b : β} :
    exec (m >>= f) s = (.ok b, t) ↔ ∃ a u, exec m s = (.ok a, u) ∧ exec (f a) u = (.ok b, t) := by
  rw [exec_bind]
  cases hm : exec m s with
  | mk r u =>
      cases r with
      | ok a =>
          constructor
          · intro h
            exact ⟨a, u, rfl, h⟩
          · rintro ⟨a', u', h, hf⟩
            cases h
            exact hf
      | error e => simp

/-- The state in which a program returns. -/
theorem exec_of_fst {m : Program S α} {s s' : S} {a : α} (h : (exec m s).1 = .ok a)
    (h' : (exec m s).2 = s') : exec m s = (.ok a, s') := Prod.ext h h'

/-- The program returns. -/
def Returns (m : Program S α) (s : S) : Prop := ∃ a s', exec m s = (.ok a, s')

/-! ## Assertions -/

/-- Started in `s`, the program ends in `Q` if it returns and in `E` if it halts. -/
def wp (m : Program S α) (Q : α → S → Prop) (E : S → Prop) (s : S) : Prop :=
  match exec m s with
  | (.ok a, s') => Q a s'
  | (.error _, s') => E s'

section Rules

variable {m : Program S α} {Q Q' : α → S → Prop} {E E' : S → Prop} {s s' : S}

@[simp] theorem wp_pure (a : α) : wp (pure a : Program S α) Q E s ↔ Q a s := Iff.rfl

@[simp] theorem wp_get {Q : S → S → Prop} : wp (get : Program S S) Q E s ↔ Q s s := Iff.rfl

@[simp] theorem wp_set {Q : PUnit → S → Prop} :
    wp (set s' : Program S PUnit) Q E s ↔ Q ⟨⟩ s' := Iff.rfl

@[simp] theorem wp_modify {Q : PUnit → S → Prop} (f : S → S) :
    wp (modify f : Program S PUnit) Q E s ↔ Q ⟨⟩ (f s) := Iff.rfl

@[simp] theorem wp_throw (e : Halt) : wp (throw e : Program S α) Q E s ↔ E s := Iff.rfl

/-- Reading memory ends in the same state. -/
theorem wp_ofExcept {x : Except Halt α} (hok : ∀ a, x = .ok a → Q a s)
    (herr : ∀ e, x = .error e → E s) : wp (ofExcept x) Q E s := by
  cases x with
  | ok a => exact hok a rfl
  | error e => exact herr e rfl

@[simp] theorem wp_bind {f : α → Program S β} {Q : β → S → Prop} :
    wp (m >>= f) Q E s ↔ wp m (fun a => wp (f a) Q E) E s := by
  unfold wp
  rw [exec_bind]
  cases exec m s with
  | mk r s' =>
      cases r with
      | ok a => rfl
      | error e => rfl

theorem wp_ite {c : Prop} [Decidable c] {m₁ m₂ : Program S α} (ht : c → wp m₁ Q E s)
    (hf : ¬ c → wp m₂ Q E s) : wp (if c then m₁ else m₂) Q E s := by
  by_cases hc : c
  · rw [if_pos hc]
    exact ht hc
  · rw [if_neg hc]
    exact hf hc

/-- Weaker assertions. -/
theorem wp_mono (h : wp m Q E s) (hQ : ∀ a s', Q a s' → Q' a s') (hE : ∀ s', E s' → E' s') :
    wp m Q' E' s := by
  unfold wp at h ⊢
  cases hm : exec m s with
  | mk r s' =>
      rw [hm] at h
      cases r with
      | ok a => exact hQ a s' h
      | error e => exact hE s' h

/-- Two assertions about one run. -/
theorem wp_and (h : wp m Q E s) (h' : wp m Q' E' s) :
    wp m (fun a s' => Q a s' ∧ Q' a s') (fun s' => E s' ∧ E' s') s := by
  unfold wp at h h' ⊢
  cases hm : exec m s with
  | mk r s' =>
      rw [hm] at h h'
      cases r with
      | ok a => exact ⟨h, h'⟩
      | error e => exact ⟨h, h'⟩

/-- What an assertion says of a run that returns. -/
theorem wp_ok {a : α} (h : wp m Q E s) (hm : exec m s = (.ok a, s')) : Q a s' := by
  unfold wp at h
  rwa [hm] at h

/-- What it says of a run that halts. -/
theorem wp_error {e : Halt} (h : wp m Q E s) (hm : exec m s = (.error e, s')) : E s' := by
  unfold wp at h
  rwa [hm] at h

/-- What is known of the run itself may be used. -/
theorem wp_of_exec (hQ : ∀ a s', exec m s = (.ok a, s') → Q a s')
    (hE : ∀ e s', exec m s = (.error e, s') → E s') : wp m Q E s := by
  unfold wp
  cases hm : exec m s with
  | mk r s' =>
      cases r with
      | ok a => exact hQ a s' hm
      | error e => exact hE e s' hm

/-- A condition may be put in front of what is asserted. -/
theorem wp_imp {P : Prop} (h : P → wp m Q E s) :
    wp m (fun a s' => P → Q a s') (fun s' => P → E s') s :=
  wp_of_exec (fun _ _ hm hP => wp_ok (h hP) hm) (fun _ _ hm hP => wp_error (h hP) hm)

end Rules

/-! ## Frames -/

/-- A relation that carries over from step to step. -/
structure Frame (R : S → S → Prop) : Prop where
  refl : ∀ s, R s s
  trans : ∀ {s t u}, R s t → R t u → R s u

/-- Every run relates the state before and the state after. -/
def Keeps (R : S → S → Prop) (m : Program S α) : Prop := ∀ s, wp m (fun _ => R s) (R s) s

section Frames

variable {R : S → S → Prop} {m : Program S α}

theorem Keeps.pure (hR : Frame R) (a : α) : Keeps R (Pure.pure a : Program S α) :=
  fun s => hR.refl s

theorem Keeps.throw (hR : Frame R) (e : Halt) : Keeps R (throw e : Program S α) :=
  fun s => hR.refl s

theorem Keeps.get (hR : Frame R) : Keeps R (MonadState.get : Program S S) :=
  fun s => hR.refl s

theorem Keeps.ofExcept (hR : Frame R) (x : Except Halt α) : Keeps R (ofExcept x : Program S α) :=
  fun s => wp_ofExcept (fun _ _ => hR.refl s) (fun _ _ => hR.refl s)

theorem Keeps.modify {f : S → S} (h : ∀ s, R s (f s)) :
    Keeps R (modify f : Program S PUnit) := h

theorem Keeps.bind (hR : Frame R) {f : α → Program S β} (hm : Keeps R m)
    (hf : ∀ a, Keeps R (f a)) : Keeps R (m >>= f) := by
  intro s
  rw [wp_bind]
  refine wp_mono (hm s) (fun a t hst => ?_) (fun _ h => h)
  exact wp_mono (hf a t) (fun _ _ => hR.trans hst) (fun _ => hR.trans hst)

/-- A program that looks at the state goes on from the state it sees. -/
theorem Keeps.get_bind {f : S → Program S β} (hf : ∀ s, wp (f s) (fun _ => R s) (R s) s) :
    Keeps R ((MonadState.get : Program S S) >>= f) := by
  intro s
  rw [wp_bind]
  exact hf s

theorem Keeps.ite {c : Prop} [Decidable c] {m₁ m₂ : Program S α} (h₁ : Keeps R m₁)
    (h₂ : Keeps R m₂) : Keeps R (if c then m₁ else m₂) :=
  fun s => wp_ite (fun _ => h₁ s) (fun _ => h₂ s)

theorem Keeps.mono {R' : S → S → Prop} (h : Keeps R m) (hR : ∀ s t, R s t → R' s t) :
    Keeps R' m :=
  fun s => wp_mono (h s) (fun _ => hR s) (hR s)

/-- The state in which a program ends. -/
theorem Keeps.exec (h : Keeps R m) (s : S) : R s (Program.exec m s).2 := by
  have hs := h s
  unfold wp at hs
  cases hrun : Program.exec m s with
  | mk r t =>
      rw [hrun] at hs
      cases r with
      | ok a => exact hs
      | error e => exact hs

/-! ### Runs that halt -/

/-- Every run relates the state before and the state after by `R` if it returns, and by
`E` if it halts. -/
def KeepsUpTo (R E : S → S → Prop) (m : Program S α) : Prop :=
  ∀ s, wp m (fun _ => R s) (E s) s

/-- What is known of the runs that return carries over to those that halt. -/
structure Halts (R E : S → S → Prop) : Prop where
  frame : Frame R
  halt : ∀ {s t}, R s t → E s t
  trans : ∀ {s t u}, R s t → E t u → E s u

theorem Frame.halts (hR : Frame R) : Halts R R := ⟨hR, id, hR.trans⟩

/-- Nothing need be known of the runs that halt. -/
theorem Frame.returning (hR : Frame R) : Halts R fun _ _ => True :=
  ⟨hR, fun _ => trivial, fun _ _ => trivial⟩

variable {E : S → S → Prop}

theorem Keeps.upTo (h : Keeps R m) (hE : Halts R E) : KeepsUpTo R E m :=
  fun s => wp_mono (h s) (fun _ _ ht => ht) (fun _ ht => hE.halt ht)

theorem KeepsUpTo.pure (hE : Halts R E) (a : α) : KeepsUpTo R E (Pure.pure a : Program S α) :=
  fun s => hE.frame.refl s

theorem KeepsUpTo.bind (hE : Halts R E) {f : α → Program S β} (hm : KeepsUpTo R E m)
    (hf : ∀ a, KeepsUpTo R E (f a)) : KeepsUpTo R E (m >>= f) := by
  intro s
  rw [wp_bind]
  refine wp_mono (hm s) (fun a t hst => ?_) (fun _ h => h)
  exact wp_mono (hf a t) (fun _ _ => hE.frame.trans hst) (fun _ => hE.trans hst)

theorem KeepsUpTo.get_bind {f : S → Program S β} (hf : ∀ s, wp (f s) (fun _ => R s) (E s) s) :
    KeepsUpTo R E ((MonadState.get : Program S S) >>= f) := by
  intro s
  rw [wp_bind]
  exact hf s

theorem KeepsUpTo.ite {c : Prop} [Decidable c] {m₁ m₂ : Program S α} (h₁ : KeepsUpTo R E m₁)
    (h₂ : KeepsUpTo R E m₂) : KeepsUpTo R E (if c then m₁ else m₂) :=
  fun s => wp_ite (fun _ => h₁ s) (fun _ => h₂ s)

/-- Going on after a step that is known to keep the relation. -/
theorem KeepsUpTo.after (hE : Halts R E) {s t : S} (hst : R s t)
    (h : wp m (fun _ => R t) (E t) t) : wp m (fun _ => R s) (E s) t :=
  wp_mono h (fun _ _ => hE.frame.trans hst) (fun _ => hE.trans hst)

/-- Going on after a step that is known to keep the relation. -/
theorem wp_trans (hR : Frame R) {s t : S} (hst : R s t) (h : wp m (fun _ => R t) (R t) t) :
    wp m (fun _ => R s) (R s) t :=
  wp_mono h (fun _ _ => hR.trans hst) (fun _ => hR.trans hst)

end Frames

end Program
