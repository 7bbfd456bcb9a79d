import LibMongo.Base.Program

/-!
# Two runs

Two programs that are started in related states, such as one program on two hosts.  A
`TwinFrame` says which states are related, which steps of the first run are steady, and that
runs only add to what is seen of them.  `TwinsAt V m m'` says of two programs that a steady
run of the first is matched by one of the second: the states stay related, and the results
are related by `V`.  Of a run that is not steady it says nothing.

There is one rule for each way to make a program.  `Twins.bind` is the rule for a result that
the second run sees in another form, and `TwinsAt.bind_of` the one for any relation.
-/

namespace Program

variable {S α β : Type}

/-- What related runs have in common. -/
structure TwinFrame (S : Type) where
  twin : S → S → Prop
  /-- Every state has a twin. -/
  total : ∀ s, ∃ s', twin s s'
  grows : S → S → Prop
  frame : Frame grows
  steady : S → S → Prop
  /-- The parts of a steady run are steady. -/
  split : ∀ {s t u}, grows s t → grows t u → steady s u → steady s t ∧ steady t u

/-- Both return, with related results, or both halt in the same way. -/
def Matched (V : α → β → Prop) : Except Halt α → Except Halt β → Prop
  | .ok a, .ok b => V a b
  | .error e, .error e' => e = e'
  | _, _ => False

theorem Matched.mono {V W : α → β → Prop} {r : Except Halt α} {r' : Except Halt β}
    (h : Matched V r r') (hVW : ∀ a b, V a b → W a b) : Matched W r r' := by
  cases r with
  | ok a =>
      cases r' with
      | ok b => exact hVW a b h
      | error e => cases h
  | error e =>
      cases r' with
      | ok b => cases h
      | error e' => exact h

/-- A steady run of the first program is matched by the second. -/
structure TwinsAt (F : TwinFrame S) (V : α → β → Prop) (m : Program S α) (m' : Program S β)
    (s s' : S) : Prop where
  grows : F.grows s (exec m s).2
  same : F.steady s (exec m s).2 →
    F.twin (exec m s).2 (exec m' s').2 ∧ Matched V (exec m s).1 (exec m' s').1

/-- From all twins. -/
def Twins (F : TwinFrame S) (V : α → β → Prop) (m : Program S α) (m' : Program S β) : Prop :=
  ∀ s s', F.twin s s' → TwinsAt F V m m' s s'

section Rules

variable {F : TwinFrame S} {α' β' : Type} {V : α → α' → Prop} {W : β → β' → Prop}
  {m : Program S α} {m' : Program S α'} {f : α → Program S β} {f' : α' → Program S β'} {s s' : S}

theorem TwinsAt.mono {V' : α → α' → Prop} (h : TwinsAt F V m m' s s')
    (hV : ∀ a a', V a a' → V' a a') : TwinsAt F V' m m' s s' where
  grows := h.grows
  same hsteady := ⟨(h.same hsteady).1, (h.same hsteady).2.mono hV⟩

theorem Twins.mono {V' : α → α' → Prop} (h : Twins F V m m') (hV : ∀ a a', V a a' → V' a a') :
    Twins F V' m m' := fun s s' hs => (h s s' hs).mono hV

/-- The runs of the first program only add. -/
theorem Twins.grows (h : Twins F V m m') (s : S) : F.grows s (exec m s).2 := by
  obtain ⟨s', hs⟩ := F.total s
  exact (h s s' hs).grows

theorem Twins.keeps (h : Twins F V m m') : Keeps F.grows m := by
  intro s
  have hgrows := h.grows s
  refine wp_of_exec (fun a t ht => ?_) (fun e t ht => ?_)
  · rw [ht] at hgrows
    exact hgrows
  · rw [ht] at hgrows
    exact hgrows

theorem Twins.pure {a : α} {a' : α'} (h : V a a') :
    Twins F V (Pure.pure a : Program S α) (Pure.pure a') := fun s _ hs =>
  ⟨F.frame.refl s, fun _ => ⟨hs, h⟩⟩

theorem Twins.throw (e : Halt) : Twins F V (throw e : Program S α) (throw e) := fun s _ hs =>
  ⟨F.frame.refl s, fun _ => ⟨hs, rfl⟩⟩

theorem Twins.ofExcept {x : Except Halt α} {x' : Except Halt α'} (h : Matched V x x') :
    Twins F V (ofExcept x) (ofExcept x') := fun s _ hs =>
  ⟨F.frame.refl s, fun _ => ⟨hs, h⟩⟩

/-- One program after another, if the second parts are related for related results. -/
theorem TwinsAt.bind_of (hm : TwinsAt F V m m' s s') (hgrows : ∀ a, Keeps F.grows (f a))
    (hf : ∀ a a', V a a' → Twins F W (f a) (f' a')) : TwinsAt F W (m >>= f) (m' >>= f') s s' := by
  have hfirst := hm.grows
  have hsame := hm.same
  cases hrun : exec m s with
  | mk r t =>
      rw [hrun] at hfirst hsame
      cases r with
      | error e =>
          have hexec := exec_bind_error hrun f
          refine ⟨by rw [hexec]; exact hfirst, ?_⟩
          rw [hexec]
          intro hsteady
          obtain ⟨htwin, hmatched⟩ := hsame hsteady
          cases hrun' : exec m' s' with
          | mk r' t' =>
              rw [hrun'] at htwin hmatched
              cases r' with
              | ok a' => cases hmatched
              | error e' =>
                  rw [exec_bind_error hrun' f']
                  exact ⟨htwin, hmatched⟩
      | ok a =>
          have hexec := exec_bind_ok hrun f
          have hsecond := (hgrows a).exec t
          refine ⟨by rw [hexec]; exact F.frame.trans hfirst hsecond, ?_⟩
          rw [hexec]
          intro hsteady
          obtain ⟨hsteady₁, hsteady₂⟩ := F.split hfirst hsecond hsteady
          obtain ⟨htwin, hmatched⟩ := hsame hsteady₁
          cases hrun' : exec m' s' with
          | mk r' t' =>
              rw [hrun'] at htwin hmatched
              cases r' with
              | error e' => cases hmatched
              | ok a' =>
                  rw [exec_bind_ok hrun' f']
                  exact (hf a a' hmatched t t' htwin).same hsteady₂

theorem Twins.bind_of (hm : Twins F V m m') (hgrows : ∀ a, Keeps F.grows (f a))
    (hf : ∀ a a', V a a' → Twins F W (f a) (f' a')) : Twins F W (m >>= f) (m' >>= f') :=
  fun s s' hs => (hm s s' hs).bind_of hgrows hf

/-- One program after another, where the second run sees the first result as `φ` says. -/
theorem TwinsAt.bind {φ : α → α'} (hm : TwinsAt F (fun a a' => a' = φ a) m m' s s')
    (hf : ∀ a, Twins F W (f a) (f' (φ a))) : TwinsAt F W (m >>= f) (m' >>= f') s s' := by
  refine hm.bind_of (fun a => (hf a).keeps) ?_
  rintro a _ rfl
  exact hf a

theorem Twins.bind {φ : α → α'} (hm : Twins F (fun a a' => a' = φ a) m m')
    (hf : ∀ a, Twins F W (f a) (f' (φ a))) : Twins F W (m >>= f) (m' >>= f') :=
  fun s s' hs => (hm s s' hs).bind hf

/-- A program that looks at the state goes on from the state it sees. -/
theorem TwinsAt.get_bind {g : S → Program S β} {g' : S → Program S β'}
    (h : TwinsAt F W (g s) (g' s') s s') :
    TwinsAt F W ((get : Program S S) >>= g) ((get : Program S S) >>= g') s s' where
  grows := by
    rw [exec_get_bind]
    exact h.grows
  same hsteady := by
    rw [exec_get_bind] at hsteady
    rw [exec_get_bind, exec_get_bind]
    exact h.same hsteady

theorem Twins.get_bind {g : S → Program S β} {g' : S → Program S β'}
    (h : ∀ s s', F.twin s s' → TwinsAt F W (g s) (g' s') s s') :
    Twins F W ((get : Program S S) >>= g) ((get : Program S S) >>= g') :=
  fun s s' hs => (h s s' hs).get_bind

theorem Twins.modify {g g' : S → S} (hgrows : ∀ s, F.grows s (g s))
    (h : ∀ s s', F.twin s s' → F.twin (g s) (g' s')) :
    Twins F (fun a a' => a' = a) (modify g : Program S PUnit) (modify g') := fun s s' hs =>
  ⟨hgrows s, fun _ => ⟨h s s' hs, rfl⟩⟩

theorem Twins.ite {c c' : Prop} [Decidable c] [Decidable c'] {m₁ m₂ : Program S α}
    {m₁' m₂' : Program S α'} (hc : c ↔ c') (h₁ : c → Twins F V m₁ m₁')
    (h₂ : ¬ c → Twins F V m₂ m₂') :
    Twins F V (if c then m₁ else m₂) (if c' then m₁' else m₂') := by
  by_cases h : c
  · rw [if_pos h, if_pos (hc.mp h)]
    exact h₁ h
  · rw [if_neg h, if_neg (fun h' => h (hc.mpr h'))]
    exact h₂ h

/-- Of a run that is never steady there is nothing to show. -/
theorem Twins.never (hgrows : Keeps F.grows m) (hnever : ∀ s, ¬ F.steady s (exec m s).2) :
    Twins F V m m' := fun s _ _ =>
  ⟨hgrows.exec s, fun hsteady => absurd hsteady (hnever s)⟩

/-- Nor if its first part is never steady. -/
theorem Twins.never_bind {m'' : Program S β'} (hgrows : Keeps F.grows m)
    (hf : ∀ a, Keeps F.grows (f a)) (hnever : ∀ s, ¬ F.steady s (exec m s).2) :
    Twins F W (m >>= f) m'' := by
  refine .never (.bind F.frame hgrows hf) fun s hsteady => ?_
  have hfirst := hgrows.exec s
  cases hrun : exec m s with
  | mk r t =>
      have hnot := hnever s
      rw [hrun] at hfirst hnot
      cases r with
      | error e =>
          rw [exec_bind_error hrun f] at hsteady
          exact hnot hsteady
      | ok a =>
          rw [exec_bind_ok hrun f] at hsteady
          exact hnot (F.split hfirst ((hf a).exec t) hsteady).1

end Rules

end Program
