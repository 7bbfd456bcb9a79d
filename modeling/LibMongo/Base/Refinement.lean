import LibMongo.Base.Twins

/-!
# Refinement

A program on states `S` is compared with one on the simpler states `T`.  An `Abstraction`
says which of the states are compared, and what is seen of such a state.
`Refines F V m n` says that every run of `m` from such a state is one of `n`: the two halt
alike or return results related by `V`, what is seen of the state in which `m` ends is the
state in which `n` ends, and that state can be compared again.

There is one rule for each way to make a program, and one for a list of programs that run
one after the other (`Refines.mapM`).  `Total m` says that `m` returns from every state, and
has the same rules.
-/

namespace Program

variable {S T α β γ δ : Type}

/-- A run that is matched by one that returns. -/
theorem Matched.of_ok {V : α → β → Prop} {r : Except Halt α} {q : Except Halt β × T} {b : β} {t : T}
    (h : Matched V r q.1) (hq : q = (.ok b, t)) : ∃ a, r = .ok a ∧ V a b := by
  subst hq
  cases r with
  | ok a => exact ⟨a, rfl, h⟩
  | error e => cases h

theorem Matched.trans {V : α → β → Prop} {W : β → γ → Prop} {r : Except Halt α} {q : Except Halt β}
    {p : Except Halt γ} (h : Matched V r q) (h' : Matched W q p) :
    Matched (fun a c => ∃ b, V a b ∧ W b c) r p := by
  cases r with
  | ok a =>
      cases q with
      | error e => cases h
      | ok b =>
          cases p with
          | error e => cases h'
          | ok c => exact ⟨b, h, h'⟩
  | error e =>
      cases q with
      | ok b => cases h
      | error e' =>
          cases p with
          | ok c => cases h'
          | error e'' => exact Eq.trans h h'

/-- A result in another form. -/
theorem exec_map_ok {m : Program S α} {s s' : S} {a : α} (h : exec m s = (.ok a, s')) (f : α → β) :
    exec (f <$> m) s = (.ok (f a), s') := by
  rw [map_eq_pure_bind, exec_bind_ok h]
  rfl

/-- How a state `s` shows an abstract one: which states do, and what they show. -/
structure Abstraction (S T : Type) where
  valid : S → Prop
  view : S → T

/-- The run of `m` from `s` is one of `n`. -/
structure RefinesAt (F : Abstraction S T) (V : α → β → Prop) (m : Program S α) (n : Program T β)
    (s : S) : Prop where
  result : Matched V (exec m s).1 (exec n (F.view s)).1
  valid : F.valid (exec m s).2
  view : F.view (exec m s).2 = (exec n (F.view s)).2

/-- `RefinesAt` in every valid state. -/
def Refines (F : Abstraction S T) (V : α → β → Prop) (m : Program S α) (n : Program T β) : Prop :=
  ∀ s, F.valid s → RefinesAt F V m n s

section Rules

variable {F : Abstraction S T} {V : α → β → Prop} {W : γ → δ → Prop} {m : Program S α}
  {n : Program T β} {f : α → Program S γ} {g : β → Program T δ} {s : S}

theorem RefinesAt.mono {V' : α → β → Prop} (h : RefinesAt F V m n s)
    (hV : ∀ a b, V a b → V' a b) : RefinesAt F V' m n s :=
  ⟨h.result.mono hV, h.valid, h.view⟩

theorem Refines.mono {V' : α → β → Prop} (h : Refines F V m n) (hV : ∀ a b, V a b → V' a b) :
    Refines F V' m n := fun s hs => (h s hs).mono hV

/-- Runs of which the outcomes are known. -/
theorem RefinesAt.of_exec {a : α} {b : β} {s' : S} {t : T} (hm : exec m s = (.ok a, s'))
    (hn : exec n (F.view s) = (.ok b, t)) (hV : V a b) (hvalid : F.valid s') (hview : F.view s' = t) :
    RefinesAt F V m n s where
  result := by
    rw [hm, hn]
    exact hV
  valid := by rwa [hm]
  view := by rw [hm, hn, hview]

/-- The outcome of a run, from that of the run it refines. -/
theorem RefinesAt.run (h : RefinesAt F V m n s) {b : β} {t : T}
    (hn : Program.exec n (F.view s) = (.ok b, t)) :
    ∃ a s', Program.exec m s = (.ok a, s') ∧ V a b ∧ F.valid s' ∧ F.view s' = t := by
  obtain ⟨hresult, hvalid, hview⟩ := h
  obtain ⟨a, hrun, hab⟩ := Matched.of_ok hresult hn
  rw [hn] at hview
  exact ⟨a, _, exec_of_fst hrun rfl, hab, hvalid, hview⟩

theorem RefinesAt.pure {a : α} {b : β} (h : V a b) (hs : F.valid s) :
    RefinesAt F V (Pure.pure a : Program S α) (Pure.pure b) s :=
  ⟨h, hs, rfl⟩

theorem Refines.pure {a : α} {b : β} (h : V a b) :
    Refines F V (Pure.pure a : Program S α) (Pure.pure b) := fun _ => .pure h

theorem Refines.throw (e : Halt) : Refines F V (throw e : Program S α) (throw e) :=
  fun _ hs => ⟨rfl, hs, rfl⟩

/-- One program after another, from a state and for all related results. -/
theorem RefinesAt.bind (hm : RefinesAt F V m n s) (hf : ∀ a b, V a b → Refines F W (f a) (g b)) :
    RefinesAt F W (m >>= f) (n >>= g) s := by
  obtain ⟨hresult, hvalid, hview⟩ := hm
  cases hrun : exec m s with
  | mk r s' =>
      cases hrun' : exec n (F.view s) with
      | mk r' t =>
          rw [hrun] at hresult hvalid hview
          rw [hrun'] at hresult hview
          simp only at hresult hvalid hview
          cases r with
          | ok a =>
              cases r' with
              | error e => cases hresult
              | ok b =>
                  subst hview
                  obtain ⟨hresult', hvalid', hview'⟩ := hf a b hresult s' hvalid
                  constructor
                  · rwa [exec_bind_ok hrun, exec_bind_ok hrun']
                  · rwa [exec_bind_ok hrun]
                  · rwa [exec_bind_ok hrun, exec_bind_ok hrun']
          | error e =>
              cases r' with
              | ok b => cases hresult
              | error e' =>
                  constructor
                  · rwa [exec_bind_error hrun, exec_bind_error hrun']
                  · rwa [exec_bind_error hrun]
                  · rwa [exec_bind_error hrun, exec_bind_error hrun']

theorem Refines.bind (hm : Refines F V m n) (hf : ∀ a b, V a b → Refines F W (f a) (g b)) :
    Refines F W (m >>= f) (n >>= g) := fun s hs => (hm s hs).bind hf

/-- One program after another, where the runs of the first parts are known. -/
theorem RefinesAt.after {a : α} {b : β} {s' : S} (hm : exec m s = (.ok a, s'))
    (hn : exec n (F.view s) = (.ok b, F.view s')) (h : RefinesAt F W (f a) (g b) s') :
    RefinesAt F W (m >>= f) (n >>= g) s := by
  obtain ⟨hresult, hvalid, hview⟩ := h
  constructor
  · rwa [exec_bind_ok hm, exec_bind_ok hn]
  · rwa [exec_bind_ok hm]
  · rwa [exec_bind_ok hm, exec_bind_ok hn]

/-- One program after another, where the run of the first part is known and not seen. -/
theorem RefinesAt.after_silent {n : Program T δ} {a : α} {s' : S} (hm : exec m s = (.ok a, s'))
    (hview : F.view s' = F.view s) (h : RefinesAt F W (f a) n s') :
    RefinesAt F W (m >>= f) n s := by
  obtain ⟨hresult, hvalid, hview'⟩ := h
  rw [hview] at hresult hview'
  constructor
  · rwa [exec_bind_ok hm]
  · rwa [exec_bind_ok hm]
  · rwa [exec_bind_ok hm]

/-- One program after another, with the same results. -/
theorem Refines.bind_eq {n : Program T α} {g : α → Program T δ} (hm : Refines F Eq m n)
    (hf : ∀ a, Refines F W (f a) (g a)) : Refines F W (m >>= f) (n >>= g) := by
  refine hm.bind ?_
  rintro a _ rfl
  exact hf a

/-- Results in another form. -/
theorem Refines.map {f : α → γ} {g : β → δ} (hm : Refines F V m n)
    (hfg : ∀ a b, V a b → W (f a) (g b)) : Refines F W (f <$> m) (g <$> n) := by
  rw [map_eq_pure_bind, map_eq_pure_bind]
  exact hm.bind fun a b hab => .pure (hfg a b hab)

/-- A program that looks at the state goes on from the state it sees. -/
theorem Refines.get_bind {f : S → Program S γ} {g : T → Program T δ}
    (h : ∀ s, F.valid s → RefinesAt F W (f s) (g (F.view s)) s) :
    Refines F W ((get : Program S S) >>= f) ((get : Program T T) >>= g) := by
  intro s hs
  obtain ⟨hresult, hvalid, hview⟩ := h s hs
  constructor
  · rwa [exec_get_bind, exec_get_bind]
  · rwa [exec_get_bind]
  · rwa [exec_get_bind, exec_get_bind]

theorem Refines.modify {u : S → S} {v : T → T}
    (h : ∀ s, F.valid s → F.valid (u s) ∧ F.view (u s) = v (F.view s)) :
    Refines F Eq (modify u : Program S PUnit) (modify v) :=
  fun s hs => ⟨rfl, (h s hs).1, (h s hs).2⟩

theorem RefinesAt.ite {c c' : Prop} [Decidable c] [Decidable c'] (hc : c ↔ c')
    {m₁ m₂ : Program S α} {n₁ n₂ : Program T β} (h₁ : c → RefinesAt F V m₁ n₁ s)
    (h₂ : ¬ c → RefinesAt F V m₂ n₂ s) :
    RefinesAt F V (if c then m₁ else m₂) (if c' then n₁ else n₂) s := by
  by_cases h : c
  · rw [if_pos h, if_pos (hc.mp h)]
    exact h₁ h
  · rw [if_neg h, if_neg (fun h' => h (hc.mpr h'))]
    exact h₂ h

theorem Refines.ite {c : Prop} [Decidable c] {m₁ m₂ : Program S α} {n₁ n₂ : Program T β}
    (h₁ : c → Refines F V m₁ n₁) (h₂ : ¬ c → Refines F V m₂ n₂) :
    Refines F V (if c then m₁ else m₂) (if c then n₁ else n₂) := by
  by_cases h : c
  · rw [if_pos h, if_pos h]
    exact h₁ h
  · rw [if_neg h, if_neg h]
    exact h₂ h

/-- A list of programs, one after the other. -/
theorem Refines.mapM {ι : Type} {V : γ → δ → Prop} {p : ι → Program S γ} {q : ι → Program T δ}
    {xs : List ι} (h : ∀ x ∈ xs, Refines F V (p x) (q x)) :
    Refines F (List.Forall₂ V) (xs.mapM p) (xs.mapM q) := by
  induction xs with
  | nil =>
      rw [List.mapM_nil, List.mapM_nil]
      exact .pure .nil
  | cons x xs ih =>
      rw [List.mapM_cons, List.mapM_cons]
      refine (h x List.mem_cons_self).bind fun a b hab => ?_
      refine (ih fun y hy => h y (List.mem_cons_of_mem x hy)).bind fun as bs hrest => ?_
      exact .pure (.cons hab hrest)

end Rules

/-! ## Two levels -/

section Levels

variable {U : Type} {F : Abstraction S T} {G : Abstraction T U} {V : α → β → Prop} {W : β → γ → Prop}
  {m : Program S α} {n : Program T β} {k : Program U γ}

/-- What is seen of what is seen. -/
def Abstraction.comp (F : Abstraction S T) (G : Abstraction T U) : Abstraction S U where
  valid s := F.valid s ∧ G.valid (F.view s)
  view s := G.view (F.view s)

/-- A refinement of a refinement. -/
theorem Refines.trans (hm : Refines F V m n) (hn : Refines G W n k) :
    Refines (F.comp G) (fun a c => ∃ b, V a b ∧ W b c) m k := by
  rintro s ⟨hs, ht⟩
  obtain ⟨hresult, hvalid, hview⟩ := hm s hs
  obtain ⟨hresult', hvalid', hview'⟩ := hn (F.view s) ht
  rw [← hview] at hvalid' hview'
  exact ⟨hresult.trans hresult', ⟨hvalid, hvalid'⟩, hview'⟩

end Levels

/-! ## Programs that return -/

/-- The program returns from every state. -/
def Total (m : Program S α) : Prop := ∀ s, Returns m s

section Total

variable {m : Program S α} {f : α → Program S β}

theorem Total.pure (a : α) : Total (Pure.pure a : Program S α) := fun s => ⟨a, s, rfl⟩

theorem Total.bind (hm : Total m) (hf : ∀ a, Total (f a)) : Total (m >>= f) := by
  intro s
  obtain ⟨a, s', hrun⟩ := hm s
  obtain ⟨b, t, hrun'⟩ := hf a s'
  exact ⟨b, t, (exec_bind_ok hrun f).trans hrun'⟩

theorem Total.map (hm : Total m) (g : α → β) : Total (g <$> m) := by
  rw [map_eq_pure_bind]
  exact hm.bind fun a => .pure (g a)

theorem Total.get_bind {f : S → Program S β} (hf : ∀ s, Total (f s)) :
    Total ((get : Program S S) >>= f) := fun s => hf s s

theorem Total.modify_bind {u : S → S} {f : PUnit → Program S β} (hf : Total (f ⟨⟩)) :
    Total ((modify u : Program S PUnit) >>= f) := fun s => hf (u s)

theorem Total.ite {c : Prop} [Decidable c] {m₁ m₂ : Program S α} (h₁ : Total m₁) (h₂ : Total m₂) :
    Total (if c then m₁ else m₂) := by
  split
  · exact h₁
  · exact h₂

theorem Total.mapM {ι : Type} {p : ι → Program S α} (h : ∀ x, Total (p x)) (xs : List ι) :
    Total (xs.mapM p) := by
  induction xs with
  | nil => exact .pure []
  | cons x xs ih =>
      rw [List.mapM_cons]
      exact (h x).bind fun a => ih.bind fun as => .pure (a :: as)

end Total

end Program
