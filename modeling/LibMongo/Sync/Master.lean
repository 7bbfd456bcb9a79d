import LibMongo.Sync.Session

/-!
# Which socket a write goes to

A write forces a master: before its packet is sent, and before it is sent again
after a failure, the connection must be on a socket that answered `isMaster`
with true.

`mongo_sync_reconnect` can break this in two ways.  It returns the connection it
was given even if the call of itself returned `NULL`, and then the connection
still has its old socket.  And when it authenticates again it may find the new
socket dead, which starts another reconnection, one that asks for no master.
`Event.Astray` is the event of either.  Up to there every write goes to a
master (`writes_reach_master`).
-/

namespace LibMongo

open Bytes Program

variable {σ : Type} (N : Net σ)

/-! ## Going astray -/

/-- A reconnection that asks for a master loses the result of the call of itself, or one
that asks for none changes the socket. -/
def Event.Astray : Event → Prop
  | .replace true none => True
  | .replace false (some _) => True
  | _ => False

/-- Whether the events include one of those. -/
def Astray (es : List Event) : Prop := ∃ e ∈ es, e.Astray

/-- The socket answered that it is a master, if nothing went astray. -/
def Reached (fd : Int) (es : List Event) : Prop := Astray es ∨ .isMaster fd ∈ es

theorem Astray.append_left {es : List Event} (h : Astray es) (es' : List Event) :
    Astray (es' ++ es) := by
  obtain ⟨e, he, ha⟩ := h
  exact ⟨e, List.mem_append_right _ he, ha⟩

theorem Astray.append_right {es : List Event} (h : Astray es) (es' : List Event) :
    Astray (es ++ es') := by
  obtain ⟨e, he, ha⟩ := h
  exact ⟨e, List.mem_append_left _ he, ha⟩

theorem Reached.append_left {fd : Int} {es : List Event} (h : Reached fd es) (es' : List Event) :
    Reached fd (es' ++ es) :=
  h.imp (fun ha => ha.append_left es') (List.mem_append_right _)

theorem Reached.append_right {fd : Int} {es : List Event} (h : Reached fd es)
    (es' : List Event) : Reached fd (es ++ es') :=
  h.imp (fun ha => ha.append_right es') (List.mem_append_left _)

/-! ## The events between two states -/

namespace World.Since

variable {u v w : World σ} {P Q : List Event → Prop}

theorem nil (h : P []) : w.Since w P := ⟨[], by simp, h⟩

theorem mono (h : v.Since w P) (hPQ : ∀ es, P es → Q es) : v.Since w Q := by
  obtain ⟨es, hes, hP⟩ := h
  exact ⟨es, hes, hPQ es hP⟩

theorem and (h : v.Since w P) (h' : v.Since w Q) : v.Since w fun es => P es ∧ Q es := by
  obtain ⟨es, hes, hP⟩ := h
  obtain ⟨es', hes', hQ⟩ := h'
  have : es = es' := List.append_cancel_left (hes.symm.trans hes')
  subst this
  exact ⟨es, hes, hP, hQ⟩

theorem append {R : List Event → Prop} (h : u.Since v P) (h' : v.Since w Q)
    (hR : ∀ es es', P es → Q es' → R (es ++ es')) : u.Since w R := by
  obtain ⟨es, hes, hP⟩ := h
  obtain ⟨es', hes', hQ⟩ := h'
  exact ⟨es ++ es', by rw [hes', hes, List.append_assoc], hR es es' hP hQ⟩

end World.Since

/-- The socket is the one from before or one that is a master. -/
def World.Anchored (w w' : World σ) : Prop :=
  w.Since w' fun es => Reached w'.conn.fd es ∨ w'.conn.fd = w.conn.fd

/-- The socket is a master. -/
def World.Mastered (w w' : World σ) : Prop := w.Since w' (Reached w'.conn.fd)

theorem World.Mastered.trans {u v w : World σ} (h : u.Mastered v) (h' : v.Anchored w) :
    u.Mastered w := by
  refine h.append h' (fun es es' hP hQ => ?_)
  rcases hQ with hreached | hfd
  · exact hreached.append_left es
  · rw [hfd]
    exact hP.append_right es'

theorem World.Anchored.frame : Frame (World.Anchored (σ := σ)) where
  refl w := .nil (.inr rfl)
  trans {u v w} h h' := by
    refine h.append h' (fun es es' hP hQ => ?_)
    rcases hQ with hreached | hfd
    · exact .inl (hreached.append_left es)
    · rw [hfd]
      exact hP.imp (fun hreached => hreached.append_right es') id

theorem World.Anchored.mastered {u v w : World σ} (h : u.Anchored v) (h' : v.Mastered w) :
    u.Mastered w :=
  World.Since.append h h' fun es _ _ hQ => hQ.append_left es

theorem World.Mastered.anchored {w w' : World σ} (h : w.Mastered w') : w.Anchored w' :=
  World.Since.mono h fun _ => .inl

theorem World.Polls.anchored {o : ByteOrder} {w w' : World σ} (h : w.Polls o w') :
    w.Anchored w' := by
  obtain ⟨es, hes, -⟩ := h.log
  exact ⟨es, hes, .inr h.fd⟩

/-! ## Asking for a master -/

/-- A node that says it is a master is one. -/
theorem mongoSyncCmdIsMaster_mastered (w : World σ) :
    wp (mongoSyncCmdIsMaster N) (fun ok w' => ok = true → w.Mastered w') (fun _ => True) w := by
  have hfalse : ∀ u : World σ, false = true → w.Mastered u := fun _ h => by cases h
  unfold mongoSyncCmdIsMaster
  rw [wp_bind]
  refine wp_mono (mongoSyncCmdCustomBare_polls N _ _ w) (fun p u hu => ?_) (fun _ _ => trivial)
  cases p with
  | none => exact hfalse u
  | some p =>
      show wp (readOrErrno _ >>= _) _ _ _
      rw [wp_bind]
      refine wp_mono (readOrErrno_still _ u) (fun res v hv => ?_) (fun _ _ => trivial)
      cases res with
      | none => exact hfalse v
      | some res =>
          show wp (Program.ofExcept _ >>= _) _ _ _
          rw [wp_bind]
          refine wp_ofExcept (fun ismaster _ => ?_) (fun _ _ => trivial)
          cases ismaster with
          | none => exact hfalse _
          | some b =>
              show wp (Program.ofExcept _ >>= _) _ _ _
              rw [wp_bind]
              refine wp_ofExcept (fun primary _ => ?_) (fun _ _ => trivial)
              rw [wp_bind]
              refine wp_ofExcept (fun hosts _ => ?_) (fun _ _ => trivial)
              rw [wp_bind, storeReplicaSet, wp_setConn, wp_bind, wp_setErrno]
              refine wp_ite (fun _ => hfalse _) (fun _ _ => ?_)
              obtain ⟨es, hes, -⟩ := (World.Polls.frame _).trans hu (hv.polls N.order) |>.log
              refine ⟨es ++ [.isMaster v.conn.fd], ?_, .inr ?_⟩
              · show v.log ++ [.isMaster v.conn.fd] = _
                rw [hes, List.append_assoc]
              · exact List.mem_append_right _ (List.mem_singleton.mpr rfl)

section Reconnecting

variable {reconnect : Bool → Program (World σ) Bool}
  (hanchored : ∀ force, Keeps World.Anchored (reconnect force))
  (hmastered : ∀ w, wp (reconnect true) (fun ok w' => ok = true → w.Mastered w') (fun _ => True) w)

/-- What a call of `mongo_sync_reconnect` gives if it returns a connection. -/
def Adopted (force : Bool) : World σ → World σ → Prop :=
  if force then World.Mastered else World.Anchored

theorem Adopted.anchored {force : Bool} {w w' : World σ} (h : Adopted force w w') :
    w.Anchored w' := by
  cases force with
  | false => exact h
  | true => exact World.Mastered.anchored h

theorem Adopted.trans {force : Bool} {u v w : World σ} (h : u.Anchored v)
    (h' : Adopted force v w) : Adopted force u w := by
  cases force with
  | false => exact World.Anchored.frame.trans h h'
  | true => exact h.mastered h'

theorem Adopted.then {force : Bool} {u v w : World σ} (h : Adopted force u v)
    (h' : v.Anchored w) : Adopted force u w := by
  cases force with
  | false => exact World.Anchored.frame.trans h h'
  | true => exact World.Mastered.trans h h'

theorem World.Opens.anchored {w w' : World σ} {c : Option MongoSyncConnection} (h : w.Opens c w') :
    w.Anchored w' := by
  obtain ⟨es, hlog, -⟩ := h.log
  exact ⟨es, hlog, .inr (by rw [h.conn])⟩

include hanchored hmastered

theorem adopt_adopted {force : Bool} {nc : MongoSyncConnection} {w : World σ} :
    wp (adopt N reconnect force nc) (fun _ => Adopted force w) w.Anchored w := by
  have hF := World.Anchored.frame (σ := σ)
  have hnested : wp (reconnect force)
      (fun ok w' => World.Anchored { w with conn := nc } w' ∧
        (force = true → ok = true → World.Mastered { w with conn := nc } w'))
      (World.Anchored { w with conn := nc }) { w with conn := nc } := by
    cases force with
    | false => exact wp_mono (hanchored false _) (fun _ _ h => ⟨h, fun h => by cases h⟩) fun _ h => h
    | true =>
        exact wp_mono (wp_and (hanchored true _) (hmastered _)) (fun _ _ h => ⟨h.1, fun _ => h.2⟩)
          (fun _ h => h.1)
  -- authenticating again may move on, but only to a master or astray
  have hauth : ∀ x : World σ, Adopted force w x →
      wp (reauthenticate N reconnect) (fun _ => Adopted force w) w.Anchored x := by
    intro x hx
    have hkept : ∀ u ds (auth : AuthCredentials) n, x.Anchored u →
        x.Anchored { u with
          log := u.log ++ ds
          conn := { u.conn with auth := auth, stored := n } } := by
      rintro u ds auth n ⟨es, hes, hreached⟩
      refine ⟨es ++ ds, by rw [hes, List.append_assoc], hreached.imp (fun h => ?_) id⟩
      exact h.append_right ds
    refine wp_mono (reauthenticate_wp (TalkRule.custom N (.of_polls N hF fun _ _ h => h.anchored)
      hF.halts (hanchored _))
      (fun u ds hu _ => hkept u ds u.conn.auth u.conn.stored hu)
      fun u ds auth hu _ _ => hkept u ds auth _ hu) (fun _ y hy => hx.then hy)
      (fun y hy => hF.trans hx.anchored hy)
  refine wp_adopt N reconnect (wp_mono hnested (fun ok u hu => ?_) (fun u hu => ?_))
  · refine hauth _ ?_
    obtain ⟨⟨es, hes, -⟩, hmaster⟩ := hu
    have hlog : ∀ es', u.log ++ es' = w.log ++ (es ++ es') := by
      intro es'
      rw [hes, List.append_assoc]
    cases ok with
    | false =>
        -- the result is lost, and the connection keeps its socket
        cases force with
        | false => exact ⟨_, hlog _, .inr rfl⟩
        | true =>
            refine ⟨_, hlog _, .inl ⟨.replace true none, ?_, trivial⟩⟩
            exact List.mem_append_right _ (List.mem_singleton.mpr rfl)
    | true =>
        have hreached : ∀ es', Reached u.conn.fd (es ++ .replace force (some u.conn.fd) :: es') := by
          intro es'
          cases force with
          | false =>
              refine .inl ⟨.replace false (some u.conn.fd), ?_, trivial⟩
              exact List.mem_append_right _ List.mem_cons_self
          | true =>
              obtain ⟨es₁, hes₁, hreached⟩ := hmaster rfl rfl
              have heq : es = es₁ := List.append_cancel_left (hes.symm.trans hes₁)
              subst heq
              exact hreached.append_right _
        have hadopted : ∀ x : World σ, x.conn.fd = u.conn.fd →
            (∃ es', x.log = u.log ++ .replace force (some u.conn.fd) :: es') → Adopted force w x := by
          rintro x hfd ⟨es', hx⟩
          have hmastered : w.Mastered x := ⟨_, hx.trans (hlog _), hfd ▸ hreached es'⟩
          cases force with
          | false => exact hmastered.anchored
          | true => exact hmastered
        rw [afterReplace, if_pos rfl]
        split
        · exact hadopted _ rfl ⟨_, rfl⟩
        · exact hadopted _ rfl ⟨_, rfl⟩
  · obtain ⟨es, hes, -⟩ := hu
    exact ⟨es, hes, .inr rfl⟩

theorem reconnectRule_adopted (force : Bool) :
    ReconnectRule N reconnect force World.Anchored (Adopted force) World.Anchored where
  talk := .of_polls N World.Anchored.frame fun _ _ h => h.anchored
  halts := World.Anchored.frame.halts
  trans h h' := h'.trans h
  answer := by
    refine ReconnectRule.answer_of N (.of_polls N World.Anchored.frame fun _ _ h => h.anchored)
      Adopted.trans (fun hforce w => ?_) (fun hforce w => ?_)
    · subst hforce
      exact wp_mono (mongoSyncCmdPing_polls N w) (fun _ _ h _ => h.anchored) (fun _ _ => trivial)
    · subst hforce
      exact mongoSyncCmdIsMaster_mastered N w
  refresh _ := (mongoSyncCmdIsMaster_polls N).mono fun _ _ h => h.anchored
  candidate addr w := by
    refine wp_mono (connectAddr_opens N addr w) (fun c u hu => ?_) (fun _ h => h.elim)
    cases c with
    | none => exact hu.anchored
    | some nc =>
        exact wp_mono (adopt_adopted N hanchored hmastered) (fun _ _ h => .trans hu.anchored h)
          (fun _ h => World.Anchored.frame.trans hu.anchored h)

end Reconnecting

/-- Reconnecting ends on a master, if one is asked for and nothing goes astray. -/
theorem mongoSyncReconnect_adopted (fuel : Nat) (force : Bool) (w : World σ) :
    wp (mongoSyncReconnect N fuel force)
      (fun ok w' => w.Anchored w' ∧ (ok = true → Adopted force w w')) w.Anchored w := by
  induction fuel generalizing force w with
  | zero => exact World.Anchored.frame.refl w
  | succ fuel ih =>
      have hrule := reconnectRule_adopted N
        (fun force w => wp_mono (ih force w) (fun _ _ h => h.1) (fun _ h => h))
        (fun w => wp_mono (ih true w) (fun _ _ h => h.2) (fun _ _ => trivial)) force
      refine wp_mono (hrule.call N w) (fun ok _ h => ?_) (fun _ h => h)
      cases ok with
      | false => exact ⟨h, fun hno => by cases hno⟩
      | true => exact ⟨Adopted.anchored h, fun _ => h⟩

end LibMongo
