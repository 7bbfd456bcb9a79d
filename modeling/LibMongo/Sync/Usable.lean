import LibMongo.Sync.Master
import LibMongo.Wire.Reply

/-!
# What a reconnection is worth

If `mongo_sync_reconnect` returns a connection, its socket should have answered
in this call, and no other socket that was opened on the way should be left
open.

Three things can go wrong.  The call that `mongo_sync_reconnect` makes of itself
may return `NULL`: `_mongo_sync_connect_replace` then does nothing, the candidate
is forgotten with its socket open, and the connection is returned all the same.
If a master was asked for, the authentication at the end may move on to a node
that was not asked.  And a socket with the descriptor 0 is never closed.

`World.Course` collects what holds of every run that returns.  From it follows
that nothing else can go wrong (`reconnect_usable_iff`).
-/

namespace LibMongo

open Bytes Program

variable {σ : Type} (N : Net σ)

/-! ## Sockets that stay open -/

/-- The socket is opened and not closed afterwards. -/
def StaysOpen (fd : Int) (es : List Event) : Prop :=
  ∃ pre host port post, es = pre ++ .connect fd host port :: post ∧ .close fd ∉ post

/-- The result of a nested call is lost. -/
def Lost (es : List Event) : Prop := ∃ force, .replace force none ∈ es

/-- A socket is replaced by one whose descriptor is not 0. -/
def Replaces (es : List Event) : Prop := ∃ force fd, fd ≠ 0 ∧ .replace force (some fd) ∈ es

/-- A socket with the descriptor 0 is opened, and replaced afterwards. -/
def LeavesZero (es : List Event) : Prop :=
  ∃ pre host port post, es = pre ++ .connect 0 host port :: post ∧ Replaces post

theorem StaysOpen.append_left {fd : Int} {es : List Event} (h : StaysOpen fd es)
    (es' : List Event) : StaysOpen fd (es' ++ es) := by
  obtain ⟨pre, host, port, post, rfl, hclose⟩ := h
  exact ⟨es' ++ pre, host, port, post, by simp, hclose⟩

theorem StaysOpen.append_right {fd : Int} {es es' : List Event} (h : StaysOpen fd es)
    (hclose' : .close fd ∉ es') : StaysOpen fd (es ++ es') := by
  obtain ⟨pre, host, port, post, rfl, hclose⟩ := h
  refine ⟨pre, host, port, post ++ es', by simp, fun hmem => ?_⟩
  rcases List.mem_append.mp hmem with hmem | hmem
  · exact hclose hmem
  · exact hclose' hmem

/-- A socket that stays open is opened at the end or is not closed there. -/
theorem StaysOpen.of_append {fd : Int} {es es' : List Event} (h : StaysOpen fd (es ++ es')) :
    StaysOpen fd es' ∨ StaysOpen fd es ∧ .close fd ∉ es' := by
  obtain ⟨pre, host, port, post, heq, hclose⟩ := h
  rcases List.append_eq_append_iff.mp heq with ⟨mid, rfl, htail⟩ | ⟨mid, rfl, htail⟩
  · exact .inl ⟨mid, host, port, post, htail, hclose⟩
  · cases mid with
    | nil => exact .inl ⟨[], host, port, post, htail.symm, hclose⟩
    | cons e mid =>
        rw [List.cons_append, List.cons.injEq] at htail
        obtain ⟨rfl, rfl⟩ := htail
        rw [List.mem_append, not_or] at hclose
        exact .inr ⟨⟨pre, host, port, mid, rfl, hclose.1⟩, hclose.2⟩

theorem StaysOpen.connect {fd : Int} {es : List Event} (h : StaysOpen fd es) :
    ∃ host port, .connect fd host port ∈ es := by
  obtain ⟨pre, host, port, post, rfl, -⟩ := h
  exact ⟨host, port, by simp⟩

theorem Lost.append_left {es : List Event} (h : Lost es) (es' : List Event) : Lost (es' ++ es) := by
  obtain ⟨force, hmem⟩ := h
  exact ⟨force, List.mem_append_right _ hmem⟩

theorem Lost.append_right {es : List Event} (h : Lost es) (es' : List Event) :
    Lost (es ++ es') := by
  obtain ⟨force, hmem⟩ := h
  exact ⟨force, List.mem_append_left _ hmem⟩

theorem Lost.of_append {es es' : List Event} (h : Lost (es ++ es')) : Lost es ∨ Lost es' := by
  obtain ⟨force, hmem⟩ := h
  exact (List.mem_append.mp hmem).imp (fun h => ⟨force, h⟩) (fun h => ⟨force, h⟩)

theorem Replaces.append_left {es : List Event} (h : Replaces es) (es' : List Event) :
    Replaces (es' ++ es) := by
  obtain ⟨force, fd, hfd, hmem⟩ := h
  exact ⟨force, fd, hfd, List.mem_append_right _ hmem⟩

theorem Replaces.append_right {es : List Event} (h : Replaces es) (es' : List Event) :
    Replaces (es ++ es') := by
  obtain ⟨force, fd, hfd, hmem⟩ := h
  exact ⟨force, fd, hfd, List.mem_append_left _ hmem⟩

theorem LeavesZero.append_left {es : List Event} (h : LeavesZero es) (es' : List Event) :
    LeavesZero (es' ++ es) := by
  obtain ⟨pre, host, port, post, rfl, hmoves⟩ := h
  exact ⟨es' ++ pre, host, port, post, by simp, hmoves⟩

theorem LeavesZero.append_right {es : List Event} (h : LeavesZero es) (es' : List Event) :
    LeavesZero (es ++ es') := by
  obtain ⟨pre, host, port, post, rfl, hmoves⟩ := h
  exact ⟨pre, host, port, post ++ es', by simp, hmoves.append_right es'⟩

/-- A socket with the descriptor 0 that stays open and is replaced later. -/
theorem StaysOpen.leavesZero {es es' : List Event} (h : StaysOpen 0 es) (h' : Replaces es') :
    LeavesZero (es ++ es') := by
  obtain ⟨pre, host, port, post, rfl, -⟩ := h
  exact ⟨pre, host, port, post ++ es', by simp, h'.append_left post⟩

/-! ## The course of a run -/

/-- What holds of a run that returns, if the descriptor it starts with is in use. -/
structure World.Course (w w' : World σ) (es : List Event) : Prop where
  named : w'.conn.fd < w'.nextFd
  nextFd_le : w.nextFd ≤ w'.nextFd
  fd : w'.conn.fd = w.conn.fd ∨ (w.nextFd : Int) ≤ w'.conn.fd ∧ ∃ force fd,
    .replace force (some fd) ∈ es
  connects : ∀ fd host port, .connect fd host port ∈ es → (w.nextFd : Int) ≤ fd ∧ fd < w'.nextFd
  masters : ∀ fd : Int, .isMaster fd ∈ es → fd < w'.nextFd
  closes : ∀ fd, .close fd ∈ es → fd ≠ 0 ∧ (fd = w.conn.fd ∨ (w.nextFd : Int) ≤ fd)
  /-- Descriptors are given out in order. -/
  moved : ¬ Lost es → ∀ force fd, .replace force (some fd) ∈ es →
    0 ≤ fd ∧ fd ≤ w'.conn.fd ∧ (w.nextFd : Int) ≤ w'.conn.fd
  pinged : Lost es ∨ .ping w'.conn.fd ∈ es ∨ w'.conn.fd = w.conn.fd
  left : Lost es ∨ w'.conn.fd = w.conn.fd ∨ .close w.conn.fd ∈ es ∨ w.conn.fd = 0 ∧ Replaces es
  tidy : Lost es ∨ ∀ fd, StaysOpen fd es → fd = w'.conn.fd ∨ fd = 0 ∧ LeavesZero es
  leaks : Lost es → ∃ fd, StaysOpen fd es ∧ fd ≠ w'.conn.fd ∧ fd < w'.nextFd

namespace World.Course

variable {u v w : World σ} {es es' : List Event}

/-- The sockets left open by two runs. -/
theorem append_tidy (h : u.Course v es) (h' : v.Course w es') :
    Lost (es ++ es') ∨ ∀ fd, StaysOpen fd (es ++ es') →
      fd = w.conn.fd ∨ fd = 0 ∧ LeavesZero (es ++ es') := by
  rcases h.tidy with hlost | htidy
  · exact .inl (hlost.append_right es')
  rcases h'.tidy with hlost | htidy'
  · exact .inl (hlost.append_left es)
  rcases h'.left with hlost | hleft
  · exact .inl (hlost.append_left es)
  refine .inr fun fd hopen => ?_
  rcases hopen.of_append with hopen | ⟨hopen, hclose⟩
  · rcases htidy' fd hopen with hheld | ⟨hzero, hleaves⟩
    · exact .inl hheld
    · exact .inr ⟨hzero, hleaves.append_left es⟩
  · rcases htidy fd hopen with hheld | ⟨hzero, hleaves⟩
    · rcases hleft with hsame | hclosed | ⟨hzero, hreplaces⟩
      · exact .inl (hheld.trans hsame.symm)
      · rw [hheld] at hclose
        exact (hclose hclosed).elim
      · have hfd : fd = 0 := hheld.trans hzero
        subst hfd
        exact .inr ⟨rfl, hopen.leavesZero hreplaces⟩
    · exact .inr ⟨hzero, hleaves.append_right es'⟩

/-- A socket that leaks in one of two runs. -/
theorem append_leaks (h : u.Course v es) (h' : v.Course w es') (hlost : Lost (es ++ es')) :
    ∃ fd, StaysOpen fd (es ++ es') ∧ fd ≠ w.conn.fd ∧ fd < w.nextFd := by
  have hle := h'.nextFd_le
  rcases hlost.of_append with hlost | hlost
  · obtain ⟨fd, hopen, hheld, hold⟩ := h.leaks hlost
    have hclose : .close fd ∉ es' := by
      intro hmem
      have := h'.closes fd hmem
      omega
    have := h'.fd
    exact ⟨fd, hopen.append_right hclose, by omega, by omega⟩
  · obtain ⟨fd, hopen, hheld, hold⟩ := h'.leaks hlost
    exact ⟨fd, hopen.append_left es, hheld, hold⟩

theorem append (h : u.Course v es) (h' : v.Course w es') : u.Course w (es ++ es') where
  named := h'.named
  nextFd_le := h.nextFd_le.trans h'.nextFd_le
  fd := by
    have hle := h.nextFd_le
    rcases h'.fd with hsame | ⟨hnew, force, fd, hmem⟩
    · rw [hsame]
      rcases h.fd with hsame | ⟨hnew, force, fd, hmem⟩
      · exact .inl hsame
      · exact .inr ⟨hnew, force, fd, List.mem_append_left _ hmem⟩
    · exact .inr ⟨by omega, force, fd, List.mem_append_right _ hmem⟩
  connects fd host port hmem := by
    have hle := h.nextFd_le
    have hle' := h'.nextFd_le
    rcases List.mem_append.mp hmem with hmem | hmem
    · have := h.connects fd host port hmem
      omega
    · have := h'.connects fd host port hmem
      omega
  masters fd hmem := by
    have hle' := h'.nextFd_le
    rcases List.mem_append.mp hmem with hmem | hmem
    · have := h.masters fd hmem
      omega
    · exact h'.masters fd hmem
  closes fd hmem := by
    have hle := h.nextFd_le
    have hfd := h.fd
    rcases List.mem_append.mp hmem with hmem | hmem
    · exact h.closes fd hmem
    · have := h'.closes fd hmem
      omega
  moved hlost force fd hmem := by
    have hle := h.nextFd_le
    have hnamed := h.named
    have hfd := h'.fd
    have hnew := h.moved (fun hl => hlost (hl.append_right es')) force fd
    have hnew' := h'.moved (fun hl => hlost (hl.append_left es)) force fd
    rcases List.mem_append.mp hmem with hmem | hmem
    · have := hnew hmem
      omega
    · have := hnew' hmem
      omega
  pinged := by
    rcases h'.pinged with hlost | hping | hsame
    · exact .inl (hlost.append_left es)
    · exact .inr (.inl (List.mem_append_right _ hping))
    · rw [hsame]
      rcases h.pinged with hlost | hping | hsame
      · exact .inl (hlost.append_right es')
      · exact .inr (.inl (List.mem_append_left _ hping))
      · exact .inr (.inr hsame)
  left := by
    rcases h.left with hlost | hsame | hclosed | ⟨hzero, hreplaces⟩
    · exact .inl (hlost.append_right es')
    · rcases h'.left with hlost | hsame' | hclosed | ⟨hzero, hreplaces⟩
      · exact .inl (hlost.append_left es)
      · exact .inr (.inl (hsame'.trans hsame))
      · rw [hsame] at hclosed
        exact .inr (.inr (.inl (List.mem_append_right _ hclosed)))
      · exact .inr (.inr (.inr ⟨hsame.symm.trans hzero, hreplaces.append_left es⟩))
    · exact .inr (.inr (.inl (List.mem_append_left _ hclosed)))
    · exact .inr (.inr (.inr ⟨hzero, hreplaces.append_right es'⟩))
  tidy := h.append_tidy h'
  leaks := h.append_leaks h'

end World.Course

/-! ## Runs that stay on their socket -/

/-- An event on the socket. -/
def Event.Idle (fd : Int) : Event → Prop
  | .connect .. => False
  | .close _ => False
  | .replace .. => False
  | .isMaster fd' => fd' = fd
  | _ => True

theorem Event.Polls.idle {o : ByteOrder} {fd : Int} {e : Event} (h : e.Polls o fd) : e.Idle fd := by
  cases e with
  | isMaster fd' => exact h
  | send fd' p count => trivial
  | ping fd' => trivial
  | connect => exact h
  | close => exact h
  | replace => exact h
  | dangling => trivial

/-- No socket is replaced. -/
structure World.Tries (w w' : World σ) : Prop where
  fd : w'.conn.fd = w.conn.fd
  nextFd_le : w.nextFd ≤ w'.nextFd
  log : w.Since w' fun es => ∀ e ∈ es, e.Idle w.conn.fd

theorem World.Tries.frame : Frame (World.Tries (σ := σ)) where
  refl w := ⟨rfl, Nat.le_refl _, .nil (by simp)⟩
  trans {u v w} h h' := by
    refine ⟨h'.fd.trans h.fd, h.nextFd_le.trans h'.nextFd_le, ?_⟩
    refine h.log.append h'.log fun es es' hes hes' e he => ?_
    rcases List.mem_append.mp he with he | he
    · exact hes e he
    · rw [← h.fd]
      exact hes' e he

theorem World.Polls.tries {o : ByteOrder} {w w' : World σ} (h : w.Polls o w') : w.Tries w' :=
  ⟨h.fd, Nat.le_of_eq h.nextFd.symm, World.Since.mono h.log fun _ hes e he => (hes e he).idle⟩

theorem World.Opens.tries {w w' : World σ} (h : w.Opens none w') : w.Tries w' :=
  ⟨by rw [h.conn], h.nextFd_le, [], by rw [h.failed rfl, List.append_nil], by simp⟩

/-- A run without such events. -/
theorem World.Tries.course {w w' : World σ} (h : w.Tries w') (hw : w.conn.fd < w.nextFd) :
    w.Since w' (w.Course w') := by
  have hle := h.nextFd_le
  have hfd := h.fd
  refine World.Since.mono h.log fun es hes => ?_
  have hlost : ¬ Lost es := fun ⟨_, hmem⟩ => hes _ hmem
  exact {
    named := by omega
    nextFd_le := hle
    fd := .inl hfd
    connects := fun fd host port hmem => (hes _ hmem).elim
    masters := fun fd hmem => by
      have hsame : fd = w.conn.fd := hes _ hmem
      omega
    closes := fun fd hmem => (hes _ hmem).elim
    moved := fun _ force fd hmem => (hes _ hmem).elim
    pinged := .inr (.inr hfd)
    left := .inr (.inl hfd)
    tidy := .inr fun fd hopen => by
      obtain ⟨host, port, hmem⟩ := hopen.connect
      exact (hes _ hmem).elim
    leaks := fun h => (hlost h).elim }

/-! ## Functions that may reconnect -/

/-- The run has such a course. -/
def World.Runs (w w' : World σ) : Prop := w.conn.fd < w.nextFd → w.Since w' (w.Course w')

theorem World.Runs.frame : Frame (World.Runs (σ := σ)) where
  refl w hw := (World.Tries.frame.refl w).course hw
  trans h h' hw := by
    obtain ⟨es, hlog, hes⟩ := h hw
    obtain ⟨es', hlog', hes'⟩ := h' hes.named
    exact ⟨es ++ es', by rw [hlog', hlog, List.append_assoc], hes.append hes'⟩

theorem talkRule_runs : TalkRule N World.Runs :=
  .of_polls N World.Runs.frame fun _ _ h => h.tries.course

/-- Reading freed strings and storing credentials is of no account. -/
theorem World.Runs.store {w u : World σ} {ds : List Event} {auth : AuthCredentials} {n : Nat}
    (h : w.Runs u) (hds : ∀ d ∈ ds, d = Event.dangling) :
    w.Runs { u with log := u.log ++ ds, conn := { u.conn with auth := auth, stored := n } } := by
  refine World.Runs.frame.trans h (World.Tries.course ⟨rfl, Nat.le_refl _, ds, rfl, ?_⟩)
  intro d hd
  rw [hds d hd]
  trivial

section Reconnecting

variable {reconnect : Bool → Program (World σ) Bool}

theorem reauthenticate_runs
    (hreconnect : KeepsUpTo World.Runs (fun _ _ => True) (reconnect false)) (w : World σ) :
    wp (reauthenticate N reconnect) (fun _ => w.Runs) (fun _ => True) w :=
  reauthenticate_wp ((talkRule_runs N).custom N World.Runs.frame.returning hreconnect)
    (fun _ _ hu hds => hu.store hds) (fun _ _ _ hu hds _ => hu.store hds)

end Reconnecting

/-! ## Adopting a candidate -/

/-- What is known of a run that ends on a socket that answered. -/
structure World.Answers (w w' : World σ) (es : List Event) : Prop extends w.Course w' es where
  answered : Lost es ∨ .ping w'.conn.fd ∈ es

theorem World.Answers.append {u v w : World σ} {es es' : List Event} (h : u.Answers v es)
    (h' : v.Course w es') : u.Answers w (es ++ es') where
  toCourse := h.toCourse.append h'
  answered := by
    rcases h'.pinged with hlost | hping | hsame
    · exact .inl (hlost.append_left es)
    · exact .inr (List.mem_append_right _ hping)
    · rw [hsame]
      exact h.answered.imp (fun hlost => hlost.append_right es') (List.mem_append_left _)

section Adopting

variable {w x u : World σ} {host : CString} {port : Int} {es : List Event} {force : Bool}
  {nc : MongoSyncConnection} (hw : w.conn.fd < w.nextFd) (hnc : nc.fd = w.nextFd)
include hw hnc

/-- The nested call returns `NULL`, and the new socket leaks. -/
theorem World.Tries.lost (hle : w.nextFd + 1 ≤ u.nextFd) (hes : ∀ e ∈ es, e.Idle nc.fd)
    (hfd : x.conn.fd = w.conn.fd) (hnext : x.nextFd = u.nextFd) :
    w.Answers x (.connect nc.fd host port :: (es ++ [.replace force none])) := by
  have hlost : Lost (.connect nc.fd host port :: (es ++ [.replace force none])) :=
    ⟨force, by simp⟩
  have hmem : ∀ {e : Event}, e ∈ Event.connect nc.fd host port :: (es ++ [.replace force none]) →
      e = .connect nc.fd host port ∨ e ∈ es ∨ e = .replace force none := by
    intro e he
    simpa using he
  refine ⟨⟨by omega, by omega, .inl hfd, fun fd host' port' he => ?_, fun fd he => ?_,
    fun fd he => ?_, fun h => (h hlost).elim, .inl hlost, .inl hlost, .inl hlost, fun _ => ?_⟩,
    .inl hlost⟩
  · rcases hmem he with heq | he | heq
    · cases heq
      omega
    · exact (hes _ he).elim
    · cases heq
  · rcases hmem he with heq | he | heq
    · cases heq
    · have hsame : fd = nc.fd := hes _ he
      omega
    · cases heq
  · rcases hmem he with heq | he | heq
    · cases heq
    · exact (hes _ he).elim
    · cases heq
  · refine ⟨nc.fd, ⟨[], host, port, _, rfl, fun he => ?_⟩, by omega, by omega⟩
    rcases List.mem_append.mp he with he | he
    · exact hes _ he
    · simp at he

/-! The nested call returns a connection, and its socket replaces the old one, which is closed
unless its descriptor is 0. -/

variable {y : World σ} {closed : List Event} (hyfd : y.conn.fd = nc.fd)
  (hy : y.nextFd = w.nextFd + 1) (h : y.Answers u es) (hfd : x.conn.fd = u.conn.fd)
  (hnext : x.nextFd = u.nextFd)
  (hclosed : w.conn.fd ≠ 0 ∧ closed = [.close w.conn.fd] ∨ w.conn.fd = 0 ∧ closed = [])

omit hw hnc in
include hclosed in
/-- The events of such a replacement. -/
theorem mem_replaced {e : Event} {fd : Int}
    (he : e ∈ Event.connect fd host port :: (es ++ .replace force (some u.conn.fd) :: closed)) :
    e = .connect fd host port ∨ e ∈ es ∨ e = .replace force (some u.conn.fd) ∨
      e = .close w.conn.fd ∧ w.conn.fd ≠ 0 := by
  rcases hclosed with ⟨hne, rfl⟩ | ⟨-, rfl⟩
  · simpa [hne] using he
  · have hevent : e = .connect fd host port ∨ e ∈ es ∨ e = .replace force (some u.conn.fd) := by
      simpa using he
    tauto

omit hw hnc in
include hclosed in
/-- It loses what the nested call loses. -/
theorem lost_replaced_iff {fd : Int} :
    Lost (.connect fd host port :: (es ++ .replace force (some u.conn.fd) :: closed))
      ↔ Lost es := by
  constructor
  · rintro ⟨f, he⟩
    rcases mem_replaced hclosed he with heq | he | heq | ⟨heq, -⟩
    · cases heq
    · exact ⟨f, he⟩
    · cases heq
    · cases heq
  · exact fun hlost => (hlost.append_right _).append_left [_]

include hyfd h hfd hclosed

omit hw hnc in
/-- The new socket is held, or was closed or left in the nested call. -/
theorem World.Answers.replaced_tidy (hlost : ¬ Lost es) {fd : Int}
    (hopen : StaysOpen fd
      (.connect nc.fd host port :: (es ++ .replace force (some u.conn.fd) :: closed))) :
    fd = x.conn.fd ∨ fd = 0 ∧
      LeavesZero (.connect nc.fd host port :: (es ++ .replace force (some u.conn.fd) :: closed)) := by
  have htidy := h.tidy.resolve_left hlost
  have hleft := h.left.resolve_left hlost
  rw [← List.cons_append] at hopen
  rcases hopen.of_append with hopen | ⟨hopen, -⟩
  · obtain ⟨host', port', he⟩ := hopen.connect
    rcases hclosed with ⟨-, rfl⟩ | ⟨-, rfl⟩
    · simp at he
    · simp at he
  rw [← List.singleton_append] at hopen
  rcases hopen.of_append with hopen | ⟨hopen, hclose⟩
  · rcases htidy fd hopen with hheld | ⟨hzero, hleaves⟩
    · exact .inl (hheld.trans hfd.symm)
    · exact .inr ⟨hzero, (hleaves.append_right _).append_left [_]⟩
  · obtain ⟨host', port', he⟩ := hopen.connect
    rw [List.mem_singleton] at he
    cases he
    rw [hyfd] at hleft
    rcases hleft with hsame | hclosed' | ⟨hzero, hreplaces⟩
    · exact .inl (hsame.symm.trans hfd.symm)
    · exact (hclose hclosed').elim
    · rw [hzero] at hopen ⊢
      exact .inr ⟨rfl, hopen.leavesZero (hreplaces.append_right _)⟩

include hy hnext

omit hyfd in
/-- What the nested call has left open is not the old socket. -/
theorem World.Answers.replaced_leaks (hlost : Lost es) :
    ∃ fd, StaysOpen fd
      (.connect nc.fd host port :: (es ++ .replace force (some u.conn.fd) :: closed)) ∧
        fd ≠ x.conn.fd ∧ fd < x.nextFd := by
  obtain ⟨fd, hopen, hheld, hold⟩ := h.leaks hlost
  obtain ⟨host', port', he⟩ := hopen.connect
  have hfresh := h.connects _ _ _ he
  refine ⟨fd, (hopen.append_right fun he => ?_).append_left [_], by omega, by omega⟩
  rcases hclosed with ⟨-, rfl⟩ | ⟨-, rfl⟩
  · have heq : fd = w.conn.fd := by simpa using he
    omega
  · simp at he

/-- The socket of the nested call is held. -/
theorem World.Answers.replaced :
    w.Answers x (.connect nc.fd host port :: (es ++ .replace force (some u.conn.fd) :: closed)) := by
  have hnamed := h.named
  have hnextFd := h.nextFd_le
  have hnew := h.fd
  have hlost : Lost (.connect nc.fd host port ::
      (es ++ .replace force (some u.conn.fd) :: closed)) ↔ Lost es := lost_replaced_iff hclosed
  have hping : Lost (.connect nc.fd host port :: (es ++ .replace force (some u.conn.fd) :: closed)) ∨
      .ping x.conn.fd ∈ Event.connect nc.fd host port ::
        (es ++ .replace force (some u.conn.fd) :: closed) := by
    refine h.answered.imp hlost.mpr fun hping => ?_
    rw [hfd]
    simp [hping]
  exact {
    named := by omega
    nextFd_le := by omega
    fd := .inr ⟨by omega, force, u.conn.fd, by simp⟩
    connects := fun fd host' port' he => by
      rcases mem_replaced hclosed he with heq | he | heq | ⟨heq, -⟩
      · cases heq
        omega
      · have := h.connects _ _ _ he
        omega
      · cases heq
      · cases heq
    masters := fun fd he => by
      rcases mem_replaced hclosed he with heq | he | heq | ⟨heq, -⟩
      · cases heq
      · have := h.masters _ he
        omega
      · cases heq
      · cases heq
    closes := fun fd he => by
      rcases mem_replaced hclosed he with heq | he | heq | ⟨heq, hne⟩
      · cases heq
      · have := h.closes _ he
        omega
      · cases heq
      · cases heq
        exact ⟨hne, .inl rfl⟩
    moved := fun hl f fd he => by
      rcases mem_replaced hclosed he with heq | he | heq | ⟨heq, -⟩
      · cases heq
      · have := h.moved (fun hl' => hl (hlost.mpr hl')) _ _ he
        omega
      · cases heq
        omega
      · cases heq
    pinged := hping.imp_right .inl
    left := by
      rcases hclosed with ⟨-, rfl⟩ | ⟨hzero, rfl⟩
      · exact .inr (.inr (.inl (by simp)))
      · exact .inr (.inr (.inr ⟨hzero, force, u.conn.fd, by omega, by simp⟩))
    tidy := by
      by_cases hl : Lost es
      · exact .inl (hlost.mpr hl)
      · exact .inr fun fd => h.replaced_tidy hyfd hfd hclosed hl
    leaks := fun hl => h.replaced_leaks hw hnc hy hfd hnext hclosed (hlost.mp hl)
    answered := hping }

end Adopting

/-! ## Runs that ask for no master -/

/-- An event of a call that asks for no master. -/
def Event.Unforced : Event → Prop
  | .isMaster _ => False
  | .replace true _ => False
  | _ => True

/-- A run that notes no call that asks for a master. -/
def World.Unforced (w w' : World σ) : Prop := w.Since w' fun es => ∀ e ∈ es, e.Unforced

theorem World.Unforced.frame : Frame (World.Unforced (σ := σ)) where
  refl _ := .nil (by simp)
  trans h h' := h.append h' fun _ _ hes hes' e he =>
    (List.mem_append.mp he).elim (hes e) (hes' e)

theorem World.Unforced.still {w w' : World σ} (h : w'.log = w.log) : w.Unforced w' :=
  ⟨[], by rw [h, List.append_nil], by simp⟩

theorem World.Unforced.one {w w' : World σ} {e : Event} (he : e.Unforced)
    (h : w'.log = w.log ++ [e]) : w.Unforced w' := by
  refine ⟨[e], h, fun e' he' => ?_⟩
  rw [List.mem_singleton] at he'
  subst he'
  exact he

theorem World.Unforced.store {w u v : World σ} {ds : List Event} (h : w.Unforced u)
    (hds : ∀ d ∈ ds, d = Event.dangling) (hlog : v.log = u.log ++ ds) : w.Unforced v := by
  refine World.Unforced.frame.trans h ⟨ds, hlog, fun d hd => ?_⟩
  rw [hds d hd]
  trivial

theorem commandRule_unforced : CommandRule N World.Unforced where
  frame := World.Unforced.frame
  errno _ _ := .still rfl
  send {p} _ w := by
    refine wp_mono (mongoPacketSend_spec N p w) (fun ok w' h => ?_) (fun _ h => h.elim)
    obtain ⟨count, hlog, -⟩ := h
    exact World.Unforced.one (e := .send w.conn.fd p count) trivial hlog
  reply rid := by
    refine Keeps.bind World.Unforced.frame
      ((mongoSyncPacketRecv_still N rid _).mono fun _ _ h => .still h.log) fun p => ?_
    exact mongoSyncPacketCheckError_keeps World.Unforced.frame (fun _ _ => .still rfl)
      (fun _ _ => .still rfl) p true

theorem talkRule_unforced : TalkRule N World.Unforced where
  toCommandRule := commandRule_unforced N
  cmdPing := (commandRule_unforced N).cmdPing fun w =>
    World.Unforced.one (e := .ping w.conn.fd) trivial rfl

theorem afterReplace_unforced {ok : Bool} {nc : MongoSyncConnection} {w u : World σ}
    (hu : World.Unforced { w with conn := nc } u) :
    w.Unforced (afterReplace N false ok w u) := by
  have hreplace : ∀ fd, (Event.replace false fd).Unforced := fun _ => trivial
  have hend : ∀ {v : World σ} (es : List Event), v.log = u.log ++ es →
      (∀ e ∈ es, e.Unforced) → w.Unforced v := by
    intro v es hlog hes
    have hlast : w.Unforced u := hu
    exact World.Unforced.frame.trans hlast ⟨es, hlog, hes⟩
  rw [afterReplace]
  split
  · split
    · refine hend _ rfl fun e he => ?_
      rcases List.mem_pair.mp he with rfl | rfl
      · exact hreplace _
      · trivial
    · refine hend _ rfl fun e he => ?_
      rw [List.mem_singleton] at he
      subst he
      exact hreplace _
  · refine hend _ rfl fun e he => ?_
    rw [List.mem_singleton] at he
    subst he
    exact hreplace _

section Unforced

variable {reconnect : Bool → Program (World σ) Bool}
  (hreconnect : KeepsUpTo World.Unforced (fun _ _ => True) (reconnect false))
include hreconnect

theorem reauthenticate_unforced (w : World σ) :
    wp (reauthenticate N reconnect) (fun _ => w.Unforced) (fun _ => True) w :=
  reauthenticate_wp ((talkRule_unforced N).custom N World.Unforced.frame.returning hreconnect)
    (fun _ _ hu hds => hu.store hds rfl) (fun _ _ _ hu hds _ => hu.store hds rfl)

theorem reconnectRule_unforced :
    ReconnectRule N reconnect false World.Unforced World.Unforced (fun _ _ => True) where
  talk := talkRule_unforced N
  halts := World.Unforced.frame.returning
  trans := World.Unforced.frame.trans
  answer w := wp_mono ((talkRule_unforced N).cmdPing w) (fun _ _ h _ => h) (fun _ _ => trivial)
  refresh h := by cases h
  candidate addr w := by
    refine wp_mono (connectAddr_opens N addr w) (fun c y hy => ?_) (fun _ _ => trivial)
    have hopens : w.Unforced y := by
      obtain ⟨es, hlog, hes⟩ := hy.log
      refine ⟨es, hlog, fun e he => ?_⟩
      obtain ⟨_, _, _, rfl⟩ := hes e he
      trivial
    cases c with
    | none => exact hopens
    | some nc =>
        refine wp_adopt N reconnect (wp_mono (hreconnect { y with conn := nc })
          (fun ok u hu => ?_) (fun _ _ => trivial))
        have hreplaced : y.Unforced (afterReplace N false ok y u) := afterReplace_unforced N hu
        have hafter := World.Unforced.frame.trans hopens hreplaced
        exact KeepsUpTo.after World.Unforced.frame.returning hafter
          (reauthenticate_unforced N hreconnect _)

end Unforced

theorem mongoSyncReconnect_unforced (fuel : Nat) :
    KeepsUpTo World.Unforced (fun _ _ => True) (mongoSyncReconnect N fuel false) := by
  induction fuel with
  | zero => exact fun _ => trivial
  | succ fuel ih =>
      intro w
      refine wp_mono ((reconnectRule_unforced N ih).call N w) (fun ok _ h => ?_) (fun _ h => h)
      cases ok with
      | false => exact h
      | true => exact h

/-! ## A call of `mongo_sync_reconnect` -/

/-- What is known of a run that returns a connection.  If a master was asked for and the
socket was replaced without asking, the new node was not asked. -/
structure World.Serves (force : Bool) (w w' : World σ) (es : List Event) : Prop
    extends w.Answers w' es where
  unasked : force = true → ¬ Lost es → (∃ fd, .replace false (some fd) ∈ es) →
    .isMaster w'.conn.fd ∉ es

/-- From a socket that is open, a reconnection serves what was asked for. -/
def World.Resumed (force : Bool) (w w' : World σ) : Prop :=
  w.conn.fd < w.nextFd → w.Since w' (w.Serves force w')

theorem World.Resumed.runs {force : Bool} {w w' : World σ} (h : w.Resumed force w') : w.Runs w' :=
  fun hw => World.Since.mono (h hw) fun _ hes => hes.toCourse

/-- Authenticating again at the end. -/
theorem World.Serves.append {force : Bool} {u v w : World σ} {es es' : List Event}
    (h : u.Serves force v es) (h' : v.Course w es') (hes' : ∀ e ∈ es', e.Unforced) :
    u.Serves force w (es ++ es') where
  toAnswers := h.toAnswers.append h'
  unasked hforce hlost hfalse := by
    have hno : .isMaster w.conn.fd ∉ es' := fun hmem => hes' _ hmem
    -- a socket that is new has not been asked before
    have hnew : (v.nextFd : Int) ≤ w.conn.fd → .isMaster w.conn.fd ∉ es ++ es' := by
      intro hle hmem
      rcases List.mem_append.mp hmem with hmem | hmem
      · have := h.masters _ hmem
        omega
      · exact hno hmem
    rcases h'.fd with hsame | ⟨hle, -⟩
    · obtain ⟨fd, hmem⟩ := hfalse
      rcases List.mem_append.mp hmem with hmem | hmem
      · intro hmaster
        rcases List.mem_append.mp hmaster with hmaster | hmaster
        · rw [hsame] at hmaster
          exact h.unasked hforce (fun hl => hlost (hl.append_right es')) ⟨fd, hmem⟩ hmaster
        · exact hno hmaster
      · exact hnew (h'.moved (fun hl => hlost (hl.append_left es)) _ _ hmem).2.2
    · exact hnew hle

/-- Attempts in front. -/
theorem World.Resumed.trans {force : Bool} {u v w : World σ} (h : u.Tries v)
    (h' : v.Resumed force w) : u.Resumed force w := by
  intro hu
  have hnext := h.nextFd_le
  have hfd := h.fd
  refine World.Since.append ((h.course hu).and h.log) (h' (by omega)) fun es es' hes hes' => ?_
  refine ⟨⟨hes.1.append hes'.toCourse, ?_⟩, fun hforce hlost hfalse hmem => ?_⟩
  · exact hes'.answered.imp (fun hl => hl.append_left es) (List.mem_append_right _)
  · have hlost' : ¬ Lost es' := fun hl => hlost (hl.append_left es)
    obtain ⟨fd, hfalse⟩ := hfalse
    rcases List.mem_append.mp hfalse with hfalse | hfalse
    · exact hes.2 _ hfalse
    · rcases List.mem_append.mp hmem with hmem | hmem
      · have hsame : w.conn.fd = u.conn.fd := hes.2 _ hmem
        have := hes'.moved hlost' _ _ hfalse
        omega
      · exact hes'.unasked hforce hlost' ⟨fd, hfalse⟩ hmem

/-- A connection that answers. -/
theorem World.Tries.resumed {force : Bool} {w w' : World σ} (h : w.Tries w')
    (hping : w.Since w' fun es => .ping w'.conn.fd ∈ es) : w.Resumed force w' := by
  intro hw
  refine World.Since.mono (((h.course hw).and h.log).and hping) fun es hes => ?_
  obtain ⟨⟨hcourse, hidle⟩, hping⟩ := hes
  refine ⟨⟨hcourse, .inr hping⟩, fun _ _ hfalse => ?_⟩
  obtain ⟨fd, hmem⟩ := hfalse
  exact (hidle _ hmem).elim

theorem mongoSyncCmdPing_answers (w : World σ) :
    wp (mongoSyncCmdPing N)
      (fun ok w' => ok = true → w.Since w' fun es => .ping w'.conn.fd ∈ es) (fun _ => True) w := by
  rw [mongoSyncCmdPing, wp_bind]
  refine wp_mono (mongoSyncCmdCustomBare_polls N _ _ w) (fun p u hu => ?_) (fun _ _ => trivial)
  cases p with
  | none => exact fun h => by cases h
  | some p =>
      intro _
      obtain ⟨es, hes, -⟩ := hu.log
      refine ⟨es ++ [.ping u.conn.fd], ?_, List.mem_append_right _ (List.mem_singleton.mpr rfl)⟩
      show u.log ++ [.ping u.conn.fd] = _
      rw [hes, List.append_assoc]

/-- A nested call that returns a connection. -/
theorem afterReplace_true (force : Bool) {w u : World σ} (hne : w.conn.fd ≠ u.conn.fd) :
    ∃ closed, (w.conn.fd ≠ 0 ∧ closed = [.close w.conn.fd] ∨ w.conn.fd = 0 ∧ closed = []) ∧
      (afterReplace N force true w u).log
        = u.log ++ .replace force (some u.conn.fd) :: closed ∧
      (afterReplace N force true w u).conn.fd = u.conn.fd ∧
      (afterReplace N force true w u).nextFd = u.nextFd := by
  rw [afterReplace, if_pos rfl]
  by_cases hzero : w.conn.fd = 0
  · rw [if_neg (fun h => h.1 hzero)]
    exact ⟨[], .inr ⟨hzero, rfl⟩, rfl, rfl, rfl⟩
  · rw [if_pos ⟨hzero, hne⟩]
    exact ⟨[.close w.conn.fd], .inl ⟨hzero, rfl⟩, rfl, rfl, rfl⟩

section Calling

variable {reconnect : Bool → Program (World σ) Bool} {force : Bool}
  (hnested : ∀ v, wp (reconnect force) (fun ok u => if ok then v.Resumed force u else v.Tries u)
    (fun _ => True) v)
  (hruns : KeepsUpTo World.Runs (fun _ _ => True) (reconnect false))
  (hunforced : KeepsUpTo World.Unforced (fun _ _ => True) (reconnect false))
include hnested hruns hunforced

theorem adopt_serves {w y : World σ} {nc : MongoSyncConnection} (hw : w.conn.fd < w.nextFd)
    (hy : w.Opens (some nc) y) :
    wp (adopt N reconnect force nc) (fun _ w' => w.Since w' (w.Serves force w')) (fun _ => True)
      y := by
  obtain ⟨hnext, ⟨seed, hinit⟩, host, port, hlog⟩ := hy.opened nc rfl
  have hnc : nc.fd = w.nextFd := by rw [hinit]; rfl
  have hconn := hy.conn
  have hafter : ∀ x : World σ, w.Since x (w.Serves force x) →
      wp (reauthenticate N reconnect) (fun _ w' => w.Since w' (w.Serves force w'))
        (fun _ => True) x := by
    intro x hx
    refine wp_mono (wp_and (reauthenticate_runs N hruns x) (reauthenticate_unforced N hunforced x))
      (fun _ w' h => ?_) (fun _ _ => trivial)
    obtain ⟨es, hes, hserves⟩ := hx
    obtain ⟨es', hes', hcourse, hunf⟩ := (h.1 hserves.named).and h.2
    exact ⟨es ++ es', by rw [hes', hes, List.append_assoc], hserves.append hcourse hunf⟩
  refine wp_adopt N reconnect (wp_mono (hnested _) (fun ok u hu => hafter _ ?_) (fun _ _ => trivial))
  cases ok with
  | false =>
      obtain ⟨es, hes, hidle⟩ := hu.log
      have hle : y.nextFd ≤ u.nextFd := hu.nextFd_le
      have hlost : w.Answers (afterReplace N force false y u)
          (.connect nc.fd host port :: (es ++ [.replace force none])) :=
        World.Tries.lost hw hnc (hnext ▸ hle) hidle (by rw [← hconn]; rfl) rfl
      refine ⟨_, ?_, hlost, fun _ hno => (hno ⟨force, by simp⟩).elim⟩
      show u.log ++ [.replace force none] = _
      rw [hes, hnc]
      show y.log ++ es ++ _ = _
      rw [hlog]
      simp
  | true =>
      obtain ⟨es, hes, hserves⟩ := hu (by show nc.fd < y.nextFd; omega)
      have hne : y.conn.fd ≠ u.conn.fd := by
        rw [hconn]
        rcases hserves.fd with hsame | ⟨hnew, -⟩
        · have hsame : u.conn.fd = nc.fd := hsame
          omega
        · have hnew : (y.nextFd : Int) ≤ u.conn.fd := hnew
          omega
      obtain ⟨closed, hclosed, hxlog, hxfd, hxnext⟩ := afterReplace_true N force hne
      rw [hconn] at hclosed
      have hyfd : ({ y with conn := nc } : World σ).conn.fd = nc.fd := rfl
      have hanswers : w.Answers (afterReplace N force true y u)
          (.connect nc.fd host port :: (es ++ .replace force (some u.conn.fd) :: closed)) :=
        World.Answers.replaced hw hnc hyfd hnext hserves.toAnswers hxfd hxnext hclosed
      refine ⟨_, ?_, hanswers, ?_⟩
      · rw [hxlog, hes, hnc]
        show y.log ++ es ++ _ = _
        rw [hlog]
        simp
      · intro hforce hlost hfalse
        have hmem : ∀ {e : Event},
            e ∈ .connect nc.fd host port :: (es ++ .replace force (some u.conn.fd) :: closed) →
            (∀ fd, e = .isMaster fd ∨ e = .replace false (some fd) → e ∈ es) := by
          intro e he fd hkind
          rcases hclosed with ⟨-, rfl⟩ | ⟨-, rfl⟩
          · rcases hkind with rfl | rfl
            · simpa using he
            · simpa [hforce] using he
          · rcases hkind with rfl | rfl
            · simpa using he
            · simpa [hforce] using he
        obtain ⟨fd, hfalse⟩ := hfalse
        intro hmaster
        rw [hxfd] at hmaster
        exact hserves.unasked hforce (fun hl => hlost ((hl.append_right _).append_left [_]))
          ⟨fd, hmem hfalse fd (.inr rfl)⟩ (hmem hmaster _ (.inl rfl))

theorem reconnectRule_resumed :
    ReconnectRule N reconnect force World.Tries (World.Resumed force) (fun _ _ => True) where
  talk := .of_polls N World.Tries.frame fun _ _ h => h.tries
  halts := World.Tries.frame.returning
  trans h h' := h'.trans h
  answer w := by
    refine wp_mono (wp_and (mongoSyncCmdPing_polls N w) (mongoSyncCmdPing_answers N w))
      (fun ok u hu hok => ?_) (fun _ _ => trivial)
    obtain ⟨hpolls, hping⟩ := hu
    cases force with
    | false => exact hpolls.tries.resumed (hping hok)
    | true =>
        refine wp_mono (mongoSyncCmdIsMaster_polls N u) (fun _ v hv _ => ?_) (fun _ _ => trivial)
        refine (World.Tries.frame.trans hpolls.tries hv.tries).resumed ?_
        refine World.Since.append (hping hok) hv.log fun es es' hping _ => ?_
        rw [hv.fd]
        exact List.mem_append_left _ hping
  refresh _ := (mongoSyncCmdIsMaster_polls N).mono fun _ _ h => h.tries
  candidate addr w := by
    refine wp_mono (connectAddr_opens N addr w) (fun c y hy => ?_) (fun _ _ => trivial)
    cases c with
    | none => exact hy.tries
    | some nc =>
        by_cases hw : w.conn.fd < w.nextFd
        · exact wp_mono (adopt_serves N hnested hruns hunforced hw hy) (fun _ _ h _ => h)
            (fun _ _ => trivial)
        · exact wp_of_exec (fun _ _ _ h => (hw h).elim) (fun _ _ _ => trivial)

end Calling

/-- What a call leaves, whether it returns a connection or `NULL`. -/
theorem mongoSyncReconnect_resumed (fuel : Nat) (force : Bool) (w : World σ) :
    wp (mongoSyncReconnect N fuel force)
      (fun ok w' => if ok then w.Resumed force w' else w.Tries w') (fun _ => True) w := by
  induction fuel generalizing force w with
  | zero => trivial
  | succ fuel ih =>
      refine (reconnectRule_resumed N (ih force) (fun v => ?_) (mongoSyncReconnect_unforced N fuel)).call
        N w
      refine wp_mono (ih false v) (fun ok u hu => ?_) (fun _ h => h)
      cases ok with
      | false => exact World.Tries.course hu
      | true => exact World.Resumed.runs hu

/-- `NULL` is returned with `EHOSTUNREACH`. -/
theorem mongoSyncReconnect_errno (fuel : Nat) (force : Bool) (w : World σ) :
    wp (mongoSyncReconnect N fuel force) (fun ok w' => ok = false → w'.errno = .EHOSTUNREACH)
      (fun _ => True) w := by
  cases fuel with
  | zero => trivial
  | succ fuel =>
      have hfound : ∀ {m m' : Program (World σ) Bool} (v : World σ),
          (∀ u, wp m' (fun ok w' => ok = false → w'.errno = .EHOSTUNREACH) (fun _ => True) u) →
          wp (m >>= fun found => if found then pure true else m')
            (fun ok w' => ok = false → w'.errno = .EHOSTUNREACH) (fun _ => True) v := by
        intro m m' v hm'
        rw [wp_bind]
        refine wp_of_exec (fun found u _ => ?_) (fun _ _ _ => trivial)
        exact wp_ite (fun _ h => by cases h) (fun _ => hm' u)
      have hcandidates : ∀ v, wp (reconnectCandidates N (mongoSyncReconnect N fuel) force)
          (fun ok w' => ok = false → w'.errno = .EHOSTUNREACH) (fun _ => True) v := fun v =>
        hfound v fun v => hfound v fun v => hfound v fun _ _ => rfl
      rw [mongoSyncReconnect, mongoSyncReconnectWith, wp_bind]
      refine wp_of_exec (fun ping u _ => ?_) (fun _ _ _ => trivial)
      refine wp_ite (fun _ => wp_ite (fun _ h => by cases h) (fun _ => ?_)) (fun _ => hcandidates u)
      refine hfound u fun v => ?_
      rw [wp_bind]
      exact wp_of_exec (fun _ x _ => hcandidates x) (fun _ _ _ => trivial)

/-! ## Usable connections -/

/-- What a call of `mongo_sync_reconnect` should give: a connection whose socket answered in
this call, or `NULL` with `EHOSTUNREACH`, and no other socket of this call is open. -/
structure World.Usable (force ok : Bool) (w' : World σ) (es : List Event) : Prop where
  ping : ok = true → .ping w'.conn.fd ∈ es
  master : ok = true → force = true → .isMaster w'.conn.fd ∈ es
  unreachable : ok = false → w'.errno = .EHOSTUNREACH
  closed : ∀ fd, StaysOpen fd es → fd = w'.conn.fd

/-- The result of the call is usable exactly if no nested call returned `NULL`, no
replacement at the end was made without asking for the master that was asked for, and no
socket with the descriptor 0 was replaced that was opened on the way. -/
theorem reconnect_usable_iff {fuel : Nat} {force ok : Bool} {w w' : World σ}
    (hfd : w.conn.fd < w.nextFd)
    (hrun : (mongoSyncReconnect N fuel force).exec w = (.ok ok, w')) :
    w.Since w' fun es => w'.Usable force ok es ↔
      ¬ Lost es ∧ (force = true → ∀ fd, .replace false (some fd) ∉ es) ∧ ¬ LeavesZero es := by
  have herrno := wp_ok (mongoSyncReconnect_errno N fuel force w) hrun
  have hresumed := wp_ok (mongoSyncReconnect_resumed N fuel force w) hrun
  cases ok with
  | false =>
      have htries : w.Tries w' := hresumed
      refine World.Since.mono ((htries.course hfd).and htries.log) fun es hes => ?_
      obtain ⟨hcourse, hidle⟩ := hes
      constructor
      · intro _
        refine ⟨fun ⟨_, hmem⟩ => hidle _ hmem, fun _ _ hmem => hidle _ hmem, ?_⟩
        rintro ⟨pre, host, port, post, rfl, -⟩
        exact hidle (.connect 0 host port) (by simp)
      · intro _
        refine ⟨fun h => (by cases h), fun h => (by cases h), herrno, fun fd hopen => ?_⟩
        obtain ⟨host, port, hmem⟩ := hopen.connect
        exact (hidle _ hmem).elim
  | true =>
      have hresumed : w.Resumed force w' := hresumed
      have hadopted := (wp_ok (mongoSyncReconnect_adopted N fuel force w) hrun).2 rfl
      have hreached : w.Since w' fun es => force = true → Reached w'.conn.fd es := by
        cases force with
        | false => exact World.Since.mono (hresumed hfd) fun _ _ h => by cases h
        | true => exact World.Since.mono hadopted fun _ h _ => h
      refine World.Since.mono ((hresumed hfd).and hreached) fun es hes => ?_
      obtain ⟨hserves, hreached⟩ := hes
      constructor
      · intro husable
        have hlost : ¬ Lost es := by
          intro hlost
          obtain ⟨fd, hopen, hne, -⟩ := hserves.leaks hlost
          exact hne (husable.closed fd hopen)
        refine ⟨hlost, fun hforce fd hmem => ?_, ?_⟩
        · exact hserves.unasked hforce hlost ⟨fd, hmem⟩ (husable.master rfl hforce)
        · rintro ⟨pre, host, port, post, rfl, f, fd, hne, hmem⟩
          have hmoved := hserves.moved hlost f fd (by simp [hmem])
          have hopen : StaysOpen 0 (pre ++ .connect 0 host port :: post) :=
            ⟨pre, host, port, post, rfl, fun hc => (hserves.closes 0 (by simp [hc])).1 rfl⟩
          have := husable.closed 0 hopen
          omega
      · rintro ⟨hlost, hasked, hzero⟩
        refine ⟨fun _ => hserves.answered.resolve_left hlost, fun _ hforce => ?_,
          fun h => (by cases h), fun fd hopen => ?_⟩
        · rcases hreached hforce with ⟨e, hmem, hastray⟩ | hmaster
          · cases e with
            | replace f fd =>
                cases f with
                | false =>
                    cases fd with
                    | none => exact hastray.elim
                    | some fd => exact (hasked hforce fd hmem).elim
                | true =>
                    cases fd with
                    | none => exact (hlost ⟨true, hmem⟩).elim
                    | some fd => exact hastray.elim
            | _ => exact hastray.elim
          · exact hmaster
        · rcases (hserves.tidy.resolve_left hlost) fd hopen with hheld | ⟨-, hleaves⟩
          · exact hheld
          · exact (hzero hleaves).elim

/-! ## A connection to a node that is gone -/

section Unusable

/-- Socket 5 is dead.  The primary accepts a connection and dies. -/
def deadPrimary : Script where
  connects := [true]
  sends := [none, none]
  bytes := []

/-- A connection on socket 5 that knows a primary. -/
def unusableWorld (s : Script) : World Script where
  net := s
  conn :=
    { mongoSyncConnInit ⟨5, 0⟩ true with
      rs := ⟨[], [], some (.ascii ['b', ':', '1'])⟩ }
  errno := .ok
  nextFd := 6
  log := []

/-- The reconnection. -/
def unusable (s : Script) : Except Halt Bool × World Script :=
  (mongoSyncReconnect playNet 2 false).exec (unusableWorld s)

/-- The primary answers. -/
def livePrimary : Script where
  connects := [true]
  sends := [none]
  bytes := (Reply.mk 7 1 0 0 0 [.cons okKey (.double doubleOne) .nil]).bytes

/-- The connection to a primary that answers is usable. -/
theorem reconnect_usable_livePrimary :
    (unusable livePrimary).2.Usable false true (unusable livePrimary).2.log := by
  have hrun : unusable livePrimary = (.ok true, (unusable livePrimary).2) :=
    exec_of_fst (by decide +kernel) rfl
  obtain ⟨es, hes, husable⟩ := reconnect_usable_iff playNet (by decide) hrun
  have hlog : (unusable livePrimary).2.log = es := hes
  have hlost : ∀ f, .replace f none ∉ (unusable livePrimary).2.log := by decide +kernel
  have hopened : (unusable livePrimary).2.log.all (fun e => match e with
      | .connect fd _ _ => fd ≠ 0
      | _ => true) = true := by decide +kernel
  rw [hlog] at hlost hopened ⊢
  refine husable.mpr ⟨fun ⟨f, hmem⟩ => hlost f hmem, fun h => (by cases h), ?_⟩
  rintro ⟨pre, host, port, post, rfl, -⟩
  simp at hopened

/-- The connection is returned on the dead socket, and the socket of the primary leaks. -/
theorem reconnect_unusable :
    (unusable deadPrimary).1 = .ok true ∧
      ¬ (unusable deadPrimary).2.Usable false true (unusable deadPrimary).2.log := by
  refine ⟨by decide +kernel, fun h => ?_⟩
  have hping := h.ping rfl
  revert hping
  decide +kernel

end Unusable

end LibMongo
