import LibMongo.Sync.Attempts

/-!
# Writes reach a master

The three commands that write, `mongo_sync_cmd_update`,
`mongo_sync_cmd_insert_n` and `mongo_sync_cmd_delete`.  Whatever connect, ping
and `isMaster` answer, and in whatever order, a write is handed to a socket only
after that socket answered in the same call that it is a master, as long as
nothing went astray (`writes_reach_master`).  `writes_go_astray` is a run in
which something does.
-/

namespace LibMongo

open Bytes Program

variable {σ : Type} (N : Net σ)

/-- The packet of a write. -/
def MongoPacket.IsWrite (o : ByteOrder) (p : MongoPacket) : Prop :=
  p.HasOpcode o .update ∨ p.HasOpcode o .insert ∨ p.HasOpcode o .delete

instance (o : ByteOrder) (p : MongoPacket) : Decidable (p.IsWrite o) :=
  inferInstanceAs (Decidable (_ ∨ _))

theorem MongoPacket.IsWrite.not_query {o : ByteOrder} {p : MongoPacket} (h : p.IsWrite o) :
    ¬ p.HasOpcode o .query := by
  intro hq
  rcases h with h | h | h <;> cases h.unique hq

/-! ## Guarded writes -/

/-- Every write is handed to a socket that is a master, up to where something goes
astray. -/
def Guarded (o : ByteOrder) (es : List Event) : Prop :=
  ∀ pre fd p count post, es = pre ++ .send fd p count :: post → p.IsWrite o →
    ¬ Astray pre → .isMaster fd ∈ pre

/-- Some write was sent. -/
def Written (o : ByteOrder) (es : List Event) : Prop :=
  ∃ fd p count, .send fd p count ∈ es ∧ p.IsWrite o ∧ p.Whole count

theorem Quiet.guarded {o : ByteOrder} {es : List Event} (h : Quiet o es) : Guarded o es := by
  intro pre fd p count post hes hp _
  have hquiet : (Event.send fd p count).Quiet o := h _ (by rw [hes]; simp)
  exact absurd hquiet hp.not_query

theorem Guarded.append {o : ByteOrder} {es es' : List Event} (h : Guarded o es)
    (h' : Guarded o es') : Guarded o (es ++ es') := by
  intro pre fd p count post hes hp hastray
  rcases List.append_eq_append_iff.mp hes with ⟨a, hpre, hes'⟩ | ⟨c, hes, hc⟩
  · subst hpre
    refine List.mem_append_right _ (h' a fd p count post hes' hp fun ha => ?_)
    exact hastray (ha.append_left es)
  · cases c with
    | nil =>
        have hmem := h' [] fd p count post hc.symm hp (by simp [Astray])
        cases hmem
    | cons e c =>
        rw [List.cons_append, List.cons.injEq] at hc
        obtain ⟨rfl, -⟩ := hc
        exact h pre fd p count c hes hp hastray

/-- One more attempt, on a socket that was reached. -/
theorem Guarded.snoc {o : ByteOrder} {es : List Event} {fd : Int} (h : Guarded o es)
    (hreached : Reached fd es) (p : MongoPacket) (count : Option Nat) :
    Guarded o (es ++ [.send fd p count]) := by
  intro pre fd' p' count' post hes hp hastray
  rcases List.append_eq_append_iff.mp hes with ⟨a, hpre, ha⟩ | ⟨c, hpre, hc⟩
  · cases a with
    | nil =>
        rw [List.nil_append, List.cons.injEq, Event.send.injEq] at ha
        obtain ⟨⟨rfl, -, -⟩, -⟩ := ha
        rw [List.append_nil] at hpre
        subst hpre
        exact hreached.resolve_left hastray
    | cons e a =>
        rw [List.cons_append, List.cons.injEq] at ha
        have hlen := congrArg List.length ha.2
        simp at hlen
  · cases c with
    | nil =>
        rw [List.nil_append, List.cons.injEq, Event.send.injEq] at hc
        obtain ⟨⟨rfl, -, -⟩, -⟩ := hc
        rw [List.append_nil] at hpre
        subst hpre
        exact hreached.resolve_left hastray
    | cons e c =>
        rw [List.cons_append, List.cons.injEq] at hc
        obtain ⟨rfl, -⟩ := hc
        exact h pre fd' p' count' c hpre hp hastray

theorem Attempts.guarded {o : ByteOrder} {p : MongoPacket} {ok : Bool} {es : List Event}
    (h : Attempts o p ok es) : Guarded o es := by
  cases h with
  | none hq => exact hq.guarded
  | once hq hr hc => exact hq.guarded.snoc hr _ _
  | lost hq hr hc hq' => exact (hq.guarded.snoc hr _ _).append hq'.guarded
  | twice hq hr hc hq' hr' hc' =>
      exact ((hq.guarded.snoc hr _ _).append hq'.guarded).snoc (hr'.append_left _) _ _

theorem Attempts.written {o : ByteOrder} {p : MongoPacket} {es : List Event}
    (h : Attempts o p true es) (hp : p.IsWrite o) : Written o es := by
  cases h with
  | once hq hr hc => exact ⟨_, p, _, List.mem_append_right _ (List.mem_singleton.mpr rfl), hp, hc.mp rfl⟩
  | twice hq hr hc hq' hr' hc' =>
      exact ⟨_, p, _, List.mem_append_right _ (List.mem_singleton.mpr rfl), hp, hc'.mp rfl⟩

theorem Written.append_right {o : ByteOrder} {es : List Event} (h : Written o es)
    (es' : List Event) : Written o (es ++ es') := by
  obtain ⟨fd, p, count, hmem, hp, hc⟩ := h
  exact ⟨fd, p, count, List.mem_append_left _ hmem, hp, hc⟩

/-! ## The commands that write -/

/-- A call of one of the commands. -/
inductive WriteCall where
  | update (ns : Option CString) (flags : BitVec 32) (selector update : Option Bson)
  | insertN (ns : Option CString) (docs : Option (List (Option Bson)))
  | delete (ns : Option CString) (flags : BitVec 32) (sel : Option Bson)

/-- Running a call. -/
def WriteCall.run (fuel : Nat) : WriteCall → Program (World σ) Bool
  | .update ns flags selector upd =>
      mongoSyncCmdUpdate N (mongoSyncReconnect N fuel) ns flags selector upd
  | .insertN ns docs => mongoSyncCmdInsertN N (mongoSyncReconnect N fuel) ns docs
  | .delete ns flags sel => mongoSyncCmdDelete N (mongoSyncReconnect N fuel) ns flags sel

/-- What a run of a command does about its writes. -/
def World.Writes (o : ByteOrder) (w : World σ) (ok : Bool) (w' : World σ) : Prop :=
  w.Since w' fun es => Guarded o es ∧ (ok = true → Written o es)

theorem World.Writes.nothing {o : ByteOrder} {w w' : World σ} (h : w'.log = w.log) :
    w.Writes o false w' :=
  ⟨[], by rw [h, List.append_nil], Quiet.nil.guarded, fun h => by cases h⟩

theorem Attempted.writes {o : ByteOrder} {p : MongoPacket} {ok : Bool} {w w' : World σ}
    (h : Attempted o p w ok w') (hp : p.IsWrite o) : w.Writes o ok w' := by
  refine h.2.mono fun es hes => ⟨hes.guarded, fun hok => ?_⟩
  subst hok
  exact hes.written hp

theorem World.Polls.quiet {o : ByteOrder} {w w' : World σ} (h : w.Polls o w') :
    w.Since w' (Quiet o) := h.roams.log

theorem nextPacket_writes {build : BitVec 32 → Except Errno MongoPacket} {o : ByteOrder}
    (hbuild : ∀ {rid p}, build rid = .ok p → p.IsWrite o) {next : MongoPacket → Program (World σ) Bool}
    {w : World σ}
    (hnext : ∀ p, p.IsWrite o → wp (next p) (w.Writes o) (fun w' => w.Since w' (Guarded o)) w) :
    wp (do
      match ← nextPacket build with
      | none => return false
      | some p => next p) (w.Writes o) (fun w' => w.Since w' (Guarded o)) w := by
  rw [wp_bind, nextPacket, wp_bind, wp_get]
  exact wp_orErrno (fun p hp => hnext p (hbuild hp)) (fun e _ => .nothing rfl)

/-- Sending the packet of a write, and the verdict on it. -/
theorem sendAndVerify_writes (fuel : Nat) {p : MongoPacket} (hp : p.IsWrite N.order)
    (ns : Option CString) (w : World σ) :
    wp (sendAndVerify N (mongoSyncReconnect N fuel) p ns) (w.Writes N.order)
      (fun w' => w.Since w' (Guarded N.order)) w := by
  rw [sendAndVerify, wp_bind]
  refine wp_mono (mongoSyncPacketSend_attempts N fuel p w) (fun sent u hu => ?_)
    (fun u hu => hu.mono fun _ h => h.guarded)
  have hwrites := hu.writes hp
  refine wp_ite (fun hsent => ?_) (fun hsent => ?_)
  · subst hsent
    refine wp_mono (mongoSyncCmdVerifyResult_polls N ns u) (fun ok v hv => ?_) (fun v hv => ?_)
    · exact hwrites.append hv.quiet fun es es' h h' =>
        ⟨h.1.append h'.guarded, fun _ => (h.2 rfl).append_right es'⟩
    · exact hwrites.append hv.quiet fun es es' h h' => h.1.append h'.guarded
  · exact hwrites.mono fun es h => ⟨h.1, fun hok => by cases hok⟩

/-- A round of a bulk insert: its packet, and the verdict on it. -/
theorem insertBatch_writes (fuel : Nat) (ns : CString) (c : Int) (docs : List (Option Bson))
    (w : World σ) :
    wp (insertBatch N (mongoSyncReconnect N fuel) ns c docs) (w.Writes N.order)
      (fun w' => w.Since w' (Guarded N.order)) w := by
  refine nextPacket_writes (fun h => .inr (.inl (mongoWireCmdInsertN_hasOpcode h)))
    (fun p hp => ?_)
  rw [wp_bind]
  refine wp_mono (mongoSyncPacketSend_attempts N fuel p w) (fun sent u hu => ?_)
    (fun u hu => hu.mono fun _ h => h.guarded)
  have hwrites := hu.writes hp
  cases sent with
  | false => exact hwrites.mono fun es h => ⟨h.1, fun hok => by cases hok⟩
  | true =>
      refine wp_ite (fun h => by cases h) (fun _ => ?_)
      refine wp_mono (mongoSyncCmdVerifyResult_polls N _ u) (fun ok v hv => ?_) (fun v hv => ?_)
      · exact hwrites.append hv.quiet fun es es' h h' =>
          ⟨h.1.append h'.guarded, fun _ => (h.2 rfl).append_right es'⟩
      · exact hwrites.append hv.quiet fun es es' h h' => h.1.append h'.guarded

theorem insertLoop_writes (fuel : Nat) (ns : CString) (rounds : Nat) (docs : List (Option Bson))
    (w : World σ) :
    wp (insertLoop N (mongoSyncReconnect N fuel) ns rounds docs) (w.Writes N.order)
      (fun w' => w.Since w' (Guarded N.order)) w := by
  induction rounds generalizing docs w with
  | zero => exact .nil Quiet.nil.guarded
  | succ rounds ih =>
      rw [insertLoop, wp_bind, wp_get]
      dsimp only
      rw [wp_bind]
      refine wp_mono (insertBatch_writes N fuel ns _ docs w) (fun ok u hu => ?_) (fun _ h => h)
      cases ok with
      | false => exact hu
      | true =>
          refine wp_ite (fun h => by cases h) (fun _ => ?_)
          refine wp_ite (fun _ => hu) (fun _ => ?_)
          refine wp_mono (ih _ u) (fun ok x hx => ?_) (fun x hx => ?_)
          · exact hu.append hx fun es es' h h' =>
              ⟨h.1.append h'.1, fun _ => (h.2 rfl).append_right es'⟩
          · exact hu.append hx fun es es' h h' => h.1.append h'

theorem WriteCall.run_writes (fuel : Nat) (c : WriteCall) (w : World σ) :
    wp (c.run N fuel) (w.Writes N.order) (fun w' => w.Since w' (Guarded N.order)) w := by
  cases c with
  | update ns flags selector upd =>
      exact nextPacket_writes (fun h => .inl (mongoWireCmdUpdate_hasOpcode h))
        (fun p hp => sendAndVerify_writes N fuel hp ns w)
  | insertN ns docs =>
      match ns, docs with
      | none, _ => exact .nothing rfl
      | some _, none => exact .nothing rfl
      | some ns, some docs =>
          refine wp_ite (fun _ => .nothing rfl) (fun _ => ?_)
          rw [wp_bind, wp_get]
          exact wp_ite (fun _ => .nothing rfl) (fun _ => insertLoop_writes N fuel ns _ docs w)
  | delete ns flags sel =>
      refine nextPacket_writes (fun h => .inr (.inr (mongoWireCmdDelete_hasOpcode h)))
        (fun p hp => ?_)
      exact wp_mono (mongoSyncPacketSend_attempts N fuel p w) (fun _ _ hu => hu.writes hp)
        (fun u hu => hu.mono fun _ h => h.guarded)

/-- In every run of a command that writes, also in one that never returns, a write is
handed to a socket only after that socket answered in this call that it is a
master, as long as nothing went astray.  Without such a socket the command
returns `FALSE`. -/
theorem writes_reach_master (fuel : Nat) (c : WriteCall) (w : World σ) :
    let run := (c.run N fuel).exec w
    w.Since run.2 fun es =>
      (∀ pre fd p count post, es = pre ++ .send fd p count :: post → p.IsWrite N.order →
        ¬ Astray pre → .isMaster fd ∈ pre) ∧
      (¬ Astray es → (∀ fd, .isMaster fd ∉ es) → run.1 ≠ .ok true) := by
  have hrun := c.run_writes N fuel w
  unfold wp at hrun
  cases hexec : (c.run N fuel).exec w with
  | mk r w' =>
      rw [hexec] at hrun
      cases r with
      | error e => exact World.Since.mono hrun fun es h => ⟨h, fun _ _ hr => by cases hr⟩
      | ok ok =>
          refine World.Since.mono hrun fun es h => ⟨h.1, fun hastray hnone hok => ?_⟩
          obtain rfl : ok = true := by simpa using hok
          obtain ⟨fd, p, count, hmem, hp, -⟩ := h.2 rfl
          obtain ⟨pre, post, hes⟩ := List.append_of_mem hmem
          have hpre : ¬ Astray pre := fun ha => hastray (by rw [hes]; exact ha.append_right _)
          exact hnone fd (by rw [hes]; exact List.mem_append_left _ (h.1 pre fd p count post hes hp hpre))

/-! ## A write that goes astray -/

section Astray

/-- A net on which everything can be sent and nothing is ever received.  The first
attempt to open a connection succeeds, and no other. -/
def silentNet : Net Nat where
  order := .little
  strerror _ := .ascii []
  md5 _ := .ascii []
  tcp _ _ _ n := (if n = 0 then .connected else .refused, n + 1)
  unix _ _ n := (false, n)
  sendmsg _ bytes n := (.ok bytes.length, n)
  recv _ _ n := (.error (.system 11), n)
  close _ n := n

/-- A connection on socket 5 that knows a primary and may reconnect. -/
def staleWorld : World Nat where
  net := 0
  conn :=
    { fd := 5
      requestId := 0
      slaveok := false
      safeMode := false
      autoReconnect := true
      lastError := none
      maxInsertSize := defaultMaxInsertSize
      rs := ⟨[], [], some (.ascii ['b', ':', '1'])⟩
      auth := ⟨none, none, none⟩
      recoveryCache := none }
  errno := .ok
  nextFd := 6
  log := []

/-- An update of that connection. -/
def staleUpdate : Except Halt Bool × World Nat :=
  (WriteCall.update (some (.ascii ['d', '.', 'c'])) 0 (bsonFinish (some bsonNew)).2
    (bsonFinish (some bsonNew)).2).run silentNet 2 |>.exec staleWorld

/-- The packet of a write is handed to a socket. -/
def Event.writes (o : ByteOrder) : Event → Bool
  | .send _ p _ => p.IsWrite o
  | _ => false

/-- A node says that it is a master. -/
def Event.masters : Event → Bool
  | .isMaster _ => true
  | _ => false

/-- The node behind the primary stops answering while the library reconnects to it.
Its update goes out on the old socket, on which nobody said to be a master. -/
theorem writes_go_astray :
    ¬ ∀ pre fd p count post, staleUpdate.2.log = pre ++ .send fd p count :: post →
      p.IsWrite silentNet.order → .isMaster fd ∈ pre := by
  intro h
  have hlast : staleUpdate.2.log.getLast?.map (Event.writes silentNet.order) = some true := by
    decide +kernel
  have hnone : ∀ e ∈ staleUpdate.2.log, ∀ fd, e ≠ .isMaster fd := by
    have hall : staleUpdate.2.log.all (fun e => !e.masters) = true := by decide +kernel
    intro e he fd heq
    subst heq
    simpa [Event.masters] using List.all_eq_true.mp hall _ he
  obtain ⟨e, hlog, he⟩ := Option.map_eq_some_iff.mp hlast
  obtain ⟨pre, hpre⟩ := List.getLast?_eq_some_iff.mp hlog
  cases e with
  | send fd p count =>
      have hmem := h pre fd p count [] hpre (by simpa [Event.writes] using he)
      exact hnone _ (by rw [hpre]; exact List.mem_append_left _ hmem) fd rfl
  | _ => cases he

end Astray

end LibMongo
