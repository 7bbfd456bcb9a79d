import LibMongo.Sync.Write

/-!
# A packet is submitted once

`_mongo_sync_packet_send` for any packet and any flags.  The log shows which packets went
to a socket, but a ping that reconnecting sends may look like the packet itself.  So
`watchedPacketSend` is the same loop with a list of its attempts, which the source does
not keep (`watchedPacketSend_erased`).

The loop makes two attempts at most, and the second only after the first failed
(`Submits`).  It succeeds exactly if one of them sends the whole packet, and then it
returns at once, with the socket and the request id of that attempt.
-/

namespace LibMongo

open Bytes Program

variable {σ : Type} (N : Net σ)

/-! ## Attempts -/

/-- A call of `mongo_packet_send`: the state before and the one after. -/
structure Attempt (σ : Type) where
  before : World σ
  after : World σ

namespace Attempt

/-- The socket it is made on. -/
def fd (a : Attempt σ) : Int := a.before.conn.fd

/-- The number of bytes the socket accepted. -/
def count (a : Attempt σ) : Option Nat :=
  match a.after.log.getLast? with
  | some (.send _ _ count) => count
  | _ => none

/-- The socket accepted the whole packet. -/
def Complete (p : MongoPacket) (a : Attempt σ) : Prop := p.Whole a.count

instance (p : MongoPacket) (a : Attempt σ) : Decidable (a.Complete p) :=
  inferInstanceAs (Decidable (p.Whole a.count))

end Attempt

/-! ## The loop with its attempts -/

/-- `mongo_packet_send`, with the states before and after it. -/
def watchedSend (p : MongoPacket) : Program (World σ) (Bool × Attempt σ) := do
  let w ← get
  let sent ← mongoPacketSend N p
  let u ← get
  return (sent, ⟨w, u⟩)

section Watching

variable (ensureConn reconnect : Bool → Program (World σ) Bool)

/-- A round of `mongoSyncPacketSendLoop`, with the attempts. -/
def watchedRound (p : MongoPacket) (forceMaster autoReconnect out : Bool)
    (again : Program (World σ) (Bool × List (Attempt σ))) :
    Program (World σ) (Bool × List (Attempt σ)) := do
  let (sent, a) ← watchedSend N p
  if sent then return (true, [a])
  else
    let w ← get
    if !autoReconnect || !w.conn.autoReconnect || out then
      setErrno w.errno
      return (false, [a])
    else
      let connected ← reconnect forceMaster
      if connected then
        let (ok, as) ← again
        return (ok, a :: as)
      else
        setErrno w.errno
        return (false, [a])

/-- The rounds, with the attempts. -/
def watchedLoop (p : MongoPacket) (forceMaster autoReconnect : Bool) :
    Program (World σ) (Bool × List (Attempt σ)) :=
  watchedRound N reconnect p forceMaster autoReconnect false
    (watchedRound N reconnect p forceMaster autoReconnect true (return (false, [])))

/-- `mongoSyncPacketSendWith`, with the attempts. -/
def watchedPacketSendWith (p : MongoPacket) (forceMaster autoReconnect : Bool) :
    Program (World σ) (Bool × List (Attempt σ)) := do
  let ready ← (if forceMaster then ensureConn forceMaster else pure true)
  if ready then watchedLoop N reconnect p forceMaster autoReconnect
  else return (false, [])

/-- `_mongo_sync_packet_send`, and the attempts it makes. -/
def watchedPacketSend (p : MongoPacket) (forceMaster autoReconnect : Bool) :
    Program (World σ) (Bool × List (Attempt σ)) :=
  watchedPacketSendWith N (mongoCmdEnsureConn N reconnect) reconnect p forceMaster autoReconnect

/-! ### Without the attempts it is the loop of the source -/

theorem watchedSend_erased (p : MongoPacket) :
    Prod.fst <$> watchedSend N p = mongoPacketSend N p := by
  funext w
  show (Prod.fst <$> watchedSend N p).exec w = (mongoPacketSend N p).exec w
  rw [map_eq_pure_bind, watchedSend, bind_assoc, exec_get_bind, bind_assoc, exec_bind]
  cases (mongoPacketSend N p).exec w with
  | mk r u =>
      cases r with
      | ok sent => rfl
      | error e => rfl

variable {reconnect}

theorem watchedRound_erased (p : MongoPacket) (forceMaster autoReconnect out : Bool)
    (again : Program (World σ) (Bool × List (Attempt σ))) :
    Prod.fst <$> watchedRound N reconnect p forceMaster autoReconnect out again
      = sendRound N reconnect p forceMaster autoReconnect out (Prod.fst <$> again) := by
  rw [watchedRound, map_bind, sendRound, ← watchedSend_erased, bind_map_left]
  congr 1
  funext x
  obtain ⟨sent, a⟩ := x
  cases sent with
  | true => rfl
  | false =>
      simp only [Bool.false_eq_true, if_false, map_bind]
      congr 1
      funext w
      split
      next => simp only [map_bind, map_pure]
      next =>
        rw [map_bind]
        congr 1
        funext connected
        cases connected with
        | true => simp only [if_true, map_eq_pure_bind, bind_assoc, pure_bind]
        | false => simp only [Bool.false_eq_true, if_false, map_bind, map_pure]

theorem watchedLoop_erased (p : MongoPacket) (forceMaster autoReconnect : Bool) :
    Prod.fst <$> watchedLoop N reconnect p forceMaster autoReconnect
      = sendLoop N reconnect p forceMaster autoReconnect := by
  rw [watchedLoop, watchedRound_erased, watchedRound_erased, map_pure, sendLoop]

theorem watchedPacketSend_erased (reconnect : Bool → Program (World σ) Bool) (p : MongoPacket)
    (forceMaster autoReconnect : Bool) :
    Prod.fst <$> watchedPacketSend N reconnect p forceMaster autoReconnect
      = mongoSyncPacketSend N reconnect p forceMaster autoReconnect := by
  rw [watchedPacketSend, watchedPacketSendWith, map_bind, mongoSyncPacketSend,
    mongoSyncPacketSendWith]
  congr 1
  funext ready
  cases ready with
  | true => exact watchedLoop_erased N p forceMaster autoReconnect
  | false => rfl

end Watching

/-- A call that returns has its attempts. -/
theorem exec_watchedPacketSend {reconnect : Bool → Program (World σ) Bool} {p : MongoPacket}
    {forceMaster autoReconnect ok : Bool} {w w' : World σ}
    (h : (mongoSyncPacketSend N reconnect p forceMaster autoReconnect).exec w = (.ok ok, w')) :
    ∃ as, (watchedPacketSend N reconnect p forceMaster autoReconnect).exec w
      = (.ok (ok, as), w') := by
  rw [← watchedPacketSend_erased, map_eq_pure_bind] at h
  obtain ⟨⟨ok', as⟩, u, hrun, hpure⟩ := exec_bind_eq_ok.mp h
  cases hpure
  exact ⟨as, hrun⟩

/-! ## What a call does -/

/-- Queries, and the attempts between them. -/
inductive Tries (o : ByteOrder) (p : MongoPacket) : List (Attempt σ) → List Event → Prop
  | rest {q : List Event} : Quiet o q → Tries o p [] q
  | attempt {q es : List Event} {a : Attempt σ} {as : List (Attempt σ)} : Quiet o q →
      Tries o p as es → Tries o p (a :: as) (q ++ .send a.fd p a.count :: es)

theorem Tries.after {o : ByteOrder} {p : MongoPacket} {as : List (Attempt σ)} {q es : List Event}
    (hq : Quiet o q) (h : Tries o p as es) : Tries o p as (q ++ es) := by
  cases h with
  | rest h => exact .rest (hq.append h)
  | attempt h hrest =>
      rw [← List.append_assoc]
      exact .attempt (hq.append h) hrest

/-- The result of a call, its attempts, and the connection when it returns. -/
inductive Submits (p : MongoPacket) (c : MongoSyncConnection) : Bool → List (Attempt σ) → Prop
  | failed {as : List (Attempt σ)} : as.length ≤ 2 → (∀ a ∈ as, ¬ a.Complete p) →
      Submits p c false as
  | sent {as : List (Attempt σ)} {a : Attempt σ} : as.length ≤ 1 → (∀ b ∈ as, ¬ b.Complete p) →
      a.Complete p → c = { a.before.conn with requestId := p.header.id } →
      Submits p c true (as ++ [a])

/-- One more attempt in front, which failed. -/
theorem Submits.cons {p : MongoPacket} {c : MongoSyncConnection} {ok : Bool} {a b : Attempt σ}
    (ha : ¬ a.Complete p) (h : Submits p c ok [b]) : Submits p c ok [a, b] := by
  have hfront : ∀ x ∈ [a], ¬ x.Complete p := by
    intro x hx
    rw [List.mem_singleton.mp hx]
    exact ha
  generalize hbs : [b] = bs at h
  cases h with
  | failed hlen hall =>
      subst hbs
      refine .failed le_rfl fun x hx => ?_
      rcases List.mem_cons.mp hx with rfl | hx
      · exact ha
      · exact hall x hx
  | @sent bs b' hlen hall hb hc =>
      obtain ⟨rfl, rfl⟩ : bs = [] ∧ b' = b := by
        cases bs with
        | nil => simpa using hbs.symm
        | cons x xs => simp at hbs
      have hsent : Submits p c true ([a] ++ [b']) := .sent le_rfl hfront hb hc
      exact hsent

section Calls

variable {N} {p : MongoPacket}

theorem watchedSend_spec (p : MongoPacket) (w : World σ) :
    wp (watchedSend N p)
      (fun r u => Submits p u.conn r.1 [r.2] ∧ (r.1 = true ↔ r.2.Complete p) ∧
        u.log = w.log ++ [.send r.2.fd p r.2.count])
      (fun _ => False) w := by
  rw [watchedSend, wp_bind, wp_get, wp_bind]
  refine wp_mono (mongoPacketSend_spec N p w) (fun sent u hu => ?_) (fun _ h => h)
  obtain ⟨count, hlog, hsent, -, hconn⟩ := hu
  rw [wp_bind, wp_get, wp_pure]
  have hcount : Attempt.count ⟨w, u⟩ = count := by
    simp [Attempt.count, hlog]
  have hcomplete : sent = true ↔ Attempt.Complete p ⟨w, u⟩ := by
    rw [Attempt.Complete, hcount, hsent]
  refine ⟨?_, hcomplete, ?_⟩
  · cases sent with
    | false =>
        refine .failed (by simp) fun a ha => ?_
        rw [List.mem_singleton.mp ha, ← hcomplete]
        exact Bool.false_ne_true
    | true =>
        have hone : Submits p u.conn true ([] ++ [⟨w, u⟩]) :=
          .sent (by simp) (by simp) (hcomplete.mp rfl) hconn
        exact hone
  · rw [hlog, hcount]
    rfl

variable {reconnect : Bool → Program (World σ) Bool} {forceMaster autoReconnect : Bool}

/-- The second round is the last. -/
theorem watchedRound_last {again : Program (World σ) (Bool × List (Attempt σ))} (w : World σ) :
    wp (watchedRound N reconnect p forceMaster autoReconnect true again)
      (fun r u => ∃ b, r.2 = [b] ∧ Submits p u.conn r.1 [b] ∧
        w.Since u fun es => Tries N.order p [b] es)
      (fun _ => False) w := by
  rw [watchedRound, wp_bind]
  refine wp_mono (watchedSend_spec p w) (fun r u hu => ?_) (fun _ h => h)
  obtain ⟨sent, b⟩ := r
  obtain ⟨hsubmits, -, hlog⟩ := hu
  have htries : w.Since u fun es => Tries N.order p [b] es :=
    ⟨_, hlog, .attempt .nil (.rest .nil)⟩
  cases sent with
  | true => exact ⟨b, rfl, hsubmits, htries⟩
  | false =>
      refine wp_ite (fun h => absurd h Bool.false_ne_true) (fun _ => ?_)
      rw [wp_bind, wp_get]
      refine wp_ite (fun _ => ⟨b, rfl, hsubmits, htries⟩) (fun hout => ?_)
      simp at hout

/-- What is known when the call returns. -/
def World.Submitted (o : ByteOrder) (p : MongoPacket) (w : World σ) (r : Bool × List (Attempt σ))
    (u : World σ) : Prop :=
  Submits p u.conn r.1 r.2 ∧ w.Since u fun es => Tries o p r.2 es

theorem watchedLoop_spec (hreconnect : ∀ force, Keeps (World.Roams N.order) (reconnect force))
    (w : World σ) :
    wp (watchedLoop N reconnect p forceMaster autoReconnect) (w.Submitted N.order p)
      (fun _ => True) w := by
  rw [watchedLoop, watchedRound, wp_bind]
  refine wp_mono (watchedSend_spec p w) (fun r u hu => ?_) (fun _ _ => trivial)
  obtain ⟨sent, a⟩ := r
  obtain ⟨hsubmits, hsent, hlog⟩ := hu
  have htries : w.Since u fun es => Tries N.order p [a] es :=
    ⟨_, hlog, .attempt .nil (.rest .nil)⟩
  cases sent with
  | true => exact ⟨hsubmits, htries⟩
  | false =>
      have ha : ¬ a.Complete p := fun h => Bool.false_ne_true (hsent.mpr h)
      refine wp_ite (fun h => absurd h Bool.false_ne_true) (fun _ => ?_)
      rw [wp_bind, wp_get]
      refine wp_ite (fun _ => ⟨hsubmits, htries⟩) (fun _ => ?_)
      rw [wp_bind]
      refine wp_mono (hreconnect forceMaster u) (fun connected v hv => ?_) (fun _ _ => trivial)
      obtain ⟨q, hq, hquiet⟩ := hv.log
      refine wp_ite (fun _ => ?_) (fun _ => ?_)
      · -- the second attempt, which is the last
        rw [wp_bind]
        refine wp_mono (watchedRound_last v) (fun r x hx => ?_) (fun _ _ => trivial)
        obtain ⟨ok, bs⟩ := r
        obtain ⟨b, rfl, hb, es, hes, hlast⟩ := hx
        refine ⟨hb.cons ha, _, ?_, .attempt .nil (hlast.after hquiet)⟩
        rw [hes, hq, hlog]
        simp
      · refine ⟨.failed (by simp) fun x hx => ?_, _, ?_, .attempt .nil (.rest hquiet)⟩
        · rwa [List.mem_singleton.mp hx]
        · show v.log = _
          rw [hq, hlog]
          simp

theorem watchedPacketSend_spec (fuel : Nat) (w : World σ) :
    wp (watchedPacketSend N (mongoSyncReconnect N fuel) p forceMaster autoReconnect)
      (w.Submitted N.order p) (fun _ => True) w := by
  have hroams := mongoSyncReconnect_roams N fuel
  have htalk : TalkRule N (World.Roams N.order) :=
    .of_polls N (World.Roams.frame _) fun _ _ h => h.roams
  have hensure : Keeps (World.Roams N.order)
      (if forceMaster then mongoCmdEnsureConn N (mongoSyncReconnect N fuel) forceMaster
        else pure true) :=
    Keeps.ite (mongoCmdEnsureConn_keeps htalk (World.Roams.frame _).halts
      ((mongoSyncCmdIsMaster_polls N).mono fun _ _ h => h.roams) hroams _)
      (Keeps.pure (World.Roams.frame _) _)
  rw [watchedPacketSend, watchedPacketSendWith, wp_bind]
  refine wp_mono (hensure w) (fun ready u hu => ?_) (fun _ _ => trivial)
  obtain ⟨q, hq, hquiet⟩ := hu.log
  refine wp_ite (fun _ => ?_) (fun _ => ?_)
  · refine wp_mono (watchedLoop_spec hroams u) (fun r v hv => ?_) (fun _ _ => trivial)
    obtain ⟨hsubmits, es, hes, htries⟩ := hv
    exact ⟨hsubmits, _, by rw [hes, hq, List.append_assoc], htries.after hquiet⟩
  · exact ⟨.failed (by simp) (by simp), q, hq, .rest hquiet⟩

end Calls

/-! ## Counting copies -/

/-- A socket accepts the whole packet. -/
def Event.submits (p : MongoPacket) : Event → Bool
  | .send _ p' count => p' = p ∧ p.Whole count
  | _ => false

/-- The attempts that sent the whole packet. -/
def copies (p : MongoPacket) (as : List (Attempt σ)) : Nat :=
  as.countP fun a => decide (a.Complete p)

section Counting

variable {o : ByteOrder} {p : MongoPacket} {c : MongoSyncConnection} {ok : Bool}
  {as : List (Attempt σ)} {es : List Event}

theorem copies_eq_zero (h : ∀ a ∈ as, ¬ a.Complete p) : copies p as = 0 := by
  rw [copies, List.countP_eq_zero]
  intro a ha
  simpa using h a ha

theorem Submits.copies_eq (h : Submits p c ok as) : copies p as = if ok then 1 else 0 := by
  cases h with
  | failed _ hall => exact copies_eq_zero hall
  | sent _ hall ha _ =>
      rw [copies, List.countP_append, ← copies, copies_eq_zero hall]
      simp [ha]

theorem Submits.length_le (h : Submits p c ok as) : as.length ≤ 2 := by
  cases h with
  | failed hlen _ => exact hlen
  | sent hlen _ _ _ =>
      rw [List.length_append, List.length_singleton]
      omega

/-- The attempt that sent it leaves the connection with the id of the packet. -/
theorem Submits.held (h : Submits p c true as) :
    ∃ a ∈ as, a.Complete p ∧ c = { a.before.conn with requestId := p.header.id } := by
  cases h with
  | sent _ _ ha hc => exact ⟨_, by simp, ha, hc⟩

/-- A packet that is no query looks like none that reconnecting sends. -/
theorem Quiet.submits_eq_zero (hq : Quiet o es) (hp : ¬ p.HasOpcode o .query) :
    es.countP (Event.submits p) = 0 := by
  rw [List.countP_eq_zero]
  intro e he
  have hquiet := hq e he
  cases e with
  | send fd p' count =>
      simp only [Event.submits, decide_eq_true_eq, not_and]
      rintro rfl
      exact absurd hquiet hp
  | _ => simp [Event.submits]

theorem Tries.submits_eq (h : Tries o p as es) (hp : ¬ p.HasOpcode o .query) :
    es.countP (Event.submits p) = copies p as := by
  induction h with
  | rest hq => exact hq.submits_eq_zero hp
  | @attempt q es a as hq _ ih =>
      have hsend : Event.submits p (.send a.fd p a.count) = decide (a.Complete p) := by
        rw [Event.submits, decide_eq_decide]
        exact and_iff_right rfl
      rw [List.countP_append, hq.submits_eq_zero hp, List.countP_cons, ih, hsend, copies, copies,
        List.countP_cons, Nat.zero_add]

end Counting

/-- Whatever the outside does, a call that returns makes two attempts at most.  It returns
`TRUE` exactly if one complete copy of the packet was accepted, on the socket that the
connection holds then, and its request id is that of the packet.  If it returns `FALSE`,
no complete copy was accepted.  For a packet that is no query these copies are all there
are in the log. -/
theorem packet_submitted_once (fuel : Nat) (p : MongoPacket) (forceMaster autoReconnect ok : Bool)
    (w w' : World σ)
    (h : (mongoSyncPacketSend N (mongoSyncReconnect N fuel) p forceMaster autoReconnect).exec w
      = (.ok ok, w')) :
    ∃ as, (watchedPacketSend N (mongoSyncReconnect N fuel) p forceMaster autoReconnect).exec w
        = (.ok (ok, as), w') ∧
      as.length ≤ 2 ∧ (ok = true ↔ copies p as = 1) ∧ (ok = false ↔ copies p as = 0) ∧
      (ok = true → ∃ a ∈ as, a.Complete p ∧ w'.conn.fd = a.fd ∧
        w'.conn.requestId = (mongoWirePacketGetHeaderRaw p).id) ∧
      (¬ p.HasOpcode N.order .query →
        w.Since w' fun es => es.countP (Event.submits p) = copies p as) := by
  obtain ⟨as, hrun⟩ := exec_watchedPacketSend N h
  obtain ⟨hsubmits, htries⟩ := wp_ok (watchedPacketSend_spec fuel w) hrun
  have hcopies := hsubmits.copies_eq
  dsimp only at hcopies
  refine ⟨as, hrun, hsubmits.length_le, ?_, ?_, ?_, ?_⟩
  · rw [hcopies]
    cases ok <;> simp
  · rw [hcopies]
    cases ok <;> simp
  · rintro rfl
    obtain ⟨a, ha, hcomplete, hconn⟩ := hsubmits.held
    dsimp only at ha hconn
    exact ⟨a, ha, hcomplete, by rw [hconn]; rfl, by rw [hconn]; rfl⟩
  · intro hp
    exact htries.mono fun es hes => hes.submits_eq hp

/-! ## A packet that is cut off -/

section Stutter

/-- The first packet is cut off, and nothing is ever received.  One connection can be
opened. -/
def stutterNet : Net Nat :=
  { silentNet with
    tcp := fun _ _ _ n => (if n = 2 then .connected else .refused, n + 1)
    sendmsg := fun _ bytes n => (.ok (if n = 0 then 20 else bytes.length), n + 1) }

/-- The packet of an update. -/
def stutterPacket : MongoPacket := ⟨⟨24, 1, 0, 2001⟩, some [0, 0, 0, 0, 0, 0, 0, 0], 8⟩

/-- The state in which it has been sent. -/
def stutterSent : World Nat :=
  ((mongoSyncPacketSend stutterNet (mongoSyncReconnect stutterNet 2) stutterPacket false
    true).exec staleWorld).2

/-- It is sent once more, after reconnecting, and accepted once. -/
theorem packet_submitted_once_stutter :
    ∃ as, (watchedPacketSend stutterNet (mongoSyncReconnect stutterNet 2) stutterPacket false
        true).exec staleWorld = (.ok (true, as), stutterSent) ∧
      as.length ≤ 2 ∧ copies stutterPacket as = 1 := by
  have hrun : (mongoSyncPacketSend stutterNet (mongoSyncReconnect stutterNet 2) stutterPacket
      false true).exec staleWorld = (.ok true, stutterSent) :=
    exec_of_fst (by decide +kernel) rfl
  obtain ⟨as, hwatched, hlen, hone, -⟩ :=
    packet_submitted_once stutterNet 2 stutterPacket false true true staleWorld stutterSent hrun
  exact ⟨as, hwatched, hlen, hone.mp rfl⟩

end Stutter

end LibMongo
