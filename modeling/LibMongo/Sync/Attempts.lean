import LibMongo.Sync.Master

/-!
# Attempts to send a write

`_mongo_sync_packet_send` on the packet of a write.  `Attempts o p ok es` says
what happens in the events `es` of a call that returns `ok`: queries only up to
the first attempt, and queries only between that one and the second.  A second
attempt is made only after a first one failed, and the call succeeds exactly if
the last attempt does.  Each attempt is made on a master or astray.

`Bulk.lean` counts the packets that were sent, and `Write.lean` looks at their
sockets.
-/

namespace LibMongo

open Bytes Program

variable {σ : Type} (N : Net σ)

/-- Events that are no writes. -/
def Quiet (o : ByteOrder) (es : List Event) : Prop := ∀ e ∈ es, e.Quiet o

theorem Quiet.nil {o : ByteOrder} : Quiet o [] := by simp [Quiet]

theorem Quiet.append {o : ByteOrder} {es es' : List Event} (h : Quiet o es) (h' : Quiet o es') :
    Quiet o (es ++ es') :=
  fun e he => (List.mem_append.mp he).elim (h e) (h' e)

/-- The events of a call that sends the packet of a write. -/
inductive Attempts (o : ByteOrder) (p : MongoPacket) : Bool → List Event → Prop
  | none {q} : Quiet o q → Attempts o p false q
  | once {ok q fd count} : Quiet o q → Reached fd q → (ok = true ↔ p.Whole count) →
      Attempts o p ok (q ++ [.send fd p count])
  | lost {q fd count q'} : Quiet o q → Reached fd q → ¬ p.Whole count → Quiet o q' →
      Attempts o p false (q ++ [.send fd p count] ++ q')
  | twice {ok q fd count q' fd' count'} : Quiet o q → Reached fd q → ¬ p.Whole count →
      Quiet o q' → Reached fd' q' → (ok = true ↔ p.Whole count') →
      Attempts o p ok (q ++ [.send fd p count] ++ q' ++ [.send fd' p count'])

section Ensuring

variable {reconnect : Bool → Program (World σ) Bool}

/-- What the connection is known to be when a master was asked for. -/
def Ready (o : ByteOrder) (w : World σ) (ok : Bool) (w' : World σ) : Prop :=
  w.Roams o w' ∧ (ok = true → w.Mastered w')

theorem Ready.since {o : ByteOrder} {w w' : World σ} (h : Ready o w true w') :
    w.Since w' fun es => Quiet o es ∧ Reached w'.conn.fd es :=
  World.Since.and h.1.log (h.2 rfl)

/-- `_mongo_cmd_ensure_conn` succeeds on a master. -/
theorem ensureMaster_ready (hroams : ∀ force, Keeps (World.Roams N.order) (reconnect force))
    (hready : ∀ w, wp (reconnect true) (Ready N.order w) (w.Roams N.order) w) (w : World σ) :
    wp (ensureMaster N reconnect) (Ready N.order w) (w.Roams N.order) w := by
  have hmastered : wp (ensureMaster N reconnect) (fun ok w' => ok = true → w.Mastered w')
      (fun _ => True) w := by
    have hfalse : ∀ u : World σ, false = true → w.Mastered u := fun _ h => by cases h
    rw [ensureMaster, wp_bind, wp_setErrno, wp_bind]
    have herrno := setErrno_polls N.order .ok w
    refine wp_mono (wp_and (mongoSyncCmdIsMaster_polls N _) (mongoSyncCmdIsMaster_mastered N _))
      (fun master u hu => ?_) (fun _ _ => trivial)
    have hanchored : w.Anchored u := World.Anchored.frame.trans herrno.anchored hu.1.anchored
    refine wp_ite (fun hmaster _ => herrno.anchored.mastered (hu.2 hmaster)) (fun _ => ?_)
    rw [wp_bind, wp_get]
    refine wp_ite (fun _ => hfalse _) (fun _ => wp_ite (fun _ => hfalse _) (fun _ => ?_))
    exact wp_mono (hready u) (fun _ _ h hok => hanchored.mastered (h.2 hok)) (fun _ _ => trivial)
  have hkeeps := ensureMaster_keeps (.of_polls N (World.Roams.frame _) fun _ _ h => h.roams)
    (World.Roams.frame _).halts ((mongoSyncCmdIsMaster_polls N).mono fun _ _ h => h.roams) hroams w
  exact wp_mono (wp_and hkeeps hmastered) (fun _ _ h => h) (fun _ h => h.1)

end Ensuring

theorem mongoSyncReconnect_ready (fuel : Nat) (w : World σ) :
    wp (mongoSyncReconnect N fuel true) (Ready N.order w) (w.Roams N.order) w :=
  wp_mono (wp_and (mongoSyncReconnect_roams N fuel true w) (mongoSyncReconnect_adopted N fuel true w))
    (fun _ _ h => ⟨h.1, h.2.2⟩) (fun _ h => h.1)

/-- What the call leaves behind. -/
def Attempted (o : ByteOrder) (p : MongoPacket) (w : World σ) (ok : Bool) (w' : World σ) : Prop :=
  w.conn.SameSettings w'.conn ∧ w.Since w' (Attempts o p ok)

/-- The second round of the loop: one more attempt, the last. -/
theorem sendRound_last (fuel : Nat) (p : MongoPacket) (w : World σ) :
    wp (sendRound N (mongoSyncReconnect N fuel) p true true true (return false))
      (fun ok w' => w.conn.SameSettings w'.conn ∧ w.Since w' fun es =>
        ∃ count, (ok = true ↔ p.Whole count) ∧ es = [.send w.conn.fd p count])
      (fun _ => False) w := by
  rw [sendRound, wp_bind]
  refine wp_mono (mongoPacketSend_spec N p w) (fun ok u hu => ?_) (fun _ h => h)
  obtain ⟨count, hlog, hok, -, hconn⟩ := hu
  have hsettings : w.conn.SameSettings u.conn := by
    rw [hconn]
    exact ⟨rfl, rfl, rfl, rfl, rfl, rfl⟩
  refine wp_ite (fun hsent => ?_) (fun hsent => ?_)
  · exact ⟨hsettings, _, hlog, count, by rw [← hok, hsent], rfl⟩
  · rw [wp_bind, wp_get]
    refine wp_ite (fun _ => ?_) (fun hout => ?_)
    · refine ⟨hsettings, _, hlog, count, ?_, rfl⟩
      rw [← hok]
      simp [hsent]
    · simp at hout

/-- Sending the packet of a write makes at most two attempts. -/
theorem mongoSyncPacketSend_attempts (fuel : Nat) (p : MongoPacket) (w : World σ) :
    wp (mongoSyncPacketSend N (mongoSyncReconnect N fuel) p true true)
      (Attempted N.order p w) (fun w' => w.Since w' (Attempts N.order p false)) w := by
  have hready := mongoSyncReconnect_ready N fuel
  have hroams := mongoSyncReconnect_roams N fuel
  rw [mongoSyncPacketSend, mongoSyncPacketSendWith, if_pos rfl, wp_bind]
  refine wp_mono (ensureMaster_ready N hroams hready w) (fun ready u hu => ?_)
    (fun u hu => hu.log.mono fun _ => .none)
  refine wp_ite (fun hready' => ?_) (fun _ => ⟨hu.1.settings, hu.1.log.mono fun _ => .none⟩)
  subst hready'
  obtain ⟨q, hq, hquiet, hreached⟩ := hu.since
  -- the first round
  rw [sendLoop, sendRound, wp_bind]
  refine wp_mono (mongoPacketSend_spec N p u) (fun sent v hv => ?_) (fun _ h => h.elim)
  obtain ⟨count, hlog, hsent, -, hconn⟩ := hv
  have hsettings : w.conn.SameSettings v.conn := by
    refine hu.1.settings.trans ?_
    rw [hconn]
    exact ⟨rfl, rfl, rfl, rfl, rfl, rfl⟩
  have hes : v.log = w.log ++ (q ++ [.send u.conn.fd p count]) := by
    rw [hlog, hq, List.append_assoc]
  refine wp_ite (fun hok => ⟨hsettings, _, hes, .once hquiet hreached (by rw [← hsent, hok])⟩)
    (fun hok => ?_)
  have hcount : ¬ p.Whole count := fun h => hok (hsent.mpr h)
  have hfailed : Attempts N.order p false (q ++ [.send u.conn.fd p count]) :=
    .once hquiet hreached (by simp [hcount])
  rw [wp_bind, wp_get]
  refine wp_ite (fun _ => ⟨hsettings, _, hes, hfailed⟩) (fun _ => ?_)
  -- the second round, on the socket of the new connection
  have hlost : ∀ {x : World σ}, v.Roams N.order x → w.Since x (Attempts N.order p false) := by
    intro x hx
    obtain ⟨q', hq', hquiet'⟩ := hx.log
    exact ⟨_, by rw [hq', hes, List.append_assoc], .lost hquiet hreached hcount hquiet'⟩
  rw [wp_bind]
  refine wp_mono (hready v) (fun connected x hx => ?_) (fun x hx => hlost hx)
  refine wp_ite (fun hconnected => ?_) (fun _ => ?_)
  swap
  · exact ⟨hsettings.trans hx.1.settings, hlost ⟨hx.1.settings, hx.1.log, hx.1.auth⟩⟩
  subst hconnected
  obtain ⟨q', hq', hquiet', hreached'⟩ := hx.since
  refine wp_mono (sendRound_last N fuel p x) (fun ok y hy => ?_) (fun _ h => h.elim)
  obtain ⟨hsettings', es, hy, count', hok', rfl⟩ := hy
  refine ⟨(hsettings.trans hx.1.settings).trans hsettings', _, ?_,
    .twice hquiet hreached hcount hquiet' hreached' hok'⟩
  rw [hy, hq', hes]
  simp only [List.append_assoc]

end LibMongo
