import LibMongo.Base.Counter
import LibMongo.Sync.Pairing

/-!
# The numbers of packets

The packets of a connection are numbered from a counter, the request id that the connection
remembers.  A packet is numbered before it is sent, and the counter only follows when it is sent
completely.  So a number is the next one only as long as nothing else is sent in between.

Two things go wrong in this when the connection is lost.  A packet that is sent again keeps its
number, although the reconnection has sent others (`Resent`).  And a connection that takes over
the socket of another forgets what was sent there (`Restarted`).  `World.Numbers` says that
otherwise the numbers are drawn from the counters one after the other, and
`mongoSyncReconnect_numbers` that reconnecting is no exception.
-/

namespace LibMongo

open Bytes Program Counter

variable {σ : Type} (N : Net σ)

/-! ## Numbers -/

/-- The number behind `r`, as it stands in the header of a packet. -/
def nextId (o : ByteOrder) (r : BitVec 32) : BitVec 32 := o.le32 (r + 1)

theorem iterate_nextId_little (k : Nat) (r : BitVec 32) :
    (nextId .little)^[k] r = r + BitVec.ofNat 32 k := by
  induction k with
  | zero => simp
  | succ k ih =>
      rw [Function.iterate_succ_apply', ih, nextId]
      show r + BitVec.ofNat 32 k + 1 = _
      rw [BitVec.add_assoc]
      simp [BitVec.ofNat_add]

/-- A little-endian host has as many numbers as there are words. -/
theorem minimalPeriod_little (r : BitVec 32) :
    Function.minimalPeriod (nextId .little) r = 2 ^ 32 := by
  have hreturn : Function.IsPeriodicPt (nextId .little) (2 ^ 32) r := by
    rw [Function.IsPeriodicPt, Function.IsFixedPt, iterate_nextId_little]
    exact BitVec.add_zero r
  have hpos := hreturn.minimalPeriod_pos (by decide)
  refine le_antisymm (hreturn.minimalPeriod_le (by decide)) ?_
  by_contra hlt
  have hback : (nextId .little)^[Function.minimalPeriod (nextId .little) r] r = r :=
    Function.iterate_minimalPeriod
  rw [iterate_nextId_little] at hback
  have hzero : BitVec.ofNat 32 (Function.minimalPeriod (nextId .little) r) = 0 := by
    simpa using hback
  have hnat := congrArg BitVec.toNat hzero
  rw [BitVec.toNat_ofNat, Nat.mod_eq_of_lt (by omega)] at hnat
  exact Nat.ne_of_gt hpos hnat

/-- The number of a packet that is sent completely on this socket. -/
def Event.sentId (fd : Int) : Event → Option (BitVec 32)
  | .send fd' p count => if fd' = fd ∧ p.Whole count then some p.header.id else none
  | _ => none

/-- The numbers of the packets that were sent completely on this socket, in order. -/
def sentIds (fd : Int) (es : List Event) : List (BitVec 32) := es.filterMap (Event.sentId fd)

@[simp] theorem sentIds_nil (fd : Int) : sentIds fd [] = [] := rfl

@[simp] theorem sentIds_append (fd : Int) (es es' : List Event) :
    sentIds fd (es ++ es') = sentIds fd es ++ sentIds fd es' := List.filterMap_append ..

theorem sentIds_whole {fd : Int} {p : MongoPacket} {count : Option Nat} (h : p.Whole count) :
    sentIds fd [.send fd p count] = [p.header.id] := by
  simp [sentIds, Event.sentId, h]

theorem sentIds_part {fd fd' : Int} {p : MongoPacket} {count : Option Nat} (h : ¬ p.Whole count) :
    sentIds fd [.send fd' p count] = [] := by
  simp [sentIds, Event.sentId, h]

theorem sentIds_elsewhere {fd fd' : Int} {p : MongoPacket} {count : Option Nat} (h : fd' ≠ fd) :
    sentIds fd [.send fd' p count] = [] := by
  simp [sentIds, Event.sentId, h]

/-- Events that are no packets have no numbers. -/
theorem sentIds_eq_nil {fd : Int} {es : List Event} (h : ∀ fd p count, .send fd p count ∉ es) :
    sentIds fd es = [] := by
  rw [sentIds, List.filterMap_eq_nil_iff]
  intro e he
  cases e with
  | send fd' p count => exact absurd he (h fd' p count)
  | _ => rfl

/-! ## Events that disturb the numbering -/

/-- A packet that could not be sent is sent under its old number, on a socket on which others
have been sent since. -/
def Resent (es : List Event) : Prop :=
  ∃ pre fd p n mid fd' m post, es = pre ++ .send fd p n :: (mid ++ .send fd' p m :: post) ∧
    ¬ p.Whole n ∧ sentIds fd' mid ≠ [] ∧ p.Whole m

/-- The connection takes over a socket on which packets have been sent, and numbers what it sends
there from the beginning. -/
def Restarted (es : List Event) : Prop :=
  ∃ pre force fd post, es = pre ++ .replace force (some fd) :: post ∧ sentIds fd pre ≠ []

theorem Resent.extend {es : List Event} (h : Resent es) (pre' post' : List Event) :
    Resent (pre' ++ es ++ post') := by
  obtain ⟨pre, fd, p, n, mid, fd', m, post, rfl, hpart, hsent, hwhole⟩ := h
  exact ⟨pre' ++ pre, fd, p, n, mid, fd', m, post ++ post', by simp, hpart, hsent, hwhole⟩

theorem Restarted.extend {es : List Event} (h : Restarted es) (pre' post' : List Event) :
    Restarted (pre' ++ es ++ post') := by
  obtain ⟨pre, force, fd, post, rfl, hsent⟩ := h
  refine ⟨pre' ++ pre, force, fd, post ++ post', by simp, fun hnil => hsent ?_⟩
  rw [sentIds_append] at hnil
  exact (List.append_eq_nil_iff.mp hnil).2

/-- Neither happens. -/
structure Orderly (es : List Event) : Prop where
  resent : ¬ Resent es
  restarted : ¬ Restarted es

theorem Orderly.part {pre es post : List Event} (h : Orderly (pre ++ es ++ post)) : Orderly es where
  resent hes := h.resent (hes.extend pre post)
  restarted hes := h.restarted (hes.extend pre post)

theorem Orderly.left {es es' : List Event} (h : Orderly (es ++ es')) : Orderly es := by
  have hpart : Orderly ([] ++ es ++ es') := h
  exact hpart.part

theorem Orderly.right {es es' : List Event} (h : Orderly (es ++ es')) : Orderly es' := by
  have hpart : Orderly (es ++ es' ++ []) := by rwa [List.append_nil]
  exact hpart.part

/-- Packets that are all sent at once, on a socket that is never replaced. -/
theorem Orderly.of_whole {es : List Event} (hwhole : ∀ fd p n, .send fd p n ∈ es → p.Whole n)
    (hstays : ∀ force fd, .replace force (some fd) ∉ es) : Orderly es where
  resent := by
    rintro ⟨pre, fd, p, n, mid, fd', m, post, rfl, hpart, -⟩
    exact hpart (hwhole fd p n (by simp))
  restarted := by
    rintro ⟨pre, force, fd, post, rfl, -⟩
    exact hstays force fd (by simp)

/-! ## Drawing from the counters -/

/-- On each socket the numbers of the packets of these events are drawn one after the other, on
the own socket from the counter of the connection. -/
structure World.Numbered (o : ByteOrder) (w w' : World σ) (es : List Event) : Prop where
  nextFd : w.nextFd ≤ w'.nextFd
  named : w'.conn.fd < w'.nextFd
  fd : w'.conn.fd = w.conn.fd ∨ w.nextFd ≤ w'.conn.fd
  fresh : ∀ fd, fd ≠ w.conn.fd → sentIds fd es ≠ [] → w.nextFd ≤ fd ∧ fd < w'.nextFd
  drawn : ∀ fd, ∃ r r', (fd = w.conn.fd → r = w.conn.requestId) ∧
    Drawn (nextId o) r (sentIds fd es) r' ∧ (fd = w'.conn.fd → r' = w'.conn.requestId)

/-- Unless something disturbs the numbering, all packets are numbered in order. -/
def World.Numbers (o : ByteOrder) (w w' : World σ) : Prop :=
  w.Since w' fun es => w.conn.fd < w.nextFd → Orderly es → w.Numbered o w' es

/-- Nothing was sent, and the counter is the same. -/
theorem World.Numbered.silent {o : ByteOrder} {w w' : World σ} {es : List Event}
    (hnamed : w.conn.fd < w.nextFd) (hes : ∀ fd, sentIds fd es = [])
    (hfd : w'.conn.fd = w.conn.fd) (hnext : w.nextFd ≤ w'.nextFd)
    (hid : w'.conn.requestId = w.conn.requestId) : w.Numbered o w' es where
  nextFd := hnext
  named := by omega
  fd := .inl hfd
  fresh fd _ hne := absurd (hes fd) hne
  drawn fd := by
    refine ⟨w.conn.requestId, w.conn.requestId, fun _ => rfl, ?_, fun _ => hid.symm⟩
    rw [hes fd]
    exact .nil _

theorem World.Numbered.trans {o : ByteOrder} {u v w : World σ} {es es' : List Event}
    (h : u.Numbered o v es) (h' : v.Numbered o w es') (hnamed : u.conn.fd < u.nextFd) :
    u.Numbered o w (es ++ es') where
  nextFd := h.nextFd.trans h'.nextFd
  named := h'.named
  fd := by
    have hnext := h.nextFd
    have hfd := h.fd
    have hfd' := h'.fd
    omega
  fresh fd hne hsent := by
    have hnext := h.nextFd
    have hnext' := h'.nextFd
    rw [sentIds_append] at hsent
    by_cases hfirst : sentIds fd es = []
    · rw [hfirst, List.nil_append] at hsent
      by_cases hown : fd = v.conn.fd
      · have hfd := h.fd
        have hnamed' := h.named
        omega
      · have hrange := h'.fresh fd hown hsent
        omega
    · have hrange := h.fresh fd hne hfirst
      omega
  drawn fd := by
    obtain ⟨r, r', hr, hdrawn, hr'⟩ := h.drawn fd
    obtain ⟨s, s', hs, hdrawn', hs'⟩ := h'.drawn fd
    rw [sentIds_append]
    have hnext := h.nextFd
    have hfd := h.fd
    have hfd' := h'.fd
    by_cases hown : fd = v.conn.fd
    · -- the socket the first part ends on
      have hlink : s = r' := (hs hown).trans (hr' hown).symm
      rw [hlink] at hdrawn'
      exact ⟨r, s', hr, hdrawn.append hdrawn', hs'⟩
    · by_cases hnew : (v.nextFd : Int) ≤ fd
      · -- a socket of the second part
        have hfirst : sentIds fd es = [] := by
          by_contra hsent
          have hrange := h.fresh fd (by omega) hsent
          omega
        rw [hfirst]
        exact ⟨s, s', fun h => by omega, hdrawn', hs'⟩
      · have hsecond : sentIds fd es' = [] := by
          by_contra hsent
          have hrange := h'.fresh fd hown hsent
          omega
        rw [hsecond, List.append_nil]
        exact ⟨r, r', hr, hdrawn, fun h => by omega⟩

theorem World.Numbers.frame (o : ByteOrder) : Frame (World.Numbers (σ := σ) o) where
  refl _ := .nil fun hnamed _ => .silent hnamed (fun _ => rfl) rfl le_rfl rfl
  trans h h' := h.append h' fun _ _ hes hes' hnamed horderly =>
    have hfirst := hes hnamed horderly.left
    hfirst.trans (hes' hfirst.named horderly.right) hnamed

/-- Nothing was sent, and the connection is on the same socket. -/
theorem World.Numbers.silent {o : ByteOrder} {w w' : World σ} {es : List Event}
    (hlog : w'.log = w.log ++ es) (hes : ∀ fd p count, .send fd p count ∉ es)
    (hfd : w'.conn.fd = w.conn.fd) (hnext : w.nextFd ≤ w'.nextFd)
    (hid : w'.conn.requestId = w.conn.requestId) : w.Numbers o w' :=
  ⟨es, hlog, fun hnamed _ => .silent hnamed (fun _ => sentIds_eq_nil hes) hfd hnext hid⟩

/-- Nothing happened at all. -/
theorem World.Numbers.same_log {o : ByteOrder} {w w' : World σ} (hlog : w'.log = w.log)
    (hfd : w'.conn.fd = w.conn.fd) (hnext : w.nextFd ≤ w'.nextFd)
    (hid : w'.conn.requestId = w.conn.requestId) : w.Numbers o w' :=
  .silent (hlog.trans (List.append_nil _).symm) (by simp) hfd hnext hid

theorem World.Still.numbers (o : ByteOrder) {w w' : World σ} (h : w.Still w') : w.Numbers o w' :=
  .same_log h.log (by rw [h.conn]) (by rw [h.nextFd]) (by rw [h.conn])

/-- What is known of the events up to a state that is known to be reached. -/
theorem World.Numbers.numbered {o : ByteOrder} {w w' : World σ} {es : List Event}
    (h : w.Numbers o w') (hlog : w'.log = w.log ++ es) (hnamed : w.conn.fd < w.nextFd)
    (hes : Orderly es) : w.Numbered o w' es := by
  obtain ⟨es', hes', hnumbered⟩ := h
  have hsame : es = es' := List.append_cancel_left (hlog.symm.trans hes')
  subst hsame
  exact hnumbered hnamed hes

/-! ## Sending -/

/-- The packet has the number that is the next one on the connection. -/
def MongoPacket.Next (o : ByteOrder) (p : MongoPacket) (c : MongoSyncConnection) : Prop :=
  (mongoWirePacketGetHeader o p).id = c.requestId + 1

theorem MongoPacket.Next.id {o : ByteOrder} {p : MongoPacket} {c : MongoSyncConnection}
    (h : p.Next o c) : p.header.id = nextId o c.requestId := by
  rw [nextId, ← h]
  exact (ByteOrder.le32_le32 o p.header.id).symm

/-- A packet that was numbered at `w` is sent before any other is on the socket. -/
theorem World.Numbered.sends {o : ByteOrder} {w v x : World σ} {es : List Event} {p : MongoPacket}
    {count : Option Nat} (h : w.Numbered o v es) (hp : p.Next o w.conn)
    (hes : sentIds v.conn.fd es = []) (hwhole : p.Whole count) (hnext : x.nextFd = v.nextFd)
    (hfd : x.conn.fd = v.conn.fd) (hid : x.conn.requestId = p.header.id) :
    w.Numbered o x (es ++ [.send v.conn.fd p count]) where
  nextFd := by
    rw [hnext]
    exact h.nextFd
  named := by
    rw [hnext, hfd]
    exact h.named
  fd := by
    rw [hfd]
    exact h.fd
  fresh fd hne hsent := by
    rw [hnext]
    by_cases hown : fd = v.conn.fd
    · have hnamed := h.named
      have hmoved := h.fd
      omega
    · rw [sentIds_append, sentIds_elsewhere (Ne.symm hown), List.append_nil] at hsent
      exact h.fresh fd hne hsent
  drawn fd := by
    rw [hfd]
    by_cases hown : fd = v.conn.fd
    · subst hown
      rw [sentIds_append, hes, sentIds_whole hwhole, List.nil_append, hid, hp.id]
      exact ⟨_, _, fun _ => rfl, .one _, fun _ => rfl⟩
    · rw [sentIds_append, sentIds_elsewhere (Ne.symm hown), List.append_nil]
      obtain ⟨r, r', hr, hdrawn, -⟩ := h.drawn fd
      exact ⟨r, r', hr, hdrawn, fun h => absurd h hown⟩

theorem setErrno_numbers (e : Errno) : Keeps (World.Numbers (σ := σ) N.order) (setErrno e) :=
  fun _ => .same_log rfl rfl le_rfl rfl

theorem fail_numbers (e : Errno) :
    Keeps (World.Numbers (σ := σ) N.order) (do setErrno e; return false) :=
  Keeps.bind (World.Numbers.frame N.order) (setErrno_numbers N e) fun _ =>
    Keeps.pure (World.Numbers.frame N.order) _

/-- Storing something else than the socket and the counter. -/
theorem setConn_numbers {f : MongoSyncConnection → MongoSyncConnection}
    (hf : ∀ c, (f c).fd = c.fd ∧ (f c).requestId = c.requestId) :
    Keeps (World.Numbers (σ := σ) N.order) (setConn f) := fun w =>
  .same_log rfl (hf w.conn).1 le_rfl (hf w.conn).2

theorem reply_numbers (rid flags : BitVec 32) (checkOk : Bool) :
    Keeps (World.Numbers (σ := σ) N.order) (mongoSyncPacketRecv N rid flags >>= fun p =>
      mongoSyncPacketCheckError p checkOk) := by
  have hF := World.Numbers.frame (σ := σ) N.order
  refine Keeps.bind hF (mongoSyncPacketRecv_keeps N hF (setErrno_numbers N)
    ((mongoPacketRecv_still N).mono fun _ _ h => h.numbers N.order) rid flags) fun p => ?_
  exact mongoSyncPacketCheckError_keeps hF (setErrno_numbers N)
    (fun err => setConn_numbers N fun _ => ⟨rfl, rfl⟩) p checkOk

/-- An attempt that fails leaves the counter alone. -/
theorem numbers_of_part {o : ByteOrder} {v x : World σ} {p : MongoPacket} {count : Option Nat}
    (hlog : x.log = v.log ++ [.send v.conn.fd p count]) (hpart : ¬ p.Whole count)
    (hnext : x.nextFd = v.nextFd) (hfd : x.conn.fd = v.conn.fd)
    (hid : x.conn.requestId = v.conn.requestId) : v.Numbers o x := by
  refine ⟨_, hlog, fun hnamed _ => .silent hnamed (fun _ => ?_) hfd (by rw [hnext]) hid⟩
  exact sentIds_part hpart

/-- The same of two states. -/
theorem World.Numbers.sends {o : ByteOrder} {w u x : World σ} {p : MongoPacket} {n : Option Nat}
    (hu : w.Numbers o u) (hp : p.Next o w.conn) (hwhole : p.Whole n)
    (hlog : x.log = u.log ++ [.send u.conn.fd p n]) (hnext : x.nextFd = u.nextFd)
    (hfd : x.conn.fd = u.conn.fd) (hid : x.conn.requestId = p.header.id)
    (hquiet : ∀ es, u.log = w.log ++ es → w.conn.fd < w.nextFd →
      Orderly (es ++ [.send u.conn.fd p n]) → sentIds u.conn.fd es = []) : w.Numbers o x := by
  obtain ⟨es, hes, hnumbered⟩ := hu
  refine ⟨es ++ [.send u.conn.fd p n], by rw [hlog, hes, List.append_assoc],
    fun hnamed horderly => ?_⟩
  have hsocket := hquiet es hes hnamed horderly
  exact (hnumbered hnamed horderly.left).sends hp hsocket hwhole hnext hfd hid

/-- A second attempt goes to a socket on which nothing was sent since the first. -/
theorem sentIds_again {o : ByteOrder} {w u v t : World σ} {p : MongoPacket} {n m : Option Nat}
    (hu : w.Numbers o u) (huv : u.Numbers o v) (hvt : v.Numbers o t)
    (hlog : v.log = u.log ++ [.send u.conn.fd p n]) (hfd : v.conn.fd = u.conn.fd)
    (hpart : ¬ p.Whole n) (hwhole : p.Whole m)
    (hquiet : ∀ es, u.log = w.log ++ es → sentIds u.conn.fd es = []) {es : List Event}
    (hes : t.log = w.log ++ es) (hnamed : w.conn.fd < w.nextFd)
    (horderly : Orderly (es ++ [.send t.conn.fd p m])) : sentIds t.conn.fd es = [] := by
  obtain ⟨pre, hpre, -⟩ := id hu
  obtain ⟨mid, hmid, -⟩ := id hvt
  have hsplit : es = (pre ++ [.send u.conn.fd p n]) ++ mid := by
    refine List.append_cancel_left (hes.symm.trans ?_)
    rw [hmid, hlog, hpre]
    simp
  subst hsplit
  have hpre' := hu.numbered hpre hnamed horderly.left.left.left
  have hv := huv.numbered hlog hpre'.named horderly.left.left.right
  have ht := hvt.numbered hmid hv.named horderly.left.right
  have hbetween : sentIds t.conn.fd mid = [] := by
    by_contra hsent
    refine horderly.resent ⟨pre, u.conn.fd, p, n, mid, t.conn.fd, m, [], ?_, hpart, hsent, hwhole⟩
    simp
  have hbefore : sentIds t.conn.fd pre = [] := by
    rcases ht.fd with hsame | hmoved
    · rw [hsame, hfd]
      exact hquiet pre hpre
    · -- a socket that was opened by the reconnection
      by_contra hsent
      have hfirst := hpre'.fresh t.conn.fd
      have hnext := hpre'.nextFd
      have hnext' := hv.nextFd
      have hlt := (hfirst (by omega) hsent).2
      omega
  rw [sentIds_append, sentIds_append, sentIds_part hpart, hbefore, hbetween]
  rfl

/-- Sending a packet that was numbered at `w`, if nothing was sent on the socket since or if the
packet is not sent. -/
theorem sendLoop_numbers {reconnect : Bool → Program (World σ) Bool} {force auto : Bool}
    (hreconnect : auto = true → Keeps (World.Numbers N.order) (reconnect force)) {p : MongoPacket}
    {w u : World σ} (hp : p.Next N.order w.conn) (hu : w.Numbers N.order u) :
    wp (sendLoop N reconnect p force auto)
      (fun sent x => (sent = true → ∀ es, u.log = w.log ++ es → sentIds u.conn.fd es = []) →
        w.Numbers N.order x)
      (w.Numbers N.order) u := by
  have hF := World.Numbers.frame (σ := σ) N.order
  have hfail : ∀ {v : World σ} {Q : Prop} (e : Errno), w.Numbers N.order v →
      wp (do setErrno e; return false) (fun sent x => (sent = true → Q) → w.Numbers N.order x)
        (w.Numbers N.order) v := fun e hv =>
    wp_mono (wp_trans hF hv (fail_numbers N e _)) (fun _ _ h _ => h) (fun _ h => h)
  rw [sendLoop, sendRound, wp_bind]
  refine wp_mono (mongoPacketSend_spec N p u) (fun sent v hv => ?_) (fun _ h => h.elim)
  obtain ⟨n, hlog, hsent, hnext, hconn⟩ := hv
  have hfd : v.conn.fd = u.conn.fd := by rw [hconn]
  have hid : v.conn.requestId = if sent then p.header.id else u.conn.requestId := by rw [hconn]
  cases sent with
  | true =>
      intro hquiet
      exact hu.sends hp (hsent.mp rfl) hlog hnext hfd hid fun es hes _ _ => hquiet rfl es hes
  | false =>
      have hpart : ¬ p.Whole n := fun h => by cases hsent.mpr h
      have huv : u.Numbers N.order v := numbers_of_part hlog hpart hnext hfd hid
      refine wp_ite (fun h => by cases h) (fun _ => ?_)
      rw [wp_bind, wp_get]
      refine wp_ite (fun _ => hfail v.errno (hF.trans hu huv)) (fun htry => ?_)
      simp only [Bool.or_false, Bool.or_eq_true, Bool.not_eq_true', not_or,
        Bool.not_eq_false] at htry
      rw [wp_bind]
      refine wp_mono (hreconnect htry.1 v) (fun connected t hvt => ?_)
        (fun _ hvt => hF.trans (hF.trans hu huv) hvt)
      have ht := hF.trans (hF.trans hu huv) hvt
      refine wp_ite (fun _ => ?_) (fun _ => hfail v.errno ht)
      -- the second attempt
      rw [sendRound, wp_bind]
      refine wp_mono (mongoPacketSend_spec N p t) (fun sent' x hx => ?_) (fun _ h => h.elim)
      obtain ⟨m, hlog', hsent', hnext', hconn'⟩ := hx
      have hfd' : x.conn.fd = t.conn.fd := by rw [hconn']
      have hid' : x.conn.requestId = if sent' then p.header.id else t.conn.requestId := by
        rw [hconn']
      cases sent' with
      | true =>
          intro hquiet
          have hwhole := hsent'.mp rfl
          exact ht.sends hp hwhole hlog' hnext' hfd' hid' fun es hes hnamed horderly =>
            sentIds_again hu huv hvt hlog hfd hpart hwhole (hquiet rfl) hes hnamed horderly
      | false =>
          have hpart' : ¬ p.Whole m := fun h => by cases hsent'.mpr h
          have htx : t.Numbers N.order x := numbers_of_part hlog' hpart' hnext' hfd' hid'
          refine wp_ite (fun h => by cases h) (fun _ => ?_)
          rw [wp_bind, wp_get]
          exact wp_ite (fun _ => hfail x.errno (hF.trans ht htx)) (fun h => absurd (by simp) h)

/-- A packet that is numbered and sent without a check. -/
theorem packetSendWith_numbers {ensureConn reconnect : Bool → Program (World σ) Bool} {auto : Bool}
    (hreconnect : auto = true → Keeps (World.Numbers N.order) (reconnect false)) {p : MongoPacket}
    {w : World σ} (hp : p.Next N.order w.conn) :
    wp (mongoSyncPacketSendWith N ensureConn reconnect p false auto)
      (fun _ => w.Numbers N.order) (w.Numbers N.order) w := by
  show wp (sendLoop N reconnect p false auto) _ _ w
  refine wp_mono (sendLoop_numbers N hreconnect hp ((World.Numbers.frame N.order).refl w))
    (fun sent x hx => hx fun _ es hes => ?_) (fun _ hx => hx)
  rw [List.self_eq_append_right.mp hes]
  rfl

/-- A command that looks after no master draws the number of its packet. -/
theorem mongoSyncCmdCustomWith_numbers {ensureConn reconnect : Bool → Program (World σ) Bool}
    {check : Bool} (hreconnect : check = true → Keeps (World.Numbers N.order) (reconnect false))
    (db : Option CString) (command : Option Bson) :
    Keeps (World.Numbers (σ := σ) N.order)
      (mongoSyncCmdCustomWith N ensureConn reconnect db command check false) := by
  have hF := World.Numbers.frame (σ := σ) N.order
  refine Keeps.get_bind fun w => ?_
  rw [wp_bind]
  refine wp_orErrno (fun p hp => ?_) (fun e _ => setErrno_numbers N e w)
  have hnext : p.Next N.order w.conn := (mongoWireCmdCustom_requests hp).id
  show wp (mongoSyncPacketSendWith N ensureConn reconnect p false check >>= _) _ _ w
  rw [wp_bind]
  refine wp_mono (packetSendWith_numbers N hreconnect hnext) (fun sent u hu => ?_) (fun _ hu => hu)
  exact wp_trans hF hu (Keeps.ite (reply_numbers N _ _ _) (Keeps.pure hF _) u)

/-- So do the commands that are made of such questions. -/
theorem askRule_numbers : AskRule N (World.Numbers (σ := σ) N.order) where
  frame := World.Numbers.frame N.order
  errno := setErrno_numbers N
  recv := (mongoPacketRecv_still N).mono fun _ _ h => h.numbers N.order
  ask := mongoSyncCmdCustomWith_numbers N fun h => by cases h
  store hf := setConn_numbers N fun c => by
    obtain ⟨lastError, hosts, primary, hconn⟩ := hf c
    rw [hconn]
    exact ⟨rfl, rfl⟩
  ping w := .silent rfl (by simp) rfl le_rfl rfl
  isMaster w := .silent rfl (by simp) rfl le_rfl rfl

/-! ## Reconnecting -/

/-- What is sent on a new connection, up to a state whose connection is on its old socket, or on
the one the new connection has come to. -/
theorem World.Numbered.nested {o : ByteOrder} {w u t v : World σ} {es es' : List Event}
    (h : u.Numbered o t es) (hnamed : w.conn.fd < w.nextFd) (hnew : u.conn.fd = w.nextFd)
    (hopened : u.nextFd = w.nextFd + 1) (hnext : v.nextFd = t.nextFd)
    (hconn : v.conn.fd = w.conn.fd ∧ v.conn.requestId = w.conn.requestId ∨
      v.conn.fd = t.conn.fd ∧
        (v.conn.requestId = t.conn.requestId ∨ sentIds t.conn.fd es = []))
    (hes' : ∀ fd, sentIds fd es' = sentIds fd es) : w.Numbered o v es' := by
  have hle := h.nextFd
  have hmoved := h.fd
  have hinside := h.named
  -- its own socket is older than the new ones
  have hquiet : sentIds w.conn.fd es = [] := by
    by_contra hsent
    have hrange := h.fresh w.conn.fd (by omega) hsent
    omega
  constructor
  · omega
  · omega
  · omega
  · intro fd hne hsent
    rw [hes'] at hsent
    by_cases hfd : fd = u.conn.fd
    · omega
    · have hrange := h.fresh fd hfd hsent
      omega
  · intro fd
    rw [hes']
    by_cases hown : fd = w.conn.fd
    · subst hown
      rw [hquiet]
      refine ⟨w.conn.requestId, w.conn.requestId, fun _ => rfl, .nil _, fun hfd => ?_⟩
      rcases hconn with hback | htaken
      · exact hback.2.symm
      · omega
    · obtain ⟨r, r', -, hdrawn, hr'⟩ := h.drawn fd
      rcases hconn with hback | ⟨hfd, htaken⟩
      · exact ⟨r, r', fun h => absurd h hown, hdrawn, fun h => by omega⟩
      rw [hfd]
      by_cases hend : fd = t.conn.fd
      · rcases htaken with hsame | hunused
        · exact ⟨r, r', fun h => absurd h hown, hdrawn, fun h => (hr' h).trans hsame.symm⟩
        · -- nothing was sent on it, so that any number may be the first
          rw [hend, hunused]
          exact ⟨v.conn.requestId, v.conn.requestId, fun h => by omega, .nil _, fun _ => rfl⟩
      · exact ⟨r, r', fun h => absurd h hown, hdrawn, fun h => absurd h hend⟩

/-- The same with the event of opening the connection.  If its socket is taken over, this is the
event that follows. -/
theorem World.Numbers.nested {o : ByteOrder} {w u t v : World σ} {nc : MongoSyncConnection}
    {host : CString} {port : Int} {tail : List Event}
    (h : World.Numbers o { u with conn := nc } t) (hnew : nc.fd = w.nextFd)
    (hopened : u.nextFd = w.nextFd + 1)
    (hconnect : u.log = w.log ++ [.connect w.nextFd host port])
    (hlog : v.log = t.log ++ tail) (htail : ∀ fd, sentIds fd tail = []) (hnext : v.nextFd = t.nextFd)
    (hconn : v.conn.fd = w.conn.fd ∧ v.conn.requestId = w.conn.requestId ∨
      v.conn.fd = t.conn.fd ∧ (v.conn.requestId = t.conn.requestId ∨
        ∃ force post, tail = .replace force (some t.conn.fd) :: post)) : w.Numbers o v := by
  obtain ⟨es, hes, hnumbered⟩ := h
  have hsince : v.log = w.log ++ (.connect w.nextFd host port :: es ++ tail) := by
    rw [hlog, hes]
    show u.log ++ es ++ tail = _
    rw [hconnect]
    simp
  refine ⟨_, hsince, fun hnamed horderly => ?_⟩
  have hinside : World.Numbered o { u with conn := nc } t es := by
    have hbehind : Orderly ([.connect w.nextFd host port] ++ es) := horderly.left
    refine hnumbered ?_ hbehind.right
    show nc.fd < (u.nextFd : Int)
    omega
  refine hinside.nested hnamed hnew hopened hnext ?_ (fun fd => ?_)
  · refine hconn.imp_right (And.imp_right (Or.imp_right ?_))
    rintro ⟨force, post, rfl⟩
    by_contra hsent
    exact horderly.restarted ⟨.connect w.nextFd host port :: es, force, t.conn.fd, post, rfl, hsent⟩
  · rw [sentIds_append, htail, List.append_nil]
    rfl

section Adopting

variable {reconnect : Bool → Program (World σ) Bool}
  (hreconnect : ∀ force, Keeps (World.Numbers N.order) (reconnect force))
include hreconnect

theorem customRule_numbers :
    CustomRule N reconnect (World.Numbers N.order) (World.Numbers N.order) where
  halts := (World.Numbers.frame N.order).halts
  errno := setErrno_numbers N
  custom := mongoSyncCmdCustomWith_numbers N fun _ => hreconnect _

omit hreconnect in
/-- Reading strings that were freed, and storing credentials. -/
theorem World.Numbers.credentials {o : ByteOrder} {w u : World σ} {ds : List Event}
    {c : MongoSyncConnection} (hu : w.Numbers o u) (hds : ∀ d ∈ ds, d = Event.dangling)
    (hc : c.fd = u.conn.fd ∧ c.requestId = u.conn.requestId) :
    w.Numbers o { u with log := u.log ++ ds, conn := c } := by
  refine (World.Numbers.frame o).trans hu (.silent rfl (fun fd p count hmem => ?_) hc.1 le_rfl hc.2)
  cases hds _ hmem

theorem authenticateWith_numbers (lent : Option Nat) (db user pw : CString) :
    Keeps (World.Numbers N.order) (mongoSyncCmdAuthenticateWith N reconnect lent db user pw) :=
  fun _ => mongoSyncCmdAuthenticateWith_wp (customRule_numbers N hreconnect)
    (fun _ _ hu hds => hu.credentials hds ⟨rfl, rfl⟩)
    (fun _ _ _ hu hds _ => hu.credentials hds ⟨rfl, rfl⟩)

theorem reauthenticate_numbers :
    Keeps (World.Numbers N.order) (LibMongo.reauthenticate N reconnect) :=
  fun _ => reauthenticate_wp (customRule_numbers N hreconnect)
    (fun _ _ hu hds => hu.credentials hds ⟨rfl, rfl⟩)
    (fun _ _ _ hu hds _ => hu.credentials hds ⟨rfl, rfl⟩)

omit hreconnect in
/-- The socket is replaced, or it is not. -/
theorem afterReplace_numbers (force ok : Bool) {w u t : World σ} {nc : MongoSyncConnection}
    (hopens : w.Opens (some nc) u) (h : World.Numbers N.order { u with conn := nc } t) :
    w.Numbers N.order (afterReplace N force ok u t) := by
  obtain ⟨hopened, ⟨seed, rfl⟩, host, port, hconnect⟩ := hopens.opened nc rfl
  rw [afterReplace]
  split
  · split
    · exact h.nested rfl hopened hconnect rfl (fun _ => rfl) rfl (.inr ⟨rfl, .inr ⟨_, _, rfl⟩⟩)
    · exact h.nested rfl hopened hconnect rfl (fun _ => rfl) rfl (.inr ⟨rfl, .inr ⟨_, _, rfl⟩⟩)
  · refine h.nested rfl hopened hconnect rfl (fun _ => rfl) rfl (.inl ?_)
    rw [hopens.conn]
    exact ⟨rfl, rfl⟩

theorem adopt_numbers (force : Bool) {w u : World σ} {nc : MongoSyncConnection}
    (hopens : w.Opens (some nc) u) :
    wp (adopt N reconnect force nc) (fun _ => w.Numbers N.order) (w.Numbers N.order) u := by
  refine wp_adopt N reconnect (wp_mono (hreconnect force { u with conn := nc }) (fun ok t ht => ?_)
    (fun t ht => ?_))
  · exact wp_trans (World.Numbers.frame N.order) (afterReplace_numbers N force ok hopens ht)
      (reauthenticate_numbers N hreconnect _)
  · obtain ⟨hopened, ⟨seed, rfl⟩, host, port, hconnect⟩ := hopens.opened nc rfl
    refine ht.nested rfl hopened hconnect (List.append_nil _).symm (fun _ => rfl) rfl (.inl ?_)
    rw [hopens.conn]
    exact ⟨rfl, rfl⟩

theorem visitRule_numbers (force : Bool) :
    VisitRule N reconnect force (World.Numbers N.order) (World.Numbers N.order)
      (World.Numbers N.order) where
  frame := World.Numbers.frame N.order
  errno := setErrno_numbers N
  cmdPing := (askRule_numbers N).cmdPing
  halts := (World.Numbers.frame N.order).halts
  trans := (World.Numbers.frame N.order).trans
  answer w := by
    refine wp_mono ((askRule_numbers N).cmdPing w) (fun ping u hu _ => ?_) (fun _ _ => trivial)
    cases force with
    | false => exact hu
    | true =>
        refine wp_mono ((askRule_numbers N).cmdIsMaster u) (fun _ v hv _ => ?_) (fun _ _ => trivial)
        exact (World.Numbers.frame N.order).trans hu hv
  refresh _ := (askRule_numbers N).cmdIsMaster
  candidate addr w := by
    refine wp_mono (connectAddr_opens N addr w) (fun c u hu => ?_) (fun _ h => h.elim)
    cases c with
    | none => exact .same_log (hu.failed rfl) (by rw [hu.conn]) hu.nextFd_le (by rw [hu.conn])
    | some nc => exact adopt_numbers N hreconnect force hu

end Adopting

/-- Reconnecting numbers its packets like the commands. -/
theorem mongoSyncReconnect_numbers (fuel : Nat) (force : Bool) :
    Keeps (World.Numbers N.order) (mongoSyncReconnect N fuel force) := by
  induction fuel generalizing force with
  | zero => exact Keeps.throw (World.Numbers.frame N.order) _
  | succ fuel ih =>
      intro w
      refine wp_mono ((visitRule_numbers N ih force).call N w) (fun ok _ hu => ?_) (fun _ hu => hu)
      cases ok with
      | false => exact hu
      | true => exact hu

/-- So does asking for a master. -/
theorem ensureMaster_numbers (fuel : Nat) :
    Keeps (World.Numbers N.order) (ensureMaster N (mongoSyncReconnect N fuel)) :=
  ensureMaster_keeps_of N (World.Numbers.frame N.order).halts (setErrno_numbers N)
    (askRule_numbers N).cmdIsMaster (mongoSyncReconnect_numbers N fuel)

end LibMongo
