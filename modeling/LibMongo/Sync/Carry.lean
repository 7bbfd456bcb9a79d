import LibMongo.Sync.Recovery

/-!
# What a recovery cache carries over

A client opens a connection from a recovery cache, works on it and disconnects.
`mongo_sync_disconnect` stores what the connection knows in the cache, and the next
connection is loaded from there.

*Sessions.*  `Session.Step` is one call of a client that has several caches and one
connection at a time.  What a cache and the connection hold is `Vouched` if the
credentials all come from one authentication that succeeded.

*Freed strings.*  A call of `mongo_sync_reconnect` may store credentials that were read
after they had been freed, so `session_carries` speaks of such runs only in its other parts.
-/

namespace LibMongo

open Bytes Program Relation

variable {σ : Type} (N : Net σ)

/-! ## Disconnecting -/

/-- What becomes of a credential in the cache and of that of the connection. -/
def storeProp (cached : Option CString) : Option CString → Option CString × Option CString
  | some prop => (some prop, none)
  | none => (cached, none)

/-- `_recovery_cache_store`: the cache, and what the connection has left of the
credentials. -/
def recoveryCacheStore (conn : MongoSyncConnection) : RecoveryCache × AuthCredentials :=
  let cache := RecoveryCache.discard
  let (db, db') := storeProp cache.auth.db conn.auth.db
  let (user, user') := storeProp cache.auth.user conn.auth.user
  let (pw, pw') := storeProp cache.auth.pw conn.auth.pw
  (⟨⟨conn.rs.seeds, conn.rs.hosts, conn.rs.primary⟩, ⟨db, user, pw⟩⟩, ⟨db', user', pw'⟩)

/-- `mongo_disconnect`. -/
def mongoDisconnect : Program (World σ) Unit := do
  let w ← get
  if 0 ≤ w.conn.fd then closeFd N w.conn.fd
  setErrno .ok

/-- `mongo_sync_disconnect`, and the caches after it. -/
def mongoSyncDisconnect (caches : Nat → RecoveryCache) :
    Program (World σ) (Nat → RecoveryCache) := do
  let w ← get
  let caches := match w.conn.recoveryCache with
    | none => caches
    | some id => Function.update caches id (recoveryCacheStore w.conn).1
  mongoDisconnect N
  return caches

/-- The cache holds what the connection held. -/
theorem recoveryCacheStore_eq (conn : MongoSyncConnection) :
    recoveryCacheStore conn = (⟨conn.rs, conn.auth⟩, ⟨none, none, none⟩) := by
  have hstore : ∀ prop, storeProp none prop = (prop, none) := by
    intro prop
    cases prop with
    | none => rfl
    | some prop => rfl
  simp [recoveryCacheStore, RecoveryCache.discard, hstore]

theorem mongoSyncDisconnect_stores {caches : Nat → RecoveryCache} {w : World σ} {id : Nat}
    (h : w.conn.recoveryCache = some id) :
    wp (mongoSyncDisconnect N caches)
      (fun caches' w' => caches' = Function.update caches id ⟨w.conn.rs, w.conn.auth⟩ ∧
        w.Since w' fun es => .dangling ∉ es) (fun _ => False) w := by
  rw [mongoSyncDisconnect, wp_bind, wp_get]
  dsimp only
  rw [h, recoveryCacheStore_eq, wp_bind, mongoDisconnect, wp_bind, wp_get]
  refine wp_ite (fun _ => ?_) (fun _ => ?_)
  · exact ⟨rfl, [.close w.conn.fd], rfl, by simp⟩
  · exact ⟨rfl, .nil (by simp)⟩

/-! ## What a call retains -/

/-- The connection keeps its cache, and its credentials if no string is read that was
freed. -/
structure World.Retains (w w' : World σ) : Prop where
  recoveryCache : w'.conn.recoveryCache = w.conn.recoveryCache
  auth : w.Since w' fun es => .dangling ∉ es → w'.conn.auth = w.conn.auth

theorem World.Retains.frame : Frame (World.Retains (σ := σ)) where
  refl _ := ⟨rfl, .nil fun _ => rfl⟩
  trans {u v w} h h' := by
    refine ⟨h'.recoveryCache.trans h.recoveryCache, ?_⟩
    refine h.auth.append h'.auth fun es es' hes hes' hno => ?_
    rw [List.mem_append, not_or] at hno
    rw [hes' hno.2, hes hno.1]

/-- Nothing happens that was freed. -/
theorem World.Retains.of_log {w w' : World σ} {es : List Event}
    (hcache : w'.conn.recoveryCache = w.conn.recoveryCache) (hauth : w'.conn.auth = w.conn.auth)
    (hlog : w'.log = w.log ++ es) : w.Retains w' :=
  ⟨hcache, es, hlog, fun _ => hauth⟩

theorem World.Retains.of_same {w w' : World σ}
    (hcache : w'.conn.recoveryCache = w.conn.recoveryCache) (hauth : w'.conn.auth = w.conn.auth)
    (hlog : w'.log = w.log) : w.Retains w' :=
  .of_log hcache hauth (by rw [hlog, List.append_nil])

theorem mongoPacketSend_retains (p : MongoPacket) : Keeps World.Retains (mongoPacketSend N p) := by
  intro w
  refine wp_mono (mongoPacketSend_spec N p w) (fun _ w' h => ?_) (fun _ h => h.elim)
  obtain ⟨count, hlog, -, -, hconn⟩ := h
  exact .of_log (by rw [hconn]) (by rw [hconn]) hlog

theorem setConn_retains {f : MongoSyncConnection → MongoSyncConnection}
    (hf : ∀ c, (f c).recoveryCache = c.recoveryCache ∧ (f c).auth = c.auth) :
    Keeps (World.Retains (σ := σ)) (setConn f) :=
  fun w => .of_same (hf w.conn).1 (hf w.conn).2 rfl

theorem callRule_retains (fuel : Nat) : CallRule N fuel World.Retains where
  frame := World.Retains.frame
  errno _ _ := .of_same rfl rfl rfl
  send _ := mongoPacketSend_retains N _
  recv := (mongoPacketRecv_still N).mono fun _ _ h =>
    .of_same (by rw [h.conn]) (by rw [h.conn]) h.log
  store hf := setConn_retains fun c => by
    obtain ⟨_, _, _, hconn⟩ := hf c
    simp [hconn]
  ping _ := .of_log rfl rfl rfl
  isMaster _ := .of_log rfl rfl rfl
  sendSealed _ := mongoPacketSend_retains N _
  reconnect force := (mongoSyncReconnect_roams N fuel force).mono fun _ _ h =>
    ⟨h.settings.recoveryCache, h.auth⟩
  settings hf := setConn_retains fun c => by
    obtain ⟨_, _, _, _, _, hconn⟩ := hf c
    simp [hconn]

/-- Authenticating stores the credentials if it succeeds, and only then. -/
theorem mongoSyncCmdAuthenticate_retains (fuel : Nat) (db user pw : CString) (w : World σ) :
    wp (mongoSyncCmdAuthenticate N (mongoSyncReconnect N fuel) db user pw)
      (fun ok w' => w'.conn.recoveryCache = w.conn.recoveryCache ∧ w.Since w' fun es =>
        .dangling ∉ es →
          w'.conn.auth = if ok then ⟨some db, some user, some pw⟩ else w.conn.auth)
      (fun _ => True) w := by
  have hrule := callRule_retains N fuel
  have hdangling : ∀ {u : World σ} {ds : List Event}, w.Retains u →
      w.Retains { u with log := u.log ++ ds } := fun hu =>
    World.Retains.frame.trans hu (.of_log rfl rfl rfl)
  refine wp_mono (mongoSyncCmdAuthenticateWith_stores (hrule.talk.custom N hrule.frame.halts
    (hrule.reconnect _))
    (S := fun u => u.conn.recoveryCache = w.conn.recoveryCache ∧ w.Since u fun es =>
      .dangling ∉ es → u.conn.auth = ⟨some db, some user, some pw⟩)
    (fun u ds hu _ => hdangling hu) (fun u ds auth hu hds hauth => ?_)) (fun ok u hu => ?_)
    (fun _ _ => trivial)
  · obtain ⟨es, hes, -⟩ := hu.auth
    refine ⟨hu.recoveryCache, es ++ ds, by rw [hes, List.append_assoc], fun hno => hauth ?_⟩
    cases ds with
    | nil => rfl
    | cons d ds =>
        have hd := hds d List.mem_cons_self
        subst hd
        simp at hno
  · cases ok with
    | false => exact ⟨hu.recoveryCache, hu.auth⟩
    | true => exact hu

/-- A call, and the credentials after it. -/
theorem Command.retains (fuel : Nat) (c : Command) (hc : ∀ db user pw, c ≠ .authenticate db user pw) :
    Keeps World.Retains (c.run N fuel) :=
  (callRule_retains N fuel).command c fun db user pw h => absurd h (hc db user pw)

/-! ## Loading -/

/-- What a call of `mongo_sync_connect_recovery_cache` leaves.  A connection for slaves
holds what the cache holds. -/
structure World.Loads (w : World σ) (id : Nat) (slaveok : Bool) (cache : RecoveryCache)
    (c : Option MongoSyncConnection) (cache' : RecoveryCache) (w' : World σ) : Prop where
  left : cache' = cache ∨ cache' = .discard
  linked : ∀ nc, c = some nc → nc.recoveryCache = some id
  same : slaveok = true → cache' = cache ∧ ∀ nc, c = some nc → nc.rs = cache.rs ∧ nc.auth = cache.auth
  auth : w.Since w' fun es => .dangling ∉ es → ∀ nc, c = some nc → nc.auth = cache.auth

section Loading

variable (fuel id : Nat) (slaveok : Bool) (cache : RecoveryCache)

/-- No connection was opened so far. -/
theorem World.Loads.nothing (w : World σ) : w.Loads id slaveok cache none cache w where
  left := .inl rfl
  linked _ h := by cases h
  same _ := ⟨rfl, fun _ h => by cases h⟩
  auth := .nil fun _ _ h => by cases h

variable {id slaveok cache} in
theorem World.Loads.after {w u v : World σ} {c : Option MongoSyncConnection}
    {cache' : RecoveryCache} (h : w.Since u fun _ => True)
    (h' : u.Loads id slaveok cache c cache' v) : w.Loads id slaveok cache c cache' v where
  left := h'.left
  linked := h'.linked
  same := h'.same
  auth := h.append h'.auth fun _ _ _ hauth hno =>
    hauth fun hmem => hno (List.mem_append_right _ hmem)

theorem recoveryCacheAdopt_loads {c : MongoSyncConnection} (hrs : c.rs = cache.rs)
    (hauth : c.auth = cache.auth) (hcache : c.recoveryCache = some id) (w : World σ) :
    wp (recoveryCacheAdopt (mongoSyncReconnect N fuel) slaveok cache c)
      (fun r w' => w.Loads id slaveok cache r.1 r.2 w') (fun _ => True) w := by
  rw [recoveryCacheAdopt]
  refine wp_ite (fun _ => ?_) (fun hslaveok => ?_)
  · refine ⟨.inl rfl, fun nc h => ?_, fun _ => ⟨rfl, fun nc h => ?_⟩, .nil fun _ nc h => ?_⟩
    · cases h
      exact hcache
    · cases h
      exact ⟨hrs, hauth⟩
    · cases h
      exact hauth
  · rw [wp_bind, wp_onConnection]
    refine wp_mono ((callRule_retains N fuel).reconnect false { w with conn := c })
      (fun ok u hu => ?_) (fun _ _ => trivial)
    cases ok with
    | false => exact ⟨.inr rfl, (fun _ h => by cases h), fun h => absurd h hslaveok,
        World.Since.mono hu.auth fun _ _ _ _ h => by cases h⟩
    | true =>
        refine ⟨.inr rfl, fun nc h => ?_, fun h => absurd h hslaveok,
          World.Since.mono hu.auth fun es hes hno nc h => ?_⟩
        · cases h
          exact hu.recoveryCache.trans hcache
        · cases h
          exact (hes hno).trans hauth

/-- One address of the cache, and what comes after it. -/
theorem recoveryTry_loads (addr : CString)
    {next : Program (World σ) (Option MongoSyncConnection × RecoveryCache)}
    (hnext : ∀ u, wp next (fun r w' => u.Loads id slaveok cache r.1 r.2 w') (fun _ => True) u)
    (w : World σ) :
    wp (do
      match ← orErrno (mongoUtilParseAddr addr) with
      | none => next
      | some (host, port) =>
          match ← recoveryCacheConnect N id slaveok cache host port with
          | none => next
          | some c => recoveryCacheAdopt (mongoSyncReconnect N fuel) slaveok cache c)
      (fun r w' => w.Loads id slaveok cache r.1 r.2 w') (fun _ => True) w := by
  have hafter : ∀ {m : Program (World σ) (Option MongoSyncConnection × RecoveryCache)} u,
      w.Since u (fun _ => True) →
      wp m (fun r w' => u.Loads id slaveok cache r.1 r.2 w') (fun _ => True) u →
      wp m (fun r w' => w.Loads id slaveok cache r.1 r.2 w') (fun _ => True) u :=
    fun u hu h => wp_mono h (fun _ _ h => h.after hu) (fun _ _ => trivial)
  rw [wp_bind]
  refine wp_orErrno (fun a _ => ?_) (fun e _ => hafter _ (.nil trivial) (hnext _))
  obtain ⟨host, port⟩ := a
  show wp (_ >>= _) _ _ w
  rw [wp_bind, recoveryCacheConnect, wp_bind]
  refine wp_mono (mongoConnect_dials N host port w) (fun c u hu => ?_) (fun _ h => h.elim)
  cases c with
  | none => exact hafter u ⟨[], by simp [hu.failed rfl], trivial⟩ (hnext u)
  | some c =>
      have hopen : w.Since u fun _ => True := ⟨_, (hu.opened c rfl).2.2, trivial⟩
      exact hafter u hopen (recoveryCacheAdopt_loads N fuel id slaveok cache rfl rfl rfl u)

theorem recoveryCachePickConnectFromList_loads (addrs : List CString) (w : World σ) :
    wp (recoveryCachePickConnectFromList N (mongoSyncReconnect N fuel) id slaveok cache addrs)
      (fun r w' => w.Loads id slaveok cache r.1 r.2 w') (fun _ => True) w := by
  induction addrs generalizing w with
  | nil => exact .nothing id slaveok cache w
  | cons addr addrs ih => exact recoveryTry_loads N fuel id slaveok cache addr ih w

theorem mongoSyncConnectRecoveryCache_loads (w : World σ) :
    wp (mongoSyncConnectRecoveryCache N (mongoSyncReconnect N fuel) id slaveok cache)
      (fun r w' => w.Loads id slaveok cache r.1 r.2 w') (fun _ => True) w := by
  have hlists : ∀ w, wp (recoveryCacheLists N (mongoSyncReconnect N fuel) id slaveok cache)
      (fun r w' => w.Loads id slaveok cache r.1 r.2 w') (fun _ => True) w := by
    intro w
    rw [recoveryCacheLists, wp_bind]
    refine wp_mono (recoveryCachePickConnectFromList_loads N fuel id slaveok cache _ w)
      (fun r u hu => ?_) (fun _ _ => trivial)
    obtain ⟨c, cache'⟩ := r
    cases c with
    | some c => exact hu
    | none =>
        rcases hu.left with heq | heq
        · dsimp only at heq
          subst heq
          exact wp_mono (recoveryCachePickConnectFromList_loads N fuel id slaveok cache' _ u)
            (fun _ _ h => h.after (hu.auth.mono fun _ _ => trivial)) (fun _ _ => trivial)
        · -- the list of hosts is gone with the cache
          dsimp only at heq
          subst heq
          exact hu
  rw [mongoSyncConnectRecoveryCache]
  cases cache.rs.primary with
  | none => exact hlists w
  | some addr => exact recoveryTry_loads N fuel id slaveok cache addr hlists w

end Loading

/-! ## Sessions -/

/-- `mongo_sync_conn_recovery_cache_seed_add`. -/
def RecoveryCache.seedAdd (cache : RecoveryCache) (host : CString) (port : Int) : RecoveryCache :=
  { cache with rs := { cache.rs with seeds := cache.rs.seeds ++ [formatAddr host port] } }

/-- The credentials that a call has shown to be right. -/
def Command.proven (ok : Bool) : Command → List (CString × CString × CString)
  | .authenticate db user pw => if ok then [(db, user, pw)] else []
  | _ => []

/-- The caches of a client, its connection, and the authentications that succeeded. -/
structure Session (σ : Type) where
  caches : Nat → RecoveryCache
  world : World σ
  /-- The cache the connection was obtained from, if there is a connection. -/
  link : Option Nat
  authed : List (CString × CString × CString)

namespace Session

/-- One call of the client. -/
inductive Step (fuel : Nat) : Session σ → Session σ → Prop
  | seedAdd {s : Session σ} (id : Nat) (host : CString) (port : Int) :
      Step fuel s
        { s with caches := Function.update s.caches id ((s.caches id).seedAdd host port) }
  | discard {s : Session σ} (id : Nat) :
      Step fuel s { s with caches := Function.update s.caches id .discard }
  | connect {s : Session σ} {id : Nat} {slaveok : Bool} {c : MongoSyncConnection}
      {cache' : RecoveryCache} {w' : World σ} : s.link = none →
      (mongoSyncConnectRecoveryCache N (mongoSyncReconnect N fuel) id slaveok (s.caches id)).exec
        s.world = (.ok (some c, cache'), w') →
      Step fuel s { s with
        caches := Function.update s.caches id cache'
        world := { w' with conn := c }
        link := some id }
  | refused {s : Session σ} {id : Nat} {slaveok : Bool} {cache' : RecoveryCache} {w' : World σ} :
      s.link = none →
      (mongoSyncConnectRecoveryCache N (mongoSyncReconnect N fuel) id slaveok (s.caches id)).exec
        s.world = (.ok (none, cache'), w') →
      Step fuel s { s with caches := Function.update s.caches id cache', world := w' }
  | command {s : Session σ} {c : Command} {ok : Bool} {w' : World σ} : s.link ≠ none →
      (c.run N fuel).exec s.world = (.ok ok, w') →
      Step fuel s { s with world := w', authed := c.proven ok ++ s.authed }
  | disconnect {s : Session σ} {caches' : Nat → RecoveryCache} {w' : World σ} : s.link ≠ none →
      (mongoSyncDisconnect N s.caches).exec s.world = (.ok caches', w') →
      Step fuel s { s with caches := caches', world := w', link := none }

/-- The connection knows the cache it was obtained from. -/
def Linked (s : Session σ) : Prop := ∀ id, s.link = some id → s.world.conn.recoveryCache = some id

/-- The credentials are all from one authentication, or all absent. -/
def Vouched (authed : List (CString × CString × CString)) (auth : AuthCredentials) : Prop :=
  auth = ⟨none, none, none⟩ ∨
    ∃ db user pw, (db, user, pw) ∈ authed ∧ auth = ⟨some db, some user, some pw⟩

/-- So are those of every cache and of the connection. -/
structure Sound (s : Session σ) : Prop where
  caches : ∀ id, Vouched s.authed (s.caches id).auth
  conn : s.link ≠ none → Vouched s.authed s.world.conn.auth

theorem Vouched.mono {authed authed' : List (CString × CString × CString)} {auth : AuthCredentials}
    (h : Vouched authed auth) (hsub : ∀ x ∈ authed, x ∈ authed') : Vouched authed' auth := by
  rcases h with h | ⟨db, user, pw, hmem, h⟩
  · exact .inl h
  · exact .inr ⟨db, user, pw, hsub _ hmem, h⟩

/-- A cache that is changed. -/
theorem vouched_update {authed : List (CString × CString × CString)} {caches : Nat → RecoveryCache}
    (h : ∀ id, Vouched authed (caches id).auth) (id : Nat) {cache : RecoveryCache}
    (hcache : Vouched authed cache.auth) :
    ∀ id', Vouched authed (Function.update caches id cache id').auth := by
  intro id'
  by_cases hid : id' = id
  · subst hid
    rwa [Function.update_self]
  · rw [Function.update_of_ne hid]
    exact h id'

/-- A call that returns. -/
theorem command_keeps {fuel : Nat} {c : Command} {ok : Bool} {w w' : World σ}
    (hrun : (c.run N fuel).exec w = (.ok ok, w')) :
    w'.conn.recoveryCache = w.conn.recoveryCache ∧ w.Since w' fun es => .dangling ∉ es →
      ∀ authed, Vouched authed w.conn.auth → Vouched (c.proven ok ++ authed) w'.conn.auth := by
  by_cases hc : ∃ db user pw, c = .authenticate db user pw
  · obtain ⟨db, user, pw, rfl⟩ := hc
    obtain ⟨hcache, hauth⟩ := wp_ok (mongoSyncCmdAuthenticate_retains N fuel db user pw w) hrun
    refine ⟨hcache, hauth.mono fun es hes hno authed hvouched => ?_⟩
    rw [hes hno]
    cases ok with
    | false => exact hvouched.mono fun x hx => List.mem_append_right _ hx
    | true => exact .inr ⟨db, user, pw, by simp [Command.proven], rfl⟩
  · have hretains := wp_ok (Command.retains N fuel c (fun db user pw h => hc ⟨db, user, pw, h⟩) w) hrun
    refine ⟨hretains.recoveryCache, hretains.auth.mono fun es hes hno authed hvouched => ?_⟩
    rw [hes hno]
    exact hvouched.mono fun x hx => List.mem_append_right _ hx

/-- What a step keeps. -/
theorem Step.keeps {fuel : Nat} {s s' : Session σ} (h : Step N fuel s s') (hlinked : s.Linked) :
    s'.Linked ∧ s.world.Since s'.world fun es => .dangling ∉ es → s.Sound → s'.Sound := by
  cases h with
  | seedAdd id host port =>
      refine ⟨hlinked, .nil fun _ hsound => ?_⟩
      exact ⟨vouched_update hsound.caches id (hsound.caches id), hsound.conn⟩
  | discard id =>
      exact ⟨hlinked, .nil fun _ hsound =>
        ⟨vouched_update hsound.caches id (.inl rfl), hsound.conn⟩⟩
  | @connect id slaveok c cache' w' hlink hrun =>
      have hloads := wp_ok (mongoSyncConnectRecoveryCache_loads N fuel id slaveok _ _) hrun
      refine ⟨fun id' hid => ?_, World.Since.mono hloads.auth fun es hauth hno hsound => ?_⟩
      · cases hid
        exact hloads.linked c rfl
      · refine ⟨vouched_update hsound.caches id ?_, fun _ => ?_⟩
        · rcases hloads.left with heq | heq
          · rw [show cache' = _ from heq]
            exact hsound.caches id
          · exact .inl (by rw [show cache' = _ from heq]; rfl)
        · show Vouched s.authed c.auth
          rw [hauth hno c rfl]
          exact hsound.caches id
  | @refused id slaveok cache' w' hlink hrun =>
      have hloads := wp_ok (mongoSyncConnectRecoveryCache_loads N fuel id slaveok _ _) hrun
      refine ⟨fun id' hid => (by rw [hlink] at hid; cases hid),
        hloads.auth.mono fun es _ _ hsound => ?_⟩
      refine ⟨vouched_update hsound.caches id ?_, fun h => absurd hlink h⟩
      rcases hloads.left with heq | heq
      · rw [show cache' = _ from heq]
        exact hsound.caches id
      · exact .inl (by rw [show cache' = _ from heq]; rfl)
  | @command c ok w' hlink hrun =>
      obtain ⟨hcache, hauth⟩ := command_keeps N hrun
      refine ⟨fun id hid => hcache.trans (hlinked id hid), hauth.mono fun es hes hno hsound => ?_⟩
      exact ⟨fun id => (hsound.caches id).mono fun x hx => List.mem_append_right _ hx,
        fun h => hes hno _ (hsound.conn h)⟩
  | @disconnect caches' w' hlink hrun =>
      obtain ⟨id, hid⟩ := Option.ne_none_iff_exists'.mp hlink
      obtain ⟨hcaches, hlog⟩ := wp_ok (mongoSyncDisconnect_stores N (hlinked id hid)) hrun
      refine ⟨fun _ h => (by cases h), hlog.mono fun es _ _ hsound => ?_⟩
      refine ⟨?_, fun h => absurd rfl h⟩
      show ∀ id', Vouched s.authed (caches' id').auth
      rw [hcaches]
      exact vouched_update hsound.caches id (hsound.conn hlink)

/-- What a run keeps. -/
theorem run_keeps {fuel : Nat} {s₀ s : Session σ} (hlinked : s₀.Linked) (hsound : s₀.Sound)
    (hrun : ReflTransGen (Step N fuel) s₀ s) :
    s.Linked ∧ s₀.world.Since s.world fun es => .dangling ∉ es → s.Sound := by
  induction hrun with
  | refl => exact ⟨hlinked, .nil fun _ => hsound⟩
  | tail _ hstep ih =>
      obtain ⟨hlinked', hkeeps⟩ := hstep.keeps N ih.1
      refine ⟨hlinked', ih.2.append hkeeps fun es es' hes hes' hno => ?_⟩
      rw [List.mem_append, not_or] at hno
      exact hes' hno.2 (hes hno.1)

end Session

/-! ## Cycles -/

/-- The cache is connected from, for slaves too, and disconnected to. -/
def Cycle (fuel id : Nat) (x y : RecoveryCache × World σ) : Prop :=
  ∃ c cache' w caches',
    (mongoSyncConnectRecoveryCache N (mongoSyncReconnect N fuel) id true x.1).exec x.2
      = (.ok (some c, cache'), w) ∧
    (mongoSyncDisconnect N fun _ => cache').exec { w with conn := c } = (.ok caches', y.2) ∧
    y.1 = caches' id

/-- A connection for slaves holds what the cache holds. -/
theorem connect_loads {fuel id : Nat} {cache cache' : RecoveryCache} {c : MongoSyncConnection}
    {w w' : World σ}
    (h : (mongoSyncConnectRecoveryCache N (mongoSyncReconnect N fuel) id true cache).exec w
      = (.ok (some c, cache'), w')) :
    c.rs = cache.rs ∧ c.auth = cache.auth ∧ cache' = cache ∧ c.recoveryCache = some id := by
  have hloads := wp_ok (mongoSyncConnectRecoveryCache_loads N fuel id true cache w) h
  obtain ⟨hcache, hsame⟩ := hloads.same rfl
  exact ⟨(hsame c rfl).1, (hsame c rfl).2, hcache, hloads.linked c rfl⟩

theorem Cycle.same {fuel id : Nat} {x y : RecoveryCache × World σ} (h : Cycle N fuel id x y) :
    y.1 = x.1 := by
  obtain ⟨c, cache', w, caches', hconnect, hdisconnect, hy⟩ := h
  obtain ⟨hrs, hauth, -, hlink⟩ := connect_loads N hconnect
  have hlink' : ({ w with conn := c } : World σ).conn.recoveryCache = some id := hlink
  obtain ⟨hcaches, -⟩ := wp_ok (mongoSyncDisconnect_stores N hlink') hdisconnect
  rw [hy, hcaches, Function.update_self, hrs, hauth]

theorem cycles_same {fuel id : Nat} {x y : RecoveryCache × World σ}
    (h : ReflTransGen (Cycle N fuel id) x y) : y.1 = x.1 := by
  induction h with
  | refl => rfl
  | tail _ hcycle ih => exact (hcycle.same N).trans ih

/-! ## Carrying over -/

/-- What holds in a state `s` of a session that began in `s₀`. -/
structure CarriesOver (fuel : Nat) (s₀ s : Session σ) : Prop where
  /-- Disconnecting stores what the connection holds in its cache, and in no other. -/
  stores : ∀ id caches' w', s.link = some id →
    (mongoSyncDisconnect N s.caches).exec s.world = (.ok caches', w') →
    caches' id = ⟨s.world.conn.rs, s.world.conn.auth⟩ ∧ ∀ id', id' ≠ id → caches' id' = s.caches id'
  /-- The next connection holds the same. -/
  returns : ∀ id caches' w', s.link = some id →
    (mongoSyncDisconnect N s.caches).exec s.world = (.ok caches', w') →
    ∀ c cache' u u',
      (mongoSyncConnectRecoveryCache N (mongoSyncReconnect N fuel) id true (caches' id)).exec u
        = (.ok (some c, cache'), u') →
      c.rs = s.world.conn.rs ∧ c.auth = s.world.conn.auth ∧ cache' = caches' id
  cycles : ∀ id w y, ReflTransGen (Cycle N fuel id) (s.caches id, w) y → y.1 = s.caches id
  /-- The credentials are those of one authentication, if no string was read that had
  been freed. -/
  sound : s₀.world.Since s.world fun es => .dangling ∉ es → s.Sound

/-- A recovery cache carries a session over. -/
theorem session_carries (fuel : Nat) (s₀ s : Session σ) (hlink : s₀.link = none)
    (hsound : s₀.Sound) (hrun : ReflTransGen (Session.Step N fuel) s₀ s) :
    CarriesOver N fuel s₀ s := by
  have hlinked : s₀.Linked := fun id hid => by
    rw [hlink] at hid
    cases hid
  obtain ⟨hlinked', hsound'⟩ := Session.run_keeps N hlinked hsound hrun
  have hstores : ∀ id caches' w', s.link = some id →
      (mongoSyncDisconnect N s.caches).exec s.world = (.ok caches', w') →
      caches' = Function.update s.caches id ⟨s.world.conn.rs, s.world.conn.auth⟩ :=
    fun id caches' w' hid hdisconnect =>
      (wp_ok (mongoSyncDisconnect_stores N (hlinked' id hid)) hdisconnect).1
  refine ⟨fun id caches' w' hid hdisconnect => ?_, fun id caches' w' hid hdisconnect c cache' u u'
    hconnect => ?_, fun id w y h => cycles_same N h, hsound'⟩
  · rw [hstores id caches' w' hid hdisconnect]
    exact ⟨Function.update_self .., fun id' hne => Function.update_of_ne hne ..⟩
  · obtain ⟨hrs, hauth, hcache, -⟩ := connect_loads N hconnect
    rw [hstores id caches' w' hid hdisconnect, Function.update_self] at hrs hauth
    exact ⟨hrs, hauth, hcache⟩

/-! ## A session, and one that reads what was freed -/

section Sessions

/-- The credentials of the connection in the state `settings_freed` is about. -/
def storedCache : RecoveryCache where
  rs := ⟨[.ascii ['c', ':', '1']], [], some (.ascii ['b', ':', '1'])⟩
  auth := ⟨some (.ascii ['d']), some (.ascii ['u']), some (.ascii ['p'])⟩

/-- A client that has a cache from an earlier session, and no connection. -/
def idleSession (script : Script) : Session Script where
  caches _ := storedCache
  world := { authenticatedWorld script with conn := mongoSyncConnInit ⟨-1, 0⟩ false }
  link := none
  authed := [(.ascii ['d'], .ascii ['u'], .ascii ['p'])]

theorem idleSession_sound (script : Script) : (idleSession script).Sound :=
  ⟨fun _ => .inr ⟨_, _, _, List.mem_singleton.mpr rfl, rfl⟩, fun h => absurd rfl h⟩

/-- A connection is opened from the stored cache. -/
def openCall (script : Script) :
    Except Halt (Option MongoSyncConnection × RecoveryCache) × World Script :=
  (mongoSyncConnectRecoveryCache playNet (mongoSyncReconnect playNet 3) 0 true storedCache).exec
    (idleSession script).world

/-- What is loaded from the cache. -/
def loadedConn : MongoSyncConnection :=
  { mongoSyncConnInit ⟨6, 0⟩ true with
    rs := storedCache.rs
    auth := storedCache.auth
    recoveryCache := some 0 }

/-- The client with a connection to the primary of the cache. -/
def openSession (script : Script) : Session Script :=
  { idleSession script with
    caches := Function.update (idleSession script).caches 0 storedCache
    world := { (openCall script).2 with conn := loadedConn }
    link := some 0 }

theorem openSession_step (script : Script)
    (h : (openCall script).1 = .ok (some loadedConn, storedCache)) :
    ReflTransGen (Session.Step playNet 3) (idleSession script) (openSession script) := by
  have hrun : openCall script = (.ok (some loadedConn, storedCache), (openCall script).2) :=
    exec_of_fst h rfl
  exact .single (.connect rfl hrun)

/-- The primary accepts a connection, and says that it has the secondary `d:1`. -/
def learningScript : Script where
  connects := [true]
  sends := []
  bytes := answerTo 1 (.cons ismasterKey (.boolean 1) (.cons hostsKey
    (.array (.cons (.ascii ['0']) (.string [98, 58, 49])
      (.cons (.ascii ['1']) (.string [100, 58, 49]) .nil))) okDoc))

/-- The node is asked whether it is a master. -/
def learningCall : Except Halt Bool × World Script :=
  (Command.isMaster.run playNet 3).exec (openSession learningScript).world

/-- The client has asked for the hosts, and carries them over. -/
theorem session_carries_open :
    ∃ s, s.link = some 0 ∧
      s.world.conn.rs.hosts = [.ascii ['b', ':', '1'], .ascii ['d', ':', '1']] ∧
      CarriesOver playNet 3 (idleSession learningScript) s := by
  have hopen := openSession_step learningScript (by decide +kernel)
  have hlearnt : learningCall.1 = .ok true := by decide +kernel
  have hlinked : (openSession learningScript).link ≠ none := by simp [openSession]
  have hask : Session.Step playNet 3 (openSession learningScript)
      { openSession learningScript with world := learningCall.2 } :=
    @Session.Step.command _ _ _ _ .isMaster true _ hlinked (exec_of_fst hlearnt rfl)
  refine ⟨{ openSession learningScript with world := learningCall.2 }, rfl, by decide +kernel, ?_⟩
  exact session_carries playNet 3 _ _ rfl (idleSession_sound _) (hopen.tail hask)

/-- The connection dies, and reconnecting it goes as in `settings_freed`. -/
def dyingScript : Script := { twiceDead with connects := true :: twiceDead.connects }

/-- Automatic reconnection is turned on. -/
def retryingCall : Except Halt Bool × World Script :=
  ((Command.setAutoReconnect true).run playNet 3).exec (openSession dyingScript).world

/-- The reconnection. -/
def freedCall : Except Halt Bool × World Script :=
  ((Command.reconnect false).run playNet 3).exec retryingCall.2

/-- The client after it has reconnected. -/
def freedSession : Session Script := { openSession dyingScript with world := freedCall.2 }

/-- The credentials it holds are from no authentication. -/
theorem session_freed :
    (idleSession dyingScript).Sound ∧
      ReflTransGen (Session.Step playNet 3) (idleSession dyingScript) freedSession ∧
      ¬ Session.Vouched freedSession.authed freedSession.world.conn.auth := by
  have hretrying : retryingCall.1 = .ok true := by decide +kernel
  have hfreed : freedCall.1 = .ok true := by decide +kernel
  have hlinked : (openSession dyingScript).link ≠ none := by simp [openSession]
  refine ⟨idleSession_sound _, ?_, ?_⟩
  · have hopen := openSession_step dyingScript (by decide +kernel)
    have hretry : Session.Step playNet 3 (openSession dyingScript)
        { openSession dyingScript with world := retryingCall.2 } :=
      @Session.Step.command _ _ _ _ (.setAutoReconnect true) true _ hlinked
        (exec_of_fst hretrying rfl)
    have hreconnect : Session.Step playNet 3
        { openSession dyingScript with world := retryingCall.2 } freedSession :=
      @Session.Step.command _ _ _ _ (.reconnect false) true _ hlinked (exec_of_fst hfreed rfl)
    exact (hopen.tail hretry).tail hreconnect
  · have hauth : freedSession.world.conn.auth.user ≠ some (.ascii ['u']) ∧
        freedSession.world.conn.auth.user ≠ none := by decide +kernel
    rintro (hnone | ⟨db, user, pw, hmem, hsome⟩)
    · rw [hnone] at hauth
      exact hauth.2 rfl
    · rw [hsome] at hauth
      cases List.mem_singleton.mp hmem
      exact hauth.1 rfl

end Sessions

end LibMongo
