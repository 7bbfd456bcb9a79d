import LibMongo.Sync.Carry

/-!
# Connection pools

A pool holds connections to a master and to its secondaries.  `mongo_sync_pool_pick`
hands one out and marks it, and `mongo_sync_pool_return` takes it back.

*Building.*  `mongo_sync_pool_new` numbers the masters from zero and the slaves from
`nmasters + 1` on.  It looks for the next secondary in the list of hosts and begins again at
its end, so once it has found one it finds one each time (`nextSecondary_again`).

*Numbers.*  Returning a connection computes its place from its number.  In a pool
that is `Numbered` this is the place it came from, and picking and returning keep the
numbers.

*Runs.*  `PoolRun` follows a pool and the connections that are held.
-/

namespace LibMongo

open Bytes Program

variable {σ : Type} (N : Net σ)

/-! ## Pools -/

/-- `struct _mongo_sync_pool_connection`. -/
structure MongoSyncPoolConnection extends MongoSyncConnection where
  poolId : Int
  inUse : Bool
deriving DecidableEq

/-- `struct _mongo_sync_pool`. -/
structure MongoSyncPool where
  nmasters : Int
  nslaves : Int
  masters : List MongoSyncPoolConnection
  slaves : List MongoSyncPoolConnection
deriving DecidableEq

/-- A pointer to a connection of a pool: its list and its place there. -/
inductive PoolRef where
  | master (i : Nat)
  | slave (i : Nat)
deriving DecidableEq

/-- The connection is one of the masters. -/
def PoolRef.isMaster : PoolRef → Bool
  | .master _ => true
  | .slave _ => false

namespace MongoSyncPool

/-- The connection that is pointed to. -/
def deref (pool : MongoSyncPool) : PoolRef → Option MongoSyncPoolConnection
  | .master i => pool.masters[i]?
  | .slave i => pool.slaves[i]?

/-- A change of the connection that is pointed to. -/
def update (pool : MongoSyncPool) (f : MongoSyncPoolConnection → MongoSyncPoolConnection) :
    PoolRef → MongoSyncPool
  | .master i => { pool with masters := pool.masters.modify i f }
  | .slave i => { pool with slaves := pool.slaves.modify i f }

/-- A change of `in_use`. -/
def mark (pool : MongoSyncPool) (inUse : Bool) (ref : PoolRef) : MongoSyncPool :=
  pool.update (fun c => { c with inUse := inUse }) ref

end MongoSyncPool

/-- The first connection of a list that is not in use. -/
def firstFree (cs : List MongoSyncPoolConnection) : Option Nat := cs.findIdx? fun c => !c.inUse

/-- `mongo_sync_pool_pick`. -/
def mongoSyncPoolPick (pool : MongoSyncPool) (wantMaster : Bool) :
    Except Errno PoolRef × MongoSyncPool :=
  match if wantMaster then none else firstFree pool.slaves with
  | some i => (.ok (.slave i), pool.mark true (.slave i))
  | none =>
      match firstFree pool.masters with
      | some i => (.ok (.master i), pool.mark true (.master i))
      | none => (.error .EAGAIN, pool)

/-- `c->in_use = FALSE` for the connection that `g_list_nth_data` finds. -/
def release (pool : MongoSyncPool) (ref : PoolRef) (n : Int) :
    Except Halt (Except Errno Unit × MongoSyncPool) :=
  if n < 0 ∨ (pool.deref ref).isNone then .error .outside else .ok (.ok (), pool.mark false ref)

/-- `mongo_sync_pool_return`. -/
def mongoSyncPoolReturn (pool : MongoSyncPool) (conn : MongoSyncPoolConnection) :
    Except Halt (Except Errno Unit × MongoSyncPool) :=
  if pool.nmasters < conn.poolId then
    if pool.nslaves < conn.poolId - pool.nmasters ∨ pool.nslaves = 0 then .ok (.error .ERANGE, pool)
    else
      let n := conn.poolId - pool.nmasters - 1
      release pool (.slave n.toNat) n
  else release pool (.master conn.poolId.toNat) conn.poolId

/-! ## Building a pool -/

section New

variable (host : CString) (port : Int)

/-- `_mongo_sync_pool_connect`. -/
def mongoSyncPoolConnect (host : CString) (port : Int) (slaveok : Bool) :
    Program (World σ) (Option MongoSyncPoolConnection) := do
  match ← mongoSyncConnect N host port slaveok with
  | none => return none
  | some c => return some { c with poolId := 0, inUse := false }

/-- The loop over the masters, from `i` on.  A connection that fails is not looked at
before its number is written. -/
def poolMasters : Nat → Nat → Program (World σ) (List MongoSyncPoolConnection)
  | _, 0 => return []
  | i, left + 1 => do
      match ← mongoSyncPoolConnect N host port false with
      | none => throw .outside
      | some c =>
          let cs ← poolMasters (i + 1) left
          return { c with poolId := i } :: cs

/-- The search for a host that is another one, and the place after it. -/
def seekSecondary : List CString → Nat → Program (World σ) (Option (CString × Int) × Nat)
  | [], j => return (none, j)
  | addr :: l, j => do
      match ← orErrno (mongoUtilParseAddr addr) with
      | none => seekSecondary l (j + 1)
      | some (shost, sport) =>
          if sport ≠ port ∨ host ≠ shost then return (some (shost, sport), j + 1)
          else seekSecondary l (j + 1)

/-- The next secondary from the place `j` on.  At the end of the list the search begins
again, unless it began at the start. -/
def nextSecondary (hosts : List CString) (j : Nat) :
    Program (World σ) (Option (CString × Int) × Nat) := do
  match ← seekSecondary host port (hosts.drop j) j with
  | (some found, j) => return (some found, j)
  | (none, j') =>
      if j ≠ 0 then seekSecondary host port hosts 0
      else return (none, if hosts = [] then j' + 1 else j')

/-- The loop over the slaves, from `i` on, and the number of slaves after it. -/
def poolSlaves (hosts : List CString) (nmasters nslaves : Int) :
    Nat → Nat → Nat → Program (World σ) (List MongoSyncPoolConnection × Int)
  | _, _, 0 => return ([], nslaves)
  | j, i, left + 1 => do
      match ← nextSecondary host port hosts j with
      | (none, _) => return ([], i - 1)
      | (some (shost, sport), j) =>
          match ← mongoSyncPoolConnect N shost sport true with
          | none => throw .outside
          | some c =>
              let (cs, n) ← poolSlaves hosts nmasters nslaves j (i + 1) left
              return ({ c with poolId := nmasters + i + 1 } :: cs, n)

/-- `mongo_sync_disconnect` for a connection without a cache. -/
def disconnectOther (c : MongoSyncConnection) : Program (World σ) Unit := do
  let _ ← onConnection c (do
    mongoDisconnect N
    return true)
  return

end New

/-- `mongo_sync_pool_new`. -/
def mongoSyncPoolNew (host : Option CString) (port nmasters nslaves : Int) :
    Program (World σ) (Option MongoSyncPool) := do
  match host with
  | none =>
      setErrno .EINVAL
      return none
  | some host =>
      if port < 0 then
        setErrno .EINVAL
        return none
      else if nmasters < 0 ∨ nslaves < 0 then
        setErrno .ERANGE
        return none
      else if nmasters + nslaves ≤ 0 then
        setErrno .EINVAL
        return none
      else
        match ← mongoSyncPoolConnect N host port false with
        | none => return none
        | some conn =>
            match ← onConnection conn.toMongoSyncConnection (mongoSyncCmdIsMaster N) with
            | none =>
                disconnectOther N conn.toMongoSyncConnection
                setErrno .EPROTO
                return none
            | some conn =>
                let masters ← poolMasters N host port 0 nmasters.toNat
                let (slaves, nslaves) ←
                  poolSlaves N host port conn.rs.hosts nmasters nslaves 0 0 nslaves.toNat
                disconnectOther N conn
                return some ⟨nmasters, nslaves, masters, slaves⟩

/-! ## Numbers -/

/-- The numbers of the connections are their places. -/
structure MongoSyncPool.Numbered (pool : MongoSyncPool) : Prop where
  masters : ∀ (i : Nat) c, pool.masters[i]? = some c → c.poolId = i
  nmasters : pool.masters.length = pool.nmasters
  slaves : ∀ (i : Nat) c, pool.slaves[i]? = some c → c.poolId = pool.nmasters + i + 1
  nslaves : pool.slaves = [] ∨ pool.slaves.length = pool.nslaves

/-- No connection is in use. -/
def MongoSyncPool.AllFree (pool : MongoSyncPool) : Prop :=
  ∀ ref c, pool.deref ref = some c → c.inUse = false

/-- The address is that of another host. -/
def isSecondary (host : CString) (port : Int) (addr : CString) : Bool :=
  match mongoUtilParseAddr addr with
  | .ok (shost, sport) => sport ≠ port ∨ host ≠ shost
  | .error _ => false

section New

variable (host : CString) (port : Int)

theorem seekSecondary_spec (l : List CString) (j : Nat) (w : World σ) :
    wp (seekSecondary host port l j) (fun r _ => r.1.isSome = l.any (isSecondary host port) ∧
      (r.1.isSome = true → r.2 ≠ 0)) (fun _ => False) w := by
  induction l generalizing j w with
  | nil => exact ⟨rfl, fun h => by cases h⟩
  | cons addr l ih =>
      rw [seekSecondary, wp_bind]
      refine wp_orErrno (fun a ha => ?_) (fun e he => ?_)
      · obtain ⟨shost, sport⟩ := a
        refine wp_ite (fun hother => ?_) (fun hother => ?_)
        · simp [isSecondary, ha, hother]
        · refine wp_mono (ih (j + 1) w) (fun r _ h => ⟨?_, h.2⟩) (fun _ h => h)
          rw [h.1]
          simp [isSecondary, ha, hother]
      · refine wp_mono (ih (j + 1) _) (fun r _ h => ⟨?_, h.2⟩) (fun _ h => h)
        rw [h.1]
        simp [isSecondary, he]

/-- Wherever the search begins, it finds a secondary if there is one. -/
theorem nextSecondary_again (hosts : List CString) (j : Nat) (w : World σ) :
    wp (nextSecondary host port hosts j)
      (fun r _ => r.1.isSome = hosts.any (isSecondary host port)) (fun _ => False) w := by
  rw [nextSecondary, wp_bind]
  refine wp_mono (seekSecondary_spec host port (hosts.drop j) j w) (fun r u hr => ?_) (fun _ h => h)
  obtain ⟨found, j'⟩ := r
  have hany : (hosts.drop j).any (isSecondary host port) = true →
      hosts.any (isSecondary host port) = true := by
    intro h
    obtain ⟨addr, hmem, haddr⟩ := List.any_eq_true.mp h
    exact List.any_eq_true.mpr ⟨addr, List.mem_of_mem_drop hmem, haddr⟩
  cases found with
  | some found => exact (hany hr.1.symm).symm
  | none =>
      refine wp_ite (fun _ => ?_) (fun hj => ?_)
      · exact wp_mono (seekSecondary_spec host port hosts 0 u) (fun _ _ h => h.1) (fun _ h => h)
      · obtain rfl : j = 0 := by simpa using hj
        exact hr.1

/-- A connection of the pool when it is made. -/
theorem mongoSyncPoolConnect_free (slaveok : Bool) (w : World σ) :
    wp (mongoSyncPoolConnect N host port slaveok)
      (fun r _ => ∀ c, r = some c → c.inUse = false) (fun _ => True) w := by
  rw [mongoSyncPoolConnect, wp_bind]
  refine wp_of_exec (fun c u _ => ?_) (fun _ _ _ => trivial)
  cases c with
  | none => exact fun _ h => by cases h
  | some c =>
      intro c' h
      cases h
      rfl

/-- The connections of a list are free and numbered from `n` on. -/
def FreeFrom (n : Int) (cs : List MongoSyncPoolConnection) : Prop :=
  ∀ (k : Nat) c, cs[k]? = some c → c.poolId = n + k ∧ c.inUse = false

theorem FreeFrom.cons {n : Int} {c : MongoSyncPoolConnection} {cs : List MongoSyncPoolConnection}
    (hid : c.poolId = n) (hfree : c.inUse = false) (h : FreeFrom (n + 1) cs) :
    FreeFrom n (c :: cs) := by
  intro k c' hk
  cases k with
  | zero =>
      cases hk
      simp [hid, hfree]
  | succ k =>
      obtain ⟨hid', hfree'⟩ := h k c' hk
      refine ⟨?_, hfree'⟩
      rw [hid']
      push_cast
      omega

theorem poolMasters_spec (i left : Nat) (w : World σ) :
    wp (poolMasters N host port i left) (fun cs _ => FreeFrom i cs ∧ cs.length = left)
      (fun _ => True) w := by
  induction left generalizing i w with
  | zero => exact ⟨fun _ _ h => (by cases h), rfl⟩
  | succ left ih =>
      rw [poolMasters, wp_bind]
      refine wp_mono (mongoSyncPoolConnect_free N host port false w) (fun c u hc => ?_)
        (fun _ _ => trivial)
      cases c with
      | none => trivial
      | some c =>
          show wp (_ >>= _) _ _ _
          rw [wp_bind]
          refine wp_mono (ih (i + 1) u) (fun cs _ hcs => ?_) (fun _ _ => trivial)
          exact ⟨.cons rfl (hc c rfl) (by exact_mod_cast hcs.1), by simp [hcs.2]⟩

/-- The slaves are as many as were asked for if there is a secondary, and none otherwise. -/
theorem poolSlaves_spec (hosts : List CString) (nmasters nslaves : Int) (j i left : Nat)
    (w : World σ) :
    wp (poolSlaves N host port hosts nmasters nslaves j i left)
      (fun r _ => FreeFrom (nmasters + i + 1) r.1 ∧
        (r.1 = [] ∨ r.1.length = left ∧ r.2 = nslaves) ∧
        (hosts.any (isSecondary host port) = true → r.1.length = left ∧ r.2 = nslaves))
      (fun _ => True) w := by
  induction left generalizing j i w with
  | zero => exact ⟨fun _ _ h => (by cases h), .inl rfl, fun _ => ⟨rfl, rfl⟩⟩
  | succ left ih =>
      rw [poolSlaves, wp_bind]
      refine wp_mono (nextSecondary_again host port hosts j w) (fun r u hr => ?_)
        (fun _ h => h.elim)
      obtain ⟨found, j'⟩ := r
      cases found with
      | none =>
          refine ⟨fun _ _ h => (by cases h), .inl rfl, fun h => ?_⟩
          rw [h] at hr
          cases hr
      | some found =>
          obtain ⟨shost, sport⟩ := found
          show wp (_ >>= _) _ _ _
          rw [wp_bind]
          refine wp_mono (mongoSyncPoolConnect_free N shost sport true u) (fun c v hc => ?_)
            (fun _ _ => trivial)
          cases c with
          | none => trivial
          | some c =>
              show wp (_ >>= _) _ _ _
              rw [wp_bind]
              refine wp_mono (ih j' (i + 1) v) (fun r _ h => ?_) (fun _ _ => trivial)
              obtain ⟨hfree, -, hall⟩ := h
              obtain ⟨hlength, hn⟩ := hall hr.symm
              have hfull : (r.1.length + 1 = left + 1) ∧ r.2 = nslaves := ⟨by rw [hlength], hn⟩
              refine ⟨.cons rfl (hc c rfl) ?_, .inr hfull, fun _ => hfull⟩
              intro k c' hk
              obtain ⟨hid, hfree'⟩ := hfree k c' hk
              refine ⟨?_, hfree'⟩
              rw [hid]
              push_cast
              omega

/-- A pool that was built. -/
theorem mongoSyncPoolNew_spec (host : Option CString) (port nmasters nslaves : Int) (w : World σ) :
    wp (mongoSyncPoolNew N host port nmasters nslaves)
      (fun r _ => ∀ pool, r = some pool → pool.Numbered ∧ pool.AllFree) (fun _ => True) w := by
  have hnone : ∀ pool : MongoSyncPool, none = some pool → pool.Numbered ∧ pool.AllFree :=
    fun _ h => by cases h
  cases host with
  | none => exact hnone
  | some host =>
      rw [mongoSyncPoolNew]
      dsimp only
      refine wp_ite (fun _ => hnone) (fun _ => wp_ite (fun _ => hnone) (fun hpos =>
        wp_ite (fun _ => hnone) (fun _ => ?_)))
      rw [wp_bind]
      refine wp_of_exec (fun conn u _ => ?_) (fun _ _ _ => trivial)
      cases conn with
      | none => exact hnone
      | some conn =>
          show wp (_ >>= _) _ _ _
          rw [wp_bind]
          refine wp_of_exec (fun conn u _ => ?_) (fun _ _ _ => trivial)
          cases conn with
          | none =>
              show wp (_ >>= _) _ _ _
              rw [wp_bind]
              exact wp_of_exec (fun _ _ _ => hnone) (fun _ _ _ => trivial)
          | some conn =>
              show wp (_ >>= _) _ _ _
              rw [wp_bind]
              refine wp_mono (poolMasters_spec N host port 0 nmasters.toNat u)
                (fun masters v hmasters => ?_) (fun _ _ => trivial)
              rw [wp_bind]
              refine wp_mono (poolSlaves_spec N host port conn.rs.hosts nmasters nslaves 0 0
                nslaves.toNat v) (fun r x hslaves => ?_) (fun _ _ => trivial)
              obtain ⟨slaves, n⟩ := r
              dsimp only
              rw [wp_bind]
              refine wp_of_exec (fun _ _ _ pool h => ?_) (fun _ _ _ => trivial)
              cases h
              simp only [not_or, not_lt] at hpos
              refine ⟨⟨fun i c hc => ?_, ?_, fun i c hc => ?_, ?_⟩, fun ref c hc => ?_⟩
              · simpa using (hmasters.1 i c hc).1
              · rw [hmasters.2, Int.toNat_of_nonneg hpos.1]
              · have hid := (hslaves.1 i c hc).1
                dsimp only
                omega
              · refine hslaves.2.1.imp_right fun h => ?_
                obtain ⟨hlength, rfl⟩ := h
                rw [hlength, Int.toNat_of_nonneg hpos.2]
              · cases ref with
                | master i => exact (hmasters.1 i c hc).2
                | slave i => exact (hslaves.1 i c hc).2

end New

/-! ## Picking and returning -/

namespace MongoSyncPool

variable {pool : MongoSyncPool} {f : MongoSyncPoolConnection → MongoSyncPoolConnection}

/-- A change of one connection leaves the others. -/
theorem deref_update (ref ref' : PoolRef) :
    (pool.update f ref).deref ref'
      = if ref' = ref then (pool.deref ref').map f else pool.deref ref' := by
  have hmodify : ∀ (cs : List MongoSyncPoolConnection) (i j : Nat), (cs.modify i f)[j]?
      = if j = i then cs[j]?.map f else cs[j]? := by
    intro cs i j
    rw [List.getElem?_modify]
    by_cases h : j = i
    · simp [h]
    · simp [h, Ne.symm h]
  cases ref with
  | master i =>
      cases ref' with
      | master j => simp [update, deref, hmodify]
      | slave j => simp [update, deref]
  | slave i =>
      cases ref' with
      | master j => simp [update, deref]
      | slave j => simp [update, deref, hmodify]

@[simp] theorem update_nmasters (ref : PoolRef) : (pool.update f ref).nmasters = pool.nmasters := by
  cases ref with
  | _ => rfl

@[simp] theorem update_nslaves (ref : PoolRef) : (pool.update f ref).nslaves = pool.nslaves := by
  cases ref with
  | _ => rfl

/-- A change that is not one of the number. -/
theorem Numbered.update (h : pool.Numbered) (hf : ∀ c, (f c).poolId = c.poolId) (ref : PoolRef) :
    (pool.update f ref).Numbered := by
  have hkept : ∀ ref' c', (pool.update f ref).deref ref' = some c' →
      ∃ c, pool.deref ref' = some c ∧ c'.poolId = c.poolId := by
    intro ref' c' hc'
    rw [deref_update] at hc'
    split at hc'
    · obtain ⟨c, hc, rfl⟩ := Option.map_eq_some_iff.mp hc'
      exact ⟨c, hc, hf c⟩
    · exact ⟨c', hc', rfl⟩
  refine ⟨fun i c' hc' => ?_, ?_, fun i c' hc' => ?_, ?_⟩
  · obtain ⟨c, hc, hid⟩ := hkept (.master i) c' hc'
    exact hid.trans (h.masters i c hc)
  · rw [update_nmasters, ← h.nmasters]
    cases ref with
    | master i => simp [MongoSyncPool.update]
    | slave i => rfl
  · obtain ⟨c, hc, hid⟩ := hkept (.slave i) c' hc'
    rw [update_nmasters]
    exact hid.trans (h.slaves i c hc)
  · rw [update_nslaves]
    cases ref with
    | master i => exact h.nslaves
    | slave i =>
        refine h.nslaves.imp (fun hnil => ?_) fun hlen => ?_
        · simp [MongoSyncPool.update, hnil]
        · simpa [MongoSyncPool.update] using hlen

end MongoSyncPool

/-- The first free connection of a list is free. -/
theorem firstFree_some {cs : List MongoSyncPoolConnection} {i : Nat} (h : firstFree cs = some i) :
    ∃ c, cs[i]? = some c ∧ c.inUse = false := by
  obtain ⟨hi, hfree, -⟩ := List.findIdx?_eq_some_iff_getElem.mp h
  exact ⟨cs[i], List.getElem?_eq_getElem hi, by simpa using hfree⟩

/-- If there is none, all are in use. -/
theorem firstFree_none {cs : List MongoSyncPoolConnection} (h : firstFree cs = none) {i : Nat}
    {c : MongoSyncPoolConnection} (hc : cs[i]? = some c) : c.inUse = true := by
  have hall := List.findIdx?_eq_none_iff.mp h c (List.mem_of_getElem? hc)
  simpa using hall

/-- What is picked was free, and a slave is preferred if a master is not wanted. -/
theorem mongoSyncPoolPick_ok {pool pool' : MongoSyncPool} {wantMaster : Bool} {ref : PoolRef}
    (h : mongoSyncPoolPick pool wantMaster = (.ok ref, pool')) :
    (∃ c, pool.deref ref = some c ∧ c.inUse = false) ∧ pool' = pool.mark true ref ∧
      (wantMaster = true → ref.isMaster = true) ∧
      (wantMaster = false → ref.isMaster = true →
        ∀ i c, pool.deref (.slave i) = some c → c.inUse = true) := by
  rw [mongoSyncPoolPick] at h
  split at h
  next i hslave =>
    cases h
    cases wantMaster with
    | true => cases hslave
    | false => exact ⟨firstFree_some hslave, rfl, (fun h => by cases h), fun _ h => by cases h⟩
  next hslave =>
    split at h
    next i hmaster =>
      cases h
      refine ⟨firstFree_some hmaster, rfl, fun _ => rfl, fun hwant _ i c hc => ?_⟩
      subst hwant
      exact firstFree_none hslave hc
    next => cases h

/-- Nothing is picked only if nothing that may be is free. -/
theorem mongoSyncPoolPick_error {pool pool' : MongoSyncPool} {wantMaster : Bool} {e : Errno}
    (h : mongoSyncPoolPick pool wantMaster = (.error e, pool')) :
    pool' = pool ∧ ∀ ref c, pool.deref ref = some c → (ref.isMaster = true ∨ wantMaster = false) →
      c.inUse = true := by
  rw [mongoSyncPoolPick] at h
  split at h
  next => cases h
  next hslave =>
    split at h
    next => cases h
    next hmaster =>
      cases h
      refine ⟨rfl, fun ref c hc hwant => ?_⟩
      cases ref with
      | master i => exact firstFree_none hmaster hc
      | slave i =>
          rcases hwant with hwant | hwant
          · cases hwant
          · subst hwant
            exact firstFree_none hslave hc

/-- The place computed from the number is the one the connection has. -/
theorem mongoSyncPoolReturn_marks {pool : MongoSyncPool} (hpool : pool.Numbered) {ref : PoolRef}
    {c : MongoSyncPoolConnection} (hc : pool.deref ref = some c) :
    mongoSyncPoolReturn pool c = .ok (.ok (), pool.mark false ref) := by
  have hrelease : ∀ (ref' : PoolRef) (n : Int), ref' = ref → 0 ≤ n →
      release pool ref' n = .ok (.ok (), pool.mark false ref) := by
    intro ref' n href hn
    subst href
    rw [release, hc, if_neg (by simpa using hn)]
  cases ref with
  | master i =>
      have hid := hpool.masters i c hc
      have hlt := (List.getElem?_eq_some_iff.mp hc).1
      have hn := hpool.nmasters
      rw [mongoSyncPoolReturn, if_neg (by omega), hid]
      exact hrelease _ _ (by simp) (by omega)
  | slave i =>
      have hid := hpool.slaves i c hc
      have hlt := (List.getElem?_eq_some_iff.mp hc).1
      have hlen : pool.slaves.length = pool.nslaves := by
        refine hpool.nslaves.resolve_left fun hnil => ?_
        rw [hnil] at hlt
        cases hlt
      rw [mongoSyncPoolReturn, if_pos (by omega), if_neg (by omega), hid]
      refine hrelease _ _ ?_ (by omega)
      congr 1
      omega

/-! ## Runs -/

/-- A run of a pool with the connections that are held.  A picker may do with its
connection what it likes, except for what belongs to the pool. -/
inductive PoolRun (pool₀ : MongoSyncPool) : MongoSyncPool → List PoolRef → Prop
  | start : PoolRun pool₀ pool₀ []
  | pick {pool pool' : MongoSyncPool} {held : List PoolRef} {wantMaster : Bool} {ref : PoolRef} :
      PoolRun pool₀ pool held → mongoSyncPoolPick pool wantMaster = (.ok ref, pool') →
      PoolRun pool₀ pool' (ref :: held)
  | refused {pool pool' : MongoSyncPool} {held : List PoolRef} {wantMaster : Bool} {e : Errno} :
      PoolRun pool₀ pool held → mongoSyncPoolPick pool wantMaster = (.error e, pool') →
      PoolRun pool₀ pool' held
  | use {pool : MongoSyncPool} {held : List PoolRef} {ref : PoolRef} (c : MongoSyncConnection) :
      PoolRun pool₀ pool held → ref ∈ held →
      PoolRun pool₀ (pool.update (fun p => { p with toMongoSyncConnection := c }) ref) held
  | return {pool pool' : MongoSyncPool} {held : List PoolRef} {ref : PoolRef}
      {c : MongoSyncPoolConnection} {r : Except Errno Unit} :
      PoolRun pool₀ pool held → ref ∈ held → pool.deref ref = some c →
      mongoSyncPoolReturn pool c = .ok (r, pool') → PoolRun pool₀ pool' (held.erase ref)

/-- The connections that are marked are those that are held. -/
structure Leases (pool : MongoSyncPool) (held : List PoolRef) : Prop where
  numbered : pool.Numbered
  nodup : held.Nodup
  known : ∀ ref ∈ held, ∃ c, pool.deref ref = some c
  inUse : ∀ ref c, pool.deref ref = some c → (c.inUse = true ↔ ref ∈ held)

namespace Leases

variable {pool : MongoSyncPool} {held : List PoolRef}

/-- A change of a connection that leaves its number and its mark. -/
theorem update (h : Leases pool held) {f : MongoSyncPoolConnection → MongoSyncPoolConnection}
    (hid : ∀ c, (f c).poolId = c.poolId) (huse : ∀ c, (f c).inUse = c.inUse) (ref : PoolRef) :
    Leases (pool.update f ref) held := by
  refine ⟨h.numbered.update hid ref, h.nodup, fun ref' hmem => ?_, fun ref' c' hc' => ?_⟩
  · obtain ⟨c, hc⟩ := h.known ref' hmem
    rw [MongoSyncPool.deref_update, hc]
    split
    · exact ⟨f c, rfl⟩
    · exact ⟨c, rfl⟩
  · rw [MongoSyncPool.deref_update] at hc'
    split at hc'
    · obtain ⟨c, hc, rfl⟩ := Option.map_eq_some_iff.mp hc'
      rw [huse]
      exact h.inUse ref' c hc
    · exact h.inUse ref' c' hc'

/-- A connection that is marked or not, and held or not. -/
theorem mark (h : Leases pool held) (inUse : Bool) (ref : PoolRef) {held' : List PoolRef}
    (hnodup : held'.Nodup) (hsame : ∀ ref', ref' ≠ ref → (ref' ∈ held' ↔ ref' ∈ held))
    (href : inUse = true ↔ ref ∈ held') (hexists : ∃ c, pool.deref ref = some c) :
    Leases (pool.mark inUse ref) held' := by
  refine ⟨h.numbered.update (f := fun c => { c with inUse := inUse }) (fun _ => rfl) ref, hnodup,
    fun ref' hmem => ?_, fun ref' c' hc' => ?_⟩
  · have hc : ∃ c, pool.deref ref' = some c := by
      by_cases heq : ref' = ref
      · rwa [heq]
      · exact h.known ref' ((hsame ref' heq).mp hmem)
    obtain ⟨c, hc⟩ := hc
    rw [MongoSyncPool.mark, MongoSyncPool.deref_update, hc]
    split
    · exact ⟨_, rfl⟩
    · exact ⟨c, rfl⟩
  · rw [MongoSyncPool.mark, MongoSyncPool.deref_update] at hc'
    split at hc'
    next heq =>
      obtain ⟨c, -, rfl⟩ := Option.map_eq_some_iff.mp hc'
      rw [heq]
      exact href
    next hne =>
      rw [hsame ref' hne]
      exact h.inUse ref' c' hc'

end Leases

/-- What a step keeps, and so a run. -/
theorem PoolRun.leases {pool₀ pool : MongoSyncPool} {held : List PoolRef}
    (hnumbered : pool₀.Numbered) (hfree : pool₀.AllFree) (h : PoolRun pool₀ pool held) :
    Leases pool held := by
  induction h with
  | start =>
      refine ⟨hnumbered, List.nodup_nil, fun _ hmem => (by cases hmem), fun ref c hc => ?_⟩
      simp [hfree ref c hc]
  | @pick pool pool' held wantMaster ref _ hpick ih =>
      obtain ⟨⟨c, hc, hunused⟩, rfl, -, -⟩ := mongoSyncPoolPick_ok hpick
      have hnot : ref ∉ held := fun hmem => by
        rw [(ih.inUse ref c hc).mpr hmem] at hunused
        cases hunused
      refine ih.mark true ref (List.nodup_cons.mpr ⟨hnot, ih.nodup⟩) (fun ref' hne => ?_)
        (by simp) ⟨c, hc⟩
      simp [hne]
  | refused _ hpick ih =>
      obtain ⟨rfl, -⟩ := mongoSyncPoolPick_error hpick
      exact ih
  | use c _ _ ih =>
      exact ih.update (f := fun p => { p with toMongoSyncConnection := c }) (fun _ => rfl)
        (fun _ => rfl) _
  | @«return» pool pool' held ref c r _ hmem hc hreturn ih =>
      rw [mongoSyncPoolReturn_marks ih.numbered hc] at hreturn
      cases hreturn
      refine ih.mark false ref (ih.nodup.erase ref) (fun ref' hne => ?_) ?_ ⟨c, hc⟩
      · exact List.mem_erase_of_ne hne
      · simpa using ih.nodup.not_mem_erase

/-! ## Safe pools -/

/-- A connection of the pool that is available. -/
def MongoSyncPool.Free (pool : MongoSyncPool) (ref : PoolRef) : Prop :=
  ∃ c, pool.deref ref = some c ∧ c.inUse = false

/-- What pickers can rely on. -/
structure PoolSafe (pool : MongoSyncPool) (held : List PoolRef) : Prop where
  /-- No connection is held by two of them. -/
  nodup : held.Nodup
  /-- What is handed out is held by none, is a master if one is wanted, and otherwise is
  a master only if all slaves are held. -/
  picks : ∀ wantMaster ref pool', mongoSyncPoolPick pool wantMaster = (.ok ref, pool') →
    ref ∉ held ∧ (wantMaster = true → ref.isMaster = true) ∧
      (wantMaster = false → ref.isMaster = true →
        ∀ i c, pool.deref (.slave i) = some c → .slave i ∈ held)
  /-- `NULL` is returned only if every connection that would do is held. -/
  refuses : ∀ wantMaster e pool', mongoSyncPoolPick pool wantMaster = (.error e, pool') →
    ∀ ref c, pool.deref ref = some c → (ref.isMaster = true ∨ wantMaster = false) → ref ∈ held
  /-- The connection that is returned becomes available, and no other. -/
  returns : ∀ ref ∈ held, ∃ c pool', pool.deref ref = some c ∧
    mongoSyncPoolReturn pool c = .ok (.ok (), pool') ∧
    ∀ ref', pool'.Free ref' ↔ pool.Free ref' ∨ ref' = ref

theorem Leases.safe {pool : MongoSyncPool} {held : List PoolRef} (h : Leases pool held) :
    PoolSafe pool held := by
  refine ⟨h.nodup, fun wantMaster ref pool' hpick => ?_, fun wantMaster e pool' hpick ref c hc
    hwant => ?_, fun ref hmem => ?_⟩
  · obtain ⟨⟨c, hc, hunused⟩, -, hmaster, hslaves⟩ := mongoSyncPoolPick_ok hpick
    refine ⟨fun hmem => ?_, hmaster, fun hwant href i c' hc' => ?_⟩
    · rw [(h.inUse ref c hc).mpr hmem] at hunused
      cases hunused
    · exact (h.inUse _ c' hc').mp (hslaves hwant href i c' hc')
  · exact (h.inUse ref c hc).mp ((mongoSyncPoolPick_error hpick).2 ref c hc hwant)
  · obtain ⟨c, hc⟩ := h.known ref hmem
    refine ⟨c, pool.mark false ref, hc, mongoSyncPoolReturn_marks h.numbered hc, fun ref' => ?_⟩
    rw [MongoSyncPool.Free, MongoSyncPool.Free, MongoSyncPool.mark, MongoSyncPool.deref_update]
    by_cases heq : ref' = ref
    · subst heq
      simp [hc]
    · simp [heq]

/-- A pool that was built never hands out a connection twice. -/
theorem pool_safe (host : Option CString) (port nmasters nslaves : Int) (w w' : World σ)
    (pool₀ pool : MongoSyncPool) (held : List PoolRef)
    (hnew : (mongoSyncPoolNew N host port nmasters nslaves).exec w = (.ok (some pool₀), w'))
    (hrun : PoolRun pool₀ pool held) : PoolSafe pool held := by
  obtain ⟨hnumbered, hfree⟩ :=
    wp_ok (mongoSyncPoolNew_spec N host port nmasters nslaves w) hnew pool₀ rfl
  exact (hrun.leases hnumbered hfree).safe

section Sample

/-- The master `a:1` says that it has the secondary `b:1`, and everyone accepts
connections. -/
def poolScript : Script where
  connects := [true, true, true]
  sends := []
  bytes := answerTo 1 (.cons ismasterKey (.boolean 1) (.cons hostsKey
    (.array (.cons (.ascii ['0']) (.string [97, 58, 49])
      (.cons (.ascii ['1']) (.string [98, 58, 49]) .nil))) okDoc))

/-- The pool is built from that script. -/
def pooled : Except Halt (Option MongoSyncPool) × World Script :=
  (mongoSyncPoolNew playNet (some (.ascii ['a'])) 1 1 1).exec (authenticatedWorld poolScript)

/-- A connection of that pool. -/
def pooledConn (fd : Int) (slaveok : Bool) (seed : CString) (id : Int) : MongoSyncPoolConnection :=
  { { mongoSyncConnInit ⟨fd, 0⟩ slaveok with rs := ⟨[seed], [], none⟩ } with
    poolId := id
    inUse := false }

/-- A pool of a master and a slave. -/
def samplePool : MongoSyncPool where
  nmasters := 1
  nslaves := 1
  masters := [pooledConn 7 false (.ascii ['a', ':', '1']) 0]
  slaves := [pooledConn 8 true (.ascii ['b', ':', '1']) 2]

/-- The slave of the pool is picked. -/
theorem pool_safe_sample :
    PoolSafe (samplePool.mark true (.slave 0)) [.slave 0] := by
  have hfst : pooled.1 = .ok (some samplePool) := by decide +kernel
  have hnew : pooled = (.ok (some samplePool), pooled.2) := exec_of_fst hfst rfl
  have hpick : mongoSyncPoolPick samplePool false
      = (.ok (.slave 0), samplePool.mark true (.slave 0)) := rfl
  exact pool_safe playNet _ _ _ _ _ _ _ _ _ hnew (.pick .start hpick)

end Sample

end LibMongo
