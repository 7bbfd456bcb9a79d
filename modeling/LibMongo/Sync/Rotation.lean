import LibMongo.Sync.Pool

/-!
# The connections of a new pool

`mongo_sync_pool_new` learns a list of hosts from the master, and then opens as many connections
as it was asked for.

*Which.*  The slaves go to the `secondaries` of the list, one after the other and around again
(`pool_rotates`).  The search keeps a place in the list; what counts is which secondaries are
behind that place.

*Whether.*  `openAll` opens connections one after the other until one fails.  `mongo_sync_pool_new`
writes the number of a connection before it looks whether there is one, and counts one slave too
few when there is no secondary.  So it copes exactly when every connection can be opened, and there
is a secondary if there are to be slaves (`pool_copes_iff`).
-/

namespace LibMongo

open Bytes Program

variable {σ : Type} (N : Net σ)

/-! ## Secondaries -/

section Secondaries

variable (host : CString) (port : Int)

/-- The addresses of a list that parse and are not the one given. -/
def secondaries (hosts : List CString) : List (CString × Int) :=
  hosts.filterMap fun addr =>
    match mongoUtilParseAddr addr with
    | .ok a => if a.2 ≠ port ∨ host ≠ a.1 then some a else none
    | .error _ => none

/-- What a search through a list from the place `j` on comes to. -/
structure Sought (l : List CString) (j : Nat) (r : Option (CString × Int) × Nat) : Prop where
  found : r.1 = (secondaries host port l).head?
  rest : ∀ a, r.1 = some a → ∃ n, r.2 = j + (n + 1) ∧
    secondaries host port (l.drop (n + 1)) = (secondaries host port l).tail

/-- An address that is passed over. -/
theorem Sought.skip {addr : CString} {l : List CString} {j : Nat}
    {r : Option (CString × Int) × Nat} (h : Sought host port l (j + 1) r)
    (haddr : secondaries host port (addr :: l) = secondaries host port l) :
    Sought host port (addr :: l) j r := by
  constructor
  · rw [haddr]
    exact h.found
  · intro a ha
    obtain ⟨n, hn, hrest⟩ := h.rest a ha
    refine ⟨n + 1, by omega, ?_⟩
    rw [haddr]
    exact hrest

theorem exec_seekSecondary (l : List CString) (j : Nat) (w : World σ) :
    ∃ r e, (seekSecondary host port l j).exec w = (.ok r, { w with errno := e }) ∧
      Sought host port l j r := by
  induction l generalizing j w with
  | nil => exact ⟨_, _, rfl, rfl, fun a ha => by cases ha⟩
  | cons addr l ih =>
      rw [seekSecondary]
      cases hparse : mongoUtilParseAddr addr with
      | error e =>
          obtain ⟨r, e', hrun, hr⟩ := ih (j + 1) { w with errno := e }
          refine ⟨r, e', hrun, hr.skip host port ?_⟩
          simp [secondaries, hparse]
      | ok a =>
          obtain ⟨shost, sport⟩ := a
          by_cases hother : sport ≠ port ∨ host ≠ shost
          · refine ⟨(some (shost, sport), j + 1), w.errno, ?_, ?_, ?_⟩
            · show (if sport ≠ port ∨ host ≠ shost then
                (return (some (shost, sport), j + 1) : Program (World σ) _) else _).exec w = _
              rw [if_pos hother]
              rfl
            · simp [secondaries, hparse, hother]
            · intro a ha
              refine ⟨0, rfl, ?_⟩
              simp [secondaries, hparse, hother]
          · obtain ⟨r, e', hrun, hr⟩ := ih (j + 1) w
            refine ⟨r, e', ?_, hr.skip host port ?_⟩
            · show (if sport ≠ port ∨ host ≠ shost then
                (return (some (shost, sport), j + 1) : Program (World σ) _) else _).exec w = _
              rw [if_neg hother, hrun]
            · simp [secondaries, hparse, hother]

/-- The search finds the secondary that is behind `m` others, or the first one if there is none
behind so many. -/
theorem exec_nextSecondary {hosts : List CString} {j m : Nat}
    (hne : secondaries host port hosts ≠ []) (hm : m ≤ (secondaries host port hosts).length)
    (hbehind : secondaries host port (hosts.drop j) = (secondaries host port hosts).drop m)
    (w : World σ) :
    ∃ a j' e, (nextSecondary host port hosts j).exec w
        = (.ok (some a, j'), { w with errno := e }) ∧
      (secondaries host port hosts)[m % (secondaries host port hosts).length]? = some a ∧
      secondaries host port (hosts.drop j')
        = (secondaries host port hosts).drop (m % (secondaries host port hosts).length + 1) := by
  have hpos := List.length_pos_iff.mpr hne
  obtain ⟨⟨found, j'⟩, e, hrun, hsought⟩ := exec_seekSecondary host port (hosts.drop j) j w
  have hfound := hsought.found
  simp only [hbehind] at hfound
  rw [nextSecondary, exec_bind_ok hrun]
  rcases Nat.lt_or_eq_of_le hm with hlt | rfl
  · -- there is one behind the place
    rw [Nat.mod_eq_of_lt hlt]
    rw [List.head?_drop, List.getElem?_eq_getElem hlt] at hfound
    subst hfound
    obtain ⟨n, hj, hrest⟩ := hsought.rest _ rfl
    simp only at hj
    refine ⟨_, j', e, rfl, List.getElem?_eq_getElem hlt, ?_⟩
    rw [hj, ← List.drop_drop, hrest, hbehind, List.tail_drop]
  · -- the search begins again
    rw [Nat.mod_self]
    rw [List.drop_length] at hfound
    have hnone : found = none := by simpa using hfound
    subst hnone
    have hj : j ≠ 0 := by
      rintro rfl
      rw [List.drop_zero, List.drop_length] at hbehind
      exact hne hbehind
    obtain ⟨⟨found, k⟩, e', hrun', hsought'⟩ := exec_seekSecondary host port hosts 0
      { w with errno := e }
    have hfound' := hsought'.found
    rw [List.head?_eq_getElem?, List.getElem?_eq_getElem hpos] at hfound'
    simp only at hfound'
    subst hfound'
    obtain ⟨n, hk, hrest⟩ := hsought'.rest _ rfl
    simp only [Nat.zero_add] at hk
    refine ⟨_, k, e', ?_, List.getElem?_eq_getElem hpos, ?_⟩
    · show (if j ≠ 0 then seekSecondary host port hosts 0 else _ :
        Program (World σ) _).exec { w with errno := e } = _
      rw [if_pos hj, hrun']
    · rw [hk, hrest, Nat.zero_add, List.drop_one]

/-- Without secondaries there is none to be found. -/
theorem exec_nextSecondary_none {hosts : List CString} (h : secondaries host port hosts = [])
    (w : World σ) :
    ∃ j e, (nextSecondary host port hosts 0).exec w = (.ok (none, j), { w with errno := e }) := by
  obtain ⟨⟨found, j⟩, e, hrun, hsought⟩ := exec_seekSecondary host port hosts 0 w
  have hfound := hsought.found
  rw [h] at hfound
  simp only [List.head?_nil] at hfound
  subst hfound
  rw [nextSecondary, List.drop_zero, exec_bind_ok hrun]
  exact ⟨_, e, rfl⟩

end Secondaries

/-! ## Opening connections one after the other -/

/-- The connections that are opened to the addresses, if all are. -/
def openAll (slaveok : Bool) :
    List (CString × Int) → World σ → Option (List MongoSyncPoolConnection × World σ)
  | [], w => some ([], w)
  | a :: as, w =>
      match (mongoSyncPoolConnect N a.1 a.2 slaveok).exec w with
      | (.ok (some c), u) => (openAll slaveok as u).map fun r => (c :: r.1, r.2)
      | _ => none

/-- What an attempt comes to. -/
structure World.Attempts (w : World σ) (a : CString × Int) (r : Option MongoSyncPoolConnection)
    (w' : World σ) : Prop where
  conn : w'.conn = w.conn
  nextFd_le : w.nextFd ≤ w'.nextFd
  opened : ∀ c, r = some c → c.fd = w.nextFd ∧ w'.nextFd = w.nextFd + 1 ∧
    w'.log = w.log ++ [.connect w.nextFd a.1 a.2]

theorem exec_mongoSyncPoolConnect (a : CString × Int) (slaveok : Bool) (w : World σ) :
    ∃ r w', (mongoSyncPoolConnect N a.1 a.2 slaveok).exec w = (.ok r, w') ∧ w.Attempts a r w' := by
  have hwp : wp (mongoSyncPoolConnect N a.1 a.2 slaveok) (w.Attempts a) (fun _ => False) w := by
    rw [mongoSyncPoolConnect, wp_bind, mongoSyncConnect, wp_bind]
    refine wp_mono (mongoConnect_dials N a.1 a.2 w) (fun c u hu => ?_) (fun _ h => h)
    cases c with
    | none => exact ⟨hu.conn, hu.nextFd_le, fun c h => by cases h⟩
    | some c =>
        obtain ⟨hnext, rfl, hlog⟩ := hu.opened c rfl
        refine ⟨hu.conn, hu.nextFd_le, ?_⟩
        intro c h
        cases h
        exact ⟨rfl, hnext, hlog⟩
  unfold wp at hwp
  cases hrun : (mongoSyncPoolConnect N a.1 a.2 slaveok).exec w with
  | mk r w' =>
      rw [hrun] at hwp
      cases r with
      | ok r => exact ⟨r, w', rfl, hwp⟩
      | error e => exact hwp.elim

/-- A program that does not look at `errno`. -/
def IgnoresErrno {α : Type} (m : Program (World σ) α) : Prop :=
  ∀ w e, ∃ e', m.exec { w with errno := e } = ((m.exec w).1, { (m.exec w).2 with errno := e' })

theorem IgnoresErrno.pure {α : Type} (a : α) : IgnoresErrno (pure a : Program (World σ) α) :=
  fun _ e => ⟨e, rfl⟩

theorem IgnoresErrno.bind {α β : Type} {m : Program (World σ) α} {f : α → Program (World σ) β}
    (hm : IgnoresErrno m) (hf : ∀ a, IgnoresErrno (f a)) : IgnoresErrno (m >>= f) := by
  intro w e
  obtain ⟨e', he'⟩ := hm w e
  rw [exec_bind, exec_bind, he']
  rcases m.exec w with ⟨r, u⟩
  cases r with
  | error halt => exact ⟨e', rfl⟩
  | ok a => exact hf a u e'

theorem mongoConnect_ignoresErrno (host : CString) (port : Int) :
    IgnoresErrno (mongoConnect N host port) := by
  have hset (e : Errno) : IgnoresErrno (setErrno (σ := σ) e) := fun _ _ => ⟨e, rfl⟩
  have hemit (ev : Event) : IgnoresErrno (emit (σ := σ) ev) := fun _ e => ⟨e, rfl⟩
  have hcall {α : Type} (call : σ → α × σ) : IgnoresErrno (system call) := fun _ e => ⟨e, rfl⟩
  have hfd : IgnoresErrno (newFd (σ := σ)) := fun _ e => ⟨e, rfl⟩
  unfold mongoConnect
  split
  · unfold mongoUnixConnect
    split
    · exact (hset _).bind fun _ => .pure _
    · refine hfd.bind fun fd => (hcall _).bind fun connected => ?_
      split
      · exact (hemit _).bind fun _ => .pure _
      · exact (hset _).bind fun _ => .pure _
  · unfold mongoTcpConnect
    refine hfd.bind fun fd => (hcall _).bind fun outcome => ?_
    rcases outcome with - | - | (- | e)
    · exact (hemit _).bind fun _ => .pure _
    · exact (hset _).bind fun _ => .pure _
    · exact .pure _
    · exact (hset _).bind fun _ => .pure _

theorem mongoSyncPoolConnect_ignoresErrno (host : CString) (port : Int) (slaveok : Bool) :
    IgnoresErrno (mongoSyncPoolConnect N host port slaveok) := by
  unfold mongoSyncPoolConnect mongoSyncConnect
  refine ((mongoConnect_ignoresErrno N host port).bind fun c => ?_).bind fun c => ?_
  · cases c with
    | none => exact .pure _
    | some c => exact .pure _
  · cases c with
    | none => exact .pure _
    | some c => exact .pure _

theorem openAll_errno (slaveok : Bool) (as : List (CString × Int)) (w : World σ) (e : Errno) :
    ∃ e', openAll N slaveok as { w with errno := e }
      = (openAll N slaveok as w).map fun r => (r.1, { r.2 with errno := e' }) := by
  induction as generalizing w e with
  | nil => exact ⟨e, rfl⟩
  | cons a as ih =>
      obtain ⟨e', he'⟩ := mongoSyncPoolConnect_ignoresErrno N a.1 a.2 slaveok w e
      obtain ⟨r, u, hrun, -⟩ := exec_mongoSyncPoolConnect N a slaveok w
      rw [hrun] at he'
      simp only [openAll, he', hrun]
      cases r with
      | none => exact ⟨e', rfl⟩
      | some c =>
          obtain ⟨e'', he''⟩ := ih u e'
          refine ⟨e'', ?_⟩
          simp [he'', Option.map_map, Function.comp_def]

/-- What is known of the connections that were opened: sockets that follow one another, and an
event for each. -/
structure Opened (w : World σ) (as : List (CString × Int)) (cs : List MongoSyncPoolConnection)
    (w' : World σ) : Prop where
  length : cs.length = as.length
  nextFd : w'.nextFd = w.nextFd + as.length
  log : ∃ es, w'.log = w.log ++ es ∧ (∀ e ∈ es, ∃ fd host port, e = .connect fd host port) ∧
    ∀ (k : Nat) c, cs[k]? = some c → ∃ a, as[k]? = some a ∧ c.fd = w.nextFd + k ∧
      .connect c.fd a.1 a.2 ∈ es

theorem openAll_opened {slaveok : Bool} {as : List (CString × Int)} {w w' : World σ}
    {cs : List MongoSyncPoolConnection} (h : openAll N slaveok as w = some (cs, w')) :
    Opened w as cs w' := by
  induction as generalizing w cs with
  | nil =>
      cases h
      exact ⟨rfl, rfl, [], by simp, by simp, fun k c hk => by cases hk⟩
  | cons a as ih =>
      obtain ⟨r, u, hrun, hu⟩ := exec_mongoSyncPoolConnect N a slaveok w
      simp only [openAll, hrun] at h
      cases r with
      | none => cases h
      | some c =>
          simp only [Option.map_eq_some_iff, Prod.mk.injEq] at h
          obtain ⟨⟨cs', x⟩, hrest, rfl, rfl⟩ := h
          obtain ⟨hfd, hnext, hlog⟩ := hu.opened c rfl
          have hopened := ih hrest
          obtain ⟨es, hes, hconnects, hplaces⟩ := hopened.log
          refine ⟨by simp [hopened.length], ?_, .connect w.nextFd a.1 a.2 :: es, ?_, ?_, ?_⟩
          · rw [hopened.nextFd, hnext, List.length_cons]
            omega
          · rw [hes, hlog, List.append_assoc]
            rfl
          · intro e he
            rcases List.mem_cons.mp he with rfl | he
            · exact ⟨_, _, _, rfl⟩
            · exact hconnects e he
          · intro k c' hk
            cases k with
            | zero =>
                cases hk
                refine ⟨a, rfl, by simpa using hfd, ?_⟩
                rw [hfd]
                exact List.mem_cons_self
            | succ k =>
                obtain ⟨a', ha', hfd', hmem⟩ := hplaces k c' hk
                refine ⟨a', ha', ?_, List.mem_cons_of_mem _ hmem⟩
                rw [hfd', hnext]
                push_cast
                omega

/-! ## The two loops -/

/-- The connections with numbers from `n` on. -/
def numberFrom : Int → List MongoSyncPoolConnection → List MongoSyncPoolConnection
  | _, [] => []
  | n, c :: cs => { c with poolId := n } :: numberFrom (n + 1) cs

theorem numberFrom_length (n : Int) (cs : List MongoSyncPoolConnection) :
    (numberFrom n cs).length = cs.length := by
  induction cs generalizing n with
  | nil => rfl
  | cons c cs ih => simp [numberFrom, ih]

theorem numberFrom_getElem? (n : Int) (cs : List MongoSyncPoolConnection) (k : Nat) :
    (numberFrom n cs)[k]? = cs[k]?.map fun c => { c with poolId := n + k } := by
  induction cs generalizing n k with
  | nil => rfl
  | cons c cs ih =>
      cases k with
      | zero => simp [numberFrom]
      | succ k =>
          have hid : n + 1 + (k : Int) = n + ((k + 1 : Nat) : Int) := by
            push_cast
            omega
          simp only [numberFrom, List.getElem?_cons_succ, ih, hid]

section Loops

variable (host : CString) (port : Int)

/-- The loop over the masters opens them all, or halts. -/
theorem exec_poolMasters (i left : Nat) (w : World σ) :
    match openAll N false (List.replicate left (host, port)) w with
    | some r => (poolMasters N host port i left).exec w = (.ok (numberFrom i r.1), r.2)
    | none => ∃ w', (poolMasters N host port i left).exec w = (.error .outside, w') := by
  induction left generalizing i w with
  | zero => rfl
  | succ left ih =>
      obtain ⟨r, u, hrun, -⟩ := exec_mongoSyncPoolConnect N (host, port) false w
      rw [List.replicate_succ, poolMasters, exec_bind_ok hrun]
      simp only [openAll, hrun]
      cases r with
      | none => exact ⟨u, rfl⟩
      | some c =>
          have hrest := ih (i + 1) u
          simp only
          cases hopen : openAll N false (List.replicate left (host, port)) u with
          | none =>
              rw [hopen] at hrest
              obtain ⟨w', hw'⟩ := hrest
              exact ⟨w', exec_bind_error hw' _⟩
          | some r =>
              rw [hopen] at hrest
              simp only [Option.map_some]
              rw [exec_bind_ok hrest]
              rfl

/-- Where the slaves from `i` on are to be. -/
def poolTargets (hosts : List CString) (i left : Nat) : List (CString × Int) :=
  (List.range' i left).filterMap fun k =>
    (secondaries host port hosts)[k % (secondaries host port hosts).length]?

theorem poolTargets_none {hosts : List CString} (h : secondaries host port hosts = [])
    (i left : Nat) : poolTargets host port hosts i left = [] := by
  simp [poolTargets, h]

theorem poolTargets_succ {hosts : List CString} {i : Nat} {a : CString × Int}
    (ha : (secondaries host port hosts)[i % (secondaries host port hosts).length]? = some a)
    (left : Nat) :
    poolTargets host port hosts i (left + 1) = a :: poolTargets host port hosts (i + 1) left := by
  simp [poolTargets, List.range'_succ, ha]

/-- The loop over the slaves does the same if there is a secondary. -/
theorem exec_poolSlaves {hosts : List CString} (hne : secondaries host port hosts ≠ [])
    (nmasters nslaves : Int) {i j m : Nat} (left : Nat)
    (hm : m ≤ (secondaries host port hosts).length)
    (hmod : m % (secondaries host port hosts).length = i % (secondaries host port hosts).length)
    (hbehind : secondaries host port (hosts.drop j) = (secondaries host port hosts).drop m)
    (w : World σ) :
    match openAll N true (poolTargets host port hosts i left) w with
    | some r => ∃ e, (poolSlaves N host port hosts nmasters nslaves j i left).exec w
        = (.ok (numberFrom (nmasters + i + 1) r.1, nslaves), { r.2 with errno := e })
    | none => ∃ w', (poolSlaves N host port hosts nmasters nslaves j i left).exec w
        = (.error .outside, w') := by
  have hpos := List.length_pos_iff.mpr hne
  induction left generalizing i j m w with
  | zero => exact ⟨w.errno, rfl⟩
  | succ left ih =>
      obtain ⟨a, j', e, hnext, ha, hrest⟩ := exec_nextSecondary host port hne hm hbehind w
      rw [hmod] at ha hrest
      have hlt := Nat.mod_lt i hpos
      have hagain := ih (i := i + 1) (j := j')
        (m := i % (secondaries host port hosts).length + 1) hlt (by simp) hrest
      obtain ⟨r, u, hrun, -⟩ := exec_mongoSyncPoolConnect N a true w
      obtain ⟨e', he'⟩ := mongoSyncPoolConnect_ignoresErrno N a.1 a.2 true w e
      rw [hrun] at he'
      rw [poolTargets_succ host port ha, poolSlaves, exec_bind_ok hnext]
      simp only [openAll, hrun]
      rw [exec_bind_ok he']
      cases r with
      | none => exact ⟨_, rfl⟩
      | some c =>
          obtain ⟨e'', he''⟩ := openAll_errno N true (poolTargets host port hosts (i + 1) left) u e'
          have hloop := hagain { u with errno := e' }
          rw [he''] at hloop
          simp only
          cases hopen : openAll N true (poolTargets host port hosts (i + 1) left) u with
          | none =>
              rw [hopen] at hloop
              obtain ⟨w', hw'⟩ := hloop
              exact ⟨w', exec_bind_error hw' _⟩
          | some r =>
              rw [hopen] at hloop
              obtain ⟨e3, hw'⟩ := hloop
              refine ⟨e3, ?_⟩
              rw [exec_bind_ok hw']
              have hid : nmasters + ((i + 1 : Nat) : Int) + 1 = nmasters + i + 1 + 1 := by
                push_cast
                omega
              simp only [hid]
              rfl

/-- Without a secondary there is no slave, and one fewer is counted. -/
theorem exec_poolSlaves_none {hosts : List CString} (h : secondaries host port hosts = [])
    (nmasters nslaves : Int) (left : Nat) (w : World σ) :
    ∃ e, (poolSlaves N host port hosts nmasters nslaves 0 0 left).exec w
      = (.ok ([], if left = 0 then nslaves else -1), { w with errno := e }) := by
  cases left with
  | zero => exact ⟨w.errno, rfl⟩
  | succ left =>
      obtain ⟨j, e, hrun⟩ := exec_nextSecondary_none host port h w
      refine ⟨e, ?_⟩
      rw [poolSlaves, exec_bind_ok hrun]
      rfl

end Loops

/-! ## Sockets that are closed -/

/-- Between the two states no socket but this one is closed. -/
def World.OnlyCloses (w w' : World σ) (fd : Int) : Prop :=
  w.Since w' fun es => ∀ fd', .close fd' ∈ es → fd' = fd

theorem World.OnlyCloses.trans {u v w : World σ} {fd : Int} (h : u.OnlyCloses v fd)
    (h' : v.OnlyCloses w fd) : u.OnlyCloses w fd := by
  obtain ⟨es, hes, hclose⟩ := h
  obtain ⟨es', hes', hclose'⟩ := h'
  refine ⟨es ++ es', by rw [hes', hes, List.append_assoc], ?_⟩
  intro fd' hmem
  exact (List.mem_append.mp hmem).elim (hclose fd') (hclose' fd')

theorem Opened.onlyCloses {w w' : World σ} {as : List (CString × Int)}
    {cs : List MongoSyncPoolConnection} (h : Opened w as cs w') (fd : Int) : w.OnlyCloses w' fd := by
  obtain ⟨es, hes, hconnects, -⟩ := h.log
  refine ⟨es, hes, ?_⟩
  intro fd' hmem
  obtain ⟨_, _, _, heq⟩ := hconnects _ hmem
  cases heq

/-! ## Building the pool -/

section New

variable (host : CString) (port nmasters nslaves : Int)

/-- The arguments that are not refused. -/
def PoolArgs : Prop := 0 ≤ port ∧ 0 ≤ nmasters ∧ 0 ≤ nslaves ∧ 0 < nmasters + nslaves

instance : Decidable (PoolArgs port nmasters nslaves) := inferInstanceAs (Decidable (_ ∧ _))

/-- The first connection was opened, and the master answered on it. -/
def Learns (w : World σ) (conn : MongoSyncConnection) (v : World σ) : Prop :=
  ∃ c u, (mongoSyncPoolConnect N host port false).exec w = (.ok (some c), u) ∧
    (onConnection c.toMongoSyncConnection (mongoSyncCmdIsMaster N)).exec u = (.ok (some conn), v)

/-- Every connection of the pool is opened. -/
def PoolOpens (hosts : List CString) (v : World σ) : Prop :=
  ∃ masters slaves,
    openAll N false (List.replicate nmasters.toNat (host, port)) v = some masters ∧
    openAll N true (poolTargets host port hosts 0 nslaves.toNat) masters.2 = some slaves

theorem exec_disconnectOther (c : MongoSyncConnection) (w : World σ) :
    ∃ w', (disconnectOther N c).exec w = (.ok (), w') ∧ w.OnlyCloses w' c.fd := by
  unfold disconnectOther mongoDisconnect
  by_cases hfd : 0 ≤ c.fd
  · refine ⟨{ w with net := N.close c.fd w.net, errno := .ok, log := w.log ++ [.close c.fd] },
      ?_, [.close c.fd], rfl, by simp⟩
    rw [exec_bind, exec_onConnection]
    simp [hfd, closeFd]
    rfl
  · refine ⟨{ w with errno := .ok }, ?_, [], by simp, by simp⟩
    rw [exec_bind, exec_onConnection]
    simp [hfd]
    rfl

/-- The socket of the first connection is older than those of the pool, and none was closed. -/
theorem Learns.fd {w v : World σ} {conn : MongoSyncConnection} (h : Learns N host port w conn v) :
    conn.fd < v.nextFd ∧ w.OnlyCloses v conn.fd := by
  obtain ⟨c, u, hconnect, hmaster⟩ := h
  obtain ⟨r, u', hrun, hu⟩ := exec_mongoSyncPoolConnect N (host, port) false w
  rw [hrun] at hconnect
  cases hconnect
  obtain ⟨hfd, hnext, hlog⟩ := hu.opened c rfl
  rw [exec_onConnection] at hmaster
  have hpolls := mongoSyncCmdIsMaster_polls N { u with conn := c.toMongoSyncConnection }
  unfold wp at hpolls
  cases hexec : (mongoSyncCmdIsMaster N).exec { u with conn := c.toMongoSyncConnection } with
  | mk r x =>
      rw [hexec] at hmaster hpolls
      cases r with
      | error e => cases hmaster
      | ok ok =>
          cases ok with
          | false => cases hmaster
          | true =>
              cases hmaster
              obtain ⟨es, hes, hquiet⟩ := hpolls.log
              constructor
              · have hnext' : x.nextFd = u.nextFd := hpolls.nextFd
                have hsame : x.conn.fd = c.fd := hpolls.fd
                simp only
                omega
              · refine ⟨.connect w.nextFd host port :: es, ?_, ?_⟩
                · simp only at hes ⊢
                  rw [hes, hlog, List.append_assoc]
                  rfl
                · intro fd hmem
                  rcases List.mem_cons.mp hmem with heq | hmem
                  · cases heq
                  · exact (hquiet _ hmem).elim

/-- The connections of a pool on which the master has answered. -/
theorem exec_mongoSyncPoolNew {w v : World σ} {conn : MongoSyncConnection}
    (hargs : PoolArgs port nmasters nslaves) (hlearn : Learns N host port w conn v) :
    (mongoSyncPoolNew N (some host) port nmasters nslaves).exec w = (do
      let masters ← poolMasters N host port 0 nmasters.toNat
      let (slaves, nslaves) ←
        poolSlaves N host port conn.rs.hosts nmasters nslaves 0 0 nslaves.toNat
      disconnectOther N conn
      return some ⟨nmasters, nslaves, masters, slaves⟩ : Program (World σ) _).exec v := by
  obtain ⟨hport, hmasters, hslaves, hsum⟩ := hargs
  obtain ⟨c, u, hconnect, hmaster⟩ := hlearn
  unfold mongoSyncPoolNew
  simp only
  rw [if_neg (by omega), if_neg (by omega), if_neg (by omega), exec_bind_ok hconnect]
  simp only
  rw [exec_bind_ok hmaster]

/-- The connection was opened to the address in between, and is not closed. -/
def ConnectedTo (w w' : World σ) (c : MongoSyncPoolConnection) (a : CString × Int) : Prop :=
  w.Since w' fun es => .connect c.fd a.1 a.2 ∈ es ∧ .close c.fd ∉ es

/-- What the pool is when everything was opened. -/
structure PoolBuilt (hosts : List CString) (w : World σ) (pool : MongoSyncPool) (w' : World σ) :
    Prop where
  recordedMasters : pool.nmasters = nmasters
  recordedSlaves : pool.nslaves
    = if secondaries host port hosts = [] ∧ 0 < nslaves then -1 else nslaves
  masters_length : (pool.masters.length : Int) = nmasters
  slaves_length : (pool.slaves.length : Int)
    = if secondaries host port hosts = [] then 0 else nslaves
  masters : ∀ (k : Nat) c, pool.masters[k]? = some c →
    c.poolId = k ∧ ConnectedTo w w' c (host, port)
  slaves : ∀ (k : Nat) c, pool.slaves[k]? = some c → c.poolId = nmasters + k + 1 ∧
    ∃ a, (secondaries host port hosts)[k % (secondaries host port hosts).length]? = some a ∧
      ConnectedTo w w' c a

/-- A connection that was opened after the first one stays when that one is closed. -/
theorem Opened.connectedTo {w v₁ v₂ w' : World σ} {as : List (CString × Int)}
    {cs : List MongoSyncPoolConnection} {fd : Int} (hfd : fd < v₁.nextFd)
    (hbefore : w.OnlyCloses v₁ fd) (h : Opened v₁ as cs v₂) (hafter : v₂.OnlyCloses w' fd)
    {k : Nat} {c c' : MongoSyncPoolConnection} (hk : cs[k]? = some c) (hsame : c'.fd = c.fd) :
    ∃ a, as[k]? = some a ∧ ConnectedTo w w' c' a := by
  obtain ⟨es₁, hes₁, hclose₁⟩ := hbefore
  obtain ⟨es₂, hes₂, hconnects, hplaces⟩ := h.log
  obtain ⟨es₃, hes₃, hclose₃⟩ := hafter
  obtain ⟨a, ha, hcfd, hmem⟩ := hplaces k c hk
  have hne : c.fd ≠ fd := by omega
  refine ⟨a, ha, es₁ ++ es₂ ++ es₃, ?_, ?_, ?_⟩
  · rw [hes₃, hes₂, hes₁]
    simp
  · rw [hsame]
    simp [hmem]
  · rw [hsame]
    simp only [List.mem_append, not_or]
    refine ⟨⟨?_, ?_⟩, ?_⟩
    · intro hclose
      exact hne (hclose₁ _ hclose)
    · intro hclose
      obtain ⟨_, _, _, heq⟩ := hconnects _ hclose
      cases heq
    · intro hclose
      exact hne (hclose₃ _ hclose)

theorem poolTargets_spec {hosts : List CString} (hne : secondaries host port hosts ≠ [])
    (i left : Nat) :
    (poolTargets host port hosts i left).length = left ∧
      ∀ (k : Nat) a, (poolTargets host port hosts i left)[k]? = some a →
        (secondaries host port hosts)[(i + k) % (secondaries host port hosts).length]? = some a := by
  induction left generalizing i with
  | zero => simp [poolTargets]
  | succ left ih =>
      have hlt := Nat.mod_lt i (List.length_pos_iff.mpr hne)
      rw [poolTargets_succ host port (List.getElem?_eq_getElem hlt)]
      constructor
      · simp [(ih (i + 1)).1]
      · intro k a h
        cases k with
        | zero =>
            rw [Nat.add_zero, List.getElem?_eq_getElem hlt]
            exact h
        | succ k =>
            have hnext := (ih (i + 1)).2 k a h
            rwa [show i + 1 + k = i + (k + 1) by omega] at hnext

/-- Both ways the loop over the slaves may go. -/
theorem exec_poolSlaves_zero (hosts : List CString) (hns : 0 ≤ nslaves) (w : World σ) :
    match openAll N true (poolTargets host port hosts 0 nslaves.toNat) w with
    | some r => ∃ e, (poolSlaves N host port hosts nmasters nslaves 0 0 nslaves.toNat).exec w
        = (.ok (numberFrom (nmasters + 1) r.1,
            if secondaries host port hosts = [] ∧ 0 < nslaves then -1 else nslaves),
          { r.2 with errno := e })
    | none => ∃ w', (poolSlaves N host port hosts nmasters nslaves 0 0 nslaves.toNat).exec w
        = (.error .outside, w') := by
  by_cases hE : secondaries host port hosts = []
  · obtain ⟨e, hrun⟩ := exec_poolSlaves_none N host port hE nmasters nslaves nslaves.toNat w
    rw [poolTargets_none host port hE]
    refine ⟨e, ?_⟩
    rw [hrun]
    have hcount : (if nslaves.toNat = 0 then nslaves else -1)
        = if secondaries host port hosts = [] ∧ 0 < nslaves then -1 else nslaves := by
      rcases eq_or_lt_of_le hns with hzero | hpos
      · simp [hE, ← hzero]
      · have hne : nslaves.toNat ≠ 0 := by omega
        simp [hE, hpos, hne]
    rw [hcount]
    rfl
  · have hloop := exec_poolSlaves N host port hE nmasters nslaves (i := 0) (j := 0) (m := 0)
      nslaves.toNat (Nat.zero_le _) rfl (by simp) w
    simpa [hE] using hloop

variable {host port nmasters nslaves}

/-- With every connection opened there is a pool. -/
theorem mongoSyncPoolNew_built {w v : World σ} {conn : MongoSyncConnection}
    (hargs : PoolArgs port nmasters nslaves) (hlearn : Learns N host port w conn v)
    (hopens : PoolOpens N host port nmasters nslaves conn.rs.hosts v) :
    ∃ pool w', (mongoSyncPoolNew N (some host) port nmasters nslaves).exec w = (.ok (some pool), w') ∧
      PoolBuilt host port nmasters nslaves conn.rs.hosts w pool w' := by
  obtain ⟨⟨ms, v₁⟩, ⟨ss, v₂⟩, hms, hss⟩ := hopens
  obtain ⟨hfd, hbefore⟩ := hlearn.fd
  have hmasters := openAll_opened N hms
  have hslaves := openAll_opened N hss
  have hrunMasters := exec_poolMasters N host port 0 nmasters.toNat v
  rw [hms] at hrunMasters
  have hrunSlaves := exec_poolSlaves_zero N host port nmasters nslaves
    conn.rs.hosts hargs.2.2.1 v₁
  rw [hss] at hrunSlaves
  obtain ⟨e, hrunSlaves⟩ := hrunSlaves
  obtain ⟨w', hclose, hclosed⟩ := exec_disconnectOther N conn { v₂ with errno := e }
  rw [exec_mongoSyncPoolNew N host port nmasters nslaves hargs hlearn, exec_bind_ok hrunMasters,
    exec_bind_ok hrunSlaves]
  simp only
  rw [exec_bind_ok hclose]
  refine ⟨_, w', rfl, ?_⟩
  obtain ⟨-, hnm, hns, -⟩ := hargs
  exact {
    recordedMasters := rfl
    recordedSlaves := rfl
    masters_length := by
      simp only [numberFrom_length, hmasters.length, List.length_replicate]
      omega
    slaves_length := by
      simp only [numberFrom_length, hslaves.length]
      by_cases hE : secondaries host port conn.rs.hosts = []
      · simp [poolTargets_none host port hE, hE]
      · rw [(poolTargets_spec host port hE 0 nslaves.toNat).1, if_neg hE]
        omega
    masters := by
      intro k c hk
      rw [numberFrom_getElem?, Option.map_eq_some_iff] at hk
      obtain ⟨c, hk, rfl⟩ := hk
      obtain ⟨a, ha, hto⟩ := hmasters.connectedTo hfd hbefore
        ((hslaves.onlyCloses _).trans hclosed) hk rfl
      rw [List.getElem?_replicate] at ha
      split at ha
      · cases ha
        exact ⟨by simp, hto⟩
      · cases ha
    slaves := by
      intro k c hk
      rw [numberFrom_getElem?, Option.map_eq_some_iff] at hk
      obtain ⟨c, hk, rfl⟩ := hk
      have hfd' : conn.fd < v₁.nextFd := by
        rw [hmasters.nextFd]
        push_cast
        omega
      obtain ⟨a, ha, hto⟩ := hslaves.connectedTo hfd'
        (hbefore.trans (hmasters.onlyCloses _)) hclosed hk rfl
      refine ⟨by simp only; omega, a, ?_, hto⟩
      by_cases hE : secondaries host port conn.rs.hosts = []
      · rw [poolTargets_none host port hE] at ha
        cases ha
      · have hplace := (poolTargets_spec host port hE 0 nslaves.toNat).2 k a ha
        rwa [Nat.zero_add] at hplace }

/-- With one that is not, the connection that is missing is written to. -/
theorem mongoSyncPoolNew_halts {w v : World σ} {conn : MongoSyncConnection}
    (hargs : PoolArgs port nmasters nslaves) (hlearn : Learns N host port w conn v)
    (hopens : ¬ PoolOpens N host port nmasters nslaves conn.rs.hosts v) :
    ∃ w', (mongoSyncPoolNew N (some host) port nmasters nslaves).exec w = (.error .outside, w') := by
  rw [exec_mongoSyncPoolNew N host port nmasters nslaves hargs hlearn]
  have hrunMasters := exec_poolMasters N host port 0 nmasters.toNat v
  cases hms : openAll N false (List.replicate nmasters.toNat (host, port)) v with
  | none =>
      rw [hms] at hrunMasters
      obtain ⟨w', hw'⟩ := hrunMasters
      exact ⟨w', exec_bind_error hw' _⟩
  | some masters =>
      rw [hms] at hrunMasters
      rw [exec_bind_ok hrunMasters]
      have hrunSlaves := exec_poolSlaves_zero N host port nmasters nslaves
        conn.rs.hosts hargs.2.2.1 masters.2
      cases hss : openAll N true (poolTargets host port conn.rs.hosts 0 nslaves.toNat) masters.2 with
      | none =>
          rw [hss] at hrunSlaves
          obtain ⟨w', hw'⟩ := hrunSlaves
          exact ⟨w', exec_bind_error hw' _⟩
      | some slaves => exact absurd ⟨masters, slaves, hms, hss⟩ hopens

theorem mongoSyncPoolNew_refused (hargs : ¬ PoolArgs port nmasters nslaves) (w : World σ) :
    ∃ w', (mongoSyncPoolNew N (some host) port nmasters nslaves).exec w = (.ok none, w') := by
  unfold mongoSyncPoolNew
  simp only
  split
  · exact ⟨_, rfl⟩
  · split
    · exact ⟨_, rfl⟩
    · split
      · exact ⟨_, rfl⟩
      · refine absurd ?_ hargs
        unfold PoolArgs
        omega

/-- Where there is no list of hosts, the result is `NULL`, or the reply of the master could not be
read. -/
theorem mongoSyncPoolNew_unlearnt (hargs : PoolArgs port nmasters nslaves) {w : World σ}
    (hlearn : ∀ conn v, ¬ Learns N host port w conn v) :
    (∃ w', (mongoSyncPoolNew N (some host) port nmasters nslaves).exec w = (.ok none, w')) ∨
    ∃ c u e u', (mongoSyncPoolConnect N host port false).exec w = (.ok (some c), u) ∧
      (onConnection c.toMongoSyncConnection (mongoSyncCmdIsMaster N)).exec u = (.error e, u') ∧
      (mongoSyncPoolNew N (some host) port nmasters nslaves).exec w = (.error e, u') := by
  obtain ⟨hport, hmasters, hslaves, hsum⟩ := hargs
  obtain ⟨c, u, hconnect, -⟩ := exec_mongoSyncPoolConnect N (host, port) false w
  simp only at hconnect
  unfold mongoSyncPoolNew
  simp only
  rw [if_neg (by omega), if_neg (by omega), if_neg (by omega), exec_bind_ok hconnect]
  cases c with
  | none => exact .inl ⟨u, rfl⟩
  | some c =>
      simp only
      cases hmaster : (onConnection c.toMongoSyncConnection (mongoSyncCmdIsMaster N)).exec u with
      | mk r u' =>
          cases r with
          | error e => exact .inr ⟨c, u, e, u', hconnect, hmaster, exec_bind_error hmaster _⟩
          | ok answer =>
              cases answer with
              | some conn => exact absurd ⟨c, u, hconnect, hmaster⟩ (hlearn conn u')
              | none =>
                  left
                  obtain ⟨w', hclose, -⟩ := exec_disconnectOther N c.toMongoSyncConnection u'
                  rw [exec_bind_ok hmaster]
                  simp only
                  rw [exec_bind_ok hclose]
                  exact ⟨_, rfl⟩

/-- The slaves of a pool whose connections are all opened go around the secondaries. -/
theorem pool_rotates {w v : World σ} {conn : MongoSyncConnection}
    (hargs : PoolArgs port nmasters nslaves) (hlearn : Learns N host port w conn v)
    (hopens : PoolOpens N host port nmasters nslaves conn.rs.hosts v) :
    ∃ pool w', (mongoSyncPoolNew N (some host) port nmasters nslaves).exec w = (.ok (some pool), w') ∧
      (secondaries host port conn.rs.hosts ≠ [] → (pool.slaves.length : Int) = nslaves) ∧
      (secondaries host port conn.rs.hosts = [] → pool.slaves = []) ∧
      ∀ (k : Nat) c, pool.slaves[k]? = some c → ∃ a,
        (secondaries host port conn.rs.hosts)[k % (secondaries host port conn.rs.hosts).length]?
          = some a ∧ ConnectedTo w w' c a := by
  obtain ⟨pool, w', hrun, hbuilt⟩ := mongoSyncPoolNew_built N hargs hlearn hopens
  refine ⟨pool, w', hrun, ?_, ?_, ?_⟩
  · intro hne
    rw [hbuilt.slaves_length, if_neg hne]
  · intro hE
    have hlength := hbuilt.slaves_length
    rw [if_pos hE] at hlength
    exact List.length_eq_zero_iff.mp (by exact_mod_cast hlength)
  · intro k c hk
    exact (hbuilt.slaves k c hk).2

/-- What a pool is good for: the counts are right, and every connection is open and has the number
from which `mongo_sync_pool_return` finds its place. -/
structure MongoSyncPool.Sound (pool : MongoSyncPool) (w w' : World σ) : Prop where
  nmasters : (pool.masters.length : Int) = pool.nmasters
  nslaves : (pool.slaves.length : Int) = pool.nslaves
  live : ∀ ref c, pool.deref ref = some c → ∃ a, ConnectedTo w w' c a
  returns : ∀ ref c, pool.deref ref = some c →
    mongoSyncPoolReturn pool c = .ok (.ok (), pool.mark false ref)

/-- `mongo_sync_pool_new` returns `NULL` or a pool that is sound.  It may halt only where the reply
of the master is read. -/
def PoolCopes (host : CString) (port nmasters nslaves : Int) (w : World σ) : Prop :=
  ∀ r w', (mongoSyncPoolNew N (some host) port nmasters nslaves).exec w = (r, w') →
    match r with
    | .ok none => True
    | .ok (some pool) => pool.Sound w w'
    | .error e => ∃ c u u', (mongoSyncPoolConnect N host port false).exec w = (.ok (some c), u) ∧
        (onConnection c.toMongoSyncConnection (mongoSyncCmdIsMaster N)).exec u = (.error e, u')

theorem PoolBuilt.sound {hosts : List CString} {w w' : World σ} {pool : MongoSyncPool}
    (h : PoolBuilt host port nmasters nslaves hosts w pool w')
    (hcount : nslaves = 0 ∨ secondaries host port hosts ≠ []) (hns : 0 ≤ nslaves) :
    pool.Sound w w' := by
  have hslaves : (pool.slaves.length : Int) = pool.nslaves := by
    rw [h.slaves_length, h.recordedSlaves]
    rcases hcount with rfl | hne
    · simp
    · simp [hne]
  have hnumbered : pool.Numbered := by
    constructor
    · intro i c hc
      exact (h.masters i c hc).1
    · rw [h.masters_length, h.recordedMasters]
    · intro i c hc
      rw [h.recordedMasters]
      exact (h.slaves i c hc).1
    · exact .inr hslaves
  constructor
  · exact hnumbered.nmasters
  · exact hslaves
  · intro ref c hc
    cases ref with
    | master i => exact ⟨_, (h.masters i c hc).2⟩
    | slave i =>
        obtain ⟨-, a, -, hto⟩ := h.slaves i c hc
        exact ⟨a, hto⟩
  · intro ref c hc
    exact mongoSyncPoolReturn_marks hnumbered hc

/-- A pool is built properly exactly if each connection it opens succeeds, and there is a secondary
if it is to have slaves. -/
theorem pool_copes_iff (host : CString) (port nmasters nslaves : Int) (w : World σ) :
    PoolCopes N host port nmasters nslaves w ↔
      ∀ conn v, PoolArgs port nmasters nslaves → Learns N host port w conn v →
        PoolOpens N host port nmasters nslaves conn.rs.hosts v ∧
          (nslaves = 0 ∨ secondaries host port conn.rs.hosts ≠ []) := by
  constructor
  · intro hcopes conn v hargs hlearn
    by_cases hopens : PoolOpens N host port nmasters nslaves conn.rs.hosts v
    · obtain ⟨pool, w', hrun, hbuilt⟩ := mongoSyncPoolNew_built N hargs hlearn hopens
      refine ⟨hopens, ?_⟩
      have hsound : pool.Sound w w' := hcopes _ _ hrun
      by_contra hnone
      simp only [ne_eq, not_or, not_not] at hnone
      obtain ⟨hpos, hE⟩ := hnone
      have hcount := hsound.nslaves
      have hns := hargs.2.2.1
      rw [hbuilt.slaves_length, hbuilt.recordedSlaves, if_pos hE, if_pos ⟨hE, by omega⟩] at hcount
      cases hcount
    · obtain ⟨w', hrun⟩ := mongoSyncPoolNew_halts N hargs hlearn hopens
      obtain ⟨c, u, u', hconnect, hhalt⟩ : ∃ c u u', _ ∧ _ := hcopes _ _ hrun
      obtain ⟨c', u'', hconnect', hmaster⟩ := hlearn
      rw [hconnect] at hconnect'
      cases hconnect'
      rw [hhalt] at hmaster
      cases hmaster
  · intro hcond r w' hrun
    by_cases hargs : PoolArgs port nmasters nslaves
    · by_cases hlearn : ∃ conn v, Learns N host port w conn v
      · obtain ⟨conn, v, hlearn⟩ := hlearn
        obtain ⟨hopens, hcount⟩ := hcond conn v hargs hlearn
        obtain ⟨pool, x, hpool, hbuilt⟩ := mongoSyncPoolNew_built N hargs hlearn hopens
        rw [hpool] at hrun
        cases hrun
        exact hbuilt.sound hcount hargs.2.2.1
      · simp only [not_exists] at hlearn
        rcases mongoSyncPoolNew_unlearnt N hargs hlearn with
          ⟨x, hnull⟩ | ⟨c, u, e, u', hconnect, hmaster, hhalt⟩
        · rw [hnull] at hrun
          cases hrun
          trivial
        · rw [hhalt] at hrun
          cases hrun
          exact ⟨c, u, _, hconnect, hmaster⟩
    · obtain ⟨x, hnull⟩ := mongoSyncPoolNew_refused N hargs w
      rw [hnull] at hrun
      cases hrun
      trivial

end New

section Samples

/-- The script of the pool, with other outcomes of the attempts to connect. -/
def poolWorld (connects : List Bool) : World Script :=
  authenticatedWorld { poolScript with connects := connects }

/-- The first connection of the pool. -/
def firstConn : MongoSyncPoolConnection := pooledConn 6 false (.ascii ['a', ':', '1']) 0

/-- The first connection after the master has answered on it. -/
def learntConn : MongoSyncConnection :=
  { firstConn.toMongoSyncConnection with
    requestId := 1
    rs := ⟨[.ascii ['a', ':', '1']], [.ascii ['a', ':', '1'], .ascii ['b', ':', '1']], none⟩ }

/-- It is opened. -/
def firstConnect (connects : List Bool) :
    Except Halt (Option MongoSyncPoolConnection) × World Script :=
  (mongoSyncPoolConnect playNet (.ascii ['a']) 1 false).exec (poolWorld connects)

/-- Its node is asked whether it is a master. -/
def firstMaster (connects : List Bool) :
    Except Halt (Option MongoSyncConnection) × World Script :=
  (onConnection firstConn.toMongoSyncConnection (mongoSyncCmdIsMaster playNet)).exec
    (firstConnect connects).2

theorem learns_first {connects : List Bool}
    (hconnect : (firstConnect connects).1 = .ok (some firstConn))
    (hmaster : (firstMaster connects).1 = .ok (some learntConn)) :
    Learns playNet (.ascii ['a']) 1 (poolWorld connects) learntConn (firstMaster connects).2 :=
  ⟨firstConn, (firstConnect connects).2, exec_of_fst hconnect rfl, exec_of_fst hmaster rfl⟩

theorem poolOpens_of_isSome {host : CString} {port nmasters nslaves : Int} {hosts : List CString}
    {v : World Script}
    (h : ((openAll playNet false (List.replicate nmasters.toNat (host, port)) v).bind fun r =>
      openAll playNet true (poolTargets host port hosts 0 nslaves.toNat) r.2).isSome = true) :
    PoolOpens playNet host port nmasters nslaves hosts v := by
  obtain ⟨slaves, hslaves⟩ := Option.isSome_iff_exists.mp h
  obtain ⟨masters, hmasters, hrest⟩ := Option.bind_eq_some_iff.mp hslaves
  exact ⟨masters, slaves, hmasters, hrest⟩

/-- The master `a:1` says that it has the secondaries `b:1` and `c:1`. -/
def replicaScript : Script where
  connects := [true, true, true, true, true]
  sends := []
  bytes := answerTo 1 (.cons ismasterKey (.boolean 1) (.cons hostsKey
    (.array (.cons (.ascii ['0']) (.string [97, 58, 49])
      (.cons (.ascii ['1']) (.string [98, 58, 49])
        (.cons (.ascii ['2']) (.string [99, 58, 49]) .nil)))) okDoc))

/-- The state before the pool of a replica set is built. -/
def replicaWorld : World Script := authenticatedWorld replicaScript

/-- The first connection after the master has answered on it. -/
def replicaConn : MongoSyncConnection :=
  { firstConn.toMongoSyncConnection with
    requestId := 1
    rs := ⟨[.ascii ['a', ':', '1']],
      [.ascii ['a', ':', '1'], .ascii ['b', ':', '1'], .ascii ['c', ':', '1']], none⟩ }

/-- Its first connection is opened. -/
def replicaConnect : Except Halt (Option MongoSyncPoolConnection) × World Script :=
  (mongoSyncPoolConnect playNet (.ascii ['a']) 1 false).exec replicaWorld

/-- The node of that is asked whether it is a master. -/
def replicaMaster : Except Halt (Option MongoSyncConnection) × World Script :=
  (onConnection firstConn.toMongoSyncConnection (mongoSyncCmdIsMaster playNet)).exec replicaConnect.2

theorem learns_replica : Learns playNet (.ascii ['a']) 1 replicaWorld replicaConn replicaMaster.2 :=
  ⟨firstConn, replicaConnect.2, exec_of_fst (by decide +kernel) rfl,
    exec_of_fst (by decide +kernel) rfl⟩

/-- A master and three slaves, of which there are two secondaries: the third slave is connected
to the first of them again. -/
theorem pool_rotates_sample :
    secondaries (.ascii ['a']) 1 replicaConn.rs.hosts = [(.ascii ['b'], 1), (.ascii ['c'], 1)] ∧
    ∃ pool w', (mongoSyncPoolNew playNet (some (.ascii ['a'])) 1 1 3).exec replicaWorld
        = (.ok (some pool), w') ∧ (pool.slaves.length : Int) = 3 ∧
      ∀ (k : Nat) c, pool.slaves[k]? = some c → ∃ a,
        (secondaries (.ascii ['a']) 1 replicaConn.rs.hosts)[
          k % (secondaries (.ascii ['a']) 1 replicaConn.rs.hosts).length]? = some a ∧
        ConnectedTo replicaWorld w' c a := by
  have hsecondaries : secondaries (.ascii ['a']) 1 replicaConn.rs.hosts
      = [(.ascii ['b'], 1), (.ascii ['c'], 1)] := by decide +kernel
  obtain ⟨pool, w', hrun, hlength, -, hslaves⟩ := pool_rotates playNet (by decide) learns_replica
    (@poolOpens_of_isSome (.ascii ['a']) 1 1 3 _ _ (by decide +kernel))
  refine ⟨hsecondaries, pool, w', hrun, hlength ?_, hslaves⟩
  rw [hsecondaries]
  exact List.cons_ne_nil _ _

/-- The connection of the only master fails, and its number is written all the same. -/
theorem pool_not_copes : ¬ PoolCopes playNet (.ascii ['a']) 1 1 0 (poolWorld [true, false]) := by
  intro hcopes
  have hfst : ((mongoSyncPoolNew playNet (some (.ascii ['a'])) 1 1 0).exec
      (poolWorld [true, false])).1 = .error .outside := by decide +kernel
  have hconnect : (firstConnect [true, false]).1 = .ok (some firstConn) := by decide +kernel
  have hmaster : (firstMaster [true, false]).1 = .ok (some learntConn) := by decide +kernel
  obtain ⟨c, u, hopened, hanswer⟩ := learns_first hconnect hmaster
  cases hrun : (mongoSyncPoolNew playNet (some (.ascii ['a'])) 1 1 0).exec
      (poolWorld [true, false]) with
  | mk r w' =>
      rw [hrun] at hfst
      dsimp only at hfst
      subst hfst
      obtain ⟨c', u', x, hopened', hhalt⟩ : ∃ c u u', _ ∧ _ := hcopes _ _ hrun
      rw [hopened] at hopened'
      cases hopened'
      rw [hanswer] at hhalt
      cases hhalt

end Samples

end LibMongo
