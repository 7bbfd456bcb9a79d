import LibMongo.Sync.Settings
import LibMongo.Sync.Client

/-!
# Connecting from a recovery cache

`mongo_sync_connect_recovery_cache` tries the addresses of a cache one after the
other.  A connection that is for slaves too is returned at once.  Otherwise the cache
is discarded and `mongo_sync_reconnect` is called on the connection, which may return
`NULL`.

*Attempts.*  `Net.noting` notes the addresses that are asked for a connection, and
`World.Asks` says that some of them were.

*Outcomes.*  `NULL` is returned only when every address was asked
(`mongoSyncConnectRecoveryCache_outcome`).  The cache is lost then exactly if one
attempt succeeded and the ping on it failed (`Stranded`).
-/

namespace LibMongo

open Bytes Program

variable {σ : Type} (N : Net σ)

/-! ## Attempts -/

/-- The hosts and ports that were asked for a connection. -/
abbrev Notes := List (CString × Int)

/-- The same net, which also notes what it is asked for. -/
def Net.noting : Net (σ × Notes) where
  order := N.order
  strerror := N.strerror
  md5 := N.md5
  tcp fd host port s :=
    let (outcome, s') := N.tcp fd host port s.1
    (outcome, s', s.2 ++ [(host, port)])
  unix fd path s :=
    let (connected, s') := N.unix fd path s.1
    (connected, s', s.2 ++ [(path, mongoConnLocal)])
  sendmsg fd bytes s :=
    let (count, s') := N.sendmsg fd bytes s.1
    (count, s', s.2)
  recv fd n s :=
    let (bytes, s') := N.recv fd n s.1
    (bytes, s', s.2)
  close fd s := (N.close fd s.1, s.2)
  freed s := N.freed s.1

/-- An attempt was made, if a path of this length can be asked for at all. -/
def Notes.Covers (asked : Notes) (host : CString) (port : Int) : Prop :=
  (host, port) ∈ asked ∨ port = mongoConnLocal ∧ 108 ≤ host.length

/-- Between the two states each of the addresses was asked, if it parses. -/
def World.Asks (w w' : World (σ × Notes)) (addrs : List CString) : Prop :=
  ∃ asked, w'.net.2 = w.net.2 ++ asked ∧ ∀ addr ∈ addrs, ∀ host port,
    mongoUtilParseAddr addr = .ok (host, port) → asked.Covers host port

theorem World.Asks.nil {w w' : World (σ × Notes)} (h : w'.net.2 = w.net.2) : w.Asks w' [] :=
  ⟨[], by rw [h, List.append_nil], fun _ hmem => by cases hmem⟩

/-- System calls only add to the notes. -/
theorem World.Asks.of_calls {w w' : World (σ × Notes)} (h : w.Calls N.noting w') :
    w.Asks w' [] := by
  have hstep : ∀ {s s' : σ × Notes}, N.noting.Step s s' → s.2 <+: s'.2 := by
    intro s s' hstep
    cases hstep with
    | tcp fd host port => exact List.prefix_append _ _
    | unix fd path => exact List.prefix_append _ _
    | sendmsg fd bytes => exact List.prefix_refl _
    | recv fd n => exact List.prefix_refl _
    | close fd => exact List.prefix_refl _
  have hsteps : ∀ {s s' : σ × Notes}, Relation.ReflTransGen N.noting.Step s s' → s.2 <+: s'.2 := by
    intro s s' hsteps
    induction hsteps with
    | refl => exact List.prefix_refl _
    | tail _ hlast ih => exact ih.trans (hstep hlast)
  obtain ⟨asked, hasked⟩ := hsteps h
  exact ⟨asked, hasked.symm, fun _ hmem => by cases hmem⟩

theorem World.Asks.append {u v w : World (σ × Notes)} {addrs addrs' : List CString}
    (h : u.Asks v addrs) (h' : v.Asks w addrs') : u.Asks w (addrs ++ addrs') := by
  obtain ⟨asked, hnet, hall⟩ := h
  obtain ⟨asked', hnet', hall'⟩ := h'
  refine ⟨asked ++ asked', by rw [hnet', hnet, List.append_assoc], ?_⟩
  intro addr hmem host port hparse
  rcases List.mem_append.mp hmem with hmem | hmem
  · exact (hall addr hmem host port hparse).imp_left (List.mem_append_left _)
  · exact (hall' addr hmem host port hparse).imp_left (List.mem_append_right _)

theorem World.Asks.mono {w w' : World (σ × Notes)} {addrs addrs' : List CString}
    (h : w.Asks w' addrs) (hsub : ∀ addr ∈ addrs', addr ∈ addrs) : w.Asks w' addrs' := by
  obtain ⟨asked, hnet, hall⟩ := h
  exact ⟨asked, hnet, fun addr hmem => hall addr (hsub addr hmem)⟩

/-- Nothing was opened, and the addresses were asked. -/
structure World.Misses (w w' : World (σ × Notes)) (addrs : List CString) : Prop where
  conn : w'.conn = w.conn
  log : w'.log = w.log
  asks : w.Asks w' addrs

theorem World.Misses.nil (w : World (σ × Notes)) : w.Misses w [] := ⟨rfl, rfl, .nil rfl⟩

theorem World.Misses.append {u v w : World (σ × Notes)} {addrs addrs' : List CString}
    (h : u.Misses v addrs) (h' : v.Misses w addrs') : u.Misses w (addrs ++ addrs') :=
  ⟨h'.conn.trans h.conn, h'.log.trans h.log, h.asks.append h'.asks⟩

/-- An address that does not parse is not asked. -/
theorem World.Misses.unparsed (w : World (σ × Notes)) {addr : CString} {e : Errno}
    (h : mongoUtilParseAddr addr = .error e) : w.Misses { w with errno := e } [addr] := by
  refine ⟨rfl, rfl, [], by simp, fun addr' hmem host port hparse => ?_⟩
  rw [List.mem_singleton.mp hmem, h] at hparse
  cases hparse

/-- Opening a connection asks for it. -/
theorem mongoConnect_asks (host : CString) (port : Int) (w : World (σ × Notes)) :
    wp (mongoConnect N.noting host port)
      (fun _ w' => ∃ asked, w'.net.2 = w.net.2 ++ asked ∧ asked.Covers host port)
      (fun _ => False) w := by
  rw [mongoConnect]
  refine wp_ite (fun hport => ?_) (fun _ => ?_)
  · subst hport
    rw [mongoUnixConnect]
    refine wp_ite (fun hlong => ?_) (fun _ => ?_)
    · exact ⟨[], by simp, .inr ⟨rfl, hlong⟩⟩
    · rw [wp_bind, wp_newFd, wp_bind, wp_system]
      exact wp_ite (fun _ => ⟨_, rfl, .inl (by simp)⟩) (fun _ => ⟨_, rfl, .inl (by simp)⟩)
  · rw [mongoTcpConnect, wp_bind, wp_newFd, wp_bind, wp_system]
    cases (N.noting.tcp w.nextFd host port w.net).1 with
    | connected => exact ⟨_, rfl, .inl (by simp)⟩
    | refused => exact ⟨_, rfl, .inl (by simp)⟩
    | unresolved e =>
        cases e with
        | none => exact ⟨_, rfl, .inl (by simp)⟩
        | some e => exact ⟨_, rfl, .inl (by simp)⟩

/-- A connection that is opened, or an address that is missed. -/
theorem mongoConnect_misses {addr host : CString} {port : Int}
    (hparse : mongoUtilParseAddr addr = .ok (host, port)) (w : World (σ × Notes)) :
    wp (mongoConnect N.noting host port)
      (fun c w' => match c with
        | none => w.Misses w' [addr]
        | some _ => ∃ fd, w'.log = w.log ++ [.connect fd host port])
      (fun _ => False) w := by
  refine wp_mono (wp_and (mongoConnect_dials N.noting host port w) (mongoConnect_asks N host port w))
    (fun c w' h => ?_) (fun _ h => h.1)
  obtain ⟨hdials, asked, hnet, hasked⟩ := h
  cases c with
  | none =>
      refine ⟨hdials.conn, hdials.failed rfl, asked, hnet, fun addr' hmem host' port' hparse' => ?_⟩
      rw [List.mem_singleton.mp hmem, hparse] at hparse'
      cases hparse'
      exact hasked
  | some c => exact ⟨_, (hdials.opened c rfl).2.2⟩

/-! ## Outcomes -/

/-- A connection is opened. -/
def Event.opens : Event → Bool
  | .connect .. => true
  | _ => false

/-- The events of a call that opens one connection and hears nothing on it. -/
def Stranded (es : List Event) : Prop := es.countP Event.opens = 1 ∧ ∀ fd, .ping fd ∉ es

/-- An event that opens no connection and is no answer to a ping. -/
def Event.Mute : Event → Prop
  | .connect .. => False
  | .ping _ => False
  | _ => True

theorem opens_eq_zero {es : List Event} (h : ∀ e ∈ es, e.Mute) : es.countP Event.opens = 0 := by
  rw [List.countP_eq_zero]
  intro e he hopens
  cases e with
  | connect fd host port => exact h _ he
  | _ => cases hopens

/-- Asking on the socket, without an answer. -/
structure World.Murmurs (w w' : World σ) : Prop where
  rs : w'.conn.rs = w.conn.rs
  slaveok : w'.conn.slaveok = w.conn.slaveok
  log : w.Since w' fun es => ∀ e ∈ es, e.Mute

theorem World.Murmurs.frame : Frame (World.Murmurs (σ := σ)) where
  refl _ := ⟨rfl, rfl, .nil (by simp)⟩
  trans h h' := by
    refine ⟨h'.rs.trans h.rs, h'.slaveok.trans h.slaveok, ?_⟩
    refine h.log.append h'.log fun es es' hes hes' e he => ?_
    exact (List.mem_append.mp he).elim (hes e) (hes' e)

theorem commandRule_murmurs : CommandRule N World.Murmurs where
  frame := World.Murmurs.frame
  errno _ _ := ⟨rfl, rfl, .nil (by simp)⟩
  send {p} _ w := by
    refine wp_mono (mongoPacketSend_spec N p w) (fun _ w' h => ?_) (fun _ h => h.elim)
    obtain ⟨count, hlog, -, -, hconn⟩ := h
    refine ⟨by rw [hconn], by rw [hconn], _, hlog, fun e he => ?_⟩
    rw [List.mem_singleton.mp he]
    trivial
  reply rid := by
    have hrecv : Keeps World.Murmurs (mongoPacketRecv N) := (mongoPacketRecv_still N).mono
      fun w w' h => ⟨by rw [h.conn], by rw [h.conn], [], by simp [h.log], by simp⟩
    have herrno : ∀ e, Keeps World.Murmurs (setErrno (σ := σ) e) :=
      fun _ _ => ⟨rfl, rfl, .nil (by simp)⟩
    refine Keeps.bind World.Murmurs.frame
      (mongoSyncPacketRecv_keeps N World.Murmurs.frame herrno hrecv rid _) fun p => ?_
    exact mongoSyncPacketCheckError_keeps World.Murmurs.frame herrno
      (fun _ _ => ⟨rfl, rfl, .nil (by simp)⟩) p true

/-- A ping is answered, or nothing happens. -/
theorem mongoSyncCmdPing_murmurs (w : World σ) :
    wp (mongoSyncCmdPing N)
      (fun ok w' => if ok then w.Since w' fun es => ∃ fd, .ping fd ∈ es else w.Murmurs w')
      (fun _ => True) w := by
  rw [mongoSyncCmdPing, wp_bind]
  refine wp_mono ((commandRule_murmurs N).cmdCustomBare _ _ w) (fun p u hu => ?_) (fun _ _ => trivial)
  cases p with
  | none => exact hu
  | some p =>
      obtain ⟨es, hes, -⟩ := hu.log
      refine ⟨es ++ [.ping u.conn.fd], ?_, u.conn.fd, by simp⟩
      show u.log ++ [.ping u.conn.fd] = _
      rw [hes, List.append_assoc]

/-! ## Reconnecting a new connection -/

/-- The addresses of a replica set, in the order in which `mongo_sync_reconnect` tries
them. -/
def ReplicaSet.addresses (rs : ReplicaSet) : List CString :=
  rs.primary.toList ++ rs.hosts ++ rs.seeds

/-- A call that returns a connection has opened one or heard an answer, and one that
returns `NULL` has asked every address in vain. -/
def World.Resorts (w : World (σ × Notes)) (addrs : List CString) (ok : Bool)
    (w' : World (σ × Notes)) : Prop :=
  if ok then w.Since w' fun es => 1 ≤ es.countP Event.opens ∨ ∃ fd, .ping fd ∈ es
  else w.Misses w' addrs

theorem connectAddr_misses (addr : CString) (w : World (σ × Notes)) :
    wp (connectAddr N.noting addr)
      (fun c w' => match c with
        | none => w.Misses w' [addr]
        | some _ => ∃ fd host port, w'.log = w.log ++ [.connect fd host port])
      (fun _ => False) w := by
  rw [connectAddr, wp_bind]
  refine wp_orErrno (fun a hparse => ?_) (fun e hparse => .unparsed w hparse)
  obtain ⟨host, port⟩ := a
  show wp (get >>= _) _ _ w
  rw [wp_bind, wp_get, mongoSyncConnect, wp_bind]
  refine wp_mono (mongoConnect_misses N hparse w) (fun c w' h => ?_) (fun _ h => h)
  cases c with
  | none => exact h
  | some c =>
      obtain ⟨fd, hlog⟩ := h
      exact ⟨fd, host, port, hlog⟩

/-- What follows an opened connection. -/
theorem World.Since.opened {w u v : World σ} {fd : Int} {host : CString} {port : Int}
    (hopen : u.log = w.log ++ [.connect fd host port]) (h : u.Since v fun _ => True) :
    w.Since v fun es => 1 ≤ es.countP Event.opens := by
  obtain ⟨es, hes, -⟩ := h
  refine ⟨[.connect fd host port] ++ es, by rw [hes, hopen, List.append_assoc], ?_⟩
  simp [Event.opens]

section Reconnecting

variable {reconnect : Bool → Program (World (σ × Notes)) Bool} {force : Bool}
  (hreconnect : ∀ force, Keeps (World.Roams N.order) (reconnect force))
include hreconnect

theorem reconnectVia_resorts (addrs : List CString) (w : World (σ × Notes)) :
    wp (reconnectVia N.noting reconnect force addrs) (w.Resorts addrs) (fun _ => True) w := by
  induction addrs generalizing w with
  | nil => exact .nil w
  | cons addr addrs ih =>
      rw [reconnectVia, wp_bind]
      refine wp_mono (wp_and (connectAddr_misses N addr w) (connectAddr_opens N.noting addr w))
        (fun c u h => ?_) (fun _ _ => trivial)
      obtain ⟨hmiss, hopens⟩ := h
      cases c with
      | none =>
          refine wp_mono (ih u) (fun ok v hv => ?_) (fun _ _ => trivial)
          cases ok with
          | false => exact hmiss.append hv
          | true =>
              obtain ⟨es, hes, hopened⟩ := hv
              exact ⟨es, by rw [hes, hmiss.log], hopened⟩
      | some nc =>
          obtain ⟨fd, host, port, hlog⟩ := hmiss
          have hslaveok : nc.slaveok = u.conn.slaveok := by rw [hopens.slaveok, hopens.conn]
          show wp (_ >>= _) _ _ _
          rw [wp_bind]
          refine wp_mono (adopt_roams N.noting hreconnect hslaveok) (fun _ v hv => ?_)
            (fun _ _ => trivial)
          exact (World.Since.opened hlog (hv.log.mono fun _ _ => trivial)).mono fun _ h => .inl h

omit hreconnect in
/-- A list of candidates after one that was asked in vain. -/
theorem World.Misses.resorts {u v w : World (σ × Notes)} {addrs addrs' : List CString} {ok : Bool}
    (h : u.Misses v addrs) (h' : v.Resorts addrs' ok w) : u.Resorts (addrs ++ addrs') ok w := by
  cases ok with
  | false => exact h.append h'
  | true =>
      obtain ⟨es, hes, hopened⟩ := h'
      exact ⟨es, by rw [hes, h.log], hopened⟩

theorem reconnectCandidates_resorts (w : World (σ × Notes)) :
    wp (reconnectCandidates N.noting reconnect force) (w.Resorts w.conn.rs.addresses)
      (fun _ => True) w := by
  have hvia := @reconnectVia_resorts _ N _ force hreconnect
  rw [reconnectCandidates, wp_bind, wp_get, wp_bind]
  refine wp_mono (hvia _ w) (fun ok u hu => ?_) (fun _ _ => trivial)
  refine wp_ite (fun hok => ?_) (fun hok => ?_)
  · subst hok
    exact hu
  simp only [Bool.not_eq_true] at hok
  subst hok
  rw [wp_bind]
  refine wp_mono (hvia _ u) (fun ok v hv => ?_) (fun _ _ => trivial)
  have hv' := World.Misses.resorts hu hv
  refine wp_ite (fun hok => ?_) (fun hok => ?_)
  · subst hok
    exact hv'
  simp only [Bool.not_eq_true] at hok
  subst hok
  rw [wp_bind]
  refine wp_mono (hvia _ v) (fun ok x hx => ?_) (fun _ _ => trivial)
  have hx' := World.Misses.resorts hv' hx
  refine wp_ite (fun hok => ?_) (fun hok => ?_)
  · subst hok
    exact hx'
  simp only [Bool.not_eq_true] at hok
  subst hok
  exact ⟨hx'.conn, hx'.log, hx'.asks⟩

end Reconnecting

/-- What a call leaves that asks for no master. -/
theorem mongoSyncReconnect_resorts (fuel : Nat) (w : World (σ × Notes)) :
    wp (mongoSyncReconnect N.noting fuel false)
      (fun ok w' =>
        if ok then w.Since w' fun es => 1 ≤ es.countP Event.opens ∨ ∃ fd, .ping fd ∈ es
        else (w.Since w' fun es => ∀ e ∈ es, e.Mute) ∧ w.Asks w' w.conn.rs.addresses)
      (fun _ => True) w := by
  cases fuel with
  | zero => trivial
  | succ fuel =>
      rw [mongoSyncReconnect, mongoSyncReconnectWith, wp_bind]
      refine wp_mono (wp_and (mongoSyncCmdPing_murmurs N.noting w)
        ((callsRule N.noting).cmdPing w)) (fun ping u hu => ?_) (fun _ _ => trivial)
      obtain ⟨hping, hcalls⟩ := hu
      refine wp_ite (fun hanswer => ?_) (fun hanswer => ?_)
      · subst hanswer
        exact wp_ite (fun _ => hping.mono fun _ h => .inr h) (fun h => absurd rfl h)
      · simp only [Bool.not_eq_true] at hanswer
        subst hanswer
        have hmurmurs : w.Murmurs u := hping
        refine wp_mono (reconnectCandidates_resorts N (mongoSyncReconnect_roams N.noting fuel) u)
          (fun ok v hv => ?_) (fun _ _ => trivial)
        cases ok with
        | false =>
            obtain ⟨es, hes, hmute⟩ := hmurmurs.log
            refine ⟨⟨es, by rw [hv.log, hes], hmute⟩, ?_⟩
            rw [← hmurmurs.rs]
            exact (World.Asks.of_calls N hcalls).append hv.asks
        | true =>
            refine hmurmurs.log.append hv fun es es' _ h => ?_
            rw [List.countP_append]
            refine h.imp (fun h => by omega) ?_
            rintro ⟨fd, hfd⟩
            exact ⟨fd, List.mem_append_right _ hfd⟩

/-! ## The call -/

/-- How the addresses of a cache are tried.  Either none of them can be connected to, or a
connection is returned, or the connection is given up and the cache was discarded. -/
inductive World.Recovers (w : World (σ × Notes)) (cache : RecoveryCache) (slaveok : Bool)
    (addrs : List CString) :
    Option MongoSyncConnection → RecoveryCache → World (σ × Notes) → Prop
  | missed {w' : World (σ × Notes)} : w.Misses w' addrs → Recovers w cache slaveok addrs none cache w'
  | kept {c : MongoSyncConnection} {w' : World (σ × Notes)} : slaveok = true →
      w.Since w' (fun _ => True) → Recovers w cache slaveok addrs (some c) cache w'
  | connected {c : MongoSyncConnection} {w' : World (σ × Notes)} : slaveok = false →
      w.Since w' (¬ Stranded ·) → Recovers w cache slaveok addrs (some c) .discard w'
  | lost {w' : World (σ × Notes)} : slaveok = false → w.Since w' Stranded →
      w.Asks w' cache.rs.addresses → cache.rs.addresses ≠ [] →
      Recovers w cache slaveok addrs none .discard w'

/-- Addresses that were asked in vain before. -/
theorem World.Misses.recovers {u v w : World (σ × Notes)} {cache cache' : RecoveryCache}
    {slaveok : Bool} {addrs addrs' : List CString} {c : Option MongoSyncConnection}
    (h : u.Misses v addrs) (h' : v.Recovers cache slaveok addrs' c cache' w) :
    u.Recovers cache slaveok (addrs ++ addrs') c cache' w := by
  have hsince : ∀ {P : List Event → Prop}, v.Since w P → u.Since w P := by
    rintro P ⟨es, hes, hP⟩
    exact ⟨es, by rw [hes, h.log], hP⟩
  cases h' with
  | missed hmiss => exact .missed (h.append hmiss)
  | kept hslaveok hes => exact .kept hslaveok (hsince hes)
  | connected hslaveok hes => exact .connected hslaveok (hsince hes)
  | lost hslaveok hes hasks hne =>
      refine .lost hslaveok (hsince hes) ?_ hne
      exact (h.asks.append hasks).mono fun _ hmem => List.mem_append_right _ hmem

section Recovering

variable (fuel id : Nat) (slaveok : Bool) (cache : RecoveryCache)

/-- A connection from the cache is returned, or reconnected after the cache was
discarded. -/
theorem recoveryCacheAdopt_recovers {c : MongoSyncConnection} (hrs : c.rs = cache.rs)
    (hne : cache.rs.addresses ≠ []) {w u : World (σ × Notes)} {fd : Int} {host : CString} {port : Int}
    (hopen : u.log = w.log ++ [.connect fd host port]) (hcalls : w.Calls N.noting u)
    (addrs : List CString) :
    wp (recoveryCacheAdopt (mongoSyncReconnect N.noting fuel) slaveok cache c)
      (fun r w' => w.Recovers cache slaveok addrs r.1 r.2 w') (fun _ => True) u := by
  rw [recoveryCacheAdopt]
  refine wp_ite (fun hslaveok => .kept hslaveok ⟨_, hopen, trivial⟩) (fun hslaveok => ?_)
  simp only [Bool.not_eq_true] at hslaveok
  rw [wp_bind, wp_onConnection]
  refine wp_mono (mongoSyncReconnect_resorts N fuel { u with conn := c }) (fun ok v hv => ?_)
    (fun _ _ => trivial)
  have hafter : ∀ es, v.log = u.log ++ es → v.log = w.log ++ (.connect fd host port :: es) := by
    intro es hes
    rw [hes, hopen, List.append_assoc]
    rfl
  cases ok with
  | true =>
      obtain ⟨es, hes, hopened⟩ := hv
      refine .connected hslaveok ⟨_, hafter es hes, fun hstranded => ?_⟩
      rcases hopened with hcount | ⟨fd', hping⟩
      · have hone := hstranded.1
        rw [List.countP_cons_of_pos rfl] at hone
        omega
      · exact hstranded.2 fd' (List.mem_cons_of_mem _ hping)
  | false =>
      obtain ⟨⟨es, hes, hmute⟩, hasks⟩ := hv
      refine .lost hslaveok ⟨_, hafter es hes, ?_, fun fd' hmem => ?_⟩ ?_ hne
      · rw [List.countP_cons_of_pos rfl, opens_eq_zero hmute]
      · rcases List.mem_cons.mp hmem with heq | hmem
        · cases heq
        · exact hmute _ hmem
      · have hboth := (World.Asks.of_calls N hcalls).append (w := { v with conn := u.conn }) hasks
        rwa [← hrs]

/-- One address of the cache, and what comes after it. -/
theorem recoveryTry_recovers {addr : CString} (hmem : addr ∈ cache.rs.addresses)
    {addrs : List CString}
    {next : Program (World (σ × Notes)) (Option MongoSyncConnection × RecoveryCache)}
    (hnext : ∀ u, wp next (fun r w' => u.Recovers cache slaveok addrs r.1 r.2 w')
      (fun _ => True) u) (w : World (σ × Notes)) :
    wp (do
      match ← orErrno (mongoUtilParseAddr addr) with
      | none => next
      | some (host, port) =>
          match ← recoveryCacheConnect N.noting id slaveok cache host port with
          | none => next
          | some c => recoveryCacheAdopt (mongoSyncReconnect N.noting fuel) slaveok cache c)
      (fun r w' => w.Recovers cache slaveok (addr :: addrs) r.1 r.2 w') (fun _ => True) w := by
  have hafter : ∀ u, w.Misses u [addr] → wp next
      (fun r w' => w.Recovers cache slaveok (addr :: addrs) r.1 r.2 w') (fun _ => True) u :=
    fun u hu => wp_mono (hnext u) (fun _ _ h => hu.recovers h) (fun _ _ => trivial)
  rw [wp_bind]
  refine wp_orErrno (fun a hparse => ?_) (fun e hparse => hafter _ (.unparsed w hparse))
  obtain ⟨host, port⟩ := a
  show wp (_ >>= _) _ _ w
  rw [wp_bind, recoveryCacheConnect, wp_bind]
  refine wp_mono (wp_and (mongoConnect_misses N hparse w) (mongoConnect_calls N.noting host port w))
    (fun c u hu => ?_) (fun _ _ => trivial)
  obtain ⟨hmiss, hcalls⟩ := hu
  cases c with
  | none => exact hafter u hmiss
  | some c =>
      obtain ⟨fd, hopen⟩ := hmiss
      exact recoveryCacheAdopt_recovers N fuel slaveok cache rfl (List.ne_nil_of_mem hmem) hopen
        hcalls _

theorem recoveryCachePickConnectFromList_recovers {addrs : List CString}
    (hmem : ∀ addr ∈ addrs, addr ∈ cache.rs.addresses) (w : World (σ × Notes)) :
    wp (recoveryCachePickConnectFromList N.noting (mongoSyncReconnect N.noting fuel) id slaveok
        cache addrs)
      (fun r w' => w.Recovers cache slaveok addrs r.1 r.2 w') (fun _ => True) w := by
  induction addrs generalizing w with
  | nil => exact .missed (.nil w)
  | cons addr addrs ih =>
      rw [recoveryCachePickConnectFromList]
      refine recoveryTry_recovers N fuel id slaveok cache (hmem addr List.mem_cons_self)
        (fun u => ih (fun addr h => hmem addr (List.mem_cons_of_mem _ h)) u) w

theorem recoveryCacheLists_recovers (w : World (σ × Notes)) :
    wp (recoveryCacheLists N.noting (mongoSyncReconnect N.noting fuel) id slaveok cache)
      (fun r w' => w.Recovers cache slaveok (cache.rs.seeds ++ cache.rs.hosts) r.1 r.2 w')
      (fun _ => True) w := by
  have hpick : ∀ addrs : List CString, (∀ addr ∈ addrs, addr ∈ cache.rs.addresses) → ∀ w, _ :=
    fun _ => recoveryCachePickConnectFromList_recovers N fuel id slaveok cache
  rw [recoveryCacheLists, wp_bind]
  refine wp_mono (hpick cache.rs.seeds (fun addr h => by simp [ReplicaSet.addresses, h]) w)
    (fun r u hu => ?_) (fun _ _ => trivial)
  obtain ⟨c, cache'⟩ := r
  cases hu with
  | missed hmiss =>
      refine wp_mono (hpick _ (fun addr h => by simp [ReplicaSet.addresses, h]) u)
        (fun _ _ h => hmiss.recovers h) (fun _ _ => trivial)
  | kept hslaveok hes => exact .kept hslaveok hes
  | connected hslaveok hes => exact .connected hslaveok hes
  | lost hslaveok hes hasks hne =>
      -- the list of hosts is gone with the cache
      exact .lost hslaveok hes hasks hne

theorem mongoSyncConnectRecoveryCache_recovers (w : World (σ × Notes)) :
    wp (mongoSyncConnectRecoveryCache N.noting (mongoSyncReconnect N.noting fuel) id slaveok cache)
      (fun r w' => w.Recovers cache slaveok cache.rs.addresses r.1 r.2 w') (fun _ => True) w := by
  have hlists := recoveryCacheLists_recovers N fuel id slaveok cache
  have horder : ∀ {c cache' w'}, w.Recovers cache slaveok
      (cache.rs.primary.toList ++ (cache.rs.seeds ++ cache.rs.hosts)) c cache' w' →
      w.Recovers cache slaveok cache.rs.addresses c cache' w' := by
    intro c cache' w' h
    cases h with
    | missed hmiss =>
        refine .missed ⟨hmiss.conn, hmiss.log, hmiss.asks.mono fun addr hmem => ?_⟩
        simp only [ReplicaSet.addresses, List.mem_append] at hmem ⊢
        tauto
    | kept hslaveok hes => exact .kept hslaveok hes
    | connected hslaveok hes => exact .connected hslaveok hes
    | lost hslaveok hes hasks hne => exact .lost hslaveok hes hasks hne
  rw [mongoSyncConnectRecoveryCache]
  cases hprimary : cache.rs.primary with
  | none =>
      refine wp_mono (hlists w) (fun _ _ h => horder ?_) (fun _ _ => trivial)
      rw [hprimary]
      exact h
  | some addr =>
      have hmem : addr ∈ cache.rs.addresses := by simp [ReplicaSet.addresses, hprimary]
      refine wp_mono (recoveryTry_recovers N fuel id slaveok cache hmem hlists w)
        (fun _ _ h => horder ?_) (fun _ _ => trivial)
      rw [hprimary]
      exact h

end Recovering

/-- `NULL` is returned only after every address that parses was asked.  If it is returned
the cache is as it was, unless the cache was discarded for a connection that was the only one
to be opened, and that did not answer. -/
theorem recovery_cache_kept_iff (fuel id : Nat) (slaveok : Bool) (cache cache' : RecoveryCache)
    (c : Option MongoSyncConnection) (w w' : World (σ × Notes))
    (hrun : (mongoSyncConnectRecoveryCache N.noting (mongoSyncReconnect N.noting fuel) id slaveok
      cache).exec w = (.ok (c, cache'), w')) :
    (c = none → w.Asks w' cache.rs.addresses) ∧
      w.Since w' fun es => (c = none → cache' = cache) ↔ ¬ (slaveok = false ∧ Stranded es) := by
  cases wp_ok (mongoSyncConnectRecoveryCache_recovers N fuel id slaveok cache w) hrun with
  | missed hmiss =>
      refine ⟨fun _ => hmiss.asks, [], by simp [hmiss.log], fun _ hstranded => ?_, fun _ _ => rfl⟩
      cases hstranded.2.1
  | kept hslaveok hes =>
      refine ⟨fun h => (by cases h), hes.mono fun es _ => ?_⟩
      simp [hslaveok]
  | connected hslaveok hes =>
      refine ⟨fun h => (by cases h), hes.mono fun es hstranded => ?_⟩
      simp [hstranded]
  | lost hslaveok hes hasks hne =>
      refine ⟨fun _ => hasks, hes.mono fun es hstranded => ?_⟩
      have hlost : RecoveryCache.discard ≠ cache := by
        rintro rfl
        exact hne rfl
      exact ⟨fun hkept => absurd (hkept rfl) hlost, fun hnot => absurd ⟨hslaveok, hstranded⟩ hnot⟩

section Discarded

/-- A cache with one seed. -/
def seedCache : RecoveryCache := ⟨⟨[.ascii ['c', ':', '1']], [], none⟩, ⟨none, none, none⟩⟩

/-- A call on a net that refuses every connection. -/
def deafWorld : World (Nat × Notes) where
  net := (1, [])
  conn := staleWorld.conn
  errno := .ok
  nextFd := 6
  log := []

/-- A connection is opened from the cache. -/
def deafRecovery : Except Halt (Option MongoSyncConnection × RecoveryCache) × World (Nat × Notes) :=
  (mongoSyncConnectRecoveryCache silentNet.noting (mongoSyncReconnect silentNet.noting 2) 0 false
    seedCache).exec deafWorld

/-- The seed is asked, and the cache is kept. -/
theorem recovery_cache_kept_refused :
    deafRecovery.1 = .ok (none, seedCache) ∧ deafWorld.Asks deafRecovery.2 seedCache.rs.addresses := by
  have hfst : deafRecovery.1 = .ok (none, seedCache) := by decide +kernel
  have hrun : deafRecovery = (.ok (none, seedCache), deafRecovery.2) := exec_of_fst hfst rfl
  exact ⟨hfst, (recovery_cache_kept_iff silentNet 2 0 false seedCache seedCache none deafWorld
    deafRecovery.2 hrun).1 rfl⟩

/-- The seed accepts a connection and says nothing, and accepts no other.  The cache is
lost. -/
theorem recovery_cache_lost :
    ((mongoSyncConnectRecoveryCache silentNet (mongoSyncReconnect silentNet 2) 0 false
      seedCache).exec staleWorld).1 = .ok (none, .discard) ∧ seedCache ≠ .discard := by
  decide +kernel

end Discarded

end LibMongo
