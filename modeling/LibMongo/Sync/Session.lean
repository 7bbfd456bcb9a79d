import LibMongo.Sync.Frame
import LibMongo.Sync.Operation

/-!
# What reconnecting leaves alone

Functions that may reconnect can change the socket and everything that goes
with it.  `World.Roams` says what they leave alone: the settings of the
connection, its seeds and its credentials.  It also says that they send queries
only, so that every write in the log of a command is the packet of that command.

The proofs are about functions that take `mongo_sync_reconnect` as an argument,
and assume that it keeps what is to be shown.  `mongoSyncReconnect_roams` closes
the circle by induction on the fuel.
-/

namespace LibMongo

open Bytes Program

variable {σ : Type} (N : Net σ)

/-! ## Roaming -/

/-- What the user sets on a connection. -/
structure MongoSyncConnection.SameSettings (c c' : MongoSyncConnection) : Prop where
  slaveok : c'.slaveok = c.slaveok
  safeMode : c'.safeMode = c.safeMode
  autoReconnect : c'.autoReconnect = c.autoReconnect
  maxInsertSize : c'.maxInsertSize = c.maxInsertSize
  seeds : c'.rs.seeds = c.rs.seeds
  recoveryCache : c'.recoveryCache = c.recoveryCache

theorem MongoSyncConnection.SameSettings.refl (c : MongoSyncConnection) : c.SameSettings c :=
  ⟨rfl, rfl, rfl, rfl, rfl, rfl⟩

theorem MongoSyncConnection.SameSettings.trans {b c d : MongoSyncConnection}
    (h : b.SameSettings c) (h' : c.SameSettings d) : b.SameSettings d where
  slaveok := h'.slaveok.trans h.slaveok
  safeMode := h'.safeMode.trans h.safeMode
  autoReconnect := h'.autoReconnect.trans h.autoReconnect
  maxInsertSize := h'.maxInsertSize.trans h.maxInsertSize
  seeds := h'.seeds.trans h.seeds
  recoveryCache := h'.recoveryCache.trans h.recoveryCache

/-- An event that is no write. -/
def Event.Quiet (o : ByteOrder) : Event → Prop
  | .send _ p _ => p.HasOpcode o .query
  | _ => True

/-- The events between two states satisfy `P`. -/
def World.Since (w w' : World σ) (P : List Event → Prop) : Prop :=
  ∃ es, w'.log = w.log ++ es ∧ P es

/-- What a function that may reconnect may change.  The credentials may differ only if a
string was read that had been freed. -/
structure World.Roams (o : ByteOrder) (w w' : World σ) : Prop where
  settings : w.conn.SameSettings w'.conn
  log : w.Since w' fun es => ∀ e ∈ es, e.Quiet o
  auth : w.Since w' fun es => .dangling ∉ es → w'.conn.auth = w.conn.auth

theorem World.Roams.frame (o : ByteOrder) : Frame (World.Roams (σ := σ) o) where
  refl w := ⟨.refl _, ⟨[], by simp, by simp⟩, [], by simp, fun _ => rfl⟩
  trans {u v w} h h' := by
    refine ⟨h.settings.trans h'.settings, ?_, ?_⟩
    · obtain ⟨es, hes, hall⟩ := h.log
      obtain ⟨es', hes', hall'⟩ := h'.log
      refine ⟨es ++ es', by rw [hes', hes, List.append_assoc], fun e he => ?_⟩
      exact (List.mem_append.mp he).elim (hall e) (hall' e)
    · obtain ⟨es, hes, hauth⟩ := h.auth
      obtain ⟨es', hes', hauth'⟩ := h'.auth
      refine ⟨es ++ es', by rw [hes', hes, List.append_assoc], fun hno => ?_⟩
      rw [List.mem_append, not_or] at hno
      exact (hauth' hno.2).trans (hauth hno.1)

/-- Events of a state whose credentials are the same. -/
theorem World.Roams.of_log {o : ByteOrder} {w w' : World σ} (hsettings : w.conn.SameSettings w'.conn)
    (hauth : w'.conn.auth = w.conn.auth) {es : List Event} (hlog : w'.log = w.log ++ es)
    (hes : ∀ e ∈ es, e.Quiet o) : w.Roams o w' :=
  ⟨hsettings, ⟨es, hlog, hes⟩, es, hlog, fun _ => hauth⟩

theorem Event.Polls.quiet {o : ByteOrder} {fd : Int} {e : Event} (h : e.Polls o fd) :
    e.Quiet o := by
  cases e with
  | send fd' p count => exact h.2.hasOpcode
  | _ => trivial

theorem World.Polls.roams {o : ByteOrder} {w w' : World σ} (h : w.Polls o w') :
    w.Roams o w' := by
  obtain ⟨requestId, lastError, hosts, primary, hconn⟩ := h.conn
  obtain ⟨es, hlog, hes⟩ := h.log
  refine .of_log ?_ ?_ hlog fun e he => (hes e he).quiet
  · rw [hconn]
    exact ⟨rfl, rfl, rfl, rfl, rfl, rfl⟩
  · rw [hconn]

/-! ## Opening a connection -/

/-- What an attempt to open a connection leaves: nothing but the use of a name, or a fresh
connection and its event. -/
structure World.Opens (w : World σ) (c : Option MongoSyncConnection) (w' : World σ) : Prop where
  conn : w'.conn = w.conn
  nextFd_le : w.nextFd ≤ w'.nextFd
  failed : c = none → w'.log = w.log
  opened : ∀ nc, c = some nc → w'.nextFd = w.nextFd + 1 ∧
    (∃ seed, nc = { mongoSyncConnInit ⟨w.nextFd, 0⟩ w.conn.slaveok with rs := ⟨[seed], [], none⟩ }) ∧
    ∃ host port, w'.log = w.log ++ [.connect w.nextFd host port]

/-- What is known of a connection that is just made. -/
structure World.Dials (w : World σ) (host : CString) (port : Int) (c : Option MongoConnection)
    (w' : World σ) : Prop where
  conn : w'.conn = w.conn
  nextFd_le : w.nextFd ≤ w'.nextFd
  failed : c = none → w'.log = w.log
  opened : ∀ a, c = some a → w'.nextFd = w.nextFd + 1 ∧ a = ⟨w.nextFd, 0⟩ ∧
    w'.log = w.log ++ [.connect w.nextFd host port]

theorem World.Dials.none {w w' : World σ} {host : CString} {port : Int} (hconn : w'.conn = w.conn)
    (hle : w.nextFd ≤ w'.nextFd) (hlog : w'.log = w.log) : w.Dials host port none w' :=
  ⟨hconn, hle, fun _ => hlog, fun _ h => by cases h⟩

theorem World.Dials.some {w w' : World σ} {host : CString} {port : Int} (hconn : w'.conn = w.conn)
    (hnext : w'.nextFd = w.nextFd + 1) (hlog : w'.log = w.log ++ [.connect w.nextFd host port]) :
    w.Dials host port (some ⟨w.nextFd, 0⟩) w' := by
  refine ⟨hconn, hnext ▸ Nat.le_succ _, fun h => (by cases h), fun a h => ?_⟩
  cases h
  exact ⟨hnext, rfl, hlog⟩

theorem mongoUnixConnect_dials (path : CString) (w : World σ) :
    wp (mongoUnixConnect N path) (w.Dials path mongoConnLocal) (fun _ => False) w := by
  rw [mongoUnixConnect]
  refine wp_ite (fun _ => ?_) (fun _ => ?_)
  · exact .none rfl (Nat.le_refl _) rfl
  · rw [wp_bind, wp_newFd, wp_bind, wp_system]
    refine wp_ite (fun _ => ?_) (fun _ => ?_)
    · exact .some rfl rfl rfl
    · exact .none rfl (Nat.le_succ _) rfl

theorem mongoTcpConnect_dials (host : CString) (port : Int) (w : World σ) :
    wp (mongoTcpConnect N host port) (w.Dials host port) (fun _ => False) w := by
  rw [mongoTcpConnect, wp_bind, wp_newFd, wp_bind, wp_system]
  cases (N.tcp w.nextFd host port w.net).1 with
  | connected => exact .some rfl rfl rfl
  | refused => exact .none rfl (Nat.le_succ _) rfl
  | unresolved e =>
      cases e with
      | none => exact .none rfl (Nat.le_succ _) rfl
      | some e => exact .none rfl (Nat.le_succ _) rfl

theorem mongoConnect_dials (address : CString) (port : Int) (w : World σ) :
    wp (mongoConnect N address port) (w.Dials address port) (fun _ => False) w := by
  rw [mongoConnect]
  refine wp_ite (fun hport => ?_) (fun _ => mongoTcpConnect_dials N address port w)
  rw [hport]
  exact mongoUnixConnect_dials N address w

theorem connectAddr_opens (addr : CString) (w : World σ) :
    wp (connectAddr N addr) w.Opens (fun _ => False) w := by
  rw [connectAddr, wp_bind]
  refine wp_orErrno (fun a _ => ?_) (fun e _ => ?_)
  · obtain ⟨host, port⟩ := a
    show wp (get >>= _) _ _ w
    rw [wp_bind, wp_get, mongoSyncConnect, wp_bind]
    refine wp_mono (mongoConnect_dials N host port w) (fun c w' h => ?_) (fun _ h => h)
    cases c with
    | none => exact ⟨h.conn, h.nextFd_le, fun _ => h.failed rfl, fun _ h => by cases h⟩
    | some c =>
        obtain ⟨hnext, rfl, hlog⟩ := h.opened c rfl
        refine ⟨h.conn, h.nextFd_le, fun h => (by cases h), fun nc hnc => ?_⟩
        cases hnc
        exact ⟨hnext, ⟨formatAddr host port, rfl⟩, host, port, hlog⟩
  · exact ⟨rfl, Nat.le_refl _, fun _ => rfl, fun _ h => by cases h⟩

theorem World.Opens.log {w w' : World σ} {c : Option MongoSyncConnection} (h : w.Opens c w') :
    ∃ es, w'.log = w.log ++ es ∧ ∀ e ∈ es, ∃ fd host port, e = .connect fd host port := by
  cases c with
  | none => exact ⟨[], by rw [h.failed rfl, List.append_nil], by simp⟩
  | some nc =>
      obtain ⟨-, -, host, port, hlog⟩ := h.opened nc rfl
      refine ⟨_, hlog, fun e he => ?_⟩
      rw [List.mem_singleton] at he
      exact ⟨_, host, port, he⟩

theorem World.Opens.roams (o : ByteOrder) {w w' : World σ} {c : Option MongoSyncConnection}
    (h : w.Opens c w') : w.Roams o w' := by
  obtain ⟨es, hlog, hes⟩ := h.log
  refine .of_log ?_ (by rw [h.conn]) hlog fun e he => ?_
  · rw [h.conn]
    exact .refl _
  · obtain ⟨_, _, _, rfl⟩ := hes e he
    trivial

/-- A fresh connection is for slaves as it was asked to be. -/
theorem World.Opens.slaveok {w w' : World σ} {nc : MongoSyncConnection} (h : w.Opens (some nc) w') :
    nc.slaveok = w.conn.slaveok := by
  obtain ⟨-, ⟨seed, rfl⟩, -⟩ := h.opened nc rfl
  rfl

/-! ## Functions that may reconnect -/

/-- What is needed to show that the functions that may reconnect keep `R`, if
reconnecting does.  Those that ask for a master also need that asking keeps it. -/
structure TalkRule (R : World σ → World σ → Prop) : Prop extends CommandRule N R where
  cmdPing : Keeps R (mongoSyncCmdPing N)

theorem SocketRule.talk {R : World σ → World σ → Prop} (h : SocketRule N R) : TalkRule N R where
  toCommandRule := h.command
  cmdPing := h.cmdPing

/-- A relation that is weaker than staying on a socket. -/
theorem TalkRule.of_polls {R : World σ → World σ → Prop} (hF : Frame R)
    (hpolls : ∀ w w', w.Polls N.order w' → R w w') : TalkRule N R where
  frame := hF
  errno e := ((pollsRule N).errno e).mono hpolls
  send hp := ((pollsRule N).send hp).mono hpolls
  reply rid := ((pollsRule N).talk.reply rid).mono hpolls
  cmdPing := (pollsRule N).cmdPing.mono hpolls

theorem readString_spec (lent : Option Nat) (s : CString) (w : World σ) :
    wp (readString N lent s)
      (fun s' u => ∃ ds, (∀ d ∈ ds, d = Event.dangling) ∧ (ds = [] → s' = s) ∧
        u = { w with log := w.log ++ ds })
      (fun _ => False) w := by
  rw [readString, wp_bind, wp_get]
  refine wp_ite (fun _ => ?_) (fun _ => ?_)
  · exact ⟨[], by simp, fun _ => rfl, by simp⟩
  · exact ⟨[.dangling], by simp, by simp, rfl⟩

/-- What is stored is what was handed over, unless it was freed. -/
theorem storeCredentials_spec (lent : Option Nat) (db user pw : CString) (w : World σ) :
    wp (storeCredentials N lent db user pw)
      (fun _ u => ∃ ds auth, (∀ d ∈ ds, d = Event.dangling) ∧
        (ds = [] → auth = ⟨some db, some user, some pw⟩) ∧
        u = { w with
          log := w.log ++ ds
          conn := { w.conn with auth := auth, stored := w.conn.stored + 1 } })
      (fun _ => False) w := by
  rw [storeCredentials, wp_bind]
  refine wp_mono (readString_spec N lent db w) (fun db' u hu => ?_) (fun _ h => h)
  obtain ⟨ds, hds, hdb, rfl⟩ := hu
  rw [wp_bind]
  refine wp_mono (readString_spec N lent user _) (fun user' u hu => ?_) (fun _ h => h)
  obtain ⟨ds', hds', huser, rfl⟩ := hu
  rw [wp_bind]
  refine wp_mono (readString_spec N lent pw _) (fun pw' u hu => ?_) (fun _ h => h)
  obtain ⟨ds'', hds'', hpw, rfl⟩ := hu
  rw [wp_setConn]
  refine ⟨ds ++ ds' ++ ds'', ⟨some db', some user', some pw'⟩, fun d hd => ?_, fun hnil => ?_, by
    simp only [List.append_assoc]⟩
  · rcases List.mem_append.mp hd with hd | hd
    · exact (List.mem_append.mp hd).elim (hds d) (hds' d)
    · exact hds'' d hd
  · have hfirst := List.append_eq_nil_iff.mp hnil
    have hsecond := List.append_eq_nil_iff.mp hfirst.1
    rw [hdb hsecond.1, huser hsecond.2, hpw hfirst.2]

theorem ensureMaster_keeps_of {R E : World σ → World σ → Prop} (hE : Halts R E)
    {reconnect : Bool → Program (World σ) Bool} (herrno : ∀ e, Keeps R (setErrno e))
    (hmaster : Keeps R (mongoSyncCmdIsMaster N))
    (hreconnect : ∀ force, KeepsUpTo R E (reconnect force)) :
    KeepsUpTo R E (ensureMaster N reconnect) := by
  refine KeepsUpTo.bind hE ((herrno _).upTo hE) (fun _ => ?_)
  refine KeepsUpTo.bind hE (hmaster.upTo hE) (fun master => ?_)
  refine KeepsUpTo.ite (KeepsUpTo.pure hE _) (KeepsUpTo.get_bind fun w => ?_)
  refine KeepsUpTo.ite (KeepsUpTo.pure hE _) (KeepsUpTo.ite ?_ (hreconnect _)) w
  exact KeepsUpTo.bind hE ((herrno _).upTo hE) fun _ => KeepsUpTo.pure hE _

section Reconnecting

variable {N} {R E : World σ → World σ → Prop} (h : TalkRule N R) (hE : Halts R E)
  {reconnect : Bool → Program (World σ) Bool}
include h hE

section Masters

variable (hmaster : Keeps R (mongoSyncCmdIsMaster N))
  (hreconnect : ∀ force, KeepsUpTo R E (reconnect force))
include hmaster hreconnect

theorem ensureMaster_keeps : KeepsUpTo R E (ensureMaster N reconnect) :=
  ensureMaster_keeps_of N hE h.errno hmaster hreconnect

theorem mongoCmdEnsureConn_keeps (forceMaster : Bool) :
    KeepsUpTo R E (mongoCmdEnsureConn N reconnect forceMaster) := by
  have herrno : ∀ e (b : Bool), KeepsUpTo R E (do setErrno e; return b) :=
    fun e _ => KeepsUpTo.bind hE ((h.errno e).upTo hE) fun _ => KeepsUpTo.pure hE _
  refine KeepsUpTo.get_bind fun w => ?_
  refine KeepsUpTo.ite (ensureMaster_keeps h hE hmaster hreconnect) ?_ w
  refine KeepsUpTo.bind hE ((h.errno _).upTo hE) (fun _ => ?_)
  refine KeepsUpTo.bind hE (h.cmdPing.upTo hE) (fun ping => ?_)
  refine KeepsUpTo.ite (herrno _ _) (KeepsUpTo.get_bind fun w => ?_)
  refine KeepsUpTo.ite (KeepsUpTo.pure hE _) (KeepsUpTo.ite (herrno _ _) ?_) w
  refine KeepsUpTo.bind hE (hreconnect _) (fun connected => ?_)
  exact KeepsUpTo.ite (herrno _ _) (herrno _ _)

theorem mongoCmdVerifySlaveok_keeps : KeepsUpTo R E (mongoCmdVerifySlaveok N reconnect) := by
  refine KeepsUpTo.get_bind fun w => ?_
  exact KeepsUpTo.ite (KeepsUpTo.pure hE _) (ensureMaster_keeps h hE hmaster hreconnect) w

/-- Sending a packet keeps what handing it to the socket does. -/
theorem mongoSyncPacketSend_keeps {p : MongoPacket} (hsend : Keeps R (mongoPacketSend N p))
    (forceMaster autoReconnect : Bool) :
    KeepsUpTo R E (mongoSyncPacketSend N reconnect p forceMaster autoReconnect) :=
  mongoSyncPacketSendWith_keeps N hE h.errno hsend (hreconnect _)
    (fun _ => mongoCmdEnsureConn_keeps h hE hmaster hreconnect _) autoReconnect

end Masters

variable (hreconnect : KeepsUpTo R E (reconnect false))
include hreconnect

/-- A command to a database asks for no master. -/
theorem mongoSyncCmdCustom_keeps (db : Option CString) (command : Option Bson) :
    KeepsUpTo R E (mongoSyncCmdCustom N reconnect db command) := by
  refine KeepsUpTo.get_bind fun w => ?_
  rw [wp_bind]
  refine wp_orErrno (fun p hp => ?_) (fun e _ => h.errno e w)
  refine KeepsUpTo.bind hE (mongoSyncPacketSendWith_keeps N hE h.errno (h.send ⟨_, _, _, _, hp⟩)
    hreconnect (fun h => by cases h) _) (fun sent => ?_) w
  exact KeepsUpTo.ite ((h.reply _).upTo hE) (KeepsUpTo.pure hE _)

end Reconnecting

/-! ## Authenticating -/

/-- What is needed to show that authenticating keeps `R`, if a command to a database does. -/
structure CustomRule (reconnect : Bool → Program (World σ) Bool) (R E : World σ → World σ → Prop) :
    Prop where
  halts : Halts R E
  errno : ∀ e, Keeps R (setErrno e)
  custom : ∀ db command, KeepsUpTo R E (mongoSyncCmdCustom N reconnect db command)

theorem TalkRule.custom {R E : World σ → World σ → Prop} (h : TalkRule N R) (hE : Halts R E)
    {reconnect : Bool → Program (World σ) Bool} (hreconnect : KeepsUpTo R E (reconnect false)) :
    CustomRule N reconnect R E where
  halts := hE
  errno := h.errno
  custom := mongoSyncCmdCustom_keeps h hE hreconnect

section Authenticating

variable {N} {R E : World σ → World σ → Prop} {reconnect : Bool → Program (World σ) Bool}
  (h : CustomRule N reconnect R E)
include h

/-- Authenticating ends, if it succeeds, with storing the credentials.  On the way it may
read strings that were freed. -/
theorem mongoSyncCmdAuthenticateWith_stores {lent : Option Nat} {db user pw : CString}
    {w : World σ} {S : World σ → Prop}
    (hdangling : ∀ u ds, R w u → (∀ d ∈ ds, d = Event.dangling) →
      R w { u with log := u.log ++ ds })
    (hstore : ∀ u ds auth, R w u → (∀ d ∈ ds, d = Event.dangling) →
      (ds = [] → auth = ⟨some db, some user, some pw⟩) →
      S { u with
        log := u.log ++ ds
        conn := { u.conn with auth := auth, stored := u.conn.stored + 1 } }) :
    wp (mongoSyncCmdAuthenticateWith N reconnect lent db user pw)
      (fun ok w' => if ok then S w' else R w w') (E w) w := by
  have hF := h.halts.frame
  have hread : ∀ s u, R w u → wp (readString N lent s) (fun _ => R w) (E w) u := by
    intro s u hu
    refine wp_mono (readString_spec N lent s u) (fun _ v hv => ?_) (fun _ h => h.elim)
    obtain ⟨ds, hds, -, rfl⟩ := hv
    exact hdangling u ds hu hds
  unfold mongoSyncCmdAuthenticateWith
  rw [wp_bind]
  refine wp_mono (h.custom _ _ w) (fun p u hu => ?_) (fun _ h => h)
  cases p with
  | none => exact hu
  | some p =>
      show wp (_ >>= _) _ _ _
      rw [wp_bind]
      refine wp_mono (wp_trans hF hu (readOrErrno_keeps hF h.errno _ u))
        (fun b u hu => ?_) (fun _ hu => h.halts.halt hu)
      cases b with
      | none => exact hu
      | some b =>
          show wp (_ >>= _) _ _ _
          rw [wp_bind]
          refine wp_ofExcept (fun nonce _ => ?_) (fun _ _ => h.halts.halt hu)
          cases nonce with
          | none => exact hF.trans hu (h.errno .EPROTO u)
          | some nonce =>
              show wp (_ >>= _) _ _ _
              rw [wp_bind]
              refine wp_mono (hread user u hu) (fun user' u hu => ?_) (fun _ h => h)
              rw [wp_bind]
              refine wp_mono (hread pw u hu) (fun pw' u hu => ?_) (fun _ h => h)
              rw [wp_bind]
              refine wp_mono (hread db u hu) (fun db' u hu => ?_) (fun _ h => h)
              rw [wp_bind]
              refine wp_mono (KeepsUpTo.after h.halts hu (h.custom _ _ u)) (fun p u hu => ?_)
                (fun _ h => h)
              cases p with
              | none => exact hu
              | some p =>
                  show wp (_ >>= _) _ _ _
                  rw [wp_bind]
                  refine wp_mono (storeCredentials_spec N lent db user pw u) (fun _ v hv => ?_)
                    (fun _ h => h.elim)
                  obtain ⟨ds, auth, hds, hauth, rfl⟩ := hv
                  exact hstore u ds auth hu hds hauth

theorem mongoSyncCmdAuthenticateWith_wp {lent : Option Nat} {db user pw : CString} {w : World σ}
    (hdangling : ∀ u ds, R w u → (∀ d ∈ ds, d = Event.dangling) →
      R w { u with log := u.log ++ ds })
    (hstore : ∀ u ds auth, R w u → (∀ d ∈ ds, d = Event.dangling) →
      (ds = [] → auth = ⟨some db, some user, some pw⟩) →
      R w { u with
        log := u.log ++ ds
        conn := { u.conn with auth := auth, stored := u.conn.stored + 1 } }) :
    wp (mongoSyncCmdAuthenticateWith N reconnect lent db user pw) (fun _ => R w) (E w) w := by
  refine wp_mono (mongoSyncCmdAuthenticateWith_stores h hdangling hstore)
    (fun ok u hu => ?_) (fun _ h => h)
  rwa [ite_self] at hu

/-- Authenticating again stores the credentials the connection has. -/
theorem reauthenticate_wp {w : World σ}
    (hdangling : ∀ u ds, R w u → (∀ d ∈ ds, d = Event.dangling) →
      R w { u with log := u.log ++ ds })
    (hstore : ∀ u ds auth, R w u → (∀ d ∈ ds, d = Event.dangling) →
      (ds = [] → auth = w.conn.auth) →
      R w { u with
        log := u.log ++ ds
        conn := { u.conn with auth := auth, stored := u.conn.stored + 1 } }) :
    wp (reauthenticate N reconnect) (fun _ => R w) (E w) w := by
  rw [reauthenticate, wp_bind, wp_get]
  split
  next db user pw hauth =>
    rw [wp_bind]
    refine wp_mono (mongoSyncCmdAuthenticateWith_wp h hdangling
      fun u ds auth hu hds hstored => ?_) (fun _ _ h => h) (fun _ h => h)
    exact hstore u ds auth hu hds fun hnil => (hstored hnil).trans hauth.symm
  next => exact h.halts.frame.refl w

end Authenticating

/-! ## The rule of reconnecting -/

/-- What is needed to show that a call of `mongo_sync_reconnect` gives `S` if it returns a
connection and `R` if it returns `NULL`.  A call that halts keeps `E`. -/
structure VisitRule (reconnect : Bool → Program (World σ) Bool) (force : Bool)
    (R S E : World σ → World σ → Prop) : Prop where
  frame : Frame R
  errno : ∀ e, Keeps R (setErrno e)
  cmdPing : Keeps R (mongoSyncCmdPing N)
  halts : Halts R E
  trans : ∀ {u v w}, R u v → S v w → S u w
  /-- A connection that answers is good enough if no master is asked for, and a master
  always is. -/
  answer : ∀ w, wp (mongoSyncCmdPing N)
    (fun ok u => ok = true →
      if force then wp (mongoSyncCmdIsMaster N) (fun ok v => ok = true → S w v) (fun _ => True) u
      else S w u) (fun _ => True) w
  refresh : force = true → Keeps R (mongoSyncCmdIsMaster N)
  /-- A candidate is adopted if it can be connected to. -/
  candidate : ∀ addr w, wp (connectAddr N addr)
    (fun c w' => match c with
      | none => R w w'
      | some nc => wp (adopt N reconnect force nc) (fun _ => S w) (E w) w') (E w) w

namespace VisitRule

variable {reconnect : Bool → Program (World σ) Bool} {force : Bool}
  {R S E : World σ → World σ → Prop}

/-- What is shown of each part. -/
def Gives (R S E : World σ → World σ → Prop) (m : Program (World σ) Bool) (w : World σ) : Prop :=
  wp m (fun ok w' => if ok then S w w' else R w w') (E w) w

/-- Going on from a state that `R` leads to. -/
theorem gives_trans (h : VisitRule N reconnect force R S E) {m : Program (World σ) Bool}
    {v w : World σ} (hvw : R v w) (hm : Gives R S E m w) :
    wp m (fun ok w' => if ok then S v w' else R v w') (E v) w := by
  refine wp_mono hm (fun ok _ hw => ?_) (fun _ hw => h.halts.trans hvw hw)
  cases ok with
  | false => exact h.frame.trans hvw hw
  | true => exact h.trans hvw hw

theorem via (h : VisitRule N reconnect force R S E) (addrs : List CString)
    (w : World σ) : Gives R S E (reconnectVia N reconnect force addrs) w := by
  induction addrs generalizing w with
  | nil => exact h.frame.refl w
  | cons addr addrs ih =>
      rw [Gives, reconnectVia, wp_bind]
      refine wp_mono (h.candidate addr w) (fun c u hu => ?_) (fun _ hu => hu)
      cases c with
      | none => exact h.gives_trans N hu (ih u)
      | some nc =>
          show wp (_ >>= _) _ _ _
          rw [wp_bind]
          exact wp_mono hu (fun _ _ hv => hv) (fun _ hv => hv)

/-- One list of candidates, and the next if it has none. -/
theorem gives_orElse (h : VisitRule N reconnect force R S E)
    {m m' : Program (World σ) Bool} {w : World σ} (hm : Gives R S E m w)
    (hm' : ∀ u, Gives R S E m' u) :
    Gives R S E (m >>= fun found => if found then pure true else m') w := by
  rw [Gives, wp_bind]
  refine wp_mono hm (fun found u hu => ?_) (fun _ hu => hu)
  cases found with
  | true => exact hu
  | false => exact h.gives_trans N hu (hm' u)

theorem candidates (h : VisitRule N reconnect force R S E) (w : World σ) :
    Gives R S E (reconnectCandidates N reconnect force) w := by
  refine h.gives_orElse N (h.via N _ w) (fun u => ?_)
  refine h.gives_orElse N (h.via N _ u) (fun u => ?_)
  refine h.gives_orElse N (h.via N _ u) (fun u => ?_)
  exact h.errno .EHOSTUNREACH u

theorem call (h : VisitRule N reconnect force R S E) (w : World σ) :
    Gives R S E (mongoSyncReconnectWith N reconnect force) w := by
  rw [Gives, mongoSyncReconnectWith, wp_bind]
  refine wp_mono (wp_and (h.cmdPing w) (h.answer w)) (fun ping u hu => ?_)
    (fun _ hu => h.halts.halt hu.1)
  obtain ⟨hu, hanswer⟩ := hu
  refine wp_ite (fun hping => ?_) (fun _ => h.gives_trans N hu (h.candidates N u))
  have hgood := hanswer hping
  cases hforce : force with
  | false =>
      rw [hforce] at hgood
      exact hgood
  | true =>
      subst hforce
      show wp (_ >>= _) _ _ _
      rw [wp_bind]
      have hmaster := wp_and (KeepsUpTo.after h.halts hu ((h.refresh rfl).upTo h.halts u)) hgood
      refine wp_mono hmaster (fun master v hv => ?_) (fun _ hv => hv.1)
      refine wp_ite (fun hyes => hv.2 hyes) (fun _ => ?_)
      rw [wp_bind]
      refine wp_mono (KeepsUpTo.after h.halts hv.1 ((h.refresh rfl).upTo h.halts v))
        (fun _ x hx => ?_) (fun _ hx => hx)
      exact h.gives_trans N hx (h.candidates N x)

end VisitRule

/-- The same with the commands that stay on a socket. -/
structure ReconnectRule (reconnect : Bool → Program (World σ) Bool) (force : Bool)
    (R S E : World σ → World σ → Prop) : Prop where
  talk : TalkRule N R
  halts : Halts R E
  trans : ∀ {u v w}, R u v → S v w → S u w
  /-- A connection that answers is good enough if no master is asked for, and a master
  always is. -/
  answer : ∀ w, wp (mongoSyncCmdPing N)
    (fun ok u => ok = true →
      if force then wp (mongoSyncCmdIsMaster N) (fun ok v => ok = true → S w v) (fun _ => True) u
      else S w u) (fun _ => True) w
  refresh : force = true → Keeps R (mongoSyncCmdIsMaster N)
  /-- A candidate is adopted if it can be connected to. -/
  candidate : ∀ addr w, wp (connectAddr N addr)
    (fun c w' => match c with
      | none => R w w'
      | some nc => wp (adopt N reconnect force nc) (fun _ => S w) (E w) w') (E w) w

namespace ReconnectRule

variable {reconnect : Bool → Program (World σ) Bool} {force : Bool}
  {R S E : World σ → World σ → Prop}

theorem visit (h : ReconnectRule N reconnect force R S E) : VisitRule N reconnect force R S E where
  frame := h.talk.frame
  errno := h.talk.errno
  cmdPing := h.talk.cmdPing
  halts := h.halts
  trans := h.trans
  answer := h.answer
  refresh := h.refresh
  candidate := h.candidate

theorem call (h : ReconnectRule N reconnect force R S E) (w : World σ) :
    wp (mongoSyncReconnectWith N reconnect force) (fun ok w' => if ok then S w w' else R w w')
      (E w) w := h.visit.call N w

/-- What is known of a ping and what is known of asking for a master, taken together. -/
theorem answer_of (htalk : TalkRule N R) (htrans : ∀ {u v w}, R u v → S v w → S u w)
    (hping : force = false → ∀ w,
      wp (mongoSyncCmdPing N) (fun ok u => ok = true → S w u) (fun _ => True) w)
    (hmaster : force = true → ∀ w,
      wp (mongoSyncCmdIsMaster N) (fun ok u => ok = true → S w u) (fun _ => True) w)
    (w : World σ) :
    wp (mongoSyncCmdPing N)
      (fun ok u => ok = true →
        if force then wp (mongoSyncCmdIsMaster N) (fun ok v => ok = true → S w v) (fun _ => True) u
        else S w u) (fun _ => True) w := by
  cases force with
  | false => exact hping rfl w
  | true =>
      refine wp_mono (htalk.cmdPing w) (fun ok u hu _ => ?_) (fun _ _ => trivial)
      exact wp_mono (hmaster rfl u) (fun _ _ hv hok => htrans hu (hv hok)) (fun _ _ => trivial)

end ReconnectRule

/-! ## Reconnecting roams -/

section Roaming

variable {reconnect : Bool → Program (World σ) Bool}
  (hreconnect : ∀ force, Keeps (World.Roams N.order) (reconnect force))
include hreconnect

theorem reauthenticate_roams (w : World σ) :
    wp (reauthenticate N reconnect) (fun _ => w.Roams N.order) (w.Roams N.order) w := by
  have hF := World.Roams.frame (σ := σ) N.order
  have hquiet : ∀ {ds : List Event}, (∀ d ∈ ds, d = Event.dangling) → ∀ d ∈ ds, d.Quiet N.order := by
    intro ds hds d hd
    rw [hds d hd]
    trivial
  refine reauthenticate_wp (TalkRule.custom N (.of_polls N hF fun _ _ h => h.roams) hF.halts
    (hreconnect _))
    (fun u ds hu hds => hF.trans hu (.of_log (.refl _) rfl rfl (hquiet hds)))
    (fun u ds auth hu hds hstored => ?_)
  have hs := hu.settings
  refine ⟨⟨hs.slaveok, hs.safeMode, hs.autoReconnect, hs.maxInsertSize, hs.seeds,
    hs.recoveryCache⟩, ?_, ?_⟩
  · obtain ⟨es, hes, hall⟩ := hu.log
    refine ⟨es ++ ds, by rw [hes, List.append_assoc], fun e he => ?_⟩
    exact (List.mem_append.mp he).elim (hall e) (hquiet hds e)
  · obtain ⟨es, hes, -⟩ := hu.auth
    refine ⟨es ++ ds, by rw [hes, List.append_assoc], fun hno => hstored ?_⟩
    cases ds with
    | nil => rfl
    | cons d ds =>
        have hd := hds d List.mem_cons_self
        subst hd
        simp at hno

omit hreconnect in
/-- The new socket comes with the same settings. -/
theorem afterReplace_roams {force ok : Bool} {nc : MongoSyncConnection} {w u : World σ}
    (hnc : nc.slaveok = w.conn.slaveok) (hu : World.Roams N.order { w with conn := nc } u) :
    w.Roams N.order (afterReplace N force ok w u) := by
  obtain ⟨es, hes, hall⟩ := hu.log
  have hquiet : ∀ es', (∀ e ∈ es', e.Quiet N.order) → ∀ e ∈ es ++ es', e.Quiet N.order :=
    fun es' h e he => (List.mem_append.mp he).elim (hall e) (h e)
  have hsettings : w.conn.SameSettings (w.conn.takeOver u.conn) :=
    ⟨hu.settings.slaveok.trans hnc, rfl, rfl, rfl, rfl, rfl⟩
  have hlog : ∀ es', u.log ++ es' = w.log ++ (es ++ es') := by
    intro es'
    rw [hes, List.append_assoc]
  rw [afterReplace]
  split
  · split
    · refine .of_log hsettings rfl (hlog _) (hquiet _ fun e he => ?_)
      rcases List.mem_pair.mp he with rfl | rfl
      · trivial
      · trivial
    · refine .of_log hsettings rfl (hlog _) (hquiet _ fun e he => ?_)
      rw [List.mem_singleton] at he
      subst he
      trivial
  · refine .of_log (.refl _) rfl (hlog _) (hquiet _ fun e he => ?_)
    rw [List.mem_singleton] at he
    subst he
    trivial

theorem adopt_roams {force : Bool} {nc : MongoSyncConnection} {w : World σ}
    (hnc : nc.slaveok = w.conn.slaveok) :
    wp (adopt N reconnect force nc) (fun _ => w.Roams N.order) (w.Roams N.order) w := by
  have hF := World.Roams.frame (σ := σ) N.order
  refine wp_adopt N reconnect ?_
  refine wp_mono (hreconnect force { w with conn := nc }) (fun ok u hu => ?_) (fun u hu => ?_)
  · exact wp_trans hF (afterReplace_roams N hnc hu) (reauthenticate_roams N hreconnect _)
  · -- the nested call works on the new connection, so only the log carries over
    obtain ⟨es, hes, hall⟩ := hu.log
    exact .of_log (.refl _) rfl hes hall

theorem reconnectRule_roams (force : Bool) :
    ReconnectRule N reconnect force (World.Roams N.order) (World.Roams N.order)
      (World.Roams N.order) where
  talk := .of_polls N (World.Roams.frame _) fun _ _ h => h.roams
  halts := (World.Roams.frame _).halts
  trans := (World.Roams.frame _).trans
  answer := by
    refine ReconnectRule.answer_of N (.of_polls N (World.Roams.frame _) fun _ _ h => h.roams)
      (World.Roams.frame _).trans (fun _ w => ?_) (fun _ w => ?_)
    · exact wp_mono (mongoSyncCmdPing_polls N w) (fun _ _ h _ => h.roams) (fun _ _ => trivial)
    · exact wp_mono (mongoSyncCmdIsMaster_polls N w) (fun _ _ h _ => h.roams) (fun _ _ => trivial)
  refresh _ := (mongoSyncCmdIsMaster_polls N).mono fun _ _ h => h.roams
  candidate addr w := by
    refine wp_mono (connectAddr_opens N addr w) (fun c u hu => ?_) (fun _ h => h.elim)
    have hroams := hu.roams N.order
    cases c with
    | none => exact hroams
    | some nc =>
        have hF := World.Roams.frame (σ := σ) N.order
        have hnc : nc.slaveok = u.conn.slaveok := by rw [hu.slaveok, hu.conn]
        exact wp_trans hF hroams (adopt_roams N hreconnect hnc)

end Roaming

/-- Reconnecting keeps the settings of the connection and writes nothing. -/
theorem mongoSyncReconnect_roams (fuel : Nat) (force : Bool) :
    Keeps (World.Roams N.order) (mongoSyncReconnect N fuel force) := by
  induction fuel generalizing force with
  | zero => exact Keeps.throw (World.Roams.frame _) _
  | succ fuel ih =>
      intro w
      exact wp_mono ((reconnectRule_roams N ih force).call N w) (fun ok _ h => by
        cases ok with
        | false => exact h
        | true => exact h) (fun _ h => h)

end LibMongo
