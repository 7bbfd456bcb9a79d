import LibMongo.Sync.Verdict
import LibMongo.Wire.Sealed

/-!
# Clients

A client opens a connection, maybe from a recovery cache, and calls the commands.
`ClientRun` follows such a run from state to state.

`CallRule` lists what a relation has to allow so that every call keeps it, and
`ClientRule` does so for what does not depend on the connection object, such as the
bytes on the sockets.  `ClientRule.run` is the induction over runs.
-/

namespace LibMongo

open Bytes Program

variable {σ : Type} (N : Net σ)

/-! ## The recovery cache -/

/-- `struct _mongo_sync_conn_recovery_cache`. -/
structure RecoveryCache where
  rs : ReplicaSet
  auth : AuthCredentials
deriving DecidableEq

/-- `mongo_sync_conn_recovery_cache_discard`. -/
def RecoveryCache.discard : RecoveryCache := ⟨⟨[], [], none⟩, ⟨none, none, none⟩⟩

section Recovery

variable (reconnect : Bool → Program (World σ) Bool) (id : Nat) (slaveok : Bool)

/-- `_recovery_cache_connect`, with the cache of this number. -/
def recoveryCacheConnect (cache : RecoveryCache) (address : CString) (port : Int) :
    Program (World σ) (Option MongoSyncConnection) := do
  match ← mongoConnect N address port with
  | none => return none
  | some c =>
      let s := mongoSyncConnInit c slaveok
      return some { s with rs := cache.rs, auth := cache.auth, recoveryCache := some id }

/-- What is done with a connection that could be opened.  If it is not for slaves, the
cache is discarded. -/
def recoveryCacheAdopt (cache : RecoveryCache) (c : MongoSyncConnection) :
    Program (World σ) (Option MongoSyncConnection × RecoveryCache) := do
  if slaveok then return (some c, cache)
  else
    let c ← onConnection c (reconnect false)
    return (c, .discard)

/-- `_recovery_cache_pick_connect_from_list`. -/
def recoveryCachePickConnectFromList (cache : RecoveryCache) :
    List CString → Program (World σ) (Option MongoSyncConnection × RecoveryCache)
  | [] => return (none, cache)
  | addr :: addrs => do
      match ← orErrno (mongoUtilParseAddr addr) with
      | none => recoveryCachePickConnectFromList cache addrs
      | some (host, port) =>
          match ← recoveryCacheConnect N id slaveok cache host port with
          | none => recoveryCachePickConnectFromList cache addrs
          | some c => recoveryCacheAdopt reconnect slaveok cache c

/-- The addresses of the cache apart from the primary. -/
def recoveryCacheLists (cache : RecoveryCache) :
    Program (World σ) (Option MongoSyncConnection × RecoveryCache) := do
  let (c, cache) ← recoveryCachePickConnectFromList N reconnect id slaveok cache cache.rs.seeds
  match c with
  | some c => return (some c, cache)
  | none => recoveryCachePickConnectFromList N reconnect id slaveok cache cache.rs.hosts

/-- The connection, and what is left in the cache. -/
def mongoSyncConnectRecoveryCache (cache : RecoveryCache) :
    Program (World σ) (Option MongoSyncConnection × RecoveryCache) := do
  match cache.rs.primary with
  | none => recoveryCacheLists N reconnect id slaveok cache
  | some addr =>
      match ← orErrno (mongoUtilParseAddr addr) with
      | none => recoveryCacheLists N reconnect id slaveok cache
      | some (host, port) =>
          match ← recoveryCacheConnect N id slaveok cache host port with
          | none => recoveryCacheLists N reconnect id slaveok cache
          | some c => recoveryCacheAdopt reconnect slaveok cache c

end Recovery

/-! ## Runs -/

/-- A run of a client on one connection at a time. -/
inductive ClientRun (fuel : Nat) (w : World σ) : World σ → Prop
  | start : ClientRun fuel w w
  | command {v v' : World σ} {c : Command} {ok : Bool} : ClientRun fuel w v →
      (c.run N fuel).exec v = (.ok ok, v') → ClientRun fuel w v'
  | connect {v v' : World σ} {host : CString} {port : Int} {slaveok : Bool}
      {c : MongoSyncConnection} : ClientRun fuel w v →
      (mongoSyncConnect N host port slaveok).exec v = (.ok (some c), v') →
      ClientRun fuel w { v' with conn := c }
  | recover {v v' : World σ} {id : Nat} {slaveok : Bool} {cache cache' : RecoveryCache}
      {c : MongoSyncConnection} : ClientRun fuel w v →
      (mongoSyncConnectRecoveryCache N (mongoSyncReconnect N fuel) id slaveok cache).exec v
        = (.ok (some c, cache'), v') →
      ClientRun fuel w { v' with conn := c }

/-- The state a run is in, or in which its last command halts. -/
def ClientRun.Ends (fuel : Nat) (w w' : World σ) : Prop :=
  ClientRun N fuel w w' ∨ ∃ v, ∃ c : Command, ∃ e, ClientRun N fuel w v ∧
    (c.run N fuel).exec v = (.error e, w')

/-! ## Calls that are commands -/

section Commands

variable {N} {R : World σ → World σ → Prop} (hF : Frame R) (herrno : ∀ e, Keeps R (setErrno e))
include hF herrno

/-- The first document of a reply is read. -/
theorem document_keeps (p : MongoPacket) {α : Type} {f : Option (Option Bson) → Program (World σ) α}
    (hf : ∀ b, Keeps R (f b)) :
    Keeps R (readOrErrno (mongoWireReplyPacketGetNthDocument (some p) 1) >>= f) :=
  Keeps.bind hF (readOrErrno_keeps hF herrno _) hf

theorem mongoSyncCmdCount_keeps {reconnect : Bool → Program (World σ) Bool}
    (hcustom : ∀ db command, Keeps R (mongoSyncCmdCustom N reconnect db command))
    (db coll : Option CString) (query : Option Bson) :
    Keeps R (mongoSyncCmdCount N reconnect db coll query) := by
  refine Keeps.bind hF (hcustom db _) (fun reply => ?_)
  cases reply with
  | none => exact Keeps.pure hF _
  | some p =>
      refine document_keeps hF herrno p (fun b => ?_)
      cases b with
      | none => exact Keeps.pure hF _
      | some b =>
          refine Keeps.bind hF (readOrErrno_keeps hF herrno _) (fun d => ?_)
          cases d with
          | none => exact Keeps.pure hF _
          | some d => exact Keeps.pure hF _

theorem mongoSyncCmdIndexDropName_keeps {reconnect : Bool → Program (World σ) Bool}
    (hcustom : ∀ db command, Keeps R (mongoSyncCmdCustom N reconnect db command))
    (fullNs : Option CString) (name : CString) :
    Keeps R (mongoSyncCmdIndexDropName N reconnect fullNs name) := by
  have hfail : Keeps R (do setErrno .EINVAL; return false) :=
    Keeps.bind hF (herrno _) fun _ => Keeps.pure hF _
  rw [mongoSyncCmdIndexDropName.eq_def]
  split
  · exact hfail
  · split
    · exact hfail
    · refine Keeps.bind hF (hcustom _ _) (fun reply => ?_)
      cases reply with
      | none => exact Keeps.pure hF _
      | some p => exact Keeps.pure hF _

theorem mongoSyncCmdIndexDrop_keeps {reconnect : Bool → Program (World σ) Bool}
    (hcustom : ∀ db command, Keeps R (mongoSyncCmdCustom N reconnect db command))
    (host : GDouble → BitVec 64) (ns : Option CString) (key : Option Bson) :
    Keeps R (mongoSyncCmdIndexDrop N host reconnect ns key) := by
  cases key with
  | none => exact Keeps.bind hF (herrno _) fun _ => Keeps.pure hF _
  | some key =>
      refine Keeps.bind hF (Keeps.ofExcept hF _) (fun name => ?_)
      cases name with
      | none => exact Keeps.throw hF _
      | some name => exact mongoSyncCmdIndexDropName_keeps hF herrno hcustom ns name

end Commands

/-! ## The rule of calls -/

/-- What is needed to show that the calls on a connection keep `R`, apart from
authenticating. -/
structure CallRule (fuel : Nat) (R : World σ → World σ → Prop) : Prop extends SocketRule N R where
  sendSealed : ∀ {p : MongoPacket}, p.Sealed N.order → Keeps R (mongoPacketSend N p)
  reconnect : ∀ force, Keeps R (mongoSyncReconnect N fuel force)
  /-- Changing a setting or adding a seed. -/
  settings : ∀ {f : MongoSyncConnection → MongoSyncConnection},
    (∀ c, ∃ slaveok safeMode autoReconnect maxInsertSize seeds, f c =
      { c with
        slaveok := slaveok
        safeMode := safeMode
        autoReconnect := autoReconnect
        maxInsertSize := maxInsertSize
        rs := ⟨seeds, c.rs.hosts, c.rs.primary⟩ }) → Keeps R (setConn f)

namespace CallRule

variable {N} {fuel : Nat} {R : World σ → World σ → Prop} (h : CallRule N fuel R)
include h

theorem packetSend {p : MongoPacket} (hp : p.Sealed N.order) (forceMaster autoReconnect : Bool) :
    Keeps R (mongoSyncPacketSend N (mongoSyncReconnect N fuel) p forceMaster autoReconnect) :=
  mongoSyncPacketSend_keeps h.talk h.frame.halts h.cmdIsMaster h.reconnect
    (h.sendSealed hp) forceMaster autoReconnect

/-- What is done with a packet that could be built. -/
theorem built {α : Type} {build : Except Errno MongoPacket}
    (hbuild : ∀ p, build = .ok p → p.Sealed N.order) {f : Option MongoPacket → Program (World σ) α}
    (hnone : Keeps R (f none)) (hsome : ∀ p, p.Sealed N.order → Keeps R (f (some p))) :
    Keeps R (LibMongo.orErrno build >>= f) := by
  intro w
  rw [wp_bind]
  refine wp_orErrno (fun p hp => hsome p (hbuild p hp) w) (fun e _ => ?_)
  exact wp_trans h.frame (h.errno e w) (hnone _)

theorem nextPacket {α : Type} {build : BitVec 32 → Except Errno MongoPacket}
    (hbuild : ∀ rid p, build rid = .ok p → p.Sealed N.order)
    {f : Option MongoPacket → Program (World σ) α} (hnone : Keeps R (f none))
    (hsome : ∀ p, p.Sealed N.order → Keeps R (f (some p))) :
    Keeps R (nextPacket build >>= f) := by
  intro w
  rw [LibMongo.nextPacket, wp_bind, wp_bind, wp_get, ← wp_bind]
  exact h.built (hbuild _) hnone hsome w

theorem update (ns : Option CString) (flags : BitVec 32) (selector upd : Option Bson) :
    Keeps R (mongoSyncCmdUpdate N (mongoSyncReconnect N fuel) ns flags selector upd) := by
  refine h.nextPacket (fun _ _ => mongoWireCmdUpdate_sealed) (Keeps.pure h.frame _) (fun p hp => ?_)
  refine Keeps.bind h.frame (h.packetSend hp _ _) (fun sent => ?_)
  exact Keeps.ite (h.cmdVerifyResult _) (Keeps.pure h.frame _)

theorem insertBatch (ns : CString) (c : Int) (docs : List (Option Bson)) :
    Keeps R (insertBatch N (mongoSyncReconnect N fuel) ns c docs) := by
  refine h.nextPacket (fun _ _ => mongoWireCmdInsertN_sealed) (Keeps.pure h.frame _) (fun p hp => ?_)
  refine Keeps.bind h.frame (h.packetSend hp _ _) (fun sent => ?_)
  refine Keeps.ite (Keeps.get_bind fun w => ?_) (h.cmdVerifyResult _)
  exact Keeps.bind h.frame (h.lastError _) (fun _ => Keeps.pure h.frame _) w

theorem insertLoop (ns : CString) (rounds : Nat) (docs : List (Option Bson)) :
    Keeps R (insertLoop N (mongoSyncReconnect N fuel) ns rounds docs) := by
  induction rounds generalizing docs with
  | zero => exact Keeps.throw h.frame _
  | succ rounds ih =>
      refine Keeps.bind h.frame (Keeps.get h.frame) (fun w => ?_)
      refine Keeps.bind h.frame (h.insertBatch ns _ docs) (fun ok => ?_)
      exact Keeps.ite (Keeps.pure h.frame _) (Keeps.ite (Keeps.pure h.frame _) (ih _))

theorem insertN (ns : Option CString) (docs : Option (List (Option Bson))) :
    Keeps R (mongoSyncCmdInsertN N (mongoSyncReconnect N fuel) ns docs) := by
  cases ns with
  | none => exact h.fail _ _
  | some ns =>
      cases docs with
      | none => exact h.fail _ _
      | some docs =>
          refine Keeps.ite (h.fail _ _) (Keeps.bind h.frame (Keeps.get h.frame) fun w => ?_)
          exact Keeps.ite (h.fail _ _) (h.insertLoop ns _ docs)

theorem sendAndReceive {p : MongoPacket} (hp : p.Sealed N.order) (rid flags : BitVec 32)
    (forceMaster : Bool) :
    Keeps R (sendAndReceive N (mongoSyncReconnect N fuel) p rid flags forceMaster) := by
  refine Keeps.bind h.frame (h.packetSend hp _ _) (fun sent => ?_)
  refine Keeps.ite ?_ (Keeps.pure h.frame _)
  exact Keeps.bind h.frame (h.packetRecv _ _) fun reply =>
    mongoSyncPacketCheckError_keeps h.frame h.errno h.storeError reply false

theorem verifySlaveok : Keeps R (mongoCmdVerifySlaveok N (mongoSyncReconnect N fuel)) :=
  mongoCmdVerifySlaveok_keeps h.talk h.frame.halts h.cmdIsMaster h.reconnect

theorem query (c : QueryCall) : Keeps R (c.run N (mongoSyncReconnect N fuel)) := by
  cases c with
  | query ns flags skip ret q sel =>
      refine Keeps.bind h.frame (h.verifySlaveok) (fun verified => ?_)
      refine Keeps.ite (Keeps.bind h.frame (Keeps.get h.frame) fun w => ?_) (Keeps.pure h.frame _)
      exact h.built (fun _ => mongoWireCmdQuery_sealed) (Keeps.pure h.frame _)
        fun p hp => h.sendAndReceive hp _ _ _
  | getMore ns ret cursorId =>
      refine Keeps.bind h.frame (h.verifySlaveok) (fun verified => ?_)
      refine Keeps.ite (Keeps.bind h.frame (Keeps.get h.frame) fun w => ?_) (Keeps.pure h.frame _)
      exact h.built (fun _ => mongoWireCmdGetMore_sealed) (Keeps.pure h.frame _)
        fun p hp => h.sendAndReceive hp _ _ _

theorem custom (db : Option CString) (command : Option Bson) :
    Keeps R (mongoSyncCmdCustom N (mongoSyncReconnect N fuel) db command) :=
  mongoSyncCmdCustom_keeps h.talk h.frame.halts (h.reconnect _) db command

theorem master (db : Option CString) (command : Option Bson) :
    Keeps R (mongoSyncCmdMaster N (mongoSyncReconnect N fuel) db command) := by
  refine Keeps.bind h.frame (Keeps.get h.frame) fun w => ?_
  refine h.built (fun _ => mongoWireCmdCustom_sealed) (Keeps.pure h.frame _) (fun p hp => ?_)
  refine Keeps.bind h.frame (h.packetSend hp _ _) (fun sent => ?_)
  refine Keeps.ite ?_ (Keeps.pure h.frame _)
  exact Keeps.bind h.frame (h.packetRecv _ _) fun reply =>
    mongoSyncPacketCheckError_keeps h.frame h.errno h.storeError reply true

theorem delete (ns : Option CString) (flags : BitVec 32) (sel : Option Bson) :
    Keeps R (mongoSyncCmdDelete N (mongoSyncReconnect N fuel) ns flags sel) :=
  h.nextPacket (fun _ _ => mongoWireCmdDelete_sealed) (Keeps.pure h.frame _)
    fun _ hp => h.packetSend hp _ _

theorem create (db coll : Option CString) (flags : BitVec 32) (size max : BitVec 64) :
    Keeps R (mongoSyncCmdCreate N (mongoSyncReconnect N fuel) db coll flags size max) := by
  cases db with
  | none => exact h.fail _ _
  | some db =>
      cases coll with
      | none => exact h.fail _ _
      | some coll =>
          have hcommand : Keeps R (LibMongo.orErrno (createCommand coll flags size max)) :=
            fun w => wp_orErrno (fun _ _ => h.frame.refl w) (fun e _ => h.errno e w)
          refine Keeps.bind h.frame hcommand (fun cmd => ?_)
          cases cmd with
          | none => exact Keeps.pure h.frame _
          | some cmd => exact Keeps.bind h.frame (h.master _ _) fun _ => Keeps.pure h.frame _

theorem describe (db coll : Option CString) :
    Keeps R (mongoSyncCmdExists N (mongoSyncReconnect N fuel) db coll) := by
  cases db with
  | none => exact h.fail _ _
  | some db =>
      cases coll with
      | none => exact h.fail _ _
      | some coll =>
          rw [mongoSyncCmdExists]
          generalize db.append systemNamespaces = ns
          generalize existsQuery ((db.append dot).append coll) = query
          refine Keeps.bind h.frame (Keeps.get h.frame) (fun w => ?_)
          refine h.built (fun _ => mongoWireCmdQuery_sealed) (Keeps.pure h.frame _) (fun p hp => ?_)
          refine Keeps.bind h.frame (h.sendAndReceive hp _ _ _) (fun reply => ?_)
          cases reply with
          | none => exact Keeps.pure h.frame _
          | some p =>
              refine document_keeps h.frame h.errno p (fun b => ?_)
              cases b with
              | none => exact Keeps.pure h.frame _
              | some b => exact Keeps.pure h.frame _

theorem insert (ns : Option CString) (docs : List Bson) :
    Keeps R (mongoSyncCmdInsert N (mongoSyncReconnect N fuel) ns docs) :=
  Keeps.ite (h.fail _ _) (h.insertN _ _)

theorem userAdd (db user pw : Option CString) (roles : Option Bson) :
    Keeps R (mongoSyncCmdUserAddWithRoles N (mongoSyncReconnect N fuel) db user pw roles) := by
  rw [mongoSyncCmdUserAddWithRoles.eq_def]
  split
  · exact h.update _ _ _ _
  · exact h.fail _ _

theorem userRemove (db user : Option CString) :
    Keeps R (mongoSyncCmdUserRemove N (mongoSyncReconnect N fuel) db user) := by
  rw [mongoSyncCmdUserRemove.eq_def]
  split
  · exact h.delete _ _ _
  · exact h.fail _ _

theorem indexCreate (host : GDouble → BitVec 64) (ns : Option CString) (key : Option Bson)
    (options : BitVec 32) :
    Keeps R (mongoSyncCmdIndexCreate N host (mongoSyncReconnect N fuel) ns key options) := by
  rw [mongoSyncCmdIndexCreate.eq_def]
  split
  · split
    · exact h.fail _ _
    · refine Keeps.bind h.frame (Keeps.ofExcept h.frame _) (fun name => ?_)
      cases name with
      | none => exact h.fail _ _
      | some name => exact h.insertN _ _
  · exact h.fail _ _

/-- A call keeps it. -/
theorem command (c : Command) (hauth : ∀ db user pw, c = .authenticate db user pw →
      Keeps R (mongoSyncCmdAuthenticate N (mongoSyncReconnect N fuel) db user pw)) :
    Keeps R (c.run N fuel) := by
  have hF := h.frame
  have hset : ∀ {f}, Keeps R (setConn f) →
      Keeps R (do setErrno .ok; setConn f; return true) := fun hf =>
    Keeps.bind hF (h.errno _) fun _ => Keeps.bind hF hf fun _ => Keeps.pure hF _
  have hsome : ∀ {α : Type} {m : Program (World σ) (Option α)}, Keeps R m →
      Keeps R (Option.isSome <$> m) := by
    intro α m hm
    rw [map_eq_pure_bind]
    exact Keeps.bind hF hm fun _ => Keeps.pure hF _
  cases c with
  | setMaxInsertSize maxSize =>
      exact Keeps.ite (h.fail _ _) (hset (h.settings fun _ => ⟨_, _, _, _, _, rfl⟩))
  | setSafeMode safeMode => exact hset (h.settings fun _ => ⟨_, _, _, _, _, rfl⟩)
  | setAutoReconnect autoReconnect =>
      exact Keeps.bind hF (h.settings fun _ => ⟨_, _, _, _, _, rfl⟩) fun _ => Keeps.pure hF _
  | setSlaveok slaveok => exact hset (h.settings fun _ => ⟨_, _, _, _, _, rfl⟩)
  | seedAdd host port =>
      exact Keeps.ite (h.fail _ _)
        (Keeps.bind hF (h.settings fun _ => ⟨_, _, _, _, _, rfl⟩) fun _ => Keeps.pure hF _)
  | reconnect forceMaster => exact h.reconnect forceMaster
  | update ns flags selector upd => exact h.update ns flags selector upd
  | insertN ns docs => exact h.insertN ns docs
  | insert ns docs => exact h.insert ns docs
  | delete ns flags sel => exact h.delete ns flags sel
  | query ns flags skip ret q sel => exact hsome (h.query (.query ns flags skip ret q sel))
  | getMore ns ret cursorId => exact hsome (h.query (.getMore ns ret cursorId))
  | killCursors cids =>
      exact h.nextPacket (fun _ _ => mongoWireCmdKillCursors_sealed) (Keeps.pure hF _)
        fun p hp => h.packetSend hp _ _
  | custom db command => exact hsome (h.custom db command)
  | ping => exact h.cmdPing
  | isMaster => exact h.cmdIsMaster
  | getLastError db => exact hsome (h.cmdGetLastError db)
  | getLastErrorFull db => exact hsome (h.cmdGetLastErrorFull db)
  | resetError db => exact h.cmdResetError db
  | authenticate db user pw => exact hauth db user pw rfl
  | count db coll q =>
      rw [Command.run, map_eq_pure_bind]
      exact Keeps.bind hF (mongoSyncCmdCount_keeps hF h.errno h.custom db coll q) fun _ =>
        Keeps.pure hF _
  | create db coll flags size max => exact h.create db coll flags size max
  | drop db coll => exact Keeps.bind hF (h.master _ _) fun _ => Keeps.pure hF _
  | «exists» db coll => exact hsome (h.describe db coll)
  | userAdd db user pw roles => exact h.userAdd db user pw roles
  | userRemove db user => exact h.userRemove db user
  | indexCreate host ns key options => exact h.indexCreate host ns key options
  | indexDrop host ns key => exact mongoSyncCmdIndexDrop_keeps hF h.errno h.custom host ns key
  | indexDropAll ns => exact mongoSyncCmdIndexDropName_keeps hF h.errno h.custom ns _

end CallRule

/-! ## The rule of clients -/

/-- What is needed to show that every run keeps `R`, if `R` does not look at the
connection. -/
structure ClientRule (R : World σ → World σ → Prop) : Prop where
  frame : Frame R
  conn : ∀ w c, R w { w with conn := c }
  errno : ∀ w e, R w { w with errno := e }
  event : ∀ w e, (∀ fd p count, e ≠ .send fd p count) → R w { w with log := w.log ++ [e] }
  send : ∀ {p : MongoPacket}, p.Sealed N.order → Keeps R (mongoPacketSend N p)
  recv : Keeps R (mongoPacketRecv N)
  connect : ∀ host port, Keeps R (mongoConnect N host port)
  close : ∀ fd, Keeps R (closeFd N fd)

theorem MongoPacket.IsCommand.sealed {o : ByteOrder} {p : MongoPacket} (h : p.IsCommand o) :
    p.Sealed o := by
  obtain ⟨_, _, _, _, hp⟩ := h
  exact mongoWireCmdCustom_sealed hp

namespace ClientRule

variable {N} {R : World σ → World σ → Prop} (h : ClientRule N R)
include h

theorem setConn (f : MongoSyncConnection → MongoSyncConnection) : Keeps R (setConn f) :=
  fun w => h.conn w (f w.conn)

theorem setErrno (e : Errno) : Keeps R (setErrno e) := fun w => h.errno w e

theorem orErrno {α : Type} (x : Except Errno α) : Keeps R (orErrno x) :=
  fun w => wp_orErrno (fun _ _ => h.frame.refl w) (fun e _ => h.errno w e)

theorem fail {α : Type} (e : Errno) (a : α) : Keeps R (do LibMongo.setErrno e; return a) :=
  Keeps.bind h.frame (h.setErrno e) fun _ => Keeps.pure h.frame _

theorem socket : SocketRule N R where
  frame := h.frame
  errno := h.setErrno
  send hp := h.send hp.sealed
  recv := h.recv
  store _ := h.setConn _
  ping w := h.event w _ fun _ _ _ hsend => by cases hsend
  isMaster w := h.event w _ fun _ _ _ hsend => by cases hsend

/-- What runs on another connection. -/
theorem onConnection {m : Program (World σ) Bool} (hm : Keeps R m) (nc : MongoSyncConnection) :
    Keeps R (onConnection nc m) := by
  intro w
  rw [wp_onConnection]
  have hback : ∀ u, R { w with conn := nc } u → R w { u with conn := w.conn } := fun u hu =>
    h.frame.trans (h.frame.trans (h.conn w nc) hu) (h.conn u w.conn)
  exact wp_mono (hm { w with conn := nc }) (fun _ u hu => hback u hu) (fun u hu => hback u hu)

theorem connectAddr (addr : CString) : Keeps R (connectAddr N addr) := by
  refine Keeps.bind h.frame (h.orErrno _) (fun a => ?_)
  cases a with
  | none => exact Keeps.pure h.frame _
  | some a =>
      refine Keeps.bind h.frame (Keeps.get h.frame) (fun w => ?_)
      refine Keeps.bind h.frame (h.connect _ _) (fun c => ?_)
      cases c with
      | none => exact Keeps.pure h.frame _
      | some c => exact Keeps.pure h.frame _

/-- Strings that were freed are read. -/
theorem dangling {w u : World σ} {ds : List Event} (hu : R w u)
    (hds : ∀ d ∈ ds, d = Event.dangling) : R w { u with log := u.log ++ ds } := by
  induction ds generalizing u with
  | nil =>
      rw [List.append_nil]
      exact hu
  | cons d ds ih =>
      have hd : d = .dangling := hds d List.mem_cons_self
      subst hd
      have hone := h.frame.trans hu (h.event u .dangling fun _ _ _ hsend => by cases hsend)
      have hall := ih hone fun d hd => hds d (List.mem_cons_of_mem _ hd)
      dsimp only at hall
      rwa [List.append_assoc] at hall

theorem connectReplace (new : Option MongoSyncConnection) :
    Keeps R (mongoSyncConnectReplace N new) := by
  cases new with
  | none => exact Keeps.pure h.frame _
  | some new =>
      refine Keeps.bind h.frame (Keeps.get h.frame) (fun w => ?_)
      exact Keeps.ite (Keeps.bind h.frame (h.close _) fun _ => h.setConn _) (h.setConn _)

section Reconnecting

variable {reconnect : Bool → Program (World σ) Bool} (hreconnect : ∀ force, Keeps R (reconnect force))
include hreconnect

theorem authenticateWith (lent : Option Nat) (db user pw : CString) :
    Keeps R (mongoSyncCmdAuthenticateWith N reconnect lent db user pw) :=
  fun _ => mongoSyncCmdAuthenticateWith_wp (h.socket.talk.custom N h.frame.halts (hreconnect _))
    (fun _ _ hu hds => h.dangling hu hds)
    (fun _ _ _ hu hds _ => h.frame.trans (h.dangling hu hds) (h.conn _ _))

theorem reauthenticate : Keeps R (reauthenticate N reconnect) :=
  fun _ => reauthenticate_wp (h.socket.talk.custom N h.frame.halts (hreconnect _))
    (fun _ _ hu hds => h.dangling hu hds)
    (fun _ _ _ hu hds _ => h.frame.trans (h.dangling hu hds) (h.conn _ _))

theorem adopt (force : Bool) (nc : MongoSyncConnection) :
    Keeps R (adopt N reconnect force nc) := by
  refine Keeps.bind h.frame (h.onConnection (hreconnect force) nc) (fun new => ?_)
  refine Keeps.bind h.frame (Keeps.get h.frame) (fun w => ?_)
  refine Keeps.bind h.frame (fun u => h.event u _ fun _ _ _ hsend => by cases hsend) (fun _ => ?_)
  refine Keeps.bind h.frame (h.connectReplace new) (fun _ => ?_)
  exact Keeps.bind h.frame (h.setErrno _) fun _ => h.reauthenticate hreconnect

theorem rule (force : Bool) : ReconnectRule N reconnect force R R R where
  talk := h.socket.talk
  halts := h.frame.halts
  trans := h.frame.trans
  answer := ReconnectRule.answer_of N h.socket.talk h.frame.trans
    (fun _ w => wp_mono (h.socket.cmdPing w) (fun _ _ hu _ => hu) (fun _ _ => trivial))
    (fun _ w => wp_mono (h.socket.cmdIsMaster w) (fun _ _ hu _ => hu) (fun _ _ => trivial))
  refresh _ := h.socket.cmdIsMaster
  candidate addr w := by
    refine wp_mono (h.connectAddr addr w) (fun c u hu => ?_) (fun _ hu => hu)
    cases c with
    | none => exact hu
    | some nc => exact wp_trans h.frame hu (h.adopt hreconnect force nc u)

end Reconnecting

/-- Reconnecting keeps it. -/
theorem reconnect (fuel : Nat) (force : Bool) : Keeps R (mongoSyncReconnect N fuel force) := by
  induction fuel generalizing force with
  | zero => exact Keeps.throw h.frame _
  | succ fuel ih =>
      intro w
      refine wp_mono ((h.rule ih force).call N w) (fun ok _ hu => ?_) (fun _ hu => hu)
      cases ok with
      | false => exact hu
      | true => exact hu

/-- The calls on a connection keep it. -/
theorem calls (fuel : Nat) : CallRule N fuel R where
  toSocketRule := h.socket
  sendSealed := h.send
  reconnect := h.reconnect fuel
  settings _ := h.setConn _

theorem command (fuel : Nat) (c : Command) : Keeps R (c.run N fuel) :=
  (h.calls fuel).command c fun db user pw _ =>
    h.authenticateWith (h.reconnect fuel) none db user pw

/-! ### Opening a connection -/

theorem syncConnect (host : CString) (port : Int) (slaveok : Bool) :
    Keeps R (mongoSyncConnect N host port slaveok) := by
  refine Keeps.bind h.frame (h.connect host port) (fun c => ?_)
  cases c with
  | none => exact Keeps.pure h.frame _
  | some c => exact Keeps.pure h.frame _

section Recovery

variable {reconnect : Bool → Program (World σ) Bool} (hreconnect : ∀ force, Keeps R (reconnect force))
  (id : Nat) (slaveok : Bool) (cache : RecoveryCache)
include hreconnect

theorem recoveryAdopt (c : MongoSyncConnection) :
    Keeps R (recoveryCacheAdopt reconnect slaveok cache c) := by
  refine Keeps.ite (Keeps.pure h.frame _) ?_
  exact Keeps.bind h.frame (h.onConnection (hreconnect _) c) fun _ => Keeps.pure h.frame _

/-- A connection to a host that is adopted if it can be opened. -/
theorem recoveryTry {host : CString} {port : Int}
    {next : Program (World σ) (Option MongoSyncConnection × RecoveryCache)} (hnext : Keeps R next) :
    Keeps R (do
      match ← recoveryCacheConnect N id slaveok cache host port with
      | none => next
      | some c => recoveryCacheAdopt reconnect slaveok cache c) := by
  refine Keeps.bind h.frame (Keeps.bind h.frame (h.connect host port) fun c => ?_) fun c => ?_
  · cases c with
    | none => exact Keeps.pure h.frame _
    | some c => exact Keeps.pure h.frame _
  · cases c with
    | none => exact hnext
    | some c => exact h.recoveryAdopt hreconnect slaveok cache c

theorem recoveryPick (addrs : List CString) :
    Keeps R (recoveryCachePickConnectFromList N reconnect id slaveok cache addrs) := by
  induction addrs with
  | nil => exact Keeps.pure h.frame _
  | cons addr addrs ih =>
      refine Keeps.bind h.frame (h.orErrno _) (fun a => ?_)
      cases a with
      | none => exact ih
      | some a => exact h.recoveryTry hreconnect id slaveok cache ih

theorem recover : Keeps R (mongoSyncConnectRecoveryCache N reconnect id slaveok cache) := by
  have hlists : Keeps R (recoveryCacheLists N reconnect id slaveok cache) := by
    refine Keeps.bind h.frame (h.recoveryPick hreconnect id slaveok cache _) (fun found => ?_)
    obtain ⟨c, cache'⟩ := found
    cases c with
    | none => exact h.recoveryPick hreconnect id slaveok cache' _
    | some c => exact Keeps.pure h.frame _
  rw [mongoSyncConnectRecoveryCache]
  cases cache.rs.primary with
  | none => exact hlists
  | some addr =>
      refine Keeps.bind h.frame (h.orErrno _) (fun a => ?_)
      cases a with
      | none => exact hlists
      | some a => exact h.recoveryTry hreconnect id slaveok cache hlists

end Recovery

/-! ### Runs -/

theorem run {fuel : Nat} {w w' : World σ} (hrun : ClientRun N fuel w w') : R w w' := by
  induction hrun with
  | start => exact h.frame.refl w
  | @command v v' c ok _ hexec ih =>
      have hstep := wp_ok (h.command fuel c v) hexec
      exact h.frame.trans ih hstep
  | @connect v v' host port slaveok c _ hexec ih =>
      have hstep := wp_ok (h.syncConnect host port slaveok v) hexec
      exact h.frame.trans (h.frame.trans ih hstep) (h.conn v' c)
  | @recover v v' id slaveok cache cache' c _ hexec ih =>
      have hstep := wp_ok (h.recover (h.reconnect fuel) id slaveok cache v) hexec
      exact h.frame.trans (h.frame.trans ih hstep) (h.conn v' c)

theorem ends {fuel : Nat} {w w' : World σ} (hrun : ClientRun.Ends N fuel w w') : R w w' := by
  rcases hrun with hrun | ⟨v, c, e, hrun, hexec⟩
  · exact h.run hrun
  · exact h.frame.trans (h.run hrun) (wp_error (h.command fuel c v) hexec)

end ClientRule

end LibMongo
