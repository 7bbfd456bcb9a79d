import LibMongo.Net.Hosts
import LibMongo.Sync.Pairing

/-!
# Commands on two hosts

The functions of `mongo-sync.c` on a little-endian host and on a big-endian one.  Each of
them returns the same on both and sends the same bytes, as long as no packet is handed out
whose id follows on one that is not mirrored.
-/

namespace LibMongo

open Bytes Program

variable {σ : Type} (N : Net σ)

/-! ## What the hosts agree on -/

namespace World.Twin

variable {w w' : World σ} (h : w.Twin w')
include h

theorem fd : w'.conn.fd = w.conn.fd := by
  rw [h.conn]
  rfl

theorem slaveok : w'.conn.slaveok = w.conn.slaveok := by
  rw [h.conn]
  rfl

theorem safeMode : w'.conn.safeMode = w.conn.safeMode := by
  rw [h.conn]
  rfl

theorem autoReconnect : w'.conn.autoReconnect = w.conn.autoReconnect := by
  rw [h.conn]
  rfl

theorem lastError : w'.conn.lastError = w.conn.lastError := by
  rw [h.conn]
  rfl

theorem maxInsertSize : w'.conn.maxInsertSize = w.conn.maxInsertSize := by
  rw [h.conn]
  rfl

theorem rs : w'.conn.rs = w.conn.rs := by
  rw [h.conn]
  rfl

theorem auth : w'.conn.auth = w.conn.auth := by
  rw [h.conn]
  rfl

theorem stored : w'.conn.stored = w.conn.stored := by
  rw [h.conn]
  rfl

end World.Twin

/-- Programs that send a packet.  In a steady run one whose id follows on an id that is not
mirrored is not sent. -/
structure Sends (m m' : MongoPacket → Program (World σ) Bool) : Prop where
  steady : ∀ p, Alike Event.Steady (m p) (m' p.turned)
  unsteady : ∀ p p', ¬ Mirrored (p.header.id - 1) →
    Twins (hostFrame Event.Steady) (fun a a' => a = false ∧ a' = false) (m p) (m' p')

/-! ## Sending -/

section Sending

variable {ensureConn ensureConn' reconnect reconnect' : Bool → Program (World σ) Bool}

/-- A packet is handed out first. -/
theorem Sends.first {f f' : MongoPacket → Bool → Program (World σ) Bool}
    (hf : ∀ p sent, Alike Event.Steady (f p sent) (f' p.turned sent)) :
    Sends (fun p => mongoPacketSend (N.on .little) p >>= f p)
      (fun p => mongoPacketSend (N.on .big) p >>= f' p) where
  steady p := (mongoPacketSend_alike N p).bind (hf p)
  unsteady p _ hp := Twins.never_bind (mongoPacketSend_alike N p).keeps
    (fun sent => (hf p sent).keeps) (mongoPacketSend_never _ hp)

theorem sendRound_sends
    (hreconnect : ∀ force, Alike Event.Steady (reconnect force) (reconnect' force))
    (forceMaster autoReconnect out : Bool) (again again' : MongoPacket → Program (World σ) Bool)
    (hagain : ∀ p, Alike Event.Steady (again p) (again' p.turned)) :
    Sends
      (fun p => sendRound (N.on .little) reconnect p forceMaster autoReconnect out (again p))
      (fun p => sendRound (N.on .big) reconnect' p forceMaster autoReconnect out (again' p)) := by
  refine Sends.first N fun p sent => ?_
  refine Twins.ite Iff.rfl (fun _ => .pure rfl) (fun _ => ?_)
  refine Twins.get_bind fun w w' h => ?_
  rw [World.Twin.autoReconnect h, World.Twin.errno h]
  refine Twins.ite Iff.rfl (fun _ => ?_) (fun _ => ?_) w w' h
  · exact fail_alike _ _
  · refine (hreconnect forceMaster).bind fun connected => ?_
    exact Twins.ite Iff.rfl (fun _ => hagain p) (fun _ => fail_alike _ _)

theorem sendLoop_sends
    (hreconnect : ∀ force, Alike Event.Steady (reconnect force) (reconnect' force))
    (forceMaster autoReconnect : Bool) :
    Sends (fun p => sendLoop (N.on .little) reconnect p forceMaster autoReconnect)
      (fun p => sendLoop (N.on .big) reconnect' p forceMaster autoReconnect) := by
  have hlast := sendRound_sends N hreconnect forceMaster autoReconnect true
    (fun _ => return false) (fun _ => return false) fun _ => .pure rfl
  exact sendRound_sends N hreconnect forceMaster autoReconnect false _ _ hlast.steady

theorem mongoSyncPacketSendWith_sends
    (hensure : ∀ force, Alike Event.Steady (ensureConn force) (ensureConn' force))
    (hreconnect : ∀ force, Alike Event.Steady (reconnect force) (reconnect' force))
    (forceMaster autoReconnect : Bool) :
    Sends
      (fun p => mongoSyncPacketSendWith (N.on .little) ensureConn reconnect p forceMaster
        autoReconnect)
      (fun p => mongoSyncPacketSendWith (N.on .big) ensureConn' reconnect' p forceMaster
        autoReconnect) := by
  have hready : Alike Event.Steady (if forceMaster then ensureConn forceMaster else pure true)
      (if forceMaster then ensureConn' forceMaster else pure true) :=
    Twins.ite Iff.rfl (fun _ => hensure forceMaster) (fun _ => .pure rfl)
  have hloop := sendLoop_sends N hreconnect forceMaster autoReconnect
  constructor
  · intro p
    refine hready.bind fun ready => ?_
    exact Twins.ite Iff.rfl (fun _ => hloop.steady p) (fun _ => .pure rfl)
  · intro p p' hp
    refine hready.bind fun ready => ?_
    exact Twins.ite Iff.rfl (fun _ => hloop.unsteady p p' hp) (fun _ => .pure ⟨rfl, rfl⟩)

end Sending

/-- A packet is built under the next id and sent, and the run goes on if it could be sent. -/
theorem Stamps.sent {build : ByteOrder → BitVec 32 → Except Errno MongoPacket} (h : Stamps build)
    {m m' : MongoPacket → Program (World σ) Bool} (hm : Sends m m') {α α' : Type}
    {V : α → α' → Prop} {f : Option MongoPacket → Program (World σ) α}
    {f' : Option MongoPacket → Program (World σ) α'} {g : Bool → Program (World σ) α}
    {g' : Bool → Program (World σ) α'} (hf : ∀ p, f (some p) = m p >>= g)
    (hf' : ∀ p, f' (some p) = m' p >>= g') {w w' : World σ} (hw : w.Twin w')
    (hnone : Twins (hostFrame Event.Steady) V (f none) (f' none))
    (hfalse : Twins (hostFrame Event.Steady) V (g false) (g' false))
    (hgrows : Keeps World.Grows (g true))
    (htrue : w'.conn.requestId = w.conn.requestId →
      Twins (hostFrame Event.Steady) V (g true) (g' true)) :
    TwinsAt (hostFrame Event.Steady) V (orErrno (build .little (w.conn.requestId + 1)) >>= f)
      (orErrno (build .big (w'.conn.requestId + 1)) >>= f') w w' := by
  refine h.numbered hw hnone (fun heq p => ?_) (fun p p' hp => ?_)
  · rw [hf, hf']
    refine (hm.steady p).bind fun sent => ?_
    cases sent with
    | false => exact hfalse
    | true => exact htrue heq
  · rw [hf, hf']
    refine (hm.unsteady p p' hp).bind_of (fun sent => ?_) ?_
    · cases sent with
      | false => exact hfalse.keeps
      | true => exact hgrows
    · rintro _ _ ⟨rfl, rfl⟩
      exact hfalse

/-! ## Receiving -/

theorem mongoSyncPacketRecv_matches {good : Event → Prop} (rid flags : BitVec 32) :
    Matches good (Option.map MongoPacket.turnedLength)
      (mongoSyncPacketRecv (N.on .little) rid flags)
      (mongoSyncPacketRecv (N.on .big) rid flags) := by
  refine (mongoPacketRecv_matches N).bind fun p => ?_
  cases p with
  | none => exact .pure rfl
  | some p =>
      refine Twins.ite Iff.rfl (fun _ => (setErrno_alike _).bind fun _ => .pure rfl) (fun _ => ?_)
      refine (readOrErrno_alike (mongoWireReplyPacketGetHeader (some p))).bind fun rh => ?_
      cases rh with
      | none => exact .pure rfl
      | some rh =>
          refine Twins.ite Iff.rfl (fun _ => (setErrno_alike _).bind fun _ => .pure rfl)
            (fun _ => ?_)
          exact Twins.ite Iff.rfl (fun _ => (setErrno_alike _).bind fun _ => .pure rfl)
            (fun _ => .pure rfl)

theorem storeError_alike {good : Event → Prop} (err : Option CString) :
    Alike good (setConn (σ := σ) fun c => { c with lastError := err })
      (setConn fun c => { c with lastError := err }) :=
  setConn_alike fun _ => rfl

theorem mongoSyncPacketCheckError_matches {good : Event → Prop} (p : Option MongoPacket)
    (checkOk : Bool) :
    Matches good (Option.map MongoPacket.turnedLength)
      (mongoSyncPacketCheckError (σ := σ) p checkOk)
      (mongoSyncPacketCheckError (p.map MongoPacket.turnedLength) checkOk) := by
  cases p with
  | none => exact .pure rfl
  | some p =>
      refine (readOrErrno_alike (mongoWireReplyPacketGetNthDocument (some p) 1)).bind fun b => ?_
      cases b with
      | none => exact (setErrno_alike _).bind fun _ => .pure rfl
      | some b =>
          refine Twins.ite Iff.rfl (fun _ => ?_) (fun _ => ?_)
          · refine (ofExcept_alike (mongoSyncCheckOk (bsonFinish b).2)).bind fun x => ?_
            refine Twins.ite Iff.rfl (fun _ => (setErrno_alike _).bind fun _ => .pure rfl)
              (fun _ => ?_)
            refine (storeError_alike none).bind fun _ => ?_
            refine (readOrErrno_alike (mongoSyncGetError (bsonFinish b).2)).bind fun err => ?_
            cases err with
            | none => exact (setErrno_alike _).bind fun _ => .pure rfl
            | some err =>
                refine (storeError_alike err).bind fun _ => ?_
                exact (setErrno_alike _).bind fun _ => .pure rfl
          · refine (storeError_alike none).bind fun _ => ?_
            refine (readOrErrno_alike (mongoSyncGetError (bsonFinish b).2)).bind fun err => ?_
            cases err with
            | none => exact .pure rfl
            | some err => exact (storeError_alike err).bind fun _ => .pure rfl

/-! ## Commands to a database -/

theorem mongoSyncCmdCustomWith_matches
    {ensureConn ensureConn' reconnect reconnect' : Bool → Program (World σ) Bool}
    (hensure : ∀ force, Alike Event.Steady (ensureConn force) (ensureConn' force))
    (hreconnect : ∀ force, Alike Event.Steady (reconnect force) (reconnect' force))
    (db : Option CString) (command : Option Bson) (checkConn forceMaster : Bool) :
    Matches Event.Steady (Option.map MongoPacket.turnedLength)
      (mongoSyncCmdCustomWith (N.on .little) ensureConn reconnect db command checkConn forceMaster)
      (mongoSyncCmdCustomWith (N.on .big) ensureConn' reconnect' db command checkConn
        forceMaster) := by
  refine Twins.get_bind fun w w' h => ?_
  have hflag : slaveFlag w'.conn = slaveFlag w.conn := by
    rw [slaveFlag, World.Twin.slaveok h]
    rfl
  rw [hflag]
  have hreceive : ∀ rid, Matches Event.Steady (Option.map MongoPacket.turnedLength)
      (mongoSyncPacketRecv (N.on .little) rid replyFlagQueryFail >>= fun p =>
        mongoSyncPacketCheckError p true)
      (mongoSyncPacketRecv (N.on .big) rid replyFlagQueryFail >>= fun p =>
        mongoSyncPacketCheckError p true) := fun rid =>
    (mongoSyncPacketRecv_matches N rid _).bind fun p => mongoSyncPacketCheckError_matches p true
  refine (mongoWireCmdCustom_stamps db (slaveFlag w.conn) command).sent
    (mongoSyncPacketSendWith_sends N hensure hreconnect forceMaster checkConn)
    (fun _ => rfl) (fun _ => rfl) h ?_ ?_ ?_ ?_
  · exact .pure rfl
  · exact .pure rfl
  · exact (hreceive _).keeps
  · intro heq
    rw [heq]
    exact hreceive _

theorem mongoSyncCmdCustomBare_matches (db : Option CString) (command : Option Bson) :
    Matches Event.Steady (Option.map MongoPacket.turnedLength)
      (mongoSyncCmdCustomBare (N.on .little) db command)
      (mongoSyncCmdCustomBare (N.on .big) db command) :=
  mongoSyncCmdCustomWith_matches N (fun _ => .throw _) (fun _ => .throw _) db command false false

theorem mongoSyncCmdPing_alike :
    Alike Event.Steady (mongoSyncCmdPing (N.on .little)) (mongoSyncCmdPing (N.on .big)) := by
  refine (mongoSyncCmdCustomBare_matches N _ _).bind fun p => ?_
  cases p with
  | none => exact .pure rfl
  | some p =>
      refine (setErrno_alike _).bind fun _ => ?_
      refine Twins.get_bind fun w w' h => ?_
      rw [World.Twin.fd h]
      refine Twins.bind (emit_alike rfl) (fun _ => ?_) w w' h
      exact .pure rfl

theorem mongoSyncCmdIsMaster_alike :
    Alike Event.Steady (mongoSyncCmdIsMaster (N.on .little))
      (mongoSyncCmdIsMaster (N.on .big)) := by
  refine (mongoSyncCmdCustomBare_matches N _ _).bind fun p => ?_
  cases p with
  | none => exact .pure rfl
  | some p =>
      refine (readOrErrno_alike (mongoWireReplyPacketGetNthDocument (some p) 1)).bind fun res => ?_
      cases res with
      | none => exact .pure rfl
      | some res =>
          refine (ofExcept_alike _).bind fun ismaster => ?_
          cases ismaster with
          | none => exact fail_alike _ _
          | some b =>
              refine (ofExcept_alike _).bind fun primary => ?_
              refine (ofExcept_alike _).bind fun hosts => ?_
              refine Twins.bind (setConn_alike fun _ => rfl) fun _ => ?_
              refine (setErrno_alike _).bind fun _ => ?_
              refine Twins.ite Iff.rfl (fun _ => .pure rfl) (fun _ => ?_)
              refine Twins.get_bind fun w w' h => ?_
              rw [World.Twin.fd h]
              refine Twins.bind (emit_alike rfl) (fun _ => ?_) w w' h
              exact .pure rfl

/-! ## The last error -/

/-- The text of the last `errno` is stored. -/
theorem storeErrno_alike {α : Type} (a : α) :
    Alike Event.Steady (do let w ← get; setLastError (N.on .little) w.errno; return a)
      (do let w ← get; setLastError (N.on .big) w.errno; return a) := by
  refine Twins.get_bind fun w w' h => ?_
  rw [World.Twin.errno h]
  refine Twins.bind (storeError_alike (some (N.strerror w.errno))) (fun _ => ?_) w w' h
  exact .pure rfl

theorem mongoSyncCmdGetLastErrorFull_alike (db : Option CString) :
    Alike Event.Steady (mongoSyncCmdGetLastErrorFull (N.on .little) db)
      (mongoSyncCmdGetLastErrorFull (N.on .big) db) := by
  refine (mongoSyncCmdCustomBare_matches N _ _).bind fun p => ?_
  cases p with
  | none => exact storeErrno_alike N none
  | some p =>
      refine (readOrErrno_alike (mongoWireReplyPacketGetNthDocument (some p) 1)).bind
        fun error => ?_
      cases error with
      | none => exact storeErrno_alike N none
      | some error => exact .pure rfl

theorem mongoSyncCmdGetLastError_alike (db : Option CString) :
    Alike Event.Steady (mongoSyncCmdGetLastError (N.on .little) db)
      (mongoSyncCmdGetLastError (N.on .big) db) := by
  refine (mongoSyncCmdGetLastErrorFull_alike N db).bind fun errBson => ?_
  cases errBson with
  | none => exact .pure rfl
  | some errBson =>
      refine (readOrErrno_alike (mongoSyncGetError errBson)).bind fun error => ?_
      cases error with
      | none => exact storeErrno_alike N none
      | some error =>
          cases error with
          | none =>
              refine Twins.get_bind fun w w' h => ?_
              rw [World.Twin.lastError h]
              refine Twins.pure ?_ w w' h
              rfl
          | some error => exact (storeError_alike _).bind fun _ => .pure rfl

theorem mongoSyncCmdResetError_alike (db : Option CString) :
    Alike Event.Steady (mongoSyncCmdResetError (N.on .little) db)
      (mongoSyncCmdResetError (N.on .big) db) := by
  refine (storeError_alike none).bind fun _ => ?_
  refine (mongoSyncCmdCustomBare_matches N _ _).bind fun p => ?_
  cases p with
  | none => exact .pure rfl
  | some p => exact .pure rfl

theorem mongoSyncCmdVerifyResult_alike (ns : Option CString) :
    Alike Event.Steady (mongoSyncCmdVerifyResult (N.on .little) ns)
      (mongoSyncCmdVerifyResult (N.on .big) ns) := by
  cases ns with
  | none => exact .pure rfl
  | some ns =>
      refine Twins.get_bind fun w w' h => ?_
      rw [World.Twin.safeMode h]
      refine Twins.ite Iff.rfl (fun _ => ?_) (fun _ => ?_) w w' h
      · exact .pure rfl
      refine (mongoSyncCmdGetLastError_alike N (some (nsDb ns))).bind fun error => ?_
      cases error with
      | none => exact .pure rfl
      | some error => exact .pure rfl

/-! ## Connections -/

theorem mongoSyncConnect_matches {good : Event → Prop} (address : CString) (port : Int)
    (slaveok : Bool) :
    Matches good (Option.map MongoSyncConnection.turned)
      (mongoSyncConnect (N.on .little) address port slaveok)
      (mongoSyncConnect (N.on .big) address port slaveok) := by
  refine (mongoConnect_matches N address port).bind fun c => ?_
  cases c with
  | none => exact .pure rfl
  | some c => exact .pure rfl

theorem connectAddr_matches {good : Event → Prop} (addr : CString) :
    Matches good (Option.map MongoSyncConnection.turned) (connectAddr (N.on .little) addr)
      (connectAddr (N.on .big) addr) := by
  refine (orErrno_alike (mongoUtilParseAddr addr)).bind fun parsed => ?_
  cases parsed with
  | none => exact .pure rfl
  | some x =>
      refine Twins.get_bind fun w w' h => ?_
      rw [World.Twin.slaveok h]
      exact mongoSyncConnect_matches N x.1 x.2 w.conn.slaveok w w' h

/-- What is taken over has the same id on both hosts. -/
theorem MongoSyncConnection.takeOver_turned (old new : MongoSyncConnection) :
    old.turned.takeOver new.turned = (old.takeOver new).turned := by
  have hid : (old.takeOver new).turned
      = { old.takeOver new with requestId := ByteOrder.big.le32 (-1) } := rfl
  rw [hid, le32_big_neg_one]
  rfl

theorem mongoSyncConnectReplace_alike {good : Event → Prop} (new : Option MongoSyncConnection) :
    Alike good (mongoSyncConnectReplace (N.on .little) new)
      (mongoSyncConnectReplace (N.on .big) (new.map MongoSyncConnection.turned)) := by
  cases new with
  | none => exact .pure rfl
  | some new =>
      refine Twins.get_bind fun w w' h => ?_
      rw [World.Twin.fd h]
      have htake : Alike good (setConn (σ := σ) fun old => old.takeOver new)
          (setConn fun old => old.takeOver new.turned) :=
        setConn_alike fun c => c.takeOver_turned new
      refine Twins.ite Iff.rfl (fun _ => ?_) (fun _ => htake) w w' h
      exact (closeFd_alike N _).bind fun _ => htake

theorem onConnection_matches {good : Event → Prop} {m m' : Program (World σ) Bool}
    (hm : Alike good m m') (nc : MongoSyncConnection) :
    Matches good (Option.map MongoSyncConnection.turned) (onConnection nc m)
      (onConnection nc.turned m') := by
  intro w w' h
  have hrun := hm { w with conn := nc } { w' with conn := nc.turned }
    ⟨h.net, rfl, h.errno, h.nextFd, h.log⟩
  refine ⟨hrun.grows, fun hsteady => ?_⟩
  obtain ⟨htwin, hmatched⟩ := hrun.same hsteady
  rw [exec_onConnection, exec_onConnection]
  refine ⟨⟨htwin.net, h.conn, htwin.errno, htwin.nextFd, htwin.log⟩, ?_⟩
  cases hr : (exec m { w with conn := nc }).1 with
  | error e =>
      cases hr' : (exec m' { w' with conn := nc.turned }).1 with
      | error e' =>
          rw [hr, hr'] at hmatched
          exact hmatched
      | ok ok' =>
          rw [hr, hr'] at hmatched
          cases hmatched
  | ok ok =>
      cases hr' : (exec m' { w' with conn := nc.turned }).1 with
      | error e' =>
          rw [hr, hr'] at hmatched
          cases hmatched
      | ok ok' =>
          rw [hr, hr'] at hmatched
          cases hmatched
          cases ok with
          | false => rfl
          | true => exact congrArg some htwin.conn

/-! ## Functions that may reconnect -/

section Reconnecting

variable {reconnect reconnect' : Bool → Program (World σ) Bool}
  (hreconnect : ∀ force, Alike Event.Steady (reconnect force) (reconnect' force))
include hreconnect

theorem ensureMaster_alike :
    Alike Event.Steady (ensureMaster (N.on .little) reconnect)
      (ensureMaster (N.on .big) reconnect') := by
  refine (setErrno_alike _).bind fun _ => ?_
  refine (mongoSyncCmdIsMaster_alike N).bind fun master => ?_
  refine Twins.ite Iff.rfl (fun _ => .pure rfl) (fun _ => ?_)
  refine Twins.get_bind fun w w' h => ?_
  rw [World.Twin.errno h, World.Twin.autoReconnect h]
  refine Twins.ite Iff.rfl (fun _ => ?_) (fun _ => ?_) w w' h
  · exact .pure rfl
  · exact Twins.ite Iff.rfl (fun _ => fail_alike _ _) (fun _ => hreconnect true)

theorem mongoCmdEnsureConn_alike (forceMaster : Bool) :
    Alike Event.Steady (mongoCmdEnsureConn (N.on .little) reconnect forceMaster)
      (mongoCmdEnsureConn (N.on .big) reconnect' forceMaster) := by
  refine Twins.get_bind fun w w' h => ?_
  rw [World.Twin.slaveok h]
  refine Twins.ite Iff.rfl (fun _ => ?_) (fun _ => ?_) w w' h
  · exact ensureMaster_alike N hreconnect
  · refine (setErrno_alike _).bind fun _ => ?_
    refine (mongoSyncCmdPing_alike N).bind fun ping => ?_
    refine Twins.ite Iff.rfl (fun _ => fail_alike _ _) (fun _ => ?_)
    refine Twins.get_bind fun w w' h => ?_
    rw [World.Twin.errno h, World.Twin.autoReconnect h]
    refine Twins.ite Iff.rfl (fun _ => ?_) (fun _ => ?_) w w' h
    · exact .pure rfl
    · refine Twins.ite Iff.rfl (fun _ => fail_alike _ _) (fun _ => ?_)
      refine (hreconnect false).bind fun connected => ?_
      exact Twins.ite Iff.rfl (fun _ => fail_alike _ _) (fun _ => fail_alike _ _)

theorem mongoCmdVerifySlaveok_alike :
    Alike Event.Steady (mongoCmdVerifySlaveok (N.on .little) reconnect)
      (mongoCmdVerifySlaveok (N.on .big) reconnect') := by
  refine Twins.get_bind fun w w' h => ?_
  rw [World.Twin.slaveok h, World.Twin.safeMode h]
  refine Twins.ite Iff.rfl (fun _ => ?_) (fun _ => ?_) w w' h
  · exact .pure rfl
  · exact ensureMaster_alike N hreconnect

theorem mongoSyncPacketSend_sends (forceMaster autoReconnect : Bool) :
    Sends (fun p => mongoSyncPacketSend (N.on .little) reconnect p forceMaster autoReconnect)
      (fun p => mongoSyncPacketSend (N.on .big) reconnect' p forceMaster autoReconnect) :=
  mongoSyncPacketSendWith_sends N (mongoCmdEnsureConn_alike N hreconnect) hreconnect forceMaster
    autoReconnect

theorem mongoSyncCmdCustom_matches (db : Option CString) (command : Option Bson) :
    Matches Event.Steady (Option.map MongoPacket.turnedLength)
      (mongoSyncCmdCustom (N.on .little) reconnect db command)
      (mongoSyncCmdCustom (N.on .big) reconnect' db command) :=
  mongoSyncCmdCustomWith_matches N (mongoCmdEnsureConn_alike N hreconnect) hreconnect db command
    true false

omit hreconnect in
theorem readString_alike {good : Event → Prop} (lent : Option Nat) (s : CString) :
    Alike good (readString (N.on .little) lent s) (readString (N.on .big) lent s) := by
  refine Twins.get_bind fun w w' h => ?_
  rw [World.Twin.stored h, World.Twin.net h]
  refine Twins.ite Iff.rfl (fun _ => ?_) (fun _ => ?_) w w' h
  · exact .pure rfl
  · exact (emit_alike rfl).bind fun _ => .pure rfl

omit hreconnect in
theorem storeCredentials_alike {good : Event → Prop} (lent : Option Nat) (db user pw : CString) :
    Alike good (storeCredentials (N.on .little) lent db user pw)
      (storeCredentials (N.on .big) lent db user pw) := by
  refine (readString_alike N lent db).bind fun db => ?_
  refine (readString_alike N lent user).bind fun user => ?_
  refine (readString_alike N lent pw).bind fun pw => ?_
  exact setConn_alike fun c => rfl

theorem mongoSyncCmdAuthenticateWith_alike (lent : Option Nat) (db user pw : CString) :
    Alike Event.Steady (mongoSyncCmdAuthenticateWith (N.on .little) reconnect lent db user pw)
      (mongoSyncCmdAuthenticateWith (N.on .big) reconnect' lent db user pw) := by
  refine (mongoSyncCmdCustom_matches N hreconnect (some db) _).bind fun p => ?_
  cases p with
  | none => exact .pure rfl
  | some p =>
      refine (readOrErrno_alike (mongoWireReplyPacketGetNthDocument (some p) 1)).bind fun b => ?_
      cases b with
      | none => exact .pure rfl
      | some b =>
          refine (ofExcept_alike (replyNonce (bsonFinish b).2)).bind fun nonce => ?_
          cases nonce with
          | none => exact fail_alike _ _
          | some nonce =>
              refine (readString_alike N lent user).bind fun user' => ?_
              refine (readString_alike N lent pw).bind fun pw' => ?_
              refine (readString_alike N lent db).bind fun db' => ?_
              refine (mongoSyncCmdCustom_matches N hreconnect (some db') _).bind fun p' => ?_
              cases p' with
              | none => exact .pure rfl
              | some p' =>
                  exact (storeCredentials_alike N lent db user pw).bind fun _ => .pure rfl

/-! ## One call of reconnect -/

theorem reauthenticate_alike :
    Alike Event.Steady (reauthenticate (N.on .little) reconnect)
      (reauthenticate (N.on .big) reconnect') := by
  refine Twins.get_bind fun w w' h => ?_
  rw [World.Twin.auth h, World.Twin.stored h]
  cases w.conn.auth with
  | mk db user pw =>
      cases db with
      | none => exact Twins.pure rfl w w' h
      | some db =>
          cases user with
          | none => exact Twins.pure rfl w w' h
          | some user =>
              cases pw with
              | none => exact Twins.pure rfl w w' h
              | some pw =>
                  refine Twins.bind (mongoSyncCmdAuthenticateWith_alike N hreconnect
                    (some w.conn.stored) db user pw) (fun _ => ?_) w w' h
                  exact .pure rfl

theorem adopt_alike (forceMaster : Bool) (nc : MongoSyncConnection) :
    Alike Event.Steady (adopt (N.on .little) reconnect forceMaster nc)
      (adopt (N.on .big) reconnect' forceMaster nc.turned) := by
  refine (onConnection_matches (hreconnect forceMaster) nc).bind fun new => ?_
  refine Twins.get_bind fun w w' h => ?_
  rw [World.Twin.errno h]
  refine Twins.bind (emit_alike rfl) (fun _ => ?_) w w' h
  refine (mongoSyncConnectReplace_alike N new).bind fun _ => ?_
  exact (setErrno_alike _).bind fun _ => reauthenticate_alike N hreconnect

theorem reconnectVia_alike (forceMaster : Bool) (addrs : List CString) :
    Alike Event.Steady (reconnectVia (N.on .little) reconnect forceMaster addrs)
      (reconnectVia (N.on .big) reconnect' forceMaster addrs) := by
  induction addrs with
  | nil => exact .pure rfl
  | cons addr addrs ih =>
      refine (connectAddr_matches N addr).bind fun nc => ?_
      cases nc with
      | none => exact ih
      | some nc => exact (adopt_alike N hreconnect forceMaster nc).bind fun _ => .pure rfl

theorem reconnectCandidates_alike (forceMaster : Bool) :
    Alike Event.Steady (reconnectCandidates (N.on .little) reconnect forceMaster)
      (reconnectCandidates (N.on .big) reconnect' forceMaster) := by
  refine Twins.get_bind fun w w' h => ?_
  rw [World.Twin.rs h]
  refine Twins.bind (reconnectVia_alike N hreconnect forceMaster _) (fun primary => ?_) w w' h
  refine Twins.ite Iff.rfl (fun _ => .pure rfl) (fun _ => ?_)
  refine (reconnectVia_alike N hreconnect forceMaster _).bind fun host => ?_
  refine Twins.ite Iff.rfl (fun _ => .pure rfl) (fun _ => ?_)
  refine (reconnectVia_alike N hreconnect forceMaster _).bind fun seed => ?_
  exact Twins.ite Iff.rfl (fun _ => .pure rfl) (fun _ => fail_alike _ _)

theorem mongoSyncReconnectWith_alike (forceMaster : Bool) :
    Alike Event.Steady (mongoSyncReconnectWith (N.on .little) reconnect forceMaster)
      (mongoSyncReconnectWith (N.on .big) reconnect' forceMaster) := by
  have hcandidates := reconnectCandidates_alike N hreconnect forceMaster
  refine (mongoSyncCmdPing_alike N).bind fun ping => ?_
  refine Twins.ite Iff.rfl (fun _ => ?_) (fun _ => hcandidates)
  refine Twins.ite Iff.rfl (fun _ => .pure rfl) (fun _ => ?_)
  refine (mongoSyncCmdIsMaster_alike N).bind fun master => ?_
  refine Twins.ite Iff.rfl (fun _ => .pure rfl) (fun _ => ?_)
  exact (mongoSyncCmdIsMaster_alike N).bind fun _ => hcandidates

end Reconnecting

theorem mongoSyncReconnect_alike (fuel : Nat) (forceMaster : Bool) :
    Alike Event.Steady (mongoSyncReconnect (N.on .little) fuel forceMaster)
      (mongoSyncReconnect (N.on .big) fuel forceMaster) := by
  induction fuel generalizing forceMaster with
  | zero => exact .throw _
  | succ fuel ih => exact mongoSyncReconnectWith_alike N ih forceMaster

/-! ## Writes -/

section Operations

variable {reconnect reconnect' : Bool → Program (World σ) Bool}
  (hreconnect : ∀ force, Alike Event.Steady (reconnect force) (reconnect' force))

/-- The packet of a command is built under the next id. -/
theorem Stamps.nextPacket {build : ByteOrder → BitVec 32 → Except Errno MongoPacket}
    (h : Stamps build) {m m' : MongoPacket → Program (World σ) Bool} (hm : Sends m m')
    {f f' : Option MongoPacket → Program (World σ) Bool} {g g' : Bool → Program (World σ) Bool}
    (hf : ∀ p, f (some p) = m p >>= g) (hf' : ∀ p, f' (some p) = m' p >>= g')
    (hnone : Alike Event.Steady (f none) (f' none))
    (hg : ∀ sent, Alike Event.Steady (g sent) (g' sent)) :
    Alike Event.Steady (LibMongo.nextPacket (build .little) >>= f)
      (LibMongo.nextPacket (build .big) >>= f') := by
  rw [LibMongo.nextPacket, LibMongo.nextPacket, bind_assoc, bind_assoc]
  refine Twins.get_bind fun w w' hw => ?_
  exact h.sent hm hf hf' hw hnone (hg false) (hg true).keeps fun _ => hg true

include hreconnect

theorem mongoSyncCmdUpdate_alike (ns : Option CString) (flags : BitVec 32)
    (selector update : Option Bson) :
    Alike Event.Steady (mongoSyncCmdUpdate (N.on .little) reconnect ns flags selector update)
      (mongoSyncCmdUpdate (N.on .big) reconnect' ns flags selector update) := by
  refine (mongoWireCmdUpdate_stamps ns flags selector update).nextPacket
    (mongoSyncPacketSend_sends N hreconnect true true) (fun _ => rfl) (fun _ => rfl) ?_ ?_
  · exact .pure rfl
  · intro sent
    exact Twins.ite Iff.rfl (fun _ => mongoSyncCmdVerifyResult_alike N ns) (fun _ => .pure rfl)

theorem mongoSyncCmdDelete_alike (ns : Option CString) (flags : BitVec 32) (sel : Option Bson) :
    Alike Event.Steady (mongoSyncCmdDelete (N.on .little) reconnect ns flags sel)
      (mongoSyncCmdDelete (N.on .big) reconnect' ns flags sel) := by
  refine (mongoWireCmdDelete_stamps ns flags sel).nextPacket
    (mongoSyncPacketSend_sends N hreconnect true true) (fun p => (bind_pure _).symm)
    (fun p => (bind_pure _).symm) ?_ ?_
  · exact .pure rfl
  · exact fun sent => .pure rfl

theorem mongoSyncCmdKillCursors_alike (cids : List (BitVec 64)) :
    Alike Event.Steady (mongoSyncCmdKillCursors (N.on .little) reconnect cids)
      (mongoSyncCmdKillCursors (N.on .big) reconnect' cids) := by
  refine (mongoWireCmdKillCursors_stamps cids).nextPacket
    (mongoSyncPacketSend_sends N hreconnect false true) (fun p => (bind_pure _).symm)
    (fun p => (bind_pure _).symm) ?_ ?_
  · exact .pure rfl
  · exact fun sent => .pure rfl

theorem insertBatch_alike (ns : CString) (c : Int) (docs : List (Option Bson)) :
    Alike Event.Steady (insertBatch (N.on .little) reconnect ns c docs)
      (insertBatch (N.on .big) reconnect' ns c docs) := by
  refine (mongoWireCmdInsertN_stamps (some ns) c (some docs)).nextPacket
    (mongoSyncPacketSend_sends N hreconnect true true) (fun _ => rfl) (fun _ => rfl) ?_ ?_
  · exact .pure rfl
  · intro sent
    exact Twins.ite Iff.rfl (fun _ => storeErrno_alike N false)
      (fun _ => mongoSyncCmdVerifyResult_alike N (some ns))

theorem insertLoop_alike (ns : CString) (rounds : Nat) (docs : List (Option Bson)) :
    Alike Event.Steady (insertLoop (N.on .little) reconnect ns rounds docs)
      (insertLoop (N.on .big) reconnect' ns rounds docs) := by
  induction rounds generalizing docs with
  | zero => exact .throw _
  | succ rounds ih =>
      refine Twins.get_bind fun w w' h => ?_
      rw [World.Twin.maxInsertSize h]
      refine Twins.bind (insertBatch_alike N hreconnect ns _ docs) (fun ok => ?_) w w' h
      refine Twins.ite Iff.rfl (fun _ => .pure rfl) (fun _ => ?_)
      exact Twins.ite Iff.rfl (fun _ => .pure rfl) (fun _ => ih _)

theorem mongoSyncCmdInsertN_alike (ns : Option CString) (docs : Option (List (Option Bson))) :
    Alike Event.Steady (mongoSyncCmdInsertN (N.on .little) reconnect ns docs)
      (mongoSyncCmdInsertN (N.on .big) reconnect' ns docs) := by
  cases ns with
  | none => exact fail_alike _ _
  | some ns =>
      cases docs with
      | none => exact fail_alike _ _
      | some docs =>
          refine Twins.ite Iff.rfl (fun _ => fail_alike _ _) (fun _ => ?_)
          refine Twins.get_bind fun w w' h => ?_
          rw [World.Twin.maxInsertSize h]
          refine Twins.ite Iff.rfl (fun _ => ?_) (fun _ => ?_) w w' h
          · exact fail_alike _ _
          · exact insertLoop_alike N hreconnect ns docs.length docs

/-! ## Queries -/

/-- A query is built under the next id, sent, and its reply is received. -/
theorem query_matches {build : ByteOrder → BitVec 32 → Except Errno MongoPacket}
    (h : Stamps build) (flags : BitVec 32) (forceMaster : Bool) {w w' : World σ}
    (hw : w.Twin w') :
    TwinsAt (hostFrame Event.Steady) (fun p p' => p' = Option.map MongoPacket.turnedLength p)
      (do
        match ← orErrno (build .little (w.conn.requestId + 1)) with
        | none => return none
        | some p =>
            sendAndReceive (N.on .little) reconnect p (w.conn.requestId + 1) flags forceMaster)
      (do
        match ← orErrno (build .big (w'.conn.requestId + 1)) with
        | none => return none
        | some p =>
            sendAndReceive (N.on .big) reconnect' p (w'.conn.requestId + 1) flags forceMaster)
      w w' := by
  have hreceive : ∀ rid, Matches Event.Steady (Option.map MongoPacket.turnedLength)
      (mongoSyncPacketRecv (N.on .little) rid flags >>= fun p => mongoSyncPacketCheckError p false)
      (mongoSyncPacketRecv (N.on .big) rid flags >>= fun p =>
        mongoSyncPacketCheckError p false) := fun rid =>
    (mongoSyncPacketRecv_matches N rid _).bind fun p => mongoSyncPacketCheckError_matches p false
  refine h.sent (mongoSyncPacketSend_sends N hreconnect forceMaster true) (fun _ => rfl)
    (fun _ => rfl) hw ?_ ?_ ?_ ?_
  · exact .pure rfl
  · exact .pure rfl
  · exact (hreceive _).keeps
  · intro heq
    rw [heq]
    exact hreceive _

theorem mongoSyncCmdQuery_matches (ns : Option CString) (flags skip ret : BitVec 32)
    (query sel : Option Bson) :
    Matches Event.Steady (Option.map MongoPacket.turnedLength)
      (mongoSyncCmdQuery (N.on .little) reconnect ns flags skip ret query sel)
      (mongoSyncCmdQuery (N.on .big) reconnect' ns flags skip ret query sel) := by
  refine (mongoCmdVerifySlaveok_alike N hreconnect).bind fun verified => ?_
  refine Twins.ite Iff.rfl (fun _ => ?_) (fun _ => .pure rfl)
  refine Twins.get_bind fun w w' h => ?_
  have hflag : slaveFlag w'.conn = slaveFlag w.conn := by
    rw [slaveFlag, World.Twin.slaveok h]
    rfl
  rw [hflag, World.Twin.slaveok h]
  exact query_matches N hreconnect
    (mongoWireCmdQuery_stamps ns (flags ||| slaveFlag w.conn) skip ret query sel) _ _ h

theorem mongoSyncCmdGetMore_matches (ns : Option CString) (ret : BitVec 32)
    (cursorId : BitVec 64) :
    Matches Event.Steady (Option.map MongoPacket.turnedLength)
      (mongoSyncCmdGetMore (N.on .little) reconnect ns ret cursorId)
      (mongoSyncCmdGetMore (N.on .big) reconnect' ns ret cursorId) := by
  refine (mongoCmdVerifySlaveok_alike N hreconnect).bind fun verified => ?_
  refine Twins.ite Iff.rfl (fun _ => ?_) (fun _ => .pure rfl)
  refine Twins.get_bind fun w w' h => ?_
  exact query_matches N hreconnect (mongoWireCmdGetMore_stamps ns ret cursorId) _ _ h

/-! ## Collections, users and indexes -/

omit hreconnect in
/-- The first document of a reply is read. -/
theorem document_alike {α : Type} (p : MongoPacket)
    {f f' : Option (Option Bson) → Program (World σ) α}
    (hf : ∀ b, Alike Event.Steady (f b) (f' b)) :
    Alike Event.Steady
      (readOrErrno (mongoWireReplyPacketGetNthDocument (some p) 1) >>= f)
      (readOrErrno (mongoWireReplyPacketGetNthDocument (some p.turnedLength) 1) >>= f') :=
  (readOrErrno_alike (mongoWireReplyPacketGetNthDocument (some p) 1)).bind hf

theorem mongoSyncCmdCount_alike (db coll : Option CString) (query : Option Bson) :
    Alike Event.Steady (mongoSyncCmdCount (N.on .little) reconnect db coll query)
      (mongoSyncCmdCount (N.on .big) reconnect' db coll query) := by
  refine (mongoSyncCmdCustom_matches N hreconnect db _).bind fun p => ?_
  cases p with
  | none => exact .pure rfl
  | some p =>
      refine document_alike p fun b => ?_
      cases b with
      | none => exact .pure rfl
      | some b =>
          refine (readOrErrno_alike (replyNumber (bsonFinish b).2)).bind fun d => ?_
          cases d with
          | none => exact .pure rfl
          | some d => exact .pure rfl

theorem mongoSyncCmdMaster_matches (db : Option CString) (command : Option Bson) :
    Matches Event.Steady (Option.map MongoPacket.turnedLength)
      (mongoSyncCmdMaster (N.on .little) reconnect db command)
      (mongoSyncCmdMaster (N.on .big) reconnect' db command) :=
  mongoSyncCmdCustomWith_matches N (mongoCmdEnsureConn_alike N hreconnect) hreconnect db command
    true true

theorem mongoSyncCmdCreate_alike (db coll : Option CString) (flags : BitVec 32)
    (size max : BitVec 64) :
    Alike Event.Steady (mongoSyncCmdCreate (N.on .little) reconnect db coll flags size max)
      (mongoSyncCmdCreate (N.on .big) reconnect' db coll flags size max) := by
  cases db with
  | none => exact fail_alike _ _
  | some db =>
      cases coll with
      | none => exact fail_alike _ _
      | some coll =>
          refine (orErrno_alike (createCommand coll flags size max)).bind fun cmd => ?_
          cases cmd with
          | none => exact .pure rfl
          | some cmd =>
              refine (mongoSyncCmdMaster_matches N hreconnect _ _).bind fun p => .pure ?_
              exact Option.isSome_map

theorem mongoSyncCmdDrop_alike (db coll : Option CString) :
    Alike Event.Steady (mongoSyncCmdDrop (N.on .little) reconnect db coll)
      (mongoSyncCmdDrop (N.on .big) reconnect' db coll) := by
  refine (mongoSyncCmdMaster_matches N hreconnect _ _).bind fun p => .pure ?_
  exact Option.isSome_map

omit hreconnect in
/-- `mongo_sync_cmd_exists` is a query, and then the first document of its reply is read. -/
theorem mongoSyncCmdExists_eq (db coll : CString) :
    mongoSyncCmdExists N reconnect (some db) (some coll) = get >>= fun w =>
      (do
        match ← orErrno (mongoWireCmdQuery N.order (w.conn.requestId + 1)
          (some (db.append systemNamespaces)) (slaveFlag w.conn) 0 1
          (existsQuery ((db.append dot).append coll)) none) with
        | none => return none
        | some p =>
            sendAndReceive N reconnect p (w.conn.requestId + 1) replyFlagQueryFail
              (!w.conn.slaveok)) >>= fun reply => match reply with
        | none => return none
        | some p => do
            match ← readOrErrno (mongoWireReplyPacketGetNthDocument (some p) 1) with
            | none => return none
            | some r => return (bsonFinish r).2 := by
  rw [mongoSyncCmdExists]
  generalize db.append systemNamespaces = ns
  generalize existsQuery ((db.append dot).append coll) = query
  refine congrArg (get >>= ·) (funext fun w => ?_)
  rw [bind_assoc]
  refine congrArg (_ >>= ·) (funext fun p => ?_)
  cases p with
  | none => rfl
  | some p => rfl

theorem mongoSyncCmdExists_alike (db coll : Option CString) :
    Alike Event.Steady (mongoSyncCmdExists (N.on .little) reconnect db coll)
      (mongoSyncCmdExists (N.on .big) reconnect' db coll) := by
  cases db with
  | none => exact fail_alike _ _
  | some db =>
      cases coll with
      | none => exact fail_alike _ _
      | some coll =>
          rw [mongoSyncCmdExists_eq, mongoSyncCmdExists_eq]
          generalize db.append systemNamespaces = ns
          generalize existsQuery ((db.append dot).append coll) = query
          refine Twins.get_bind fun w w' h => ?_
          have hflag : slaveFlag w'.conn = slaveFlag w.conn := by
            rw [slaveFlag, World.Twin.slaveok h]
            rfl
          rw [hflag, World.Twin.slaveok h]
          refine (query_matches N hreconnect (mongoWireCmdQuery_stamps (some ns) (slaveFlag w.conn) 0 1
            query none) replyFlagQueryFail (!w.conn.slaveok) h).bind fun reply => ?_
          cases reply with
          | none => exact .pure rfl
          | some p =>
              refine document_alike p fun b => ?_
              cases b with
              | none => exact .pure rfl
              | some b => exact .pure rfl

theorem mongoSyncCmdUserAddWithRoles_alike (db user pw : Option CString) (roles : Option Bson) :
    Alike Event.Steady (mongoSyncCmdUserAddWithRoles (N.on .little) reconnect db user pw roles)
      (mongoSyncCmdUserAddWithRoles (N.on .big) reconnect' db user pw roles) := by
  rw [mongoSyncCmdUserAddWithRoles.eq_def, mongoSyncCmdUserAddWithRoles.eq_def]
  split
  · exact mongoSyncCmdUpdate_alike N hreconnect _ _ _ _
  · exact fail_alike _ _

theorem mongoSyncCmdUserRemove_alike (db user : Option CString) :
    Alike Event.Steady (mongoSyncCmdUserRemove (N.on .little) reconnect db user)
      (mongoSyncCmdUserRemove (N.on .big) reconnect' db user) := by
  rw [mongoSyncCmdUserRemove.eq_def, mongoSyncCmdUserRemove.eq_def]
  split
  · exact mongoSyncCmdDelete_alike N hreconnect _ _ _
  · exact fail_alike _ _

theorem mongoSyncCmdIndexCreate_alike (host : GDouble → BitVec 64) (ns : Option CString)
    (key : Option Bson) (options : BitVec 32) :
    Alike Event.Steady (mongoSyncCmdIndexCreate (N.on .little) host reconnect ns key options)
      (mongoSyncCmdIndexCreate (N.on .big) host reconnect' ns key options) := by
  rw [mongoSyncCmdIndexCreate.eq_def, mongoSyncCmdIndexCreate.eq_def]
  split
  · split
    · exact fail_alike _ _
    · refine (ofExcept_alike _).bind fun name => ?_
      cases name with
      | none => exact fail_alike _ _
      | some name => exact mongoSyncCmdInsertN_alike N hreconnect _ _
  · exact fail_alike _ _

theorem mongoSyncCmdIndexDropName_alike (fullNs : Option CString) (name : CString) :
    Alike Event.Steady (mongoSyncCmdIndexDropName (N.on .little) reconnect fullNs name)
      (mongoSyncCmdIndexDropName (N.on .big) reconnect' fullNs name) := by
  rw [mongoSyncCmdIndexDropName.eq_def, mongoSyncCmdIndexDropName.eq_def]
  split
  · exact fail_alike _ _
  · split
    · exact fail_alike _ _
    · refine (mongoSyncCmdCustom_matches N hreconnect _ _).bind fun p => ?_
      cases p with
      | none => exact .pure rfl
      | some p => exact .pure rfl

theorem mongoSyncCmdIndexDrop_alike (host : GDouble → BitVec 64) (ns : Option CString)
    (key : Option Bson) :
    Alike Event.Steady (mongoSyncCmdIndexDrop (N.on .little) host reconnect ns key)
      (mongoSyncCmdIndexDrop (N.on .big) host reconnect' ns key) := by
  cases key with
  | none => exact fail_alike _ _
  | some key =>
      refine (ofExcept_alike _).bind fun name => ?_
      cases name with
      | none => exact .throw _
      | some name => exact mongoSyncCmdIndexDropName_alike N hreconnect ns name

end Operations

/-! ## The calls of a client -/

/-- The reply a call returns. -/
theorem ReplyCall.run_matches (fuel : Nat) (c : ReplyCall) :
    Matches Event.Steady (Option.map MongoPacket.turnedLength)
      (c.run (N.on .little) (mongoSyncReconnect (N.on .little) fuel))
      (c.run (N.on .big) (mongoSyncReconnect (N.on .big) fuel)) := by
  have hreconnect := mongoSyncReconnect_alike N fuel
  cases c with
  | query call =>
      cases call with
      | query ns flags skip ret q sel =>
          exact mongoSyncCmdQuery_matches N hreconnect ns flags skip ret q sel
      | getMore ns ret cursorId => exact mongoSyncCmdGetMore_matches N hreconnect ns ret cursorId
  | custom db command checkConn forceMaster =>
      exact mongoSyncCmdCustomWith_matches N (mongoCmdEnsureConn_alike N hreconnect) hreconnect db
        command checkConn forceMaster

/-- Whether something is returned. -/
theorem isSome_alike {α α' : Type} {φ : α → α'} {m : Program (World σ) (Option α)}
    {m' : Program (World σ) (Option α')} (h : Matches Event.Steady (Option.map φ) m m') :
    Alike Event.Steady (Option.isSome <$> m) (Option.isSome <$> m') := by
  rw [map_eq_pure_bind, map_eq_pure_bind]
  refine Twins.bind h fun a => .pure ?_
  exact Option.isSome_map

theorem Command.run_alike (fuel : Nat) (c : Command) :
    Alike Event.Steady (c.run (N.on .little) fuel) (c.run (N.on .big) fuel) := by
  have hreconnect := mongoSyncReconnect_alike N fuel
  have hset : ∀ {f : MongoSyncConnection → MongoSyncConnection},
      (∀ c : MongoSyncConnection, f c.turned = (f c).turned) → Alike Event.Steady (σ := σ)
        (do setErrno .ok; setConn f; return true) (do setErrno .ok; setConn f; return true) :=
    fun hf => (setErrno_alike _).bind fun _ => (setConn_alike hf).bind fun _ => .pure rfl
  cases c with
  | setMaxInsertSize maxSize =>
      exact Twins.ite Iff.rfl (fun _ => fail_alike _ _) (fun _ => hset fun _ => rfl)
  | setSafeMode safeMode => exact hset fun _ => rfl
  | setAutoReconnect autoReconnect =>
      refine Twins.bind (setConn_alike fun _ => ?_) fun _ => .pure rfl
      rfl
  | setSlaveok slaveok => exact hset fun _ => rfl
  | seedAdd host port =>
      refine Twins.ite Iff.rfl (fun _ => fail_alike _ _) (fun _ => ?_)
      refine Twins.bind (setConn_alike fun _ => ?_) fun _ => .pure rfl
      rfl
  | reconnect forceMaster => exact hreconnect forceMaster
  | update ns flags selector upd =>
      exact mongoSyncCmdUpdate_alike N hreconnect ns flags selector upd
  | insertN ns docs => exact mongoSyncCmdInsertN_alike N hreconnect ns docs
  | insert ns docs =>
      exact Twins.ite Iff.rfl (fun _ => fail_alike _ _)
        (fun _ => mongoSyncCmdInsertN_alike N hreconnect ns _)
  | delete ns flags sel => exact mongoSyncCmdDelete_alike N hreconnect ns flags sel
  | query ns flags skip ret q sel =>
      exact isSome_alike (mongoSyncCmdQuery_matches N hreconnect ns flags skip ret q sel)
  | getMore ns ret cursorId =>
      exact isSome_alike (mongoSyncCmdGetMore_matches N hreconnect ns ret cursorId)
  | killCursors cids => exact mongoSyncCmdKillCursors_alike N hreconnect cids
  | custom db command => exact isSome_alike (mongoSyncCmdCustom_matches N hreconnect db command)
  | ping => exact mongoSyncCmdPing_alike N
  | isMaster => exact mongoSyncCmdIsMaster_alike N
  | getLastError db =>
      refine isSome_alike (φ := fun a => a) ?_
      exact (mongoSyncCmdGetLastError_alike N db).mono fun a a' h => by rw [h, Option.map_id']
  | getLastErrorFull db =>
      refine isSome_alike (φ := fun a => a) ?_
      exact (mongoSyncCmdGetLastErrorFull_alike N db).mono fun a a' h => by
        rw [h, Option.map_id']
  | resetError db => exact mongoSyncCmdResetError_alike N db
  | authenticate db user pw =>
      exact mongoSyncCmdAuthenticateWith_alike N hreconnect none db user pw
  | count db coll q =>
      rw [Command.run, Command.run, map_eq_pure_bind, map_eq_pure_bind]
      exact (mongoSyncCmdCount_alike N hreconnect db coll q).bind fun d => .pure rfl
  | create db coll flags size max =>
      exact mongoSyncCmdCreate_alike N hreconnect db coll flags size max
  | drop db coll => exact mongoSyncCmdDrop_alike N hreconnect db coll
  | «exists» db coll =>
      refine isSome_alike (φ := fun a => a) ?_
      exact (mongoSyncCmdExists_alike N hreconnect db coll).mono fun a a' h => by
        rw [h, Option.map_id']
  | userAdd db user pw roles =>
      exact mongoSyncCmdUserAddWithRoles_alike N hreconnect db user pw roles
  | userRemove db user => exact mongoSyncCmdUserRemove_alike N hreconnect db user
  | indexCreate host ns key options =>
      exact mongoSyncCmdIndexCreate_alike N hreconnect host ns key options
  | indexDrop host ns key => exact mongoSyncCmdIndexDrop_alike N hreconnect host ns key
  | indexDropAll ns => exact mongoSyncCmdIndexDropName_alike N hreconnect ns _

end LibMongo
