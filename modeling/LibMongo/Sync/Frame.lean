import LibMongo.Sync.Command

/-!
# What a command leaves alone

A command that neither checks the connection nor reconnects stays on its
socket.  `SocketRule` lists what has to be shown of a relation for every function of
`Command.lean` to keep it.  `World.Polls` is the one that says what such a command may
do: send commands on the socket, store what the replies say about errors and about the
replica set, and count its requests.
-/

namespace LibMongo

open Bytes Program

variable {σ : Type} (N : Net σ)

/-! ## Packets and their opcodes -/

/-- The packet has this opcode. -/
def MongoPacket.HasOpcode (o : ByteOrder) (p : MongoPacket) (opcode : MongoWireOpcode) : Prop :=
  (mongoWirePacketGetHeader o p).opcode = opcode.code

instance (o : ByteOrder) (p : MongoPacket) (opcode : MongoWireOpcode) :
    Decidable (p.HasOpcode o opcode) := inferInstanceAs (Decidable (_ = _))

theorem MongoWireOpcode.code_inj {a b : MongoWireOpcode} (h : a.code = b.code) : a = b := by
  cases a <;> cases b <;> first | rfl | (revert h; decide)

/-- A packet has one opcode. -/
theorem MongoPacket.HasOpcode.unique {o : ByteOrder} {p : MongoPacket} {a b : MongoWireOpcode}
    (ha : p.HasOpcode o a) (hb : p.HasOpcode o b) : a = b :=
  MongoWireOpcode.code_inj (ha.symm.trans hb)

theorem commandPacket_hasOpcode (o : ByteOrder) (id : BitVec 32) (opcode : MongoWireOpcode)
    (data : Bytes) (dataSize : Int) :
    (commandPacket o id opcode data dataSize).HasOpcode o opcode :=
  ByteOrder.le32_le32 o opcode.code

theorem mongoWireCmdQuery_hasOpcode {o : ByteOrder} {id flags skip ret : BitVec 32}
    {ns : Option CString} {query sel : Option Bson} {p : MongoPacket}
    (h : mongoWireCmdQuery o id ns flags skip ret query sel = .ok p) : p.HasOpcode o .query := by
  unfold mongoWireCmdQuery at h
  split at h
  case h_1 =>
    dsimp only at h
    split at h
    · cases h
    · cases h
      exact commandPacket_hasOpcode ..
  case h_2 => cases h

theorem mongoWireCmdUpdate_hasOpcode {o : ByteOrder} {id flags : BitVec 32} {ns : Option CString}
    {selector update : Option Bson} {p : MongoPacket}
    (h : mongoWireCmdUpdate o id ns flags selector update = .ok p) : p.HasOpcode o .update := by
  unfold mongoWireCmdUpdate at h
  split at h
  case h_1 =>
    dsimp only at h
    split at h
    · cases h
    · cases h
      exact commandPacket_hasOpcode ..
  case h_2 => cases h

theorem mongoWireCmdInsertN_hasOpcode {o : ByteOrder} {id : BitVec 32} {ns : Option CString}
    {n : Int} {docs : Option (List (Option Bson))} {p : MongoPacket}
    (h : mongoWireCmdInsertN o id ns n docs = .ok p) : p.HasOpcode o .insert := by
  unfold mongoWireCmdInsertN at h
  split at h
  case h_1 =>
    split at h
    · cases h
    · dsimp only at h
      split at h
      · cases h
      · cases h
        exact commandPacket_hasOpcode ..
  case h_2 => cases h

theorem mongoWireCmdDelete_hasOpcode {o : ByteOrder} {id flags : BitVec 32} {ns : Option CString}
    {sel : Option Bson} {p : MongoPacket}
    (h : mongoWireCmdDelete o id ns flags sel = .ok p) : p.HasOpcode o .delete := by
  unfold mongoWireCmdDelete at h
  split at h
  case h_1 =>
    dsimp only at h
    split at h
    · cases h
    · cases h
      exact commandPacket_hasOpcode ..
  case h_2 => cases h

theorem mongoWireCmdCustom_hasOpcode {o : ByteOrder} {id flags : BitVec 32} {db : Option CString}
    {command : Option Bson} {p : MongoPacket}
    (h : mongoWireCmdCustom o id db flags command = .ok p) : p.HasOpcode o .query := by
  unfold mongoWireCmdCustom at h
  split at h
  case h_1 =>
    split at h
    · cases h
    · exact mongoWireCmdQuery_hasOpcode h
  case h_2 => cases h

/-- The packet carries a command to a database. -/
def MongoPacket.IsCommand (o : ByteOrder) (p : MongoPacket) : Prop :=
  ∃ id db flags command, mongoWireCmdCustom o id db flags command = .ok p

theorem MongoPacket.IsCommand.hasOpcode {o : ByteOrder} {p : MongoPacket} (h : p.IsCommand o) :
    p.HasOpcode o .query := by
  obtain ⟨_, _, _, _, hp⟩ := h
  exact mongoWireCmdCustom_hasOpcode hp

/-! ## Sending -/

section Sending

variable {R E : World σ → World σ → Prop} (hE : Halts R E) {p : MongoPacket}
  (herrno : ∀ e, Keeps R (setErrno e)) (hsend : Keeps R (mongoPacketSend N p))
  {reconnect : Bool → Program (World σ) Bool} {forceMaster : Bool}
  (hreconnect : KeepsUpTo R E (reconnect forceMaster))
include hE herrno hsend hreconnect

/-- A round keeps what the send, the reconnect and the next round keep. -/
theorem sendRound_keeps {again : Program (World σ) Bool} (hagain : KeepsUpTo R E again)
    (autoReconnect out : Bool) :
    KeepsUpTo R E (sendRound N reconnect p forceMaster autoReconnect out again) := by
  have hfail : ∀ e, KeepsUpTo R E (do setErrno e; return false) :=
    fun e => KeepsUpTo.bind hE ((herrno e).upTo hE) fun _ => KeepsUpTo.pure hE _
  refine KeepsUpTo.bind hE (hsend.upTo hE) (fun sent => ?_)
  refine KeepsUpTo.ite (KeepsUpTo.pure hE _) (KeepsUpTo.get_bind fun w => ?_)
  refine KeepsUpTo.ite (hfail _) ?_ w
  refine KeepsUpTo.bind hE hreconnect (fun connected => ?_)
  exact KeepsUpTo.ite hagain (hfail _)

theorem mongoSyncPacketSendWith_keeps {ensureConn : Bool → Program (World σ) Bool}
    (hensure : forceMaster = true → KeepsUpTo R E (ensureConn forceMaster)) (autoReconnect : Bool) :
    KeepsUpTo R E
      (mongoSyncPacketSendWith N ensureConn reconnect p forceMaster autoReconnect) := by
  refine KeepsUpTo.bind hE (fun w => ?_) (fun ready => ?_)
  · exact wp_ite (fun hforce => hensure hforce w) (fun _ => KeepsUpTo.pure hE true w)
  · refine KeepsUpTo.ite ?_ (KeepsUpTo.pure hE _)
    refine sendRound_keeps N hE herrno hsend hreconnect ?_ _ _
    exact sendRound_keeps N hE herrno hsend hreconnect (KeepsUpTo.pure hE _) _ _

end Sending

theorem unreached_keeps {R : World σ → World σ → Prop} (hF : Frame R) (force : Bool) :
    KeepsUpTo R R (unreached (σ := σ) force) := Keeps.throw hF _

/-! ## The commands on a socket -/

theorem readOrErrno_keeps {R : World σ → World σ → Prop} (hF : Frame R)
    (herrno : ∀ e, Keeps R (setErrno e)) {α : Type} (x : Except Halt (Except Errno α)) :
    Keeps R (readOrErrno x) :=
  fun w => wp_readOrErrno (fun _ _ => hF.refl w) (fun e _ => herrno e w) (fun _ _ => hF.refl w)

theorem mongoSyncPacketRecv_keeps {R : World σ → World σ → Prop} (hF : Frame R)
    (herrno : ∀ e, Keeps R (setErrno e)) (hrecv : Keeps R (mongoPacketRecv N))
    (rid flags : BitVec 32) : Keeps R (mongoSyncPacketRecv N rid flags) := by
  have hfail : ∀ e : Errno, Keeps R (do setErrno e; return (none : Option MongoPacket)) :=
    fun e => Keeps.bind hF (herrno e) fun _ => Keeps.pure hF _
  refine Keeps.bind hF hrecv (fun p => ?_)
  cases p with
  | none => exact Keeps.pure hF _
  | some p =>
      refine Keeps.ite (hfail _) ?_
      refine Keeps.bind hF (readOrErrno_keeps hF herrno _) (fun rh => ?_)
      cases rh with
      | none => exact Keeps.pure hF _
      | some rh => exact Keeps.ite (hfail _) (Keeps.ite (hfail _) (Keeps.pure hF _))

theorem mongoSyncPacketRecv_still (rid flags : BitVec 32) :
    Keeps World.Still (mongoSyncPacketRecv N rid flags) :=
  mongoSyncPacketRecv_keeps N World.Still.frame (fun _ _ => ⟨rfl, rfl, rfl⟩)
    (mongoPacketRecv_still N) rid flags

/-- Looking for an error only stores the error. -/
theorem mongoSyncPacketCheckError_keeps {R : World σ → World σ → Prop} (hF : Frame R)
    (herrno : ∀ e, Keeps R (setErrno e))
    (hstore : ∀ err, Keeps R (setConn fun c => { c with lastError := err }))
    (p : Option MongoPacket) (checkOk : Bool) : Keeps R (mongoSyncPacketCheckError p checkOk) := by
  have hread : ∀ {α : Type} (x : Except Halt (Except Errno α)), Keeps R (readOrErrno x) :=
    fun x => readOrErrno_keeps hF herrno x
  have hfail : ∀ {α : Type} (e : Errno) (a : α), Keeps R (do setErrno e; return a) :=
    fun e _ => Keeps.bind hF (herrno e) fun _ => Keeps.pure hF _
  cases p with
  | none => exact Keeps.pure hF _
  | some p =>
      refine Keeps.bind hF (hread _) (fun b => ?_)
      cases b with
      | none => exact hfail _ _
      | some b =>
          refine Keeps.ite ?_ ?_
          · refine Keeps.bind hF (Keeps.ofExcept hF _) (fun r => ?_)
            refine Keeps.ite (hfail _ _) ?_
            refine Keeps.bind hF (hstore none) (fun _ => ?_)
            refine Keeps.bind hF (hread _) (fun err => ?_)
            cases err with
            | none => exact hfail _ _
            | some err => exact Keeps.bind hF (hstore err) fun _ => hfail _ _
          · refine Keeps.bind hF (hstore none) (fun _ => ?_)
            refine Keeps.bind hF (hread _) (fun err => ?_)
            cases err with
            | none => exact Keeps.pure hF _
            | some err => exact Keeps.bind hF (hstore err) fun _ => Keeps.pure hF _

/-- What is needed to show that a command keeps `R`, if it stays on its socket. -/
structure CommandRule (R : World σ → World σ → Prop) : Prop where
  frame : Frame R
  errno : ∀ e, Keeps R (setErrno e)
  send : ∀ {p : MongoPacket}, p.IsCommand N.order → Keeps R (mongoPacketSend N p)
  /-- Taking the reply to a command. -/
  reply : ∀ rid, Keeps R (mongoSyncPacketRecv N rid replyFlagQueryFail >>= fun p =>
    mongoSyncPacketCheckError p true)

namespace CommandRule

variable {N} {R : World σ → World σ → Prop} (h : CommandRule N R)
include h

theorem cmdCustomBare (db : Option CString) (command : Option Bson) :
    Keeps R (mongoSyncCmdCustomBare N db command) := by
  refine Keeps.get_bind fun w => ?_
  rw [wp_bind]
  refine wp_orErrno (fun p hp => ?_) (fun e _ => h.errno e w)
  refine Keeps.bind h.frame (mongoSyncPacketSendWith_keeps N h.frame.halts h.errno
    (h.send ⟨_, _, _, _, hp⟩) (unreached_keeps h.frame _) (fun h => by cases h) _) (fun sent => ?_) w
  exact Keeps.ite (h.reply _) (Keeps.pure h.frame _)

theorem cmdPing (hping : ∀ w, R w { w with log := w.log ++ [.ping w.conn.fd] }) :
    Keeps R (mongoSyncCmdPing N) := by
  refine Keeps.bind h.frame (h.cmdCustomBare _ _) (fun p => ?_)
  cases p with
  | none => exact Keeps.pure h.frame _
  | some p =>
      refine Keeps.bind h.frame (h.errno _) (fun _ => ?_)
      exact Keeps.get_bind fun w => hping w

end CommandRule

/-- What is needed to show that the commands on a socket keep `R`, if asking the node does. -/
structure AskRule (R : World σ → World σ → Prop) : Prop where
  frame : Frame R
  errno : ∀ e, Keeps R (setErrno e)
  recv : Keeps R (mongoPacketRecv N)
  ask : ∀ db command, Keeps R (mongoSyncCmdCustomBare N db command)
  /-- Storing an error or a part of the replica set. -/
  store : ∀ {f : MongoSyncConnection → MongoSyncConnection}, (∀ c, ∃ lastError hosts primary,
      f c = { c with lastError := lastError, rs := ⟨c.rs.seeds, hosts, primary⟩ }) →
    Keeps R (setConn f)
  ping : ∀ w, R w { w with log := w.log ++ [.ping w.conn.fd] }
  isMaster : ∀ w, R w { w with log := w.log ++ [.isMaster w.conn.fd] }

namespace AskRule

variable {N} {R : World σ → World σ → Prop} (h : AskRule N R)
include h

theorem read {α : Type} (x : Except Halt (Except Errno α)) : Keeps R (readOrErrno x) :=
  readOrErrno_keeps h.frame h.errno x

theorem fail {α : Type} (e : Errno) (a : α) : Keeps R (do setErrno e; return a) :=
  Keeps.bind h.frame (h.errno e) fun _ => Keeps.pure h.frame _

theorem storeError (err : Option CString) : Keeps R (setConn fun c => { c with lastError := err }) :=
  h.store fun _ => ⟨err, _, _, rfl⟩

theorem packetRecv (rid flags : BitVec 32) : Keeps R (mongoSyncPacketRecv N rid flags) :=
  mongoSyncPacketRecv_keeps N h.frame h.errno h.recv rid flags

/-- Taking the reply to a command. -/
theorem reply (rid : BitVec 32) : Keeps R (mongoSyncPacketRecv N rid replyFlagQueryFail >>= fun p =>
    mongoSyncPacketCheckError p true) :=
  Keeps.bind h.frame (h.packetRecv rid _) fun p =>
    mongoSyncPacketCheckError_keeps h.frame h.errno h.storeError p true

theorem cmdPing : Keeps R (mongoSyncCmdPing N) := by
  refine Keeps.bind h.frame (h.ask _ _) (fun p => ?_)
  cases p with
  | none => exact Keeps.pure h.frame _
  | some p =>
      refine Keeps.bind h.frame (h.errno _) (fun _ => ?_)
      exact Keeps.get_bind fun w => h.ping w

/-- What holds once the question was asked, if it is not lost by anything that keeps `R`. -/
theorem cmdIsMaster_after {P : World σ → Prop} (hP : ∀ {u v}, P u → R u v → P v) {w : World σ}
    (hask : wp (mongoSyncCmdCustomBare N (some systemDb) (commandOne ismasterKey))
      (fun _ => P) P w) : wp (mongoSyncCmdIsMaster N) (fun _ => P) P w := by
  rw [mongoSyncCmdIsMaster, wp_bind]
  refine wp_mono hask (fun p u hu => ?_) (fun _ hu => hu)
  have after {m : Program (World σ) Bool} (hm : Keeps R m) : wp m (fun _ => P) P u :=
    wp_mono (hm u) (fun _ _ => hP hu) (fun _ => hP hu)
  cases p with
  | none => exact hu
  | some p =>
      refine after (Keeps.bind h.frame (h.read _) (fun res => ?_))
      cases res with
      | none => exact Keeps.pure h.frame _
      | some res =>
          refine Keeps.bind h.frame (Keeps.ofExcept h.frame _) (fun ismaster => ?_)
          cases ismaster with
          | none => exact h.fail _ _
          | some b =>
              refine Keeps.bind h.frame (Keeps.ofExcept h.frame _) (fun primary => ?_)
              refine Keeps.bind h.frame (Keeps.ofExcept h.frame _) (fun hosts => ?_)
              refine Keeps.bind h.frame (h.store fun c => ⟨_, _, _, rfl⟩) (fun _ => ?_)
              refine Keeps.bind h.frame (h.errno _) (fun _ => ?_)
              refine Keeps.ite (Keeps.pure h.frame _) ?_
              exact Keeps.get_bind fun w => h.isMaster w

theorem cmdIsMaster : Keeps R (mongoSyncCmdIsMaster N) := fun w =>
  h.cmdIsMaster_after (P := R w) h.frame.trans (h.ask _ _ w)

theorem lastError (e : Errno) : Keeps R (setLastError N e) := h.store fun _ => ⟨_, _, _, rfl⟩

/-- A failure that is remembered as the last error. -/
theorem failLastError {α : Type} (a : α) : Keeps R (do
    let w ← get
    setLastError N w.errno
    return a) :=
  Keeps.get_bind fun w => Keeps.bind h.frame (h.lastError _) (fun _ => Keeps.pure h.frame _) w

theorem cmdGetLastErrorFull (db : Option CString) : Keeps R (mongoSyncCmdGetLastErrorFull N db) := by
  refine Keeps.bind h.frame (h.ask _ _) (fun p => ?_)
  cases p with
  | none => exact h.failLastError _
  | some p =>
      refine Keeps.bind h.frame (h.read _) (fun error => ?_)
      cases error with
      | none => exact h.failLastError _
      | some error => exact Keeps.pure h.frame _

theorem cmdGetLastError (db : Option CString) : Keeps R (mongoSyncCmdGetLastError N db) := by
  refine Keeps.bind h.frame (h.cmdGetLastErrorFull db) (fun doc => ?_)
  cases doc with
  | none => exact Keeps.pure h.frame _
  | some doc =>
      refine Keeps.bind h.frame (h.read _) (fun error => ?_)
      match error with
      | none => exact h.failLastError _
      | some none => exact Keeps.get_bind fun w => h.frame.refl w
      | some (some error) =>
          exact Keeps.bind h.frame (h.storeError _) fun _ => Keeps.pure h.frame _

theorem cmdResetError (db : Option CString) : Keeps R (mongoSyncCmdResetError N db) := by
  refine Keeps.bind h.frame (h.storeError none) (fun _ => ?_)
  refine Keeps.bind h.frame (h.ask _ _) (fun p => ?_)
  cases p with
  | none => exact Keeps.pure h.frame _
  | some p => exact Keeps.pure h.frame _

theorem cmdVerifyResult (ns : Option CString) : Keeps R (mongoSyncCmdVerifyResult N ns) := by
  cases ns with
  | none => exact Keeps.pure h.frame _
  | some ns =>
      refine Keeps.get_bind fun w => ?_
      refine Keeps.ite (Keeps.pure h.frame _) ?_ w
      refine Keeps.bind h.frame (h.cmdGetLastError _) (fun r => ?_)
      cases r with
      | none => exact Keeps.pure h.frame _
      | some r => exact Keeps.pure h.frame _

end AskRule

/-- What is needed to show that the commands on a socket keep `R`. -/
structure SocketRule (R : World σ → World σ → Prop) : Prop where
  frame : Frame R
  errno : ∀ e, Keeps R (setErrno e)
  send : ∀ {p : MongoPacket}, p.IsCommand N.order → Keeps R (mongoPacketSend N p)
  recv : Keeps R (mongoPacketRecv N)
  /-- Storing an error or a part of the replica set. -/
  store : ∀ {f : MongoSyncConnection → MongoSyncConnection}, (∀ c, ∃ lastError hosts primary,
      f c = { c with lastError := lastError, rs := ⟨c.rs.seeds, hosts, primary⟩ }) →
    Keeps R (setConn f)
  ping : ∀ w, R w { w with log := w.log ++ [.ping w.conn.fd] }
  isMaster : ∀ w, R w { w with log := w.log ++ [.isMaster w.conn.fd] }

namespace SocketRule

variable {N} {R : World σ → World σ → Prop} (h : SocketRule N R)
include h

theorem command : CommandRule N R where
  frame := h.frame
  errno := h.errno
  send := h.send
  reply rid := Keeps.bind h.frame (mongoSyncPacketRecv_keeps N h.frame h.errno h.recv rid _)
    fun p => mongoSyncPacketCheckError_keeps h.frame h.errno
      (fun err => h.store fun _ => ⟨err, _, _, rfl⟩) p true

theorem cmdCustomBare (db : Option CString) (command : Option Bson) :
    Keeps R (mongoSyncCmdCustomBare N db command) := h.command.cmdCustomBare db command

theorem asking : AskRule N R where
  frame := h.frame
  errno := h.errno
  recv := h.recv
  ask := h.cmdCustomBare
  store := h.store
  ping := h.ping
  isMaster := h.isMaster

theorem read {α : Type} (x : Except Halt (Except Errno α)) : Keeps R (readOrErrno x) :=
  h.asking.read x

theorem fail {α : Type} (e : Errno) (a : α) : Keeps R (do setErrno e; return a) := h.asking.fail e a

theorem storeError (err : Option CString) : Keeps R (setConn fun c => { c with lastError := err }) :=
  h.asking.storeError err

theorem packetRecv (rid flags : BitVec 32) : Keeps R (mongoSyncPacketRecv N rid flags) :=
  h.asking.packetRecv rid flags

theorem cmdPing : Keeps R (mongoSyncCmdPing N) := h.asking.cmdPing

theorem cmdIsMaster : Keeps R (mongoSyncCmdIsMaster N) := h.asking.cmdIsMaster

theorem lastError (e : Errno) : Keeps R (setLastError N e) := h.asking.lastError e

theorem cmdGetLastErrorFull (db : Option CString) : Keeps R (mongoSyncCmdGetLastErrorFull N db) :=
  h.asking.cmdGetLastErrorFull db

theorem cmdGetLastError (db : Option CString) : Keeps R (mongoSyncCmdGetLastError N db) :=
  h.asking.cmdGetLastError db

theorem cmdResetError (db : Option CString) : Keeps R (mongoSyncCmdResetError N db) :=
  h.asking.cmdResetError db

theorem cmdVerifyResult (ns : Option CString) : Keeps R (mongoSyncCmdVerifyResult N ns) :=
  h.asking.cmdVerifyResult ns

end SocketRule

/-! ## Staying on a socket -/

/-- The events of a command that stays on a socket. -/
def Event.Polls (o : ByteOrder) (fd : Int) : Event → Prop
  | .send fd' p _ => fd' = fd ∧ p.IsCommand o
  | .ping fd' => fd' = fd
  | .isMaster fd' => fd' = fd
  | _ => False

/-- What a command on the socket of the connection may change. -/
structure World.Polls (o : ByteOrder) (w w' : World σ) : Prop where
  /-- The request id, the last error and what is known of the replica set. -/
  conn : ∃ requestId lastError hosts primary, w'.conn =
    { w.conn with
      requestId := requestId
      lastError := lastError
      rs := ⟨w.conn.rs.seeds, hosts, primary⟩ }
  nextFd : w'.nextFd = w.nextFd
  log : ∃ es, w'.log = w.log ++ es ∧ ∀ e ∈ es, e.Polls o w.conn.fd

theorem World.Polls.fd {o : ByteOrder} {w w' : World σ} (h : w.Polls o w') :
    w'.conn.fd = w.conn.fd := by
  obtain ⟨_, _, _, _, hconn⟩ := h.conn
  rw [hconn]

theorem World.Polls.frame (o : ByteOrder) : Frame (World.Polls (σ := σ) o) where
  refl w := ⟨⟨_, _, _, _, rfl⟩, rfl, [], by simp, by simp⟩
  trans {u v w} h h' := by
    refine ⟨?_, h'.nextFd.trans h.nextFd, ?_⟩
    · obtain ⟨_, _, _, _, hv⟩ := h.conn
      obtain ⟨_, _, _, _, hw⟩ := h'.conn
      rw [hw, hv]
      exact ⟨_, _, _, _, rfl⟩
    · obtain ⟨es, hes, hall⟩ := h.log
      obtain ⟨es', hes', hall'⟩ := h'.log
      refine ⟨es ++ es', by rw [hes', hes, List.append_assoc], fun e he => ?_⟩
      rcases List.mem_append.mp he with he | he
      · exact hall e he
      · have := hall' e he
        rwa [h.fd] at this

theorem World.Still.polls (o : ByteOrder) {w w' : World σ} (h : w.Still w') : w.Polls o w' := by
  refine ⟨?_, h.nextFd, [], by rw [h.log, List.append_nil], by simp⟩
  rw [h.conn]
  exact ⟨_, _, _, _, rfl⟩

/-- Storing an error or a part of the replica set. -/
theorem setConn_polls (o : ByteOrder) {f : MongoSyncConnection → MongoSyncConnection}
    (h : ∀ c, ∃ lastError hosts primary,
      f c = { c with lastError := lastError, rs := ⟨c.rs.seeds, hosts, primary⟩ }) :
    Keeps (World.Polls (σ := σ) o) (setConn f) := by
  intro w
  obtain ⟨lastError, hosts, primary, hf⟩ := h w.conn
  exact ⟨⟨_, lastError, hosts, primary, hf⟩, rfl, [], by simp, by simp⟩

theorem setErrno_polls (o : ByteOrder) (e : Errno) :
    Keeps (World.Polls (σ := σ) o) (setErrno e) :=
  fun _ => ⟨⟨_, _, _, _, rfl⟩, rfl, [], by simp, by simp⟩

theorem mongoPacketSend_polls {p : MongoPacket} (hp : p.IsCommand N.order) :
    Keeps (World.Polls N.order) (mongoPacketSend N p) := by
  intro w
  refine wp_mono (mongoPacketSend_spec N p w) (fun ok w' h => ?_) (fun _ h => h.elim)
  obtain ⟨count, hlog, -, hfd, hconn⟩ := h
  refine ⟨?_, hfd, [.send w.conn.fd p count], hlog, ?_⟩
  · rw [hconn]
    exact ⟨_, _, _, _, rfl⟩
  · intro e he
    rw [List.mem_singleton] at he
    subst he
    exact ⟨rfl, hp⟩

/-- Recording an event of the socket. -/
theorem World.Polls.emit (o : ByteOrder) {w : World σ} {e : Event} (h : e.Polls o w.conn.fd) :
    w.Polls o { w with log := w.log ++ [e] } := by
  refine ⟨⟨_, _, _, _, rfl⟩, rfl, [e], rfl, fun e' he => ?_⟩
  rw [List.mem_singleton] at he
  subst he
  exact h

theorem pollsRule : SocketRule N (World.Polls N.order) where
  frame := World.Polls.frame _
  errno := setErrno_polls _
  send := mongoPacketSend_polls N
  recv := (mongoPacketRecv_still N).mono fun _ _ h => h.polls _
  store := setConn_polls _
  ping _ := World.Polls.emit _ rfl
  isMaster _ := World.Polls.emit _ rfl

theorem mongoSyncCmdCustomBare_polls (db : Option CString) (command : Option Bson) :
    Keeps (World.Polls N.order) (mongoSyncCmdCustomBare N db command) :=
  (pollsRule N).cmdCustomBare db command

theorem mongoSyncCmdPing_polls : Keeps (World.Polls N.order) (mongoSyncCmdPing N) :=
  (pollsRule N).cmdPing

theorem mongoSyncCmdIsMaster_polls : Keeps (World.Polls N.order) (mongoSyncCmdIsMaster N) :=
  (pollsRule N).cmdIsMaster

theorem mongoSyncCmdVerifyResult_polls (ns : Option CString) :
    Keeps (World.Polls N.order) (mongoSyncCmdVerifyResult N ns) :=
  (pollsRule N).cmdVerifyResult ns

end LibMongo
