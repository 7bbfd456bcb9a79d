import LibMongo.Sync.Admin
import LibMongo.Sync.Bulk
import LibMongo.Sync.IndexName
import LibMongo.Sync.Report

/-!
# The verdict on a write

In safe mode a write is followed by `getlasterror`, and reported as successful if
that finds no error.  `mongo_sync_cmd_get_last_error` does not always report what the
reply says: if the reply says that there is no error, it reports the error that the
connection remembers, which may be that of an earlier command
(`mongoSyncCmdVerifyResult_iff`).

`Command` is a call of the client and `Issued` follows a run of such calls to the
writes whose packets are sent in safe mode.  `safe_mode_verdict` says on which of
them the verdict is right.
-/

namespace LibMongo

open Bytes Program

variable {σ : Type} (N : Net σ)

/-! ## The verdict -/

/-- A reply carries `err = null`. -/
def ErrNull (reply : Option Bson) : Prop :=
  ∃ c, bsonFind reply (some errKey) = .ok (some c) ∧ bsonCursorType (some c) = .ok .null

/-- `getlasterror` succeeds, and this is its reply. -/
def LastError (ns : CString) (w : World σ) (reply : Option Bson) : Prop :=
  ∃ t, (mongoSyncCmdGetLastErrorFull N (some (nsDb ns))).exec w = (.ok (some reply), t)

/-- A reply that carries `err = null` reports no error. -/
theorem ErrNull.report {reply : Option Bson} (h : ErrNull reply) :
    mongoSyncGetError reply = .ok (.ok none) := by
  obtain ⟨c, hfind, htype⟩ := h
  rw [mongoSyncGetError, findError, hfind]
  simp only [Program.ok_bind]
  show (bsonCursorType (some c) >>= _) = _
  rw [htype]
  rfl

/-- For a reply that is a document this is the first element with the key. -/
theorem errNull_encodes {b : Bson} {d : Doc} (h : b.Encodes d) :
    ErrNull (some b) ↔ d.lookup errKey = some .null := by
  cases herr : d.lookup errKey with
  | none =>
      constructor
      · rintro ⟨c, hfind, -⟩
        rw [bsonFind_none h herr] at hfind
        cases hfind
      · intro hnull
        cases hnull
  | some v =>
      obtain ⟨d₁, d₂, rfl, -, hfind⟩ := bsonFind_some h herr
      constructor
      · rintro ⟨c, hfind', htype⟩
        cases hfind.symm.trans hfind'
        rw [h.cursorType] at htype
        cases v with
        | null => rfl
        | _ => cases htype
      · intro hnull
        cases hnull
        exact ⟨_, hfind, h.cursorType⟩

/-- The last error is the one it was. -/
def SameError (w w' : World σ) : Prop := w'.conn.lastError = w.conn.lastError

theorem SameError.frame : Frame (SameError (σ := σ)) where
  refl _ := rfl
  trans h h' := h'.trans h

/-- A reply that passes the check leaves the last error alone. -/
theorem packetCheckError_sameError (p : Option MongoPacket) (w : World σ) :
    wp (mongoSyncPacketCheckError p true) (fun p' t => p'.isSome → SameError w t)
      (fun _ => True) w := by
  have hnone : ∀ t : World σ, (none : Option MongoPacket).isSome → SameError w t :=
    fun _ h => by cases h
  have hdrop : ∀ (e : Errno) (t : World σ),
      wp (do setErrno e; return (none : Option MongoPacket))
        (fun p' t => p'.isSome → SameError w t) (fun _ => True) t :=
    fun e t => hnone _
  cases p with
  | none => exact hnone w
  | some p =>
      rw [mongoSyncPacketCheckError, wp_bind]
      refine wp_readOrErrno (fun b _ => ?_) (fun _ _ => hnone _) (fun _ _ => trivial)
      refine wp_ite (fun _ => ?_) (fun h => absurd rfl h)
      rw [wp_bind]
      refine wp_ofExcept (fun r _ => ?_) (fun _ _ => trivial)
      refine wp_ite (fun _ _ => rfl) (fun _ => ?_)
      rw [wp_bind, wp_setConn, wp_bind]
      refine wp_readOrErrno (fun err _ => ?_) (fun _ _ => hnone _) (fun _ _ => trivial)
      rw [wp_bind, wp_setConn]
      exact hdrop _ _

/-- A command that succeeds leaves the last error as it was. -/
theorem mongoSyncCmdCustomBare_sameError {db : Option CString} {command : Option Bson}
    {w t : World σ} {p : MongoPacket}
    (h : (mongoSyncCmdCustomBare N db command).exec w = (.ok (some p), t)) : SameError w t := by
  have hF := SameError.frame (σ := σ)
  have hsend : ∀ p, Keeps SameError (mongoPacketSend N p) := by
    intro p u
    refine wp_mono (mongoPacketSend_spec N p u) (fun ok v hv => ?_) (fun _ h => h.elim)
    obtain ⟨count, -, -, -, hconn⟩ := hv
    rw [SameError, hconn]
  have hwp : wp (mongoSyncCmdCustomBare N db command) (fun p' t => p'.isSome → SameError w t)
      (fun _ => True) w := by
    rw [mongoSyncCmdCustomBare, mongoSyncCmdCustomWith, wp_bind, wp_get]
    dsimp only
    rw [wp_bind]
    refine wp_orErrno (fun p _ => ?_) (fun _ _ h => by cases h)
    dsimp only
    rw [wp_bind]
    refine wp_mono (mongoSyncPacketSendWith_keeps N hF.halts (fun _ _ => rfl) (hsend p)
      (unreached_keeps hF _) (fun h => by cases h) _ w) (fun sent u hu => ?_)
      (fun _ _ => trivial)
    refine wp_ite (fun _ => ?_) (fun _ h => by cases h)
    rw [wp_bind]
    refine wp_mono (mongoSyncPacketRecv_still N _ _ u) (fun reply v hv => ?_) (fun _ _ => trivial)
    have huv : SameError w v := hF.trans hu (by rw [SameError, hv.conn])
    exact wp_mono (packetCheckError_sameError reply v) (fun _ _ h hs => hF.trans huv (h hs))
      (fun _ _ => trivial)
  exact wp_ok hwp h rfl

/-- `getlasterror` that succeeds leaves the last error as it was. -/
theorem LastError.exec {ns : CString} {w : World σ} {reply : Option Bson}
    (h : LastError N ns w reply) :
    ∃ t, (mongoSyncCmdGetLastErrorFull N (some (nsDb ns))).exec w = (.ok (some reply), t) ∧
      SameError w t := by
  obtain ⟨t, h⟩ := h
  refine ⟨t, h, ?_⟩
  rw [mongoSyncCmdGetLastErrorFull] at h
  obtain ⟨p, u, hcustom, h⟩ := exec_bind_eq_ok.mp h
  cases p with
  | none => cases h
  | some p =>
      have hu := mongoSyncCmdCustomBare_sameError N hcustom
      obtain ⟨error, v, hread, h⟩ := exec_bind_eq_ok.mp h
      have hv := wp_ok (readOrErrno_still _ u) hread
      cases error with
      | none => cases h
      | some error =>
          cases h
          exact SameError.frame.trans hu (by rw [SameError, hv.conn])

/-- The verdict is good exactly if `getlasterror` succeeds, its reply says that there is
no error, and the connection remembers none. -/
theorem mongoSyncCmdVerifyResult_iff {ns : CString} {w : World σ}
    (hsafe : w.conn.safeMode = true) :
    ((mongoSyncCmdVerifyResult N (some ns)).exec w).1 = .ok true
      ↔ w.conn.lastError = none ∧ ∃ reply, LastError N ns w reply ∧
          mongoSyncGetError reply = .ok (.ok none) := by
  rw [mongoSyncCmdVerifyResult, exec_get_bind, hsafe, if_neg (by decide)]
  constructor
  · intro h
    obtain ⟨error, u, herror, h⟩ := exec_bind_eq_ok.mp (exec_of_fst h rfl)
    cases error with
    | none => cases h
    | some error =>
        have hnone : error = none := by
          cases error with
          | none => rfl
          | some e => cases h
        subst hnone
        rw [mongoSyncCmdGetLastError] at herror
        obtain ⟨reply, v, hfull, herror⟩ := exec_bind_eq_ok.mp herror
        cases reply with
        | none => cases herror
        | some reply =>
            have hlast : LastError N ns w reply := ⟨v, hfull⟩
            obtain ⟨v', hfull', hsame⟩ := hlast.exec N
            cases hfull.symm.trans hfull'
            dsimp only at herror
            cases hget : mongoSyncGetError reply with
            | error e =>
                rw [hget] at herror
                cases herror
            | ok found =>
                rw [hget] at herror
                cases found with
                | error e => cases herror
                | ok found =>
                    cases found with
                    | some e => cases herror
                    | none =>
                        refine ⟨?_, reply, hlast, hget⟩
                        rw [← hsame]
                        exact Option.some.inj (Except.ok.inj (congrArg Prod.fst herror))
  · rintro ⟨hnone, reply, hlast, hget⟩
    obtain ⟨t, hfull, hsame⟩ := hlast.exec N
    have herror : (mongoSyncCmdGetLastError N (some (nsDb ns))).exec w = (.ok (some none), t) := by
      rw [mongoSyncCmdGetLastError, exec_bind_ok hfull]
      dsimp only
      rw [hget]
      show (Except.ok (some t.conn.lastError), t) = _
      rw [hsame, hnone]
    rw [exec_bind_ok herror]
    rfl

/-! ## Runs -/

/-- A call of the client. -/
inductive Command where
  | setMaxInsertSize (maxSize : Int)
  | setSafeMode (safeMode : Bool)
  | setAutoReconnect (autoReconnect : Bool)
  | setSlaveok (slaveok : Bool)
  | seedAdd (host : CString) (port : Int)
  | reconnect (forceMaster : Bool)
  | update (ns : Option CString) (flags : BitVec 32) (selector update : Option Bson)
  | insertN (ns : Option CString) (docs : Option (List (Option Bson)))
  | insert (ns : Option CString) (docs : List Bson)
  | delete (ns : Option CString) (flags : BitVec 32) (sel : Option Bson)
  | query (ns : Option CString) (flags skip ret : BitVec 32) (query sel : Option Bson)
  | getMore (ns : Option CString) (ret : BitVec 32) (cursorId : BitVec 64)
  | killCursors (cids : List (BitVec 64))
  | custom (db : Option CString) (command : Option Bson)
  | ping
  | isMaster
  | getLastError (db : Option CString)
  | getLastErrorFull (db : Option CString)
  | resetError (db : Option CString)
  | authenticate (db user pw : CString)
  | count (db coll : Option CString) (query : Option Bson)
  | create (db coll : Option CString) (flags : BitVec 32) (size max : BitVec 64)
  | drop (db coll : Option CString)
  | «exists» (db coll : Option CString)
  | userAdd (db user pw : Option CString) (roles : Option Bson)
  | userRemove (db user : Option CString)
  | indexCreate (host : GDouble → BitVec 64) (ns : Option CString) (key : Option Bson)
      (options : BitVec 32)
  | indexDrop (host : GDouble → BitVec 64) (ns : Option CString) (key : Option Bson)
  | indexDropAll (ns : Option CString)

/-- Running a call, for as many nested calls of `mongo_sync_reconnect` as the fuel
says.  Whether it returns `TRUE`, or something else than `NULL` or -1. -/
def Command.run (fuel : Nat) : Command → Program (World σ) Bool
  | .setMaxInsertSize maxSize => mongoSyncConnSetMaxInsertSize maxSize
  | .setSafeMode safeMode => mongoSyncConnSetSafeMode safeMode
  | .setAutoReconnect autoReconnect => mongoSyncConnSetAutoReconnect autoReconnect
  | .setSlaveok slaveok => mongoSyncConnSetSlaveok slaveok
  | .seedAdd host port => mongoSyncConnSeedAdd host port
  | .reconnect forceMaster => mongoSyncReconnect N fuel forceMaster
  | .update ns flags selector upd =>
      mongoSyncCmdUpdate N (mongoSyncReconnect N fuel) ns flags selector upd
  | .insertN ns docs => mongoSyncCmdInsertN N (mongoSyncReconnect N fuel) ns docs
  | .insert ns docs => mongoSyncCmdInsert N (mongoSyncReconnect N fuel) ns docs
  | .delete ns flags sel => mongoSyncCmdDelete N (mongoSyncReconnect N fuel) ns flags sel
  | .query ns flags skip ret q sel =>
      Option.isSome <$> mongoSyncCmdQuery N (mongoSyncReconnect N fuel) ns flags skip ret q sel
  | .getMore ns ret cursorId =>
      Option.isSome <$> mongoSyncCmdGetMore N (mongoSyncReconnect N fuel) ns ret cursorId
  | .killCursors cids => mongoSyncCmdKillCursors N (mongoSyncReconnect N fuel) cids
  | .custom db command =>
      Option.isSome <$> mongoSyncCmdCustom N (mongoSyncReconnect N fuel) db command
  | .ping => mongoSyncCmdPing N
  | .isMaster => mongoSyncCmdIsMaster N
  | .getLastError db => Option.isSome <$> mongoSyncCmdGetLastError N db
  | .getLastErrorFull db => Option.isSome <$> mongoSyncCmdGetLastErrorFull N db
  | .resetError db => mongoSyncCmdResetError N db
  | .authenticate db user pw => mongoSyncCmdAuthenticate N (mongoSyncReconnect N fuel) db user pw
  | .count db coll q =>
      (fun d => d != doubleMinusOne) <$>
        mongoSyncCmdCount N (mongoSyncReconnect N fuel) db coll q
  | .create db coll flags size max =>
      mongoSyncCmdCreate N (mongoSyncReconnect N fuel) db coll flags size max
  | .drop db coll => mongoSyncCmdDrop N (mongoSyncReconnect N fuel) db coll
  | .«exists» db coll =>
      Option.isSome <$> mongoSyncCmdExists N (mongoSyncReconnect N fuel) db coll
  | .userAdd db user pw roles =>
      mongoSyncCmdUserAddWithRoles N (mongoSyncReconnect N fuel) db user pw roles
  | .userRemove db user => mongoSyncCmdUserRemove N (mongoSyncReconnect N fuel) db user
  | .indexCreate host ns key options =>
      mongoSyncCmdIndexCreate N host (mongoSyncReconnect N fuel) ns key options
  | .indexDrop host ns key =>
      mongoSyncCmdIndexDrop N host (mongoSyncReconnect N fuel) ns key
  | .indexDropAll ns => mongoSyncCmdIndexDropAll N (mongoSyncReconnect N fuel) ns

/-- The write that a call consists of: an insert of finished documents, adding or removing a
user, or creating an index. -/
inductive Command.Writes : Command → Command → Prop
  | insert {ns : CString} {docs : List Bson} :
      (∀ d ∈ docs, ¬ bsonSize (some d) < 0) →
      Writes (.insert (some ns) docs) (.insertN (some ns) (some (docs.map some)))
  | userAdd {db user pw : CString} {roles : Option Bson} :
      Writes (.userAdd (some db) (some user) (some pw) roles)
        (.update (some (db.append systemUsers)) flagUpdateUpsert (userSelector user)
          (userUpdate (passDigest N user pw) roles))
  | userRemove {db user : CString} :
      Writes (.userRemove (some db) (some user))
        (.delete (some (db.append systemUsers)) 0 (userSelector user))
  | indexCreate {host : GDouble → BitVec 64} {ns db coll name : CString} {key : Bson}
      {options : BitVec 32} :
      splitNs ns = some (db, coll) → mongoIndexGenName host key = .ok (some name) →
      Writes (.indexCreate host (some ns) (some key) options)
        (.insertN (some (db.append indexesSuffix)) (some [indexDocument key ns name options]))

/-- Such a call does what its write does. -/
theorem Command.Writes.run_eq {fuel : Nat} {c write : Command} (h : c.Writes N write) :
    c.run N fuel = write.run N fuel := by
  cases h with
  | @insert ns docs hfinished =>
      show mongoSyncCmdInsert N _ (some ns) docs = _
      rw [mongoSyncCmdInsert, if_neg]
      · rfl
      · simpa using hfinished
  | userAdd => rfl
  | userRemove => rfl
  | @indexCreate host ns db coll name key options hsplit hname =>
      show mongoSyncCmdIndexCreate N host _ (some ns) (some key) options = _
      rw [mongoSyncCmdIndexCreate, hsplit]
      dsimp only
      rw [hname]
      rfl

/-- A write whose packet was sent in safe mode. -/
structure SafeWrite (σ : Type) where
  ns : CString
  /-- The state when the packet had been sent. -/
  sent : World σ
  /-- How the call ends for an update, and the round for a packet of a bulk insert. -/
  result : Except Halt Bool

/-- The write is reported as successful. -/
def SafeWrite.Reported (x : SafeWrite σ) : Prop := x.result = .ok true

/-- `getlasterror` for the write succeeds, and its reply carries `err = null`. -/
def SafeWrite.Accepted (x : SafeWrite σ) : Prop :=
  ∃ reply, LastError N x.ns x.sent reply ∧ ErrNull reply

/-- The writes that a call issues. -/
inductive Command.Issues (fuel : Nat) : Command → World σ → SafeWrite σ → Prop
  | update {ns : CString} {flags : BitVec 32} {selector upd : Option Bson} {w u : World σ}
      {p : MongoPacket} :
      w.conn.safeMode = true →
      mongoWireCmdUpdate N.order (w.conn.requestId + 1) (some ns) flags selector upd = .ok p →
      (mongoSyncPacketSend N (mongoSyncReconnect N fuel) p true true).exec w = (.ok true, u) →
      Issues fuel (.update (some ns) flags selector upd) w
        ⟨ns, u, (((Command.update (some ns) flags selector upd).run N fuel).exec w).1⟩
  | batch {ns : CString} {docs rest : List (Option Bson)} {w v u : World σ} {p : MongoPacket} :
      w.conn.safeMode = true → docs ≠ [] → (∀ b ∈ docs, bsonSize b < w.conn.maxInsertSize) →
      Batches N (mongoSyncReconnect N fuel) ns docs w rest v →
      batchPacket N ns rest v = .ok p →
      (mongoSyncPacketSend N (mongoSyncReconnect N fuel) p true true).exec v = (.ok true, u) →
      Issues fuel (.insertN (some ns) (some docs)) w
        ⟨ns, u, ((insertBatch N (mongoSyncReconnect N fuel) ns
          (batchLength v.conn.maxInsertSize rest) rest).exec v).1⟩
  | within {c write : Command} {w : World σ} {x : SafeWrite σ} :
      c.Writes N write → Issues fuel write w x → Issues fuel c w x

/-- The writes that are issued in a run. -/
inductive Issued (fuel : Nat) : World σ → SafeWrite σ → Prop
  | now {c : Command} {w : World σ} {x : SafeWrite σ} : c.Issues N fuel w x → Issued fuel w x
  | later {c : Command} {w w' : World σ} {ok : Bool} {x : SafeWrite σ} :
      (c.run N fuel).exec w = (.ok ok, w') → Issued fuel w' x → Issued fuel w x

/-- A packet that is sent leaves the settings. -/
theorem mongoSyncPacketSend_settings {fuel : Nat} {p : MongoPacket} {w u : World σ} {ok : Bool}
    (h : (mongoSyncPacketSend N (mongoSyncReconnect N fuel) p true true).exec w = (.ok ok, u)) :
    w.conn.SameSettings u.conn :=
  (wp_ok (mongoSyncPacketSend_attempts N fuel p w) h).1

/-- A round of a bulk insert leaves them too. -/
theorem insertBatch_settings {fuel : Nat} {ns : CString} {c : Int} {docs : List (Option Bson)}
    {w u : World σ} {ok : Bool}
    (h : (insertBatch N (mongoSyncReconnect N fuel) ns c docs).exec w = (.ok ok, u)) :
    w.conn.SameSettings u.conn := by
  rw [insertBatch] at h
  obtain ⟨p, v, hnext, h⟩ := exec_bind_eq_ok.mp h
  have hv : v.conn = w.conn := by
    rw [nextPacket, exec_get_bind] at hnext
    exact (wp_ok (orErrno_still _ w) hnext).conn
  cases p with
  | none =>
      cases h
      rw [hv]
      exact .refl _
  | some p =>
      obtain ⟨sent, x, hsend, h⟩ := exec_bind_eq_ok.mp h
      have hsettings := mongoSyncPacketSend_settings N hsend
      rw [hv] at hsettings
      refine hsettings.trans ?_
      cases sent with
      | false =>
          cases h
          exact ⟨rfl, rfl, rfl, rfl, rfl, rfl⟩
      | true =>
          rw [if_neg (by decide)] at h
          exact (wp_ok (mongoSyncCmdVerifyResult_polls N (some ns) x) h).roams.settings

theorem Batches.settings {fuel : Nat} {ns : CString} {docs rest : List (Option Bson)}
    {w u : World σ} (h : Batches N (mongoSyncReconnect N fuel) ns docs w rest u) :
    w.conn.SameSettings u.conn := by
  induction h with
  | first => exact .refl _
  | next c hc hrun hmore _ ih => exact (insertBatch_settings N hrun).trans ih

/-- What is asked for a write is the verdict. -/
theorem Command.Issues.verdict {fuel : Nat} {c : Command} {w : World σ} {x : SafeWrite σ}
    (h : c.Issues N fuel w x) :
    x.sent.conn.safeMode = true ∧
      x.result = ((mongoSyncCmdVerifyResult N (some x.ns)).exec x.sent).1 := by
  induction h with
  | within _ _ ih => exact ih
  | @update ns flags selector upd w u p hsafe hpacket hsent =>
      refine ⟨(mongoSyncPacketSend_settings N hsent).safeMode.trans hsafe, ?_⟩
      have hnext : (nextPacket (fun rid =>
          mongoWireCmdUpdate N.order rid (some ns) flags selector upd)).exec w
            = (.ok (some p), w) := by
        rw [nextPacket, exec_get_bind, hpacket]
        rfl
      rw [Command.run, mongoSyncCmdUpdate, exec_bind_ok hnext]
      dsimp only
      rw [sendAndVerify, exec_bind_ok hsent]
      rfl
  | @batch ns docs rest w v u p hsafe hne hsmall hbatches hpacket hsent =>
      refine ⟨?_, ?_⟩
      · exact ((hbatches.settings N).trans (mongoSyncPacketSend_settings N hsent)).safeMode.trans
          hsafe
      · rw [exec_insertBatch N rfl hpacket, hsent]

/-- Whenever `getlasterror` for the write succeeds and reports no error: the connection
remembers an error exactly if the reply does not say so under `err`. -/
def SafeWrite.Clear (x : SafeWrite σ) : Prop :=
  ∀ reply, LastError N x.ns x.sent reply → mongoSyncGetError reply = .ok (.ok none) →
    (ErrNull reply ↔ x.sent.conn.lastError = none)

/-- A getlasterror has one reply. -/
theorem LastError.unique {ns : CString} {w : World σ} {r r' : Option Bson}
    (h : LastError N ns w r) (h' : LastError N ns w r') : r = r' := by
  obtain ⟨t, h⟩ := h
  obtain ⟨t', h'⟩ := h'
  exact Option.some.inj (Except.ok.inj (congrArg Prod.fst (h.symm.trans h')))

/-- In every run, a write whose packet is sent in safe mode is reported as successful
exactly if the server accepts it, if and only if `SafeWrite.Clear` holds for it. -/
theorem safe_mode_verdict (fuel : Nat) (w : World σ) (x : SafeWrite σ) (h : Issued N fuel w x) :
    (x.Reported ↔ x.Accepted N) ↔ x.Clear N := by
  induction h with
  | later _ _ ih => exact ih
  | now hissues =>
      obtain ⟨hsafe, hresult⟩ := hissues.verdict N
      rw [SafeWrite.Reported, hresult, mongoSyncCmdVerifyResult_iff N hsafe]
      constructor
      · intro hright reply hlast hreport
        constructor
        · intro hnull
          exact (hright.mpr ⟨reply, hlast, hnull⟩).1
        · intro hnone
          obtain ⟨reply', hlast', hnull⟩ := hright.mp ⟨hnone, reply, hlast, hreport⟩
          rwa [hlast.unique N hlast']
      · intro hclear
        constructor
        · rintro ⟨hnone, reply, hlast, hreport⟩
          exact ⟨reply, hlast, (hclear reply hlast hreport).mpr hnone⟩
        · rintro ⟨reply, hlast, hnull⟩
          exact ⟨(hclear reply hlast hnull.report).mp hnull, reply, hlast, hnull.report⟩

/-! ## An error that is not forgotten -/

section Grudge

/-- The server refuses a command, says that it is a master, and accepts an update. -/
def grudgeWorld : World Bytes where
  net :=
    (Reply.mk 7 1 0 0 0 [.cons okKey (.double 0) (.cons errmsgKey (.string [110, 111]) .nil)]).bytes ++
    ((Reply.mk 8 2 0 0 0 [.cons ismasterKey (.boolean 1) (.cons okKey (.double doubleOne) .nil)]).bytes ++
      (Reply.mk 9 3 0 0 0 [.cons errKey .null (.cons okKey (.double doubleOne) .nil)]).bytes)
  conn := mongoSyncConnInit ⟨5, 0⟩ false
  errno := .ok
  nextFd := 6
  log := []

/-- The command that is refused. -/
def refusedCommand : Command := .custom (some systemDb) (commandOne pingKey)

/-- The state after the command that was refused. -/
def refusedWorld : World Bytes := ((refusedCommand.run scriptNet 1).exec grudgeWorld).2

/-- Now in safe mode. -/
def safeWorld : World Bytes := (((Command.setSafeMode true).run scriptNet 1).exec refusedWorld).2

/-- The collection of the write. -/
def acceptedNs : CString := .ascii ['d', '.', 'c']

/-- An update with empty documents. -/
def acceptedUpdate : Command :=
  .update (some acceptedNs) 0 (bsonFinish (some bsonNew)).2 (bsonFinish (some bsonNew)).2

/-- The packet of the update. -/
def acceptedPacket : MongoPacket :=
  match mongoWireCmdUpdate .little 2 (some acceptedNs) 0 (bsonFinish (some bsonNew)).2
    (bsonFinish (some bsonNew)).2 with
  | .ok p => p
  | .error _ => mongoWirePacketNew .little

/-- The write, with the state in which its packet was sent and what it returned. -/
def acceptedWrite : SafeWrite Bytes where
  ns := acceptedNs
  sent := ((mongoSyncPacketSend scriptNet (mongoSyncReconnect scriptNet 1) acceptedPacket true
    true).exec safeWorld).2
  result := ((acceptedUpdate.run scriptNet 1).exec safeWorld).1

theorem acceptedWrite_issued : Issued scriptNet 1 grudgeWorld acceptedWrite := by
  have hrefused : (refusedCommand.run scriptNet 1).exec grudgeWorld = (.ok false, refusedWorld) :=
    exec_of_fst (by decide +kernel) (by rw [refusedWorld])
  have hsafe : ((Command.setSafeMode true).run scriptNet 1).exec refusedWorld
      = (.ok true, safeWorld) := exec_of_fst (by decide +kernel) (by rw [safeWorld])
  refine .later hrefused (.later hsafe (.now (.update (p := acceptedPacket) ?_ ?_ ?_)))
  · decide +kernel
  · decide +kernel
  · exact exec_of_fst (by decide +kernel) rfl

/-- The verdict on the update is right exactly if nothing is remembered. -/
theorem safe_mode_verdict_sample :
    (acceptedWrite.Reported ↔ acceptedWrite.Accepted scriptNet)
      ↔ acceptedWrite.Clear scriptNet :=
  safe_mode_verdict scriptNet 1 grudgeWorld acceptedWrite acceptedWrite_issued

/-- The server accepts the update, and it is reported as a failure. -/
theorem safe_mode_verdict_grudge :
    Issued scriptNet 1 grudgeWorld acceptedWrite ∧ acceptedWrite.Accepted scriptNet ∧
      acceptedWrite.result = .ok false := by
  have hreply : ((mongoSyncCmdGetLastErrorFull scriptNet (some (nsDb acceptedNs))).exec
      acceptedWrite.sent).1
        = .ok (some (some ⟨(Doc.cons errKey .null (.cons okKey (.double doubleOne) .nil)).encode,
            true⟩)) := by decide +kernel
  have hencodes : Bson.Encodes
      ⟨(Doc.cons errKey .null (.cons okKey (.double doubleOne) .nil)).encode, true⟩
      (.cons errKey .null (.cons okKey (.double doubleOne) .nil)) := ⟨rfl, rfl, by decide +kernel⟩
  refine ⟨acceptedWrite_issued, ⟨_, ⟨_, exec_of_fst hreply rfl⟩, ?_⟩, by decide +kernel⟩
  exact (errNull_encodes hencodes).mpr rfl

end Grudge

end LibMongo
