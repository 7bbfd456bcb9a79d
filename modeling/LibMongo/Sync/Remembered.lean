import LibMongo.Sync.Pairing
import LibMongo.Sync.Refusal
import LibMongo.Sync.Submission

/-!
# The error that a connection remembers

`mongo_sync_conn_get_last_error` is to tell about the last command.  The field it reads is
set by a reply that reports an error, and cleared by the reply to a query and when the
connection is replaced.  A command whose reply says that it worked leaves it alone, and so
does a write that nobody asks about.  So an error is still told after a command that
succeeded, until something clears it.

* *Replies.*  `MongoPacket.Reports` is what the first document of a reply says about an
  error, and an `Exchange` is a request of a call that was sent, with the reply to it.
* *Calls.*  `Command.HandsOver` gives the states in which the packet goes out that decides
  about a call nobody asks about.
* *Runs.*  `last_error_follows` is about every run: as long as such a packet goes out
  only while no error is remembered, and no report is lost on its way, each call leaves
  the error that it should.
-/

namespace LibMongo

open Bytes Program

variable {σ : Type} (N : Net σ)

/-- `mongo_sync_conn_get_last_error`. -/
def mongoSyncConnGetLastError (conn : MongoSyncConnection) : Option CString := conn.lastError

/-! ## What a reply says -/

namespace MongoPacket

/-- The first document of a reply. -/
def First (r : MongoPacket) (b : Option Bson) : Prop :=
  ∃ b', mongoWireReplyPacketGetNthDocument (some r) 1 = .ok (.ok b') ∧ b = (bsonFinish b').2

/-- It reports an error with this text. -/
def Reports (r : MongoPacket) (e : CString) : Prop :=
  ∃ b, r.First b ∧ mongoSyncGetError b = .ok (.ok (some e))

/-- It does not say that the command worked. -/
def Refuses (r : MongoPacket) : Prop := ∃ b e, r.First b ∧ mongoSyncCheckOk b = .ok (false, e)

/-- It says that the command worked. -/
def Accepts (r : MongoPacket) : Prop := ∃ b e, r.First b ∧ mongoSyncCheckOk b = .ok (true, e)

/-- Its header has none of these flags. -/
def Unflagged (r : MongoPacket) (flags : BitVec 32) : Prop :=
  ∃ h, mongoWireReplyPacketGetHeader (some r) = .ok (.ok h) ∧ h.flags &&& flags = 0

end MongoPacket

section Replies

variable {N} {r : MongoPacket} {e : CString} {w : World σ}

/-- A reply has one first document. -/
theorem MongoPacket.First.unique {b b' : Option Bson} (h : r.First b) (h' : r.First b') :
    b = b' := by
  obtain ⟨a, ha, rfl⟩ := h
  obtain ⟨a', ha', rfl⟩ := h'
  rw [ha] at ha'
  cases ha'
  rfl

theorem MongoPacket.First.exec_read {b : Option Bson} (h : r.First b) (w : World σ) :
    ∃ b', (readOrErrno (mongoWireReplyPacketGetNthDocument (some r) 1)).exec w
      = (.ok (some b'), w) ∧ b = (bsonFinish b').2 := by
  obtain ⟨b', hread, rfl⟩ := h
  exact ⟨b', by rw [hread]; rfl, rfl⟩

/-- A reply with a document passes the checks of its header unless it is flagged. -/
theorem exec_packetRecv_first {b : Option Bson} {rid flags : BitVec 32} {y : World σ}
    (hrecv : (mongoPacketRecv N).exec w = (.ok (some r), y)) (hid : r.header.respTo = rid)
    (hflags : r.Unflagged flags) (hfirst : r.First b) :
    (mongoSyncPacketRecv N rid flags).exec w = (.ok (some r), y) := by
  obtain ⟨h, hheader, hnone⟩ := hflags
  have hread : (readOrErrno (mongoWireReplyPacketGetHeader (some r))).exec y
      = (.ok (some h), y) := by
    rw [hheader]
    rfl
  have hreturned : h.returned ≠ 0 := by
    intro hzero
    obtain ⟨b', hnth, -⟩ := hfirst
    rw [mongoWireReplyPacketGetNthDocument, if_neg (by decide)] at hnth
    split at hnth
    · cases hnth
    · rw [hheader, Program.ok_bind] at hnth
      dsimp only at hnth
      rw [hzero, if_pos (by decide)] at hnth
      cases hnth
  rw [mongoSyncPacketRecv, exec_bind_ok hrecv]
  dsimp only
  rw [if_neg (fun hne => hne hid), exec_bind_ok hread]
  dsimp only
  rw [if_neg (fun hne => hne hnone), if_neg hreturned]
  rfl

/-- A report in the reply to a query is stored. -/
theorem exec_checkError_query (h : r.Reports e) (w : World σ) :
    ∃ t, (mongoSyncPacketCheckError (some r) false).exec w = (.ok none, t) ∧
      t.conn.lastError = some e := by
  obtain ⟨b, hfirst, herror⟩ := h
  obtain ⟨b', hread, rfl⟩ := hfirst.exec_read w
  rw [mongoSyncPacketCheckError, exec_bind_ok hread]
  dsimp only
  rw [if_neg (by decide), setConn, exec_modify_bind, herror]
  exact ⟨_, rfl, rfl⟩

/-- A report in the reply to a command that did not work is stored. -/
theorem exec_checkError_refused (h : r.Reports e) (hrefuses : r.Refuses) (w : World σ) :
    ∃ t, (mongoSyncPacketCheckError (some r) true).exec w = (.ok none, t) ∧
      t.conn.lastError = some e := by
  obtain ⟨b, hfirst, herror⟩ := h
  obtain ⟨b', e', hfirst', hok⟩ := hrefuses
  obtain rfl := hfirst.unique hfirst'
  obtain ⟨b', hread, rfl⟩ := hfirst.exec_read w
  rw [mongoSyncPacketCheckError, exec_bind_ok hread]
  dsimp only
  rw [if_pos rfl, hok]
  refine ⟨{ w with conn := { w.conn with lastError := some e }, errno := e' }, ?_, rfl⟩
  show (readOrErrno (mongoSyncGetError _) >>= _).exec _ = _
  rw [herror]
  rfl

/-- A reply that says that the command worked is passed on. -/
theorem exec_checkError_accepted (h : r.Accepts) (w : World σ) :
    ∃ t, (mongoSyncPacketCheckError (some r) true).exec w = (.ok (some r), t) := by
  obtain ⟨b, e, hfirst, hok⟩ := h
  obtain ⟨b', hread, rfl⟩ := hfirst.exec_read w
  rw [mongoSyncPacketCheckError, exec_bind_ok hread]
  dsimp only
  rw [if_pos rfl, hok]
  exact ⟨_, rfl⟩

/-- A query that succeeds leaves no error. -/
theorem checkError_query_clears (p : Option MongoPacket) (w : World σ) :
    wp (mongoSyncPacketCheckError p false)
      (fun p' t => p'.isSome → t.conn.lastError = none) (fun _ => True) w := by
  have hnone : ∀ t : World σ, (none : Option MongoPacket).isSome → t.conn.lastError = none :=
    fun _ h => by cases h
  cases p with
  | none => exact hnone w
  | some p =>
      rw [mongoSyncPacketCheckError, wp_bind]
      refine wp_readOrErrno (fun b _ => ?_) (fun _ _ => hnone _) (fun _ _ => trivial)
      refine wp_ite (fun h => absurd h (by decide)) (fun _ => ?_)
      rw [wp_bind, wp_setConn, wp_bind]
      exact wp_readOrErrno (fun _ _ => hnone _) (fun _ _ _ => rfl) (fun _ _ => trivial)

end Replies

/-! ## Requests and their replies -/

/-- What a request asks for. -/
inductive Wanted where
  | documents
  | command
  /-- `getlasterror` behind a write, or for the client, whose error is remembered. -/
  | lastError
  /-- `getlasterror` for the client, who is given the whole reply. -/
  | lastErrorFull
deriving DecidableEq

/-- A request of a call that was sent. -/
structure Exchange (σ : Type) where
  wants : Wanted
  /-- The flags with which a reply is dropped. -/
  failure : BitVec 32
  packet : MongoPacket
  sent : World σ

/-- The request of a query or a command. -/
def ReplyCall.exchange (c : ReplyCall) (p : MongoPacket) (x : World σ) : Exchange σ :=
  ⟨if c.checkOk then .command else .documents, c.failure, p, x⟩

namespace Exchange

/-- The packet that is received answers the request. -/
def Reply (x : Exchange σ) (r : MongoPacket) : Prop :=
  ∃ y, (mongoPacketRecv N).exec x.sent = (.ok (some r), y) ∧
    r.header.respTo = (mongoWirePacketGetHeader N.order x.packet).id

/-- The reply to a command reports an error if the command did not work.  That to a query
does so with a report, and that to `getlasterror` with one about the write or about
`getlasterror` itself. -/
def Reported (x : Exchange σ) (r : MongoPacket) (e : CString) : Prop :=
  x.Reply N r ∧ r.Reports e ∧ (x.wants = .command → r.Refuses)

/-- No report is lost on its way: it does not come with a flag that says that the request
failed, not from a `getlasterror` that did not work, and not in a reply that is handed to the
client whole. -/
def Heard (x : Exchange σ) : Prop :=
  ∀ r e, x.Reported N r e →
    r.Unflagged x.failure ∧ (x.wants = .lastError → r.Accepts) ∧ x.wants ≠ .lastErrorFull

end Exchange

section Exchanges

variable {N} {reconnect : Bool → Program (World σ) Bool} {c : ReplyCall} {v x : World σ}
  {p r : MongoPacket} {e : CString}

/-- A call that has sent its request receives a reply and checks it. -/
theorem ReplyCall.exec_run (h : c.Sends N reconnect v p x) :
    (c.run N reconnect).exec v
      = (mongoSyncPacketRecv N (mongoWirePacketGetHeader N.order p).id c.failure >>= fun reply =>
          mongoSyncPacketCheckError reply c.checkOk).exec x := by
  cases c with
  | query call =>
      obtain ⟨u, hverified, hp, hsent⟩ := h
      rw [(QueryCall.packet_requests hp).id]
      exact QueryCall.exec_run N reconnect hverified hp hsent
  | custom db command checkConn forceMaster =>
      obtain ⟨hp, hsent⟩ := h
      have hbuild : (orErrno (mongoWireCmdCustom N.order (v.conn.requestId + 1) db
          (slaveFlag v.conn) command)).exec v = (.ok (some p), v) := by
        rw [hp]
        rfl
      rw [(mongoWireCmdCustom_requests hp).id, run, mongoSyncCmdCustomWith, exec_get_bind]
      refine (exec_bind_ok hbuild _).trans ?_
      exact exec_bind_ok hsent _

/-- A report that is heard is remembered. -/
theorem ReplyCall.exec_reported (h : c.Sends N reconnect v p x)
    (hreported : (c.exchange p x).Reported N r e) (hheard : (c.exchange p x).Heard N) :
    ∃ t, (c.run N reconnect).exec v = (.ok none, t) ∧ t.conn.lastError = some e := by
  obtain ⟨hflags, -⟩ := hheard r e hreported
  obtain ⟨⟨y, hrecv, hid⟩, hreports, hrefuses⟩ := hreported
  have ⟨b, hfirst, _⟩ := hreports
  have hreply : (mongoSyncPacketRecv N (mongoWirePacketGetHeader N.order p).id c.failure).exec x
      = (.ok (some r), y) := exec_packetRecv_first hrecv hid hflags hfirst
  rw [ReplyCall.exec_run h, exec_bind_ok hreply]
  cases hok : c.checkOk with
  | false => exact exec_checkError_query hreports y
  | true =>
      have hwants : (c.exchange p x).wants = .command := if_pos hok
      exact exec_checkError_refused hreports (hrefuses hwants) y

/-- `getlasterror`. -/
def errorCall (db : Option CString) : ReplyCall :=
  .custom db (commandOne getlasterrorKey) false false

/-- The request of a `getlasterror`. -/
def errorExchange (wants : Wanted) (p : MongoPacket) (x : World σ) : Exchange σ :=
  ⟨wants, replyFlagQueryFail, p, x⟩

/-- A `getlasterror` that works remembers the error it reports. -/
theorem exec_getLastError_reported {db : Option CString}
    (h : (errorCall db).Sends N reconnect v p x)
    (hreported : (errorExchange .lastError p x).Reported N r e)
    (hheard : (errorExchange .lastError p x).Heard N) :
    ∃ t, (mongoSyncCmdGetLastError N db).exec v = (.ok (some (some e)), t) ∧
      t.conn.lastError = some e := by
  obtain ⟨hflags, haccepts, -⟩ := hheard r e hreported
  obtain ⟨⟨y, hrecv, hid⟩, ⟨b, hfirst, herror⟩, -⟩ := hreported
  obtain ⟨s, hcheck⟩ := exec_checkError_accepted (haccepts rfl) y
  have hcustom : (mongoSyncCmdCustomBare N db (commandOne getlasterrorKey)).exec v
      = (.ok (some r), s) := by
    have hreply : (mongoSyncPacketRecv N (mongoWirePacketGetHeader N.order p).id
        replyFlagQueryFail).exec x = (.ok (some r), y) :=
      exec_packetRecv_first hrecv hid hflags hfirst
    exact (ReplyCall.exec_run h).trans ((exec_bind_ok hreply _).trans hcheck)
  obtain ⟨b', hread, hb⟩ := hfirst.exec_read s
  have hfull : (mongoSyncCmdGetLastErrorFull N db).exec v = (.ok (some b), s) := by
    rw [mongoSyncCmdGetLastErrorFull, exec_bind_ok hcustom]
    dsimp only
    rw [exec_bind_ok hread, hb]
    rfl
  refine ⟨{ s with conn := { s.conn with lastError := some e } }, ?_, rfl⟩
  rw [mongoSyncCmdGetLastError, exec_bind_ok hfull]
  dsimp only
  rw [herror]
  rfl

end Exchanges

/-! ## Calls -/

/-- The calls of which the reply is theirs. -/
def Command.replyCall : Command → Option ReplyCall
  | .query ns flags skip ret q sel => some (.query (.query ns flags skip ret q sel))
  | .getMore ns ret cursorId => some (.query (.getMore ns ret cursorId))
  | .custom db command => some (.custom db command true false)
  | .ping => some (.custom (some systemDb) (commandOne pingKey) false false)
  | .isMaster => some (.custom (some systemDb) (commandOne ismasterKey) false false)
  | .count db coll q => some (.custom db (countCommand coll q) true false)
  | .drop db coll => some (.custom db (dropCollectionCommand coll) true true)
  | _ => none

/-- The call drops the index of a collection with this name. -/
inductive Command.DropsIndex : Command → CString → CString → Prop
  | one {host : GDouble → BitVec 64} {ns name : CString} {key : Bson} :
      mongoIndexGenName host key = .ok (some name) →
      DropsIndex (.indexDrop host (some ns) (some key)) ns name
  | all {ns : CString} : DropsIndex (.indexDropAll (some ns)) ns (.ascii ['*'])

/-- The requests of a call that are answered. -/
inductive Command.Exchanges (fuel : Nat) : Command → World σ → Exchange σ → Prop
  | reply {c : Command} {call : ReplyCall} {v x : World σ} {p : MongoPacket} :
      c.replyCall = some call → call.Sends N (mongoSyncReconnect N fuel) v p x →
      Exchanges fuel c v (call.exchange p x)
  | asked {db : Option CString} {v x : World σ} {p : MongoPacket} :
      (errorCall db).Sends N (mongoSyncReconnect N fuel) v p x →
      Exchanges fuel (.getLastError db) v (errorExchange .lastError p x)
  | full {db : Option CString} {v x : World σ} {p : MongoPacket} :
      (errorCall db).Sends N (mongoSyncReconnect N fuel) v p x →
      Exchanges fuel (.getLastErrorFull db) v (errorExchange .lastErrorFull p x)
  | reset {db : Option CString} {v x : World σ} {p : MongoPacket} :
      (ReplyCall.custom db (commandOne reseterrorKey) false false).Sends N
        (mongoSyncReconnect N fuel) { v with conn := { v.conn with lastError := none } } p x →
      Exchanges fuel (.resetError db) v
        ((ReplyCall.custom db (commandOne reseterrorKey) false false).exchange p x)
  | nonce {db user pw : CString} {v x : World σ} {p : MongoPacket} :
      (ReplyCall.custom (some db) (commandOne getnonceKey) true false).Sends N
        (mongoSyncReconnect N fuel) v p x →
      Exchanges fuel (.authenticate db user pw) v
        ((ReplyCall.custom (some db) (commandOne getnonceKey) true false).exchange p x)
  | key {db user pw nonce : CString} {v u x : World σ} {r p : MongoPacket} {b : Option Bson} :
      (mongoSyncCmdCustom N (mongoSyncReconnect N fuel) (some db) (commandOne getnonceKey)).exec v
        = (.ok (some r), u) → r.First b → replyNonce b = .ok (some nonce) →
      (ReplyCall.custom (some db) (authenticateCommand user nonce
          (N.md5 (nonce.bytes ++ user.bytes ++ (passDigest N user pw).bytes))) true false).Sends N
        (mongoSyncReconnect N fuel) u p x →
      Exchanges fuel (.authenticate db user pw) v
        ((ReplyCall.custom (some db) (authenticateCommand user nonce
          (N.md5 (nonce.bytes ++ user.bytes ++ (passDigest N user pw).bytes))) true false).exchange
            p x)
  | create {db coll : CString} {flags : BitVec 32} {size max : BitVec 64} {command : Option Bson}
      {v x : World σ} {p : MongoPacket} :
      createCommand coll flags size max = .ok command →
      (ReplyCall.custom (some db) command true true).Sends N (mongoSyncReconnect N fuel) v p x →
      Exchanges fuel (.create (some db) (some coll) flags size max) v
        ((ReplyCall.custom (some db) command true true).exchange p x)
  | «exists» {db coll : CString} {v x : World σ} {p : MongoPacket} :
      mongoWireCmdQuery N.order (v.conn.requestId + 1) (some (db.append systemNamespaces))
        (slaveFlag v.conn) 0 1 (existsQuery ((db.append dot).append coll)) none = .ok p →
      (mongoSyncPacketSend N (mongoSyncReconnect N fuel) p (!v.conn.slaveok) true).exec v
        = (.ok true, x) →
      Exchanges fuel (.«exists» (some db) (some coll)) v ⟨.documents, replyFlagQueryFail, p, x⟩
  | index {c : Command} {ns db coll name : CString} {v x : World σ} {p : MongoPacket} :
      c.DropsIndex ns name → splitNs ns = some (db, coll) →
      (ReplyCall.custom (some db) (dropCommand coll name) true false).Sends N
        (mongoSyncReconnect N fuel) v p x →
      Exchanges fuel c v
        ((ReplyCall.custom (some db) (dropCommand coll name) true false).exchange p x)
  | update {ns : CString} {flags : BitVec 32} {selector upd : Option Bson} {v u x : World σ}
      {p q : MongoPacket} :
      v.conn.safeMode = true →
      mongoWireCmdUpdate N.order (v.conn.requestId + 1) (some ns) flags selector upd = .ok p →
      (mongoSyncPacketSend N (mongoSyncReconnect N fuel) p true true).exec v = (.ok true, u) →
      (errorCall (some (nsDb ns))).Sends N (mongoSyncReconnect N fuel) u q x →
      Exchanges fuel (.update (some ns) flags selector upd) v (errorExchange .lastError q x)
  | batch {ns : CString} {docs rest : List (Option Bson)} {v y u x : World σ}
      {p q : MongoPacket} :
      v.conn.safeMode = true → docs ≠ [] → (∀ b ∈ docs, bsonSize b < v.conn.maxInsertSize) →
      Batches N (mongoSyncReconnect N fuel) ns docs v rest y →
      batchPacket N ns rest y = .ok p →
      (mongoSyncPacketSend N (mongoSyncReconnect N fuel) p true true).exec y = (.ok true, u) →
      (errorCall (some (nsDb ns))).Sends N (mongoSyncReconnect N fuel) u q x →
      Exchanges fuel (.insertN (some ns) (some docs)) v (errorExchange .lastError q x)
  | within {c write : Command} {v : World σ} {x : Exchange σ} :
      c.Writes N write → Exchanges fuel write v x → Exchanges fuel c v x

/-- The calls after which no error is to be remembered if they succeed. -/
def Command.tells : Command → Bool
  | .update .. | .insertN .. | .insert .. | .query .. | .getMore .. | .custom .. | .ping => true
  | _ => false

/-- A packet is sent, and its reply does not touch the error that is remembered, or there
is none: the packet of a command, and that of a write without safe mode, the last one if
there are several.  The last state is the one in which it is handed to the socket that
accepts it. -/
inductive Command.HandsOver (fuel : Nat) : Command → World σ → World σ → Prop
  | custom {c : Command} {db : Option CString} {command : Option Bson}
      {checkConn forceMaster : Bool} {v x : World σ} {p : MongoPacket} {as : List (Attempt σ)}
      {a : Attempt σ} :
      c.tells = true → c.replyCall = some (.custom db command checkConn forceMaster) →
      mongoWireCmdCustom N.order (v.conn.requestId + 1) db (slaveFlag v.conn) command = .ok p →
      (watchedPacketSend N (mongoSyncReconnect N fuel) p forceMaster checkConn).exec v
        = (.ok (true, as), x) → a ∈ as → a.Complete p → HandsOver fuel c v a.before
  | update {ns : CString} {flags : BitVec 32} {selector upd : Option Bson} {v x : World σ}
      {p : MongoPacket} {as : List (Attempt σ)} {a : Attempt σ} :
      v.conn.safeMode = false →
      mongoWireCmdUpdate N.order (v.conn.requestId + 1) (some ns) flags selector upd = .ok p →
      (watchedPacketSend N (mongoSyncReconnect N fuel) p true true).exec v
        = (.ok (true, as), x) → a ∈ as → a.Complete p →
      HandsOver fuel (.update (some ns) flags selector upd) v a.before
  | batch {ns : CString} {docs rest : List (Option Bson)} {v y x : World σ} {p : MongoPacket}
      {as : List (Attempt σ)} {a : Attempt σ} :
      v.conn.safeMode = false → docs ≠ [] → (∀ b ∈ docs, bsonSize b < v.conn.maxInsertSize) →
      Batches N (mongoSyncReconnect N fuel) ns docs v rest y →
      batchPacket N ns rest y = .ok p →
      (watchedPacketSend N (mongoSyncReconnect N fuel) p true true).exec y
        = (.ok (true, as), x) → a ∈ as → a.Complete p →
      rest.drop (batchLength y.conn.maxInsertSize rest).toNat = [] →
      HandsOver fuel (.insertN (some ns) (some docs)) v a.before
  | within {c write : Command} {v x : World σ} :
      c.tells = true → c.Writes N write → HandsOver fuel write v x → HandsOver fuel c v x

/-! ## Reports -/

section Calls

variable {N} {fuel : Nat} {v u t : World σ} {p : MongoPacket}

/-- The verdict on a write remembers the error that `getlasterror` reports. -/
theorem exec_verify_reported {ns : CString} {q r : MongoPacket} {x : World σ} {e : CString}
    (hsafe : u.conn.safeMode = true)
    (h : (errorCall (some (nsDb ns))).Sends N (mongoSyncReconnect N fuel) u q x)
    (hreported : (errorExchange .lastError q x).Reported N r e)
    (hheard : (errorExchange .lastError q x).Heard N) :
    ∃ t, (mongoSyncCmdVerifyResult N (some ns)).exec u = (.ok false, t) ∧
      t.conn.lastError = some e := by
  obtain ⟨t, hrun, herror⟩ := exec_getLastError_reported h hreported hheard
  refine ⟨t, ?_, herror⟩
  rw [mongoSyncCmdVerifyResult, exec_get_bind, hsafe]
  exact exec_bind_ok hrun _

/-- A round that is built takes a document. -/
theorem batchLength_of_built {ns : CString} {docs : List (Option Bson)}
    (hp : batchPacket N ns docs v = .ok p) : 1 ≤ batchLength v.conn.maxInsertSize docs := by
  by_contra hlow
  obtain ⟨e, he⟩ := (mongoWireCmdInsertN_error_iff N.order (v.conn.requestId + 1) ns
    (batchLength v.conn.maxInsertSize docs) docs).mpr (.inl (by omega))
  rw [batchPacket, he] at hp
  cases hp

/-- A round that succeeds has its packet sent, and a good verdict on it. -/
theorem insertBatch_sent {ns : CString} {docs : List (Option Bson)}
    {reconnect : Bool → Program (World σ) Bool}
    (h : (insertBatch N reconnect ns (batchLength v.conn.maxInsertSize docs) docs).exec v
      = (.ok true, t)) :
    ∃ p u, batchPacket N ns docs v = .ok p ∧
      (mongoSyncPacketSend N reconnect p true true).exec v = (.ok true, u) ∧
      (mongoSyncCmdVerifyResult N (some ns)).exec u = (.ok true, t) := by
  cases hp : batchPacket N ns docs v with
  | error e =>
      rw [exec_insertBatch_unbuilt N hp] at h
      cases h
  | ok p =>
      rw [exec_insertBatch N rfl hp] at h
      cases hsend : (mongoSyncPacketSend N reconnect p true true).exec v with
      | mk r u =>
          rw [hsend] at h
          cases r with
          | error e => cases h
          | ok sent =>
              cases sent with
              | false => cases h
              | true => exact ⟨p, u, rfl, hsend, h⟩

/-- A round that fails ends the loop. -/
theorem insertLoop_stops {ns : CString} {docs rest : List (Option Bson)}
    {reconnect : Bool → Program (World σ) Bool} {y : World σ}
    (h : Batches N reconnect ns docs v rest y)
    (hrun : (insertBatch N reconnect ns (batchLength y.conn.maxInsertSize rest) rest).exec y
      = (.ok false, t)) {rounds : Nat} (hne : docs ≠ []) (hrounds : docs.length ≤ rounds) :
    (insertLoop N reconnect ns rounds docs).exec v = (.ok false, t) := by
  induction h generalizing rounds with
  | @first docs w =>
      cases rounds with
      | zero => exact absurd (List.length_eq_zero_iff.mp (by omega)) hne
      | succ rounds => rw [exec_insertLoop N rounds rfl, hrun]
  | @next docs rest w x y c hc hround hmore hrest ih =>
      cases rounds with
      | zero => exact absurd (List.length_eq_zero_iff.mp (by omega)) hne
      | succ rounds =>
          subst hc
          obtain ⟨p, u, hp, -, -⟩ := insertBatch_sent hround
          have hpos := batchLength_of_built hp
          rw [exec_insertLoop N rounds rfl, hround]
          dsimp only
          rw [if_neg hmore]
          refine ih hrun hmore ?_
          rw [List.length_drop]
          have := List.length_pos_of_ne_nil hne
          omega

/-- Whether something was returned. -/
theorem exec_isSome {α : Type} {m : Program (World σ) (Option α)} {o : Option α}
    (h : m.exec v = (.ok o, t)) : (Option.isSome <$> m).exec v = (.ok o.isSome, t) := by
  rw [map_eq_pure_bind, exec_bind_ok h]
  rfl

/-- Authenticating up to its second command. -/
theorem exec_authenticate_key {reconnect : Bool → Program (World σ) Bool}
    {db user pw nonce : CString} {r : MongoPacket} {b : Option Bson}
    (hfirst : (mongoSyncCmdCustom N reconnect (some db) (commandOne getnonceKey)).exec v
      = (.ok (some r), u))
    (hdoc : r.First b) (hnonce : replyNonce b = .ok (some nonce))
    (hkey : (mongoSyncCmdCustom N reconnect (some db) (authenticateCommand user nonce
      (N.md5 (nonce.bytes ++ user.bytes ++ (passDigest N user pw).bytes)))).exec u
        = (.ok none, t)) :
    (mongoSyncCmdAuthenticate N reconnect db user pw).exec v = (.ok false, t) := by
  have hstring : ∀ s : CString, (readString N none s).exec u = (.ok s, u) := fun s => rfl
  obtain ⟨b', hread, rfl⟩ := hdoc.exec_read u
  rw [mongoSyncCmdAuthenticate, mongoSyncCmdAuthenticateWith, exec_bind_ok hfirst]
  dsimp only
  rw [exec_bind_ok hread]
  dsimp only
  rw [exec_ofExcept_bind hnonce]
  dsimp only
  rw [exec_bind_ok (hstring user), exec_bind_ok (hstring pw), exec_bind_ok (hstring db),
    exec_bind_ok hkey]
  rfl

/-- A query for a collection that gets a report it hears. -/
theorem exec_exists_reported {db coll : CString} {x : World σ} {r : MongoPacket} {e : CString}
    (hp : mongoWireCmdQuery N.order (v.conn.requestId + 1) (some (db.append systemNamespaces))
      (slaveFlag v.conn) 0 1 (existsQuery ((db.append dot).append coll)) none = .ok p)
    (hsent : (mongoSyncPacketSend N (mongoSyncReconnect N fuel) p (!v.conn.slaveok) true).exec v
      = (.ok true, x))
    (hreported : Exchange.Reported N ⟨.documents, replyFlagQueryFail, p, x⟩ r e)
    (hheard : Exchange.Heard N ⟨.documents, replyFlagQueryFail, p, x⟩) :
    ∃ t, (mongoSyncCmdExists N (mongoSyncReconnect N fuel) (some db) (some coll)).exec v
        = (.ok none, t) ∧ t.conn.lastError = some e := by
  obtain ⟨hflags, -⟩ := hheard r e hreported
  obtain ⟨⟨y, hrecv, hid⟩, hreports, -⟩ := hreported
  have ⟨b, hfirst, _⟩ := hreports
  rw [(mongoWireCmdQuery_requests hp).id] at hid
  obtain ⟨t, hcheck, herror⟩ := exec_checkError_query hreports y
  have hreceive : (sendAndReceive N (mongoSyncReconnect N fuel) p (v.conn.requestId + 1)
      replyFlagQueryFail (!v.conn.slaveok)).exec v = (.ok none, t) := by
    rw [sendAndReceive, exec_bind_ok hsent, if_pos rfl,
      exec_bind_ok (exec_packetRecv_first hrecv hid hflags hfirst)]
    exact hcheck
  have hbuilt : (orErrno (mongoWireCmdQuery N.order (v.conn.requestId + 1)
      (some (db.append systemNamespaces)) (slaveFlag v.conn) 0 1
      (existsQuery ((db.append dot).append coll)) none)).exec v = (.ok (some p), v) := by
    rw [hp]
    rfl
  refine ⟨t, ?_, herror⟩
  rw [mongoSyncCmdExists, exec_get_bind]
  refine (exec_bind_ok hbuilt _).trans ?_
  exact exec_bind_ok hreceive _

/-- A call that drops an index is the command for it. -/
theorem Command.DropsIndex.run_eq {c : Command} {ns db coll name : CString}
    (h : c.DropsIndex ns name) (hsplit : splitNs ns = some (db, coll)) :
    c.run N fuel = (do
      match ← mongoSyncCmdCustom N (mongoSyncReconnect N fuel) (some db) (dropCommand coll name) with
      | none => return false
      | some _ => return true) := by
  have hname : mongoSyncCmdIndexDropName N (mongoSyncReconnect N fuel) (some ns) name = (do
      match ← mongoSyncCmdCustom N (mongoSyncReconnect N fuel) (some db) (dropCommand coll name) with
      | none => return false
      | some _ => return true) := by
    rewrite [mongoSyncCmdIndexDropName, hsplit]
    rfl
  cases h with
  | @one host ns name key hgen =>
      show mongoSyncCmdIndexDrop N host _ (some ns) (some key) = _
      rw [mongoSyncCmdIndexDrop, hgen]
      exact hname
  | all => exact hname

/-- A call whose reply is not passed on returns. -/
theorem Command.exec_unanswered {c : Command} {call : ReplyCall} (hcall : c.replyCall = some call)
    (hrun : (call.run N (mongoSyncReconnect N fuel)).exec v = (.ok none, t)) :
    ∃ ok, (c.run N fuel).exec v = (.ok ok, t) := by
  cases c with
  | query =>
      cases hcall
      exact ⟨_, exec_isSome hrun⟩
  | getMore =>
      cases hcall
      exact ⟨_, exec_isSome hrun⟩
  | custom =>
      cases hcall
      exact ⟨_, exec_isSome hrun⟩
  | ping =>
      cases hcall
      exact ⟨_, exec_bind_ok hrun _⟩
  | isMaster =>
      cases hcall
      exact ⟨_, exec_bind_ok hrun _⟩
  | count =>
      cases hcall
      rw [Command.run, map_eq_pure_bind]
      exact ⟨_, exec_bind_ok (exec_bind_ok hrun _) _⟩
  | drop =>
      cases hcall
      exact ⟨_, exec_bind_ok hrun _⟩
  | _ => cases hcall

/-- So does the creation of a collection. -/
theorem exec_create_unanswered {db coll : CString} {flags : BitVec 32} {size max : BitVec 64}
    {command : Option Bson} (hcommand : createCommand coll flags size max = .ok command)
    (hrun : ((ReplyCall.custom (some db) command true true).run N (mongoSyncReconnect N fuel)).exec v
      = (.ok none, t)) :
    (mongoSyncCmdCreate N (mongoSyncReconnect N fuel) (some db) (some coll) flags size max).exec v
      = (.ok false, t) := by
  have hbuilt : (orErrno (createCommand coll flags size max)).exec v
      = (.ok (some command), v) := by
    rw [hcommand]
    rfl
  rw [mongoSyncCmdCreate]
  refine (exec_bind_ok hbuilt _).trans ?_
  exact exec_bind_ok hrun _

/-- An update whose packet is sent returns the verdict on it. -/
theorem exec_update_sent {ns : CString} {flags : BitVec 32} {selector upd : Option Bson} {ok : Bool}
    (hp : mongoWireCmdUpdate N.order (v.conn.requestId + 1) (some ns) flags selector upd = .ok p)
    (hsent : (mongoSyncPacketSend N (mongoSyncReconnect N fuel) p true true).exec v = (.ok true, u))
    (hrun : (mongoSyncCmdVerifyResult N (some ns)).exec u = (.ok ok, t)) :
    (mongoSyncCmdUpdate N (mongoSyncReconnect N fuel) (some ns) flags selector upd).exec v
      = (.ok ok, t) := by
  have hnext : (nextPacket (fun rid =>
      mongoWireCmdUpdate N.order rid (some ns) flags selector upd)).exec v = (.ok (some p), v) := by
    rw [nextPacket, exec_get_bind, hp]
    rfl
  rw [mongoSyncCmdUpdate, exec_bind_ok hnext]
  exact (exec_bind_ok hsent _).trans hrun

/-- A bulk insert ends with a packet on which the verdict is bad. -/
theorem exec_insertN_unverified {ns : CString} {docs rest : List (Option Bson)} {y : World σ}
    (hne : docs ≠ []) (hsmall : ∀ b ∈ docs, bsonSize b < v.conn.maxInsertSize)
    (hbatches : Batches N (mongoSyncReconnect N fuel) ns docs v rest y)
    (hp : batchPacket N ns rest y = .ok p)
    (hsent : (mongoSyncPacketSend N (mongoSyncReconnect N fuel) p true true).exec y = (.ok true, u))
    (hrun : (mongoSyncCmdVerifyResult N (some ns)).exec u = (.ok false, t)) :
    (mongoSyncCmdInsertN N (mongoSyncReconnect N fuel) (some ns) (some docs)).exec v
      = (.ok false, t) := by
  have hround : (insertBatch N (mongoSyncReconnect N fuel) ns
      (batchLength y.conn.maxInsertSize rest) rest).exec y = (.ok false, t) := by
    rw [exec_insertBatch N rfl hp, hsent]
    exact hrun
  rw [exec_insertN_loop N _ ns hne hsmall]
  exact insertLoop_stops hbatches hround hne le_rfl

/-- A call that gets a report it hears remembers it. -/
theorem Command.exec_reported {c : Command} {x : Exchange σ} {r : MongoPacket} {e : CString}
    (h : c.Exchanges N fuel v x) (hreported : x.Reported N r e) (hheard : x.Heard N) :
    ∃ ok t, (c.run N fuel).exec v = (.ok ok, t) ∧ t.conn.lastError = some e := by
  induction h with
  | reply hcall hsends =>
      obtain ⟨t, hrun, herror⟩ := ReplyCall.exec_reported hsends hreported hheard
      obtain ⟨ok, hexec⟩ := Command.exec_unanswered hcall hrun
      exact ⟨ok, t, hexec, herror⟩
  | asked hsends =>
      obtain ⟨t, hrun, herror⟩ := exec_getLastError_reported hsends hreported hheard
      exact ⟨_, t, exec_isSome hrun, herror⟩
  | full hsends =>
      obtain ⟨-, -, hnever⟩ := hheard r e hreported
      exact absurd rfl hnever
  | reset hsends =>
      obtain ⟨t, hrun, herror⟩ := ReplyCall.exec_reported hsends hreported hheard
      refine ⟨false, t, ?_, herror⟩
      rw [Command.run, mongoSyncCmdResetError, setConn, exec_modify_bind]
      exact exec_bind_ok hrun _
  | nonce hsends =>
      obtain ⟨t, hrun, herror⟩ := ReplyCall.exec_reported hsends hreported hheard
      exact ⟨_, t, exec_bind_ok hrun _, herror⟩
  | key hfirst hdoc hnonce hsends =>
      obtain ⟨t, hrun, herror⟩ := ReplyCall.exec_reported hsends hreported hheard
      exact ⟨false, t, exec_authenticate_key hfirst hdoc hnonce hrun, herror⟩
  | create hcommand hsends =>
      obtain ⟨t, hrun, herror⟩ := ReplyCall.exec_reported hsends hreported hheard
      exact ⟨false, t, exec_create_unanswered hcommand hrun, herror⟩
  | «exists» hp hsent =>
      obtain ⟨t, hrun, herror⟩ := exec_exists_reported hp hsent hreported hheard
      exact ⟨false, t, exec_isSome hrun, herror⟩
  | index hdrops hsplit hsends =>
      obtain ⟨t, hrun, herror⟩ := ReplyCall.exec_reported hsends hreported hheard
      refine ⟨false, t, ?_, herror⟩
      rw [hdrops.run_eq hsplit]
      exact exec_bind_ok hrun _
  | within hwrites _ ih =>
      rw [hwrites.run_eq]
      exact ih hreported hheard
  | update hsafe hp hsent hsends =>
      have hsettings := mongoSyncPacketSend_settings N hsent
      obtain ⟨t, hrun, herror⟩ :=
        exec_verify_reported (hsettings.safeMode.trans hsafe) hsends hreported hheard
      exact ⟨false, t, exec_update_sent hp hsent hrun, herror⟩
  | batch hsafe hne hsmall hbatches hp hsent hsends =>
      have hsettings := (hbatches.settings N).trans (mongoSyncPacketSend_settings N hsent)
      obtain ⟨t, hrun, herror⟩ :=
        exec_verify_reported (hsettings.safeMode.trans hsafe) hsends hreported hheard
      exact ⟨false, t, exec_insertN_unverified hne hsmall hbatches hp hsent hrun, herror⟩

/-! ## Successes -/

/-- The packet was handed over by the attempt that sent it, with the error that is
remembered now. -/
theorem handed_over {reconnect : Nat} {forceMaster autoReconnect : Bool}
    (h : (mongoSyncPacketSend N (mongoSyncReconnect N reconnect) p forceMaster
      autoReconnect).exec v = (.ok true, t)) :
    ∃ as a, (watchedPacketSend N (mongoSyncReconnect N reconnect) p forceMaster
        autoReconnect).exec v = (.ok (true, as), t) ∧
      a ∈ as ∧ a.Complete p ∧ t.conn.lastError = a.before.conn.lastError := by
  obtain ⟨as, hrun⟩ := exec_watchedPacketSend N h
  obtain ⟨hsubmits, -⟩ := wp_ok (watchedPacketSend_spec reconnect v) hrun
  obtain ⟨a, ha, hcomplete, hconn⟩ := hsubmits.held
  exact ⟨as, a, hrun, ha, hcomplete, by rw [hconn]⟩

/-- A getlasterror that finds no error leaves none. -/
theorem getLastError_clears (db : Option CString) (w : World σ) :
    wp (mongoSyncCmdGetLastError N db) (fun r t => r = some none → t.conn.lastError = none)
      (fun _ => True) w := by
  rw [mongoSyncCmdGetLastError, wp_bind]
  refine wp_of_exec (fun reply s _ => ?_) (fun _ _ _ => trivial)
  cases reply with
  | none => exact fun h => by cases h
  | some reply =>
      dsimp only
      rw [wp_bind]
      refine wp_readOrErrno (fun found _ => ?_) (fun _ _ h => by cases h) (fun _ _ => trivial)
      cases found with
      | none => exact fun h => Option.some.inj h
      | some e => exact fun h => by cases h

/-- A good verdict leaves no error in safe mode, and is none without it. -/
theorem verify_leaves {ns : Option CString}
    (h : (mongoSyncCmdVerifyResult N ns).exec v = (.ok true, t)) :
    (v.conn.safeMode = true → t.conn.lastError = none) ∧ (v.conn.safeMode = false → t = v) := by
  cases ns with
  | none => cases h
  | some ns =>
      rw [mongoSyncCmdVerifyResult, exec_get_bind] at h
      cases hsafe : v.conn.safeMode with
      | false =>
          rw [hsafe] at h
          cases h
          exact ⟨fun hno => absurd hno Bool.false_ne_true, fun _ => rfl⟩
      | true =>
          rw [hsafe, if_neg (by decide)] at h
          obtain ⟨r, s, hrun, h⟩ := exec_bind_eq_ok.mp h
          have hclears := wp_ok (getLastError_clears _ v) hrun
          refine ⟨fun _ => ?_, fun hno => absurd hno Bool.true_eq_false.mp⟩
          cases r with
          | none => cases h
          | some found =>
              cases found with
              | some e => cases h
              | none =>
                  cases h
                  exact hclears rfl

/-- A packet with a good verdict.  In safe mode no error is left, and without it the one with
which the packet was handed over. -/
theorem verified_leaves {ns : Option CString}
    (hsent : (mongoSyncPacketSend N (mongoSyncReconnect N fuel) p true true).exec v = (.ok true, u))
    (hverify : (mongoSyncCmdVerifyResult N ns).exec u = (.ok true, t)) :
    v.conn.safeMode = true ∧ t.conn.lastError = none ∨
      v.conn.safeMode = false ∧ ∃ as a,
        (watchedPacketSend N (mongoSyncReconnect N fuel) p true true).exec v = (.ok (true, as), u) ∧
        a ∈ as ∧ a.Complete p ∧ t.conn.lastError = a.before.conn.lastError := by
  obtain ⟨hsafe, hplain⟩ := verify_leaves hverify
  have hsettings := mongoSyncPacketSend_settings N hsent
  cases hmode : v.conn.safeMode with
  | true => exact .inl ⟨rfl, hsafe (hsettings.safeMode.trans hmode)⟩
  | false =>
      obtain rfl := hplain (hsettings.safeMode.trans hmode)
      exact .inr ⟨rfl, handed_over hsent⟩

/-- A query that succeeds leaves no error. -/
theorem query_leaves {call : QueryCall} {r : MongoPacket}
    (h : (call.run N (mongoSyncReconnect N fuel)).exec v = (.ok (some r), t)) :
    t.conn.lastError = none := by
  obtain ⟨p, x, rid, -, -, hreply⟩ := (ReplyCall.query call).run_eq_some N h
  obtain ⟨reply, y, -, hcheck⟩ := exec_bind_eq_ok.mp hreply
  exact wp_ok (checkError_query_clears reply y) hcheck rfl

/-- A command that succeeds leaves the error that was remembered when it was handed
over. -/
theorem custom_leaves {c : Command} (htells : c.tells = true) {db : Option CString}
    {command : Option Bson} {checkConn forceMaster : Bool} {r : MongoPacket}
    (hcall : c.replyCall = some (.custom db command checkConn forceMaster))
    (h : ((ReplyCall.custom db command checkConn forceMaster).run N
      (mongoSyncReconnect N fuel)).exec v = (.ok (some r), t)) :
    ∃ u, c.HandsOver N fuel v u ∧ t.conn.lastError = u.conn.lastError := by
  obtain ⟨p, x, rid, ⟨hp, hsent⟩, -, hreply⟩ := ReplyCall.run_eq_some N h
  obtain ⟨as, a, hrun, ha, hcomplete, herror⟩ := handed_over hsent
  refine ⟨a.before, .custom htells hcall hp hrun ha hcomplete, ?_⟩
  obtain ⟨reply, y, hrecv, hcheck⟩ := exec_bind_eq_ok.mp hreply
  have hstill := wp_ok (mongoSyncPacketRecv_still N _ _ x) hrecv
  have hsame : SameError y t := wp_ok (packetCheckError_sameError reply y) hcheck rfl
  rw [hsame, hstill.conn, herror]

/-- The last round of a bulk insert that succeeds. -/
theorem insertLoop_last {ns : CString} {reconnect : Bool → Program (World σ) Bool} {rounds : Nat}
    {docs : List (Option Bson)}
    (h : (insertLoop N reconnect ns rounds docs).exec v = (.ok true, t)) :
    ∃ rest y, Batches N reconnect ns docs v rest y ∧
      (insertBatch N reconnect ns (batchLength y.conn.maxInsertSize rest) rest).exec y
        = (.ok true, t) ∧
      rest.drop (batchLength y.conn.maxInsertSize rest).toNat = [] := by
  induction rounds generalizing docs v with
  | zero => cases h
  | succ rounds ih =>
      rw [exec_insertLoop N rounds rfl] at h
      cases hround : (insertBatch N reconnect ns (batchLength v.conn.maxInsertSize docs)
          docs).exec v with
      | mk r x =>
          rw [hround] at h
          match r with
          | .error e => cases h
          | .ok false => cases h
          | .ok true =>
              dsimp only at h
              split at h
              next hlast =>
                cases h
                exact ⟨docs, v, .first, hround, hlast⟩
              next hmore =>
                obtain ⟨rest, y, hbatches, hlast⟩ := ih h
                exact ⟨rest, y, .next _ rfl hround hmore hbatches, hlast⟩

/-- A bulk insert that succeeds has run its loop. -/
theorem insertN_loop {ns : CString} {docs : List (Option Bson)}
    {reconnect : Bool → Program (World σ) Bool}
    (h : (mongoSyncCmdInsertN N reconnect (some ns) (some docs)).exec v = (.ok true, t)) :
    docs ≠ [] ∧ (∀ b ∈ docs, bsonSize b < v.conn.maxInsertSize) ∧
      (insertLoop N reconnect ns docs.length docs).exec v = (.ok true, t) := by
  rw [mongoSyncCmdInsertN] at h
  split at h
  next => cases h
  next hlen =>
    rw [exec_get_bind] at h
    split at h
    next => cases h
    next hany =>
      refine ⟨fun hnil => hlen (by rw [hnil]; rfl), fun b hb => ?_, h⟩
      by_contra hle
      refine hany (List.any_eq_true.mpr ⟨b, hb, ?_⟩)
      simpa using hle

/-- An update that succeeds. -/
theorem update_leaves {ns : Option CString} {flags : BitVec 32} {selector upd : Option Bson}
    (h : ((Command.update ns flags selector upd).run N fuel).exec v = (.ok true, t)) :
    t.conn.lastError = none ∨ ∃ u, (Command.update ns flags selector upd).HandsOver N fuel v u ∧
      t.conn.lastError = u.conn.lastError := by
  obtain ⟨p, s, hnext, hrest⟩ := exec_bind_eq_ok.mp h
  cases p with
  | none => cases hrest
  | some p =>
      rw [nextPacket, exec_get_bind] at hnext
      obtain ⟨hp, rfl⟩ := exec_orErrno_some hnext
      change (sendAndVerify N (mongoSyncReconnect N fuel) p ns).exec s = (.ok true, t) at hrest
      rw [sendAndVerify] at hrest
      obtain ⟨sent, u, hsent, hverify⟩ := exec_bind_eq_ok.mp hrest
      cases sent with
      | false => cases hverify
      | true =>
          rcases verified_leaves hsent hverify with
            ⟨-, hnone⟩ | ⟨hmode, as, a, hrun, ha, hcomplete, herror⟩
          · exact .inl hnone
          · cases ns with
            | none => cases hp
            | some ns => exact .inr ⟨a.before, .update hmode hp hrun ha hcomplete, herror⟩

/-- A bulk insert that succeeds. -/
theorem insertN_leaves {ns : Option CString} {docs : Option (List (Option Bson))}
    (h : ((Command.insertN ns docs).run N fuel).exec v = (.ok true, t)) :
    t.conn.lastError = none ∨ ∃ u, (Command.insertN ns docs).HandsOver N fuel v u ∧
      t.conn.lastError = u.conn.lastError := by
  cases ns with
  | none => cases h
  | some ns =>
      cases docs with
      | none => cases h
      | some docs =>
          obtain ⟨hne, hsmall, h⟩ := insertN_loop h
          obtain ⟨rest, y, hbatches, hround, hlast⟩ := insertLoop_last h
          obtain ⟨p, u, hp, hsent, hverify⟩ := insertBatch_sent hround
          rcases verified_leaves hsent hverify with
            ⟨-, hnone⟩ | ⟨hmode, as, a, hrun, ha, hcomplete, herror⟩
          · exact .inl hnone
          · have hplain := (hbatches.settings N).safeMode.symm.trans hmode
            exact .inr
              ⟨a.before, .batch hplain hne hsmall hbatches hp hrun ha hcomplete hlast, herror⟩

/-- An insert that succeeds is a bulk insert. -/
theorem insert_leaves {ns : Option CString} {docs : List Bson}
    (h : ((Command.insert ns docs).run N fuel).exec v = (.ok true, t)) :
    t.conn.lastError = none ∨ ∃ u, (Command.insert ns docs).HandsOver N fuel v u ∧
      t.conn.lastError = u.conn.lastError := by
  cases ns with
  | none => cases h
  | some ns =>
      by_cases hfinished : ∀ d ∈ docs, ¬ bsonSize (some d) < 0
      · have hwrites : (Command.insert (some ns) docs).Writes N _ := .insert hfinished
        rw [hwrites.run_eq] at h
        rcases insertN_leaves h with hnone | ⟨u, hu, herror⟩
        · exact .inl hnone
        · exact .inr ⟨u, .within rfl hwrites hu, herror⟩
      · change (mongoSyncCmdInsert N _ (some ns) docs).exec v = _ at h
        rw [mongoSyncCmdInsert, if_pos (.inr (by simpa using hfinished))] at h
        cases h

/-- A call that succeeds leaves no error, or the one that was remembered when its packet
was handed over. -/
theorem Command.leaves {c : Command} (htells : c.tells = true)
    (h : (c.run N fuel).exec v = (.ok true, t)) :
    t.conn.lastError = none ∨
      ∃ u, c.HandsOver N fuel v u ∧ t.conn.lastError = u.conn.lastError := by
  have hreply : ∀ {m : Program (World σ) (Option MongoPacket)},
      (Option.isSome <$> m).exec v = (.ok true, t) → ∃ r, m.exec v = (.ok (some r), t) := by
    intro m h
    rw [map_eq_pure_bind] at h
    obtain ⟨r, s, hm, h⟩ := exec_bind_eq_ok.mp h
    cases r with
    | none => cases h
    | some r =>
        cases h
        exact ⟨r, hm⟩
  cases c with
  | query ns flags skip ret q sel =>
      obtain ⟨r, hr⟩ := hreply h
      have hrun : ((QueryCall.query ns flags skip ret q sel).run N (mongoSyncReconnect N fuel)).exec v
          = (.ok (some r), t) := hr
      exact .inl (query_leaves hrun)
  | getMore ns ret cursorId =>
      obtain ⟨r, hr⟩ := hreply h
      have hrun : ((QueryCall.getMore ns ret cursorId).run N (mongoSyncReconnect N fuel)).exec v
          = (.ok (some r), t) := hr
      exact .inl (query_leaves hrun)
  | custom db command =>
      obtain ⟨r, hr⟩ := hreply h
      exact .inr (custom_leaves rfl rfl hr)
  | ping =>
      obtain ⟨r, s, hr, h⟩ := exec_bind_eq_ok.mp h
      cases r with
      | none => cases h
      | some r =>
          have hleaves : ∃ u, Command.ping.HandsOver N fuel v u ∧
              s.conn.lastError = u.conn.lastError := custom_leaves rfl rfl hr
          cases h
          exact .inr hleaves
  | update => exact update_leaves h
  | insertN => exact insertN_leaves h
  | insert => exact insert_leaves h
  | _ => cases htells

end Calls

/-! ## Runs -/

/-- A call of a run, with the states before and after and what it returns. -/
structure Told (σ : Type) where
  command : Command
  before : World σ
  ok : Bool
  after : World σ

/-- A run of the client on a connection. -/
inductive ToldRun (fuel : Nat) (w : World σ) : List (Told σ) → World σ → Prop
  | start : ToldRun fuel w [] w
  | call {ts : List (Told σ)} {c : Command} {v v' : World σ} {ok : Bool} :
      ToldRun fuel w ts v → (c.run N fuel).exec v = (.ok ok, v') →
      ToldRun fuel w (ts ++ [⟨c, v, ok, v'⟩]) v'

namespace Told

/-- The error that is remembered after the call is that of the call. -/
structure Follows (fuel : Nat) (t : Told σ) : Prop where
  cleared : t.ok = true → t.command.tells = true → mongoSyncConnGetLastError t.after.conn = none
  reported : ∀ x r e, t.command.Exchanges N fuel t.before x → x.Reported N r e →
    mongoSyncConnGetLastError t.after.conn = some e

/-- Nothing goes wrong: no error is remembered when a packet is handed over whose reply
does not clear it, and the reports are heard. -/
structure Minds (fuel : Nat) (t : Told σ) : Prop where
  forgotten : ∀ u, t.command.HandsOver N fuel t.before u → u.conn.lastError = none
  heard : ∀ x, t.command.Exchanges N fuel t.before x → x.Heard N

end Told

section Runs

variable {N} {fuel : Nat} {w w' : World σ} {ts : List (Told σ)}

/-- A call of a run is one of its command. -/
theorem ToldRun.exec (h : ToldRun N fuel w ts w') :
    ∀ t ∈ ts, (t.command.run N fuel).exec t.before = (.ok t.ok, t.after) := by
  induction h with
  | start => simp
  | call _ hrun ih =>
      intro t ht
      rcases List.mem_append.mp ht with ht | ht
      · exact ih t ht
      · rw [List.mem_singleton.mp ht]
        exact hrun

/-- A call in which nothing goes wrong. -/
theorem Told.Minds.follows {t : Told σ} (h : t.Minds N fuel)
    (hrun : (t.command.run N fuel).exec t.before = (.ok t.ok, t.after)) : t.Follows N fuel where
  cleared hok htells := by
    rw [hok] at hrun
    rcases Command.leaves htells hrun with hnone | ⟨u, hu, herror⟩
    · exact hnone
    · exact herror.trans (h.forgotten u hu)
  reported x r e hx hr := by
    obtain ⟨ok, s, hexec, herror⟩ := Command.exec_reported hx hr (h.heard x hx)
    rw [hrun] at hexec
    cases hexec
    exact herror

end Runs

section HandedOver

variable {N} {fuel : Nat} {v u : World σ}

/-- Without reconnecting a packet is sent at once or not at all. -/
theorem watchedLoop_once {reconnect : Bool → Program (World σ) Bool} {p : MongoPacket}
    {forceMaster autoReconnect : Bool} {as : List (Attempt σ)} {a : Attempt σ}
    (hauto : autoReconnect = false ∨ v.conn.autoReconnect = false)
    (h : (watchedLoop N reconnect p forceMaster autoReconnect).exec v = (.ok (true, as), u))
    (ha : a ∈ as) : a.before = v := by
  rw [watchedLoop, watchedRound] at h
  obtain ⟨⟨sent, b⟩, y, hsend, h⟩ := exec_bind_eq_ok.mp h
  rw [watchedSend, exec_get_bind] at hsend
  obtain ⟨sent', y', hsent, hsend⟩ := exec_bind_eq_ok.mp hsend
  rw [exec_get_bind] at hsend
  cases hsend
  cases sent with
  | true =>
      cases h
      rw [List.mem_singleton.mp ha]
  | false =>
      obtain ⟨_, -, -, -, hconn⟩ := wp_ok (mongoPacketSend_spec N p v) hsent
      have hstop : (!autoReconnect || !y.conn.autoReconnect || false) = true := by
        rw [hconn]
        rcases hauto with hauto | hauto
        · rw [hauto]
          rfl
        · rw [hauto]
          simp
      dsimp only at h
      rw [if_neg (by decide), exec_get_bind, if_pos hstop] at h
      cases h

/-- A ping is handed over as it is called. -/
theorem handsOver_ping (h : Command.ping.HandsOver N fuel v u) : u = v := by
  cases h with
  | custom _ hcall _ hrun ha _ =>
      cases hcall
      obtain ⟨ready, v', hready, hloop⟩ := exec_bind_eq_ok.mp hrun
      cases hready
      exact watchedLoop_once (.inl rfl) hloop ha
  | within _ hwrites _ => cases hwrites

/-- A node that says it is a master leaves the error that is remembered. -/
theorem isMaster_sameError (w : World σ) :
    wp (mongoSyncCmdIsMaster N) (fun ok t => ok = true → SameError w t) (fun _ => True) w := by
  have hfalse : ∀ t : World σ, false = true → SameError w t := fun _ h => by cases h
  rw [mongoSyncCmdIsMaster, wp_bind]
  refine wp_of_exec (fun p s hrun => ?_) (fun _ _ _ => trivial)
  cases p with
  | none => exact hfalse s
  | some p =>
      have hsame := mongoSyncCmdCustomBare_sameError N hrun
      dsimp only
      rw [wp_bind]
      refine wp_readOrErrno (fun res _ => ?_) (fun _ _ => hfalse _) (fun _ _ => trivial)
      dsimp only
      rw [wp_bind]
      refine wp_ofExcept (fun ismaster _ => ?_) (fun _ _ => trivial)
      cases ismaster with
      | none => exact hfalse _
      | some b =>
          dsimp only
          rw [wp_bind]
          refine wp_ofExcept (fun primary _ => ?_) (fun _ _ => trivial)
          rw [wp_bind]
          refine wp_ofExcept (fun hosts _ => ?_) (fun _ _ => trivial)
          exact wp_ite (fun _ => hfalse _) (fun _ _ => hsame)

/-- Without reconnecting a packet is handed over with the error of the call. -/
theorem watchedPacketSend_steady {reconnect : Bool → Program (World σ) Bool} {p : MongoPacket}
    {forceMaster autoReconnect : Bool} {as : List (Attempt σ)} {a : Attempt σ}
    (hauto : v.conn.autoReconnect = false)
    (h : (watchedPacketSend N reconnect p forceMaster autoReconnect).exec v = (.ok (true, as), u))
    (ha : a ∈ as) : a.before.conn.lastError = v.conn.lastError := by
  obtain ⟨ready, s, hready, hloop⟩ := exec_bind_eq_ok.mp h
  cases ready with
  | false => cases hloop
  | true =>
      have hs : s.conn.lastError = v.conn.lastError ∧ s.conn.autoReconnect = false := by
        cases forceMaster with
        | false =>
            cases hready
            exact ⟨rfl, hauto⟩
        | true =>
            rw [if_pos rfl, mongoCmdEnsureConn, exec_get_bind, if_pos (Bool.true_or _),
              ensureMaster, setErrno, exec_modify_bind] at hready
            obtain ⟨master, x, hmaster, hready⟩ := exec_bind_eq_ok.mp hready
            have hpolls := wp_ok (mongoSyncCmdIsMaster_polls N _) hmaster
            have hsame := wp_ok (isMaster_sameError _) hmaster
            have hx : x.conn.autoReconnect = false := hpolls.roams.settings.autoReconnect.trans hauto
            cases master with
            | true =>
                cases hready
                exact ⟨hsame rfl, hx⟩
            | false =>
                rw [if_neg (by decide), exec_get_bind, hx] at hready
                split at hready
                · cases hready
                · cases hready
      rw [watchedLoop_once (.inr hs.2) hloop ha, hs.1]

/-- Without reconnecting the rounds of a bulk insert without safe mode leave the error. -/
theorem Batches.steady {ns : CString} {docs rest : List (Option Bson)}
    (h : Batches N (mongoSyncReconnect N fuel) ns docs v rest u)
    (hauto : v.conn.autoReconnect = false) (hsafe : v.conn.safeMode = false) :
    u.conn.lastError = v.conn.lastError ∧ u.conn.autoReconnect = false := by
  induction h with
  | first => exact ⟨rfl, hauto⟩
  | @next docs rest w x y c hc hround hmore hrest ih =>
      subst hc
      obtain ⟨p, s, -, hsent, hverify⟩ := insertBatch_sent hround
      have hsettings := mongoSyncPacketSend_settings N hsent
      obtain rfl := (verify_leaves hverify).2 (hsettings.safeMode.trans hsafe)
      obtain ⟨as, a, hrun, ha, -, herror⟩ := handed_over hsent
      have hbefore := watchedPacketSend_steady hauto hrun ha
      obtain ⟨hlast, hauto'⟩ := ih (hsettings.autoReconnect.trans hauto)
        (hsettings.safeMode.trans hsafe)
      exact ⟨by rw [hlast, herror, hbefore], hauto'⟩

/-- Without reconnecting the packet of a call is handed over with the error that is
remembered when it is called. -/
theorem handsOver_steady {c : Command} (h : c.HandsOver N fuel v u)
    (hauto : v.conn.autoReconnect = false) : u.conn.lastError = v.conn.lastError := by
  induction h with
  | custom _ _ _ hrun ha _ => exact watchedPacketSend_steady hauto hrun ha
  | update _ _ hrun ha _ => exact watchedPacketSend_steady hauto hrun ha
  | batch hsafe _ _ hbatches _ hrun ha _ _ =>
      obtain ⟨hlast, hauto'⟩ := hbatches.steady hauto hsafe
      rw [watchedPacketSend_steady hauto' hrun ha, hlast]
  | within _ _ _ ih => exact ih hauto

end HandedOver

/-! ## An error that outlives its command -/

section Stale

/-- A document that refuses a command. -/
def refusalDoc : Doc := .cons okKey (.double 0) (.cons errmsgKey (.string [110, 111]) .nil)

/-- Two pings: the server refuses the first and answers the second. -/
def twoPings : World Bytes where
  net := (Reply.mk 7 1 0 0 0 [refusalDoc]).bytes ++ (Reply.mk 8 2 0 0 0 [okDoc]).bytes
  conn := mongoSyncConnInit ⟨5, 0⟩ false
  errno := .ok
  nextFd := 6
  log := []

/-- The state after the first ping. -/
def onePinged : World Bytes := ((Command.ping.run scriptNet 1).exec twoPings).2

/-- The state after the second one. -/
def twoPinged : World Bytes := ((Command.ping.run scriptNet 1).exec onePinged).2

theorem onePing_run : ToldRun scriptNet 1 twoPings [⟨.ping, twoPings, false, onePinged⟩] onePinged :=
  .call .start (exec_of_fst (by decide +kernel) rfl)

/-- The packet of the first ping. -/
def onePingPacket : MongoPacket :=
  match mongoWireCmdCustom .little 1 (some systemDb) 0 (commandOne pingKey) with
  | .ok p => p
  | .error _ => mongoWirePacketNew .little

/-- Nothing goes wrong in the first ping. -/
theorem onePing_minds : Told.Minds scriptNet 1 ⟨.ping, twoPings, false, onePinged⟩ where
  forgotten u hu := by
    rw [handsOver_ping hu]
    rfl
  heard x hx r e hreported := by
    cases hx with
    | reply hcall hsends =>
        cases hcall
        obtain ⟨hp, hsent⟩ := hsends
        obtain ⟨⟨y, hrecv, -⟩, -, -⟩ := hreported
        have hpacket : mongoWireCmdCustom scriptNet.order (twoPings.conn.requestId + 1)
            (some systemDb) (slaveFlag twoPings.conn) (commandOne pingKey)
              = .ok onePingPacket := by decide +kernel
        obtain rfl := Except.ok.inj (hp.symm.trans hpacket)
        have hreply : ((mongoPacketRecv scriptNet).exec ((mongoSyncPacketSend scriptNet
            (mongoSyncReconnect scriptNet 1) onePingPacket false false).exec twoPings).2).1
              = .ok (some ((Reply.mk 7 1 0 0 0 [refusalDoc]).packet .little)) := by decide +kernel
        rw [hsent] at hreply
        obtain rfl := Option.some.inj (Except.ok.inj ((congrArg Prod.fst hrecv).symm.trans hreply))
        have hheader : mongoWireReplyPacketGetHeader
            (some ((Reply.mk 7 1 0 0 0 [refusalDoc]).packet .little))
              = .ok (.ok ⟨0, 0, 0, 1⟩) := by decide +kernel
        have hwants : ∀ wants, wants = Wanted.command → wants ≠ .lastError ∧ wants ≠ .lastErrorFull := by
          rintro _ rfl
          decide
        obtain ⟨hne, hnever⟩ := hwants _ rfl
        exact ⟨⟨_, hheader, BitVec.zero_and⟩, fun h => absurd h hne, hnever⟩
    | index hdrops _ _ => cases hdrops
    | within hwrites _ => cases hwrites

end Stale

end LibMongo
