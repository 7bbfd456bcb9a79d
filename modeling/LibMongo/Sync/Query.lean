import LibMongo.Sync.Operation
import LibMongo.Sync.Report

/-!
# Replies to queries

`mongo_sync_cmd_query` and `mongo_sync_cmd_get_more` look for an error report in
the first document of a reply, which is a document of the user.  So the reply is
returned only if that document is no report (`query_reply`), and a document with
a string under `err` takes the place of an error of the server
(`query_reply_censored`).
-/

namespace LibMongo

open Bytes Program

variable {σ : Type} (N : Net σ) (reconnect : Bool → Program (World σ) Bool)

/-! ## The calls -/

/-- The calls that are answered by documents. -/
inductive QueryCall where
  | query (ns : Option CString) (flags skip ret : BitVec 32) (query sel : Option Bson)
  | getMore (ns : Option CString) (ret : BitVec 32) (cursorId : BitVec 64)

namespace QueryCall

/-- The call of the library. -/
def run : QueryCall → Program (World σ) (Option MongoPacket)
  | .query ns flags skip ret q sel =>
      mongoSyncCmdQuery N reconnect ns flags skip ret q sel
  | .getMore ns ret cursorId => mongoSyncCmdGetMore N reconnect ns ret cursorId

/-- The request. -/
def packet (o : ByteOrder) (c : MongoSyncConnection) : QueryCall → Except Errno MongoPacket
  | .query ns flags skip ret q sel =>
      mongoWireCmdQuery o (c.requestId + 1) ns (flags ||| slaveFlag c) skip ret q sel
  | .getMore ns ret cursorId => mongoWireCmdGetMore o (c.requestId + 1) ns ret cursorId

/-- Whether only a master may get the request. -/
def forceMaster (c : MongoSyncConnection) : QueryCall → Bool
  | .query _ flags _ _ _ _ => !(c.slaveok || flags &&& flagQuerySlaveOk ≠ 0)
  | .getMore .. => false

/-- The flags of a reply that say the request failed. -/
def failure : QueryCall → BitVec 32
  | .query .. => replyFlagQueryFail
  | .getMore .. => replyFlagNoCursor

/-- The run of a call whose request is sent. -/
theorem exec_run {c : QueryCall} {w u v : World σ} {p : MongoPacket}
    (hverified : (mongoCmdVerifySlaveok N reconnect).exec w = (.ok true, u))
    (hpacket : c.packet N.order u.conn = .ok p)
    (hsent : (mongoSyncPacketSend N reconnect p (c.forceMaster u.conn) true).exec u
      = (.ok true, v)) :
    (c.run N reconnect).exec w
      = (mongoSyncPacketRecv N (u.conn.requestId + 1) c.failure >>= fun reply =>
          mongoSyncPacketCheckError reply false).exec v := by
  cases c with
  | query ns flags skip ret q sel =>
      have hbuild : (orErrno (mongoWireCmdQuery N.order (u.conn.requestId + 1) ns
          (flags ||| slaveFlag u.conn) skip ret q sel)).exec u = (.ok (some p), u) := by
        rw [packet] at hpacket
        rw [hpacket]
        rfl
      rw [run, mongoSyncCmdQuery, exec_bind_ok hverified, if_pos rfl, exec_get_bind]
      refine (exec_bind_ok hbuild _).trans ?_
      exact exec_bind_ok hsent _
  | getMore ns ret cursorId =>
      have hbuild : (orErrno (mongoWireCmdGetMore N.order (u.conn.requestId + 1) ns ret
          cursorId)).exec u = (.ok (some p), u) := by
        rw [packet] at hpacket
        rw [hpacket]
        rfl
      rw [run, mongoSyncCmdGetMore, exec_bind_ok hverified, if_pos rfl, exec_get_bind]
      refine (exec_bind_ok hbuild _).trans ?_
      exact exec_bind_ok hsent _

end QueryCall

/-! ## The reply -/

/-- A call sends its request, and `r` is the packet it receives: a reply to this
request, with no flag set that says it failed, and with a document at least. -/
structure Answered (c : QueryCall) (w : World σ) (r : Reply) : Prop where
  sent : ∃ u p v, (mongoCmdVerifySlaveok N reconnect).exec w = (.ok true, u) ∧
    c.packet N.order u.conn = .ok p ∧
    (mongoSyncPacketSend N reconnect p (c.forceMaster u.conn) true).exec u = (.ok true, v) ∧
    r.respTo = u.conn.requestId + 1 ∧
    ∃ x, (mongoPacketRecv N).exec v = (.ok (some (r.packet N.order)), x)
  fits : r.Fits
  flags : r.flags &&& c.failure = 0
  docs : r.docs ≠ []

/-- The reply passes the checks of its header. -/
theorem exec_packetRecv {r : Reply} {rid flags : BitVec 32} {w x : World σ}
    (hrecv : (mongoPacketRecv N).exec w = (.ok (some (r.packet N.order)), x)) (hfits : r.Fits)
    (hid : r.respTo = rid) (hflags : r.flags &&& flags = 0) (hdocs : r.docs ≠ []) :
    (mongoSyncPacketRecv N rid flags).exec w = (.ok (some (r.packet N.order)), x) := by
  have hheader : (readOrErrno (mongoWireReplyPacketGetHeader (some (r.packet N.order)))).exec x
      = (.ok (some ⟨r.flags, r.cursorId, r.start, BitVec.ofNat 32 r.docs.length⟩), x) := by
    rw [r.getHeader N.order hfits]
    rfl
  have hsome : ¬ BitVec.ofNat 32 r.docs.length = 0 := by
    intro h
    have hlen := congrArg BitVec.toNat h
    rw [BitVec.toNat_ofNat, Nat.mod_eq_of_lt hfits.count_lt] at hlen
    exact hdocs (List.length_eq_zero_iff.mp hlen)
  rw [mongoSyncPacketRecv, exec_bind_ok hrecv]
  dsimp only
  rw [if_neg (fun h => h hid), exec_bind_ok hheader]
  dsimp only
  rw [if_neg (fun h => h hflags), if_neg hsome]
  rfl

/-- A call whose request is answered returns what the check of the first document
makes of the reply. -/
theorem Answered.exec_run {c : QueryCall} {w : World σ} {r : Reply}
    (h : Answered N reconnect c w r) {d : Doc} {ds : List Doc} (hdocs : r.docs = d :: ds) :
    ∃ x : World σ, (c.run N reconnect).exec w
      = match d.report with
        | .error e => (.ok (some (r.packet N.order)),
            { x with conn := { x.conn with lastError := none }, errno := e })
        | .ok err => (.ok none, { x with conn := { x.conn with lastError := err } }) := by
  obtain ⟨u, p, v, hverified, hpacket, hsent, hid, x, hrecv⟩ := h.sent
  refine ⟨x, ?_⟩
  rw [QueryCall.exec_run N reconnect hverified hpacket hsent,
    exec_bind_ok (exec_packetRecv N hrecv h.fits hid h.flags h.docs)]
  refine (exec_packetCheckError N.order h.fits hdocs _).trans ?_
  cases d.report with
  | error e => rfl
  | ok err => rfl

/-- A value that says whether there is an error. -/
def Value.Reports (v : Value) : Prop := v.type = .string ∨ v.type = .null

theorem Doc.report_of_not_reports {d : Doc} (h : ∀ v, d.errorValue = some v → ¬ v.Reports) :
    d.report = .error .EPROTO := by
  rw [Doc.report]
  cases herror : d.errorValue with
  | none => rfl
  | some v =>
      have hv := h v herror
      cases v with
      | string s => exact absurd (.inl rfl) hv
      | null => exact absurd (.inr rfl) hv
      | _ => rfl

/-- The reply to a query is returned if its first document has neither a string nor a
null under `err`, or under `errmsg` when it has no `err`.  If there is a string, the
call returns `NULL` and remembers it as the last error. -/
theorem query_reply {c : QueryCall} {w : World σ} {r : Reply} {d : Doc} {ds : List Doc}
    (h : Answered N reconnect c w r) (hdocs : r.docs = d :: ds) :
    ((∀ v, d.errorValue = some v → ¬ v.Reports) →
      ((c.run N reconnect).exec w).1 = .ok (some (r.packet N.order))) ∧
    (∀ s, d.errorValue = some (.string s) →
      ((c.run N reconnect).exec w).1 = .ok none ∧
        ((c.run N reconnect).exec w).2.conn.lastError = some (CString.ofBytes s)) := by
  obtain ⟨x, hrun⟩ := h.exec_run N reconnect hdocs
  constructor
  · intro hnone
    rw [hrun, Doc.report_of_not_reports hnone]
  · intro s hs
    have hreport : d.report = .ok (some (CString.ofBytes s)) := by
      rw [Doc.report, hs]
      rfl
    rw [hrun, hreport]
    exact ⟨rfl, rfl⟩

/-! ## A document that looks like a report -/

/-- A query of every document of a collection. -/
def allDocuments : QueryCall :=
  .query (some (.ascii ['d', '.', 'c'])) 0 0 0 (some ⟨Doc.nil.encode, true⟩) none

/-- The reply with one document. -/
def oneDocument (d : Doc) : Reply := ⟨9, 1, 0, 0, 0, [d]⟩

/-- A fresh connection to a slave that answers with the reply. -/
def askingWorld (r : Reply) : World Bytes :=
  ⟨r.bytes, mongoSyncConnInit ⟨5, 0⟩ true, .ok, 6, []⟩

/-- The reply answers the query. -/
theorem answered_oneDocument {d : Doc} (h : (oneDocument d).Fits)
    (reconnect : Bool → Program (World Bytes) Bool) :
    Answered scriptNet reconnect allDocuments (askingWorld (oneDocument d)) (oneDocument d) := by
  have hrecv : ∀ w : World Bytes, 0 ≤ w.conn.fd → w.net = (oneDocument d).bytes →
      (mongoPacketRecv scriptNet).exec w
        = (.ok (some ((oneDocument d).packet scriptNet.order)), { w with net := [] }) := by
    intro w hfd hnet
    refine Reply.mongoPacketRecv_reply scriptNet (s := (oneDocument d).body) h hfd ?_ ?_
    · show (Except.ok (w.net.take 16), w.net.drop 16) = _
      rw [hnet, Reply.bytes, List.take_left' (Reply.head_length _),
        List.drop_left' (Reply.head_length _)]
    · show (Except.ok (List.take _ (oneDocument d).body), List.drop _ (oneDocument d).body) = _
      rw [List.take_length, List.drop_length]
  have hfd : (0 : Int) ≤ 5 := by decide
  have hflags : (0 : BitVec 32) &&& replyFlagQueryFail = 0 := by decide
  refine ⟨⟨_, _, _, rfl, rfl, rfl, rfl, _, hrecv _ ?_ rfl⟩, h, hflags, List.cons_ne_nil _ _⟩
  exact hfd

/-- Reconnecting where there is nothing to reconnect to. -/
def noReconnect (_ : Bool) : Program (World Bytes) Bool := pure false

/-- A document with a string under `err`. -/
def boomDoc : Doc := .cons errKey (.string [98, 111, 111, 109]) .nil

theorem oneDocument_fits {d : Doc} (h : d.encode.length < 2147483612) : (oneDocument d).Fits := by
  have hdoc : (oneDocument d).docs.flatMap Doc.encode = d.encode := by
    rw [oneDocument, List.flatMap_cons, List.flatMap_nil, List.append_nil]
  rw [Reply.Fits, Reply.body, hdoc]
  simp only [List.length_append, leBytes_length]
  omega

/-- A document with a number under `err`. -/
def numberedDoc : Doc := .cons errKey (.int32 5) (.cons okKey (.double 0) .nil)

/-- It is returned. -/
theorem query_reply_numbered :
    ((allDocuments.run scriptNet noReconnect).exec (askingWorld (oneDocument numberedDoc))).1
      = .ok (some ((oneDocument numberedDoc).packet .little)) := by
  refine (query_reply scriptNet noReconnect
    (answered_oneDocument (oneDocument_fits (by decide +kernel)) noReconnect) rfl).1 ?_
  intro v hv hreports
  cases hv
  rcases hreports with hstring | hnull
  · cases hstring
  · cases hnull

/-- A document with a string under `err` is not returned, although the reply is no other
than that with the empty document. -/
theorem query_reply_censored :
    Answered scriptNet noReconnect allDocuments (askingWorld (oneDocument boomDoc))
        (oneDocument boomDoc) ∧
      ((allDocuments.run scriptNet noReconnect).exec (askingWorld (oneDocument boomDoc))).1
        = .ok none ∧
      Answered scriptNet noReconnect allDocuments (askingWorld (oneDocument .nil))
        (oneDocument .nil) ∧
      ((allDocuments.run scriptNet noReconnect).exec (askingWorld (oneDocument .nil))).1
        = .ok (some ((oneDocument .nil).packet .little)) := by
  have hboom := answered_oneDocument (oneDocument_fits (d := boomDoc) (by decide +kernel)) noReconnect
  have hempty := answered_oneDocument (oneDocument_fits (d := .nil) (by decide +kernel)) noReconnect
  refine ⟨hboom, ?_, hempty, ?_⟩
  · obtain ⟨x, hrun⟩ := hboom.exec_run scriptNet noReconnect rfl
    rw [hrun]
    rfl
  · obtain ⟨x, hrun⟩ := hempty.exec_run scriptNet noReconnect rfl
    rw [hrun]
    rfl

end LibMongo
