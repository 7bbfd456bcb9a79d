import LibMongo.Sync.Paging

/-!
# Databases

A `Database` says what a service keeps, and what it promises: documents that are inserted are
stored behind those of the collection, a query is answered with the first of the documents it
selects, and `get_more` with those behind them.  How many come at a time is up to the
service.

The lemmas say what the dialogues of the library make of such a service.  A bulk insert takes
all of its documents (`exec_insertLoop`), and a cursor returns what its query selects
(`exec_findUpTo`), whatever the batches are.
-/

namespace LibMongo

open Bytes Program

/-! ## Numbers -/

/-- A double without its fraction.  Infinities have no meaning here. -/
def truncated (x : GDouble) : Int :=
  let e := x.toNat / 2 ^ 52 % 2048
  let m := 2 ^ 52 + x.toNat % 2 ^ 52
  let n : Nat := if e < 1023 then 0 else if e ≤ 1075 then m / 2 ^ (1075 - e) else m * 2 ^ (e - 1075)
  if x.msb then -n else n

/-! ## Databases -/

/-- A namespace that commands are sent to. -/
def IsCommand (ns : CString) : Prop := cmdSuffix.bytes <:+ ns.bytes

instance (ns : CString) : Decidable (IsCommand ns) :=
  inferInstanceAs (Decidable (cmdSuffix.bytes <:+ ns.bytes))

/-- The name of a collection of a database. -/
def collectionNs (db coll : CString) : CString := (db.append dot).append coll

/-- A command as a message. -/
def commandMessage (db : CString) (flags : BitVec 32) (command : Doc) : WireMessage :=
  .query (db.append cmdSuffix) flags 0 1 command.encode (some Doc.nil.encode)

/-- The command succeeded, and this is what it returned. -/
structure Response.Succeeds (r : Response) (d : Doc) : Prop where
  flags : r.flags &&& replyFlagQueryFail = 0
  docs : ∃ ds, r.docs = d :: ds
  ok : d.isOk = true

/-- The documents that are asked for: the first ones are in the response, and the others are
left behind its cursor.  If there are none, the response is not taken for a reply. -/
inductive Response.Pages (r : Response) (failure : BitVec 32) (left : List Doc) : List Doc → Prop
  | empty : r.flags &&& failure ≠ 0 ∨ r.docs = [] → r.Pages failure left []
  | page : r.flags &&& failure = 0 → r.docs ≠ [] → r.Pages failure left (r.docs ++ left)

/-- A server that keeps documents. -/
structure Database {S : Type} (V : Service S) where
  contents : S → CString → List Doc
  /-- What a cursor has not returned yet. -/
  left : S → BitVec 64 → List Doc
  selects : Doc → Doc → Bool
  selects_nil : ∀ d, selects .nil d = true
  isMaster : ∀ s flags,
    contents (V.serve s (commandMessage systemDb flags (oneDoc ismasterKey))).1 = contents s ∧
      left (V.serve s (commandMessage systemDb flags (oneDoc ismasterKey))).1 = left s ∧
      ∃ d b, (V.serve s (commandMessage systemDb flags (oneDoc ismasterKey))).2.Succeeds d ∧
        d.isMaster = some b ∧ b ≠ 0
  getLastError : ∀ s db flags,
    contents (V.serve s (commandMessage db flags (oneDoc getlasterrorKey))).1 = contents s ∧
      ∃ d, (V.serve s (commandMessage db flags (oneDoc getlasterrorKey))).2.Succeeds d ∧
        d.report = .ok none
  /-- A double is exact up to `2 ^ 53`. -/
  count : ∀ s db coll flags, (countDoc coll none).encode.length < 2147483648 →
    contents (V.serve s (commandMessage db flags (countDoc coll none))).1 = contents s ∧
      ∃ d x, (V.serve s (commandMessage db flags (countDoc coll none))).2.Succeeds d ∧
        d.number = .ok x ∧
        ((contents s (collectionNs db coll)).length < 9007199254740992 →
          truncated x = (contents s (collectionNs db coll)).length)
  insert : ∀ s ns docs, (∀ d ∈ docs, d.encode.length < 16777216) →
    contents (V.serve s (.insert ns (docs.map Doc.encode))).1
      = Function.update (contents s) ns (contents s ns ++ docs)
  /-- A query for a single document has no cursor. -/
  find : ∀ s ns flags ret q, ¬ IsCommand ns → ret ≠ 1 →
    contents (V.serve s (.query ns flags 0 ret q.encode none)).1 = contents s ∧
      (V.serve s (.query ns flags 0 ret q.encode none)).2.Pages replyFlagQueryFail
        (left (V.serve s (.query ns flags 0 ret q.encode none)).1
          (V.serve s (.query ns flags 0 ret q.encode none)).2.cursorId)
        ((contents s ns).filter (selects q))
  getMore : ∀ s ns ret cursorId,
    contents (V.serve s (.getMore ns ret cursorId)).1 = contents s ∧
      (V.serve s (.getMore ns ret cursorId)).2.Pages replyFlagNoCursor
        (left (V.serve s (.getMore ns ret cursorId)).1
          (V.serve s (.getMore ns ret cursorId)).2.cursorId)
        (left s cursorId)
  killCursors : ∀ s cids, contents (V.serve s (.killCursors cids)).1 = contents s

/-! ## Dialogues with a database -/

/-- A document that is not taken for the report of an error. -/
def Doc.Ordinary (d : Doc) : Prop := ∃ e, d.report = .error e

namespace Dialogue

variable {S : Type} {V : Service S}

/-- The settings stay, and the last error does unless it is forgotten. -/
structure Steady (d d' : Dialogue S) : Prop where
  safeMode : d'.conn.safeMode = d.conn.safeMode
  maxInsertSize : d'.conn.maxInsertSize = d.conn.maxInsertSize
  lastError : d'.conn.lastError = d.conn.lastError ∨ d'.conn.lastError = none

namespace Steady

variable {d d' d'' : Dialogue S}

theorem refl (d : Dialogue S) : Steady d d := ⟨rfl, rfl, .inl rfl⟩

theorem trans (h : Steady d d') (h' : Steady d' d'') : Steady d d'' where
  safeMode := h'.safeMode.trans h.safeMode
  maxInsertSize := h'.maxInsertSize.trans h.maxInsertSize
  lastError := by
    rcases h'.lastError with heq | hnone
    · rw [heq]
      exact h.lastError
    · exact .inr hnone

end Steady

/-- No error is remembered that a verdict in safe mode could be about. -/
def Ready (d : Dialogue S) : Prop := d.conn.safeMode = true → d.conn.lastError = none

theorem Steady.ready {d d' : Dialogue S} (h : Steady d d') (hready : d.Ready) : d'.Ready := by
  intro hsafe
  rcases h.lastError with heq | hnone
  · rw [heq]
    exact hready (by rw [← h.safeMode, hsafe])
  · exact hnone

/-- The dialogue once a message has been handed over. -/
def told (V : Service S) (id : BitVec 32) (m : WireMessage) (d : Dialogue S) : Dialogue S :=
  { d with
    server := (V.serve d.server m).1
    conn := { d.conn with requestId := V.order.le32 id } }

theorem steady_told (V : Service S) (id : BitVec 32) (m : WireMessage) (d : Dialogue S) : Steady d (told V id m d) :=
  ⟨rfl, rfl, .inl rfl⟩

/-- The dialogue once a command has succeeded. -/
def answered (V : Service S) (id : BitVec 32) (m : WireMessage) (d : Dialogue S) : Dialogue S :=
  { told V id m d with errno := .ok }

theorem steady_answered (V : Service S) (id : BitVec 32) (m : WireMessage) (d : Dialogue S) :
    Steady d (answered V id m d) := ⟨rfl, rfl, .inl rfl⟩

section Runs

variable {ready : Program (Dialogue S) Bool} {id flags : BitVec 32} {m : WireMessage}
  {d d' : Dialogue S}

theorem exec_send (hready : ready.exec d = (.ok true, d')) :
    (send V ready id m).exec d = (.ok true, told V id m d') := by
  rw [send, exec_bind_ok hready, if_pos rfl]
  rfl

theorem exec_exchange (hready : ready.exec d = (.ok true, d')) (checkOk : Bool) :
    (exchange V ready id m flags checkOk).exec d
      = (receive id flags checkOk (V.serve d'.server m).2).exec (told V id m d') := by
  rw [exchange, exec_bind_ok hready, if_pos rfl]
  rfl

/-- A reply that has a document is received. -/
theorem received_eq (id : BitVec 32) {r : Response} {doc : Doc} {ds : List Doc} (h : r.docs = doc :: ds) :
    ∃ rc : Received, r.received id = some rc ∧ rc.first = doc ∧ rc.reply.docs = r.docs ∧
      rc.reply.cursorId = r.cursorId := by
  obtain ⟨rid, rflags, cursorId, start, docs, hfits⟩ := r
  subst h
  exact ⟨_, rfl, rfl, rfl, rfl⟩

/-- The reply to a command that succeeded. -/
theorem exec_receive_succeeds (id : BitVec 32) {r : Response} {doc : Doc} (h : r.Succeeds doc) (d : Dialogue S) :
    ∃ rc, (receive id replyFlagQueryFail true r).exec d = (.ok (some rc), { d with errno := .ok }) ∧
      rc.first = doc := by
  obtain ⟨ds, hdocs⟩ := h.docs
  obtain ⟨rc, hreceived, hfirst, -⟩ := received_eq id hdocs
  have hok : rc.first.isOk = true := by rw [hfirst, h.ok]
  refine ⟨rc, ?_, hfirst⟩
  rw [receive, if_neg (fun hflags => hflags h.flags), hreceived]
  dsimp only
  rw [if_pos rfl, checkCommand, if_pos hok]
  rfl

/-- The reply to a query that found documents. -/
theorem exec_receive_docs (id : BitVec 32) {r : Response} (hflags : r.flags &&& flags = 0) (hne : r.docs ≠ [])
    (hordinary : ∀ doc ∈ r.docs, doc.Ordinary) (d : Dialogue S) :
    ∃ rc e, (receive id flags false r).exec d
        = (.ok (some rc), { d with conn := { d.conn with lastError := none }, errno := e }) ∧
      rc.reply.docs = r.docs ∧ rc.reply.cursorId = r.cursorId := by
  obtain ⟨doc, ds, hdocs⟩ := List.exists_cons_of_ne_nil hne
  obtain ⟨rc, hreceived, hfirst, hrc, hcursor⟩ := received_eq id hdocs
  obtain ⟨e, hreport⟩ := hordinary doc (by rw [hdocs]; exact List.mem_cons_self)
  refine ⟨rc, e, ?_, hrc, hcursor⟩
  rw [receive, if_neg (fun h => h hflags), hreceived]
  dsimp only
  rw [if_neg Bool.false_ne_true, checkQuery, hfirst, hreport]
  rfl

/-- A response that is no reply. -/
theorem exec_receive_none (id : BitVec 32) {r : Response} (h : r.flags &&& flags ≠ 0 ∨ r.docs = [])
    (d : Dialogue S) :
    ∃ e, (receive id flags false r).exec d = (.ok none, { d with errno := e }) := by
  rw [receive]
  by_cases hflags : r.flags &&& flags = 0
  · have hdocs := h.resolve_left (fun hne => hne hflags)
    obtain ⟨rid, rflags, cursorId, start, docs, hfits⟩ := r
    subst hdocs
    rw [if_neg (fun h => h hflags)]
    exact ⟨.ENOENT, rfl⟩
  · rw [if_pos hflags]
    exact ⟨.EPROTO, rfl⟩

/-- A command that succeeds. -/
theorem exec_command (db : CString) {cmd : Doc} (hready : ready.exec d = (.ok true, d'))
    {doc : Doc} (h : (V.serve d'.server (commandMessage db (slaveFlag d.conn) cmd)).2.Succeeds doc) :
    ∃ rc, (command V ready db cmd.encode).exec d
        = (.ok (some rc), answered V (d.conn.requestId + 1)
            (commandMessage db (slaveFlag d.conn) cmd) d') ∧
      rc.first = doc := by
  obtain ⟨rc, hrun, hfirst⟩ := exec_receive_succeeds (d.conn.requestId + 1) h
    (told V (d.conn.requestId + 1) (commandMessage db (slaveFlag d.conn) cmd) d')
  refine ⟨rc, ?_, hfirst⟩
  rw [command, exec_get_bind]
  exact (exec_exchange hready true).trans hrun

/-- A reply that the server is a master. -/
theorem exec_isMaster_of {rc : Received} {b : BitVec 32}
    (hrun : (command V atOnce systemDb (oneDoc ismasterKey).encode).exec d = (.ok (some rc), d'))
    (hmaster : rc.first.isMaster = some b) (hb : b ≠ 0) :
    ∃ u, (isMaster V).exec d = (.ok true, u) ∧ u.server = d'.server ∧ Steady d' u := by
  have hexec : (isMaster V).exec d = (.ok (decide (b ≠ 0)), { d' with
      conn := { d'.conn with
        rs := { d'.conn.rs with
          primary := (if b = 0 then rc.first.primary else none).or d'.conn.rs.primary
          hosts := rc.first.hosts.getD d'.conn.rs.hosts } }
      errno := .ok }) := by
    rw [isMaster, exec_bind_ok hrun]
    dsimp only
    rw [hmaster]
    rfl
  rw [decide_eq_true hb] at hexec
  exact ⟨_, hexec, rfl, rfl, rfl, .inl rfl⟩

/-- A reply that there is no error. -/
theorem exec_getLastError_of {db : CString} {rc : Received}
    (hrun : (command V atOnce db (oneDoc getlasterrorKey).encode).exec d = (.ok (some rc), d'))
    (hreport : rc.first.report = .ok none) (hlast : d'.conn.lastError = none) :
    (getLastError V db).exec d = (.ok (some none), d') := by
  rw [getLastError, lastErrorDoc, bind_assoc, exec_bind_ok hrun]
  dsimp only
  rw [pure_bind]
  dsimp only
  rw [hreport]
  exact congrArg (fun e => (Except.ok (some e), d')) hlast

end Runs

end Dialogue

namespace Database

variable {S : Type} {V : Service S} (D : Database V)

/-- Nothing has changed that is stored. -/
structure Unchanged (d d' : Dialogue S) : Prop extends Dialogue.Steady d d' where
  contents : D.contents d'.server = D.contents d.server

/-- Nor has what a cursor has left. -/
structure Kept (d d' : Dialogue S) : Prop extends D.Unchanged d d' where
  left : D.left d'.server = D.left d.server

variable {d d' : Dialogue S}

theorem Unchanged.trans {d'' : Dialogue S} (h : D.Unchanged d d') (h' : D.Unchanged d' d'') :
    D.Unchanged d d'' :=
  ⟨h.toSteady.trans h'.toSteady, h'.contents.trans h.contents⟩

theorem Kept.trans {d'' : Dialogue S} (h : D.Kept d d') (h' : D.Kept d' d'') : D.Kept d d'' :=
  ⟨h.toUnchanged.trans D h'.toUnchanged, h'.left.trans h.left⟩

theorem Kept.refl (d : Dialogue S) : D.Kept d d := ⟨⟨Dialogue.Steady.refl d, rfl⟩, rfl⟩

theorem exec_isMaster (d : Dialogue S) :
    ∃ d', (Dialogue.isMaster V).exec d = (.ok true, d') ∧ D.Kept d d' := by
  obtain ⟨hcontents, hleft, doc, b, hsucceeds, hmaster, hb⟩ := D.isMaster d.server (slaveFlag d.conn)
  obtain ⟨rc, hrun, hfirst⟩ := Dialogue.exec_command (d := d) systemDb rfl hsucceeds
  have hisMaster : rc.first.isMaster = some b := by rw [hfirst, hmaster]
  obtain ⟨d', hexec, hserver, hsteady⟩ := Dialogue.exec_isMaster_of hrun hisMaster hb
  refine ⟨d', hexec, ⟨(Dialogue.steady_answered V _ _ d).trans hsteady, ?_⟩, ?_⟩
  · rw [hserver]
    exact hcontents
  · rw [hserver]
    exact hleft

theorem exec_ensureMaster (d : Dialogue S) :
    ∃ d', (Dialogue.ensureMaster V).exec d = (.ok true, d') ∧ D.Kept d d' := by
  obtain ⟨d', hrun, hkept⟩ := D.exec_isMaster { d with errno := .ok }
  refine ⟨d', ?_, ⟨⟨hkept.safeMode, hkept.maxInsertSize, hkept.lastError⟩, hkept.contents⟩,
    hkept.left⟩
  rw [Dialogue.ensureMaster, Dialogue.setErrno, exec_modify_bind, exec_bind_ok hrun, if_pos rfl]
  rfl

theorem exec_verifySlaveok (d : Dialogue S) :
    ∃ d', (Dialogue.verifySlaveok V).exec d = (.ok true, d') ∧ D.Kept d d' := by
  rw [Dialogue.verifySlaveok, exec_get_bind]
  split
  · exact ⟨d, rfl, Kept.refl D d⟩
  · exact D.exec_ensureMaster d

theorem exec_ready {c : Prop} [Decidable c] (d : Dialogue S) :
    ∃ d', (if c then Dialogue.atOnce else Dialogue.ensureMaster V).exec d = (.ok true, d') ∧ D.Kept d d' := by
  split
  · exact ⟨d, rfl, Kept.refl D d⟩
  · exact D.exec_ensureMaster d

/-- In safe mode the verdict is good, if no error is remembered. -/
theorem exec_verifyResult (hready : d.Ready) (ns : CString) :
    ∃ d', (Dialogue.verifyResult V ns).exec d = (.ok true, d') ∧ D.Unchanged d d' := by
  rw [Dialogue.verifyResult, exec_get_bind]
  by_cases hsafe : d.conn.safeMode = true
  · obtain ⟨hcontents, doc, hsucceeds, hreport⟩ :=
      D.getLastError d.server (nsDb ns) (slaveFlag d.conn)
    obtain ⟨rc, hrun, hfirst⟩ := Dialogue.exec_command (d := d) (nsDb ns) rfl hsucceeds
    have hlast : d.conn.lastError = none := hready hsafe
    have herror := Dialogue.exec_getLastError_of hrun (by rw [hfirst, hreport]) hlast
    rw [if_neg (by simp [hsafe])]
    exact ⟨_, exec_bind_ok herror _, ⟨rfl, rfl, .inl rfl⟩, hcontents⟩
  · rw [if_pos (by simpa using hsafe)]
    exact ⟨d, rfl, Dialogue.Steady.refl d, rfl⟩

/-! ### Inserting -/

theorem exec_sendMaster (m : WireMessage) (d : Dialogue S) :
    ∃ d', (Dialogue.sendMaster V m).exec d
        = (.ok true, Dialogue.told V (d.conn.requestId + 1) m d') ∧ D.Kept d d' := by
  obtain ⟨d', hrun, hkept⟩ := D.exec_ensureMaster d
  refine ⟨d', ?_, hkept⟩
  rw [Dialogue.sendMaster, exec_get_bind]
  exact Dialogue.exec_send hrun

/-- Documents have been inserted. -/
structure Inserted (ns : CString) (xs : List Doc) (d d' : Dialogue S) : Prop
    extends Dialogue.Steady d d' where
  contents : D.contents d'.server
    = Function.update (D.contents d.server) ns (D.contents d.server ns ++ xs)

theorem Inserted.trans {ns : CString} {xs ys : List Doc} {d'' : Dialogue S}
    (h : D.Inserted ns xs d d') (h' : D.Inserted ns ys d' d'') : D.Inserted ns (xs ++ ys) d d'' where
  toSteady := h.toSteady.trans h'.toSteady
  contents := by
    rw [h'.contents, h.contents]
    simp

theorem exec_insertBatch (ns : CString) {docs : List Document} {xs : List Doc} (hne : docs ≠ [])
    (hdocs : docs.map Document.bytes = xs.map Doc.encode)
    (hsmall : ∀ x ∈ xs, x.encode.length < 16777216) (hready : d.Ready) :
    ∃ d', (Dialogue.insertBatch V ns docs).exec d = (.ok true, d') ∧ D.Inserted ns xs d d' := by
  obtain ⟨u, hsent, hkept⟩ := D.exec_sendMaster (.insert ns (docs.map Document.bytes)) d
  have hcontents := D.insert u.server ns xs hsmall
  rw [hkept.contents, ← hdocs] at hcontents
  have hsteady := hkept.toSteady.trans
    (Dialogue.steady_told V (d.conn.requestId + 1) (.insert ns (docs.map Document.bytes)) u)
  obtain ⟨d', hverified, hsame⟩ := D.exec_verifyResult (hsteady.ready hready) ns
  refine ⟨d', ?_, hsteady.trans hsame.toSteady, hsame.contents.trans hcontents⟩
  rw [Dialogue.insertBatch, if_neg (by simpa using hne), exec_bind_ok hsent, if_neg (by simp)]
  exact hverified

/-- The packets of a bulk insert take all of its documents. -/
theorem exec_insertLoop (ns : CString) (fuel : Nat) :
    ∀ (docs : List Document) (xs : List Doc) (d : Dialogue S), docs ≠ [] → docs.length ≤ fuel →
      docs.map Document.bytes = xs.map Doc.encode → (∀ x ∈ xs, x.encode.length < 16777216) →
      0 < d.conn.maxInsertSize →
      (∀ doc ∈ docs, (doc.bytes.length : Int) < d.conn.maxInsertSize) → d.Ready →
      ∃ d', (Dialogue.insertLoop V ns fuel docs).exec d = (.ok true, d') ∧ D.Inserted ns xs d d' := by
  induction fuel with
  | zero => exact fun docs _ _ hne hlen => absurd (List.length_eq_zero_iff.mp (by omega)) hne
  | succ fuel ih =>
      intro docs xs d hne hlen hdocs hsmall hpos hlimit hready
      have hpointers : pointers docs ≠ [] := by simpa [pointers] using hne
      have hbatch := batchLength_pos hpointers hpos
        (by
          intro b hb
          obtain ⟨doc, hdoc, rfl⟩ := List.mem_map.mp hb
          rw [doc.size_eq]
          exact hlimit doc hdoc)
      have hlength : (pointers docs).length = docs.length := by simp [pointers]
      obtain ⟨c, hc⟩ : ∃ c, (batchLength d.conn.maxInsertSize (pointers docs)).toNat = c := ⟨_, rfl⟩
      have hfront : docs.take c ≠ [] := by
        rw [ne_eq, List.take_eq_nil_iff]
        rintro (h | h)
        · omega
        · exact hne h
      obtain ⟨u, hrun, hinserted⟩ := D.exec_insertBatch ns hfront
        (show _ = (xs.take c).map Doc.encode by rw [List.map_take, hdocs, List.map_take])
        (fun x hx => hsmall x (List.mem_of_mem_take hx)) hready
      rw [Dialogue.insertLoop, exec_get_bind]
      dsimp only
      rw [hc, exec_bind_ok hrun, if_neg (by simp)]
      by_cases hrest : docs.drop c = []
      · have hall : xs.take c = xs := by
          have hxs : docs.length = xs.length := by simpa using congrArg List.length hdocs
          rw [List.drop_eq_nil_iff] at hrest
          exact List.take_of_length_le (by omega)
        rw [hall] at hinserted
        rw [if_pos (by simp [hrest])]
        exact ⟨u, rfl, hinserted⟩
      · obtain ⟨d', hrun', hinserted'⟩ := ih (docs.drop c) (xs.drop c) u hrest
          (by rw [List.length_drop]; omega) (by rw [List.map_drop, hdocs, List.map_drop])
          (fun x hx => hsmall x (List.mem_of_mem_drop hx)) (by rw [hinserted.maxInsertSize]; exact hpos)
          (fun doc hdoc => by
            rw [hinserted.maxInsertSize]
            exact hlimit doc (List.mem_of_mem_drop hdoc))
          (hinserted.toSteady.ready hready)
        refine ⟨d', ?_, List.take_append_drop c xs ▸ hinserted.trans D hinserted'⟩
        rw [if_neg (by simpa using hrest)]
        exact hrun'

/-! ### Reading -/

/-- What a reply, if there is one, and its cursor have of the documents that were asked for. -/
inductive Turned (left : BitVec 64 → List Doc) : Option Received → List Doc → Prop
  | empty : Turned left none []
  | page {rc : Received} : Turned left (some rc) (rc.reply.docs ++ left rc.reply.cursorId)

namespace Turned

variable {left : BitVec 64 → List Doc} {rc : Option Received} {found : List Doc}

theorem docs_eq (h : Turned left rc found) :
    found = (rc.elim [] fun r => r.reply.docs ++ left r.reply.cursorId) := by
  cases h <;> rfl

theorem eq_none (h : Turned left rc []) : rc = none := by
  cases rc with
  | none => rfl
  | some r =>
      have hdocs := (List.append_eq_nil_iff.mp h.docs_eq.symm).1
      exact absurd hdocs (List.ne_nil_of_length_pos r.docs_pos)

theorem eq_some {x : Doc} {xs : List Doc} (h : Turned left rc (x :: xs)) :
    ∃ r, rc = some r ∧ r.reply.docs ++ left r.reply.cursorId = x :: xs := by
  cases rc with
  | none => exact absurd h.docs_eq (List.cons_ne_nil x xs)
  | some r => exact ⟨r, rfl, h.docs_eq.symm⟩

end Turned

theorem exec_exchange_pages (id : BitVec 32) {ready : Program (Dialogue S) Bool}
    {failure : BitVec 32} {m : WireMessage} {u : Dialogue S} {found : List Doc} (hready : ready.exec d = (.ok true, u))
    (hpages : (V.serve u.server m).2.Pages failure
      (D.left (V.serve u.server m).1 (V.serve u.server m).2.cursorId) found)
    (hcontents : D.contents (V.serve u.server m).1 = D.contents u.server)
    (hordinary : ∀ x ∈ found, x.Ordinary) :
    ∃ rc d', (Dialogue.exchange V ready id m failure false).exec d = (.ok rc, d') ∧
      Turned (D.left d'.server) rc found ∧ D.Unchanged u d' := by
  rw [Dialogue.exec_exchange hready]
  cases hpages with
  | empty hnone =>
      obtain ⟨e, hrun⟩ := Dialogue.exec_receive_none id hnone (Dialogue.told V id m u)
      exact ⟨none, _, hrun, .empty, ⟨rfl, rfl, .inl rfl⟩, hcontents⟩
  | page hflags hne =>
      obtain ⟨rc, e, hrun, hdocs, hcursor⟩ := Dialogue.exec_receive_docs id hflags hne
        (fun x hx => hordinary x (List.mem_append_left _ hx)) (Dialogue.told V id m u)
      refine ⟨some rc, _, hrun, ?_, ⟨rfl, rfl, .inr rfl⟩, hcontents⟩
      rw [← hdocs, ← hcursor]
      exact .page

/-- A query is answered with documents it selects. -/
theorem exec_query {ns : CString} {q : Doc} (hns : ¬ IsCommand ns) (flags : BitVec 32)
    {ret : BitVec 32} (hret : ret ≠ 1) (d : Dialogue S)
    (hordinary : ∀ x ∈ D.contents d.server ns, x.Ordinary) :
    ∃ rc d', (Dialogue.query V ns flags 0 ret q.encode none).exec d = (.ok rc, d') ∧
      Turned (D.left d'.server) rc ((D.contents d.server ns).filter (D.selects q)) ∧
      D.Unchanged d d' := by
  obtain ⟨u, hverified, hu⟩ := D.exec_verifySlaveok d
  obtain ⟨v, hready, hv⟩ := D.exec_ready
    (c := (u.conn.slaveok || flags &&& flagQuerySlaveOk ≠ 0) = true) u
  have hkept := hu.trans D hv
  obtain ⟨hcontents, hpages⟩ := D.find v.server ns (flags ||| slaveFlag u.conn) ret q hns hret
  rw [hkept.contents] at hpages
  obtain ⟨rc, d', hrun, hturned, hsame⟩ := D.exec_exchange_pages (u.conn.requestId + 1) hready
    hpages hcontents fun x hx => hordinary x (List.mem_of_mem_filter hx)
  refine ⟨rc, d', ?_, hturned, hkept.toUnchanged.trans D hsame⟩
  rw [Dialogue.query, exec_bind_ok hverified, if_pos rfl, exec_get_bind]
  exact hrun

/-- `get_more` goes on where the cursor is. -/
theorem exec_getMore (ns : CString) (ret : BitVec 32) (cursorId : BitVec 64) (d : Dialogue S)
    (hordinary : ∀ x ∈ D.left d.server cursorId, x.Ordinary) :
    ∃ rc d', (Dialogue.getMore V ns ret cursorId).exec d = (.ok rc, d') ∧
      Turned (D.left d'.server) rc (D.left d.server cursorId) ∧ D.Unchanged d d' := by
  obtain ⟨u, hverified, hu⟩ := D.exec_verifySlaveok d
  obtain ⟨hcontents, hpages⟩ := D.getMore u.server ns ret cursorId
  rw [hu.left] at hpages
  obtain ⟨rc, d', hrun, hturned, hsame⟩ := D.exec_exchange_pages (u.conn.requestId + 1)
    (show Dialogue.atOnce.exec u = (.ok true, u) from rfl) hpages hcontents hordinary
  refine ⟨rc, d', ?_, hturned, hu.toUnchanged.trans D hsame⟩
  rw [Dialogue.getMore, exec_bind_ok hverified, if_pos rfl, exec_get_bind]
  exact hrun

/-- The documents that a cursor has not returned yet. -/
def rest (s : S) (p : Place) : List Doc :=
  p.reply.reply.docs.drop p.seen ++ D.left s p.reply.reply.cursorId

/-- A cursor behind the last document. -/
theorem exec_cursorNext_nil {p : Place} (hrest : D.rest d.server p = []) :
    ∃ p' d', (Dialogue.cursorNext V p).exec d = (.ok (false, p'), d') ∧ D.Unchanged d d' := by
  obtain ⟨hseen, hleft⟩ := List.append_eq_nil_iff.mp hrest
  have hend : ¬ p.seen < p.reply.reply.docs.length := by
    have := List.drop_eq_nil_iff.mp hseen
    omega
  obtain ⟨rc, d', hrun, hturned, hsame⟩ := D.exec_getMore p.ns p.reply.reply.more.ret
    p.reply.reply.more.cursorId { d with errno := .ok }
    (fun x hx => absurd (hleft ▸ hx) List.not_mem_nil)
  rw [show D.left _ p.reply.reply.more.cursorId = [] from hleft] at hturned
  cases hturned.eq_none
  refine ⟨{ p with held := false, seen := 0, seen_le := Nat.zero_le _ }, d', ?_,
    ⟨hsame.safeMode, hsame.maxInsertSize, hsame.lastError⟩, hsame.contents⟩
  rw [Dialogue.cursorNext, Dialogue.setErrno, exec_modify_bind, dif_neg hend, exec_bind_ok hrun]
  rfl

/-- A cursor in front of a document goes to it. -/
theorem exec_cursorNext_cons {p : Place} {x : Doc} {xs : List Doc} (hheld : p.held = true)
    (hrest : D.rest d.server p = x :: xs) (hordinary : ∀ y ∈ x :: xs, y.Ordinary) :
    ∃ p' d', (Dialogue.cursorNext V p).exec d = (.ok (true, p'), d') ∧ p'.held = true ∧
      (∀ u : Dialogue S, (Dialogue.cursorGetData p').exec u = (.ok (some x), u)) ∧
      x ∈ p'.reply.reply.docs ∧ p'.ns = p.ns ∧ D.rest d'.server p' = xs ∧ D.Unchanged d d' := by
  by_cases hseen : p.seen < p.reply.reply.docs.length
  · have hsplit := List.drop_eq_getElem_cons hseen
    rw [rest, hsplit, List.cons_append] at hrest
    obtain ⟨hx, hxs⟩ := List.cons.inj hrest
    refine ⟨{ p with seen := p.seen + 1, seen_le := hseen }, { d with errno := .ok }, ?_, hheld, ?_,
      hx ▸ List.getElem_mem hseen, rfl, hxs, ⟨rfl, rfl, .inl rfl⟩, rfl⟩
    · rw [Dialogue.cursorNext, Dialogue.setErrno, exec_modify_bind, dif_pos hseen]
      rfl
    · intro u
      obtain ⟨ns, reply, held, seen, hle⟩ := p
      cases hheld
      rw [← hx]
      exact congrArg (fun y => (Except.ok y, u)) (List.getElem?_eq_getElem hseen)
  · have hseen' := hseen
    rw [rest, List.drop_eq_nil_of_le (by omega), List.nil_append] at hrest
    obtain ⟨rc, d', hrun, hturned, hsame⟩ := D.exec_getMore p.ns p.reply.reply.more.ret
      p.reply.reply.more.cursorId { d with errno := .ok } (fun y hy => hordinary y (hrest ▸ hy))
    rw [show D.left _ p.reply.reply.more.cursorId = x :: xs from hrest] at hturned
    obtain ⟨r, rfl, hdocs⟩ := hturned.eq_some
    have hpage := r.docs_eq
    rw [hpage, List.cons_append] at hdocs
    obtain ⟨rfl, hxs⟩ := List.cons.inj hdocs
    refine ⟨⟨p.ns, r, true, 1, r.docs_pos⟩, d', ?_, rfl, ?_, hpage ▸ List.mem_cons_self, rfl, ?_,
      ⟨hsame.safeMode, hsame.maxInsertSize, hsame.lastError⟩, hsame.contents⟩
    · rw [Dialogue.cursorNext, Dialogue.setErrno, exec_modify_bind, dif_neg hseen', exec_bind_ok hrun]
      rfl
    · intro u
      refine congrArg (fun y => (Except.ok y, u)) ?_
      rw [hpage]
      rfl
    · rw [rest, hpage]
      exact hxs

/-- The loop reads the documents that are left, in order. -/
theorem exec_fetch (n : Nat) :
    ∀ {p : Place} {d : Dialogue S}, p.held = true → (∀ x ∈ D.rest d.server p, x.Ordinary) →
      ∃ p' d', (Dialogue.fetch V n p).exec d
          = (.ok (((D.rest d.server p).take n).map some, p'), d') ∧ D.Unchanged d d' := by
  induction n with
  | zero => exact fun _ _ => ⟨_, _, rfl, Dialogue.Steady.refl _, rfl⟩
  | succ n ih =>
      intro p d hheld hordinary
      rw [Dialogue.fetch]
      cases hrest : D.rest d.server p with
      | nil =>
          obtain ⟨p', d', hrun, hsame⟩ := D.exec_cursorNext_nil hrest
          refine ⟨p', d', ?_, hsame⟩
          rw [exec_bind_ok hrun]
          rfl
      | cons x xs =>
          rw [hrest] at hordinary
          obtain ⟨q, u, hrun, hheld', hdata, -, -, hxs, hsame⟩ :=
            D.exec_cursorNext_cons hheld hrest hordinary
          obtain ⟨p', d', hrun', hsame'⟩ := ih hheld' (by
            rw [hxs]
            exact fun y hy => hordinary y (List.mem_cons_of_mem x hy))
          refine ⟨p', d', ?_, hsame.trans D hsame'⟩
          rw [exec_bind_ok hrun]
          dsimp only
          rw [if_pos rfl, exec_bind_ok (hdata u), exec_bind_ok hrun', hxs]
          rfl

/-- A client gets the documents its query selects, in order, as far as it wants them. -/
theorem exec_findUpTo {ns : CString} {q : Doc} (hns : ¬ IsCommand ns) (flags : BitVec 32)
    {ret : BitVec 32} (hret : ret ≠ 1) (n : Nat) (d : Dialogue S)
    (hordinary : ∀ x ∈ D.contents d.server ns, x.Ordinary) :
    ∃ d', (Dialogue.findUpTo V ns flags ret q.encode n).exec d
        = (.ok (if (D.contents d.server ns).filter (D.selects q) = [] then none
            else some ((((D.contents d.server ns).filter (D.selects q)).take n).map some)), d') ∧
      D.Unchanged d d' := by
  obtain ⟨rc, u, hquery, hturned, hsame⟩ := D.exec_query (q := q) hns flags hret d hordinary
  rw [Dialogue.findUpTo, exec_bind_ok hquery]
  cases hfound : (D.contents d.server ns).filter (D.selects q) with
  | nil =>
      rw [hfound] at hturned
      cases hturned.eq_none
      exact ⟨{ u with errno := .EINVAL }, rfl,
        ⟨hsame.safeMode, hsame.maxInsertSize, hsame.lastError⟩, hsame.contents⟩
  | cons x xs =>
      rw [hfound] at hturned
      obtain ⟨r, rfl, hdocs⟩ := hturned.eq_some
      have hrest : D.rest u.server ⟨ns, r, true, 0, Nat.zero_le _⟩ = x :: xs := hdocs
      have hordinary' : ∀ y ∈ x :: xs, y.Ordinary := fun y hy =>
        hordinary y (List.mem_of_mem_filter (hfound ▸ hy))
      obtain ⟨p, v, hfetch, hsame'⟩ := D.exec_fetch n (p := ⟨ns, r, true, 0, Nat.zero_le _⟩) rfl
        (by rw [hrest]; exact hordinary')
      rw [hrest] at hfetch
      have hkilled := D.killCursors v.server [p.reply.reply.cursorId]
      have hrelease : (Dialogue.cursorRelease V p).exec v = (.ok (), Dialogue.told V
          (v.conn.requestId + 1) (.killCursors [p.reply.reply.cursorId]) { v with errno := .ok }) := rfl
      have hsame'' : D.Unchanged v (Dialogue.told V (v.conn.requestId + 1)
          (.killCursors [p.reply.reply.cursorId]) { v with errno := .ok }) :=
        ⟨⟨rfl, rfl, .inl rfl⟩, hkilled⟩
      refine ⟨_, ?_, (hsame.trans D hsame').trans D hsame''⟩
      rw [if_neg (List.cons_ne_nil x xs)]
      refine (exec_bind_ok (show (Dialogue.cursorNew ns (some r)).exec u = (.ok (some _), u) from rfl)
        _).trans ?_
      dsimp only
      rw [exec_bind_ok hfetch]
      dsimp only
      rw [exec_bind_ok hrelease]
      rfl

/-! ### Counting -/

theorem exec_count (db : CString) {coll : CString}
    (hsmall : (countDoc coll none).encode.length < 2147483648) (d : Dialogue S) :
    ∃ x d', (Dialogue.count V db coll none).exec d = (.ok x, d') ∧
      ((D.contents d.server (collectionNs db coll)).length < 9007199254740992 →
        truncated x = (D.contents d.server (collectionNs db coll)).length) ∧
      D.Unchanged d d' := by
  obtain ⟨hcontents, doc, x, hsucceeds, hnumber, hx⟩ := D.count d.server db coll (slaveFlag d.conn) hsmall
  obtain ⟨rc, hrun, hfirst⟩ := Dialogue.exec_command db
    (show Dialogue.atOnce.exec d = (.ok true, d) from rfl) hsucceeds
  refine ⟨x, _, ?_, hx, Dialogue.steady_answered V (d.conn.requestId + 1)
    (commandMessage db (slaveFlag d.conn) (countDoc coll none)) d, hcontents⟩
  rw [Dialogue.count, exec_bind_ok hrun]
  dsimp only
  rw [hfirst, hnumber]
  rfl

end Database

end LibMongo
