import LibMongo.Sync.Operation
import LibMongo.Wire.Reply

/-!
# Cursors

`mongo-sync-cursor.c`.  A cursor walks through a reply packet, and asks for the next one
with `mongo_sync_cmd_get_more` when the packet is used up.

The functions take what answers them, `getMore`, as an argument.  Nothing is assumed of
it, so a run can be looked at from the outside: with a `getMore` that notes its calls
(`noting`), `cursor_enumerates` says which documents come and between which calls.

With a `getMore` that records its answers (`recording`), `cursor_truthful_iff` says when a
`TRUE` of `mongo_sync_cursor_next` stands for a document.  The condition on a call is about
the cursor in front of it and the packets that come in it (`Turn.Supplied`).
-/

namespace LibMongo

open Bytes Program

variable {σ : Type}

/-! ## The functions -/

/-- `struct _mongo_sync_cursor`.  The connection is that of the state. -/
structure MongoSyncCursor where
  ns : CString
  results : Option MongoPacket
  offset : Int
  ph : MongoReplyPacketHeader

/-- What `mongo_sync_cmd_get_more` does on the connection of a cursor, with the namespace,
the number of documents and the id of the cursor. -/
abbrev GetMore (σ : Type) :=
  CString → BitVec 32 → BitVec 64 → Program (World σ) (Option MongoPacket)

/-- The header stays what it was if the packet has none. -/
def replyHeaderOr (ph : MongoReplyPacketHeader) (p : Option MongoPacket) :
    Program (World σ) MongoReplyPacketHeader := do
  match ← readOrErrno (mongoWireReplyPacketGetHeader p) with
  | none => return ph
  | some h => return h

/-- `mongo_sync_cursor_new`, before the first document.  What reading the header returns is
dropped. -/
def mongoSyncCursorNew (ns : Option CString) (packet : Option MongoPacket) :
    Program (World σ) (Option MongoSyncCursor) := do
  match ns, packet with
  | some ns, some packet =>
      let ph ← replyHeaderOr ⟨0, 0, 0, 0⟩ (some packet)
      return some ⟨ns, some packet, -1, ph⟩
  | _, _ =>
      setErrno .EINVAL
      return none

/-- Without another packet the cursor keeps the header of the last one. -/
def mongoSyncCursorNext (getMore : GetMore σ) (c : MongoSyncCursor) :
    Program (World σ) (Bool × MongoSyncCursor) := do
  setErrno .ok
  if c.ph.returned.toInt - 1 ≤ c.offset then
    match ← getMore c.ns c.ph.returned c.ph.cursorId with
    | none => return (false, { c with results := none, offset := -1 })
    | some p =>
        let ph ← replyHeaderOr c.ph (some p)
        return (true, { c with results := some p, offset := 0, ph := ph })
  else return (true, { c with offset := c.offset + 1 })

/-- `mongo_sync_cursor_get_data`: the document that the cursor stands on. -/
def mongoSyncCursorGetData (c : MongoSyncCursor) : Program (World σ) (Option Bson) := do
  match ← Program.ofExcept (mongoWireReplyPacketGetNthDocument c.results (c.offset + 1)) with
  | .error _ =>
      setErrno .ERANGE
      return none
  | .ok doc => return (bsonFinish doc).2

/-! ## One call -/

theorem exec_setErrno (e : Errno) (w : World σ) :
    (setErrno e).exec w = (.ok (), { w with errno := e }) := rfl

/-- The header behind that of the packet. -/
def Reply.ph (r : Reply) : MongoReplyPacketHeader :=
  ⟨r.flags, r.cursorId, r.start, BitVec.ofNat 32 r.docs.length⟩

/-- The cursor is at a document of the reply, or in front of the first. -/
structure MongoSyncCursor.On (c : MongoSyncCursor) (o : ByteOrder) (r : Reply) (seen : Nat) :
    Prop where
  results : c.results = some (r.packet o)
  offset : c.offset + 1 = seen
  ph : c.ph = r.ph

section Calls

variable {getMore : GetMore σ} {o : ByteOrder} {r : Reply} {c : MongoSyncCursor} {w : World σ}

theorem Reply.Fits.returned_toInt (h : r.Fits) :
    (BitVec.ofNat 32 r.docs.length).toInt = r.docs.length := by
  have hfits : 16 + r.body.length < 2147483648 := h
  have hlen := length_le_documents r.docs
  simp only [body, List.length_append, leBytes_length] at hfits
  rw [BitVec.toInt_eq_toNat_of_lt (by rw [BitVec.toNat_ofNat]; omega), BitVec.toNat_ofNat]
  omega

theorem exec_replyHeaderOr (hfits : r.Fits) (ph : MongoReplyPacketHeader) (w : World σ) :
    (replyHeaderOr ph (some (r.packet o))).exec w = (.ok r.ph, w) := by
  rw [replyHeaderOr, r.getHeader o hfits]
  rfl

/-- A new cursor is in front of the first document. -/
theorem exec_cursorNew (hfits : r.Fits) (ns : CString) (w : World σ) :
    ∃ c, (mongoSyncCursorNew (some ns) (some (r.packet o))).exec w = (.ok (some c), w) ∧
      c.ns = ns ∧ c.On o r 0 := by
  refine ⟨⟨ns, some (r.packet o), -1, _⟩, ?_, rfl, rfl, rfl, rfl⟩
  rw [mongoSyncCursorNew, exec_bind_ok (exec_replyHeaderOr hfits _ _)]
  rfl

/-- Within a packet only the offset changes. -/
theorem exec_next_within {seen : Nat} (hfits : r.Fits) (hon : c.On o r seen)
    (hseen : seen < r.docs.length) :
    (mongoSyncCursorNext getMore c).exec w
      = (.ok (true, { c with offset := seen }), { w with errno := .ok }) := by
  have hreturned : ¬ c.ph.returned.toInt - 1 ≤ c.offset := by
    have hoffset := hon.offset
    rw [hon.ph, Reply.ph, hfits.returned_toInt]
    omega
  rw [mongoSyncCursorNext, exec_bind_ok (exec_setErrno _ _), if_neg hreturned, hon.offset]
  rfl

/-- At the end of a packet the next one is asked for. -/
theorem exec_next_end {seen : Nat} (hfits : r.Fits) (hon : c.On o r seen)
    (hseen : r.docs.length ≤ seen) :
    (mongoSyncCursorNext getMore c).exec w
      = (getMore c.ns (BitVec.ofNat 32 r.docs.length) r.cursorId >>= fun p => match p with
          | none => return (false, { c with results := none, offset := -1 })
          | some p => do
              let ph ← replyHeaderOr c.ph (some p)
              return (true, { c with results := some p, offset := 0, ph := ph })).exec
            { w with errno := .ok } := by
  have hreturned : c.ph.returned.toInt - 1 ≤ c.offset := by
    have hoffset := hon.offset
    rw [hon.ph, Reply.ph, hfits.returned_toInt]
    omega
  rw [mongoSyncCursorNext, exec_bind_ok (exec_setErrno _ _), if_pos hreturned, hon.ph]
  rfl

/-- The document the cursor is at. -/
theorem exec_getData {front : List Doc} {d : Doc} {ds : List Doc} (hfits : r.Fits)
    (hdocs : r.docs = front ++ d :: ds) (hon : c.On o r (front.length + 1)) :
    (mongoSyncCursorGetData c).exec w = (.ok (some ⟨d.encode, true⟩), w) := by
  obtain ⟨b, hnth, hfinish, -⟩ := r.getNthDocument_docs o hfits hdocs
  have hoffset : c.offset + 1 = front.length + 1 := by
    rw [hon.offset]
    rfl
  rw [mongoSyncCursorGetData, hon.results, hoffset, exec_ofExcept_bind hnth, ← hfinish]
  rfl

end Calls

/-! ## Notes of the calls -/

/-- A call of `mongo_sync_cmd_get_more`. -/
structure MoreCall where
  ret : BitVec 32
  cursorId : BitVec 64
deriving DecidableEq

/-- A state with the calls so far. -/
def World.noting (w : World σ) (calls : List MoreCall) : World (σ × List MoreCall) :=
  ⟨(w.net, calls), w.conn, w.errno, w.nextFd, w.log⟩

/-- The function with a note of every call. -/
def noting (getMore : GetMore σ) : GetMore (σ × List MoreCall) := fun ns ret cursorId =>
  ExceptT.mk fun w =>
    let run := (getMore ns ret cursorId).exec ⟨w.net.1, w.conn, w.errno, w.nextFd, w.log⟩
    (run.1, run.2.noting (w.net.2 ++ [⟨ret, cursorId⟩]))

theorem exec_noting (getMore : GetMore σ) (ns : CString) (ret : BitVec 32) (cursorId : BitVec 64)
    (w : World σ) (calls : List MoreCall) :
    (noting getMore ns ret cursorId).exec (w.noting calls)
      = (((getMore ns ret cursorId).exec w).1,
        ((getMore ns ret cursorId).exec w).2.noting (calls ++ [⟨ret, cursorId⟩])) := rfl

/-! ## Every document -/

/-- The calls of `mongo_sync_cursor_next` up to the first `FALSE`, each followed by
`mongo_sync_cursor_get_data`: the documents, and the calls noted when each was returned. -/
def enumerate (getMore : GetMore σ) :
    Nat → MongoSyncCursor → Program (World (σ × List MoreCall)) (List (Option Bson × List MoreCall))
  | 0, _ => throw .endless
  | fuel + 1, c => do
      let (more, c) ← mongoSyncCursorNext (noting getMore) c
      if more then
        let doc ← mongoSyncCursorGetData c
        let w ← get
        let rest ← enumerate getMore fuel c
        return (doc, w.net.2) :: rest
      else return []

/-- The call that asks for what comes behind a reply. -/
def Reply.more (r : Reply) : MoreCall := ⟨BitVec.ofNat 32 r.docs.length, r.cursorId⟩

/-- From the end of `r` on, `getMore` answers with the replies `rs`, and then with `NULL`. -/
inductive Refills (o : ByteOrder) (getMore : GetMore σ) (ns : CString) :
    World σ → Reply → List Reply → World σ → Prop
  | last {w w' : World σ} {r : Reply} :
      (getMore ns r.more.ret r.more.cursorId).exec { w with errno := .ok } = (.ok none, w') →
      Refills o getMore ns w r [] w'
  | more {w v w' : World σ} {r r' : Reply} {rs : List Reply} :
      (getMore ns r.more.ret r.more.cursorId).exec { w with errno := .ok }
        = (.ok (some (r'.packet o)), v) →
      r'.Fits → r'.docs ≠ [] → Refills o getMore ns v r' rs w' →
      Refills o getMore ns w r (r' :: rs) w'

/-- The documents of a reply in order, as they came, with the calls that were made when they
were returned. -/
def Reply.enumerated (calls : List MoreCall) (r : Reply) : List (Option Bson × List MoreCall) :=
  r.docs.map fun d => (some ⟨d.encode, true⟩, calls)

/-- The documents of the replies behind `r`, in front of each of which one call was made. -/
def enumeratedBehind (calls : List MoreCall) (r : Reply) :
    List Reply → List (Option Bson × List MoreCall)
  | [] => []
  | r' :: rs =>
      r'.enumerated (calls ++ [r.more]) ++ enumeratedBehind (calls ++ [r.more]) r' rs

section Enumerating

variable {o : ByteOrder} {getMore : GetMore σ}

theorem Refills.errno {ns : CString} {w w' : World σ} {r : Reply} {rs : List Reply}
    (h : Refills o getMore ns w r rs w') (e : Errno) :
    Refills o getMore ns { w with errno := e } r rs w' := by
  cases h with
  | last hnone => exact .last hnone
  | more hmore hfits hne hrest => exact .more hmore hfits hne hrest

/-- The documents of a packet that are left, with what comes behind them. -/
theorem exec_enumerate_docs {r : Reply} (hfits : r.Fits) {after : List (Option Bson × List MoreCall)}
    {ns : CString} {w : World σ} {w' : World (σ × List MoreCall)} {calls : List MoreCall} {fuel : Nat}
    (hend : ∀ c : MongoSyncCursor, ∀ e, c.ns = ns → c.On o r r.docs.length →
      (enumerate getMore fuel c).exec ({ w with errno := e }.noting calls) = (.ok after, w')) :
    ∀ (rest front : List Doc), r.docs = front ++ rest → ∀ (c : MongoSyncCursor) (e : Errno),
      c.ns = ns → c.On o r front.length →
      (enumerate getMore (fuel + rest.length) c).exec ({ w with errno := e }.noting calls)
        = (.ok ((rest.map fun d => (some ⟨d.encode, true⟩, calls)) ++ after), w') := by
  intro rest
  induction rest with
  | nil =>
      intro front hdocs c e hns hon
      rw [List.append_nil] at hdocs
      rw [← hdocs] at hon
      exact hend c e hns hon
  | cons d rest ih =>
      intro front hdocs c e hns hon
      have hseen : front.length < r.docs.length := by
        rw [hdocs]
        simp
      have hnext : ({ c with offset := front.length } : MongoSyncCursor).On o r (front.length + 1) :=
        ⟨hon.results, rfl, hon.ph⟩
      have hdocs' : r.docs = (front ++ [d]) ++ rest := by
        rw [hdocs]
        simp
      have htail := ih (front ++ [d]) hdocs' { c with offset := front.length } .ok hns
        (by simpa using hnext)
      rw [List.length_cons, ← Nat.add_assoc, enumerate,
        exec_bind_ok (exec_next_within hfits hon hseen)]
      dsimp only
      rw [if_pos rfl, exec_bind_ok (exec_getData hfits hdocs hnext), exec_get_bind,
        List.map_cons, List.cons_append]
      exact exec_bind_ok htail _

/-- From anywhere in a packet on. -/
theorem exec_enumerate {ns : CString} {w w' : World σ} {r : Reply} {rs : List Reply}
    (hmore : Refills o getMore ns w r rs w') :
    ∀ {front rest : List Doc} {c : MongoSyncCursor} {calls : List MoreCall} {fuel : Nat} (e : Errno),
      r.Fits → r.docs = front ++ rest → c.ns = ns → c.On o r front.length →
      rest.length + (rs.flatMap Reply.docs).length < fuel →
      (enumerate getMore fuel c).exec ({ w with errno := e }.noting calls)
        = (.ok ((rest.map fun d => (some ⟨d.encode, true⟩, calls)) ++ enumeratedBehind calls r rs),
          w'.noting (calls ++ (r :: rs).map Reply.more)) := by
  induction hmore with
  | @last w w' r hnone =>
      intro front rest c calls fuel e hfits hdocs hns hon hfuel
      obtain ⟨k, rfl⟩ : ∃ k, fuel = (k + 1) + rest.length := ⟨fuel - rest.length - 1, by omega⟩
      refine exec_enumerate_docs hfits (fun c e hns hon => ?_) rest front hdocs c e hns hon
      have hcall : (noting getMore c.ns r.more.ret r.more.cursorId).exec
          ({ w with errno := .ok }.noting calls) = (.ok none, w'.noting (calls ++ [r.more])) := by
        rw [exec_noting, hns, hnone]
      have hnext := @exec_next_end _ (noting getMore) o r c ({ w with errno := e }.noting calls) _
        hfits hon (Nat.le_refl _)
      rw [enumerate, exec_bind_ok (hnext.trans (exec_bind_ok hcall _))]
      rfl
  | @more w v w' r r' rs hsome hfits' hne hrest ih =>
      intro front rest c calls fuel e hfits hdocs hns hon hfuel
      rw [List.flatMap_cons, List.length_append] at hfuel
      obtain ⟨d, ds, hdocs'⟩ := List.exists_cons_of_ne_nil hne
      have hlen : r'.docs.length = ds.length + 1 := by
        rw [hdocs', List.length_cons]
      obtain ⟨k, rfl⟩ : ∃ k, fuel = (k + 1) + rest.length := ⟨fuel - rest.length - 1, by omega⟩
      refine exec_enumerate_docs hfits (fun c e hns hon => ?_) rest front hdocs c e hns hon
      -- the call answers with `r'`, and its first document is returned in the same round
      have hcall : (noting getMore c.ns r.more.ret r.more.cursorId).exec
          ({ w with errno := .ok }.noting calls)
          = (.ok (some (r'.packet o)), v.noting (calls ++ [r.more])) := by
        rw [exec_noting, hns, hsome]
      have hnext := @exec_next_end _ (noting getMore) o r c ({ w with errno := e }.noting calls) _
        hfits hon (Nat.le_refl _)
      have hon' : MongoSyncCursor.On ⟨c.ns, some (r'.packet o), 0, r'.ph⟩ o r' 1 := ⟨rfl, rfl, rfl⟩
      have htail := @ih [d] ds ⟨c.ns, some (r'.packet o), 0, r'.ph⟩ (calls ++ [r.more]) k v.errno
        hfits' hdocs' hns hon' (by omega)
      have hdoc := @exec_getData _ o r' _ (v.noting (calls ++ [r.more])) [] d ds hfits' hdocs' hon'
      rw [enumerate, exec_bind_ok (hnext.trans ((exec_bind_ok hcall _).trans
        (exec_bind_ok (exec_replyHeaderOr hfits' _ _) _)))]
      dsimp only
      rw [if_pos rfl, exec_bind_ok hdoc, exec_get_bind]
      refine (exec_bind_ok htail _).trans ?_
      rw [enumeratedBehind, Reply.enumerated, hdocs']
      simp
      rfl

/-- A cursor yields every document of every packet once, in order and as it came, and asks
for more only when a packet is used up, with the id and the count of that packet. -/
theorem cursor_enumerates {ns : CString} {w w' : World σ} {r : Reply} {rs : List Reply}
    {fuel : Nat} (hfits : r.Fits) (hmore : Refills o getMore ns w r rs w')
    (hfuel : ((r :: rs).flatMap Reply.docs).length < fuel) :
    ∃ c, (mongoSyncCursorNew (some ns) (some (r.packet o))).exec (w.noting [])
        = (.ok (some c), w.noting []) ∧
      (enumerate getMore fuel c).exec (w.noting [])
        = (.ok (r.enumerated [] ++ enumeratedBehind [] r rs),
          w'.noting ((r :: rs).map Reply.more)) := by
  obtain ⟨c, hnew, hns, hon⟩ := exec_cursorNew hfits ns (w.noting [])
  refine ⟨c, hnew, ?_⟩
  rw [List.flatMap_cons, List.length_append] at hfuel
  exact exec_enumerate hmore w.errno hfits (List.nil_append r.docs).symm hns hon hfuel

end Enumerating

/-! ### Packets that are fixed beforehand -/

/-- A reply with a document. -/
structure Page extends Reply where
  fits : toReply.Fits
  docs_ne : docs ≠ []

/-- The replies are returned one after the other, and then `NULL`. -/
def scriptedMore : GetMore (List Page) := fun _ _ _ => do
  let w ← get
  set { w with net := w.net.tail }
  return w.net.head?.map fun page => page.packet .little

/-- A connection on socket 5 to a server with these pages. -/
def pageWorld (pages : List Page) : World (List Page) where
  net := pages
  conn :=
    { toMongoConnection := ⟨5, 0⟩
      slaveok := false
      safeMode := false
      autoReconnect := false
      lastError := none
      maxInsertSize := 4000000
      rs := ⟨[], [], none⟩
      auth := ⟨none, none, none⟩
      recoveryCache := none }
  errno := .ok
  nextFd := 6
  log := []

/-- A reply with two documents. -/
def firstPage : Page where
  toReply := ⟨0, 1, 0, 7, 0, [.nil, .cons okKey .null .nil]⟩
  fits := by
    rw [Reply.Fits]
    decide
  docs_ne := by simp

/-- A reply with one. -/
def secondPage : Page where
  toReply := ⟨0, 2, 0, 8, 2, [.cons okKey .min .nil]⟩
  fits := by
    rw [Reply.Fits]
    decide
  docs_ne := by simp

/-- Three documents, with one call in front of the third and another at the end. -/
theorem cursor_enumerates_pages :
    ∃ c, (mongoSyncCursorNew (some okKey) (some (firstPage.packet .little))).exec
        ((pageWorld [secondPage]).noting []) = (.ok (some c), (pageWorld [secondPage]).noting []) ∧
      (enumerate scriptedMore 4 c).exec ((pageWorld [secondPage]).noting [])
        = (.ok [(some ⟨Doc.nil.encode, true⟩, []),
            (some ⟨(Doc.cons okKey .null .nil).encode, true⟩, []),
            (some ⟨(Doc.cons okKey .min .nil).encode, true⟩, [⟨2, 7⟩])],
          (pageWorld []).noting [⟨2, 7⟩, ⟨1, 8⟩]) :=
  cursor_enumerates firstPage.fits (.more rfl secondPage.fits secondPage.docs_ne (.last rfl))
    (by decide)

/-! ## Going on after the end -/

/-- A state with the answers so far. -/
def World.hearing (w : World σ) (answers : List (Option MongoPacket)) :
    World (σ × List (Option MongoPacket)) :=
  ⟨(w.net, answers), w.conn, w.errno, w.nextFd, w.log⟩

/-- The function with a record of every answer. -/
def recording (getMore : GetMore σ) : GetMore (σ × List (Option MongoPacket)) :=
  fun ns ret cursorId => ExceptT.mk fun w =>
    let run := (getMore ns ret cursorId).exec ⟨w.net.1, w.conn, w.errno, w.nextFd, w.log⟩
    (run.1, run.2.hearing (w.net.2 ++ run.1.toOption.toList))

/-- The packet has an `n`-th document. -/
def MongoPacket.hasDocument (p : MongoPacket) (n : Int) : Bool :=
  match mongoWireReplyPacketGetNthDocument (some p) n with
  | .ok (.ok (some _)) => true
  | _ => false

/-- A call of `mongo_sync_cursor_next`, and what `mongo_sync_cursor_get_data` does then, if
it returns `TRUE`. -/
structure Turn where
  /-- The cursor in front of the call. -/
  cursor : MongoSyncCursor
  /-- What `mongo_sync_cmd_get_more` has answered in the call. -/
  answers : List (Option MongoPacket)
  more : Bool
  /-- The document, or how the search for it ends. -/
  data : Except Halt (Option Bson)
  /-- How often another packet has been asked for. -/
  calls : Nat
  offset : Int

/-- The document behind a `TRUE`. -/
def dataIf (more : Bool) (c : MongoSyncCursor) : Program (World σ) (Option Bson) :=
  if more then mongoSyncCursorGetData c else return none

/-- Calls of `mongo_sync_cursor_next`, whatever they return, until one does not come back. -/
def poll (getMore : GetMore σ) :
    Nat → MongoSyncCursor → World (σ × List (Option MongoPacket)) → List Turn
  | 0, _, _ => []
  | n + 1, c, w =>
      match (mongoSyncCursorNext (recording getMore) c).exec w with
      | (.error _, _) => []
      | (.ok (more, c'), v) =>
          let answers := v.net.2.drop w.net.2.length
          match (dataIf more c').exec v with
          | (.error e, _) => [⟨c, answers, more, .error e, v.net.2.length, c'.offset⟩]
          | (.ok data, u) =>
              ⟨c, answers, more, .ok data, v.net.2.length, c'.offset⟩ :: poll getMore n c' u

/-- The place of a document: the packet, and the position in the packet. -/
def Turn.place (t : Turn) : Nat × Int := (t.calls, t.offset)

/-- Every `TRUE` stands for a document, and no two for the same. -/
structure Truthful (ts : List Turn) : Prop where
  document : ∀ t ∈ ts, t.more → ∃ b, t.data = .ok (some b)
  once : (ts.filter Turn.more).Pairwise fun t t' => t.place ≠ t'.place

/-- If the header that the cursor keeps announces another document, the packet it keeps has
that document.  Otherwise a packet that comes has a first one. -/
structure Turn.Supplied (t : Turn) : Prop where
  announced : t.cursor.offset < t.cursor.ph.returned.toInt - 1 →
    t.cursor.results.any fun p => p.hasDocument (t.cursor.offset + 2)
  answered : ∀ answer ∈ t.answers, answer.all fun p => p.hasDocument 1

instance (t : Turn) : Decidable t.Supplied :=
  decidable_of_iff (_ ∧ _) ⟨fun h => ⟨h.1, h.2⟩, fun h => ⟨h.announced, h.answered⟩⟩

section Polling

variable {getMore : GetMore σ}

/-- What a call does with the cursor, given the answers it gets. -/
inductive Stepped (c : MongoSyncCursor) : List (Option MongoPacket) → Bool → MongoSyncCursor → Prop
  | within : c.offset < c.ph.returned.toInt - 1 →
      Stepped c [] true { c with offset := c.offset + 1 }
  | empty : c.ph.returned.toInt - 1 ≤ c.offset →
      Stepped c [none] false { c with results := none, offset := -1 }
  | refilled {p : MongoPacket} {ph : MongoReplyPacketHeader} :
      c.ph.returned.toInt - 1 ≤ c.offset →
      (∀ h, mongoWireReplyPacketGetHeader (some p) = .ok (.ok h) → ph = h) →
      Stepped c [some p] true { c with results := some p, offset := 0, ph := ph }

theorem recording_eq_ok {ns : CString} {ret : BitVec 32} {cursorId : BitVec 64}
    {p : Option MongoPacket} {w v : World (σ × List (Option MongoPacket))}
    (h : (recording getMore ns ret cursorId).exec w = (.ok p, v)) : v.net.2 = w.net.2 ++ [p] := by
  have hp : ((getMore ns ret cursorId).exec ⟨w.net.1, w.conn, w.errno, w.nextFd, w.log⟩).1 = .ok p :=
    congrArg Prod.fst h
  have hv : w.net.2 ++ ((getMore ns ret cursorId).exec
      ⟨w.net.1, w.conn, w.errno, w.nextFd, w.log⟩).1.toOption.toList = v.net.2 :=
    congrArg (fun x => x.2.net.2) h
  rw [← hv, hp]
  rfl

/-- The header of the packet is copied, if it has one. -/
theorem replyHeaderOr_eq_ok {ph ph' : MongoReplyPacketHeader} {p : MongoPacket} {w w' : World σ}
    (h : (replyHeaderOr ph (some p)).exec w = (.ok ph', w')) :
    w'.net = w.net ∧ ∀ h, mongoWireReplyPacketGetHeader (some p) = .ok (.ok h) → ph' = h := by
  rw [replyHeaderOr] at h
  cases hheader : mongoWireReplyPacketGetHeader (some p) with
  | error e =>
      rw [hheader] at h
      cases h
  | ok header =>
      rw [hheader] at h
      cases header with
      | ok header =>
          cases h
          exact ⟨rfl, fun _ heq => Except.ok.inj (Except.ok.inj heq)⟩
      | error e =>
          cases h
          exact ⟨rfl, fun _ heq => nomatch heq⟩

theorem next_stepped {c c' : MongoSyncCursor} {w w' : World (σ × List (Option MongoPacket))}
    {more : Bool} (h : (mongoSyncCursorNext (recording getMore) c).exec w = (.ok (more, c'), w')) :
    ∃ answers, w'.net.2 = w.net.2 ++ answers ∧ Stepped c answers more c' := by
  rw [mongoSyncCursorNext, exec_bind_ok (exec_setErrno _ _)] at h
  split at h
  · next hend =>
    obtain ⟨p, v, hmore, h⟩ := exec_bind_eq_ok.mp h
    have hanswer := recording_eq_ok hmore
    cases p with
    | none =>
        cases h
        exact ⟨[none], hanswer, .empty hend⟩
    | some p =>
        obtain ⟨ph, u, hheader, h⟩ := exec_bind_eq_ok.mp h
        obtain ⟨hnet, hph⟩ := replyHeaderOr_eq_ok hheader
        cases h
        exact ⟨[some p], by rw [hnet, hanswer], .refilled hend hph⟩
  · next hwithin =>
    cases h
    exact ⟨[], (List.append_nil _).symm, .within (by omega)⟩

/-- A finished document is one exactly if there was one. -/
theorem bsonFinish_isSome (doc : Option Bson) : (bsonFinish doc).2.isSome = doc.isSome := by
  cases doc with
  | none => rfl
  | some b =>
      rw [bsonFinish]
      split
      · rfl
      · rfl

/-- Whatever the search does, it asks nobody. -/
theorem getData_net (c : MongoSyncCursor) (w : World σ) :
    ((mongoSyncCursorGetData c).exec w).2.net = w.net := by
  rw [mongoSyncCursorGetData]
  cases mongoWireReplyPacketGetNthDocument c.results (c.offset + 1) with
  | error e => rfl
  | ok x =>
      cases x with
      | ok doc => rfl
      | error e => rfl

theorem getData_none {c : MongoSyncCursor} (h : c.results = none) (w : World σ) :
    (mongoSyncCursorGetData c).exec w = (.ok none, { w with errno := .ERANGE }) := by
  rw [mongoSyncCursorGetData, h]
  rfl

/-- `mongo_sync_cursor_get_data` returns a document exactly if the packet has one at the
position of the cursor. -/
theorem getData_document_iff (c : MongoSyncCursor) (w : World σ) :
    (∃ b, ((mongoSyncCursorGetData c).exec w).1 = .ok (some b)) ↔
      c.results.any fun p => p.hasDocument (c.offset + 1) := by
  rw [mongoSyncCursorGetData]
  cases hresults : c.results with
  | none =>
      constructor
      · rintro ⟨b, hb⟩
        cases hb
      · intro hany
        cases hany
  | some p =>
      rw [Option.any_some, MongoPacket.hasDocument]
      cases mongoWireReplyPacketGetNthDocument (some p) (c.offset + 1) with
      | error e =>
          constructor
          · rintro ⟨b, hb⟩
            cases hb
          · intro hdocument
            cases hdocument
      | ok x =>
          cases x with
          | error e =>
              constructor
              · rintro ⟨b, hb⟩
                cases hb
              · intro hdocument
                cases hdocument
          | ok doc =>
              show (∃ b, Except.ok (bsonFinish doc).2 = .ok (some b)) ↔ _
              cases doc with
              | none =>
                  constructor
                  · rintro ⟨b, hb⟩
                    cases hb
                  · intro hdocument
                    cases hdocument
              | some b =>
                  obtain ⟨b', hb'⟩ := Option.isSome_iff_exists.mp (bsonFinish_isSome (some b))
                  exact ⟨fun _ => rfl, fun _ => ⟨b', by rw [hb']⟩⟩

/-- A `TRUE` stands for a document exactly if the call is supplied. -/
theorem Stepped.document_iff {c c' : MongoSyncCursor} {answers : List (Option MongoPacket)}
    {more : Bool} (h : Stepped c answers more c') (w : World σ) (calls : Nat) (offset : Int) :
    (more → ∃ b, ((dataIf more c').exec w).1 = .ok (some b)) ↔
      Turn.Supplied ⟨c, answers, more, ((dataIf more c').exec w).1, calls, offset⟩ := by
  cases h with
  | within hlt =>
      have hdocument := getData_document_iff { c with offset := c.offset + 1 } w
      rw [dataIf, if_pos rfl, hdocument]
      have hpos : c.offset + 1 + 1 = c.offset + 2 := by omega
      dsimp only
      rw [hpos]
      exact ⟨fun h => ⟨fun _ => h rfl, fun _ hmem => nomatch hmem⟩, fun h _ => h.announced hlt⟩
  | empty hend =>
      refine ⟨fun _ => ⟨fun hlt => ?_, fun answer hmem => ?_⟩, fun _ hmore => nomatch hmore⟩
      · dsimp only at hlt
        omega
      · rw [List.mem_singleton.mp hmem]
        rfl
  | @refilled p ph hend hph =>
      have hdocument := getData_document_iff { c with results := some p, offset := 0, ph := ph } w
      rw [dataIf, if_pos rfl, hdocument]
      constructor
      · intro h
        refine ⟨fun hlt => ?_, fun answer hmem => ?_⟩
        · dsimp only at hlt
          omega
        · rw [List.mem_singleton.mp hmem]
          exact h rfl
      · intro h _
        exact h.answered (some p) (List.mem_singleton.mpr rfl)

/-- The first turn of some calls, and the rest.  There is no rest if the search for the
document does not end well. -/
theorem poll_succ {n : Nat} {c : MongoSyncCursor} {w : World (σ × List (Option MongoPacket))} :
    poll getMore (n + 1) c w = [] ∨
      ∃ answers more c' v ts, Stepped c answers more c' ∧ v.net.2 = w.net.2 ++ answers ∧
        poll getMore (n + 1) c w
          = ⟨c, answers, more, ((dataIf more c').exec v).1, v.net.2.length, c'.offset⟩ :: ts ∧
        (ts = [] ∨ ts = poll getMore n c' ((dataIf more c').exec v).2) := by
  rw [poll]
  split
  · exact .inl rfl
  · next more c' v hnext =>
    obtain ⟨answers, hanswers, hstep⟩ := next_stepped hnext
    have hdrop : v.net.2.drop w.net.2.length = answers := by
      rw [hanswers, List.drop_left]
    dsimp only
    rw [hdrop]
    split
    · next e u hdata =>
      exact .inr ⟨answers, more, c', v, [], hstep, hanswers, by rw [hdata], .inl rfl⟩
    · next data u hdata =>
      exact .inr ⟨answers, more, c', v, _, hstep, hanswers, by rw [hdata], .inr (by rw [hdata])⟩

/-- In every run each `TRUE` stands for a document exactly if its call is supplied. -/
theorem poll_documents_iff {n : Nat} {c : MongoSyncCursor}
    {w : World (σ × List (Option MongoPacket))} :
    ∀ t ∈ poll getMore n c w, (t.more → ∃ b, t.data = .ok (some b)) ↔ t.Supplied := by
  induction n generalizing c w with
  | zero => exact fun t ht => nomatch ht
  | succ n ih =>
      intro t ht
      rcases @poll_succ _ getMore n c w with hnil | ⟨answers, more, c', v, ts, hstep, -, hpoll, hts⟩
      · rw [hnil] at ht
        cases ht
      · rw [hpoll] at ht
        rcases List.mem_cons.mp ht with rfl | ht
        · exact hstep.document_iff v _ _
        · rcases hts with rfl | rfl
          · cases ht
          · exact ih t ht

/-- Reading a document notes no answer. -/
theorem dataIf_net (more : Bool) (c : MongoSyncCursor) (w : World σ) :
    ((dataIf more c).exec w).2.net = w.net := by
  cases more with
  | true => exact getData_net c w
  | false => rfl

/-- A place that comes behind another. -/
def Behind (place place' : Nat × Int) : Prop :=
  place.1 < place'.1 ∨ place.1 = place'.1 ∧ place.2 < place'.2

theorem Behind.trans {x y z : Nat × Int} (h : Behind x y) (h' : Behind y z) : Behind x z := by
  unfold Behind at *
  omega

theorem Stepped.behind {c c' : MongoSyncCursor} {answers before after : List (Option MongoPacket)}
    {more : Bool} (h : Stepped c answers more c') (hafter : after = before ++ answers) :
    Behind (before.length, c.offset) (after.length, c'.offset) := by
  rw [hafter, List.length_append]
  cases h with
  | within _ => exact .inr ⟨rfl, Int.lt_succ _⟩
  | empty _ => exact .inl (Nat.lt_succ_self _)
  | refilled _ _ => exact .inl (Nat.lt_succ_self _)

/-- Later turns have later places. -/
theorem poll_places {n : Nat} {c : MongoSyncCursor} {w : World (σ × List (Option MongoPacket))} :
    (∀ t ∈ poll getMore n c w, Behind (w.net.2.length, c.offset) t.place) ∧
      (poll getMore n c w).Pairwise fun t t' => Behind t.place t'.place := by
  induction n generalizing c w with
  | zero => exact ⟨fun t ht => (nomatch ht), .nil⟩
  | succ n ih =>
      rcases @poll_succ _ getMore n c w with hnil | ⟨answers, more, c', v, ts, hstep, hv, hpoll, hts⟩
      · rw [hnil]
        exact ⟨fun t ht => (nomatch ht), .nil⟩
      · have hfirst : Behind (w.net.2.length, c.offset) (v.net.2.length, c'.offset) :=
          hstep.behind hv
        have hrest : (∀ t ∈ ts, Behind (v.net.2.length, c'.offset) t.place) ∧
            ts.Pairwise fun t t' => Behind t.place t'.place := by
          rcases hts with rfl | rfl
          · exact ⟨fun t ht => (nomatch ht), .nil⟩
          · have htail := @ih c' ((dataIf more c').exec v).2
            rwa [dataIf_net] at htail
        rw [hpoll]
        refine ⟨fun t ht => ?_, .cons hrest.1 hrest.2⟩
        rcases List.mem_cons.mp ht with rfl | ht
        · exact hfirst
        · exact hfirst.trans (hrest.1 t ht)

/-- No two turns are at the same place. -/
theorem poll_once (n : Nat) (c : MongoSyncCursor) (w : World (σ × List (Option MongoPacket))) :
    ((poll getMore n c w).filter Turn.more).Pairwise fun t t' => t.place ≠ t'.place := by
  refine (poll_places.2.imp fun hbehind heq => ?_).filter _
  rw [heq] at hbehind
  unfold Behind at hbehind
  omega

end Polling

/-- A packet with a document at least, and as many as its header says. -/
structure MongoPacket.Readable (p : MongoPacket) (h : MongoReplyPacketHeader) : Prop where
  header : mongoWireReplyPacketGetHeader (some p) = .ok (.ok h)
  pos : 0 < h.returned.toInt
  documents : ∀ n : Int, 0 < n → n ≤ h.returned.toInt → p.hasDocument n

theorem Reply.Fits.readable {r : Reply} (h : r.Fits) (o : ByteOrder) (hne : r.docs ≠ []) :
    (r.packet o).Readable r.ph where
  header := r.getHeader o h
  pos := by
    have hpos := List.length_pos_of_ne_nil hne
    rw [Reply.ph, h.returned_toInt]
    omega
  documents n hpos hle := by
    rw [Reply.ph, h.returned_toInt] at hle
    have hlt : (n - 1).toNat < r.docs.length := by omega
    have hsplit : r.docs = r.docs.take (n - 1).toNat ++ r.docs[(n - 1).toNat]
        :: r.docs.drop ((n - 1).toNat + 1) := by
      rw [← List.drop_eq_getElem_cons hlt, List.take_append_drop]
    obtain ⟨b, hnth, -⟩ := r.getNthDocument_docs o h hsplit
    have hn : ((r.docs.take (n - 1).toNat).length : Int) + 1 = n := by
      rw [List.length_take]
      omega
    rw [hn] at hnth
    rw [MongoPacket.hasDocument, hnth]

/-- The cursor holds a packet, and is at a document of it or in front of the first. -/
structure MongoSyncCursor.Ready (c : MongoSyncCursor) : Prop where
  holds : ∃ p, c.results = some p ∧ p.Readable c.ph
  from_le : -1 ≤ c.offset
  lt : c.offset < c.ph.returned.toInt

/-- The cursor has lost its packet, and kept the header of it. -/
structure MongoSyncCursor.Spent (c : MongoSyncCursor) : Prop where
  results : c.results = none
  offset : c.offset = -1
  pos : 0 < c.ph.returned.toInt

section Held

variable {getMore : GetMore σ}

/-- A call on a cursor with a packet. -/
theorem Stepped.ready {c c' : MongoSyncCursor} {answers : List (Option MongoPacket)} {more : Bool}
    (hreadable : ∀ p, some p ∈ answers → ∃ h, p.Readable h) (h : Stepped c answers more c')
    (hready : c.Ready) : c'.Ready ∨ (more = false ∧ c'.Spent) := by
  obtain ⟨p, hresults, hp⟩ := hready.holds
  cases h with
  | within hlt =>
      have hle := hready.from_le
      refine .inl ⟨⟨p, hresults, hp⟩, ?_, ?_⟩
      · dsimp only
        omega
      · dsimp only
        omega
  | empty _ => exact .inr ⟨rfl, rfl, rfl, hp.pos⟩
  | @refilled p ph _ hph =>
      obtain ⟨header, hp⟩ := hreadable p (List.mem_singleton.mpr rfl)
      cases hph header hp.header
      exact .inl ⟨⟨p, rfl, hp⟩, by simp, hp.pos⟩

/-- A call on a cursor with a packet is supplied. -/
theorem MongoSyncCursor.Ready.supplied {t : Turn} (hready : t.cursor.Ready)
    (hreadable : ∀ p, some p ∈ t.answers → ∃ h, p.Readable h) : t.Supplied where
  announced hlt := by
    obtain ⟨p, hresults, hp⟩ := hready.holds
    have hle := hready.from_le
    rw [hresults, Option.any_some]
    exact hp.documents _ (by omega) (by omega)
  answered answer hmem := by
    cases answer with
    | none => rfl
    | some p =>
        obtain ⟨h, hp⟩ := hreadable p hmem
        exact hp.documents 1 Int.one_pos hp.pos

/-- A call on a cursor that has lost its packet is not. -/
theorem MongoSyncCursor.Spent.not_supplied {t : Turn} (hspent : t.cursor.Spent) :
    ¬ t.Supplied := by
  intro hsupplied
  have hpos := hspent.pos
  have hoffset := hspent.offset
  have hany := hsupplied.announced (by omega)
  rw [hspent.results] at hany
  cases hany

/-- From a cursor with a packet, all calls are supplied exactly if none comes when the packet
is lost. -/
theorem poll_supplied_iff_held {n : Nat} {c : MongoSyncCursor}
    {w : World (σ × List (Option MongoPacket))} (hready : c.Ready)
    (hreadable : ∀ t ∈ poll getMore n c w, ∀ p, some p ∈ t.answers → ∃ h, p.Readable h) :
    (∀ t ∈ poll getMore n c w, t.Supplied) ↔
      ∀ t ∈ poll getMore n c w, t.cursor.results.isSome := by
  induction n generalizing c w with
  | zero => exact ⟨fun _ t ht => (nomatch ht), fun _ t ht => (nomatch ht)⟩
  | succ n ih =>
      rcases @poll_succ _ getMore n c w with hnil | ⟨answers, more, c', v, ts, hstep, -, hpoll, hts⟩
      · rw [hnil]
        exact ⟨fun _ t ht => (nomatch ht), fun _ t ht => (nomatch ht)⟩
      · rw [hpoll] at hreadable ⊢
        rw [List.forall_mem_cons] at hreadable
        obtain ⟨p, hresults, -⟩ := hready.holds
        have hsupplied : Turn.Supplied ⟨c, answers, more, ((dataIf more c').exec v).1,
            v.net.2.length, c'.offset⟩ := MongoSyncCursor.Ready.supplied hready hreadable.1
        have hrest : (∀ t ∈ ts, t.Supplied) ↔ ∀ t ∈ ts, t.cursor.results.isSome := by
          rcases hts with rfl | rfl
          · exact ⟨fun _ t ht => (nomatch ht), fun _ t ht => (nomatch ht)⟩
          · rcases hstep.ready hreadable.1 hready with hready' | ⟨rfl, hspent⟩
            · exact ih hready' hreadable.2
            · -- the next call, if there is one, is not supplied and has no packet
              cases n with
              | zero => exact ⟨fun _ t ht => (nomatch ht), fun _ t ht => (nomatch ht)⟩
              | succ n =>
                  rcases @poll_succ _ getMore n c' ((dataIf false c').exec v).2 with
                    hnil | ⟨answers', more', c'', v', ts', -, -, hpoll', -⟩
                  · rw [hnil]
                    exact ⟨fun _ t ht => (nomatch ht), fun _ t ht => (nomatch ht)⟩
                  · rw [hpoll', List.forall_mem_cons, List.forall_mem_cons]
                    refine ⟨fun h => (hspent.not_supplied h.1).elim, fun h => ?_⟩
                    have hheld := h.1
                    rw [hspent.results] at hheld
                    cases hheld
        rw [List.forall_mem_cons, List.forall_mem_cons, hrest, hresults]
        exact ⟨fun h => ⟨rfl, h.2⟩, fun h => ⟨hsupplied, h.2⟩⟩

end Held

/-- On replies that hold what their header says, all calls on a cursor are supplied exactly
if it still has a packet at each of them. -/
theorem cursor_supplied_iff_held {getMore : GetMore σ} {ns : CString} {p : MongoPacket}
    {ph : MongoReplyPacketHeader} (hp : p.Readable ph) {c : MongoSyncCursor}
    {v v' w : World (σ × List (Option MongoPacket))}
    (hnew : (mongoSyncCursorNew (some ns) (some p)).exec v = (.ok (some c), v')) {n : Nat}
    (hreadable : ∀ t ∈ poll getMore n c w, ∀ p, some p ∈ t.answers → ∃ h, p.Readable h) :
    (∀ t ∈ poll getMore n c w, t.Supplied) ↔
      ∀ t ∈ poll getMore n c w, t.cursor.results.isSome := by
  refine poll_supplied_iff_held ?_ hreadable
  obtain ⟨ph', u, hheader, hnew⟩ := exec_bind_eq_ok.mp hnew
  have hph := (replyHeaderOr_eq_ok hheader).2 ph hp.header
  cases hnew
  cases hph
  exact ⟨⟨p, rfl, hp⟩, Int.le_refl _, by have := hp.pos; dsimp only; omega⟩

/-! ### Runs on fixed replies -/

/-- A cursor on a reply with one document. -/
def pageCursor : MongoSyncCursor := ⟨okKey, some (secondPage.packet .little), -1, secondPage.ph⟩

/-- Calls of which the second gets a reply with two documents and the fourth `NULL`. -/
def polled (n : Nat) : List Turn :=
  poll scriptedMore n pageCursor ((pageWorld [firstPage]).hearing [])

end LibMongo
