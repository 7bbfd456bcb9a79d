import LibMongo.Sync.Conversation
import LibMongo.Sync.Cursor

/-!
# Cursors as dialogues

A `Place` is a cursor of `mongo-sync-cursor.c` without its packet: the reply it walks
through, how much of it has been seen, and whether the packet is still there.  The functions
of `Cursor.lean` are dialogues on places, and so is the loop of a client that reads its
documents one by one (`fetch_refines`), from the query to the end of the cursor
(`findUpTo_refines`).
-/

namespace LibMongo

open Bytes Program

/-! ## Reading documents -/

section Reading

variable {σ : Type} (N : Net σ) (reconnect : Bool → Program (World σ) Bool)

/-- `mongo_sync_cmd_get_more` on the connection of a cursor. -/
def getMoreOn : GetMore σ := fun ns => mongoSyncCmdGetMore N reconnect (some ns)

/-- What `mongo_sync_cursor_free` does on the connection. -/
def mongoSyncCursorRelease (c : MongoSyncCursor) : Program (World σ) Unit := do
  setErrno .ok
  let _ ← mongoSyncCmdKillCursors N reconnect [c.ph.cursorId]

/-- Up to `n` calls of `mongo_sync_cursor_next`, each followed by
`mongo_sync_cursor_get_data`: the documents, and the cursor as it is left. -/
def fetch : Nat → MongoSyncCursor → Program (World σ) (List (Option Bson) × MongoSyncCursor)
  | 0, c => return ([], c)
  | n + 1, c => do
      let (more, c) ← mongoSyncCursorNext (getMoreOn N reconnect) c
      if more then
        let doc ← mongoSyncCursorGetData c
        let (docs, c) ← fetch n c
        return (doc :: docs, c)
      else return ([], c)

/-- Up to `n` documents of a query.  Without a reply there is no cursor. -/
def findUpTo (ns : CString) (flags ret : BitVec 32) (query : Bson) (n : Nat) :
    Program (World σ) (Option (List (Option Bson))) := do
  let p ← mongoSyncCmdQuery N reconnect (some ns) flags 0 ret (some query) none
  match ← mongoSyncCursorNew (some ns) p with
  | none => return none
  | some c =>
      let (docs, c) ← fetch N reconnect n c
      mongoSyncCursorRelease N reconnect c
      return some docs

end Reading

/-! ## Places -/

namespace Received

theorem docs_pos (r : Received) : 1 ≤ r.reply.docs.length := by
  rw [r.docs_eq, List.length_cons]
  exact Nat.le_add_left 1 _

/-- A document of a reply is shorter than the reply. -/
theorem small_of_mem {r : Received} {d : Doc} (h : d ∈ r.reply.docs) :
    d.encode.length < 2147483648 := by
  obtain ⟨front, behind, hdocs⟩ := List.append_of_mem h
  have hfits : 16 + r.reply.body.length < 2147483648 := r.fits
  simp only [Reply.body, hdocs, List.flatMap_append, List.flatMap_cons, List.length_append] at hfits
  omega

end Received

/-- A cursor between messages: the last reply, and how many of its documents were seen. -/
structure Place where
  ns : CString
  /-- The last reply. -/
  reply : Received
  /-- The packet of the reply is still there. -/
  held : Bool
  seen : Nat
  seen_le : seen ≤ reply.reply.docs.length

namespace Dialogue

variable {S : Type} (V : Service S)

/-- A cursor before the first document of a reply. -/
def cursorNew (ns : CString) : Option Received → Program (Dialogue S) (Option Place)
  | none => do
      setErrno .EINVAL
      return none
  | some r => return some ⟨ns, r, true, 0, Nat.zero_le _⟩

/-- Without another reply the place keeps the last one, as if none of it were seen. -/
def cursorNext (p : Place) : Program (Dialogue S) (Bool × Place) := do
  setErrno .ok
  if h : p.seen < p.reply.reply.docs.length then
    return (true, { p with seen := p.seen + 1, seen_le := h })
  else
    match ← getMore V p.ns p.reply.reply.more.ret p.reply.reply.more.cursorId with
    | none => return (false, { p with held := false, seen := 0, seen_le := Nat.zero_le _ })
    | some r => return (true, ⟨p.ns, r, true, 1, r.docs_pos⟩)

/-- The document that was seen last. -/
def cursorGetData (p : Place) : Program (Dialogue S) (Option Doc) :=
  match p.held, p.seen with
  | true, n + 1 => return p.reply.reply.docs[n]?
  | _, _ => do
      setErrno .ERANGE
      return none

/-- The server may forget the cursor. -/
def cursorRelease (p : Place) : Program (Dialogue S) Unit := do
  setErrno .ok
  let _ ← killCursors V [p.reply.reply.cursorId]

/-- Up to `n` documents, and the cursor behind them. -/
def fetch : Nat → Place → Program (Dialogue S) (List (Option Doc) × Place)
  | 0, p => return ([], p)
  | n + 1, p => do
      let (more, p) ← cursorNext V p
      if more then
        let doc ← cursorGetData p
        let (docs, p) ← fetch n p
        return (doc :: docs, p)
      else return ([], p)

/-- A query, up to `n` of the documents that it selects, and the release of the cursor. -/
def findUpTo (ns : CString) (flags ret : BitVec 32) (q : Bytes) (n : Nat) :
    Program (Dialogue S) (Option (List (Option Doc))) := do
  let r ← query V ns flags 0 ret q none
  match ← cursorNew ns r with
  | none => return none
  | some p =>
      let (docs, p) ← fetch V n p
      cursorRelease V p
      return some docs

end Dialogue

/-- The cursor is at this place. -/
structure MongoSyncCursor.At (c : MongoSyncCursor) (o : ByteOrder) (p : Place) : Prop where
  ns : c.ns = p.ns
  results : c.results = if p.held then some (p.reply.packet o) else none
  offset : c.offset + 1 = p.seen
  ph : c.ph = p.reply.reply.ph

namespace Service

variable {S : Type} (V : Service S) (reconnect : Bool → Program (World (Desk S)) Bool)

/-- The same document. -/
def SameData (b : Option Bson) (d : Option Doc) : Prop := b = d.map fun d => ⟨d.encode, true⟩

theorem cursorNew_refines (ns : CString) {p : Option MongoPacket} {r : Option Received}
    (h : V.Same p r) :
    Refines V.view (Option.Rel fun c q => c.At V.order q ∧ q.ns = ns) (mongoSyncCursorNew (some ns) p)
      (Dialogue.cursorNew ns r) := by
  cases r with
  | none =>
      cases h
      exact (V.setErrno_refines .EINVAL).bind_eq fun _ => .pure .none
  | some r =>
      cases h
      intro w hw
      have hexec := exec_replyHeaderOr (o := V.order) r.fits ⟨0, 0, 0, 0⟩ w
      exact .after_silent hexec rfl (.pure (.some ⟨⟨rfl, rfl, rfl, rfl⟩, rfl⟩) hw)

theorem cursorNext_refines {c : MongoSyncCursor} {p : Place} (hat : c.At V.order p)
    (hns : p.ns.length < 2147482000) :
    Refines V.view (fun a b => a.1 = b.1 ∧ a.2.At V.order b.2 ∧ b.2.ns = p.ns)
      (mongoSyncCursorNext (getMoreOn V.net reconnect) c) (Dialogue.cursorNext V p) := by
  obtain ⟨ns, results, offset, ph⟩ := c
  obtain ⟨rfl, hresults, hoffset, rfl⟩ := hat
  have hreturned : p.reply.reply.ph.returned.toInt = p.reply.reply.docs.length :=
    p.reply.fits.returned_toInt
  refine (V.setErrno_refines .ok).bind_eq fun _ => ?_
  dsimp only at hresults hoffset ⊢
  by_cases hseen : p.seen < p.reply.reply.docs.length
  · rw [if_neg (by omega), dif_pos hseen]
    refine .pure ⟨rfl, ⟨rfl, hresults, ?_, rfl⟩, rfl⟩
    dsimp only
    omega
  · rw [if_pos (by omega), dif_neg hseen]
    refine (V.getMore_refines reconnect hns _ _).bind fun q r hqr => ?_
    cases r with
    | none =>
        cases hqr
        exact .pure ⟨rfl, ⟨rfl, rfl, rfl, rfl⟩, rfl⟩
    | some r =>
        cases hqr
        intro w hw
        exact .after_silent (exec_replyHeaderOr r.fits p.reply.reply.ph w) rfl
          (.pure ⟨rfl, ⟨rfl, rfl, rfl, rfl⟩, rfl⟩ hw)

theorem cursorGetData_refines {c : MongoSyncCursor} {p : Place} (hat : c.At V.order p) :
    Refines V.view SameData (mongoSyncCursorGetData c) (Dialogue.cursorGetData p) := by
  obtain ⟨ns, reply, held, seen, hle⟩ := p
  have hoffset := hat.offset
  intro w hw
  cases held with
  | false =>
      have hresults : c.results = none := hat.results
      exact .of_exec (getData_none hresults w) rfl rfl hw rfl
  | true =>
      have hresults : c.results = some (reply.packet V.order) := hat.results
      cases seen with
      | zero =>
          have hexec : (mongoSyncCursorGetData c).exec w = (.ok none, { w with errno := .ERANGE }) := by
            rw [mongoSyncCursorGetData, hresults, mongoWireReplyPacketGetNthDocument]
            dsimp only at hoffset ⊢
            rw [if_pos (by omega)]
            rfl
          exact .of_exec hexec rfl rfl hw rfl
      | succ n =>
          have hsplit : reply.reply.docs = reply.reply.docs.take n ++ reply.reply.docs[n]
              :: reply.reply.docs.drop (n + 1) := by
            rw [← List.drop_eq_getElem_cons hle, List.take_append_drop]
          have hlen : (reply.reply.docs.take n).length = n := by
            rw [List.length_take]
            omega
          have hon : c.On V.order reply.reply ((reply.reply.docs.take n).length + 1) :=
            ⟨hresults, by rw [hlen]; exact hoffset, hat.ph⟩
          refine .of_exec (exec_getData reply.fits hsplit hon) rfl ?_ hw rfl
          rw [SameData, List.getElem?_eq_getElem hle]
          rfl

theorem cursorRelease_refines {c : MongoSyncCursor} {p : Place} (hat : c.At V.order p) :
    Refines V.view Eq (mongoSyncCursorRelease V.net reconnect c) (Dialogue.cursorRelease V p) := by
  refine (V.setErrno_refines .ok).bind_eq fun _ => ?_
  have hsmall : 16 + (WireCall.killCursors [p.reply.reply.cursorId]).dataSize < 2147483648 := by
    simp [WireCall.dataSize]
  rw [hat.ph]
  exact (V.killCursors_refines reconnect (List.cons_ne_nil _ _) hsmall).bind fun _ _ _ => .pure rfl

/-- The loop reads the same documents on both sides. -/
theorem fetch_refines (n : Nat) :
    ∀ {c : MongoSyncCursor} {p : Place}, c.At V.order p → p.ns.length < 2147482000 →
      Refines V.view (fun a b => List.Forall₂ SameData a.1 b.1 ∧ a.2.At V.order b.2)
        (fetch V.net reconnect n c) (Dialogue.fetch V n p) := by
  induction n with
  | zero => exact fun hat _ => .pure ⟨.nil, hat⟩
  | succ n ih =>
      intro c p hat hns
      refine (V.cursorNext_refines reconnect hat hns).bind ?_
      rintro ⟨more, c'⟩ ⟨_, p'⟩ ⟨rfl, hat', hns'⟩
      dsimp only
      refine .ite (fun _ => ?_) fun _ => .pure ⟨.nil, hat'⟩
      refine (V.cursorGetData_refines hat').bind fun b d hdoc => ?_
      refine (ih hat' (by rwa [hns'])).bind ?_
      rintro ⟨bs, c''⟩ ⟨ds, p''⟩ ⟨hdocs, hat''⟩
      exact .pure ⟨.cons hdoc hdocs, hat''⟩

theorem findUpTo_refines {ns : CString} (hns : ns.length < 2147482000) (flags ret : BitVec 32)
    {query : Document} (hsmall : 16 + (WireCall.query ns flags 0 ret query none).dataSize < 2147483648)
    (n : Nat) :
    Refines V.view (Option.Rel (List.Forall₂ SameData))
      (findUpTo V.net reconnect ns flags ret query.bson n)
      (Dialogue.findUpTo V ns flags ret query.bytes n) := by
  have hquery := V.query_refines reconnect flags 0 ret hsmall
  refine hquery.bind fun p r hpr => ?_
  refine (V.cursorNew_refines ns hpr).bind fun c q hcq => ?_
  cases hcq with
  | none => exact .pure .none
  | @some c q hcq =>
      obtain ⟨hat, rfl⟩ := hcq
      refine (V.fetch_refines reconnect n hat hns).bind ?_
      rintro ⟨bs, c'⟩ ⟨ds, q'⟩ ⟨hdocs, hat'⟩
      exact (V.cursorRelease_refines reconnect hat').bind fun _ _ _ => .pure (.some hdocs)

end Service

end LibMongo
