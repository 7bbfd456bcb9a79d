import LibMongo.Sync.Command
import LibMongo.Wire.Reply

/-!
# Reading replies

What the functions that read a reply find in a document that is given as a tree.

* *Errors.*  `Doc.report` is the verdict of `_mongo_sync_get_error`.  It looks at
  `err`, and at `errmsg` only where there is no `err`.  A string is an error, a
  null says that there is none, and anything else, or nothing, is no report.
* *Success.*  A command succeeds if its reply has the double 1 under `ok`.
* *Masters.*  `Doc.isMaster`, `Doc.primary` and `Doc.hosts` are what
  `mongo_sync_cmd_is_master` reads.
-/

namespace LibMongo

open Bytes Program

/-! ## Errors -/

/-- What a value says about an error. -/
def Value.report : Value → Except Errno (Option CString)
  | .null => .ok none
  | .string s => .ok (some (CString.ofBytes s))
  | _ => .error .EPROTO

/-- Where a document has its error. -/
def Doc.errorValue (d : Doc) : Option Value := (d.lookup errKey).or (d.lookup errmsgKey)

/-- What a document says about an error. -/
def Doc.report (d : Doc) : Except Errno (Option CString) :=
  match d.errorValue with
  | none => .error .EPROTO
  | some v => v.report

section Object

variable {b : Bson} {d : Doc}

theorem findError_encodes (h : b.Encodes d) :
    match d.errorValue with
    | none => findError (some b) = .ok none
    | some v => ∃ d₁ key d₂, d = d₁.append (.cons key v d₂) ∧
        findError (some b) = .ok (some (.behind b d₁ key)) := by
  rw [Doc.errorValue, findError]
  cases herr : d.lookup errKey with
  | some v =>
      obtain ⟨d₁, d₂, hd, -, hfind⟩ := bsonFind_some h herr
      refine ⟨d₁, errKey, d₂, hd, ?_⟩
      rw [hfind, Program.ok_bind]
      rfl
  | none =>
      rw [bsonFind_none h herr, Program.ok_bind]
      dsimp only
      cases herrmsg : d.lookup errmsgKey with
      | some v =>
          obtain ⟨d₁, d₂, hd, -, hfind⟩ := bsonFind_some h herrmsg
          exact ⟨d₁, errmsgKey, d₂, hd, hfind⟩
      | none => exact bsonFind_none h herrmsg

theorem mongoSyncGetError_encodes (h : b.Encodes d) :
    mongoSyncGetError (some b) = .ok d.report := by
  have hfind := findError_encodes h
  rw [Doc.report, mongoSyncGetError]
  cases herror : d.errorValue with
  | none =>
      rw [herror] at hfind
      rw [hfind, Program.ok_bind]
      rfl
  | some v =>
      rw [herror] at hfind
      obtain ⟨d₁, key, d₂, rfl, hfind⟩ := hfind
      rw [hfind, Program.ok_bind]
      dsimp only
      rw [h.cursorType, Program.ok_bind]
      cases v with
      | string s =>
          show (bsonCursorGetString _ >>= _) = _
          rw [h.getString]
          rfl
      | _ => rfl

end Object

/-! ## Success -/

/-- The verdict of `_mongo_sync_check_ok`. -/
def Doc.isOk (d : Doc) : Bool := (d.lookup okKey).bind Value.asDouble = some doubleOne

theorem mongoSyncCheckOk_encodes {b : Bson} {d : Doc} (h : b.Encodes d) :
    ∃ e, mongoSyncCheckOk (some b) = .ok (d.isOk, e) := by
  have hget := find_getDouble h okKey
  rw [mongoSyncCheckOk, Doc.isOk]
  cases hl : d.lookup okKey with
  | none =>
      rw [bsonFind_none h hl]
      exact ⟨_, rfl⟩
  | some v =>
      obtain ⟨d₁, d₂, rfl, -, hfind⟩ := bsonFind_some h hl
      rw [hfind, Program.ok_bind, hl, Option.bind_some] at hget
      rw [hfind, Program.ok_bind]
      dsimp only
      rw [hget, Option.bind_some]
      cases v with
      | double x =>
          refine ⟨_, congrArg Except.ok (Prod.ext ?_ rfl)⟩
          simp [Value.asDouble]
      | _ => exact ⟨_, rfl⟩

/-! ## Masters -/

/-- What a reply says about whether the node is a master. -/
def Doc.isMaster (d : Doc) : Option (BitVec 32) := (d.lookup ismasterKey).bind Value.asBoolean

/-- The primary that a reply names. -/
def Doc.primary (d : Doc) : Option CString := (d.lookup primaryKey).bind Value.asText

/-- The hosts, and the passive ones behind them. -/
def Doc.hosts (d : Doc) : Option (List CString) :=
  ((d.lookup hostsKey).bind Value.asArray).map fun hosts =>
    hosts.strings ++ (((d.lookup passivesKey).bind Value.asArray).map Doc.strings).getD []

section Masters

variable {b : Bson} {d : Doc}

theorem collectStrings_encodes : ∀ (d before : Doc) {c : BsonCursor} {fuel : Nat},
    b.Encodes (before.append d) → c.obj = b →
    bsonCursorNextPos c = .ok (some (4 + before.elems.length : Nat)) → d.length < fuel →
    collectStrings fuel (some c) = .ok d.strings
  | .nil, before, c, fuel + 1, h, hobj, hpos, _ => by
      rw [Doc.append_nil] at h
      rw [collectStrings, h.next_nil hobj hpos, Program.ok_bind]
      rfl
  | .cons key v rest, before, c, fuel + 1, h, hobj, hpos, hfuel => by
      rw [Doc.length] at hfuel
      have hnext : b.Encodes ((before.append (.cons key v .nil)).append rest) := by
        rw [Doc.append_assoc, Doc.cons_append, Doc.nil_append]
        exact h
      have hrest : collectStrings fuel (some (.behind b before key)) = .ok rest.strings :=
        collectStrings_encodes rest _ hnext rfl h.nextPos (by omega)
      have hget : bsonCursorGetString (some (.behind b before key)) = .ok v.asText := by
        cases v with
        | string s => exact h.getString
        | _ =>
            refine h.get_ne (fun hv => ?_) fun c => CString.load (c.value.drop 4)
            cases hv
      rw [collectStrings, h.next_cons hobj hpos, Program.ok_bind]
      dsimp only
      rw [if_pos rfl, hget, Program.ok_bind, hrest, Program.ok_bind, Doc.strings]
      rfl

theorem arrayStrings_encodes (h : b.Encodes d) : arrayStrings b = .ok d.strings := by
  have hfinish : (bsonFinish (some b)).2 = some b := by
    obtain ⟨data, fin⟩ := b
    cases h.finished
    rfl
  rw [arrayStrings, hfinish, h.cursorNew]
  have hlen := d.length_le_elems
  have hdata := h.data_eq
  refine collectStrings_encodes d .nil (c := ⟨b, none, 0, 0⟩) ?_ rfl rfl ?_
  · rwa [Doc.nil_append]
  · rw [Option.map_some, Option.getD_some, hdata, Doc.encode_length]
    omega

theorem replyPrimary_encodes (h : b.Encodes d) (x : BitVec 32) :
    replyPrimary (some b) x = .ok (if x = 0 then d.primary else none) := by
  rw [replyPrimary]
  by_cases hx : x = 0
  · rw [if_pos hx, if_pos hx]
    exact find_getString h primaryKey
  · rw [if_neg hx, if_neg hx]
    rfl

theorem replyHosts_encodes (h : b.Encodes d) : replyHosts (some b) = .ok d.hosts := by
  have hpassives := find_getArray h passivesKey
  have hhosts := find_getArray h hostsKey
  rw [replyHosts, Doc.hosts]
  cases hl : d.lookup hostsKey with
  | none =>
      rw [bsonFind_none h hl]
      rfl
  | some v =>
      obtain ⟨d₁, d₂, hd, -, hfind⟩ := bsonFind_some h hl
      rw [hfind, Program.ok_bind, hl] at hhosts
      rw [hfind, Program.ok_bind]
      dsimp only
      rw [hhosts]
      cases hv : (some v).bind Value.asArray with
      | none => rfl
      | some e =>
          have he : (d.lookup hostsKey).bind Value.asArray = some e := by rw [hl, hv]
          rw [Option.map_some, Program.ok_bind]
          dsimp only
          rw [arrayStrings_encodes (array_encodes h he), Program.ok_bind]
          rw [← bind_assoc, hpassives, Program.ok_bind]
          cases hp : (d.lookup passivesKey).bind Value.asArray with
          | none =>
              show Except.ok (some e.strings) = .ok (some (e.strings ++ []))
              rw [List.append_nil]
          | some e' =>
              rw [Option.map_some]
              dsimp only
              rw [arrayStrings_encodes (array_encodes h hp)]
              rfl

end Masters

section Reply

variable {σ : Type} {r : Reply} {d : Doc} {ds : List Doc}

/-- The check of a reply to a query.  The packet is passed on if its first document is
no report. -/
theorem exec_packetCheckError (o : ByteOrder) (h : r.Fits) (hdocs : r.docs = d :: ds)
    (w : World σ) :
    (mongoSyncPacketCheckError (some (r.packet o)) false).exec w
      = match d.report with
        | .error e => (.ok (some (r.packet o)),
            { w with conn := { w.conn with lastError := none }, errno := e })
        | .ok err => (.ok none, { w with conn := { w.conn with lastError := err } }) := by
  obtain ⟨b, hnth, b', hfinish, hb'⟩ := r.getNthDocument_first o h hdocs
  have hread : (readOrErrno (mongoWireReplyPacketGetNthDocument (some (r.packet o)) 1)).exec w
      = (.ok (some (some b)), w) := by
    rw [hnth]
    rfl
  rw [mongoSyncPacketCheckError, exec_bind_ok hread]
  dsimp only
  rw [hfinish, if_neg (by decide), setConn, exec_modify_bind, mongoSyncGetError_encodes hb']
  cases d.report with
  | error e => rfl
  | ok err => rfl

/-- The check of a reply to a command. -/
theorem exec_packetCheckError_command (o : ByteOrder) (h : r.Fits) (hdocs : r.docs = d :: ds)
    (w : World σ) :
    ∃ err e, (mongoSyncPacketCheckError (some (r.packet o)) true).exec w
      = (.ok (if d.isOk then some (r.packet o) else none),
          { w with conn := { w.conn with lastError := err }, errno := e }) := by
  obtain ⟨b, hnth, b', hfinish, hb'⟩ := r.getNthDocument_first o h hdocs
  have hread : (readOrErrno (mongoWireReplyPacketGetNthDocument (some (r.packet o)) 1)).exec w
      = (.ok (some (some b)), w) := by
    rw [hnth]
    rfl
  obtain ⟨e, hok⟩ := mongoSyncCheckOk_encodes hb'
  rw [mongoSyncPacketCheckError, exec_bind_ok hread]
  dsimp only
  rw [hfinish, if_pos rfl, hok]
  cases d.isOk with
  | true => exact ⟨w.conn.lastError, e, rfl⟩
  | false =>
      have herror := mongoSyncGetError_encodes hb'
      cases hreport : d.report with
      | error e' =>
          refine ⟨none, e, ?_⟩
          rw [hreport] at herror
          show (readOrErrno (mongoSyncGetError (some b')) >>= _).exec _ = _
          rw [herror]
          rfl
      | ok err =>
          refine ⟨err, e, ?_⟩
          rw [hreport] at herror
          show (readOrErrno (mongoSyncGetError (some b')) >>= _).exec _ = _
          rw [herror]
          rfl

end Reply

end LibMongo
