import LibMongo.Gridfs.Document
import LibMongo.Sync.Query

/-!
# A server that stores documents

`Store` holds the two collections of a GridFS as trees.  It keeps what is inserted and
answers a query with the first document that has the fields asked for.  The index that
`mongo_sync_gridfs_new` creates is unique, and so are ids, so a document is refused if there
is one with the same key already.  One that would not fit into a reply is refused as well.

`Store.serve` runs the calls of GridFS on a store.  An insert or a query may also fail, as
given from outside by its number.  The reply to a query passes the library's own check, which
takes some documents for errors.
-/

namespace LibMongo

open Bytes Interaction Program

/-! ## Comparing values -/

namespace Value

/-- The number of an integer. -/
def asInt : Value → Option Int
  | .int32 i => some i.toInt
  | .int64 i => some i.toInt
  | _ => none

/-- Integers are the same if their numbers are, and other values if their bytes are. -/
def same (v w : Value) : Bool :=
  match v.asInt, w.asInt with
  | some i, some j => i = j
  | _, _ => v.type = w.type ∧ v.encode = w.encode

@[simp] theorem same_oid (o o' : Oid) : (Value.oid o).same (.oid o') = decide (o = o') := by
  cases o
  cases o'
  simp [same, asInt, Value.type, Value.encode]

@[simp] theorem same_int64 (i j : BitVec 64) : (Value.int64 i).same (.int64 j) = decide (i = j) := by
  simp [same, asInt, BitVec.toInt_inj]

theorem same_oid_eq_true {o : Oid} {v : Value} : (Value.oid o).same v = true ↔ v = .oid o := by
  constructor
  · intro h
    cases v with
    | oid o' =>
        rw [same_oid, decide_eq_true_eq] at h
        rw [h]
    | _ => simp [same, asInt, Value.type] at h
  · rintro rfl
    simp

end Value

namespace Doc

/-- The document has this value under this key. -/
def has (d : Doc) (key : CString) (v : Value) : Bool := (d.lookup key).any v.same

theorem has_oid {d : Doc} {key : CString} {o : Oid} :
    d.has key (.oid o) = true ↔ d.lookup key = some (.oid o) := by
  simp [has, Option.any_eq_true, Value.same_oid_eq_true]

/-- The document has all fields of the selector. -/
def matchedBy (d : Doc) : Doc → Bool
  | .nil => true
  | .cons key v sel => d.has key v && d.matchedBy sel

/-- Two documents that have the same values under these keys. -/
def clashes (keys : List CString) (d e : Doc) : Bool :=
  keys.all fun key => (d.lookup key).any (e.has key)

end Doc

/-! ## Stores -/

/-- The keys of a unique index. -/
def Collection.keys : Collection → List CString
  | .files => [idKey]
  | .chunks => [filesIdKey, nKey]

/-- A server with the two collections of a GridFS. -/
structure Store where
  files : List Doc
  chunks : List Doc
  /-- The next id. -/
  oid : Option Oid
  time : GTimeVal
  /-- The number of inserts and queries so far. -/
  tries : Nat

namespace Store

/-- The documents of a collection. -/
def docs (s : Store) : Collection → List Doc
  | .files => s.files
  | .chunks => s.chunks

/-- A document at the end of a collection. -/
def add (s : Store) (coll : Collection) (d : Doc) : Store :=
  match coll with
  | .files => { s with files := s.files ++ [d] }
  | .chunks => { s with chunks := s.chunks ++ [d] }

/-- The key of the document is new. -/
def accepts (s : Store) (coll : Collection) (d : Doc) : Bool :=
  (s.docs coll).all fun e => !d.clashes coll.keys e

/-- The first document that a query asks for. -/
def find (s : Store) (coll : Collection) (sel : Doc) : Option Doc :=
  (s.docs coll).find? fun d => d.matchedBy sel

/-- The store after another attempt. -/
def tried (s : Store) : Store := { s with tries := s.tries + 1 }

/-- How the inserts and queries fail that do, by their number. -/
abbrev Fate := Nat → Option Errno

/-- Nothing fails. -/
def allServed : Fate := fun _ => none

variable (fate : Fate)

/-- Whether an object is taken, and as which document. -/
def take (s : Store) (coll : Collection) (b : Bson) : Option Doc :=
  if b.data.length < 2147483612 then b.decode.filter (s.accepts coll) else none

/-- An insert, which may fail or be refused. -/
def insert (coll : Collection) (doc : Option Bson) (s : Store) : Except Errno Unit × Store :=
  match fate s.tries with
  | some e => (.error e, s.tried)
  | none =>
      match doc.bind (s.take coll) with
      | none => (.error .EINVAL, s.tried)
      | some d => (.ok (), s.tried.add coll d)

/-- A reply without documents is an error. -/
def lookUp (coll : Collection) (query : Option Bson) (s : Store) : Except Errno Doc × Store :=
  match fate s.tries with
  | some e => (.error e, s.tried)
  | none =>
      match (query.bind Bson.decode).bind (s.find coll) with
      | none => (.error .ENOENT, s.tried)
      | some d => (.ok d, s.tried)

/-- The calls on a store.  Uploading and reading make no others. -/
def serve (o : ByteOrder) : Handler GridCall GridCall.Response (World Store)
  | .oidNew => do
      let w ← get
      return w.net.oid
  | .getCurrentTime => do
      let w ← get
      return w.net.time
  | .insert coll doc => system (insert fate coll doc)
  | .query coll _ q => do
      match ← system (lookUp fate coll q) with
      | .error e => return .error e
      | .ok d =>
          let p ← mongoSyncPacketCheckError (some ((oneDocument d).packet o)) false
          orFailure p
  | .delete _ _ => return .error .ENOENT
  | .cursorNew _ _ => return .error .EINVAL
  | .cursorNext c => return (false, c)
  | .cursorGetData _ => return none
  | .cursorFree _ => return .ok

end Store

/-! ## Queries -/

/-- The selector of a chunk. -/
def chunkSelector (oid : Oid) (n : Int) : Doc :=
  .cons filesIdKey (.oid oid) (.cons nKey (.int64 (BitVec.ofInt 64 n)) .nil)

theorem chunkQuery_decode (oid : Oid) (n : Int) :
    (chunkQuery oid n).bind Bson.decode = some (chunkSelector oid n) := by
  rw [chunkQuery_eq, Option.bind_some]
  refine Bson.Encodes.decode ⟨rfl, rfl, ?_⟩
  simp [element_length, Value.encode, CString.length, oid.length_eq, filesIdKey, nKey,
    CString.ascii]

theorem oidQuery_decode {key : CString} (hkey : key.length < 1024) (oid : Oid) :
    (oidQuery key oid).bind Bson.decode = some (.cons key (.oid oid) .nil) := by
  rw [oidQuery_eq, Option.bind_some]
  refine Bson.Encodes.decode ⟨rfl, rfl, ?_⟩
  simp only [Doc.encode_length, Doc.elems_cons, Doc.elems_nil, List.length_append, element_length,
    Value.encode, oid.length_eq, List.length_nil]
  omega

namespace Store

section Query

variable {fate : Fate} {o : ByteOrder} {w : World Store} {coll : Collection} {n : BitVec 32}
  {q : Option Bson}

/-- A query that fails. -/
theorem exec_query_failed {e : Errno} (h : fate w.net.tries = some e) :
    ((Grid.query coll n q).run (serve fate o)).exec w
      = (.ok (.error e), { w with net := w.net.tried }) := by
  have hlook : lookUp fate coll q w.net = (.error e, w.net.tried) := by
    rw [lookUp, h]
  rw [exec_run_perform]
  exact (exec_bind_ok (exec_system hlook) _).trans rfl

/-- A query for what is not there. -/
theorem exec_query_missing {sel : Doc} (h : fate w.net.tries = none)
    (hq : q.bind Bson.decode = some sel) (hfind : w.net.find coll sel = none) :
    ((Grid.query coll n q).run (serve fate o)).exec w
      = (.ok (.error .ENOENT), { w with net := w.net.tried }) := by
  have hlook : lookUp fate coll q w.net = (.error .ENOENT, w.net.tried) := by
    rw [lookUp, h, hq]
    simp [hfind]
  rw [exec_run_perform]
  exact (exec_bind_ok (exec_system hlook) _).trans rfl

/-- The world after a query whose reply is passed on. -/
def answered (w : World Store) : World Store :=
  { w with net := w.net.tried, conn := { w.conn with lastError := none }, errno := .EPROTO }

/-- A document that is no report of an error is passed on. -/
theorem exec_query {sel d : Doc} (h : fate w.net.tries = none) (hq : q.bind Bson.decode = some sel)
    (hfind : w.net.find coll sel = some d) (hfits : d.encode.length < 2147483612)
    (herr : d.errorValue = none) :
    ((Grid.query coll n q).run (serve fate o)).exec w
      = (.ok (.ok ((oneDocument d).packet o)), answered w) := by
  have hlook : lookUp fate coll q w.net = (.ok d, w.net.tried) := by
    rw [lookUp, h, hq]
    simp [hfind]
  have hreport : d.report = .error .EPROTO := by
    rw [Doc.report, herr]
  have hcheck := exec_packetCheckError o (oneDocument_fits hfits) rfl { w with net := w.net.tried }
  rw [hreport] at hcheck
  rw [exec_run_perform]
  refine (exec_bind_ok (exec_system hlook) _).trans ?_
  exact (exec_bind_ok hcheck _).trans rfl

end Query

section Insert

variable {fate : Fate} {o : ByteOrder} {w w' : World Store} {coll : Collection}

/-- An insert that succeeds stores the document, which had a new key and fits into a reply. -/
theorem exec_insert_eq_ok {d : Doc}
    (h : ((Grid.insert coll (some ⟨d.encode, true⟩)).run (serve fate o)).exec w
      = (.ok (.ok ()), w')) :
    d.encode.length < 2147483612 ∧ w.net.accepts coll d = true ∧
      w' = { w with net := w.net.tried.add coll d } := by
  rw [exec_run_perform] at h
  have hrun : (insert fate coll (some ⟨d.encode, true⟩) w.net) = (.ok (), w'.net) ∧
      w' = { w with net := w'.net } := by
    have hexec := exec_system (w := w)
      (show insert fate coll (some ⟨d.encode, true⟩) w.net = (_, _) from rfl)
    rw [show serve fate o (.insert coll (some ⟨d.encode, true⟩))
      = system (insert fate coll (some ⟨d.encode, true⟩)) from rfl, hexec] at h
    obtain ⟨hresult, rfl⟩ := Prod.mk.inj h
    exact ⟨Prod.ext (Except.ok.inj hresult) rfl, rfl⟩
  obtain ⟨hinsert, hw⟩ := hrun
  rw [insert] at hinsert
  split at hinsert
  next => cases hinsert
  next =>
    rw [Option.bind_some] at hinsert
    split at hinsert
    next => cases hinsert
    next d' htake =>
      obtain ⟨-, hnet⟩ := Prod.mk.inj hinsert
      rw [take] at htake
      split at htake
      next hfits =>
        have hdecode : Bson.decode ⟨d.encode, true⟩ = some d :=
          Bson.Encodes.decode ⟨rfl, rfl, Nat.lt_trans hfits (by decide)⟩
        rw [hdecode] at htake
        obtain ⟨hsome, haccepts⟩ := Option.filter_eq_some_iff.mp htake
        cases hsome
        refine ⟨hfits, haccepts, ?_⟩
        rw [hw, ← hnet]
      next => cases htake

end Insert

end Store

end LibMongo
