import LibMongo.Bson.Getters
import LibMongo.Net.Grammar
import LibMongo.Sync.Operation

/-!
# Names of indexes

An index has no name of its own.  `mongo_sync_cmd_index_create` makes one of the keys and the
numbers of the key pattern, and `mongo_sync_cmd_index_drop` makes it again to have the index
deleted.

*Names.*  `_mongo_index_gen_name` gives up at a value that is no number.  `Doc.indexName` says what
it makes of a document, and `mongoIndexGenName_eq` that it does.

*Calls.*  Creating is an insert into the collection of indexes, and dropping is a command.
-/

namespace LibMongo

open Bytes Program

variable {σ : Type} (N : Net σ)

/-! ## Names -/

/-- The integer part of a double, if it is a number. -/
def GDouble.trunc (d : GDouble) : Option Int :=
  let exponent : Nat := (d >>> 52).toNat % 2048
  let fraction : Nat := d.toNat % 2 ^ 52
  if exponent = 2047 then none
  else
    -- the numbers next to zero have no leading one
    let mantissa : Nat := if exponent = 0 then fraction else 2 ^ 52 + fraction
    let scale : Int := if exponent = 0 then -1074 else exponent - 1075
    let magnitude : Nat :=
      if 0 ≤ scale then mantissa * 2 ^ scale.toNat else mantissa / 2 ^ (-scale).toNat
    some (if d.msb then -magnitude else magnitude)

/-- The conversion of a double to `gint64`.  Outside of the range it is up to the host. -/
def gint64OfDouble (host : GDouble → BitVec 64) (d : GDouble) : BitVec 64 :=
  match d.trunc with
  | some i =>
      if -9223372036854775808 ≤ i ∧ i < 9223372036854775808 then BitVec.ofInt 64 i else host d
  | none => host d

section Names

variable (host : GDouble → BitVec 64)

/-- The number of the element a cursor stands on. -/
def indexNumber (c : Option BsonCursor) : Except Halt (Option (Option Int)) := do
  match ← bsonCursorType c with
  | .boolean =>
      let vb ← bsonCursorGetBoolean c
      return some (vb.map BitVec.toInt)
  | .int32 =>
      let vi ← bsonCursorGetInt32 c
      return some (vi.map BitVec.toInt)
  | .int64 =>
      let vl ← bsonCursorGetInt64 c
      return some (vl.map BitVec.toInt)
  | .double =>
      let vd ← bsonCursorGetDouble c
      return some (vd.map fun d => (gint64OfDouble host d).toInt)
  | _ => return none

/-- What is appended for a number: nothing for zero. -/
def indexSuffix (v : Int) : CString :=
  if v ≠ 0 then CString.ofBytes (formatInt v ++ [95]) else .ofBytes []

/-- The loop of `_mongo_index_gen_name`, for as many elements as the fuel says.  A getter that
fails would leave a variable that was never set. -/
def mongoIndexGenNameLoop :
    Nat → Option BsonCursor → CString → Except Halt (Option CString)
  | 0, _, _ => .error .endless
  | fuel + 1, c, name => do
      let (more, c) ← bsonCursorNext c
      if more then
        match ← bsonCursorKey c with
        | none => throw .outside
        | some key =>
            let name := (name.append key).append (.ascii ['_'])
            match ← indexNumber host c with
            | none => return none
            | some none => throw .outside
            | some (some v) => mongoIndexGenNameLoop fuel c (name.append (indexSuffix v))
      else return some name

/-- `_mongo_index_gen_name`. -/
def mongoIndexGenName (key : Bson) : Except Halt (Option CString) :=
  mongoIndexGenNameLoop host (key.data.length + 1) (bsonCursorNew (some key)) (.ascii ['_'])

/-- The number of a value that an index can have. -/
def Value.indexNumber : Value → Option Int
  | .boolean b => some b.toNat
  | .int32 i => some i.toInt
  | .int64 i => some i.toInt
  | .double d => some (gint64OfDouble host d).toInt
  | _ => none

/-- The name behind the part that is made already. -/
def Doc.indexName : CString → Doc → Option CString
  | name, .nil => some name
  | name, .cons key value rest =>
      (value.indexNumber host).bind fun v =>
        rest.indexName (((name.append key).append (.ascii ['_'])).append (indexSuffix v))

/-- The values that have a number. -/
def Value.indexable : Value → Bool
  | .boolean _ | .int32 _ | .int64 _ | .double _ => true
  | _ => false

/-- Every value is a boolean, an integer or a double. -/
def Doc.indexable : Doc → Bool
  | .nil => true
  | .cons _ value rest => value.indexable && rest.indexable

theorem Value.indexNumber_isSome (v : Value) : (v.indexNumber host).isSome = v.indexable := by
  cases v with
  | _ => rfl

theorem Doc.indexName_isSome (name : CString) :
    ∀ d : Doc, (d.indexName host name).isSome = d.indexable
  | .nil => rfl
  | .cons key value rest => by
      have hvalue := value.indexNumber_isSome host
      rw [Doc.indexName, Doc.indexable]
      cases hnumber : value.indexNumber host with
      | none =>
          rw [hnumber] at hvalue
          simp [← hvalue]
      | some v =>
          rw [hnumber] at hvalue
          simp only [Option.bind_some, ← hvalue, Option.isSome_some, Bool.true_and]
          exact Doc.indexName_isSome _ rest

/-- The number that is read off an element. -/
theorem indexNumber_behind {b : Bson} {d₁ d₂ : Doc} {key : CString} {v : Value}
    (h : b.Encodes (d₁.append (.cons key v d₂))) :
    indexNumber host (some (.behind b d₁ key)) = .ok ((v.indexNumber host).map some) := by
  rw [indexNumber, h.cursorType]
  cases v with
  | boolean x =>
      have hsmall : (BitVec.ofNat 32 x.toNat).toInt = (x.toNat : Int) := by
        have hx := x.toNat_lt
        have hnat : (BitVec.ofNat 32 x.toNat).toNat = x.toNat := by
          rw [BitVec.toNat_ofNat]
          omega
        rw [BitVec.toInt_eq_toNat_of_lt (by omega), hnat]
      simp only [Value.type, Program.ok_bind, h.getBoolean]
      show Except.ok (some (some (BitVec.ofNat 32 x.toNat).toInt)) = _
      rw [hsmall]
      rfl
  | int32 x =>
      simp only [Value.type, Program.ok_bind, h.getInt32]
      rfl
  | int64 x =>
      simp only [Value.type, Program.ok_bind, h.getInt64]
      rfl
  | double x =>
      simp only [Value.type, Program.ok_bind, h.getDouble]
      rfl
  | _ => rfl

/-- The loop in front of the elements that are still to come. -/
theorem mongoIndexGenNameLoop_eq {b : Bson} (d₁ : Doc) :
    ∀ (d₂ : Doc) {c : BsonCursor} (fuel : Nat) (name : CString), b.Encodes (d₁.append d₂) →
      c.obj = b → bsonCursorNextPos c = .ok (some (4 + d₁.elems.length : Nat)) →
      d₂.elems.length < fuel →
      mongoIndexGenNameLoop host fuel (some c) name = .ok (d₂.indexName host name)
  | .nil, c, fuel, name, h, hobj, hpos, hfuel => by
      rw [Doc.append_nil] at h
      obtain ⟨fuel, rfl⟩ : ∃ n, fuel = n + 1 := ⟨fuel - 1, by omega⟩
      rw [mongoIndexGenNameLoop, h.next_nil hobj hpos]
      rfl
  | .cons key value rest, c, fuel, name, h, hobj, hpos, hfuel => by
      have hlen := element_length key value
      rw [Doc.elems_cons, List.length_append] at hfuel
      obtain ⟨fuel, rfl⟩ : ∃ n, fuel = n + 1 := ⟨fuel - 1, by omega⟩
      have hnext : b.Encodes ((d₁.append (.cons key value .nil)).append rest) := by
        rw [Doc.append_assoc, Doc.cons_append, Doc.nil_append]
        exact h
      rw [mongoIndexGenNameLoop, h.next_cons hobj hpos]
      simp only [Program.ok_bind, if_true, h.cursorKey, indexNumber_behind host h]
      rw [Doc.indexName]
      cases value.indexNumber host with
      | none => rfl
      | some v =>
          have hrest := mongoIndexGenNameLoop_eq _ rest fuel
            (((name.append key).append (.ascii ['_'])).append (indexSuffix v)) hnext rfl h.nextPos
            (by omega)
          simpa using hrest

theorem mongoIndexGenName_eq {b : Bson} {d : Doc} (h : b.Encodes d) :
    mongoIndexGenName host b = .ok (d.indexName host (.ascii ['_'])) := by
  have hlen : b.data.length = d.elems.length + 5 := by rw [h.data_eq, Doc.encode_length]
  rw [mongoIndexGenName, h.cursorNew]
  exact mongoIndexGenNameLoop_eq host .nil d _ _ h rfl (bsonCursorNextPos_new b) (by omega)

end Names

/-! ## The calls -/

/-- Behind a database, the collection with its indexes. -/
def indexesSuffix : CString :=
  .ascii ['.', 's', 'y', 's', 't', 'e', 'm', '.', 'i', 'n', 'd', 'e', 'x', 'e', 's']

/-- `ns`, the collection that is indexed. -/
def nsKey : CString := .ascii ['n', 's']

/-- `name`, the name of the index. -/
def nameKey : CString := .ascii ['n', 'a', 'm', 'e']

/-- `unique`. -/
def uniqueKey : CString := .ascii ['u', 'n', 'i', 'q', 'u', 'e']

/-- `dropDups`. -/
def dropDupsKey : CString := .ascii ['d', 'r', 'o', 'p', 'D', 'u', 'p', 's']

/-- `background`. -/
def backgroundKey : CString := .ascii ['b', 'a', 'c', 'k', 'g', 'r', 'o', 'u', 'n', 'd']

/-- `sparse`. -/
def sparseKey : CString := .ascii ['s', 'p', 'a', 'r', 's', 'e']

/-- `deleteIndexes`, and the collection. -/
def deleteIndexesKey : CString :=
  .ascii ['d', 'e', 'l', 'e', 't', 'e', 'I', 'n', 'd', 'e', 'x', 'e', 's']

/-- `index`, the name of the index to delete. -/
def indexKey : CString := .ascii ['i', 'n', 'd', 'e', 'x']

/-- The options of an index and their keys: `MONGO_INDEX_UNIQUE`, `MONGO_INDEX_DROP_DUPS`,
`MONGO_INDEX_BACKGROUND` and `MONGO_INDEX_SPARSE`. -/
def indexOptions : List (BitVec 32 × CString) :=
  [(0x01, uniqueKey), (0x02, dropDupsKey), (0x04, backgroundKey), (0x08, sparseKey)]

/-- The document that stands for the index. -/
@[irreducible] def indexDocument (key : Bson) (ns name : CString) (options : BitVec 32) :
    Option Bson :=
  let b := (bsonAppendDocument (some bsonNew) (some keyKey) (some key)).2
  let b := (bsonAppendString b (some nsKey) (some ns.image) (-1)).2
  let b := (bsonAppendString b (some nameKey) (some name.image) name.length).2
  let b := indexOptions.foldl (fun b option =>
    if options &&& option.1 ≠ 0 then (bsonAppendBoolean b (some option.2) 1).2 else b) b
  (bsonFinish b).2

/-- The command that deletes the index of a collection with this name. -/
@[irreducible] def dropCommand (ns name : CString) : Option Bson :=
  let b := (bsonAppendString (some bsonNew) (some deleteIndexesKey) (some ns.image) (-1)).2
  let b := (bsonAppendString b (some indexKey) (some name.image) (-1)).2
  (bsonFinish b).2

/-- The part of a namespace in front of the first dot, and the part behind it. -/
def splitNs (ns : CString) : Option (CString × CString) :=
  (ns.bytes.findIdx? (· == 46)).map fun i =>
    (CString.ofBytes (ns.bytes.take i), CString.ofBytes (ns.bytes.drop (i + 1)))

section Calls

variable (host : GDouble → BitVec 64) (reconnect : Bool → Program (World σ) Bool)

/-- `ENOTSUP` is `EOPNOTSUPP`. -/
def mongoSyncCmdIndexCreate (ns : Option CString) (key : Option Bson) (options : BitVec 32) :
    Program (World σ) Bool := do
  match ns, key with
  | some ns, some key =>
      match splitNs ns with
      | none =>
          setErrno .EINVAL
          return false
      | some (db, _) =>
          match ← Program.ofExcept (mongoIndexGenName host key) with
          | none =>
              setErrno .EOPNOTSUPP
              return false
          | some name =>
              mongoSyncCmdInsertN N reconnect (some (db.append indexesSuffix))
                (some [indexDocument key ns name options])
  | _, _ =>
      setErrno .EINVAL
      return false

/-- `_mongo_sync_cmd_index_drop`. -/
def mongoSyncCmdIndexDropName (fullNs : Option CString) (name : CString) :
    Program (World σ) Bool := do
  match fullNs with
  | none =>
      setErrno .EINVAL
      return false
  | some fullNs =>
      match splitNs fullNs with
      | none =>
          setErrno .EINVAL
          return false
      | some (db, ns) =>
          match ← mongoSyncCmdCustom N reconnect (some db) (dropCommand ns name) with
          | none => return false
          | some _ => return true

/-- The name is dereferenced also when there is none. -/
def mongoSyncCmdIndexDrop (ns : Option CString) (key : Option Bson) :
    Program (World σ) Bool := do
  match key with
  | none =>
      setErrno .EINVAL
      return false
  | some key =>
      match ← Program.ofExcept (mongoIndexGenName host key) with
      | none => throw .outside
      | some name => mongoSyncCmdIndexDropName N reconnect ns name

/-- `mongo_sync_cmd_index_drop_all`. -/
def mongoSyncCmdIndexDropAll (ns : Option CString) : Program (World σ) Bool :=
  mongoSyncCmdIndexDropName N reconnect ns (.ascii ['*'])

end Calls

end LibMongo
