import LibMongo.Bson.Build
import LibMongo.Bson.Builds
import LibMongo.Sync.Operation

/-!
# Collections and users

The operations of `mongo-sync.c` on whole collections (`count`, `create`, `exists` and
`drop`) and on the users of a database.  A user is a document of `system.users`, so adding
one is an update and removing one a delete.

The optional arguments of `mongo_sync_cmd_create` are all given here, and read where the
flags ask for them.
-/

namespace LibMongo

open Bytes Program

variable {σ : Type} (N : Net σ) (reconnect : Bool → Program (World σ) Bool)

/-! ## Names -/

/-- `count`, and the collection whose documents are counted. -/
def countKey : CString := .ascii ['c', 'o', 'u', 'n', 't']

/-- `query`, which documents are counted. -/
def queryKey : CString := .ascii ['q', 'u', 'e', 'r', 'y']

/-- `n`, where a reply to `count` has the number. -/
def numberKey : CString := .ascii ['n']

/-- `create`, and the collection. -/
def createKey : CString := .ascii ['c', 'r', 'e', 'a', 't', 'e']

/-- `autoIndexId`, whether the ids of the collection are indexed. -/
def autoIndexIdKey : CString :=
  .ascii ['a', 'u', 't', 'o', 'I', 'n', 'd', 'e', 'x', 'I', 'd']

/-- `capped`, whether the size of the collection is limited. -/
def cappedKey : CString := .ascii ['c', 'a', 'p', 'p', 'e', 'd']

/-- `size`, the size that is set aside. -/
def sizeKey : CString := .ascii ['s', 'i', 'z', 'e']

/-- `max`, the limit on the number of documents. -/
def maxKey : CString := .ascii ['m', 'a', 'x']

/-- `drop`, and the collection. -/
def dropKey : CString := .ascii ['d', 'r', 'o', 'p']

/-- `name`, where a document of `system.namespaces` has the name. -/
def namespaceKey : CString := .ascii ['n', 'a', 'm', 'e']

/-- `$set`, the fields that an update sets. -/
def setKey : CString := .ascii ['$', 's', 'e', 't']

/-- `pwd`, the digest of a user and a password. -/
def pwdKey : CString := .ascii ['p', 'w', 'd']

/-- `roles`, an array. -/
def rolesKey : CString := .ascii ['r', 'o', 'l', 'e', 's']

/-- What stands between a database and a collection. -/
def dot : CString := .ascii ['.']

/-- Behind a database, the collection with the names of all others. -/
def systemNamespaces : CString :=
  .ascii ['.', 's', 'y', 's', 't', 'e', 'm', '.', 'n', 'a', 'm', 'e', 's', 'p', 'a', 'c', 'e', 's']

/-- Behind a database, the collection with its users. -/
def systemUsers : CString :=
  .ascii ['.', 's', 'y', 's', 't', 'e', 'm', '.', 'u', 's', 'e', 'r', 's']

/-! ## Counting -/

/-- The bits of the double -1. -/
def doubleMinusOne : GDouble := 0xbff0000000000000

/-- The command document of `count`. -/
def countCommand (coll : Option CString) (query : Option Bson) : Option Bson :=
  let cmd := some (bsonNewSized (bsonSize query + 32))
  let cmd := (bsonAppendString cmd (some countKey) (coll.map CString.image) (-1)).2
  let cmd := if query.isSome then (bsonAppendDocument cmd (some queryKey) query).2 else cmd
  (bsonFinish cmd).2

/-- The number in a reply to `count`. -/
def replyNumber (b : Option Bson) : Except Halt (Except Errno GDouble) := do
  match ← bsonFind b (some numberKey) with
  | none => return .error .ENOENT
  | some c =>
      match ← bsonCursorGetDouble (some c) with
      | none => return .error .EINVAL
      | some d => return .ok d

/-- `mongo_sync_cmd_count`, which returns -1 when it fails. -/
def mongoSyncCmdCount (db coll : Option CString) (query : Option Bson) :
    Program (World σ) GDouble := do
  match ← mongoSyncCmdCustom N reconnect db (countCommand coll query) with
  | none => return doubleMinusOne
  | some p =>
      match ← readOrErrno (mongoWireReplyPacketGetNthDocument (some p) 1) with
      | none => return doubleMinusOne
      | some b =>
          match ← readOrErrno (replyNumber (bsonFinish b).2) with
          | none => return doubleMinusOne
          | some d => return d

/-! ## Creating and dropping -/

/-- `MONGO_COLLECTION_CAPPED`. -/
def collectionCapped : BitVec 32 := 1

/-- `MONGO_COLLECTION_CAPPED_MAX`. -/
def collectionCappedMax : BitVec 32 := 2

/-- `MONGO_COLLECTION_AUTO_INDEX_ID`. -/
def collectionAutoIndexId : BitVec 32 := 4

/-- `MONGO_COLLECTION_SIZED`. -/
def collectionSized : BitVec 32 := 8

/-- The command of `mongo_sync_cmd_create`, unless a size it reads is out of range. -/
def createCommand (coll : CString) (flags : BitVec 32) (size max : BitVec 64) :
    Except Errno (Option Bson) :=
  let cmd := some (bsonNewSized 128)
  let cmd := (bsonAppendString cmd (some createKey) (some coll.image) (-1)).2
  let cmd :=
    if flags &&& collectionAutoIndexId ≠ 0 then (bsonAppendBoolean cmd (some autoIndexIdKey) 1).2
    else cmd
  if flags &&& collectionCapped ≠ 0 ∨ flags &&& collectionCappedMax ≠ 0 ∨
      flags &&& collectionSized ≠ 0 then
    let cmd :=
      if flags &&& collectionCapped ≠ 0 ∨ flags &&& collectionCappedMax ≠ 0 then
        (bsonAppendBoolean cmd (some cappedKey) 1).2
      else cmd
    if size.toInt ≤ 0 then .error .ERANGE
    else
      let cmd := (bsonAppendInt64 cmd (some sizeKey) size).2
      if flags &&& collectionCappedMax ≠ 0 then
        if max.toInt ≤ 0 then .error .ERANGE
        else .ok (bsonFinish (bsonAppendInt64 cmd (some maxKey) max).2).2
      else .ok (bsonFinish cmd).2
  else .ok (bsonFinish cmd).2

/-- A command that is sent to the primary. -/
def mongoSyncCmdMaster (db : Option CString) (command : Option Bson) :
    Program (World σ) (Option MongoPacket) :=
  mongoSyncCmdCustomWith N (mongoCmdEnsureConn N reconnect) reconnect db command true true

/-- `mongo_sync_cmd_create`. -/
def mongoSyncCmdCreate (db coll : Option CString) (flags : BitVec 32) (size max : BitVec 64) :
    Program (World σ) Bool := do
  match db, coll with
  | some db, some coll =>
      match ← orErrno (createCommand coll flags size max) with
      | none => return false
      | some cmd =>
          let p ← mongoSyncCmdMaster N reconnect (some db) cmd
          return p.isSome
  | _, _ =>
      setErrno .EINVAL
      return false

/-- The command document of `drop`. -/
def dropCollectionCommand (coll : Option CString) : Option Bson :=
  let cmd := some (bsonNewSized 64)
  let cmd := (bsonAppendString cmd (some dropKey) (coll.map CString.image) (-1)).2
  (bsonFinish cmd).2

/-- `mongo_sync_cmd_drop`. -/
def mongoSyncCmdDrop (db coll : Option CString) : Program (World σ) Bool := do
  let p ← mongoSyncCmdMaster N reconnect db (dropCollectionCommand coll)
  return p.isSome

/-- The query of `mongo_sync_cmd_exists`. -/
def existsQuery (ns : CString) : Option Bson :=
  let cmd := some (bsonNewSized 128)
  let cmd := (bsonAppendString cmd (some namespaceKey) (some ns.image) (-1)).2
  (bsonFinish cmd).2

/-- The document about the collection, or `NULL`. -/
def mongoSyncCmdExists (db coll : Option CString) : Program (World σ) (Option Bson) := do
  match db, coll with
  | some db, some coll =>
      let w ← get
      let rid := w.conn.requestId + 1
      match ← orErrno (mongoWireCmdQuery N.order rid (some (db.append systemNamespaces))
        (slaveFlag w.conn) 0 1 (existsQuery ((db.append dot).append coll)) none) with
      | none => return none
      | some p =>
          match ← sendAndReceive N reconnect p rid replyFlagQueryFail (!w.conn.slaveok) with
          | none => return none
          | some p =>
              match ← readOrErrno (mongoWireReplyPacketGetNthDocument (some p) 1) with
              | none => return none
              | some r => return (bsonFinish r).2
  | _, _ =>
      setErrno .EINVAL
      return none

/-! ## Users -/

/-- `MONGO_WIRE_FLAG_UPDATE_UPSERT`. -/
def flagUpdateUpsert : BitVec 32 := 1

/-- The selector for a user. -/
def userSelector (user : CString) : Option Bson :=
  (bsonFinish (bsonBuild ⟨some userKey, .string (some user.image) (-1)⟩ [⟨none, .none⟩])).2

/-- What `mongo_sync_cmd_user_add_with_roles` sets. -/
def userUpdate (digest : CString) (roles : Option Bson) : Option Bson :=
  let pwd := bsonBuild ⟨some pwdKey, .string (some digest.image) (-1)⟩ [⟨none, .none⟩]
  let u := bsonBuildFull ⟨⟨some setKey, .document pwd⟩, true⟩ [⟨⟨none, .none⟩, false⟩]
  let u := if roles.isSome then (bsonAppendArray u (some rolesKey) roles).2 else u
  (bsonFinish u).2

/-- `mongo_sync_cmd_user_add_with_roles`: an upsert among the users of the database. -/
def mongoSyncCmdUserAddWithRoles (db user pw : Option CString) (roles : Option Bson) :
    Program (World σ) Bool := do
  match db, user, pw with
  | some db, some user, some pw =>
      mongoSyncCmdUpdate N reconnect (some (db.append systemUsers)) flagUpdateUpsert
        (userSelector user) (userUpdate (passDigest N user pw) roles)
  | _, _, _ =>
      setErrno .EINVAL
      return false

/-- `mongo_sync_cmd_user_add`. -/
def mongoSyncCmdUserAdd (db user pw : Option CString) : Program (World σ) Bool :=
  mongoSyncCmdUserAddWithRoles N reconnect db user pw none

/-- `mongo_sync_cmd_user_remove`. -/
def mongoSyncCmdUserRemove (db user : Option CString) : Program (World σ) Bool := do
  match db, user with
  | some db, some user =>
      mongoSyncCmdDelete N reconnect (some (db.append systemUsers)) 0 (userSelector user)
  | _, _ =>
      setErrno .EINVAL
      return false

/-! ## The documents that are sent -/

/-- The tree of a `count`. -/
def countDoc (coll : CString) : Option Doc → Doc
  | none => .cons countKey (.string coll.bytes) .nil
  | some q => .cons countKey (.string coll.bytes) (.cons queryKey (.document q) .nil)

theorem countCommand_eq (coll : CString) {query : Option Doc}
    (h : ∀ q ∈ query, q.encode.length < 2147483648) :
    countCommand (some coll) (query.map fun q => ⟨q.encode, true⟩)
      = some ⟨(countDoc coll query).encode, true⟩ := by
  cases query with
  | none =>
      have hbuilds := (builds_new (bsonSize none + 32)).string countKey coll
      exact hbuilds.finish
  | some q =>
      have hq : (⟨q.encode, true⟩ : Bson).Encodes q := ⟨rfl, rfl, h q rfl⟩
      have hbuilds := ((builds_new (bsonSize (some ⟨q.encode, true⟩) + 32)).string countKey
        coll).document queryKey hq
      rw [Option.map_some, countCommand, Option.isSome_some, if_pos rfl, Option.map_some]
      exact hbuilds.finish

/-- The collection is limited in size. -/
abbrev Limited (flags : BitVec 32) : Prop :=
  flags &&& collectionCapped ≠ 0 ∨ flags &&& collectionCappedMax ≠ 0

/-- The elements that `mongo_sync_cmd_create` appends for its flags. -/
def createDoc (coll : CString) (flags : BitVec 32) (size max : BitVec 64) : Doc :=
  let d := Doc.cons createKey (.string coll.bytes) .nil
  let d := if flags &&& collectionAutoIndexId ≠ 0 then d.snoc autoIndexIdKey (.boolean 1) else d
  let d := if Limited flags then d.snoc cappedKey (.boolean 1) else d
  let d := if Limited flags ∨ flags &&& collectionSized ≠ 0 then d.snoc sizeKey (.int64 size)
    else d
  if flags &&& collectionCappedMax ≠ 0 then d.snoc maxKey (.int64 max) else d

/-- The sizes that the flags ask for are positive. -/
def CreateFits (flags : BitVec 32) (size max : BitVec 64) : Prop :=
  (Limited flags ∨ flags &&& collectionSized ≠ 0 → 0 < size.toInt) ∧
    (flags &&& collectionCappedMax ≠ 0 → 0 < max.toInt)

instance (flags : BitVec 32) (size max : BitVec 64) : Decidable (CreateFits flags size max) :=
  inferInstanceAs (Decidable (_ ∧ _))

/-- A flag that may add an element. -/
theorem Builds.boolean_if {b : Option Bson} {d : Doc} (h : Builds b d) (c : Prop) [Decidable c]
    (key : CString) :
    Builds (if c then (bsonAppendBoolean b (some key) 1).2 else b)
      (if c then d.snoc key (.boolean 1) else d) := by
  split
  · exact h.boolean key 1
  · exact h

theorem createCommand_eq (coll : CString) (flags : BitVec 32) (size max : BitVec 64) :
    createCommand coll flags size max
      = if CreateFits flags size max then
          .ok (some ⟨(createDoc coll flags size max).encode, true⟩)
        else .error .ERANGE := by
  have hfront := (((builds_new 128).string createKey coll).boolean_if
    (flags &&& collectionAutoIndexId ≠ 0) autoIndexIdKey).boolean_if (Limited flags) cappedKey
  have hsize := hfront.int64 sizeKey size
  have hmax := hsize.int64 maxKey max
  rw [createCommand, createDoc]
  dsimp only
  by_cases hread : Limited flags ∨ flags &&& collectionSized ≠ 0
  · rw [if_pos (or_assoc.mp hread), if_pos hread]
    by_cases hpos : 0 < size.toInt
    · rw [if_neg (by omega)]
      by_cases hcapped : flags &&& collectionCappedMax ≠ 0
      · rw [if_pos hcapped, if_pos hcapped]
        by_cases hpos' : 0 < max.toInt
        · have hfits : CreateFits flags size max := ⟨fun _ => hpos, fun _ => hpos'⟩
          rw [if_neg (by omega), if_pos hfits]
          exact congrArg Except.ok hmax.finish
        · have hfits : ¬ CreateFits flags size max := fun h => hpos' (h.2 hcapped)
          rw [if_pos (by omega), if_neg hfits]
      · have hfits : CreateFits flags size max := ⟨fun _ => hpos, fun h => absurd h hcapped⟩
        rw [if_neg hcapped, if_neg hcapped, if_pos hfits]
        exact congrArg Except.ok hsize.finish
    · have hfits : ¬ CreateFits flags size max := fun h => hpos (h.1 hread)
      rw [if_pos (by omega), if_neg hfits]
  · have hcapped : ¬ flags &&& collectionCappedMax ≠ 0 := fun h => hread (.inl (.inr h))
    have hfits : CreateFits flags size max :=
      ⟨fun h => absurd h hread, fun h => absurd h hcapped⟩
    have hlimited : ¬ Limited flags := fun h => hread (.inl h)
    rw [if_neg hlimited, if_neg hlimited] at hfront
    rw [if_neg fun h => hread (or_assoc.mpr h), if_neg hread, if_neg hcapped, if_neg hlimited,
      if_pos hfits]
    exact congrArg Except.ok hfront.finish

/-- The tree of a selector for a user. -/
def userDoc (user : CString) : Doc := .cons userKey (.string user.bytes) .nil

/-- The tree of what is set. -/
def userUpdateDoc (digest : CString) : Option Doc → Doc
  | none => .cons setKey (.document (.cons pwdKey (.string digest.bytes) .nil)) .nil
  | some r => .cons setKey (.document (.cons pwdKey (.string digest.bytes) .nil))
      (.cons rolesKey (.array r) .nil)

/-- The object with a single string that `bson_build` makes. -/
theorem builds_string (key s : CString) :
    Builds (bsonBuild ⟨some key, .string (some s.image) (-1)⟩ [⟨none, .none⟩])
      (.cons key (.string s.bytes) .nil) := (builds_new 0).string key s

/-- A document that `bson_build_full` finishes itself. -/
theorem builds_document (key : CString) {b : Option Bson} {d : Doc} (h : Builds b d)
    (hsmall : d.encode.length < 2147483648) :
    Builds (bsonBuildFull ⟨⟨some key, .document b⟩, true⟩ [⟨⟨none, .none⟩, false⟩])
      (.cons key (.document d) .nil) := by
  have hd : (⟨d.encode, true⟩ : Bson).Encodes d := ⟨rfl, rfl, hsmall⟩
  have hopen : bsonSize b < 0 := by
    obtain ⟨front, -, rfl⟩ := h
    rw [bsonSize, if_neg (by simp)]
    omega
  have hfinish : finishFreed true b = some ⟨d.encode, true⟩ := by
    rw [finishFreed, if_pos ⟨rfl, hopen⟩, h.finish]
  show Builds (bsonAppendDocument (some (bsonNewSized 0)) (some key) (finishFreed true b)).2 _
  rw [hfinish]
  exact (builds_new 0).document key hd

theorem userSelector_eq (user : CString) :
    userSelector user = some ⟨(userDoc user).encode, true⟩ := by
  rw [userSelector, (builds_string userKey user).finish, userDoc]

theorem userUpdate_eq (digest : CString) {roles : Option Doc}
    (hroles : ∀ r ∈ roles, r.encode.length < 2147483648) (hdigest : digest.length < 2147483000) :
    userUpdate digest (roles.map fun r => ⟨r.encode, true⟩)
      = some ⟨(userUpdateDoc digest roles).encode, true⟩ := by
  have hsmall : (Doc.cons pwdKey (.string digest.bytes) .nil).encode.length < 2147483648 := by
    have hkey : pwdKey.length = 3 := rfl
    rw [CString.length] at hdigest
    simp only [Doc.encode_length, Doc.elems_cons, Doc.elems_nil, element_length, Value.encode,
      textImage, List.length_append, leBytes_length, List.length_nil, List.length_singleton]
    omega
  have hset := builds_document setKey (builds_string pwdKey digest) hsmall
  rw [userUpdate]
  cases roles with
  | none =>
      rw [Option.map_none, Option.isSome_none, if_neg Bool.false_ne_true]
      exact hset.finish
  | some r =>
      have hr : (⟨r.encode, true⟩ : Bson).Encodes r := ⟨rfl, rfl, hroles r rfl⟩
      have hboth := hset.array rolesKey hr
      rw [Option.map_some, Option.isSome_some, if_pos rfl]
      exact hboth.finish

end LibMongo
