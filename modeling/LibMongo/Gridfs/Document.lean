import LibMongo.Gridfs.Stream
import LibMongo.Bson.Builds
import LibMongo.Bson.Decode
import LibMongo.Bson.RoundTrip

/-!
# The documents of a GridFS

The objects that uploading and closing insert, as trees: `chunkDoc` for a chunk, and
`uploadFields` and `closeFields` for what is added to the metadata.

They are read off the append calls one by one, as `Bson/Builds.lean` says.
-/

namespace LibMongo

open Bytes

/-! ## Open objects -/

/-- A copy of a document can be appended to. -/
theorem builds_reopen {b : Bson} {d : Doc} (h : b.Encodes d) :
    ∃ c, reopen (some b) = .ok c ∧ Builds c d := by
  have hlen := h.small
  have hdata : b.data = leBytes 4 (d.elems.length + 5) ++ d.elems ++ [0] := by
    rw [h.data_eq, Doc.encode, frame, List.append_assoc]
  have hsize : bsonSize (some b) - 1 = (d.elems.length + 4 : Nat) := by
    rw [bsonSize_finished h.finished h.small, h.data_eq, Doc.encode_length]
    omega
  have hload : load b.data (d.elems.length + 4)
      = .ok (leBytes 4 (d.elems.length + 5) ++ d.elems) := by
    have hfront : (leBytes 4 (d.elems.length + 5) ++ d.elems).length = d.elems.length + 4 := by
      rw [List.length_append, leBytes_length, Nat.add_comm]
    rw [hdata, ← hfront, load_append]
  refine ⟨_, ?_, leBytes 4 (d.elems.length + 5), by simp, rfl⟩
  rw [reopen, bsonData_finished h.finished, hsize, bsonNewFromData]
  rw [if_neg (by omega), Int.toNat_natCast, hload]
  rfl

/-! ## Chunks -/

/-- The tree of a chunk. -/
def chunkDoc (oid : Oid) (n : Nat) (data : Bytes) : Doc :=
  .cons filesIdKey (.oid oid) (.cons nKey (.int64 (BitVec.ofNat 64 n))
    (.cons dataKey (.binary subtypeGeneric data) .nil))

theorem chunkBson_eq (oid : Oid) (n : Nat) {data : Bytes} (hne : data ≠ []) :
    chunkBson oid n data = some ⟨(chunkDoc oid n data).encode, true⟩ :=
  ((((builds_new _).oid filesIdKey oid).int64 nKey _).binary dataKey subtypeGeneric hne).finish

@[simp] theorem chunkDoc_filesId (oid : Oid) (n : Nat) (data : Bytes) :
    (chunkDoc oid n data).lookup filesIdKey = some (.oid oid) := rfl

@[simp] theorem chunkDoc_n (oid : Oid) (n : Nat) (data : Bytes) :
    (chunkDoc oid n data).lookup nKey = some (.int64 (BitVec.ofNat 64 n)) := rfl

@[simp] theorem chunkDoc_data (oid : Oid) (n : Nat) (data : Bytes) :
    (chunkDoc oid n data).lookup dataKey = some (.binary subtypeGeneric data) := rfl

/-! ## Metadata -/

/-- The fields an upload adds. -/
def uploadFields (md5 : CString) (gfs : MongoSyncGridfs) (oid : Oid) (size : Nat)
    (tv : GTimeVal) : Doc :=
  .cons lengthKey (.int64 (BitVec.ofNat 64 size))
    (.cons chunkSizeKey (.int32 (BitVec.ofNat 32 gfs.chunkSize))
      (.cons uploadDateKey (.utcDatetime tv.date)
        (.cons md5Key (.string md5.bytes) (.cons idKey (.oid oid) .nil))))

theorem uploadMeta_eq (md5 : Bytes → CString) (gfs : MongoSyncGridfs) (oid : Oid) (size : Nat)
    (tv : GTimeVal) (chk : GChecksum) {b : Option Bson} {d : Doc} (h : Builds b d) :
    uploadMeta md5 gfs oid size tv chk b
      = some ⟨(d.append (uploadFields (md5 chk.fed) gfs oid size tv)).encode, true⟩ := by
  have hfields := (((((h.int64 lengthKey (BitVec.ofNat 64 size)).int32 chunkSizeKey
    (BitVec.ofNat 32 gfs.chunkSize)).utcDatetime uploadDateKey tv.date).string md5Key
      (md5 chk.fed)).oid idKey oid).finish
  simp only [Doc.snoc, Doc.append_assoc, Doc.cons_append, Doc.nil_append] at hfields
  exact hfields

/-- The fields closing adds to a file that is not empty. -/
def closeFields (md5 : CString) (chunkSize length : Nat) (tv : GTimeVal) : Doc :=
  .cons lengthKey (.int64 (BitVec.ofNat 64 length))
    (.cons chunkSizeKey (.int32 (BitVec.ofNat 32 chunkSize))
      (.cons uploadDateKey (.utcDatetime tv.date)
        (.cons md5Key (.string md5.bytes) .nil)))

theorem closeMeta_eq (md5 : Bytes → CString) {w : GridfsWriter} (tv : GTimeVal) {b : Option Bson}
    {d : Doc} (h : Builds b d) (hne : w.length ≠ 0) :
    closeMeta md5 w tv b
      = some ⟨(d.append (closeFields (md5 w.checksum.fed) w.chunkSize w.length tv)).encode, true⟩ := by
  have hfields := ((((h.int64 lengthKey (BitVec.ofNat 64 w.length)).int32 chunkSizeKey
    (BitVec.ofNat 32 w.chunkSize)).utcDatetime uploadDateKey tv.date).string md5Key
      (md5 w.checksum.fed)).finish
  simp only [Doc.snoc, Doc.append_assoc, Doc.cons_append, Doc.nil_append] at hfields
  rw [closeMeta, if_pos hne]
  exact hfields

/-- Without an object nothing is built. -/
theorem closeMeta_none (md5 : Bytes → CString) (w : GridfsWriter) (tv : GTimeVal) :
    closeMeta md5 w tv none = none := by
  by_cases h : w.length ≠ 0
  · rw [closeMeta, if_pos h]
    rfl
  · rw [closeMeta, if_neg h]
    rfl

/-! ## Queries -/

theorem oidQuery_eq (key : CString) (oid : Oid) :
    oidQuery key oid = some ⟨(Doc.cons key (.oid oid) .nil).encode, true⟩ :=
  ((builds_new 0).oid key oid).finish

theorem chunkQuery_eq (oid : Oid) (chunk : Int) :
    chunkQuery oid chunk = some ⟨(Doc.cons filesIdKey (.oid oid)
      (.cons nKey (.int64 (BitVec.ofInt 64 chunk)) .nil)).encode, true⟩ :=
  (((builds_new 32).oid filesIdKey oid).int64 nKey _).finish

end LibMongo
