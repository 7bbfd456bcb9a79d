import LibMongo.Bson.RoundTrip

/-!
# Objects that are built

`Builds b d` says that `b` is an open object with the elements of `d`.  An append call adds
one element, so the tree of an object is read off the calls that build it, one by one.
-/

namespace LibMongo

open Bytes

/-- A document with one more element. -/
def Doc.snoc (d : Doc) (key : CString) (v : Value) : Doc := d.append (.cons key v .nil)

theorem Doc.elems_snoc (d : Doc) (key : CString) (v : Value) :
    (d.snoc key v).elems = d.elems ++ element key v := by
  rw [Doc.snoc, Doc.elems_append, Doc.elems_cons, Doc.elems_nil, List.append_nil]

/-- An open object with the elements of a document, behind the room for its length. -/
def Builds (b : Option Bson) (d : Doc) : Prop :=
  ∃ front : Bytes, front.length = 4 ∧ b = some ⟨front ++ d.elems, false⟩

theorem builds_new (size : Int) : Builds (some (bsonNewSized size)) .nil :=
  ⟨leBytes 4 0, by simp, by simp [bsonNewSized]⟩

namespace Builds

variable {b : Option Bson} {d : Doc} (h : Builds b d) (key : CString)
include h

/-- An append call whose bytes are those of the value. -/
theorem append {type : BsonType} {payload : Bytes} (v : Value) (htype : type = v.type)
    (hpayload : payload = v.encode) :
    Builds (bsonAppendElement b type (some key) payload).2 (d.snoc key v) := by
  obtain ⟨front, hfront, rfl⟩ := h
  refine ⟨front, hfront, ?_⟩
  rw [bsonAppendElement_open, Doc.elems_snoc, element, htype, hpayload, List.append_assoc]

theorem int64 (i : BitVec 64) : Builds (bsonAppendInt64 b (some key) i).2 (d.snoc key (.int64 i)) :=
  h.append key (.int64 i) rfl (by rw [Value.encode])

theorem int32 (i : BitVec 32) : Builds (bsonAppendInt32 b (some key) i).2 (d.snoc key (.int32 i)) :=
  h.append key (.int32 i) rfl (by rw [Value.encode])

theorem utcDatetime (t : BitVec 64) :
    Builds (bsonAppendUtcDatetime b (some key) t).2 (d.snoc key (.utcDatetime t)) :=
  h.append key (.utcDatetime t) rfl (by rw [Value.encode])

theorem oid (o : Oid) : Builds (bsonAppendOid b (some key) (some o)).2 (d.snoc key (.oid o)) :=
  h.append key (.oid o) rfl (by rw [Value.encode])

theorem binary (subtype : UInt8) {data : Bytes} (hne : data ≠ []) :
    Builds (bsonAppendBinary b (some key) subtype (some data) data.length).2
      (d.snoc key (.binary subtype data)) := by
  have hpos := List.length_pos_iff.mpr hne
  rw [bsonAppendBinary]
  rw [if_neg (by omega), Int.toNat_natCast, List.take_length]
  exact h.append key (.binary subtype data) rfl (by simp [Value.encode])

/-- A string that is given with its terminator. -/
theorem string (s : CString) :
    Builds (bsonAppendString b (some key) (some s.image) (-1)).2 (d.snoc key (.string s.bytes)) := by
  have hof : CString.ofBytes s.image = s := by
    have := CString.ofBytes_image s []
    rwa [List.append_nil] at this
  have hlen : textLength s.image (-1) = s.bytes.length := by
    rw [textLength, if_neg (by simp), hof, CString.length]
  refine h.append key (.string s.bytes) rfl ?_
  rw [textBytes, hlen, CString.image, List.take_left, Value.encode, textImage, List.append_assoc]

theorem boolean (x : BitVec 32) :
    Builds (bsonAppendBoolean b (some key) x).2 (d.snoc key (.boolean (UInt8.ofNat x.toNat))) :=
  h.append key (.boolean (UInt8.ofNat x.toNat)) rfl (by rw [Value.encode])

/-- A document that is finished. -/
theorem document {b' : Bson} {e : Doc} (he : b'.Encodes e) :
    Builds (bsonAppendDocument b (some key) (some b')).2 (d.snoc key (.document e)) := by
  have hsize := bsonSize_finished he.finished he.small
  rw [bsonAppendDocument, bsonAppendDocumentElement, if_neg (by omega),
    bsonData_finished he.finished, Option.getD_some]
  exact h.append key (.document e) rfl (by rw [he.data_eq, Value.encode, Doc.encode])

theorem array {b' : Bson} {e : Doc} (he : b'.Encodes e) :
    Builds (bsonAppendArray b (some key) (some b')).2 (d.snoc key (.array e)) := by
  have hsize := bsonSize_finished he.finished he.small
  rw [bsonAppendArray, bsonAppendDocumentElement, if_neg (by omega),
    bsonData_finished he.finished, Option.getD_some]
  exact h.append key (.array e) rfl (by rw [he.data_eq, Value.encode, Doc.encode])

/-- Finishing gives the object that stands for the document. -/
theorem finish : (bsonFinish b).2 = some ⟨d.encode, true⟩ := by
  obtain ⟨front, hfront, rfl⟩ := h
  rw [bsonFinish_open hfront, Doc.encode, frame]

end Builds

end LibMongo
