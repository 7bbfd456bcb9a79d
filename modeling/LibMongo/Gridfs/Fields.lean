import LibMongo.Bson.Scan
import LibMongo.Gridfs.Agree
import LibMongo.Gridfs.Reader

/-!
# The metadata of a file

What `mongo_sync_gridfs_stream_find` and `mongo_sync_gridfs_chunked_find` make of any
document with distinct keys.

Both move one cursor from field to field and never ask whether it moved.  So a getter
reads the last field that was found (`find_step`).  A field of another type is then taken
for a missing one, but `length` and `chunkSize` may both be an `int32`, and a file without
`chunkSize` gets its length for it (`metadata_own_fields_iff`).
-/

namespace LibMongo

open Bytes Interaction Program

/-! ## Cursors on a document with distinct keys -/

/-- The keys of a document, in order. -/
def Doc.keys (d : Doc) : List CString := d.elements.map fun e => e.1

/-- The date of a value. -/
def Value.asUtcDatetime : Value → Option (BitVec 64)
  | .utcDatetime x => some x
  | _ => none

section Stops

variable {b : Bson} {d : Doc} {s : BsonCursor × CString × Value} {pos : Nat}

theorem Doc.key_of_stop (d : Doc) (pos : Nat) (hs : s ∈ d.stops b pos) : s.2.1 ∈ d.keys := by
  rw [Doc.keys, ← d.stops_elements (b := b) pos, List.map_map]
  exact List.mem_map_of_mem hs

/-- The element a cursor stands on is the one its key is looked up as. -/
theorem Doc.lookup_of_stop (d : Doc) (pos : Nat) (hkeys : d.keys.Nodup)
    (hs : s ∈ d.stops b pos) : d.lookup s.2.1 = some s.2.2 := by
  match d with
  | .nil => cases hs
  | .cons key value rest =>
      rw [Doc.keys, Doc.elements, List.map_cons, List.nodup_cons] at hkeys
      rw [Doc.stops, List.mem_cons] at hs
      rw [Doc.lookup]
      rcases hs with rfl | hs
      · rw [if_pos rfl]
      · have hmem := Doc.key_of_stop rest _ hs
        rw [if_neg (by rintro rfl; exact hkeys.1 hmem)]
        exact Doc.lookup_of_stop rest _ hkeys.2 hs

/-- Every field has a place. -/
theorem Doc.stop_of_split {d₁ d₂ : Doc} {key : CString} {v : Value} :
    (BsonCursor.behind b d₁ key, key, v) ∈ (d₁.append (.cons key v d₂)).stops b 4 := by
  rw [Doc.stops_append, Doc.stops, BsonCursor.behind]
  exact List.mem_append_right _ List.mem_cons_self

/-- `bson_cursor_find` moves the cursor to the field, or leaves it on the last one that
was found. -/
theorem find_step (h : b.Encodes d) (hkeys : d.keys.Nodup) (hs : s ∈ d.stops b 4)
    (name : CString) :
    ∃ found t, bsonCursorFind (some s.1) (some name) = .ok (found, some t.1) ∧
      t ∈ d.stops b 4 ∧ t.2.2 = (d.lookup name).getD s.2.2 := by
  have hfinds := (cursor_finds_from_stop h hs name)
  rw [FindsWhole] at hfinds
  cases hhead : (d.stopsFrom b s.1.pos name ++ d.stopsFrom b 0 name).head? with
  | none =>
      rw [hhead] at hfinds
      refine ⟨false, s, hfinds, hs, ?_⟩
      cases hl : d.lookup name with
      | none => rfl
      | some v =>
          obtain ⟨d₁, d₂, rfl, -⟩ := Doc.split_of_lookup hl
          have hmem : BsonCursor.behind b d₁ name
              ∈ (d₁.append (.cons name v d₂)).stopsFrom b 0 name :=
            Doc.mem_stopsFrom.mpr ⟨_, Doc.stop_of_split, Nat.zero_le _, rfl, rfl⟩
          rw [(List.append_eq_nil_iff.mp (List.head?_eq_none_iff.mp hhead)).2] at hmem
          cases hmem
  | some c =>
      rw [hhead] at hfinds
      obtain ⟨t, ht, hname, rfl⟩ : ∃ t ∈ d.stops b 4, t.2.1 = name ∧ t.1 = c := by
        rcases List.mem_append.mp (List.mem_of_mem_head? hhead) with hmem | hmem
        · obtain ⟨t, ht, -, hname, hc⟩ := Doc.mem_stopsFrom.mp hmem
          exact ⟨t, ht, hname, hc⟩
        · obtain ⟨t, ht, -, hname, hc⟩ := Doc.mem_stopsFrom.mp hmem
          exact ⟨t, ht, hname, hc⟩
      refine ⟨true, t, hfinds, ht, ?_⟩
      rw [← hname, d.lookup_of_stop 4 hkeys ht, Option.getD_some]

/-! ### Getters -/

/-- A getter reads the value of the element, if that is of its type. -/
theorem get_on_stop {α : Type} (h : b.Encodes d) (hs : s ∈ d.stops b 4) (type : BsonType)
    (get : BsonCursor → Except Halt α) {read : Value → Option α}
    (hmiss : ∀ v, v.type ≠ type → read v = none)
    (hget : ∀ d₁ key v d₂, v.type = type → b.Encodes (d₁.append (.cons key v d₂)) →
      bsonCursorGet type (some (.behind b d₁ key)) get = .ok (read v)) :
    bsonCursorGet type (some s.1) get = .ok (read s.2.2) := by
  obtain ⟨d₁, d₂, rfl, hcursor⟩ := Doc.split_of_stop 4 hs
  have hbehind : s.1 = .behind b d₁ s.2.1 := hcursor
  rw [hbehind]
  by_cases htype : s.2.2.type = type
  · exact hget _ _ _ _ htype h
  · rw [hmiss _ htype]
    exact h.get_ne htype get

theorem getInt64_on_stop (h : b.Encodes d) (hs : s ∈ d.stops b 4) :
    bsonCursorGetInt64 (some s.1) = .ok s.2.2.asInt64 := by
  rw [bsonCursorGetInt64, bsonCursorGetWord64]
  refine get_on_stop h hs .int64 _ (fun v hv => ?_) fun d₁ key v d₂ hv he => ?_
  · cases v with
    | int64 x => exact absurd rfl hv
    | _ => rfl
  · cases v with
    | int64 x => exact he.getInt64
    | _ => cases hv

theorem getInt32_on_stop (h : b.Encodes d) (hs : s ∈ d.stops b 4) :
    bsonCursorGetInt32 (some s.1) = .ok s.2.2.asInt32 := by
  refine get_on_stop h hs .int32 _ (fun v hv => ?_) fun d₁ key v d₂ hv he => ?_
  · cases v with
    | int32 x => exact absurd rfl hv
    | _ => rfl
  · cases v with
    | int32 x => exact he.getInt32
    | _ => cases hv

theorem getUtcDatetime_on_stop (h : b.Encodes d) (hs : s ∈ d.stops b 4) :
    bsonCursorGetUtcDatetime (some s.1) = .ok s.2.2.asUtcDatetime := by
  rw [bsonCursorGetUtcDatetime, bsonCursorGetWord64]
  refine get_on_stop h hs .utcDatetime _ (fun v hv => ?_) fun d₁ key v d₂ hv he => ?_
  · cases v with
    | utcDatetime x => exact absurd rfl hv
    | _ => rfl
  · cases v with
    | utcDatetime x => exact he.getUtcDatetime
    | _ => cases hv

theorem getString_on_stop (h : b.Encodes d) (hs : s ∈ d.stops b 4) :
    bsonCursorGetString (some s.1) = .ok s.2.2.asText := by
  rw [bsonCursorGetString, bsonCursorGetText]
  refine get_on_stop h hs .string _ (fun v hv => ?_) fun d₁ key v d₂ hv he => ?_
  · cases v with
    | string x => exact absurd rfl hv
    | _ => rfl
  · cases v with
    | string x => exact he.getString
    | _ => cases hv

end Stops

/-! ## What is read -/

/-- The number of an `int32`, and zero for other values. -/
def Value.intOrZero (v : Value) : Int := (v.asInt32.map BitVec.toInt).getD 0

/-- The length a value stands for, zero if it is no integer. -/
def Value.lengthOrZero (v : Value) : Int :=
  if (v.asInt64.map BitVec.toInt).getD 0 = 0 then v.intOrZero
  else (v.asInt64.map BitVec.toInt).getD 0

/-- The value under a key, or else the one the cursor is left on. -/
def Doc.reads (d : Doc) (name : CString) (left : Value) : Value := (d.lookup name).getD left

section Reads

variable {gfs : MongoSyncGridfs} {b : Bson} {d : Doc} {s : BsonCursor × CString × Value}

theorem cursorLength_on_stop (h : b.Encodes d) (hs : s ∈ d.stops b 4) :
    cursorLength (some s.1) = .ok s.2.2.lengthOrZero := by
  rw [cursorLength, getInt64_on_stop h hs, ok_bind, getInt32_on_stop h hs, Value.lengthOrZero]
  dsimp only
  split
  · rfl
  · rfl

/-- Both sizes are read from the field the cursor is left on. -/
theorem findSizes_on_stop (h : b.Encodes d) (hkeys : d.keys.Nodup) (hs : s ∈ d.stops b 4) :
    ∃ t ∈ d.stops b 4, t.2.2 = d.reads chunkSizeKey (d.reads lengthKey s.2.2) ∧
      findSizes (some s.1)
        = .ok ((d.reads lengthKey s.2.2).lengthOrZero,
            (d.reads chunkSizeKey (d.reads lengthKey s.2.2)).intOrZero, some t.1) := by
  obtain ⟨found, t, hfind, ht, hvalue⟩ := find_step h hkeys hs lengthKey
  obtain ⟨found', u, hfind', hu, hvalue'⟩ := find_step h hkeys ht chunkSizeKey
  refine ⟨u, hu, ?_, ?_⟩
  · rw [hvalue', hvalue]
    rfl
  · rw [findSizes, hfind, ok_bind]
    dsimp only
    rw [cursorLength_on_stop h ht, ok_bind, hfind', ok_bind]
    dsimp only
    rw [getInt32_on_stop h hu, ok_bind, hvalue', hvalue]
    rfl

/-- The cursor both functions start with. -/
theorem find_id (h : b.Encodes d) {oid : Oid} (hid : d.lookup idKey = some (.oid oid)) :
    ∃ s ∈ d.stops b 4, s.2.2 = .oid oid ∧ bsonFind (some b) (some idKey) = .ok (some s.1) ∧
      bsonCursorGetOid (some s.1) = .ok (some oid) := by
  obtain ⟨d₁, d₂, rfl, -, hfind⟩ := bsonFind_some h hid
  exact ⟨_, Doc.stop_of_split, rfl, hfind, h.getOid⟩

theorem find_no_id (h : b.Encodes d) (hid : (d.lookup idKey).bind Value.asOid = none) :
    (bsonFind (some b) (some idKey) >>= bsonCursorGetOid) = .ok none := by
  rw [find_getOid h, hid]

/-- What the stream is made of. -/
theorem streamReader_eq (h : b.Encodes d) (hkeys : d.keys.Nodup) {oid : Oid}
    (hid : d.lookup idKey = some (.oid oid)) :
    streamReader gfs (some b) = .ok
      (if (d.reads lengthKey (.oid oid)).lengthOrZero = 0 ∨
          (d.reads chunkSizeKey (d.reads lengthKey (.oid oid))).intOrZero = 0 then
        .error .EPROTO
      else .ok (.reader
        { gfs := gfs
          chunkSize := (d.reads chunkSizeKey (d.reads lengthKey (.oid oid))).intOrZero
          length := (d.reads lengthKey (.oid oid)).lengthOrZero
          offset := 0
          currentChunk := 0
          id := oid
          bson := none
          data := none
          startOffset := 0
          size := 0
          chunkOffset := 0 })) := by
  obtain ⟨s, hs, hvalue, hfind, hget⟩ := find_id h hid
  obtain ⟨t, -, -, hsizes⟩ := findSizes_on_stop h hkeys hs
  rw [hvalue] at hsizes
  rw [streamReader, hfind, ok_bind, hget, ok_bind]
  dsimp only
  rw [hsizes, ok_bind]
  dsimp only
  split
  · rfl
  · rfl

theorem streamReader_no_id (h : b.Encodes d) (hid : (d.lookup idKey).bind Value.asOid = none) :
    streamReader gfs (some b) = .ok (.error .EPROTO) := by
  have hget := find_no_id h hid
  rw [streamReader]
  obtain ⟨c, hfind, hget⟩ := bind_eq_ok.mp hget
  rw [hfind, ok_bind, hget, ok_bind]
  rfl

/-- What the chunked file is made of. -/
theorem chunkedFile_eq (h : b.Encodes d) (hkeys : d.keys.Nodup) {oid : Oid}
    (hid : d.lookup idKey = some (.oid oid)) {length size upload sum : Value}
    (hlength : d.reads lengthKey (.oid oid) = length) (hsize : d.reads chunkSizeKey length = size)
    (hupload : d.reads uploadDateKey size = upload) (hsum : d.reads md5Key upload = sum) :
    chunkedFile gfs (some b) = .ok
      (if length.lengthOrZero = 0 ∨ size.intOrZero = 0 then .error .EPROTO
      else match upload.asUtcDatetime with
        | none => .error .EPROTO
        | some date =>
            match sum.asText with
            | none => .error .EPROTO
            | some md5 =>
                .ok ⟨gfs, size.intOrZero, length.lengthOrZero, some oid, some md5, date,
                  some b⟩) := by
  obtain ⟨s, hs, hvalue, hfind, hget⟩ := find_id h hid
  obtain ⟨t, ht, htvalue, hsizes⟩ := findSizes_on_stop h hkeys hs
  rw [hvalue, hlength, hsize] at hsizes htvalue
  obtain ⟨found, u, hfindDate, hu, huvalue⟩ := find_step h hkeys ht uploadDateKey
  obtain ⟨found', x, hfindSum, hx, hxvalue⟩ := find_step h hkeys hu md5Key
  have hu' : u.2.2 = upload := by rw [huvalue, htvalue, ← hupload, Doc.reads]
  have hx' : x.2.2 = sum := by rw [hxvalue, hu', ← hsum, Doc.reads]
  rw [chunkedFile, hfind, ok_bind, hget, ok_bind]
  dsimp only
  rw [hsizes, ok_bind]
  dsimp only
  split
  · rfl
  · rw [hfindDate, ok_bind]
    dsimp only
    rw [getUtcDatetime_on_stop h hu, ok_bind, hu']
    cases upload.asUtcDatetime with
    | none => rfl
    | some date =>
        dsimp only
        rw [hfindSum, ok_bind]
        dsimp only
        rw [getString_on_stop h hx, ok_bind, hx']
        cases sum.asText with
        | none => rfl
        | some md5 => rfl

theorem chunkedFile_no_id (h : b.Encodes d) (hid : (d.lookup idKey).bind Value.asOid = none) :
    chunkedFile gfs (some b) = .ok (.error .EPROTO) := by
  have hget := find_no_id h hid
  rw [chunkedFile]
  obtain ⟨c, hfind, hget⟩ := bind_eq_ok.mp hget
  rw [hfind, ok_bind, hget, ok_bind]
  rfl

end Reads

/-! ## A file and its own fields -/

/-- The fields both functions need, with their values. -/
structure FileFields (d : Doc) (oid : Oid) (length size : Int) : Prop where
  id_eq : d.lookup idKey = some (.oid oid)
  length_eq : (∃ x : BitVec 64, d.lookup lengthKey = some (.int64 x) ∧ length = x.toInt) ∨
    ∃ x : BitVec 32, d.lookup lengthKey = some (.int32 x) ∧ length = x.toInt
  length_ne : length ≠ 0
  size_eq : ∃ x : BitVec 32, d.lookup chunkSizeKey = some (.int32 x) ∧ size = x.toInt
  size_ne : size ≠ 0

/-- The fields `mongo_sync_gridfs_chunked_find` needs. -/
structure ChunkedFields (d : Doc) (oid : Oid) (length size : Int) (date : BitVec 64)
    (md5 : CString) : Prop extends FileFields d oid length size where
  date_eq : d.lookup uploadDateKey = some (.utcDatetime date)
  md5_eq : ∃ s, d.lookup md5Key = some (.string s) ∧ md5 = CString.ofBytes s

/-- Each function succeeds only with the values of the fields, and both succeed if all
fields are there. -/
structure OwnFields (d : Doc) (stream : Except Errno MongoSyncGridfsStream)
    (file : Except Errno MongoSyncGridfsChunkedFile) : Prop where
  streamed : ∀ s, stream = .ok s → ∃ r, s = .reader r ∧ FileFields d r.id r.length r.chunkSize
  chunked : ∀ f, file = .ok f → ∃ oid md5, f.oid = some oid ∧ f.md5 = some md5 ∧
    ChunkedFields d oid f.length f.chunkSize f.date md5
  both : ∀ {oid length size date md5}, ChunkedFields d oid length size date md5 →
    ∃ r f, stream = .ok (.reader r) ∧ file = .ok f ∧ r.id = oid ∧ f.oid = some oid ∧
      r.length = length ∧ f.length = length ∧ r.chunkSize = size ∧ f.chunkSize = size

/-- A file without `chunkSize` whose length would pass for it. -/
def SizeBorrowed (d : Doc) : Prop :=
  d.lookup chunkSizeKey = none ∧ (∃ oid, d.lookup idKey = some (.oid oid)) ∧
    ∃ x : BitVec 32, d.lookup lengthKey = some (.int32 x) ∧ x.toInt ≠ 0

section Values

variable {d : Doc} {name : CString} {v left : Value} {oid : Oid}

theorem Doc.reads_some (h : d.lookup name = some v) : d.reads name left = v := by
  rw [Doc.reads, h, Option.getD_some]

theorem Doc.reads_none (h : d.lookup name = none) : d.reads name left = left := by
  rw [Doc.reads, h, Option.getD_none]

theorem Value.int32_of_ne (h : v.intOrZero ≠ 0) :
    ∃ x : BitVec 32, v = .int32 x ∧ v.intOrZero = x.toInt := by
  cases v with
  | int32 x => exact ⟨x, rfl, rfl⟩
  | _ => exact absurd rfl h

theorem Value.integer_of_ne (h : v.lengthOrZero ≠ 0) :
    (∃ x : BitVec 64, v = .int64 x ∧ v.lengthOrZero = x.toInt) ∨
      ∃ x : BitVec 32, v = .int32 x ∧ v.lengthOrZero = x.toInt := by
  cases v with
  | int64 x =>
      refine .inl ⟨x, rfl, ?_⟩
      have hx : ¬ x.toInt = 0 := by
        intro hx
        exact h (by simp [lengthOrZero, intOrZero, asInt64, asInt32, hx])
      simp [lengthOrZero, asInt64, hx]
  | int32 x => exact .inr ⟨x, rfl, rfl⟩
  | _ => exact absurd rfl h

theorem Value.eq_of_asUtcDatetime {date : BitVec 64} (h : v.asUtcDatetime = some date) :
    v = .utcDatetime date := by
  cases v with
  | utcDatetime x =>
      cases h
      rfl
  | _ => cases h

theorem Value.eq_of_asText {text : CString} (h : v.asText = some text) :
    ∃ t, v = .string t ∧ text = CString.ofBytes t := by
  cases v with
  | string t =>
      cases h
      exact ⟨t, rfl, rfl⟩
  | _ => cases h

theorem Value.eq_of_lookup_asOid (h : (d.lookup name).bind Value.asOid = some oid) :
    d.lookup name = some (.oid oid) := by
  obtain ⟨w, hw, hoid⟩ := Option.bind_eq_some_iff.mp h
  cases w with
  | oid o =>
      cases hoid
      exact hw
  | _ => cases hoid

/-- A value that is not the one the cursor was left on is that of the field. -/
theorem Doc.lookup_of_reads (h : d.reads name left = v) (hne : v ≠ left) :
    d.lookup name = some v := by
  cases hl : d.lookup name with
  | none =>
      rw [Doc.reads_none hl] at h
      exact absurd h.symm hne
  | some w =>
      rw [Doc.reads_some hl] at h
      rw [h]

/-- Sizes that are not zero are those of the fields, unless one is borrowed. -/
theorem fileFields_of_ne (hborrowed : ¬ SizeBorrowed d) (hid : d.lookup idKey = some (.oid oid))
    (hlength : (d.reads lengthKey (.oid oid)).lengthOrZero ≠ 0)
    (hsize : (d.reads chunkSizeKey (d.reads lengthKey (.oid oid))).intOrZero ≠ 0) :
    FileFields d oid (d.reads lengthKey (.oid oid)).lengthOrZero
      (d.reads chunkSizeKey (d.reads lengthKey (.oid oid))).intOrZero where
  id_eq := hid
  length_eq := by
    rcases Value.integer_of_ne hlength with ⟨x, hx, hvalue⟩ | ⟨x, hx, hvalue⟩
    · exact .inl ⟨x, Doc.lookup_of_reads hx (by rintro ⟨⟩), hvalue⟩
    · exact .inr ⟨x, Doc.lookup_of_reads hx (by rintro ⟨⟩), hvalue⟩
  length_ne := hlength
  size_eq := by
    obtain ⟨x, hx, hvalue⟩ := Value.int32_of_ne hsize
    refine ⟨x, ?_, hvalue⟩
    cases hl : d.lookup chunkSizeKey with
    | some w =>
        rw [Doc.reads_some hl] at hx
        rw [hx]
    | none =>
        -- then the cursor is still on the length
        rw [Doc.reads_none hl] at hx hvalue hsize
        have hshort := Doc.lookup_of_reads hx (by rintro ⟨⟩)
        exact absurd ⟨hl, ⟨oid, hid⟩, x, hshort, hvalue ▸ hsize⟩ hborrowed
  size_ne := hsize

/-- What is read if all fields are there. -/
theorem FileFields.reads {length size : Int} (h : FileFields d oid length size) :
    (d.reads lengthKey (.oid oid)).lengthOrZero = length ∧
      (d.reads chunkSizeKey (d.reads lengthKey (.oid oid))).intOrZero = size := by
  obtain ⟨y, hy, rfl⟩ := h.size_eq
  refine ⟨?_, by rw [Doc.reads_some hy]; rfl⟩
  have hne := h.length_ne
  rcases h.length_eq with ⟨x, hx, rfl⟩ | ⟨x, hx, rfl⟩
  · rw [Doc.reads_some hx]
    simp [Value.lengthOrZero, Value.asInt64, hne]
  · rw [Doc.reads_some hx]
    rfl

end Values

section Own

variable {gfs : MongoSyncGridfs} {b : Bson} {d : Doc}
  {stream : Except Errno MongoSyncGridfsStream} {file : Except Errno MongoSyncGridfsChunkedFile}

/-- A file that borrows its length is found by `mongo_sync_gridfs_stream_find`. -/
theorem not_ownFields_of_borrowed (h : b.Encodes d) (hkeys : d.keys.Nodup)
    (hstream : streamReader gfs (some b) = .ok stream) (hborrowed : SizeBorrowed d) :
    ¬ OwnFields d stream file := by
  obtain ⟨hsize, ⟨oid, hid⟩, x, hlength, hx⟩ := hborrowed
  rw [streamReader_eq h hkeys hid, Doc.reads_none hsize, Doc.reads_some hlength] at hstream
  have hne : ¬ ((Value.int32 x).lengthOrZero = 0 ∨ (Value.int32 x).intOrZero = 0) :=
    not_or.mpr ⟨hx, hx⟩
  rw [if_neg hne] at hstream
  cases hstream
  intro hown
  obtain ⟨r, hr, hfields⟩ := hown.streamed _ rfl
  obtain ⟨y, hy, -⟩ := hfields.size_eq
  rw [hsize] at hy
  cases hy

/-- Every other file is found by its own fields. -/
theorem ownFields_of_not_borrowed (h : b.Encodes d) (hkeys : d.keys.Nodup)
    (hstream : streamReader gfs (some b) = .ok stream)
    (hfile : chunkedFile gfs (some b) = .ok file) (hborrowed : ¬ SizeBorrowed d) :
    OwnFields d stream file := by
  cases hid : (d.lookup idKey).bind Value.asOid with
  | none =>
      rw [streamReader_no_id h hid] at hstream
      rw [chunkedFile_no_id h hid] at hfile
      cases hstream
      cases hfile
      constructor
      · intro s hs
        cases hs
      · intro f hf
        cases hf
      · intro oid length size date md5 hfields
        rw [hfields.id_eq] at hid
        cases hid
  | some oid =>
      have hid := Value.eq_of_lookup_asOid hid
      rw [streamReader_eq h hkeys hid] at hstream
      rw [chunkedFile_eq h hkeys hid rfl rfl rfl rfl] at hfile
      cases hstream
      cases hfile
      constructor
      · intro s hs
        split at hs
        next => cases hs
        next hne =>
          cases hs
          exact ⟨_, rfl, fileFields_of_ne hborrowed hid (not_or.mp hne).1 (not_or.mp hne).2⟩
      · intro f hf
        split at hf
        next => cases hf
        next hne =>
          have hfields := fileFields_of_ne hborrowed hid (not_or.mp hne).1 (not_or.mp hne).2
          split at hf
          next => cases hf
          next date hdate =>
            split at hf
            next => cases hf
            next md5 hmd5 =>
              cases hf
              obtain ⟨y, hy, -⟩ := hfields.size_eq
              -- the date is no `int32`, and the checksum is no date
              have hupload : d.lookup uploadDateKey = some (.utcDatetime date) := by
                rw [Doc.reads_some hy] at hdate
                have hread : (d.lookup uploadDateKey).getD (.int32 y) = .utcDatetime date :=
                  Value.eq_of_asUtcDatetime hdate
                exact Doc.lookup_of_reads hread (by rintro ⟨⟩)
              rw [Doc.reads_some hupload] at hmd5
              obtain ⟨t, ht, rfl⟩ := Value.eq_of_asText hmd5
              have hsum : d.lookup md5Key = some (.string t) :=
                Doc.lookup_of_reads ht (by rintro ⟨⟩)
              exact ⟨oid, _, rfl, rfl, hfields, hupload, t, hsum, rfl⟩
      · intro oid' length size date md5 hfields
        obtain rfl : oid' = oid := by
          have hsame := hfields.id_eq.symm.trans hid
          cases hsame
          rfl
        obtain ⟨hlength, hsize⟩ := hfields.reads
        obtain ⟨t, ht, rfl⟩ := hfields.md5_eq
        have hne : ¬ (length = 0 ∨ size = 0) := not_or.mpr ⟨hfields.length_ne, hfields.size_ne⟩
        rw [hlength, hsize, if_neg hne, Doc.reads_some hfields.date_eq, Doc.reads_some ht]
        exact ⟨_, _, rfl, if_neg hne, rfl, rfl, rfl, rfl, rfl, rfl⟩

end Own

/-- **File metadata is taken from its own fields, unless the chunk size is borrowed.**  On
the reply to a query with any document, both functions go by the fields of the document
exactly if it does not lack `chunkSize` next to an ObjectID and an `int32` length. -/
theorem metadata_own_fields_iff {S : Type} {h : Handler GridCall GridCall.Response S} {s s' : S}
    {gfs : MongoSyncGridfs} {q b : Bson} {p : MongoPacket} {d : Doc}
    (hquery : ((Grid.query .files 1 (some q)).run h).exec s = (.ok (.ok p), s'))
    (hfirst : firstDocument (some p) = .ok (some b)) (hb : b.Encodes d) (hkeys : d.keys.Nodup) :
    ∃ stream file,
      ((mongoSyncGridfsStreamFind gfs (some q)).run h).exec s = (.ok stream, s') ∧
      ((mongoSyncGridfsChunkedFind gfs (some q)).run h).exec s = (.ok file, s') ∧
      (OwnFields d stream file ↔ ¬ SizeBorrowed d) := by
  obtain ⟨stream, hstream⟩ : ∃ stream, streamReader gfs (some b) = .ok stream := by
    cases hid : (d.lookup idKey).bind Value.asOid with
    | none => exact ⟨_, streamReader_no_id hb hid⟩
    | some oid => exact ⟨_, streamReader_eq hb hkeys (Value.eq_of_lookup_asOid hid)⟩
  obtain ⟨file, hfile⟩ : ∃ file, chunkedFile gfs (some b) = .ok file := by
    cases hid : (d.lookup idKey).bind Value.asOid with
    | none => exact ⟨_, chunkedFile_no_id hb hid⟩
    | some oid => exact ⟨_, chunkedFile_eq hb hkeys (Value.eq_of_lookup_asOid hid) rfl rfl rfl rfl⟩
  refine ⟨stream, file, ?_, ?_, ?_⟩
  · rw [mongoSyncGridfsStreamFind, if_neg (by simp), exec_run_bind_ok hquery]
    dsimp only
    rw [hfirst, ofExcept_ok, ret_bind, hstream]
    rfl
  · rw [mongoSyncGridfsChunkedFind, if_neg (by simp), exec_run_bind_ok hquery]
    dsimp only
    rw [hfirst, ofExcept_ok, ret_bind, hfile]
    rfl
  · constructor
    · intro hown hborrowed
      exact not_ownFields_of_borrowed hb hkeys hstream hborrowed hown
    · intro hborrowed
      exact ownFields_of_not_borrowed hb hkeys hstream hfile hborrowed

/-! ### A file with and a file without the size of its chunks -/

/-- A store with one file. -/
def fileStore (d : Doc) : Store where
  files := [d]
  chunks := []
  oid := none
  time := ⟨0, 0⟩
  tries := 0

/-- A connection on socket 5 to a store with this file. -/
def fileWorld (d : Doc) : World Store :=
  ⟨fileStore d, mongoSyncConnInit ⟨5, 0⟩ true, .ok, 6, []⟩

/-- The query for the file is answered with its document. -/
theorem exec_fileQuery {d : Doc} (hid : d.lookup idKey = some (.oid smallOid))
    (hfits : d.encode.length < 2147483612) (herr : d.errorValue = none) :
    ((Grid.query .files 1 (oidQuery idKey smallOid)).run
      (Store.serve Store.allServed .little)).exec (fileWorld d)
        = (.ok (.ok ((oneDocument d).packet .little)), Store.answered (fileWorld d)) := by
  refine Store.exec_query rfl (oidQuery_decode (by decide) smallOid) ?_ hfits herr
  have hmatch : d.matchedBy (.cons idKey (.oid smallOid) .nil) = true := by
    simp [Doc.matchedBy, Doc.has_oid, hid]
  simp [Store.find, Store.docs, fileWorld, fileStore, hmatch]

/-- All fields, in another order than an upload writes them. -/
def mixedDoc : Doc :=
  .cons md5Key (.string [0x30]) (.cons chunkSizeKey (.int32 2) (.cons idKey (.oid smallOid)
    (.cons uploadDateKey (.utcDatetime 7) (.cons lengthKey (.int32 4) .nil))))

theorem metadata_own_fields_mixed :
    ∃ stream file w,
      ((mongoSyncGridfsStreamFind smallGridfs (oidQuery idKey smallOid)).run
        (Store.serve Store.allServed .little)).exec (fileWorld mixedDoc) = (.ok stream, w) ∧
      ((mongoSyncGridfsChunkedFind smallGridfs (oidQuery idKey smallOid)).run
        (Store.serve Store.allServed .little)).exec (fileWorld mixedDoc) = (.ok file, w) ∧
      OwnFields mixedDoc stream file := by
  have hquery := exec_fileQuery (d := mixedDoc) rfl (by decide) rfl
  obtain ⟨b, hfirst, hb⟩ := firstDocument_oneDocument .little
    (show mixedDoc.encode.length < 2147483612 by decide)
  rw [oidQuery_eq] at hquery ⊢
  obtain ⟨stream, file, hstream, hfile, hiff⟩ :=
    metadata_own_fields_iff hquery hfirst hb (by decide)
  refine ⟨stream, file, _, hstream, hfile, hiff.mpr ?_⟩
  rintro ⟨hsize, -⟩
  cases hsize

/-- No size of the chunks. -/
def sizelessDoc : Doc := .cons idKey (.oid smallOid) (.cons lengthKey (.int32 10) .nil)

/-- The reader a file without the size of its chunks gets. -/
def sizelessReader : GridfsReader where
  gfs := smallGridfs
  chunkSize := 10
  length := 10
  offset := 0
  currentChunk := 0
  id := smallOid
  bson := none
  data := none
  startOffset := 0
  size := 0
  chunkOffset := 0

/-- The file is found, with chunks as long as the file. -/
theorem metadata_borrowed_length :
    ((mongoSyncGridfsStreamFind smallGridfs (oidQuery idKey smallOid)).run
      (Store.serve Store.allServed .little)).exec (fileWorld sizelessDoc)
        = (.ok (.ok (.reader sizelessReader)), Store.answered (fileWorld sizelessDoc)) ∧
    ∀ file, ¬ OwnFields sizelessDoc (.ok (.reader sizelessReader)) file := by
  constructor
  · have hquery := exec_fileQuery (d := sizelessDoc) rfl (by decide) rfl
    rw [mongoSyncGridfsStreamFind, oidQuery_eq] at *
    exact (exec_run_bind_ok hquery _).trans rfl
  · intro file hown
    obtain ⟨r, hr, hfields⟩ := hown.streamed _ rfl
    obtain ⟨x, hx, -⟩ := hfields.size_eq
    cases hx

end LibMongo
