import LibMongo.Gridfs.Agree

/-!
# Closing a stream

`mongo_sync_gridfs_stream_close` is to leave a stored file behind whenever it returns
`TRUE`.  `close_stored_iff` says exactly when it keeps that promise, for what becomes of the
inserts it makes.  The metadata is only inserted behind a last chunk that is shorter than
the others, so a file of full chunks is closed without it.
-/

namespace LibMongo

open Bytes Interaction Program

/-! ## Stored files -/

/-- `mongo_sync_cmd_insert` fails by itself without a document, or if the document has no
size.  Otherwise the outcome is given. -/
def insertOutcome (fate : Nat → Except Errno Unit) : Outcome := fun n doc =>
  if bsonSize doc ≤ 0 then .error .EINVAL else fate n

/-- The metadata that was inserted. -/
def Ledger.files (l : Ledger) : List (Option Bson) :=
  (l.inserts.filter fun p => p.1 = .files).map Prod.snd

/-- The fields of a file in its metadata. -/
structure Doc.Describes (d : Doc) (id : Oid) (c : Nat) (data : Bytes) (md5 : CString) : Prop where
  id : d.lookup idKey = some (.oid id)
  length : ∃ i, d.lookup lengthKey = some (.int64 i) ∧ i.toInt = data.length
  chunkSize : ∃ i, d.lookup chunkSizeKey = some (.int32 i) ∧ i.toInt = c
  md5 : d.lookup md5Key = some (.string md5.bytes)

/-- All bytes of the file were inserted in chunks, and one document that describes it. -/
structure Ledger.StoredFile (l l' : Ledger) (id : Oid) (c : Nat) (data : Bytes) (md5 : CString) :
    Prop where
  chunks : l'.chunks = l.chunks ++ chunkSequence id (pieces c data)
  file : ∃ b d, l'.files = l.files ++ [some b] ∧ b.Encodes d ∧ d.Describes id c data md5

/-- Closing ends.  It returns `TRUE` only if the file was stored since `l`, and does so if
all inserts it makes succeed. -/
def ClosesStored (md5 : Bytes → CString) (fate : Nat → Except Errno Unit) (l : Ledger)
    (data : Bytes) (w : GridfsWriter) (u : Ledger) : Prop :=
  ∃ r stream v,
    ((mongoSyncGridfsStreamClose md5 (.writer w)).run (Ledger.serve (insertOutcome fate))).exec u
      = (.ok (r, stream), v) ∧
    (r = .ok () → l.StoredFile v w.id w.chunkSize data (md5 data)) ∧
    ((∀ n, u.tries ≤ n → n < v.tries → fate n = .ok ()) → r = .ok ())

/-! ## The runs of a close -/

section Runs

variable {outcome : Outcome} {w : GridfsWriter} {u : Ledger}

/-- There is nothing in the buffer. -/
theorem exec_close_nil (md5 : Bytes → CString) (h : w.buffer = []) :
    ((mongoSyncGridfsStreamClose md5 (.writer w)).run (Ledger.serve outcome)).exec u
      = (.ok (.ok (), none), u) := by
  have hflush : closeFlush w = .ret (false, w) := by rw [closeFlush, if_pos h]; rfl
  have hclose : closeWriter md5 w = .ret (.ok (), none) := by rw [closeWriter, hflush]; rfl
  show ((closeWriter md5 w >>= fun p => _).run _).exec u = _
  rw [hclose]
  rfl

/-- The last chunk is not inserted. -/
theorem exec_close_failed (md5 : Bytes → CString) (h : w.buffer ≠ []) {e : Errno}
    (hout : outcome u.tries (chunkBson w.id w.currentChunk w.buffer) = .error e) :
    ((mongoSyncGridfsStreamClose md5 (.writer w)).run (Ledger.serve outcome)).exec u
      = (.ok (.ok (), none), { u with tries := u.tries + 1 }) := by
  have hflush : ((closeFlush w).run (Ledger.serve outcome)).exec u
      = (.ok (false, w), { u with tries := u.tries + 1 }) := by
    rw [closeFlush, if_neg h]
    exact exec_run_bind_ok (exec_insert hout) _
  show ((closeWriter md5 w >>= fun p => _).run _).exec u = _
  rw [closeWriter, Interaction.bind_assoc, exec_run_bind_ok hflush]
  rfl

/-- The ledger behind the last chunk. -/
def Ledger.afterFlush (u : Ledger) (w : GridfsWriter) : Ledger :=
  u.note .chunks (chunkBson w.id w.currentChunk w.buffer) (.ok ())

/-- The writer behind the last chunk. -/
def GridfsWriter.afterFlush (w : GridfsWriter) : GridfsWriter :=
  { w with checksum := gChecksumUpdate w.checksum w.buffer }

/-- The last chunk is inserted, and then the metadata is. -/
theorem exec_close_meta (md5 : Bytes → CString) (h : w.buffer ≠ [])
    (hout : outcome u.tries (chunkBson w.id w.currentChunk w.buffer) = .ok ())
    {front : Option Bson} (hfront : reopen w.metadata = .ok front) :
    ∃ stream, ((mongoSyncGridfsStreamClose md5 (.writer w)).run (Ledger.serve outcome)).exec u
      = (.ok (outcome (u.tries + 1) (closeMeta md5 w.afterFlush u.time front), stream),
          (u.afterFlush w).note .files (closeMeta md5 w.afterFlush u.time front)
            (outcome (u.tries + 1) (closeMeta md5 w.afterFlush u.time front))) := by
  have hflush : ((closeFlush w).run (Ledger.serve outcome)).exec u
      = (.ok (true, w.afterFlush), u.afterFlush w) := by
    rw [closeFlush, if_neg h]
    exact exec_run_bind_ok (exec_insert hout) _
  have htime : ((Grid.getCurrentTime).run (Ledger.serve outcome)).exec (u.afterFlush w)
      = (.ok u.time, u.afterFlush w) := by
    rw [exec_run_perform]
    rfl
  have hreopen : ((Interaction.ofExcept (reopen w.metadata) : Grid _).run
      (Ledger.serve outcome)).exec (u.afterFlush w) = (.ok front, u.afterFlush w) := by
    rw [exec_run_ofExcept, hfront]
  generalize hr : outcome (u.tries + 1) (closeMeta md5 w.afterFlush u.time front) = r
  have hinsert : ((Grid.insert .files (closeMeta md5 w.afterFlush u.time front)).run
      (Ledger.serve outcome)).exec (u.afterFlush w)
        = (.ok r, (u.afterFlush w).note .files (closeMeta md5 w.afterFlush u.time front) r) :=
    exec_insert hr
  have hclose : ∃ left, ((closeWriter md5 w).run (Ledger.serve outcome)).exec u
      = (.ok (r, left), (u.afterFlush w).note .files (closeMeta md5 w.afterFlush u.time front) r) := by
    rw [closeWriter, exec_run_bind_ok hflush]
    cases r with
    | error e =>
        refine ⟨some
          { w.afterFlush with
            checksum := if w.length ≠ 0 then (gChecksumGetString md5 w.afterFlush.checksum).2
              else w.afterFlush.checksum }, (exec_run_bind_ok htime _).trans ?_⟩
        exact (exec_run_bind_ok hreopen _).trans (exec_run_bind_ok hinsert _)
    | ok v =>
        refine ⟨none, (exec_run_bind_ok htime _).trans ?_⟩
        exact (exec_run_bind_ok hreopen _).trans (exec_run_bind_ok hinsert _)
  obtain ⟨left, hclose⟩ := hclose
  exact ⟨_, exec_run_bind_ok hclose _⟩

end Runs

/-! ## The documents a close inserts -/

/-- The metadata of a stream: that of the caller, and the id if it has none. -/
def Doc.withId (d : Doc) (id : Oid) : Doc :=
  if (d.lookup idKey).isNone then d.snoc idKey (.oid id) else d

theorem Doc.lookup_withId {key : CString} (hkey : idKey ≠ key) (d : Doc) (id : Oid) :
    (d.withId id).lookup key = d.lookup key := by
  unfold withId
  split
  next => simp [snoc, lookup_append, lookup, hkey]
  next => rfl

/-- The tree of the metadata a close inserts. -/
def closeDoc (d : Doc) (id : Oid) (md5 : CString) (c length : Nat) (tv : GTimeVal) : Doc :=
  (d.withId id).append (closeFields md5 c length tv)

section Fields

variable {d : Doc} {id : Oid} {md5 : CString} {c length : Nat} {tv : GTimeVal}

theorem closeDoc_length_field : (closeDoc d id md5 c length tv).lookup lengthKey
    = (d.lookup lengthKey).or (some (.int64 (BitVec.ofNat 64 length))) := by
  rw [closeDoc, Doc.lookup_append, Doc.lookup_withId (by decide)]
  rfl

theorem closeDoc_chunkSize : (closeDoc d id md5 c length tv).lookup chunkSizeKey
    = (d.lookup chunkSizeKey).or (some (.int32 (BitVec.ofNat 32 c))) := by
  rw [closeDoc, Doc.lookup_append, Doc.lookup_withId (by decide)]
  rfl

theorem closeDoc_md5 : (closeDoc d id md5 c length tv).lookup md5Key
    = (d.lookup md5Key).or (some (.string md5.bytes)) := by
  rw [closeDoc, Doc.lookup_append, Doc.lookup_withId (by decide)]
  rfl

theorem closeDoc_id (h : (d.withId id).lookup idKey = some (.oid id)) :
    (closeDoc d id md5 c length tv).lookup idKey = some (.oid id) := by
  rw [closeDoc, Doc.lookup_append, h]
  rfl

end Fields

/-- A chunk that is too large has no size. -/
theorem bsonSize_chunkBson (id : Oid) (n : Nat) {data : Bytes} (hne : data ≠ [])
    (hlt : data.length < 2147483648) :
    bsonSize (chunkBson id n data) ≤ 0 ↔ ¬ data.length + 49 < 2147483648 := by
  have hlen : (chunkDoc id n data).encode.length = data.length + 49 := by
    have hkeys : filesIdKey.length = 8 ∧ nKey.length = 1 ∧ dataKey.length = 4 := by decide
    simp only [Doc.encode_length, chunkDoc, Doc.elems_cons, Doc.elems_nil, List.length_append,
      element_length, Value.encode, id.length_eq, leBytes_length, List.length_cons, List.length_nil,
      hkeys.1, hkeys.2.1, hkeys.2.2]
    omega
  rw [chunkBson_eq id n hne, bsonSize]
  simp only [if_true, hlen, wrap32]
  omega

/-- The writer of a new stream holds the metadata with its id. -/
theorem newMetadata {l : Ledger} {b : Bson} {d : Doc} (h : b.Encodes d) {copy copy' : Option Bson}
    {id : Oid} (hcopy : reopen (some b) = .ok copy) (hid : ChoosesId l (some b) copy id copy') :
    (bsonFinish copy').2 = some ⟨(d.withId id).encode, true⟩ ∧
      (d.withId id).lookup idKey = some (.oid id) := by
  obtain ⟨c, hc, hbuilds⟩ := builds_reopen h
  rw [hc] at hcopy
  cases hcopy
  cases hid with
  | new hfind hoid =>
      have hnone : d.lookup idKey = none := by
        cases hl : d.lookup idKey with
        | none => rfl
        | some v =>
            obtain ⟨_, _, _, _, hsome⟩ := bsonFind_some h hl
            rw [hfind] at hsome
            cases hsome
      have hwith : d.withId id = d.snoc idKey (.oid id) := by
        rw [Doc.withId, hnone]
        rfl
      refine ⟨?_, ?_⟩
      · rw [hwith, (hbuilds.oid idKey id).finish]
      · rw [hwith, Doc.snoc, Doc.lookup_append, hnone]
        rfl
  | given hfind hget =>
      have hlookup : (d.lookup idKey).bind Value.asOid = some id := by
        have hfound := find_getOid h idKey
        rw [hfind, Program.ok_bind, hget, Except.ok.injEq] at hfound
        exact hfound.symm
      obtain ⟨v, hv, ho⟩ := Option.bind_eq_some_iff.mp hlookup
      have hwith : d.withId id = d := by
        rw [Doc.withId, hv]
        rfl
      refine ⟨by rw [hwith, hbuilds.finish], ?_⟩
      rw [hwith, hv]
      cases v with
      | oid o =>
          cases ho
          rfl
      | _ => cases ho

/-- A document that is too large is not opened again. -/
theorem reopen_large {data : Bytes} (hlo : 2147483648 ≤ data.length)
    (hhi : data.length < 4294967296) : reopen (some ⟨data, true⟩) = .ok none := by
  have hsize : bsonSize (some ⟨data, true⟩) - 1 ≤ 0 := by
    rw [bsonSize]
    simp only [if_true, wrap32]
    omega
  simp only [reopen, bsonData, if_true, bsonNewFromData, if_pos hsize]

/-- The document has no field of its own under this key, or one with this value. -/
def Doc.Allows (d : Doc) (key : CString) (v : Value) : Prop := ∀ w, d.lookup key = some w → w = v

theorem Doc.Allows.lookup_or {d : Doc} {key : CString} {v : Value} (h : d.Allows key v) :
    (d.lookup key).or (some v) = some v := by
  cases hl : d.lookup key with
  | none => rfl
  | some w => rw [h w hl]; rfl

/-- The metadata allows for the fields of a file. -/
structure Doc.AllowsFile (d : Doc) (c : Nat) (data : Bytes) (md5 : CString) : Prop where
  length_lt : data.length < 9223372036854775808
  length : d.Allows lengthKey (.int64 (BitVec.ofNat 64 data.length))
  chunkSize : d.Allows chunkSizeKey (.int32 (BitVec.ofNat 32 c))
  md5 : d.Allows md5Key (.string md5.bytes)

/-- Closing describes the file exactly if the metadata allows for it. -/
theorem closeDoc_describes {d : Doc} {id : Oid} {md5 : CString} {c : Nat} {data : Bytes}
    {tv : GTimeVal} (hid : (d.withId id).lookup idKey = some (.oid id)) (hc : c < 2147483648) :
    (closeDoc d id md5 c data.length tv).Describes id c data md5 ↔ d.AllowsFile c data md5 := by
  have hsize : (BitVec.ofNat 32 c).toInt = c := by
    rw [BitVec.toInt_eq_toNat_of_lt (by rw [BitVec.toNat_ofNat]; omega), BitVec.toNat_ofNat]
    omega
  constructor
  · intro h
    obtain ⟨i, hi, hlen⟩ := h.length
    obtain ⟨j, hj, hchunk⟩ := h.chunkSize
    have hmd5 := h.md5
    rw [closeDoc_length_field] at hi
    rw [closeDoc_chunkSize] at hj
    rw [closeDoc_md5] at hmd5
    have hlt : data.length < 9223372036854775808 := by
      have := BitVec.toInt_lt (x := i)
      omega
    refine ⟨hlt, fun v hv => ?_, fun v hv => ?_, fun v hv => ?_⟩
    · rw [hv, Option.some_or, Option.some.injEq] at hi
      rw [hi, Value.int64.injEq]
      apply BitVec.eq_of_toInt_eq
      rw [hlen, BitVec.toInt_eq_toNat_of_lt (by rw [BitVec.toNat_ofNat]; omega), BitVec.toNat_ofNat]
      omega
    · rw [hv, Option.some_or, Option.some.injEq] at hj
      rw [hj, Value.int32.injEq]
      apply BitVec.eq_of_toInt_eq
      rw [hchunk, hsize]
    · rw [hv, Option.some_or, Option.some.injEq] at hmd5
      exact hmd5
  · intro h
    refine ⟨closeDoc_id hid, ⟨BitVec.ofNat 64 data.length, ?_, ?_⟩,
      ⟨BitVec.ofNat 32 c, ?_, hsize⟩, ?_⟩
    · rw [closeDoc_length_field, h.length.lookup_or]
    · have := h.length_lt
      rw [BitVec.toInt_eq_toNat_of_lt (by rw [BitVec.toNat_ofNat]; omega), BitVec.toNat_ofNat]
      omega
    · rw [closeDoc_chunkSize, h.chunkSize.lookup_or]
    · rw [closeDoc_md5, h.md5.lookup_or]

/-! ## When a close keeps its promise -/

/-- The last chunk is shorter than the others and its insert succeeds.  So does that of the
metadata, only if there is some that allows for the fields of the file. -/
structure ClosesWell (md5 : Bytes → CString) (fate : Nat → Except Errno Unit) (c : Nat)
    (data : Bytes) (metadata : Option Bson) (id : Oid) (u : Ledger) : Prop where
  uneven : data.length % c ≠ 0
  small : data.length % c + 49 < 2147483648
  chunk : fate u.tries = .ok ()
  metadata : fate (u.tries + 1) = .ok () → ∃ b d, metadata = some b ∧ b.Encodes d ∧
    d.AllowsFile c data (md5 data) ∧
    (closeDoc d id (md5 data) c data.length u.time).encode.length < 2147483648

/-- A stream that took these bytes. -/
structure Filled (gfs : MongoSyncGridfs) (metadata : Option Bson) (data : Bytes) (l : Ledger)
    (w : GridfsWriter) (u : Ledger) (blocks : List Bytes) : Prop where
  holds : w.Holds blocks
  chunkSize : w.chunkSize = gfs.chunkSize
  room : w.buffer.length < w.chunkSize
  bytes : blocks.flatten ++ w.buffer = data
  inserts : u.inserts = l.inserts ++ chunkEntries w.id 0 blocks
  opened : ∃ copy copy', reopen metadata = .ok copy ∧ ChoosesId l metadata copy w.id copy' ∧
    w.metadata = (bsonFinish copy').2

section Writes

variable {outcome : Outcome} {gfs : MongoSyncGridfs} {metadata : Option Bson} {l l₁ u : Ledger}

/-- Writing nothing fails. -/
theorem ne_nil_of_writeAll {stream : MongoSyncGridfsStream} {ps : List Bytes}
    {stream' : MongoSyncGridfsStream} {l : Ledger}
    (h : ((writeAll stream ps).run (Ledger.serve outcome)).exec l = (.ok (.ok (), stream'), u)) :
    ∀ p ∈ ps, p ≠ [] := by
  induction ps generalizing stream l with
  | nil => exact fun p hp => absurd hp List.not_mem_nil
  | cons q ps ih =>
      obtain ⟨⟨r, s⟩, l₁, hwrite, hrest⟩ := exec_run_bind_eq_ok.mp h
      have hq : q ≠ [] := by
        intro hq
        subst hq
        cases stream with
        | reader r' =>
            cases hwrite
            cases hrest
        | writer w =>
            cases hwrite
            cases hrest
      intro p hp
      rcases List.mem_cons.mp hp with rfl | hp
      · exact hq
      · cases r with
        | error e => cases hrest
        | ok v => exact ih hrest p hp

/-- Successful writes fill a new stream. -/
theorem filled_of_writeAll {w₀ w : GridfsWriter} {ps : List Bytes}
    (hnew : ((mongoSyncGridfsStreamNew gfs metadata).run (Ledger.serve outcome)).exec l
      = (.ok (.ok (.writer w₀)), l₁))
    (hwrites : ((writeAll (.writer w₀) ps).run (Ledger.serve outcome)).exec l₁
      = (.ok (.ok (), .writer w), u)) (hps : ps.flatten ≠ []) :
    ∃ blocks, Filled gfs metadata ps.flatten l w u blocks := by
  obtain ⟨rfl, id, copy, copy', hcopy, hid, hw⟩ := exec_streamNew hnew
  cases hw
  obtain ⟨r, w', u', blocks, taken, hrun, hwrote⟩ := GridfsWriter.exec_writeAll outcome
    (newWriter_holds gfs id (bsonFinish copy').2) (ne_nil_of_writeAll hwrites) l₁
  rw [hrun] at hwrites
  cases hwrites
  obtain ⟨rfl, hroom⟩ := hwrote.done rfl
  have hsame := hwrote.same
  refine ⟨blocks, hwrote.holds, hsame.chunkSize, hroom hps, hwrote.bytes, ?_, copy, copy', hcopy, ?_,
    hsame.metadata⟩
  · rw [hwrote.inserts, hsame.id]
    rfl
  · rw [hsame.id]
    exact hid

end Writes

/-! ## The verdict -/

section Verdict

variable {md5 : Bytes → CString} {fate : Nat → Except Errno Unit} {gfs : MongoSyncGridfs}
  {metadata : Option Bson} {data : Bytes} {l u : Ledger} {w : GridfsWriter} {blocks : List Bytes}

/-- The buffer holds what the full chunks leave. -/
theorem Filled.buffer_length (h : Filled gfs metadata data l w u blocks) :
    w.buffer.length = data.length % gfs.chunkSize := by
  have hfull := length_flatten_full h.holds.full
  rw [h.chunkSize] at hfull
  have hroom := h.room
  rw [h.chunkSize] at hroom
  rw [← h.bytes, List.length_append, hfull, Nat.mul_comm, Nat.mul_add_mod, Nat.mod_eq_of_lt hroom]

/-- The chunks of the file are the full ones and what is in the buffer. -/
theorem Filled.pieces_eq (h : Filled gfs metadata data l w u blocks) (hbuf : w.buffer ≠ []) :
    pieces w.chunkSize data = blocks ++ [w.buffer] := by
  rw [← h.bytes, pieces_flatten_append h.holds.pos h.holds.full,
    pieces_short hbuf h.holds.buffer_le]

/-- Without metadata there is no file. -/
theorem not_storedFile {id : Oid} {c : Nat} {sum : CString} {v : Ledger} (h : v.files = l.files) :
    ¬ l.StoredFile v id c data sum := by
  intro hstored
  obtain ⟨b, d, hfile, -⟩ := hstored.file
  rw [h] at hfile
  have := congrArg List.length hfile
  simp at this

theorem Filled.files_eq (h : Filled gfs metadata data l w u blocks) : u.files = l.files := by
  simp [Ledger.files, h.inserts, chunkEntries, List.filter_map, Function.comp_def]

/-- The file is stored once its last chunk and a document that describes it are inserted. -/
theorem Filled.storedFile_iff (md5 : Bytes → CString) (h : Filled gfs metadata data l w u blocks)
    (hbuf : w.buffer ≠ []) (doc : Option Bson) :
    l.StoredFile ((u.afterFlush w).note .files doc (.ok ())) w.id w.chunkSize data (md5 data)
      ↔ ∃ b d, doc = some b ∧ b.Encodes d ∧ d.Describes w.id w.chunkSize data (md5 data) := by
  have hfiles : ((u.afterFlush w).note .files doc (.ok ())).files = l.files ++ [doc] := by
    rw [← h.files_eq]
    simp [Ledger.files, Ledger.note, Ledger.afterFlush]
  have hchunks : ((u.afterFlush w).note .files doc (.ok ())).chunks
      = l.chunks ++ chunkSequence w.id (pieces w.chunkSize data) := by
    have hinserts : (u.afterFlush w).inserts
        = l.inserts ++ chunkEntries w.id 0 (pieces w.chunkSize data) := by
      show u.inserts ++ [_] = _
      rw [h.inserts, h.pieces_eq hbuf, chunkEntries_append, Nat.zero_add, List.append_assoc,
        h.holds.count]
      rfl
    have hnote : ((u.afterFlush w).note .files doc (.ok ())).chunks = (u.afterFlush w).chunks := by
      simp [Ledger.chunks, Ledger.note]
    rw [hnote, Ledger.chunks_append hinserts]
    rfl
  constructor
  · intro hstored
    obtain ⟨b, d, hfile, hb, hd⟩ := hstored.file
    rw [hfiles] at hfile
    exact ⟨b, d, List.singleton_inj.mp (List.append_cancel_left hfile), hb, hd⟩
  · rintro ⟨b, d, rfl, hb, hd⟩
    exact ⟨hchunks, b, d, hfiles, hb, hd⟩

/-- The writer that is closed has the data in its checksum. -/
theorem Filled.checksum_eq (h : Filled gfs metadata data l w u blocks) :
    w.afterFlush.checksum = ⟨data, false⟩ := by
  show gChecksumUpdate w.checksum w.buffer = _
  rw [h.holds.checksum_eq, ← h.bytes]
  rfl

theorem Filled.length_eq (h : Filled gfs metadata data l w u blocks) : w.length = data.length := by
  rw [h.holds.length_eq, h.bytes]

/-- The metadata a close inserts. -/
theorem Filled.closing_doc (md5 : Bytes → CString) (h : Filled gfs metadata data l w u blocks)
    (hdata : data ≠ []) {b : Bson} {d : Doc} (hb : b.Encodes d) (hmeta : metadata = some b) :
    (d.withId w.id).lookup idKey = some (.oid w.id) ∧
      ∃ front, reopen w.metadata = .ok front ∧
        (closeMeta md5 w.afterFlush u.time front
            = some ⟨(closeDoc d w.id (md5 data) gfs.chunkSize data.length u.time).encode, true⟩ ∨
          closeMeta md5 w.afterFlush u.time front = none ∧
            ¬ (closeDoc d w.id (md5 data) gfs.chunkSize data.length u.time).encode.length
              < 2147483648) := by
  obtain ⟨copy, copy', hcopy, hid, hw⟩ := h.opened
  rw [hmeta] at hcopy hid
  obtain ⟨hfinish, hlookup⟩ := newMetadata hb hcopy hid
  rw [hw, hfinish]
  refine ⟨hlookup, ?_⟩
  have hlen : w.afterFlush.length ≠ 0 := by
    show w.length ≠ 0
    rw [h.length_eq]
    exact Nat.ne_of_gt (List.length_pos_iff.mpr hdata)
  by_cases hsmall : (d.withId w.id).encode.length < 2147483648
  · obtain ⟨front, hfront, hbuilds⟩ := builds_reopen
      (show Bson.Encodes ⟨(d.withId w.id).encode, true⟩ (d.withId w.id) from ⟨rfl, rfl, hsmall⟩)
    refine ⟨front, hfront, .inl ?_⟩
    rw [closeMeta_eq md5 u.time hbuilds hlen, h.checksum_eq]
    show some (Bson.mk ((d.withId w.id).append
      (closeFields (md5 data) w.chunkSize w.length u.time)).encode true) = _
    rw [h.chunkSize, h.length_eq]
    rfl
  · refine ⟨none, reopen_large (by omega) ?_, .inr ⟨closeMeta_none md5 _ _, ?_⟩⟩
    · have hd := hb.small
      rw [hb.data_eq, Doc.encode_length] at hd
      rw [Doc.encode_length, Doc.withId]
      split
      next =>
        have hkey : idKey.length = 3 := by decide
        rw [Doc.elems_snoc, List.length_append, element_length, Value.encode, w.id.length_eq, hkey]
        omega
      next => omega
    · rw [closeDoc, Doc.encode_length, Doc.elems_append, List.length_append]
      rw [Doc.encode_length] at hsmall
      omega

/-- Without metadata there is no document to insert. -/
theorem Filled.closing_none (h : Filled gfs none data l w u blocks) :
    reopen w.metadata = .ok none := by
  obtain ⟨copy, copy', hcopy, hid, hw⟩ := h.opened
  have hnone : copy = none := by
    cases hcopy
    rfl
  subst hnone
  rw [hw]
  cases hid <;> rfl

/-- The fate of the last chunk. -/
theorem Filled.chunk_outcome (fate : Nat → Except Errno Unit)
    (h : Filled gfs metadata data l w u blocks) (hbuf : w.buffer ≠ []) :
    insertOutcome fate u.tries (chunkBson w.id w.currentChunk w.buffer)
      = if data.length % gfs.chunkSize + 49 < 2147483648 then fate u.tries else .error .EINVAL := by
  have hlt : w.buffer.length < 2147483648 := by
    have := gfs.chunkSize_lt
    have := h.holds.buffer_le
    have := h.chunkSize
    omega
  have hsize := bsonSize_chunkBson w.id w.currentChunk hbuf hlt
  rw [h.buffer_length] at hsize
  rw [insertOutcome]
  by_cases hsmall : data.length % gfs.chunkSize + 49 < 2147483648
  · rw [if_pos hsmall, if_neg (fun hle => hsize.mp hle hsmall)]
  · rw [if_neg hsmall, if_pos (hsize.mpr hsmall)]

/-- A close that ends without metadata breaks its promise. -/
theorem not_closesStored {stream : Option MongoSyncGridfsStream} {v : Ledger}
    (hrun : ((mongoSyncGridfsStreamClose md5 (.writer w)).run
      (Ledger.serve (insertOutcome fate))).exec u = (.ok (.ok (), stream), v))
    (hfiles : v.files = l.files) : ¬ ClosesStored md5 fate l data w u := by
  rintro ⟨r, stream', v', hrun', hstored, -⟩
  rw [hrun] at hrun'
  cases hrun'
  exact not_storedFile hfiles (hstored rfl)

/-- What is left once the last chunk is inserted. -/
theorem Filled.closesStored_iff (h : Filled gfs metadata data l w u blocks)
    (hbuf : w.buffer ≠ [])
    (hchunk : insertOutcome fate u.tries (chunkBson w.id w.currentChunk w.buffer) = .ok ())
    {front : Option Bson} (hfront : reopen w.metadata = .ok front) :
    ClosesStored md5 fate l data w u ↔
      (fate u.tries = .ok () → fate (u.tries + 1) = .ok () → ∃ b d,
        closeMeta md5 w.afterFlush u.time front = some b ∧ b.Encodes d ∧
          d.Describes w.id w.chunkSize data (md5 data)) := by
  obtain ⟨stream, hrun⟩ := exec_close_meta md5 hbuf hchunk hfront
  have hiff := h.storedFile_iff md5 hbuf (closeMeta md5 w.afterFlush u.time front)
  have htries : ∀ r, ((u.afterFlush w).note .files
      (closeMeta md5 w.afterFlush u.time front) r).tries = u.tries + 2 := by
    intro r
    cases r <;> rfl
  have hissued : (∀ n, u.tries ≤ n → n < u.tries + 2 → fate n = .ok ()) ↔
      fate u.tries = .ok () ∧ fate (u.tries + 1) = .ok () := by
    constructor
    · exact fun hall => ⟨hall _ (Nat.le_refl _) (by omega), hall _ (by omega) (by omega)⟩
    · rintro ⟨h₀, h₁⟩ n hlo hhi
      obtain rfl | rfl : n = u.tries ∨ n = u.tries + 1 := by omega
      · exact h₀
      · exact h₁
  generalize hr : insertOutcome fate (u.tries + 1) (closeMeta md5 w.afterFlush u.time front) = r
    at hrun
  constructor
  · rintro ⟨r', stream', v, hrun', hstored, htrue⟩ h₀ h₁
    rw [hrun] at hrun'
    cases hrun'
    rw [htries, hissued] at htrue
    have hok := htrue ⟨h₀, h₁⟩
    rw [hok] at hstored
    exact hiff.mp (hstored rfl)
  · intro hdoc
    refine ⟨r, stream, _, hrun, ?_, ?_⟩
    · intro hok
      subst hok
      have hfate : fate (u.tries + 1) = .ok () := by
        rw [insertOutcome] at hr
        split at hr
        next => cases hr
        next => exact hr
      have hfate₀ : fate u.tries = .ok () := by
        rw [insertOutcome] at hchunk
        split at hchunk
        next => cases hchunk
        next => exact hchunk
      exact hiff.mpr (hdoc hfate₀ hfate)
    · rw [htries, hissued]
      rintro ⟨h₀, h₁⟩
      obtain ⟨b, d, hb, hbd, -⟩ := hdoc h₀ h₁
      rw [← hr, hb, insertOutcome, bsonSize_finished hbd.finished hbd.small, hbd.data_eq,
        Doc.encode_length, if_neg (by omega), h₁]

end Verdict

/-- A close keeps its promise exactly if the file does not end with a full chunk, the last
chunk is inserted, and the metadata, if its insert is to succeed, allows for the fields of
the file. -/
theorem close_stored_iff (md5 : Bytes → CString) (fate : Nat → Except Errno Unit)
    (gfs : MongoSyncGridfs) (metadata : Option Bson)
    (hmeta : ∀ b, metadata = some b → ∃ d, b.Encodes d) (ps : List Bytes) (hps : ps.flatten ≠ [])
    (l l₁ u : Ledger) (w₀ w : GridfsWriter)
    (hnew : ((mongoSyncGridfsStreamNew gfs metadata).run
      (Ledger.serve (insertOutcome fate))).exec l = (.ok (.ok (.writer w₀)), l₁))
    (hwrites : ((writeAll (.writer w₀) ps).run (Ledger.serve (insertOutcome fate))).exec l₁
      = (.ok (.ok (), .writer w), u)) :
    ClosesStored md5 fate l ps.flatten w u ↔
      ClosesWell md5 fate gfs.chunkSize ps.flatten metadata w.id u := by
  obtain ⟨blocks, h⟩ := filled_of_writeAll hnew hwrites hps
  generalize ps.flatten = data at hps h
  have hlen := h.buffer_length
  by_cases hbuf : w.buffer = []
  · -- the file ends with a full chunk
    have hmod : data.length % gfs.chunkSize = 0 := by
      rw [← hlen, hbuf]
      rfl
    constructor
    · intro hclose
      exact absurd hclose (not_closesStored (exec_close_nil md5 hbuf) h.files_eq)
    · exact fun hwell => absurd hmod hwell.uneven
  have hmod : data.length % gfs.chunkSize ≠ 0 := by
    rw [← hlen]
    exact Nat.ne_of_gt (List.length_pos_iff.mpr hbuf)
  have hchunk := h.chunk_outcome fate hbuf
  cases hout : insertOutcome fate u.tries (chunkBson w.id w.currentChunk w.buffer) with
  | error e =>
      constructor
      · intro hclose
        exact absurd hclose (not_closesStored (exec_close_failed md5 hbuf hout) h.files_eq)
      · intro hwell
        rw [hout, if_pos hwell.small, hwell.chunk] at hchunk
        cases hchunk
  | ok v =>
      rw [hout] at hchunk
      have hsmall : data.length % gfs.chunkSize + 49 < 2147483648 := by
        by_contra hlarge
        rw [if_neg hlarge] at hchunk
        cases hchunk
      rw [if_pos hsmall] at hchunk
      cases hm : metadata with
      | none =>
          subst hm
          rw [h.closesStored_iff hbuf hout h.closing_none, closeMeta_none]
          constructor
          · intro hdoc
            refine ⟨hmod, hsmall, hchunk.symm, fun h₁ => ?_⟩
            obtain ⟨b, d, hb, -⟩ := hdoc hchunk.symm h₁
            cases hb
          · intro hwell h₀ h₁
            obtain ⟨b, d, hb, -⟩ := hwell.metadata h₁
            cases hb
      | some b =>
          obtain ⟨d, hbd⟩ := hmeta b hm
          obtain ⟨hid, front, hfront, hdoc⟩ := h.closing_doc md5 hps hbd hm
          have hdescribes : (closeDoc d w.id (md5 data) gfs.chunkSize data.length u.time).Describes
              w.id gfs.chunkSize data (md5 data) ↔ d.AllowsFile gfs.chunkSize data (md5 data) :=
            closeDoc_describes hid gfs.chunkSize_lt
          rw [h.closesStored_iff hbuf hout hfront, h.chunkSize]
          constructor
          · intro hfile
            refine ⟨hmod, hsmall, hchunk.symm, fun h₁ => ?_⟩
            obtain ⟨b', d', hb', hbd', hd'⟩ := hfile hchunk.symm h₁
            rcases hdoc with hsome | ⟨hnone, -⟩
            · rw [hsome] at hb'
              cases hb'
              have hfits := hbd'.small
              have henc : Bson.Encodes ⟨_, true⟩ _ := ⟨rfl, rfl, hfits⟩
              rw [hbd'.unique henc, hdescribes] at hd'
              exact ⟨b, d, rfl, hbd, hd', hfits⟩
            · rw [hnone] at hb'
              cases hb'
          · intro hwell _ h₁
            obtain ⟨b', d', hb', hbd', hallows, hfits⟩ := hwell.metadata h₁
            cases hb'
            rw [hbd'.unique hbd] at hallows hfits
            rcases hdoc with hsome | ⟨-, hlarge⟩
            · exact ⟨_, _, hsome, ⟨rfl, rfl, hfits⟩, hdescribes.mpr hallows⟩
            · exact absurd hfits hlarge

/-- The empty document. -/
def emptyBson : Bson := ⟨Doc.nil.encode, true⟩

/-- Three bytes in chunks of two are stored: a full chunk and a part of one. -/
theorem close_stored_parts :
    ∃ w u, ((writeAll (.writer (newWriter smallGridfs smallOid
        (some ⟨(Doc.nil.withId smallOid).encode, true⟩))) [[1], [2, 3]]).run
          (Ledger.serve (insertOutcome fun _ => .ok ()))).exec freshLedger
            = (.ok (.ok (), .writer w), u) ∧
      u.chunks.length = 1 ∧ w.buffer = [3] ∧
      ClosesStored CString.ofBytes (fun _ => .ok ()) freshLedger [1, 2, 3] w u := by
  refine ⟨_, _, rfl, rfl, rfl, ?_⟩
  refine (close_stored_iff CString.ofBytes (fun _ => .ok ()) smallGridfs (some emptyBson)
    (fun b hb => ?_) [[1], [2, 3]] (by decide) freshLedger freshLedger _ _ _ rfl rfl).mpr ?_
  · cases hb
    exact ⟨.nil, rfl, rfl, by decide⟩
  · refine ⟨by decide, by decide, rfl, fun _ => ⟨emptyBson, .nil, rfl, ⟨rfl, rfl, by decide⟩, ?_, ?_⟩⟩
    · exact ⟨by decide, (fun v hv => by cases hv), (fun v hv => by cases hv),
        (fun v hv => by cases hv)⟩
    · decide

/-- Two bytes in chunks of two are not, although no insert fails. -/
theorem close_full_chunk :
    ∃ w₀ w u,
      ((mongoSyncGridfsStreamNew smallGridfs (some emptyBson)).run
        (Ledger.serve (insertOutcome fun _ => .ok ()))).exec freshLedger
          = (.ok (.ok (.writer w₀)), freshLedger) ∧
      ((writeAll (.writer w₀) [[1, 2]]).run
        (Ledger.serve (insertOutcome fun _ => .ok ()))).exec freshLedger
          = (.ok (.ok (), .writer w), u) ∧
      ¬ ClosesStored CString.ofBytes (fun _ => .ok ()) freshLedger [1, 2] w u :=
  ⟨_, _, _, rfl, rfl, not_closesStored rfl rfl⟩

end LibMongo
