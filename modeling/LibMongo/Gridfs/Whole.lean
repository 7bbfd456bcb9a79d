import LibMongo.Gridfs.Sharing

/-!
# Files are whole

Any number of clients upload files, write streams, close them and remove files on one store.
Their calls are interleaved in any way, and any of their inserts and deletes may fail
(`Shared.Answers`).  At no moment is there a file whose data is not there as well
(`files_whole`).

`GridfsWriter.Standing` is what an open stream keeps: the blocks it has inserted are full
ones, and with the buffer they are as long as the stream.  After a close that inserted the
last chunk but not the metadata there is one block more.  Such a stream inserts nothing any
more, because the number of its next chunk is taken.
-/

namespace LibMongo

open Bytes Interaction

/-! ## Calls -/

section Calls

variable {g : Share} {id : Oid} {blocks : List Bytes}

@[simp] theorem Share.put_writing_self (g : Share) (id : Oid) (blocks : List Bytes) :
    (g.put id blocks).writing id = some blocks := by
  simp [put]

theorem Share.put_writing_of_ne {id' : Oid} (hne : id' ≠ id) (g : Share) (blocks : List Bytes) :
    (g.put id blocks).writing id' = g.writing id' := by
  simp [put, hne]

@[simp] theorem Share.put_put (g : Share) (id : Oid) (blocks blocks' : List Bytes) :
    (g.put id blocks).put id blocks' = g.put id blocks' := by
  simp [put]

/-- A file of which nothing new is known. -/
theorem Share.put_self (h : g.writing id = some blocks) : g.put id blocks = g := by
  simp [put, ← h]

theorem Share.letGo_writing_of_ne {id' : Oid} (hne : id' ≠ id) (g : Share) :
    (g.letGo id).writing id' = g.writing id' := by
  simp [letGo, hne]

theorem chunkDoc_inj {id id' : Oid} {n n' : Nat} {data data' : Bytes}
    (h : chunkDoc id n data = chunkDoc id' n' data') :
    id = id' ∧ BitVec.ofNat 64 n = BitVec.ofNat 64 n' ∧ data = data' := by
  simp only [chunkDoc, Doc.cons.injEq, Value.oid.injEq, Value.int64.injEq, Value.binary.injEq,
    true_and, and_true] at h
  exact h

/-- What becomes of the insert of a chunk: it is the next one of its file, or nothing was
inserted. -/
def ChunkWritten (g : Share) (id : Oid) (blocks : List Bytes) (n : Nat) (data : Bytes) :
    Except Errno Unit → Share → Prop
  | .ok (), g' => n = blocks.length ∧ g' = g.put id (blocks ++ [data])
  | .error _, g' => g' = g

/-- The number of a chunk is the next one, or the one before. -/
theorem obeys_insertChunk {n : Nat} {data : Bytes} (hid : g.writing id = some blocks)
    (hn : blocks.length = n ∨ blocks.length = n + 1) (hne : data ≠ []) :
    (Grid.insert .chunks (chunkBson id n data)).Obeys gridDiscipline
      (ChunkWritten g id blocks n data) g := by
  refine ⟨?_, ?_⟩
  · intro d hd
    rw [chunkBson_eq id n hne] at hd
    exact ⟨id, n, data, blocks, taken_encode hd, hid, by omega⟩
  · intro r g' hafter
    cases r with
    | error e => exact hafter
    | ok u =>
        obtain ⟨id', data', blocks', htaken, hid', rfl⟩ := hafter
        rw [chunkBson_eq id n hne] at htaken
        obtain ⟨rfl, hnum, rfl⟩ := chunkDoc_inj (taken_encode htaken)
        rw [hid] at hid'
        cases hid'
        refine ⟨?_, rfl⟩
        rcases hn with hn | hn
        · exact hn.symm
        · -- the server has a chunk of this number
          rw [hn] at hnum
          have hsucc := congrArg BitVec.toNat hnum
          simp only [BitVec.toNat_ofNat] at hsucc
          omega

end Calls

/-! ## Metadata -/

/-- The keys of a GridFS that metadata must not have. -/
def reservedKeys : List CString := [lengthKey, chunkSizeKey, uploadDateKey, md5Key]

/-- Metadata that leaves the fields of a file alone. -/
def Doc.Plain (d : Doc) : Prop := ∀ key ∈ reservedKeys, d.lookup key = none

section Metadata

variable {m : Doc} {id : Oid} {md5 : CString} {c length : Nat} {tv : GTimeVal}

theorem toInt_ofNat64 {n : Nat} (h : n < 2 ^ 63) : (BitVec.ofNat 64 n).toInt = n := by
  rw [BitVec.toInt_eq_toNat_of_lt (by rw [BitVec.toNat_ofNat]; omega), BitVec.toNat_ofNat]
  omega

theorem toInt_ofNat32 {n : Nat} (h : n < 2147483648) : (BitVec.ofNat 32 n).toInt = n := by
  rw [BitVec.toInt_eq_toNat_of_lt (by rw [BitVec.toNat_ofNat]; omega), BitVec.toNat_ofNat]
  omega

/-- The fields of a file behind the metadata of the caller. -/
theorem Doc.Plain.isFile (h : m.Plain) {fields : Doc}
    (hid : (m.append fields).lookup idKey = some (.oid id))
    (hlength : fields.lookup lengthKey = some (.int64 (BitVec.ofNat 64 length)))
    (hsize : fields.lookup chunkSizeKey = some (.int32 (BitVec.ofNat 32 c)))
    (hlt : length < 2 ^ 63) (hc : c < 2147483648) : (m.append fields).IsFile id length c where
  id := hid
  length := by
    refine ⟨_, ?_, toInt_ofNat64 hlt⟩
    rw [Doc.lookup_append, h lengthKey (by simp [reservedKeys]), hlength]
    rfl
  chunkSize := by
    refine ⟨_, ?_, toInt_ofNat32 hc⟩
    rw [Doc.lookup_append, h chunkSizeKey (by simp [reservedKeys]), hsize]
    rfl

end Metadata

/-- What becomes of the insert of metadata: the file is written, or nothing was inserted. -/
def FileWritten (g : Share) (id : Oid) : Except Errno Unit → Share → Prop
  | .ok (), g' => g' = g.letGo id
  | .error _, g' => g' = g

/-- The chunks are there. -/
theorem obeys_insertFile {g : Share} {id : Oid} {length c : Nat} {blocks : List Bytes}
    {b : Option Bson} (hid : g.writing id = some blocks) (hfills : Fills c length blocks)
    (hb : ∀ d, Taken b d → d.IsFile id length c) :
    (Grid.insert .files b).Obeys gridDiscipline (FileWritten g id) g := by
  refine ⟨?_, ?_⟩
  · intro d hd
    exact ⟨id, length, c, blocks, hid, hb d hd, hfills⟩
  · intro r g' hafter
    cases r with
    | error e => exact hafter
    | ok u =>
        obtain ⟨d, id', hd, hid', rfl⟩ := hafter
        rw [(hb d hd).id] at hid'
        cases hid'
        rfl

/-! ## Uploads -/

/-- A file in pieces. -/
theorem fills_pieces {c : Nat} (hc : 0 < c) (data : Bytes) :
    Fills c data.length (pieces c data) where
  pos := hc
  count := pieces_length data
  full := by
    obtain ⟨ps, r, rfl, hps, hr⟩ := exists_pieces hc data
    rw [pieces_flatten_append hc hps]
    by_cases hne : r = []
    · rw [hne, pieces_nil hc, List.append_nil]
      exact fun p hp => hps p (List.dropLast_subset ps hp)
    · rw [pieces_short hne (Nat.le_of_lt hr), List.dropLast_concat]
      exact hps
  sum := by rw [← List.length_flatten, flatten_pieces hc]

section Upload

variable {g : Share} {id : Oid}

/-- The loop inserts the pieces behind those that are there. -/
theorem obeys_insertChunks (gfs : MongoSyncGridfs) (fuel : Nat) {n : Nat} (rest : Bytes)
    (chk : GChecksum) {blocks : List Bytes} (hid : g.writing id = some blocks)
    (hn : blocks.length = n) :
    (insertChunks gfs id fuel n rest chk).Obeys gridDiscipline (fun r g' =>
      ∃ blocks', g' = g.put id blocks' ∧
        ∀ chk', r = .ok chk' → blocks' = blocks ++ pieces gfs.chunkSize rest) g := by
  induction fuel generalizing n rest chk blocks g with
  | zero => trivial
  | succ fuel ih =>
      by_cases hrest : rest = []
      · subst hrest
        rw [insertChunks, if_pos rfl]
        refine ⟨blocks, ?_, fun chk' _ => ?_⟩
        · exact (Share.put_self hid).symm
        · rw [pieces_nil gfs.chunkSize_pos, List.append_nil]
      · rw [insertChunks, if_neg hrest]
        obtain ⟨htake, hdrop⟩ := take_csize gfs rest
        have hpos := gfs.chunkSize_pos
        have hne : rest.take gfs.chunkSize ≠ [] := by
          intro hnil
          rcases List.take_eq_nil_iff.mp hnil with hzero | hnil
          · exact absurd hzero (Nat.ne_of_gt hpos)
          · exact hrest hnil
        simp only [htake, hdrop]
        refine (obeys_insertChunk hid (.inl hn) hne).bind ?_
        intro r g' hwritten
        cases r with
        | error e =>
            refine ⟨blocks, ?_, fun chk' hr => by cases hr⟩
            rw [Share.put_self hid]
            exact hwritten
        | ok u =>
            obtain ⟨-, rfl⟩ := hwritten
            refine (ih _ _ (Share.put_writing_self _ _ _) (by simp [hn])).mono ?_
            rintro r' g' ⟨blocks', rfl, hblocks⟩
            refine ⟨blocks', by simp, fun chk' hr => ?_⟩
            rw [hblocks chk' hr, pieces_eq_cons hpos hrest]
            simp

/-- An upload writes one new file and leaves those alone that are written already. -/
theorem obeys_upload (md5 : Bytes → CString) {gfs : MongoSyncGridfs} {metadata : Option Bson}
    {data : Option Bytes}
    (hmeta : ∀ b, metadata = some b → ∃ m, b.Encodes m ∧ m.Plain ∧ m.lookup idKey = none)
    (hdata : ∀ bytes, data = some bytes → bytes.length < 2 ^ 63) :
    (mongoSyncGridfsChunkedFileNewFromBuffer md5 gfs metadata data).Obeys gridDiscipline
      (fun _ g' => ∀ id, g.writing id ≠ none → g'.writing id = g.writing id) g := by
  have hsame : ∀ id, g.writing id ≠ none → g.writing id = g.writing id := fun _ _ => rfl
  unfold mongoSyncGridfsChunkedFileNewFromBuffer
  cases data with
  | none => exact hsame
  | some data =>
      by_cases hne : data = []
      · subst hne
        exact hsame
      · dsimp only
        rw [if_neg hne]
        rw [obeys_perform_bind]
        refine ⟨trivial, ?_⟩
        intro oid g₁ hoid
        cases oid with
        | none =>
            obtain rfl : g₁ = g := hoid
            exact hsame
        | some oid =>
            obtain ⟨hnew, rfl⟩ := hoid
            have hothers : ∀ blocks id, g.writing id ≠ none →
                (g.put oid blocks).writing id = g.writing id := by
              intro blocks id hid
              apply Share.put_writing_of_ne
              rintro rfl
              exact hid hnew
            have hloop := obeys_insertChunks gfs (data.length + 1) data gChecksumNew
              (Share.put_writing_self g oid []) rfl
            refine hloop.bind ?_
            rintro inserted g' ⟨blocks, rfl, hblocks⟩
            rw [Share.put_put]
            cases inserted with
            | error e => exact hothers blocks
            | ok chk =>
                obtain rfl : blocks = pieces gfs.chunkSize data := hblocks chk rfl
                refine Obeys.bind (P := fun front g' => g' = g.put oid (pieces gfs.chunkSize data) ∧
                  ∃ m, Builds front m ∧ m.Plain ∧ m.lookup idKey = none) ?_ ?_
                · cases metadata with
                  | none => exact ⟨rfl, .nil, builds_new 128, fun _ _ => rfl, rfl⟩
                  | some b =>
                      obtain ⟨m, hb, hm⟩ := hmeta b rfl
                      obtain ⟨copy, hcopy, hbuilds⟩ := builds_reopen hb
                      dsimp only
                      rw [hcopy]
                      exact ⟨rfl, m, hbuilds, hm⟩
                · rintro front g' ⟨rfl, m, hbuilds, hplain, hnone⟩
                  rw [obeys_perform_bind]
                  refine ⟨trivial, ?_⟩
                  rintro tv g' rfl
                  rw [obeys_perform_bind]
                  refine (obeys_insertFile (Share.put_writing_self _ _ _)
                    (fills_pieces gfs.chunkSize_pos data) ?_).bind ?_
                  · intro d hd
                    rw [uploadMeta_eq md5 gfs oid data.length tv chk hbuilds] at hd
                    cases taken_encode hd
                    refine hplain.isFile ?_ rfl rfl (hdata data rfl) gfs.chunkSize_lt
                    rw [Doc.lookup_append, hnone]
                    rfl
                  · intro stored g' hwritten
                    cases stored with
                    | error e =>
                        obtain rfl : g' = g.put oid (pieces gfs.chunkSize data) := hwritten
                        exact hothers _
                    | ok u =>
                        obtain rfl : g' = (g.put oid _).letGo oid := hwritten
                        refine obeys_ofExcept_bind fun c _ => obeys_ofExcept_bind fun id _ => ?_
                        refine obeys_ofExcept_bind fun p _ => obeys_ofExcept_bind fun sum _ => ?_
                        intro id hid
                        rw [Share.letGo_writing_of_ne, hothers _ id hid]
                        rintro rfl
                        exact hid hnew

end Upload

/-! ## Streams -/

/-- What an open stream keeps. -/
structure GridfsWriter.Standing (w : GridfsWriter) (blocks : List Bytes) : Prop where
  pos : 0 < w.chunkSize
  lt : w.chunkSize < 2147483648
  buffer_le : w.buffer.length ≤ w.chunkSize
  length_lt : w.length < 2 ^ 63
  length_eq : w.length = w.currentChunk * w.chunkSize + w.buffer.length
  full : ∀ p ∈ blocks.take w.currentChunk, p.length = w.chunkSize
  /-- Otherwise a close failed behind its last chunk. -/
  count : blocks.length = w.currentChunk ∨ blocks.length = w.currentChunk + 1 ∧ w.buffer ≠ []
  metadata : ∀ b, w.metadata = some b → ∃ d : Doc, b = ⟨d.encode, true⟩ ∧ d.encode.length < 4294967296 ∧
    d.Plain ∧ d.lookup idKey = some (.oid w.id)

/-- A call on a stream changes what its client knows of the file of the stream only.  If a
stream is left, it still stands. -/
structure Leaves (g : Share) (id : Oid) (left : Option GridfsWriter) (g' : Share) : Prop where
  others : ∀ id', id' ≠ id → g'.writing id' = g.writing id'
  stands : ∀ w, left = some w → w.id = id ∧ ∃ blocks, g'.writing id = some blocks ∧ w.Standing blocks

namespace GridfsWriter

variable {w : GridfsWriter} {blocks : List Bytes} {g : Share}

theorem Standing.fill (h : w.Standing blocks) {rest : Bytes} (hlt : w.length + rest.length < 2 ^ 63) :
    (w.fill rest).Standing blocks := by
  have hlen : (w.fill rest).length = w.length + w.room rest := by
    show w.length + (rest.take (w.room rest)).length = _
    rw [List.length_take, Nat.min_eq_left (w.room_le rest)]
  have hroom := w.room_le rest
  refine ⟨h.pos, h.lt, fill_buffer_le h.buffer_le, ?_, ?_, h.full, ?_, h.metadata⟩
  · omega
  · rw [hlen, fill_length, h.length_eq]
    exact Nat.add_assoc _ _ _
  · rcases h.count with hcount | ⟨hcount, hne⟩
    · exact .inl hcount
    · refine .inr ⟨hcount, ?_⟩
      rw [fill_buffer]
      simp [hne]

/-- A block goes into the store. -/
theorem Standing.flushed (h : w.Standing blocks) (hcount : w.currentChunk = blocks.length)
    (hfull : w.buffer.length = w.chunkSize) : w.flushed.Standing (blocks ++ [w.buffer]) := by
  refine ⟨h.pos, h.lt, Nat.zero_le _, h.length_lt, ?_, ?_, .inl ?_, h.metadata⟩
  · show w.length = (w.currentChunk + 1) * w.chunkSize + 0
    rw [h.length_eq, hfull, Nat.succ_mul, Nat.add_zero]
  · have hblocks := h.full
    rw [hcount, List.take_length] at hblocks
    intro p hp
    rcases List.mem_append.mp (List.mem_of_mem_take hp) with hp | hp
    · exact hblocks p hp
    · rw [List.mem_singleton.mp hp]
      exact hfull
  · show _ = w.currentChunk + 1
    rw [hcount, List.length_append, List.length_singleton]

theorem Standing.count' (h : w.Standing blocks) :
    blocks.length = w.currentChunk ∨ blocks.length = w.currentChunk + 1 :=
  h.count.imp_right And.left

/-- The stream as it was. -/
theorem Standing.leaves (h : w.Standing blocks) (hid : g.writing w.id = some blocks) :
    Leaves g w.id (some w) g := by
  refine ⟨fun _ _ => rfl, ?_⟩
  intro w' hw'
  cases hw'
  exact ⟨rfl, blocks, hid, h⟩

end GridfsWriter

section Streams

variable {w : GridfsWriter} {blocks : List Bytes} {g : Share}

theorem obeys_writeLoop (fuel : Nat) {rest : Bytes} (hid : g.writing w.id = some blocks)
    (hw : w.Standing blocks) (hlt : w.length + rest.length < 2 ^ 63) :
    (writeLoop fuel w rest).Obeys gridDiscipline (fun p g' => Leaves g w.id (some p.2) g') g := by
  induction fuel generalizing w rest blocks g with
  | zero => trivial
  | succ fuel ih =>
      by_cases hrest : rest = []
      · subst hrest
        rw [writeLoop, if_pos rfl]
        exact hw.leaves hid
      · rw [GridfsWriter.writeLoop_round hrest]
        have hfill := hw.fill hlt
        have hnext : (w.fill rest).length + (rest.drop (w.room rest)).length < 2 ^ 63 := by
          show w.length + (rest.take (w.room rest)).length + _ < _
          rw [Nat.add_assoc, ← List.length_append, List.take_append_drop]
          exact hlt
        by_cases hfull : (w.fill rest).buffer.length = (w.fill rest).chunkSize
        · rw [if_pos hfull]
          have hne : (w.fill rest).buffer ≠ [] := by
            rw [← List.length_pos_iff, hfull]
            exact hfill.pos
          refine (obeys_insertChunk hid hw.count' hne).bind ?_
          intro r g' hwritten
          cases r with
          | error e =>
              obtain rfl : g' = g := hwritten
              exact GridfsWriter.Standing.leaves (w := w.fill rest) hfill hid
          | ok u =>
              obtain ⟨hcount, rfl⟩ := hwritten
              refine (ih (Share.put_writing_self _ _ _) (hfill.flushed hcount hfull) hnext).mono ?_
              rintro p g' ⟨hothers, hstands⟩
              refine ⟨fun id hne => ?_, hstands⟩
              rw [hothers id hne]
              exact Share.put_writing_of_ne hne _ _
        · rw [if_neg hfull]
          exact ih (w := w.fill rest) hid hfill hnext

/-- With the buffer the blocks are the chunks of a file. -/
theorem GridfsWriter.Standing.fills (h : w.Standing blocks) (hcount : w.currentChunk = blocks.length)
    (hne : w.buffer ≠ []) : Fills w.chunkSize w.length (blocks ++ [w.buffer]) := by
  have hblocks := h.full
  rw [hcount, List.take_length] at hblocks
  have hpieces : pieces w.chunkSize (blocks.flatten ++ w.buffer) = blocks ++ [w.buffer] := by
    rw [pieces_flatten_append h.pos hblocks, pieces_short hne h.buffer_le]
  have hlength : (blocks.flatten ++ w.buffer).length = w.length := by
    rw [List.length_append, length_flatten_full hblocks, h.length_eq, hcount]
  rw [← hpieces, ← hlength]
  exact fills_pieces h.pos _

/-- What a close inserts is the metadata of the file. -/
theorem GridfsWriter.Standing.isFile (h : w.Standing blocks) (hne : w.buffer ≠ [])
    (md5 : Bytes → CString) {tv : GTimeVal} {front : Option Bson}
    (hfront : reopen w.metadata = .ok front) {d : Doc}
    (hd : Taken (closeMeta md5 w.afterFlush tv front) d) : d.IsFile w.id w.length w.chunkSize := by
  have hlength : w.afterFlush.length ≠ 0 := by
    have hbuffer := List.length_pos_iff.mpr hne
    have hlen := h.length_eq
    show w.length ≠ 0
    omega
  cases hmeta : w.metadata with
  | none =>
      rw [hmeta] at hfront
      cases hfront
      rw [closeMeta_none] at hd
      exact absurd hd not_taken_none
  | some b =>
      obtain ⟨m, rfl, hsmall, hplain, hid⟩ := h.metadata b hmeta
      rw [hmeta] at hfront
      rcases Nat.lt_or_ge m.encode.length 2147483648 with hfits | hlarge
      · obtain ⟨copy, hcopy, hbuilds⟩ := builds_reopen (b := ⟨m.encode, true⟩) ⟨rfl, rfl, hfits⟩
        rw [hcopy] at hfront
        cases hfront
        rw [closeMeta_eq md5 tv hbuilds hlength] at hd
        cases taken_encode hd
        refine hplain.isFile ?_ rfl rfl h.length_lt h.lt
        rw [Doc.lookup_append, hid]
        rfl
      · rw [reopen_large hlarge hsmall] at hfront
        cases hfront
        rw [closeMeta_none] at hd
        exact absurd hd not_taken_none

/-- Behind its last chunk the stream has no number for another one. -/
theorem GridfsWriter.Standing.spent (h : w.Standing blocks) (hcount : w.currentChunk = blocks.length)
    (hne : w.buffer ≠ []) (checksum : GChecksum) :
    GridfsWriter.Standing { w with checksum := checksum } (blocks ++ [w.buffer]) where
  pos := h.pos
  lt := h.lt
  buffer_le := h.buffer_le
  length_lt := h.length_lt
  length_eq := h.length_eq
  full := by
    have hblocks := h.full
    rw [hcount, List.take_length] at hblocks
    show ∀ p ∈ (blocks ++ [w.buffer]).take w.currentChunk, _
    rw [hcount, List.take_left]
    exact hblocks
  count := .inr ⟨by simp [hcount], hne⟩
  metadata := h.metadata

theorem obeys_closeFlush (hid : g.writing w.id = some blocks) (hw : w.Standing blocks) :
    (closeFlush w).Obeys gridDiscipline (fun p g' => p.1 = false ∧ g' = g ∨
      p = (true, w.afterFlush) ∧ w.buffer ≠ [] ∧ w.currentChunk = blocks.length ∧
        g' = g.put w.id (blocks ++ [w.buffer])) g := by
  by_cases hne : w.buffer = []
  · rw [closeFlush, if_pos hne]
    exact .inl ⟨rfl, rfl⟩
  · rw [closeFlush, if_neg hne]
    refine (obeys_insertChunk hid hw.count' hne).bind ?_
    intro r g' hwritten
    cases r with
    | error e => exact .inl ⟨rfl, hwritten⟩
    | ok u => exact .inr ⟨rfl, hne, hwritten⟩

theorem obeys_closeWriter (md5 : Bytes → CString) (hid : g.writing w.id = some blocks)
    (hw : w.Standing blocks) :
    (closeWriter md5 w).Obeys gridDiscipline (fun p g' => Leaves g w.id p.2 g') g := by
  refine (obeys_closeFlush hid hw).bind ?_
  rintro ⟨closed, w'⟩ g' (⟨rfl, rfl⟩ | ⟨hclosed, hne, hcount, rfl⟩)
  · exact ⟨fun _ _ => rfl, fun w' hw' => by cases hw'⟩
  · cases hclosed
    dsimp only
    rw [if_pos rfl, obeys_perform_bind]
    refine ⟨trivial, ?_⟩
    rintro tv g' rfl
    refine obeys_ofExcept_bind fun front hfront => ?_
    refine (obeys_insertFile (Share.put_writing_self _ _ _) (hw.fills hcount hne) fun d hd =>
      hw.isFile hne md5 hfront hd).bind ?_
    intro stored g' hwritten
    cases stored with
    | error e =>
        obtain rfl : g' = g.put w.id (blocks ++ [w.buffer]) := hwritten
        refine ⟨fun id hother => Share.put_writing_of_ne hother _ _, ?_⟩
        intro w' hw'
        cases hw'
        exact ⟨rfl, _, Share.put_writing_self _ _ _, hw.spent hcount hne _⟩
    | ok u =>
        obtain rfl : g' = (g.put w.id (blocks ++ [w.buffer])).letGo w.id := hwritten
        refine ⟨fun id hother => ?_, fun w' hw' => by cases hw'⟩
        rw [Share.letGo_writing_of_ne hother, Share.put_writing_of_ne hother]

theorem lookup_of_asOid {d : Doc} {key : CString} {id : Oid}
    (h : (d.lookup key).bind Value.asOid = some id) : d.lookup key = some (.oid id) := by
  obtain ⟨v, hv, ho⟩ := Option.bind_eq_some_iff.mp h
  rw [hv]
  cases v with
  | oid o =>
      cases ho
      rfl
  | _ => cases ho

/-- The metadata of a stream gives it this id. -/
def Names (metadata : Option Bson) (id : Oid) : Prop :=
  ∃ b d, metadata = some b ∧ b.Encodes d ∧ d.lookup idKey = some (.oid id)

theorem Names.unique {metadata : Option Bson} {id id' : Oid} (h : Names metadata id)
    (h' : Names metadata id') : id = id' := by
  obtain ⟨b, d, rfl, hd, hid⟩ := h
  obtain ⟨b', d', hb, hd', hid'⟩ := h'
  cases hb
  cases hd.unique hd'
  rw [hid] at hid'
  cases hid'
  rfl

/-- The id of a new stream is that of its metadata, or one nobody has. -/
theorem obeys_streamId (metadata copy : Option Bson) (g : Share) :
    (streamId metadata copy).Obeys gridDiscipline (fun r g' => match r with
      | .error _ => g' = g
      | .ok (id, copy') => ∃ l, ChoosesId l metadata copy id copy' ∧
          (bsonFind metadata (some idKey) ≠ .ok none ∧ g' = g ∨
            g.writing id = none ∧ g' = g.put id [])) g := by
  unfold streamId
  refine obeys_ofExcept_bind fun found hfind => ?_
  cases found with
  | none =>
      refine ⟨trivial, ?_⟩
      intro oid g' hoid
      cases oid with
      | none => exact hoid
      | some oid => exact ⟨⟨some oid, ⟨0, 0⟩, 0, []⟩, .new hfind rfl, .inr hoid⟩
  | some c =>
      refine obeys_ofExcept_bind fun oid hget => ?_
      cases oid with
      | none => rfl
      | some oid =>
          refine ⟨⟨none, ⟨0, 0⟩, 0, []⟩, .given hfind hget, .inl ⟨?_, rfl⟩⟩
          rw [hfind]
          exact fun hnone => by cases hnone

theorem Doc.Plain.withId {d : Doc} (h : d.Plain) (id : Oid) : (d.withId id).Plain := by
  intro key hkey
  rw [Doc.lookup_withId, h key hkey]
  rintro rfl
  revert hkey
  decide

theorem Doc.withId_encode_length (d : Doc) (id : Oid) :
    (d.withId id).encode.length ≤ d.encode.length + 17 := by
  rw [Doc.withId]
  split
  · have hkey : idKey.length = 3 := rfl
    simp [Doc.encode_length, Doc.elems_snoc, element_length, Value.encode, id.length_eq, hkey]
  · exact Nat.le_add_right _ _

/-- The metadata of a new stream has its id. -/
theorem metadata_of_chooses {l : Ledger} {metadata copy copy' : Option Bson} {id : Oid}
    (hmeta : ∀ b, metadata = some b → ∃ m, b.Encodes m ∧ m.Plain)
    (hcopy : reopen metadata = .ok copy) (hid : ChoosesId l metadata copy id copy') {b : Bson}
    (hb : (bsonFinish copy').2 = some b) : ∃ d : Doc, b = ⟨d.encode, true⟩ ∧
      d.encode.length < 4294967296 ∧ d.Plain ∧ d.lookup idKey = some (.oid id) := by
  cases metadata with
  | none =>
      cases hcopy
      cases hid with
      | new => cases hb
      | given => cases hb
  | some x =>
      obtain ⟨m, hm, hplain⟩ := hmeta x rfl
      obtain ⟨hfinish, hlookup⟩ := newMetadata hm hcopy hid
      rw [hfinish] at hb
      cases hb
      refine ⟨m.withId id, rfl, ?_, hplain.withId id, hlookup⟩
      have hlen := m.withId_encode_length id
      have hsmall := hm.small
      rw [hm.data_eq] at hsmall
      omega

/-- A new stream is empty. -/
theorem obeys_streamNew {gfs : MongoSyncGridfs} {metadata : Option Bson}
    (hmeta : ∀ b, metadata = some b → ∃ m, b.Encodes m ∧ m.Plain) :
    (mongoSyncGridfsStreamNew gfs metadata).Obeys gridDiscipline (fun r g' => match r with
      | .error _ => g' = g
      | .ok stream => ∃ w, stream = .writer w ∧ w.Standing [] ∧
          (Names metadata w.id ∧ g' = g ∨ g.writing w.id = none ∧ g' = g.put w.id [])) g := by
  unfold mongoSyncGridfsStreamNew
  refine obeys_ofExcept_bind fun copy hcopy => ?_
  refine (obeys_streamId metadata copy g).bind ?_
  intro r g' hr
  cases r with
  | error e => exact hr
  | ok p =>
      obtain ⟨id, copy'⟩ := p
      obtain ⟨l, hid, hshare⟩ := hr
      refine ⟨_, rfl, ?_, ?_⟩
      · refine ⟨gfs.chunkSize_pos, gfs.chunkSize_lt, Nat.zero_le _, ?_, ?_, ?_, .inl rfl, ?_⟩
        · exact Nat.two_pow_pos 63
        · show 0 = 0 * _ + 0
          rw [Nat.zero_mul]
        · exact fun p hp => absurd hp (by simp)
        · exact fun b hb => metadata_of_chooses hmeta hcopy hid hb
      · rcases hshare with ⟨hfound, rfl⟩ | hnew
        · refine .inl ⟨?_, rfl⟩
          cases hid with
          | new hnone => exact absurd hnone hfound
          | given hfind hget =>
              cases metadata with
              | none => cases hfind
              | some x =>
                  obtain ⟨m, hm, -⟩ := hmeta x rfl
                  have hoid := find_getOid hm idKey
                  rw [hfind, Program.ok_bind, hget, Except.ok.injEq] at hoid
                  exact ⟨x, m, rfl, hm, lookup_of_asOid hoid.symm⟩
        · exact .inr hnew

end Streams

/-! ## Removing -/

theorem obeys_list (query : Option Bson) {g : Share} :
    (mongoSyncGridfsList query).Obeys gridDiscipline (fun _ g' => g' = g) g := by
  unfold mongoSyncGridfsList
  rw [obeys_perform_bind]
  refine ⟨trivial, ?_⟩
  rintro r g' rfl
  cases r with
  | error e => exact ⟨trivial, fun _ _ h => h⟩
  | ok p => exact ⟨trivial, fun _ _ h => h⟩

theorem writing_of_data {g g' : Share} {c : MongoSyncCursor} {b : Option Bson}
    (h : g.after (.cursorGetData c) b g') : g'.writing = g.writing := by
  cases b with
  | none =>
      obtain rfl : g' = g := h
      rfl
  | some b =>
      obtain ⟨-, rfl⟩ := h
      rfl

/-- The chunks of a file are deleted when its metadata is. -/
theorem obeys_removeLoop (fuel : Nat) (fc : MongoSyncCursor) (g : Share) :
    (removeLoop fuel fc).Obeys gridDiscipline (fun _ g' => g'.writing = g.writing) g := by
  induction fuel generalizing fc g with
  | zero => trivial
  | succ fuel ih =>
      rw [removeLoop, obeys_perform_bind]
      refine ⟨trivial, ?_⟩
      rintro ⟨found, fc⟩ g' rfl
      cases found with
      | false =>
          refine ⟨trivial, ?_⟩
          rintro e g' rfl
          rfl
      | true =>
          dsimp only
          rw [Bool.not_true, if_neg Bool.false_ne_true, obeys_perform_bind]
          refine ⟨trivial, ?_⟩
          intro b g₁ hdata
          refine obeys_ofExcept_bind fun c hfind => ?_
          refine obeys_ofExcept_bind fun found hget => ?_
          cases found with
          | none =>
              refine ⟨trivial, ?_⟩
              rintro e g' rfl
              exact writing_of_data hdata
          | some oid =>
              have hknown : oid ∈ g₁.known := by
                cases b with
                | none =>
                    cases hfind
                    cases hget
                | some b =>
                    obtain ⟨⟨d, hd⟩, rfl⟩ := hdata
                    have hoid := find_getOid hd idKey
                    rw [hfind, Program.ok_bind, hget, Except.ok.injEq] at hoid
                    exact .inr ⟨d, hd, lookup_of_asOid hoid.symm⟩
              rw [← writing_of_data hdata]
              refine ⟨trivial, ?_⟩
              intro r g₂ hdelete
              cases r with
              | error e =>
                  obtain rfl : g₂ = g₁ := hdelete
                  refine ⟨trivial, ?_⟩
                  rintro e g' rfl
                  rfl
              | ok u =>
                  obtain rfl : g₂ = g₁.lose (oidQuery idKey oid) := hdelete
                  refine ⟨⟨oid, .inr ⟨hknown, rfl⟩, rfl⟩, ?_⟩
                  intro r g' hgone
                  have hsame : g' = g₁.lose (oidQuery idKey oid) := by
                    cases r with
                    | error e => exact hgone
                    | ok u => exact hgone
                  subst hsame
                  exact ih fc (g₁.lose (oidQuery idKey oid))

theorem obeys_remove (fuel : Nat) (query : Option Bson) (g : Share) :
    (mongoSyncGridfsRemove fuel query).Obeys gridDiscipline (fun _ g' => g'.writing = g.writing) g := by
  refine (obeys_list query).bind ?_
  rintro r g' rfl
  cases r with
  | error e => rfl
  | ok fc => exact obeys_removeLoop fuel fc g'

/-! ## Clients -/

/-- The streams a client has, by their handles. -/
abbrev Streams := Nat → Option MongoSyncGridfsStream

/-- What a client may begin when nothing else is going on: an upload, a new stream, a call on
one of its streams, or the removal of files.  Metadata has no keys of a GridFS, but that of a
stream may have an id, which nobody else has then.  Lengths are those of a `gint64`. -/
inductive Begins (md5 : Bytes → CString) : Shared → Streams → Grid Streams → Shared → Prop
  | upload {s : Shared} {σ : Streams} {gfs : MongoSyncGridfs} {metadata : Option Bson}
      {data : Option Bytes} :
      (∀ b, metadata = some b → ∃ m, b.Encodes m ∧ m.Plain ∧ m.lookup idKey = none) →
      (∀ bytes, data = some bytes → bytes.length < 2 ^ 63) →
      Begins md5 s σ (do
        let _ ← mongoSyncGridfsChunkedFileNewFromBuffer md5 gfs metadata data
        return σ) s
  | streamNew {s : Shared} {σ : Streams} {gfs : MongoSyncGridfs} {metadata : Option Bson}
      (h : Nat) : (∀ b, metadata = some b → ∃ m, b.Encodes m ∧ m.Plain) →
      (∀ id, ¬ Names metadata id) →
      Begins md5 s σ (do
        match ← mongoSyncGridfsStreamNew gfs metadata with
        | .error _ => return σ
        | .ok stream => return Function.update σ h (some stream)) s
  | streamNamed {s : Shared} {σ : Streams} {gfs : MongoSyncGridfs} {metadata : Option Bson}
      {id : Oid} (h : Nat) : (∀ b, metadata = some b → ∃ m, b.Encodes m ∧ m.Plain) →
      Names metadata id → id ∉ s.ids →
      Begins md5 s σ (do
        match ← mongoSyncGridfsStreamNew gfs metadata with
        | .error _ => return σ
        | .ok stream => return Function.update σ h (some stream)) (s.name id)
  | write {s : Shared} {σ : Streams} {h : Nat} {stream : MongoSyncGridfsStream}
      {buffer : Option Bytes} : σ h = some stream →
      (∀ w bytes, stream = .writer w → buffer = some bytes → w.length + bytes.length < 2 ^ 63) →
      Begins md5 s σ (do
        let (_, stream) ← mongoSyncGridfsStreamWrite stream buffer
        return Function.update σ h (some stream)) s
  | close {s : Shared} {σ : Streams} {h : Nat} {stream : MongoSyncGridfsStream} :
      σ h = some stream →
      Begins md5 s σ (do
        let (_, left) ← mongoSyncGridfsStreamClose md5 stream
        return Function.update σ h left) s
  | remove {s : Shared} {σ : Streams} (fuel : Nat) (query : Option Bson) :
      Begins md5 s σ (do
        let _ ← mongoSyncGridfsRemove fuel query
        return σ) s

/-- The open streams of a client stand, and each writes a file of its own. -/
structure Streams.Held (σ : Streams) (g : Share) : Prop where
  stands : ∀ h w, σ h = some (.writer w) → ∃ blocks, g.writing w.id = some blocks ∧ w.Standing blocks
  distinct : ∀ h h' w w', σ h = some (.writer w) → σ h' = some (.writer w') → w.id = w'.id → h = h'

namespace Streams

variable {σ : Streams} {g g' : Share} {h : Nat} {w : GridfsWriter}

theorem Held.writing_ne_none (hσ : σ.Held g) (hh : σ h = some (.writer w)) : g.writing w.id ≠ none := by
  obtain ⟨blocks, hid, -⟩ := hσ.stands h w hh
  simp [hid]

/-- A client keeps the files it writes. -/
theorem Held.keeps (hσ : σ.Held g) (hkeep : ∀ id, g.writing id ≠ none → g'.writing id = g.writing id) :
    σ.Held g' where
  stands h w hh := by
    rw [hkeep _ (hσ.writing_ne_none hh)]
    exact hσ.stands h w hh
  distinct := hσ.distinct

/-- One stream is replaced by what is left of it, or by a new one. -/
theorem Held.update (hσ : σ.Held g) {left : Option MongoSyncGridfsStream}
    (hothers : ∀ h' w', h' ≠ h → σ h' = some (.writer w') → g'.writing w'.id = g.writing w'.id)
    (hleft : ∀ w, left = some (.writer w) → (∃ blocks, g'.writing w.id = some blocks ∧
      w.Standing blocks) ∧ ∀ h' w', h' ≠ h → σ h' = some (.writer w') → w'.id ≠ w.id) :
    Held (Function.update σ h left) g' where
  stands h' w' hh' := by
    rcases eq_or_ne h' h with rfl | hne
    · rw [Function.update_self] at hh'
      exact (hleft w' hh').1
    · rw [Function.update_of_ne hne] at hh'
      rw [hothers h' w' hne hh']
      exact hσ.stands h' w' hh'
  distinct h₁ h₂ w₁ w₂ hh₁ hh₂ hid := by
    rcases eq_or_ne h₁ h with rfl | hne₁
    · rcases eq_or_ne h₂ h₁ with rfl | hne₂
      · rfl
      · rw [Function.update_self] at hh₁
        rw [Function.update_of_ne hne₂] at hh₂
        exact absurd hid.symm ((hleft w₁ hh₁).2 h₂ w₂ hne₂ hh₂)
    · rcases eq_or_ne h₂ h with rfl | hne₂
      · rw [Function.update_self] at hh₂
        rw [Function.update_of_ne hne₁] at hh₁
        exact absurd hid ((hleft w₂ hh₂).2 h₁ w₁ hne₁ hh₁)
      · rw [Function.update_of_ne hne₁] at hh₁
        rw [Function.update_of_ne hne₂] at hh₂
        exact hσ.distinct h₁ h₂ w₁ w₂ hh₁ hh₂ hid

/-- A call on a stream. -/
theorem Held.leaves (hσ : σ.Held g) (hh : σ h = some (.writer w)) {left : Option GridfsWriter}
    (hleaves : Leaves g w.id left g') : Held (Function.update σ h (left.map .writer)) g' := by
  have hother : ∀ h' w', h' ≠ h → σ h' = some (.writer w') → w'.id ≠ w.id := by
    intro h' w' hne hh' hid
    exact hne (hσ.distinct h' h w' w hh' hh hid)
  refine hσ.update (fun h' w' hne hh' => hleaves.others _ (hother h' w' hne hh')) ?_
  intro v hv
  obtain ⟨v', hv', hsame⟩ := Option.map_eq_some_iff.mp hv
  cases hsame
  obtain ⟨hid, hstands⟩ := hleaves.stands v hv'
  rw [hid]
  exact ⟨hstands, hother⟩

/-- A new stream. -/
theorem Held.opened (hσ : σ.Held g) (h : Nat)
    (hkeep : ∀ id, g.writing id ≠ none → g'.writing id = g.writing id)
    (hnone : g.writing w.id = none) (hid : g'.writing w.id = some []) (hw : w.Standing []) :
    Held (Function.update σ h (some (.writer w))) g' := by
  refine hσ.update (fun h' w' _ hh' => hkeep _ (hσ.writing_ne_none hh')) ?_
  intro v hv
  cases hv
  refine ⟨⟨[], hid, hw⟩, fun h' w' _ hh' hsame => ?_⟩
  apply hσ.writing_ne_none hh'
  rw [hsame, hnone]

/-- Readers write nothing. -/
theorem Held.reader (hσ : σ.Held g) (h : Nat) (r : GridfsReader) :
    Held (Function.update σ h (some (.reader r))) g :=
  hσ.update (fun _ _ _ _ => rfl) fun w hw => by cases hw

theorem Held.none (hσ : σ.Held g) (h : Nat) : Held (Function.update σ h .none) g :=
  hσ.update (fun _ _ _ _ => rfl) fun w hw => by cases hw

/-- A write to a stream. -/
theorem Held.obeys_write (hσ : σ.Held g) {stream : MongoSyncGridfsStream} {buffer : Option Bytes}
    (hh : σ h = some stream) (hlt : ∀ w bytes, stream = .writer w → buffer = some bytes →
      w.length + bytes.length < 2 ^ 63) :
    (mongoSyncGridfsStreamWrite stream buffer).Obeys gridDiscipline
      (fun p g' => Held (Function.update σ h (some p.2)) g') g := by
  have hsame : Held (Function.update σ h (some stream)) g := by
    rwa [← hh, Function.update_eq_self]
  cases stream with
  | reader r => exact hsame
  | writer w =>
      cases buffer with
      | none => exact hsame
      | some data =>
          unfold mongoSyncGridfsStreamWrite
          dsimp only
          split
          next => exact hsame
          next =>
            obtain ⟨blocks, hid, hw⟩ := hσ.stands h w hh
            refine (obeys_writeLoop _ hid hw (hlt w data rfl rfl)).bind ?_
            intro p g' hleaves
            exact hσ.leaves hh hleaves

/-- The close of a stream. -/
theorem Held.obeys_close (hσ : σ.Held g) (md5 : Bytes → CString) {stream : MongoSyncGridfsStream}
    (hh : σ h = some stream) :
    (mongoSyncGridfsStreamClose md5 stream).Obeys gridDiscipline
      (fun p g' => Held (Function.update σ h p.2) g') g := by
  cases stream with
  | reader r => exact hσ.none h
  | writer w =>
      obtain ⟨blocks, hid, hw⟩ := hσ.stands h w hh
      refine (obeys_closeWriter md5 hid hw).bind ?_
      intro p g' hleaves
      exact hσ.leaves hh hleaves

/-- A stream is opened.  What its metadata names is reserved for it. -/
theorem Held.obeys_streamNew (hσ : σ.Held g) (h : Nat) {gfs : MongoSyncGridfs}
    {metadata : Option Bson} (hmeta : ∀ b, metadata = some b → ∃ m, b.Encodes m ∧ m.Plain)
    (hkeep : ∀ id, g.writing id ≠ .none → g'.writing id = g.writing id)
    (hnames : ∀ id, Names metadata id → g.writing id = .none ∧ g'.writing id = some []) :
    (do
      match ← mongoSyncGridfsStreamNew gfs metadata with
      | .error _ => return σ
      | .ok stream => return Function.update σ h (some stream) : Grid Streams).Obeys
        gridDiscipline Held g' := by
  refine (LibMongo.obeys_streamNew hmeta).bind ?_
  intro r g₁ hr
  cases r with
  | error e =>
      obtain rfl : g₁ = g' := hr
      exact hσ.keeps hkeep
  | ok stream =>
      obtain ⟨w, rfl, hw, hshare⟩ := hr
      rcases hshare with ⟨hname, rfl⟩ | ⟨hnone, rfl⟩
      · obtain ⟨hnone, hid⟩ := hnames w.id hname
        exact hσ.opened h hkeep hnone hid hw
      · have hfree : g.writing w.id = .none := by
          by_contra hsome
          rw [hkeep _ hsome] at hnone
          exact hsome hnone
        refine hσ.opened h (fun id hid => ?_) hfree (Share.put_writing_self _ _ _) hw
        rw [Share.put_writing_of_ne, hkeep id hid]
        rintro rfl
        exact hid hfree

end Streams

/-! ## At every moment -/

section Guards

variable {ι : Type} [DecidableEq ι] (md5 : Bytes → CString)

/-- The discipline keeps the store whole. -/
theorem gridDiscipline_guards : gridDiscipline.Guards Streams.Held Shared.Answers (Begins md5)
    (Consistent (ι := ι)) where
  call i c x hsound hmay hanswers := hsound.call i hmay hanswers
  begins := by
    intro s s' gs i σ t hsound hσ hbegins
    have hidle : Consistent s (Function.update gs i (gs i)) := by rwa [Function.update_eq_self]
    cases hbegins with
    | upload hmeta hdata =>
        refine ⟨gs i, ?_, hidle⟩
        exact (obeys_upload md5 hmeta hdata).bind fun _ g' hkeep => hσ.keeps hkeep
    | streamNew h hmeta hnames =>
        refine ⟨gs i, hσ.obeys_streamNew h hmeta (fun _ _ => rfl) ?_, hidle⟩
        exact fun id hname => absurd hname (hnames id)
    | @streamNamed _ _ id h hmeta hnames hid =>
        obtain ⟨hnone, hnamed⟩ := hsound.named i hid
        refine ⟨_, hσ.obeys_streamNew h hmeta ?_ ?_, hnamed⟩
        · intro id' hid'
          apply Share.put_writing_of_ne
          rintro rfl
          exact hid' hnone
        · intro id' hname
          obtain rfl : id' = id := hname.unique hnames
          exact ⟨hnone, Share.put_writing_self _ _ _⟩
    | write hh hlt =>
        refine ⟨gs i, ?_, hidle⟩
        exact (hσ.obeys_write hh hlt).bind fun _ _ hheld => hheld
    | close hh =>
        refine ⟨gs i, ?_, hidle⟩
        exact (hσ.obeys_close md5 hh).bind fun _ _ hheld => hheld
    | remove fuel query =>
        refine ⟨gs i, (obeys_remove fuel query (gs i)).bind ?_, hidle⟩
        intro _ g' hsame
        exact hσ.keeps fun id _ => congrFun hsame id

/-- Before anybody does anything. -/
theorem Shared.Ready.consistent {ι : Type} {s : Shared} (h : s.Ready) :
    Consistent s (fun _ : ι => Share.none) where
  toReady := h
  backs _ := ⟨fun _ _ hid => (by cases hid), fun _ hid => hid.elim, fun _ hid => hid.elim⟩
  apart _ _ _ hid := absurd rfl hid

/-- At every moment all files are whole, whatever the clients do and whatever fails. -/
theorem files_whole {s₀ s : Shared} {ts : ι → Grid Streams} (hready : s₀.Ready)
    (hrun : Interleaved Shared.Answers (Begins md5) s₀ (fun _ => .ret fun _ => none) s ts) :
    s.store.Whole := by
  have hnothing : Streams.Held (fun _ => none) Share.none :=
    ⟨fun _ _ hh => (by cases hh), fun _ _ _ _ hh => (by cases hh)⟩
  obtain ⟨gs, hinv, -⟩ := hrun.invariant (gridDiscipline_guards md5) hready.consistent
    fun _ => obeys_ret.mpr hnothing
  exact hinv.whole

end Guards

/-- A store without files. -/
def emptyShared : Shared := ⟨⟨[], [], none, ⟨0, 0⟩, 0⟩, [], []⟩

theorem emptyShared_ready : emptyShared.Ready where
  whole d hd := by cases hd
  seen d hd := by cases hd
  files id hid := by
    obtain ⟨d, hd, -⟩ := hid
    cases hd
  chunks d hd := by cases hd

theorem taken_of_fits {d : Doc} (h : d.encode.length < 2147483612) :
    Taken (some ⟨d.encode, true⟩) d :=
  ⟨_, rfl, h, Bson.Encodes.decode ⟨rfl, rfl, Nat.lt_trans h (by decide)⟩⟩

/-- One client uploads a file of two chunks, while another has begun to remove all files. -/
theorem files_whole_chunks : ∃ s ts, Interleaved Shared.Answers (Begins CString.ofBytes) emptyShared
    (fun _ : Fin 2 => .ret fun _ => none) s ts ∧ s.store.files.length = 1 ∧
      s.store.chunks.length = 2 ∧ s.store.Whole := by
  have hstart : Interleaved Shared.Answers (Begins CString.ofBytes) emptyShared
      (fun _ : Fin 2 => .ret fun _ => none) emptyShared (fun _ => .ret fun _ => none) := .start
  have hupload : Begins CString.ofBytes emptyShared (fun _ => none) (do
      let _ ← mongoSyncGridfsChunkedFileNewFromBuffer CString.ofBytes smallGridfs none (some [7, 8, 9])
      return fun _ => none) emptyShared :=
    .upload (fun b hb => by cases hb) (fun bytes hb => by cases hb; decide)
  have h₁ := (hstart.begins 0 rfl hupload).begins 1 rfl (.remove 1 none)
  have h₂ := h₁.call 0 rfl (.oidNew (show smallOid ∉ emptyShared.ids by decide))
  have h₃ := h₂.call 0 rfl (.insert (Store.take_eq_some.mpr
    ⟨(chunkBson_eq smallOid 0 (show [7, 8] ≠ [] by decide)) ▸ taken_of_fits (by decide), by decide +kernel⟩))
  have h₄ := h₃.call 0 rfl (.insert (Store.take_eq_some.mpr
    ⟨(chunkBson_eq smallOid 1 (show [9] ≠ [] by decide)) ▸ taken_of_fits (by decide), by decide +kernel⟩))
  have h₅ := h₄.call 0 rfl (.getCurrentTime ⟨0, 0⟩)
  have h₆ := h₅.call 0 rfl (.insert (Store.take_eq_some.mpr
    ⟨(uploadMeta_eq CString.ofBytes smallGridfs smallOid 3 ⟨0, 0⟩ ⟨[7, 8, 9], false⟩ (builds_new 128)) ▸
      taken_of_fits (by decide), by decide +kernel⟩))
  exact ⟨_, _, h₆, rfl, rfl, files_whole CString.ofBytes emptyShared_ready h₆⟩

end LibMongo
