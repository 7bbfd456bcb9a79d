import LibMongo.Gridfs.Writer

/-!
# Streaming and uploading agree

A file can be uploaded from a buffer or written to a stream piece by piece.  If all inserts
succeed, both insert the pieces of the whole file that are as long as a chunk, under the
same numbers, and feed the same bytes to the checksum (`stream_upload_agree`).
-/

namespace LibMongo

open Bytes Interaction Program

variable {outcome : Outcome}

/-! ## Several writes -/

/-- Pieces are written one after the other, up to the first that fails. -/
def writeAll (stream : MongoSyncGridfsStream) :
    List Bytes → Grid (Except Errno Unit × MongoSyncGridfsStream)
  | [] => return (.ok (), stream)
  | p :: ps => do
      match ← mongoSyncGridfsStreamWrite stream (some p) with
      | (.error e, stream) => return (.error e, stream)
      | (.ok (), stream) => writeAll stream ps

namespace GridfsWriter

variable {w w₁ w₂ : GridfsWriter} {blocks : List Bytes} {l l₁ l₂ : Ledger}

/-- Two writes are a write of both. -/
theorem Wrote.trans {p q taken₁ taken₂ : Bytes} {new₁ new₂ : List Bytes} {r : Except Errno Unit}
    (h₁ : Wrote outcome w blocks l p (.ok ()) w₁ l₁ new₁ taken₁) (hp : p ≠ [])
    (h₂ : Wrote outcome w₁ (blocks ++ new₁) l₁ q r w₂ l₂ new₂ taken₂) :
    Wrote outcome w blocks l (p ++ q) r w₂ l₂ (new₁ ++ new₂) (taken₁ ++ taken₂) where
  same := h₁.same.trans h₂.same
  holds := by
    have := h₂.holds
    rwa [List.append_assoc] at this
  bytes := by
    rw [List.flatten_append, List.append_assoc, h₂.bytes, ← List.append_assoc, h₁.bytes,
      List.append_assoc]
  taken_le := by
    obtain ⟨more, hmore⟩ := h₂.taken_le
    exact ⟨more, by rw [(h₁.done rfl).1, List.append_assoc, hmore]⟩
  inserts := by
    rw [h₂.inserts, h₁.inserts, h₁.same.id, chunkEntries_append, List.length_append,
      List.append_assoc]
  env := ⟨h₂.env.1.trans h₁.env.1, h₂.env.2.trans h₁.env.2⟩
  done hr := by
    obtain ⟨htaken, hroom⟩ := h₂.done hr
    refine ⟨by rw [(h₁.done rfl).1, htaken], fun _ => ?_⟩
    by_cases hq : q = []
    · have hbytes := congrArg List.length h₂.bytes
      rw [htaken, hq, List.append_nil, List.length_append] at hbytes
      have hlt := (h₁.done rfl).2 hp
      rw [h₂.same.chunkSize]
      omega
    · exact hroom hq
  failed := h₂.failed

/-- One call of `mongo_sync_gridfs_stream_write`. -/
theorem exec_streamWrite (outcome : Outcome) (h : w.Holds blocks) {p : Bytes} (hp : p ≠ [])
    (l : Ledger) :
    ∃ r w' l' new taken,
      ((mongoSyncGridfsStreamWrite (.writer w) (some p)).run (Ledger.serve outcome)).exec l
        = (.ok (r, .writer w'), l') ∧ Wrote outcome w blocks l p r w' l' new taken := by
  have hfuel : (if w.buffer.length = w.chunkSize then p.length + 1 else p.length) < p.length + 2 := by
    split <;> omega
  obtain ⟨r, w', l', new, taken, hexec, hwrote⟩ := exec_writeLoop outcome l h hfuel
  refine ⟨r, w', l', new, taken, ?_, hwrote⟩
  rw [mongoSyncGridfsStreamWrite, if_neg hp]
  exact exec_run_bind_ok hexec _

/-- Several calls, up to the first that fails. -/
theorem exec_writeAll (outcome : Outcome) {ps : List Bytes} (h : w.Holds blocks)
    (hne : ∀ p ∈ ps, p ≠ []) (l : Ledger) :
    ∃ r w' l' new taken,
      ((writeAll (.writer w) ps).run (Ledger.serve outcome)).exec l = (.ok (r, .writer w'), l') ∧
        Wrote outcome w blocks l ps.flatten r w' l' new taken := by
  induction ps generalizing w blocks l with
  | nil => exact ⟨_, _, _, _, _, rfl, h.wrote_nil⟩
  | cons p ps ih =>
      have hp := hne p List.mem_cons_self
      obtain ⟨r, w₁, l₁, new₁, taken₁, hexec, hwrote⟩ := exec_streamWrite outcome h hp l
      cases r with
      | error e =>
          refine ⟨.error e, w₁, l₁, new₁, taken₁, exec_run_bind_ok hexec _,
            { hwrote with
              taken_le := hwrote.taken_le.trans (List.prefix_append p ps.flatten)
              done := fun hr => by cases hr }⟩
      | ok u =>
          obtain ⟨r, w₂, l₂, new₂, taken₂, hexec₂, hwrote₂⟩ :=
            ih hwrote.holds (fun q hq => hne q (List.mem_cons_of_mem _ hq)) l₁
          exact ⟨r, w₂, l₂, _, _, (exec_run_bind_ok hexec _).trans hexec₂,
            hwrote.trans hp hwrote₂⟩

end GridfsWriter

/-! ## A new stream -/

/-- The writer `mongo_sync_gridfs_stream_new` starts with. -/
def newWriter (gfs : MongoSyncGridfs) (id : Oid) (metadata : Option Bson) : GridfsWriter where
  gfs := gfs
  chunkSize := gfs.chunkSize
  length := 0
  offset := 0
  currentChunk := 0
  id := id
  metadata := metadata
  buffer := []
  checksum := gChecksumNew

theorem newWriter_holds (gfs : MongoSyncGridfs) (id : Oid) (metadata : Option Bson) :
    (newWriter gfs id metadata).Holds [] where
  pos := gfs.chunkSize_pos
  full _ hp := absurd hp List.not_mem_nil
  count := rfl
  buffer_le := Nat.zero_le _
  length_eq := rfl
  offset_eq := rfl
  checksum_eq := rfl

/-- How the id of a stream is chosen, and what becomes of the copy of the metadata. -/
inductive ChoosesId (l : Ledger) (metadata copy : Option Bson) : Oid → Option Bson → Prop
  | new {id : Oid} : bsonFind metadata (some idKey) = .ok none → l.oid = some id →
      ChoosesId l metadata copy id (bsonAppendOid copy (some idKey) (some id)).2
  | given {id : Oid} {c : BsonCursor} : bsonFind metadata (some idKey) = .ok (some c) →
      bsonCursorGetOid (some c) = .ok (some id) → ChoosesId l metadata copy id copy

theorem exec_streamId {metadata copy copy' : Option Bson} {l l' : Ledger} {id : Oid}
    (h : ((streamId metadata copy).run (Ledger.serve outcome)).exec l
      = (.ok (.ok (id, copy')), l')) : l' = l ∧ ChoosesId l metadata copy id copy' := by
  obtain ⟨c, l₁, hc, h⟩ := exec_run_bind_eq_ok.mp h
  rw [exec_run_ofExcept, Prod.mk.injEq] at hc
  obtain ⟨hfind, rfl⟩ := hc
  cases c with
  | none =>
      obtain ⟨o, l₂, ho, h⟩ := exec_run_bind_eq_ok.mp h
      rw [exec_run_perform] at ho
      cases ho
      cases hoid : l.oid with
      | none =>
          rw [hoid] at h
          cases h
      | some oid =>
          rw [hoid] at h
          cases h
          exact ⟨rfl, .new hfind hoid⟩
  | some c =>
      obtain ⟨o, l₂, ho, h⟩ := exec_run_bind_eq_ok.mp h
      rw [exec_run_ofExcept, Prod.mk.injEq] at ho
      obtain ⟨hget, rfl⟩ := ho
      cases o with
      | none => cases h
      | some oid =>
          cases h
          exact ⟨rfl, .given hfind hget⟩

/-- A new stream is a writer with nothing in it. -/
theorem exec_streamNew {gfs : MongoSyncGridfs} {metadata : Option Bson} {l l' : Ledger}
    {stream : MongoSyncGridfsStream}
    (h : ((mongoSyncGridfsStreamNew gfs metadata).run (Ledger.serve outcome)).exec l
      = (.ok (.ok stream), l')) :
    l' = l ∧ ∃ id copy copy', reopen metadata = .ok copy ∧ ChoosesId l metadata copy id copy' ∧
      stream = .writer (newWriter gfs id (bsonFinish copy').2) := by
  obtain ⟨copy, l₁, hcopy, h⟩ := exec_run_bind_eq_ok.mp h
  rw [exec_run_ofExcept, Prod.mk.injEq] at hcopy
  obtain ⟨hcopy, rfl⟩ := hcopy
  obtain ⟨r, l₂, hid, h⟩ := exec_run_bind_eq_ok.mp h
  cases r with
  | error e => cases h
  | ok p =>
      obtain ⟨id, copy'⟩ := p
      cases h
      obtain ⟨rfl, hchosen⟩ := exec_streamId hid
      exact ⟨rfl, id, copy, copy', hcopy, hchosen, rfl⟩

/-! ## What is inserted if all inserts succeed -/

/-- Every insert succeeds. -/
def allSucceed : Outcome := fun _ _ => .ok ()

/-- The chunks that were inserted. -/
def Ledger.chunks (l : Ledger) : List (Option Bson) :=
  (l.inserts.filter fun p => p.1 = .chunks).map Prod.snd

/-- The documents of blocks, numbered from 0 on. -/
def chunkSequence (oid : Oid) (blocks : List Bytes) : List (Option Bson) :=
  blocks.zipIdx.map fun p => chunkBson oid p.2 p.1

theorem Ledger.chunks_append {l l' : Ledger} {oid : Oid} {n : Nat} {blocks : List Bytes}
    (h : l'.inserts = l.inserts ++ chunkEntries oid n blocks) :
    l'.chunks = l.chunks ++ (blocks.zipIdx n).map fun p => chunkBson oid p.2 p.1 := by
  simp [Ledger.chunks, h, chunkEntries, List.filter_map, Function.comp_def]

/-- An interaction that inserts no chunks. -/
theorem chunks_of_calls {α : Type} {t : Grid α} (ht : t.Calls fun c => ∀ doc, c ≠ .insert .chunks doc)
    (l : Ledger) : ((t.run (Ledger.serve outcome)).exec l).2.chunks = l.chunks := by
  refine (run_keeps (h := Ledger.serve outcome) (Q := fun l l' : Ledger => l'.chunks = l.chunks)
    ⟨fun _ => rfl, fun h₁ h₂ => h₂.trans h₁⟩ (fun c hc => ?_) ht).exec l
  cases c with
  | insert coll doc =>
      cases coll with
      | chunks => exact absurd rfl (hc doc)
      | files =>
          intro l
          show (l.note .files doc (outcome l.tries doc)).chunks = l.chunks
          cases outcome l.tries doc with
          | error e => rfl
          | ok u => simp [Ledger.note, Ledger.chunks]
  | _ => exact fun l => rfl

/-- A round of an upload takes a full chunk, or what is left. -/
theorem take_csize (gfs : MongoSyncGridfs) (rest : Bytes) :
    rest.take (if rest.length < gfs.chunkSize then rest.length else gfs.chunkSize)
        = rest.take gfs.chunkSize ∧
      rest.drop (if rest.length < gfs.chunkSize then rest.length else gfs.chunkSize)
        = rest.drop gfs.chunkSize := by
  split
  next hlt =>
    rw [List.take_length, List.take_of_length_le (Nat.le_of_lt hlt), List.drop_length,
      List.drop_of_length_le (Nat.le_of_lt hlt)]
    exact ⟨rfl, rfl⟩
  next => exact ⟨rfl, rfl⟩

/-- The loop of an upload. -/
theorem exec_insertChunks (gfs : MongoSyncGridfs) (oid : Oid) (fed : Bytes) {fuel n : Nat}
    {rest : Bytes} (l : Ledger) (hfuel : rest.length < fuel) :
    ∃ l', ((insertChunks gfs oid fuel n rest ⟨fed, false⟩).run (Ledger.serve allSucceed)).exec l
        = (.ok (.ok ⟨fed ++ rest, false⟩), l') ∧
      l'.inserts = l.inserts ++ chunkEntries oid n (pieces gfs.chunkSize rest) := by
  induction fuel generalizing n rest fed l with
  | zero => exact absurd hfuel (Nat.not_lt_zero _)
  | succ fuel ih =>
      by_cases hrest : rest = []
      · subst hrest
        refine ⟨l, ?_, ?_⟩
        · rw [insertChunks, if_pos rfl, List.append_nil]
          rfl
        · rw [pieces_nil gfs.chunkSize_pos, chunkEntries_nil, List.append_nil]
      · have hpos := List.length_pos_iff.mpr hrest
        have hc := gfs.chunkSize_pos
        obtain ⟨htake, hdrop⟩ := take_csize gfs rest
        have hinsert : ((Grid.insert .chunks (chunkBson oid n (rest.take gfs.chunkSize))).run
            (Ledger.serve allSucceed)).exec l
              = (.ok (.ok ()), l.note .chunks (chunkBson oid n (rest.take gfs.chunkSize)) (.ok ())) :=
          exec_insert rfl
        have hshorter : (rest.drop gfs.chunkSize).length < fuel := by
          rw [List.length_drop]
          omega
        obtain ⟨l', hexec, hinserts⟩ := ih (fed ++ rest.take gfs.chunkSize) (n := n + 1)
          (l.note .chunks (chunkBson oid n (rest.take gfs.chunkSize)) (.ok ())) hshorter
        refine ⟨l', ?_, ?_⟩
        · rw [insertChunks, if_neg hrest]
          simp only [htake, hdrop]
          refine (exec_run_bind_ok hinsert _).trans (hexec.trans ?_)
          rw [List.append_assoc, List.take_append_drop]
        · rw [hinserts, pieces_eq_cons hc hrest, chunkEntries_cons]
          exact List.append_assoc _ [_] _

/-- The flush of a close. -/
theorem exec_closeFlush {w : GridfsWriter} {blocks : List Bytes} (h : w.Holds blocks)
    (l : Ledger) :
    ∃ w' l', ((closeFlush w).run (Ledger.serve allSucceed)).exec l
        = (.ok (decide (w.buffer ≠ []), w'), l') ∧
      w'.checksum = ⟨blocks.flatten ++ w.buffer, false⟩ ∧
      l'.inserts = l.inserts ++ chunkEntries w.id blocks.length (pieces w.chunkSize w.buffer) := by
  by_cases hbuf : w.buffer = []
  · refine ⟨w, l, ?_, ?_, ?_⟩
    · rw [closeFlush, if_pos hbuf, hbuf]
      rfl
    · rw [h.checksum_eq, hbuf, List.append_nil]
    · rw [hbuf, pieces_nil h.pos, chunkEntries_nil, List.append_nil]
  · have hinsert : ((streamChunkWrite w.id w.currentChunk w.buffer).run
        (Ledger.serve allSucceed)).exec l
          = (.ok (.ok ()), l.note .chunks (chunkBson w.id w.currentChunk w.buffer) (.ok ())) :=
      exec_insert rfl
    refine ⟨{ w with checksum := gChecksumUpdate w.checksum w.buffer },
      l.note .chunks (chunkBson w.id w.currentChunk w.buffer) (.ok ()), ?_, ?_, ?_⟩
    · rw [closeFlush, if_neg hbuf, decide_eq_true hbuf]
      exact exec_run_bind_ok hinsert _
    · show gChecksumUpdate w.checksum w.buffer = _
      rw [h.checksum_eq]
      rfl
    · rw [pieces_short hbuf h.buffer_le, h.count]
      rfl

/-! ## Agreement -/

/-- What a close inserts into the chunks comes from the flush. -/
theorem chunks_streamClose (md5 : Bytes → CString) {w w' : GridfsWriter} {closed : Bool}
    {l l' : Ledger}
    (h : ((closeFlush w).run (Ledger.serve outcome)).exec l = (.ok (closed, w'), l')) :
    (((mongoSyncGridfsStreamClose md5 (.writer w)).run (Ledger.serve outcome)).exec l).2.chunks
      = l'.chunks := by
  show (((closeWriter md5 w >>= fun p => _).run _).exec l).2.chunks = _
  rw [closeWriter, bind_assoc, exec_run_bind_ok h]
  refine chunks_of_calls (Calls.bind ?_ fun p => by trivial) l'
  cases closed with
  | false => trivial
  | true =>
      refine (calls_perform fun doc hc => by cases hc).bind fun tv => ?_
      refine (calls_ofExcept _).bind fun front => ?_
      refine (calls_perform fun doc hc => by cases hc).bind fun r => ?_
      cases r <;> trivial

/-- What an upload inserts into the chunks comes from its loop. -/
theorem chunks_upload (md5 : Bytes → CString) (gfs : MongoSyncGridfs) (metadata : Option Bson)
    {data : Bytes} (hne : data ≠ []) {oid : Oid} {l l' : Ledger} {r : Except Errno GChecksum}
    (hid : l.oid = some oid)
    (h : ((insertChunks gfs oid (data.length + 1) 0 data gChecksumNew).run
      (Ledger.serve outcome)).exec l = (.ok r, l')) :
    (((mongoSyncGridfsChunkedFileNewFromBuffer md5 gfs metadata (some data)).run
      (Ledger.serve outcome)).exec l).2.chunks = l'.chunks := by
  have hoid : ((Grid.oidNew).run (Ledger.serve outcome)).exec l = (.ok (some oid), l) := by
    rw [exec_run_perform, ← hid]
    rfl
  show ((if data = [] then _ else _ : Grid _).run _ |>.exec l).2.chunks = _
  rw [if_neg hne, exec_run_bind_ok hoid, exec_run_bind_ok h]
  refine chunks_of_calls ?_ l'
  cases r with
  | error e => trivial
  | ok chk =>
      refine Calls.bind ?_ fun front => ?_
      · cases metadata with
        | none => trivial
        | some m => exact calls_ofExcept _
      refine (calls_perform fun doc hc => by cases hc).bind fun tv => ?_
      refine (calls_perform fun doc hc => by cases hc).bind fun r => ?_
      cases r with
      | error e => trivial
      | ok u =>
          refine (calls_ofExcept _).bind fun c => (calls_ofExcept _).bind fun id => ?_
          exact (calls_ofExcept _).bind fun p => (calls_ofExcept _).bind fun sum => trivial

/-- Streaming a file in pieces and uploading it at once insert the same numbered chunks, and
feed the same bytes to the checksum. -/
theorem stream_upload_agree (md5 : Bytes → CString) (gfs : MongoSyncGridfs)
    (metadata metadata' : Option Bson) (ps : List Bytes) (hne : ∀ p ∈ ps, p ≠ [])
    (hps : ps ≠ []) (l l₁ l' : Ledger) (w : GridfsWriter) (oid : Oid)
    (hnew : ((mongoSyncGridfsStreamNew gfs metadata).run (Ledger.serve allSucceed)).exec l
      = (.ok (.ok (.writer w)), l₁))
    (hid : l'.oid = some oid) :
    ∃ w₁ u₁ closed w₂ u₂ chk v,
      ((writeAll (.writer w) ps).run (Ledger.serve allSucceed)).exec l₁
        = (.ok (.ok (), .writer w₁), u₁) ∧
      ((closeFlush w₁).run (Ledger.serve allSucceed)).exec u₁ = (.ok (closed, w₂), u₂) ∧
      ((insertChunks gfs oid (ps.flatten.length + 1) 0 ps.flatten gChecksumNew).run
        (Ledger.serve allSucceed)).exec l' = (.ok (.ok chk), v) ∧
      w₂.checksum.fed = ps.flatten ∧ chk.fed = ps.flatten ∧
      (((mongoSyncGridfsStreamClose md5 (.writer w₁)).run
        (Ledger.serve allSucceed)).exec u₁).2.chunks
          = l.chunks ++ chunkSequence w.id (pieces gfs.chunkSize ps.flatten) ∧
      (((mongoSyncGridfsChunkedFileNewFromBuffer md5 gfs metadata' (some ps.flatten)).run
        (Ledger.serve allSucceed)).exec l').2.chunks
          = l'.chunks ++ chunkSequence oid (pieces gfs.chunkSize ps.flatten) := by
  obtain ⟨rfl, id, copy, copy', -, -, hw⟩ := exec_streamNew hnew
  cases hw
  have hdata : ps.flatten ≠ [] := by
    obtain ⟨p, hp⟩ := List.exists_mem_of_ne_nil ps hps
    intro hnil
    exact hne p hp (List.flatten_eq_nil_iff.mp hnil p hp)
  -- the writes
  obtain ⟨r, w₁, u₁, new, taken, hwrites, hwrote⟩ := GridfsWriter.exec_writeAll
    allSucceed (newWriter_holds gfs id (bsonFinish copy').2) hne l₁
  have hr : r = .ok () := by
    cases r with
    | ok u => rfl
    | error e =>
        obtain ⟨n, doc, hfail⟩ := (hwrote.failed e rfl).2
        cases hfail
  subst hr
  obtain ⟨rfl, hroom⟩ := hwrote.done rfl
  have hbytes : new.flatten ++ w₁.buffer = ps.flatten := hwrote.bytes
  -- the flush
  obtain ⟨w₂, u₂, hflush, hchk, hinserts⟩ := exec_closeFlush hwrote.holds u₁
  -- the upload
  obtain ⟨v, hloop, hchunks⟩ := exec_insertChunks gfs oid [] (n := 0) l'
    (Nat.lt_succ_self ps.flatten.length)
  refine ⟨w₁, u₁, _, w₂, u₂, ⟨ps.flatten, false⟩, v, hwrites, hflush, hloop, ?_, rfl, ?_, ?_⟩
  · rw [hchk]
    exact hbytes
  · have hpieces : new ++ pieces w₁.chunkSize w₁.buffer = pieces gfs.chunkSize ps.flatten := by
      rw [← hbytes, hwrote.same.chunkSize]
      exact (pieces_flatten_append gfs.chunkSize_pos (fun p hp => by
        rw [hwrote.holds.full p hp, hwrote.same.chunkSize]
        rfl) _).symm
    have hall : u₂.inserts
        = l₁.inserts ++ chunkEntries id 0 (pieces gfs.chunkSize ps.flatten) := by
      rw [hinserts, hwrote.inserts, hwrote.same.id, List.append_assoc, ← hpieces,
        chunkEntries_append, Nat.zero_add]
      rfl
    rw [chunks_streamClose md5 hflush, Ledger.chunks_append hall]
    rfl
  · rw [chunks_upload md5 gfs metadata' hdata hid hloop, Ledger.chunks_append hchunks]
    rfl

/-- A GridFS with chunks of two bytes. -/
def smallGridfs : MongoSyncGridfs where
  nsPrefix := .ascii ['t', '.', 'f', 's']
  chunkSize := 2
  chunkSize_pos := by decide
  chunkSize_lt := by decide

/-- Some object id. -/
def smallOid : Oid := ⟨[1, 2, 3, 4, 5, 6, 7, 8, 9, 10, 11, 12], rfl⟩

/-- A ledger without inserts. -/
def freshLedger : Ledger := ⟨some smallOid, ⟨0, 0⟩, 0, []⟩

theorem stream_upload_agree_small :
    (((mongoSyncGridfsChunkedFileNewFromBuffer CString.ofBytes smallGridfs none
      (some [1, 2, 3])).run (Ledger.serve allSucceed)).exec freshLedger).2.chunks
        = chunkSequence smallOid [[1, 2], [3]] := by
  obtain ⟨_, _, _, _, _, _, _, _, _, _, _, _, _, hupload⟩ :=
    stream_upload_agree CString.ofBytes smallGridfs none none [[1], [2, 3]] (by decide) (by decide)
      freshLedger freshLedger freshLedger (newWriter smallGridfs smallOid none) smallOid rfl rfl
  exact hupload

end LibMongo
