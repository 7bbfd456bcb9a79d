import LibMongo.Gridfs.Agree

/-!
# The buffer of a writer

A write whose insert fails returns in the middle of a round.  Its bytes are in the buffer, which
stays full, and the next write inserts it before it takes a byte.  So whatever becomes of the
inserts, the chunks and the buffer are the bytes that were taken from the callers, one write after
the other (`writer_invariant`).
-/

namespace LibMongo

open Bytes Interaction Program

variable {outcome : Outcome}

/-! ## Writes one after the other -/

/-- Every write is made, whatever became of those before it. -/
def writeEach (stream : MongoSyncGridfsStream) :
    List (Option Bytes) → Grid (List (Except Errno Unit) × MongoSyncGridfsStream)
  | [] => return ([], stream)
  | b :: bs => do
      let (r, stream) ← mongoSyncGridfsStreamWrite stream b
      let (rs, stream) ← writeEach stream bs
      return (r :: rs, stream)

/-- A write, with the bytes it takes from the caller. -/
def streamWriteTaking (stream : MongoSyncGridfsStream) (buffer : Option Bytes) :
    Grid ((Except Errno Unit × MongoSyncGridfsStream) × Bytes) :=
  match stream with
  | .reader r => return ((.error .EOPNOTSUPP, .reader r), [])
  | .writer w =>
      match buffer with
      | none => return ((.error .EINVAL, .writer w), [])
      | some data =>
          if data = [] then return ((.error .EINVAL, .writer w), [])
          else do
            let ((result, w), taken) ← w.writeLoopTaking (data.length + 2) data
            return ((result, .writer w), taken)

/-- Writes one after the other, with the bytes that each has taken. -/
def writeEachTaking (stream : MongoSyncGridfsStream) :
    List (Option Bytes) → Grid ((List (Except Errno Unit) × MongoSyncGridfsStream) × List Bytes)
  | [] => return (([], stream), [])
  | b :: bs => do
      let ((r, stream), taken) ← streamWriteTaking stream b
      let ((rs, stream), takens) ← writeEachTaking stream bs
      return ((r :: rs, stream), taken :: takens)

theorem streamWriteTaking_erase (stream : MongoSyncGridfsStream) (buffer : Option Bytes) :
    (streamWriteTaking stream buffer >>= fun r => pure r.1)
      = mongoSyncGridfsStreamWrite stream buffer := by
  cases stream with
  | reader r => rfl
  | writer w =>
      cases buffer with
      | none => rfl
      | some data =>
          rw [streamWriteTaking, mongoSyncGridfsStreamWrite]
          split
          next => rfl
          next =>
            rw [Interaction.bind_assoc, ← GridfsWriter.writeLoopTaking_erase,
              Interaction.bind_assoc]
            rfl

theorem writeEachTaking_erase (stream : MongoSyncGridfsStream) (buffers : List (Option Bytes)) :
    (writeEachTaking stream buffers >>= fun r => pure r.1) = writeEach stream buffers := by
  induction buffers generalizing stream with
  | nil => rfl
  | cons b bs ih =>
      rw [writeEachTaking, writeEach, ← streamWriteTaking_erase, Interaction.bind_assoc,
        Interaction.bind_assoc]
      congr 1
      funext r
      show (writeEachTaking r.1.2 bs >>= _) >>= _ = writeEach r.1.2 bs >>= _
      rw [← ih, Interaction.bind_assoc, Interaction.bind_assoc]
      rfl

/-! ## What the writes took -/

namespace GridfsWriter

variable {w w' w₁ : GridfsWriter} {blocks new new' : List Bytes} {l l' l₁ : Ledger}

/-- A buffer that is full has been so since its insert failed. -/
def FullFailed (outcome : Outcome) (w : GridfsWriter) (l : Ledger) : Prop :=
  w.buffer.length = w.chunkSize → LastFailed outcome w l

/-- Where writes from `w` end, with their results, the bytes each took, and the blocks they
inserted. -/
structure Took (outcome : Outcome) (w : GridfsWriter) (blocks : List Bytes) (l : Ledger)
    (buffers : List (Option Bytes)) (results : List (Except Errno Unit)) (w' : GridfsWriter)
    (l' : Ledger) (new takens : List Bytes) : Prop where
  same : w.Same w'
  holds : w'.Holds (blocks ++ new)
  bytes : new.flatten ++ w'.buffer = w.buffer ++ takens.flatten
  inserts : l'.inserts = l.inserts ++ chunkEntries w.id blocks.length new
  full : FullFailed outcome w' l'
  front : List.Forall₂ (fun taken b => taken <+: b.getD []) takens buffers
  all : (∀ r ∈ results, r = .ok ()) → takens = buffers.map fun b => b.getD []

theorem Took.nil (h : w.Holds blocks) (hfull : FullFailed outcome w l) :
    Took outcome w blocks l [] [] w l [] [] where
  same := .refl w
  holds := by rwa [List.append_nil]
  bytes := by simp
  inserts := by simp
  full := hfull
  front := .nil
  all _ := rfl

/-- A write, and those after it. -/
theorem Took.cons {b : Option Bytes} {bs : List (Option Bytes)} {r : Except Errno Unit}
    {rs : List (Except Errno Unit)} {taken : Bytes} {takens : List Bytes}
    (h : Took outcome w blocks l [b] [r] w₁ l₁ new [taken])
    (h' : Took outcome w₁ (blocks ++ new) l₁ bs rs w' l' new' takens) :
    Took outcome w blocks l (b :: bs) (r :: rs) w' l' (new ++ new') (taken :: takens) where
  same := h.same.trans h'.same
  holds := by
    have hholds := h'.holds
    rwa [List.append_assoc] at hholds
  bytes := by
    rw [List.flatten_append, List.append_assoc, h'.bytes, ← List.append_assoc, h.bytes]
    simp
  inserts := by
    rw [h'.inserts, h.inserts, h.same.id, chunkEntries_append, List.length_append,
      List.append_assoc]
  full := h'.full
  front := by
    cases h.front with
    | cons hfront _ => exact .cons hfront h'.front
  all hok := by
    have hfirst := h.all (by simpa using hok r List.mem_cons_self)
    have hrest := h'.all fun q hq => hok q (List.mem_cons_of_mem _ hq)
    rw [List.map_cons, ← hrest]
    simpa using hfirst

/-- A write of the loop. -/
theorem Wrote.took {data taken : Bytes} {r : Except Errno Unit} (hdata : data ≠ [])
    (h : Wrote outcome w blocks l data r w' l' new taken)
    (hlast : ∀ e, r = .error e → LastFailed outcome w' l') :
    Took outcome w blocks l [some data] [r] w' l' new [taken] where
  same := h.same
  holds := h.holds
  bytes := by simpa using h.bytes
  inserts := h.inserts
  full hfull := by
    cases r with
    | error e => exact hlast e rfl
    | ok u => exact absurd hfull (Nat.ne_of_lt ((h.done rfl).2 hdata))
  front := .cons h.taken_le .nil
  all hok := by
    have hr : r = .ok () := by simpa using hok
    simpa using (h.done hr).1

/-- A write that is refused. -/
theorem Took.refused (h : w.Holds blocks) (hfull : FullFailed outcome w l) (b : Option Bytes)
    (e : Errno) : Took outcome w blocks l [b] [.error e] w l [] [[]] where
  same := .refl w
  holds := by rwa [List.append_nil]
  bytes := by simp
  inserts := by simp
  full := hfull
  front := .cons List.nil_prefix .nil
  all hok := by simp at hok

theorem exec_streamWriteTaking (outcome : Outcome) (h : w.Holds blocks)
    (hfull : FullFailed outcome w l) (b : Option Bytes) :
    ∃ r w' l' new taken,
      ((streamWriteTaking (.writer w) b).run (Ledger.serve outcome)).exec l
          = (.ok ((r, .writer w'), taken), l') ∧
        Took outcome w blocks l [b] [r] w' l' new [taken] := by
  cases b with
  | none => exact ⟨_, _, _, _, _, rfl, .refused h hfull none _⟩
  | some data =>
      by_cases hdata : data = []
      · refine ⟨.error .EINVAL, w, l, [], [], ?_, .refused h hfull _ _⟩
        rw [streamWriteTaking, if_pos hdata]
        rfl
      · have hfuel : (if w.buffer.length = w.chunkSize then data.length + 1 else data.length)
            < data.length + 2 := by
          split
          · omega
          · omega
        obtain ⟨r, w', l', new, taken, hexec, hwrote, hlast⟩ :=
          exec_writeLoopTaking outcome l h hfuel
        refine ⟨r, w', l', new, taken, ?_, hwrote.took hdata hlast⟩
        rw [streamWriteTaking, if_neg hdata]
        exact exec_run_bind_ok hexec _

/-- Each write returns, and so do all. -/
theorem exec_writeEachTaking (outcome : Outcome) (buffers : List (Option Bytes))
    (h : w.Holds blocks) (hfull : FullFailed outcome w l) :
    ∃ results w' l' new takens,
      ((writeEachTaking (.writer w) buffers).run (Ledger.serve outcome)).exec l
          = (.ok ((results, .writer w'), takens), l') ∧
        Took outcome w blocks l buffers results w' l' new takens := by
  induction buffers generalizing w blocks l with
  | nil => exact ⟨_, _, _, _, _, rfl, .nil h hfull⟩
  | cons b bs ih =>
      obtain ⟨r, w₁, l₁, new, taken, hexec, htook⟩ := exec_streamWriteTaking outcome h hfull b
      obtain ⟨rs, w', l', new', takens, hexec', htook'⟩ := ih htook.holds htook.full
      refine ⟨r :: rs, w', l', new ++ new', taken :: takens, ?_, htook.cons htook'⟩
      rw [writeEachTaking, exec_run_bind_ok hexec]
      exact exec_run_bind_ok hexec' _

end GridfsWriter

/-! ## The invariant -/

/-- What holds of a writer behind the writes of these buffers, of which these bytes were taken.
The ledger was `l` when the stream was made, and it is `l'` now. -/
structure WriterInvariant (outcome : Outcome) (gfs : MongoSyncGridfs) (l l' : Ledger)
    (buffers : List (Option Bytes)) (results : List (Except Errno Unit)) (w : GridfsWriter)
    (takens blocks : List Bytes) : Prop where
  chunkSize : w.chunkSize = gfs.chunkSize
  inserts : l'.inserts = l.inserts ++ chunkEntries w.id 0 blocks
  current : w.currentChunk = blocks.length
  full : ∀ block ∈ blocks, block.length = w.chunkSize
  bytes : blocks.flatten ++ w.buffer = takens.flatten
  length : w.length = takens.flatten.length
  offset : w.offset = takens.flatten.length
  buffer_le : w.buffer.length ≤ w.chunkSize
  /-- The last insert that was tried is that of this buffer, and it failed. -/
  buffer_full : w.buffer.length = w.chunkSize →
    ∃ k e, l'.tries = k + 1 ∧ outcome k (chunkBson w.id w.currentChunk w.buffer) = .error e
  checksum : w.checksum = ⟨blocks.flatten, false⟩
  front : List.Forall₂ (fun taken b => taken <+: b.getD []) takens buffers
  all : (∀ r ∈ results, r = .ok ()) → takens = buffers.map fun b => b.getD []

/-- Whatever becomes of the inserts, every write returns, and the writer keeps its invariant. -/
theorem writer_invariant (outcome : Outcome) (gfs : MongoSyncGridfs) (metadata : Option Bson)
    (l l₁ : Ledger) (stream : MongoSyncGridfsStream) (buffers : List (Option Bytes))
    (hnew : ((mongoSyncGridfsStreamNew gfs metadata).run (Ledger.serve outcome)).exec l
      = (.ok (.ok stream), l₁)) :
    ∃ results w l₂ takens blocks,
      ((writeEach stream buffers).run (Ledger.serve outcome)).exec l₁
          = (.ok (results, .writer w), l₂) ∧
        ((writeEachTaking stream buffers).run (Ledger.serve outcome)).exec l₁
          = (.ok ((results, .writer w), takens), l₂) ∧
        WriterInvariant outcome gfs l₁ l₂ buffers results w takens blocks := by
  obtain ⟨rfl, id, copy, copy', -, -, rfl⟩ := exec_streamNew hnew
  have hholds := newWriter_holds gfs id (bsonFinish copy').2
  have hempty : GridfsWriter.FullFailed outcome (newWriter gfs id (bsonFinish copy').2) l₁ :=
    fun hfull => absurd hfull (Nat.ne_of_lt gfs.chunkSize_pos)
  obtain ⟨results, w, l₂, blocks, takens, hexec, htook⟩ :=
    GridfsWriter.exec_writeEachTaking outcome buffers hholds hempty
  have hw := htook.holds
  have hbytes : blocks.flatten ++ w.buffer = takens.flatten := htook.bytes
  rw [List.nil_append] at hw
  have hlength : w.length = takens.flatten.length := by rw [hw.length_eq, hbytes]
  refine ⟨results, w, l₂, takens, blocks, ?_, hexec, ?_⟩
  · rw [← writeEachTaking_erase, exec_run_bind_ok hexec]
    rfl
  · constructor
    · exact htook.same.chunkSize
    · rw [htook.inserts, htook.same.id]
      rfl
    · exact hw.count
    · exact hw.full
    · exact hbytes
    · exact hlength
    · rw [hw.offset_eq, hlength]
    · exact hw.buffer_le
    · exact htook.full
    · exact hw.checksum_eq
    · exact htook.front
    · exact htook.all

/-- Only the first insert fails. -/
def failFirst : Outcome := fun n _ => if n = 0 then .error .EPROTO else .ok ()

/-- The block that was not inserted is inserted by the next write. -/
theorem writer_invariant_resumes :
    ∃ w l blocks,
      ((writeEachTaking (.writer (newWriter smallGridfs smallOid none))
          [some [1, 2, 3], none, some [4]]).run (Ledger.serve failFirst)).exec freshLedger
        = (.ok (([.error .EPROTO, .error .EINVAL, .ok ()], .writer w), [[1, 2], [], [4]]), l) ∧
      WriterInvariant failFirst smallGridfs freshLedger l [some [1, 2, 3], none, some [4]]
        [.error .EPROTO, .error .EINVAL, .ok ()] w [[1, 2], [], [4]] blocks := by
  have hrun : ((((writeEachTaking (.writer (newWriter smallGridfs smallOid none))
        [some [1, 2, 3], none, some [4]]).run (Ledger.serve failFirst)).exec freshLedger).1.map
          fun r => (r.1.1, r.2))
      = .ok ([.error .EPROTO, .error .EINVAL, .ok ()], [[1, 2], [], [4]]) := by decide +kernel
  obtain ⟨results, w, l, takens, blocks, -, hexec, hinvariant⟩ :=
    writer_invariant failFirst smallGridfs none freshLedger freshLedger
      (.writer (newWriter smallGridfs smallOid none)) [some [1, 2, 3], none, some [4]] rfl
  rw [hexec] at hrun
  cases hrun
  exact ⟨w, l, blocks, hexec, hinvariant⟩

end LibMongo
