import LibMongo.Gridfs.Document
import LibMongo.Base.Pieces

/-!
# Writers

What a writer inserts, whatever becomes of its inserts.  `Ledger` is a GridFS that only
takes inserts.  It notes those that succeed, and the outcome of each is given from outside.

`GridfsWriter.Holds` is the invariant of a writer: the full blocks it has inserted and the
bytes in its buffer are the bytes it was given, and its counters and its checksum agree
with them.  The loop of `mongo_sync_gridfs_stream_write` keeps it, also when an insert
fails (`exec_writeLoop`).
-/

namespace LibMongo

open Bytes Interaction Program

/-! ## The ledger -/

/-- What inserts leave behind, and what the outside answers to the other calls. -/
structure Ledger where
  oid : Option Oid
  time : GTimeVal
  /-- The number of inserts so far. -/
  tries : Nat
  /-- Those that succeeded. -/
  inserts : List (Collection × Option Bson)

/-- What becomes of an insert, by its number and its document. -/
abbrev Outcome := Nat → Option Bson → Except Errno Unit

/-- The ledger after an insert that had this result. -/
def Ledger.note (l : Ledger) (coll : Collection) (doc : Option Bson) :
    Except Errno Unit → Ledger
  | .error _ => { l with tries := l.tries + 1 }
  | .ok () => { l with tries := l.tries + 1, inserts := l.inserts ++ [(coll, doc)] }

/-- A GridFS that takes inserts and nothing else. -/
def Ledger.serve (outcome : Outcome) : Handler GridCall GridCall.Response Ledger
  | .oidNew => do
      let l ← get
      return l.oid
  | .getCurrentTime => do
      let l ← get
      return l.time
  | .insert coll doc => do
      let l ← get
      set (l.note coll doc (outcome l.tries doc))
      return outcome l.tries doc
  | .delete _ _ => return .error .ENOENT
  | .query _ _ _ => return .error .ENOENT
  | .cursorNew _ _ => return .error .EINVAL
  | .cursorNext c => return (false, c)
  | .cursorGetData _ => return none
  | .cursorFree _ => return .ok

variable {outcome : Outcome}

theorem exec_insert {coll : Collection} {doc : Option Bson} {l : Ledger} {r : Except Errno Unit}
    (hr : outcome l.tries doc = r) :
    ((Grid.insert coll doc).run (Ledger.serve outcome)).exec l = (.ok r, l.note coll doc r) := by
  rw [exec_run_perform, ← hr]
  rfl

/-- The entries of blocks, numbered from `n` on. -/
def chunkEntries (oid : Oid) (n : Nat) (blocks : List Bytes) : List (Collection × Option Bson) :=
  (blocks.zipIdx n).map fun p => (.chunks, chunkBson oid p.2 p.1)

@[simp] theorem chunkEntries_nil (oid : Oid) (n : Nat) : chunkEntries oid n [] = [] := rfl

@[simp] theorem chunkEntries_cons (oid : Oid) (n : Nat) (b : Bytes) (bs : List Bytes) :
    chunkEntries oid n (b :: bs) = (.chunks, chunkBson oid n b) :: chunkEntries oid (n + 1) bs := rfl

theorem chunkEntries_append (oid : Oid) (n : Nat) (bs cs : List Bytes) :
    chunkEntries oid n (bs ++ cs) = chunkEntries oid n bs ++ chunkEntries oid (n + bs.length) cs := by
  simp [chunkEntries, List.zipIdx_append]

/-! ## The invariant -/

/-- The blocks were inserted, and the buffer holds the bytes behind them. -/
structure GridfsWriter.Holds (w : GridfsWriter) (blocks : List Bytes) : Prop where
  pos : 0 < w.chunkSize
  full : ∀ p ∈ blocks, p.length = w.chunkSize
  count : w.currentChunk = blocks.length
  buffer_le : w.buffer.length ≤ w.chunkSize
  length_eq : w.length = (blocks.flatten ++ w.buffer).length
  offset_eq : w.offset = w.length
  checksum_eq : w.checksum = ⟨blocks.flatten, false⟩

/-- What a write leaves alone. -/
structure GridfsWriter.Same (w w' : GridfsWriter) : Prop where
  chunkSize : w'.chunkSize = w.chunkSize
  id : w'.id = w.id
  metadata : w'.metadata = w.metadata

namespace GridfsWriter

variable {w : GridfsWriter} {blocks : List Bytes}

theorem Same.refl (w : GridfsWriter) : w.Same w := ⟨rfl, rfl, rfl⟩

theorem Same.trans {u v w : GridfsWriter} (huv : u.Same v) (hvw : v.Same w) : u.Same w :=
  ⟨hvw.chunkSize.trans huv.chunkSize, hvw.id.trans huv.id, hvw.metadata.trans huv.metadata⟩

theorem room_le (w : GridfsWriter) (rest : Bytes) : w.room rest ≤ rest.length := by
  unfold room
  split
  next => exact Nat.le_refl _
  next h => exact Nat.not_lt.mp h

/-- The writer with as much of the bytes in its buffer as there is room for. -/
def fill (w : GridfsWriter) (rest : Bytes) : GridfsWriter := w.take (rest.take (w.room rest))

theorem fill_buffer (w : GridfsWriter) (rest : Bytes) :
    (w.fill rest).buffer = w.buffer ++ rest.take (w.room rest) := rfl

theorem fill_length (w : GridfsWriter) (rest : Bytes) :
    (w.fill rest).buffer.length = w.buffer.length + w.room rest := by
  rw [fill_buffer, List.length_append, List.length_take, Nat.min_eq_left (w.room_le rest)]

/-- The buffer does not overflow. -/
theorem fill_buffer_le {rest : Bytes} (hle : w.buffer.length ≤ w.chunkSize) :
    (w.fill rest).buffer.length ≤ w.chunkSize := by
  have hroom : w.room rest ≤ w.chunkSize - w.buffer.length := by
    unfold room
    split
    next hlt => exact Nat.le_of_lt hlt
    next => exact Nat.le_refl _
  rw [fill_length]
  omega

theorem Holds.fill (h : w.Holds blocks) (rest : Bytes) : (w.fill rest).Holds blocks := by
  refine ⟨h.pos, h.full, h.count, fill_buffer_le h.buffer_le, ?_, ?_, h.checksum_eq⟩
  · show w.length + _ = (blocks.flatten ++ (w.buffer ++ _)).length
    rw [h.length_eq, ← List.append_assoc, ← List.length_append]
  · show w.offset + _ = w.length + _
    rw [h.offset_eq]

@[simp] theorem flushed_buffer (w : GridfsWriter) : w.flushed.buffer = [] := rfl

/-- A full buffer becomes a block. -/
theorem Holds.flushed (h : w.Holds blocks) (hfull : w.buffer.length = w.chunkSize) :
    w.flushed.Holds (blocks ++ [w.buffer]) := by
  refine ⟨h.pos, ?_, ?_, Nat.zero_le _, ?_, h.offset_eq, ?_⟩
  · intro p hp
    rcases List.mem_append.mp hp with hp | hp
    · exact h.full p hp
    · rw [List.mem_singleton.mp hp]
      exact hfull
  · show w.currentChunk + 1 = _
    rw [h.count, List.length_append, List.length_singleton]
  · show w.length = _
    rw [h.length_eq]
    simp [GridfsWriter.flushed]
  · show gChecksumUpdate w.checksum w.buffer = _
    rw [h.checksum_eq]
    simp [gChecksumUpdate]

theorem fill_same (w : GridfsWriter) (rest : Bytes) : w.Same (w.fill rest) := ⟨rfl, rfl, rfl⟩

/-- If the buffer is not full, all bytes had room. -/
theorem room_of_not_full {rest : Bytes} (hle : w.buffer.length ≤ w.chunkSize)
    (h : (w.fill rest).buffer.length ≠ (w.fill rest).chunkSize) : w.room rest = rest.length := by
  have hlen := w.fill_length rest
  have hchunk : (w.fill rest).chunkSize = w.chunkSize := rfl
  by_cases hlt : rest.length < w.chunkSize - w.buffer.length
  · rw [room, if_pos hlt]
  · have hroom : w.room rest = w.chunkSize - w.buffer.length := by rw [room, if_neg hlt]
    omega

/-! ## Writing -/

/-- Where a write from `w` may end, with the blocks it inserted, the bytes it took and its
result. -/
structure Wrote (outcome : Outcome) (w : GridfsWriter) (blocks : List Bytes) (l : Ledger)
    (rest : Bytes) (r : Except Errno Unit) (w' : GridfsWriter) (l' : Ledger) (new : List Bytes)
    (taken : Bytes) : Prop where
  same : w.Same w'
  holds : w'.Holds (blocks ++ new)
  bytes : new.flatten ++ w'.buffer = w.buffer ++ taken
  taken_le : taken <+: rest
  inserts : l'.inserts = l.inserts ++ chunkEntries w.id blocks.length new
  env : l'.oid = l.oid ∧ l'.time = l.time
  done : r = .ok () → taken = rest ∧ (rest ≠ [] → w'.buffer.length < w'.chunkSize)
  failed : ∀ e, r = .error e →
    w'.buffer.length = w'.chunkSize ∧ ∃ n doc, outcome n doc = .error e

section Rounds

variable {rest : Bytes} {l l' : Ledger} {w' : GridfsWriter}

/-- There is nothing to write. -/
theorem Holds.wrote_nil (h : w.Holds blocks) : Wrote outcome w blocks l [] (.ok ()) w l [] [] where
  same := .refl w
  holds := by rwa [List.append_nil]
  bytes := by simp
  taken_le := List.nil_prefix
  inserts := by simp
  env := ⟨rfl, rfl⟩
  done _ := ⟨rfl, fun hne => absurd rfl hne⟩
  failed e he := by cases he

/-- Everything goes into the buffer. -/
theorem Holds.wrote_last (h : w.Holds blocks)
    (hnot : (w.fill rest).buffer.length ≠ (w.fill rest).chunkSize) :
    Wrote outcome w blocks l rest (.ok ()) (w.fill rest) l [] rest where
  same := w.fill_same rest
  holds := by
    rw [List.append_nil]
    exact h.fill rest
  bytes := by
    rw [fill_buffer, room_of_not_full h.buffer_le hnot, List.take_length]
    rfl
  taken_le := List.prefix_rfl
  inserts := by simp
  env := ⟨rfl, rfl⟩
  done _ := ⟨rfl, fun _ => Nat.lt_of_le_of_ne (h.fill rest).buffer_le hnot⟩
  failed e he := by cases he

/-- The insert of a full buffer fails. -/
theorem Holds.wrote_failed (h : w.Holds blocks) {e : Errno} {doc : Option Bson}
    (hout : outcome l.tries doc = .error e)
    (hfull : (w.fill rest).buffer.length = (w.fill rest).chunkSize) :
    Wrote outcome w blocks l rest (.error e) (w.fill rest) { l with tries := l.tries + 1 } []
      (rest.take (w.room rest)) where
  same := w.fill_same rest
  holds := by
    rw [List.append_nil]
    exact h.fill rest
  bytes := rfl
  taken_le := List.take_prefix _ _
  inserts := by rw [chunkEntries_nil, List.append_nil]
  env := ⟨rfl, rfl⟩
  done hr := by cases hr
  failed e' he := ⟨hfull, by cases he; exact ⟨_, _, hout⟩⟩

/-- It succeeds, and the write goes on. -/
theorem Holds.wrote_flushed (h : w.Holds blocks) {r : Except Errno Unit} {new : List Bytes}
    {taken : Bytes} (hnext : Wrote outcome (w.fill rest).flushed (blocks ++ [(w.fill rest).buffer])
      (l.note .chunks (chunkBson w.id w.currentChunk (w.fill rest).buffer) (.ok ()))
      (rest.drop (w.room rest)) r w' l' new taken) :
    Wrote outcome w blocks l rest r w' l' ((w.fill rest).buffer :: new)
      (rest.take (w.room rest) ++ taken) where
  same := (w.fill_same rest).trans ⟨hnext.same.chunkSize, hnext.same.id, hnext.same.metadata⟩
  holds := by
    have := hnext.holds
    rwa [List.append_assoc, List.singleton_append] at this
  bytes := by
    rw [List.flatten_cons, List.append_assoc, hnext.bytes, fill_buffer]
    simp
  taken_le := by
    obtain ⟨more, hmore⟩ := hnext.taken_le
    exact ⟨more, by rw [List.append_assoc, hmore, List.take_append_drop]⟩
  inserts := by
    rw [hnext.inserts, List.length_append, List.length_singleton, chunkEntries_cons, ← h.count]
    show (l.inserts ++ [_]) ++ _ = _
    rw [List.append_assoc, List.singleton_append]
    rfl
  env := hnext.env
  done hr := by
    obtain ⟨htaken, hroom⟩ := hnext.done hr
    refine ⟨by rw [htaken, List.take_append_drop], fun _ => ?_⟩
    by_cases hnil : rest.drop (w.room rest) = []
    · -- the last byte filled a block, so the buffer is empty
      have hbytes := hnext.bytes
      rw [htaken, hnil, List.append_nil] at hbytes
      have hlen : (new.flatten ++ w'.buffer).length = 0 := by
        rw [hbytes]
        rfl
      rw [List.length_append] at hlen
      have := hnext.holds.pos
      omega
    · exact hroom hnil
  failed := hnext.failed

end Rounds

/-- A round of the loop. -/
theorem writeLoop_round {rest : Bytes} (hrest : rest ≠ []) (fuel : Nat) (w : GridfsWriter) :
    writeLoop (fuel + 1) w rest
      = if (w.fill rest).buffer.length = (w.fill rest).chunkSize then do
          match ← Grid.insert .chunks (chunkBson w.id w.currentChunk (w.fill rest).buffer) with
          | .error e => return (.error e, w.fill rest)
          | .ok () => writeLoop fuel (w.fill rest).flushed (rest.drop (w.room rest))
        else writeLoop fuel (w.fill rest) (rest.drop (w.room rest)) := by
  rw [writeLoop, if_neg hrest]
  rfl

/-- The loop, with the bytes it takes from the caller. -/
def writeLoopTaking : Nat → GridfsWriter → Bytes →
    Grid ((Except Errno Unit × GridfsWriter) × Bytes)
  | 0, _, _ => .halt .endless
  | fuel + 1, w, rest =>
      if rest = [] then return ((.ok (), w), [])
      else if (w.fill rest).buffer.length = (w.fill rest).chunkSize then do
        match ← Grid.insert .chunks (chunkBson w.id w.currentChunk (w.fill rest).buffer) with
        | .error e => return ((.error e, w.fill rest), rest.take (w.room rest))
        | .ok () =>
            let (result, taken) ← writeLoopTaking fuel (w.fill rest).flushed
              (rest.drop (w.room rest))
            return (result, rest.take (w.room rest) ++ taken)
      else do
        let (result, taken) ← writeLoopTaking fuel (w.fill rest) (rest.drop (w.room rest))
        return (result, rest.take (w.room rest) ++ taken)

/-- It is the loop if the bytes are dropped. -/
theorem writeLoopTaking_erase (fuel : Nat) (w : GridfsWriter) (rest : Bytes) :
    (writeLoopTaking fuel w rest >>= fun r => pure r.1) = writeLoop fuel w rest := by
  induction fuel generalizing w rest with
  | zero => rfl
  | succ fuel ih =>
      by_cases hrest : rest = []
      · rw [writeLoopTaking, writeLoop, if_pos hrest, if_pos hrest]
        rfl
      · rw [writeLoopTaking, if_neg hrest, writeLoop_round hrest]
        split
        next =>
          rw [Interaction.bind_assoc]
          congr 1
          funext r
          cases r with
          | error e => rfl
          | ok u =>
              dsimp only
              rw [Interaction.bind_assoc]
              exact ih _ _
        next =>
          rw [Interaction.bind_assoc]
          exact ih _ _

/-- The last insert that was tried is that of the buffer, and it failed. -/
def LastFailed (outcome : Outcome) (w : GridfsWriter) (l : Ledger) : Prop :=
  ∃ k e, l.tries = k + 1 ∧ outcome k (chunkBson w.id w.currentChunk w.buffer) = .error e

/-- The loop ends, and keeps the invariant. -/
theorem exec_writeLoopTaking (outcome : Outcome) {rest : Bytes} {fuel : Nat} (l : Ledger)
    (h : w.Holds blocks)
    (hfuel : (if w.buffer.length = w.chunkSize then rest.length + 1 else rest.length) < fuel) :
    ∃ r w' l' new taken,
      ((writeLoopTaking fuel w rest).run (Ledger.serve outcome)).exec l
          = (.ok ((r, w'), taken), l') ∧
        Wrote outcome w blocks l rest r w' l' new taken ∧
        ∀ e, r = .error e → LastFailed outcome w' l' := by
  induction fuel generalizing w blocks rest l with
  | zero => exact absurd hfuel (Nat.not_lt_zero _)
  | succ fuel ih =>
      rw [writeLoopTaking]
      by_cases hrest : rest = []
      · subst hrest
        exact ⟨_, _, _, _, _, rfl, h.wrote_nil, fun e he => by cases he⟩
      · have hpos := List.length_pos_iff.mpr hrest
        rw [if_neg hrest]
        by_cases hfull : (w.fill rest).buffer.length = (w.fill rest).chunkSize
        · rw [if_pos hfull]
          cases hout : outcome l.tries (chunkBson w.id w.currentChunk (w.fill rest).buffer) with
          | error e =>
              refine ⟨_, _, _, _, _, ?_, h.wrote_failed hout hfull, fun _ _ => ?_⟩
              · exact exec_run_bind_ok (exec_insert hout) _
              · exact ⟨l.tries, e, rfl, hout⟩
          | ok u =>
              have hflushed := (h.fill rest).flushed hfull
              have hnot : ¬ (w.fill rest).flushed.buffer.length = (w.fill rest).flushed.chunkSize := by
                have := hflushed.pos
                show ¬ 0 = w.chunkSize
                exact Nat.ne_of_lt this
              -- a round takes a byte unless the buffer was full before
              have hfuel' : (rest.drop (w.room rest)).length < fuel := by
                have hlen := w.fill_length rest
                have hchunk : (w.fill rest).chunkSize = w.chunkSize := rfl
                rw [List.length_drop]
                split at hfuel <;> omega
              obtain ⟨r, w', l', new, taken, hexec, hnext, hlast⟩ := ih hflushed
                (l := l.note .chunks (chunkBson w.id w.currentChunk (w.fill rest).buffer) (.ok ()))
                (by rwa [if_neg hnot])
              refine ⟨_, _, _, _, _, ?_, h.wrote_flushed hnext, hlast⟩
              rw [exec_run_bind_ok (exec_insert hout)]
              exact exec_run_bind_ok hexec _
        · rw [if_neg hfull]
          have hroom := room_of_not_full h.buffer_le hfull
          have hdrop : rest.drop (w.room rest) = [] :=
            List.drop_of_length_le (Nat.le_of_eq hroom.symm)
          obtain ⟨fuel, rfl⟩ : ∃ n, fuel = n + 1 := ⟨fuel - 1, by split at hfuel <;> omega⟩
          refine ⟨_, _, l, _, _, ?_, h.wrote_last hfull, fun e he => by cases he⟩
          rw [hdrop, writeLoopTaking, if_pos rfl]
          simp [hroom]

/-- So does the loop of the source. -/
theorem exec_writeLoop (outcome : Outcome) {rest : Bytes} {fuel : Nat} (l : Ledger)
    (h : w.Holds blocks)
    (hfuel : (if w.buffer.length = w.chunkSize then rest.length + 1 else rest.length) < fuel) :
    ∃ r w' l' new taken,
      ((writeLoop fuel w rest).run (Ledger.serve outcome)).exec l = (.ok (r, w'), l') ∧
        Wrote outcome w blocks l rest r w' l' new taken := by
  obtain ⟨r, w', l', new, taken, hexec, hwrote, -⟩ := exec_writeLoopTaking outcome l h hfuel
  refine ⟨r, w', l', new, taken, ?_, hwrote⟩
  rw [← writeLoopTaking_erase, exec_run_bind_ok hexec]
  rfl

end GridfsWriter

end LibMongo
