import LibMongo.Gridfs.Reading

/-!
# Seeking in a file

Reads and seeks that all succeed are those of an ordinary file (`seekable_reads_exact`).  The
reader loads the next chunk as soon as one is used up and a seek may have nothing to do, but
the position, the number of the chunk and the offset in it stay in step.

A seek accepts the positions of the file, but for one case (`seek_accepts_iff`): the end of a
file whose last chunk is full is in no chunk, and a seek to it fails in the look-up of the
chunk behind the last.
-/

namespace LibMongo

open Bytes Interaction Program Store

/-! ## Calls that succeed -/

section Step

variable {fate : Fate} {o : ByteOrder} {oid : Oid} {c pos : Nat} {data : Bytes}
  {r r' : GridfsReader} {w w' : World Store}

/-- How a seek ends.  It fails if its position is none of the file, or if the chunk of the
position is not found. -/
theorem run_seek (fate : Fate) (o : ByteOrder) (hc : 0 < c) (hchunks : w.net.HoldsChunks oid (pieces c data))
    (h : r.At oid c data pos) (p : Int) (whence : Whence) :
    ∃ result r' w' k, ((mongoSyncGridfsStreamSeek (.reader r) p whence).run (serve fate o)).exec w
        = (.ok (result, .reader r'), w') ∧ w'.net = w.net.after k ∧
      match r.target p whence with
      | .error e => result = .error e
      | .ok none => result = .ok () ∧ r' = r
      | .ok (some q) => fate w.net.tries = none ∧ q / c < pieceCount c data.length ∧
            result = .ok () ∧ (∃ n : Nat, q = n ∧ r'.At oid c data n) ∧ r'.InStep ∨
          (fate w.net.tries ≠ none ∨ q / c = pieceCount c data.length) ∧ result = .error .EPROTO := by
  cases htarget : r.target p whence with
  | error e =>
      refine ⟨.error e, r, w, 0, ?_, rfl, rfl⟩
      rw [mongoSyncGridfsStreamSeek, htarget]
      rfl
  | ok target =>
      cases target with
      | none =>
          refine ⟨.ok (), r, w, 0, ?_, rfl, rfl, rfl⟩
          rw [mongoSyncGridfsStreamSeek, htarget]
          rfl
      | some q =>
          obtain ⟨-, hlo, hhi⟩ := GridfsReader.target_some htarget
          obtain ⟨q, rfl⟩ := Int.eq_ofNat_of_zero_le hlo
          rw [h.length] at hhi
          have hhi : q ≤ data.length := by omega
          have hle : q / c ≤ (pieces c data).length := by
            rw [pieces_length, pieceCount]
            exact Nat.div_le_div_right (by omega)
          by_cases hserved : fate w.net.tries = none ∧ q / c < (pieces c data).length
          · obtain ⟨hfate, hk⟩ := hserved
            obtain ⟨r', hexec, hat, hstep⟩ := exec_seek (o := o) hchunks.toHasChunks h htarget hhi hk
              hfate
            refine ⟨.ok (), r', _, 1, hexec, rfl, .inl ⟨hfate, ?_, rfl, ⟨q, rfl, hat⟩, hstep⟩⟩
            rw [pieces_length] at hk
            exact_mod_cast hk
          · have hfail : fate w.net.tries ≠ none ∨ q / c = (pieces c data).length := by
              by_cases hfate : fate w.net.tries = none
              · exact .inr (Nat.le_antisymm hle (Nat.not_lt.mp fun hk => hserved ⟨hfate, hk⟩))
              · exact .inl hfate
            have hmissing : fate w.net.tries ≠ none ∨
                w.net.find .chunks (chunkSelector oid (q / c : Nat)) = none := by
              rcases hfail with hfate | hlast
              · exact .inl hfate
              · rw [hlast]
                exact .inr hchunks.missing
            refine ⟨.error .EPROTO, r.dropped, _, 1, exec_seek_failed h htarget hmissing, rfl,
              .inr ⟨?_, rfl⟩⟩
            rw [pieces_length] at hfail
            exact_mod_cast hfail

/-- What a call that succeeds does: the reader is in step at the new position. -/
theorem call_succeeds (hc : 0 < c) (hne : data ≠ [])
    (hchunks : w.net.HoldsChunks oid (pieces c data)) (h : r.At oid c data pos) (hr : r.InStep)
    {call : ReaderCall} (hpos : ∀ size, call = .read size → 0 < size) {bytes : Bytes}
    (hexec : ((call.run (.reader r)).run (serve fate o)).exec w = (.ok (.ok bytes, .reader r'), w')) :
    call.Does c oid data pos (.ok bytes) r' w w' ∧ r'.InStep := by
  cases call with
  | read size =>
      have hsize := hpos size rfl
      obtain ⟨n, rfl⟩ := Int.eq_ofNat_of_zero_le (Int.le_of_lt hsize)
      obtain ⟨result, s, u, k, hrun, hnet, hread⟩ := run_read fate o hc hne
        hchunks.toHasChunks h (n := n) (by omega)
      rw [ReaderCall.run, Int.toNat_natCast, hrun] at hexec
      cases hexec
      obtain ⟨hbytes, hat, hstep⟩ := hread bytes rfl
      refine ⟨⟨⟨k, hnet⟩, ⟨_, hat, ?_⟩, ?_⟩, hstep hr⟩
      · show _ = (pos : Int) + (bytes.length : Nat)
        rw [hbytes, List.length_take, List.length_drop]
        push_cast
        rfl
      · intro size' bytes' hcall hresult
        cases hcall
        cases hresult
        exact hbytes
  | seek p whence =>
      obtain ⟨result, s, u, k, hrun, hnet, hseek⟩ := run_seek fate o hc hchunks h p
        whence
      rw [ReaderCall.run, exec_run_bind_ok hrun] at hexec
      cases result with
      | error e => cases hexec
      | ok v =>
          cases hexec
          have hread : ∀ (size : Int) (bytes : Bytes), ReaderCall.seek p whence = .read size →
              (Except.ok [] : Except Errno Bytes) = .ok bytes →
                bytes = (data.drop pos).take size.toNat := by
            intro _ _ hcall
            cases hcall
          cases htarget : r.target p whence with
          | error e =>
              rw [htarget] at hseek
              cases hseek
          | ok target =>
              cases target with
              | none =>
                  rw [htarget] at hseek
                  obtain ⟨-, rfl⟩ := hseek
                  have hsame := GridfsReader.target_none htarget data.length
                  rw [h.offset] at hsame
                  exact ⟨⟨⟨k, hnet⟩, ⟨pos, h, hsame.symm⟩, hread⟩, hr⟩
              | some q =>
                  rw [htarget] at hseek
                  rcases hseek with ⟨-, -, -, ⟨n, rfl, hat⟩, hstep⟩ | ⟨-, hfalse⟩
                  · obtain ⟨hq, -⟩ := GridfsReader.target_some htarget
                    rw [h.length, h.offset] at hq
                    exact ⟨⟨⟨k, hnet⟩, ⟨n, hat, hq.symm⟩, hread⟩, hstep⟩
                  · cases hfalse

end Step

/-! ## Runs -/

section Runs

variable {fate : Fate} {o : ByteOrder} {gfs : MongoSyncGridfs} {q : Option Bson}
  {w w₀ w' : World Store} {r₀ r : GridfsReader} {c : Nat} {data : Bytes} {ts : List ReaderTurn}

/-- Calls of a run: the sizes of reads are positive. -/
def ReaderCall.Positive (call : ReaderCall) : Prop := ∀ size, call = .read size → 0 < size

/-- Where a run is in which every call succeeds. -/
structure ReadThrough (fate : Fate) (o : ByteOrder) (r₀ : GridfsReader) (c : Nat) (data : Bytes)
    (ts : List ReaderTurn) (r : GridfsReader) (w : World Store) : Prop where
  exact : ReadsExact data ts
  holds : w.net.HoldsChunks r₀.id (pieces c data)
  at_ : ∃ pos : Nat, r.At r₀.id c data pos ∧ (pos : Int) = position data.length ts
  inStep : r.InStep

theorem readThrough_of_run (hc : 0 < c)
    (hfind : ((mongoSyncGridfsStreamFind gfs q).run (serve fate o)).exec w
      = (.ok (.ok (.reader r₀)), w₀))
    (hsize : r₀.chunkSize = c) (hlength : r₀.length = data.length)
    (hchunks : w₀.net.HoldsChunks r₀.id (pieces c data))
    (h : ReaderRun fate o (fun _ _ call => call.Positive) r₀ w₀ ts r w')
    (hok : ∀ t ∈ ts, ∃ bytes, t.result = .ok bytes) : ReadThrough fate o r₀ c data ts r w' := by
  obtain ⟨hoffset, hcur, hdata, hstart, hnonzero⟩ := exec_streamFind_at hfind
  have hne : data ≠ [] := by
    rintro rfl
    exact hnonzero hlength
  induction h with
  | start =>
      refine ⟨.nil data, hchunks, ⟨0, ?_, rfl⟩, fun _ => hoffset, fun hsome => absurd hdata hsome⟩
      exact ⟨rfl, hsize, hlength, hoffset, hstart, Nat.zero_le _, fun _ => .inl ⟨hdata, rfl, hcur⟩⟩
  | @call ts r r' w w' call result hrun hpos hexec ih =>
      obtain ⟨hexact, hholds, ⟨pos, hat, hpos'⟩, hstep⟩ := ih fun t ht =>
        hok t (List.mem_append_left _ ht)
      obtain ⟨bytes, hresult⟩ := hok ⟨call, result⟩ (by simp)
      obtain rfl : result = .ok bytes := hresult
      obtain ⟨hdoes, hstep'⟩ := call_succeeds hc hne hholds hat hstep hpos hexec
      obtain ⟨k, hnet⟩ := hdoes.store
      obtain ⟨pos₁, hat₁, hpos₁⟩ := hdoes.at_
      refine ⟨hexact.snoc ?_, ?_, ⟨pos₁, hat₁, ?_⟩, hstep'⟩
      · intro size bytes' hcall hresult
        rw [← hpos', Int.toNat_natCast]
        exact hdoes.read size bytes' hcall hresult
      · rw [hnet]
        exact hholds.after k
      · rw [position_snoc, ← hpos', hpos₁]

/-- Reads and seeks that all succeed are those of an ordinary file. -/
theorem seekable_reads_exact (hc : 0 < c)
    (hfind : ((mongoSyncGridfsStreamFind gfs q).run (serve fate o)).exec w
      = (.ok (.ok (.reader r₀)), w₀))
    (hsize : r₀.chunkSize = c) (hlength : r₀.length = data.length)
    (hchunks : w₀.net.HoldsChunks r₀.id (pieces c data))
    (h : ReaderRun fate o (fun _ _ call => call.Positive) r₀ w₀ ts r w')
    (hok : ∀ t ∈ ts, ∃ bytes, t.result = .ok bytes) :
    ReadsExact data ts ∧ r.offset = position data.length ts ∧
      (r.data ≠ none → r.currentChunk * r.chunkSize + r.chunkOffset = position data.length ts) := by
  have hreached := readThrough_of_run hc hfind hsize hlength hchunks h hok
  obtain ⟨pos, hat, hpos⟩ := hreached.at_
  have hoffset : r.offset = position data.length ts := hat.offset.trans hpos
  refine ⟨hreached.exact, hoffset, fun hdata => ?_⟩
  rw [← hoffset]
  exact hreached.inStep.sum hdata

end Runs

theorem ReaderTurn.ok_of_results {ts : List ReaderTurn} (rs : List Bytes)
    (h : ts.map ReaderTurn.result = rs.map .ok) : ∀ t ∈ ts, ∃ bytes, t.result = .ok bytes := by
  intro t ht
  have hmem : t.result ∈ rs.map .ok := h ▸ List.mem_map_of_mem ht
  obtain ⟨bytes, -, hbytes⟩ := List.mem_map.mp hmem
  exact ⟨bytes, hbytes.symm⟩

/-- All bytes, back over the boundary between the chunks, and on to the end. -/
def backAndForth : List ReaderCall := [.read 9, .seek (-3) .seekCur, .read 2, .seek 0 .seekCur, .read 2]

theorem seekable_reads_exact_short : ∃ ts r w,
    ReaderRun allServed .little (fun _ _ call => call.Positive) shortReader (answered shortWorld) ts r w ∧
      ts.map ReaderTurn.result = [.ok [1, 2, 3, 4], .ok [], .ok [2, 3], .ok [], .ok [4]] ∧
      ReadsExact [1, 2, 3, 4] ts := by
  have hplay : (play allServed .little shortReader (answered shortWorld) backAndForth).map
      (fun x => x.1.map ReaderTurn.result)
        = some [.ok [1, 2, 3, 4], .ok [], .ok [2, 3], .ok [], .ok [4]] := by decide +kernel
  obtain ⟨⟨ts, r, w⟩, hplay, hts⟩ := Option.map_eq_some_iff.mp hplay
  have hts : ts.map ReaderTurn.result = [.ok [1, 2, 3, 4], .ok [], .ok [2, 3], .ok [], .ok [4]] := hts
  have hrun := ReaderRun.start.of_play (P := fun _ _ call => call.Positive) (fun c hc _ _ size hsize => by
    subst hsize
    simp [backAndForth] at hc
    omega) hplay
  have hok := ReaderTurn.ok_of_results [[1, 2, 3, 4], [], [2, 3], [], [4]] hts
  exact ⟨ts, r, w, hrun, hts, (seekable_reads_exact (by decide) (exec_shortFind allServed rfl) rfl rfl
    (shortStore_holds.after 1) hrun hok).1⟩

/-! ## What a seek accepts -/

/-- Where a seek is to lead. -/
def seekTarget (length offset p : Int) (whence : Whence) : Int :=
  ReaderTurn.move length offset ⟨.seek p whence, .ok []⟩

@[simp] theorem seekTarget_set (length offset p : Int) : seekTarget length offset p .seekSet = p := rfl

@[simp] theorem seekTarget_cur (length offset p : Int) :
    seekTarget length offset p .seekCur = offset + p := rfl

@[simp] theorem seekTarget_end (length offset p : Int) :
    seekTarget length offset p .seekEnd = length + p := rfl

/-- A seek to a position of the file returns `TRUE` and leads there.  Any other is refused. -/
def SeeksRight (length target : Int) (result : Except Errno Unit) (r' : GridfsReader) : Prop :=
  if 0 ≤ target ∧ target ≤ length then result = .ok () ∧ r'.offset = target
  else result = .error .ERANGE

/-- There is nothing to do for a seek. -/
def SeekIdle (r : GridfsReader) (p : Int) (whence : Whence) : Prop :=
  whence = .seekSet ∧ p = r.offset ∨ whence = .seekCur ∧ p = 0

/-- The range checks agree with the target. -/
theorem GridfsReader.target_eq {r : GridfsReader} (hlo : 0 ≤ r.offset) (hhi : r.offset ≤ r.length)
    (p : Int) {whence : Whence} (hwhence : whence ≠ .other) :
    (¬ (0 ≤ seekTarget r.length r.offset p whence ∧ seekTarget r.length r.offset p whence ≤ r.length) ∧
        r.target p whence = .error .ERANGE) ∨
      (0 ≤ seekTarget r.length r.offset p whence ∧ seekTarget r.length r.offset p whence ≤ r.length) ∧
        (SeekIdle r p whence ∧ seekTarget r.length r.offset p whence = r.offset ∧
            r.target p whence = .ok none ∨
          ¬ SeekIdle r p whence ∧
            r.target p whence = .ok (some (seekTarget r.length r.offset p whence))) := by
  cases whence with
  | seekSet =>
      simp only [seekTarget_set, SeekIdle, target, true_and, reduceCtorEq, false_and, or_false]
      by_cases hidle : p = r.offset
      · rw [if_pos hidle]
        exact .inr ⟨by omega, .inl ⟨hidle, hidle, rfl⟩⟩
      · rw [if_neg hidle]
        by_cases hrange : p < 0 ∨ r.length < p
        · rw [if_pos hrange]
          exact .inl ⟨by omega, rfl⟩
        · rw [if_neg hrange]
          exact .inr ⟨by omega, .inr ⟨hidle, rfl⟩⟩
  | seekCur =>
      simp only [seekTarget_cur, SeekIdle, target, true_and, reduceCtorEq, false_and, false_or]
      by_cases hrange : p + r.offset < 0 ∨ r.length < p + r.offset
      · rw [if_pos hrange]
        exact .inl ⟨by omega, rfl⟩
      · rw [if_neg hrange]
        by_cases hidle : p = 0
        · rw [if_pos hidle]
          exact .inr ⟨by omega, .inl ⟨hidle, by omega, rfl⟩⟩
        · rw [if_neg hidle, Int.add_comm p]
          exact .inr ⟨by omega, .inr ⟨hidle, rfl⟩⟩
  | seekEnd =>
      simp only [seekTarget_end, SeekIdle, target, reduceCtorEq, false_and, or_false, not_false_iff, true_and,
        false_or]
      by_cases hrange : 0 < p ∨ p + r.length < 0
      · rw [if_pos hrange]
        exact .inl ⟨by omega, rfl⟩
      · rw [if_neg hrange, Int.add_comm p]
        exact .inr ⟨by omega, rfl⟩
  | other => exact absurd rfl hwhence

section Accepts

variable {fate : Fate} {o : ByteOrder} {gfs : MongoSyncGridfs} {q : Option Bson}
  {w w₀ w' : World Store} {r₀ r : GridfsReader} {c : Nat} {data : Bytes} {ts : List ReaderTurn}

/-- A position in a file is in no chunk exactly at the end, if the last chunk is full. -/
theorem div_eq_pieceCount_iff (hc : 0 < c) {n : Nat} (hle : n ≤ data.length) :
    n / c = pieceCount c data.length ↔ n = data.length ∧ c ∣ data.length := by
  constructor
  · intro hlast
    by_cases hlt : n < data.length
    · have hin := div_lt_pieces hc hlt
      rw [pieces_length] at hin
      omega
    · have hn : n = data.length := by omega
      refine ⟨hn, ?_⟩
      by_contra hpart
      have hgt := pieceCount_gt hc hpart
      rw [hn] at hlast
      omega
  · rintro ⟨rfl, k, hk⟩
    rw [hk, Nat.mul_div_cancel_left _ hc, pieceCount]
    exact (Nat.div_eq_of_lt_le (by rw [Nat.mul_comm]; omega) (by
      rw [Nat.succ_mul, Nat.mul_comm k]
      omega)).symm

/-- After reads and seeks that succeeded, a seek whose chunk is found if it is there leads to
every position of the file and is refused for any other, unless it is to the end of a file
whose last chunk is full and has something to do. -/
theorem seek_accepts_iff (hc : 0 < c)
    (hfind : ((mongoSyncGridfsStreamFind gfs q).run (serve fate o)).exec w
      = (.ok (.ok (.reader r₀)), w₀))
    (hsize : r₀.chunkSize = c) (hlength : r₀.length = data.length)
    (hchunks : w₀.net.HoldsChunks r₀.id (pieces c data))
    (h : ReaderRun fate o (fun _ _ call => call.Positive) r₀ w₀ ts r w')
    (hok : ∀ t ∈ ts, ∃ bytes, t.result = .ok bytes) (hfate : fate w'.net.tries = none) (p : Int)
    {whence : Whence} (hwhence : whence ≠ .other) :
    (∃ result r' w'', ((mongoSyncGridfsStreamSeek (.reader r) p whence).run (serve fate o)).exec w'
        = (.ok (result, .reader r'), w'') ∧
      SeeksRight data.length (seekTarget data.length (position data.length ts) p whence) result r') ↔
    (seekTarget data.length (position data.length ts) p whence = data.length → c ∣ data.length →
      SeekIdle r p whence) := by
  have hreached := readThrough_of_run hc hfind hsize hlength hchunks h hok
  obtain ⟨pos, hat, hpos⟩ := hreached.at_
  obtain ⟨result, r', w'', k, hexec, -, hseek⟩ := run_seek fate o hc hreached.holds
    hat p whence
  have hresult : ∀ {P : Except Errno Unit → GridfsReader → Prop},
      (∃ result r' w'', ((mongoSyncGridfsStreamSeek (.reader r) p whence).run (serve fate o)).exec w'
        = (.ok (result, .reader r'), w'') ∧ P result r') ↔ P result r' := by
    intro P
    constructor
    · rintro ⟨_, _, _, hexec', hP⟩
      rw [hexec] at hexec'
      cases hexec'
      exact hP
    · intro hP
      exact ⟨_, _, _, hexec, hP⟩
  rw [hresult]
  have hbounds : 0 ≤ r.offset ∧ r.offset ≤ r.length := by
    have hle := hat.pos_le
    rw [hat.offset, hat.length]
    omega
  have htarget := r.target_eq hbounds.1 hbounds.2 p hwhence
  rw [hat.length, hat.offset, hpos] at htarget
  generalize seekTarget data.length (position data.length ts) p whence = t at htarget ⊢
  unfold SeeksRight
  rcases htarget with ⟨hout, htarget⟩ | ⟨hin, ⟨hidle, hsame, htarget⟩ | ⟨hbusy, htarget⟩⟩
  · rw [htarget] at hseek
    rw [if_neg hout]
    exact ⟨fun _ ht => absurd (by omega) hout, fun _ => hseek⟩
  · rw [htarget] at hseek
    obtain ⟨hdone, rfl⟩ := hseek
    rw [if_pos hin]
    exact ⟨fun _ _ _ => hidle, fun _ => ⟨hdone, by rw [hat.offset, hpos, hsame]⟩⟩
  · rw [htarget] at hseek
    rw [if_pos hin]
    obtain ⟨n, rfl⟩ := Int.eq_ofNat_of_zero_le hin.1
    have hle : n ≤ data.length := by omega
    have hend := div_eq_pieceCount_iff hc hle
    rcases hseek with ⟨-, hlt, hdone, ⟨n', hn', hat'⟩, -⟩ | ⟨hlast, hfailed⟩
    · have hin' : n / c < pieceCount c data.length := by exact_mod_cast hlt
      refine ⟨fun _ ht hdvd => ?_, fun _ => ⟨hdone, ?_⟩⟩
      · have := hend.mpr ⟨by omega, hdvd⟩
        omega
      · rw [hat'.offset, ← hn']
    · have hlast' := hlast.resolve_left fun hne => hne hfate
      have hcount : n / c = pieceCount c data.length := by exact_mod_cast hlast'
      obtain ⟨hn, hdvd⟩ := hend.mp hcount
      constructor
      · rintro ⟨hdone, -⟩
        rw [hfailed] at hdone
        cases hdone
      · intro hidle
        exact absurd (hidle (by omega) hdvd) hbusy

end Accepts

/-- All bytes, back into the first chunk, and over the boundary into the last one. -/
def backAcross : List ReaderCall := [.read 9, .seek (-3) .seekCur, .read 2]

/-- A seek back to the boundary between the chunks. -/
theorem seek_accepts_across : ∃ ts r w result r' w'',
    ReaderRun allServed .little (fun _ _ call => call.Positive) shortReader (answered shortWorld) ts r w ∧
      ts.map ReaderTurn.result = [.ok [1, 2, 3, 4], .ok [], .ok [2, 3]] ∧
      ((mongoSyncGridfsStreamSeek (.reader r) (-1) .seekCur).run (serve allServed .little)).exec w
        = (.ok (result, .reader r'), w'') ∧
      SeeksRight 4 (seekTarget 4 (position 4 ts) (-1) .seekCur) result r' := by
  have hplay : (play allServed .little shortReader (answered shortWorld) backAcross).map
      (fun x => (x.1.map ReaderTurn.result, position 4 x.1))
        = some ([.ok [1, 2, 3, 4], .ok [], .ok [2, 3]], 3) := by decide +kernel
  obtain ⟨⟨ts, r, w⟩, hplay, hts⟩ := Option.map_eq_some_iff.mp hplay
  obtain ⟨hts, hposition⟩ : ts.map ReaderTurn.result = [.ok [1, 2, 3, 4], .ok [], .ok [2, 3]] ∧
    position 4 ts = 3 := Prod.mk.inj hts
  have hrun := ReaderRun.start.of_play (P := fun _ _ call => call.Positive) (fun c hc _ _ size hsize => by
    subst hsize
    simp [backAcross] at hc
    omega) hplay
  have hok := ReaderTurn.ok_of_results [[1, 2, 3, 4], [], [2, 3]] hts
  obtain ⟨result, r', w'', hseek, hright⟩ := (seek_accepts_iff (show 0 < 2 by decide)
    (exec_shortFind allServed rfl) rfl (show shortReader.length = ([1, 2, 3, 4] : Bytes).length from rfl)
    (shortStore_holds.after 1) hrun hok rfl (-1) (show Whence.seekCur ≠ .other by decide)).mpr (by
      intro hend
      rw [seekTarget_cur] at hend
      change position 4 ts + -1 = 4 at hend
      omega)
  exact ⟨ts, r, w, result, r', w'', hrun, hts, hseek, hright⟩

/-- A seek to its end fails. -/
theorem seek_refuses_end : ∃ r₀ w₀ r' w'',
    ((mongoSyncGridfsStreamFind smallGridfs (oidQuery idKey smallOid)).run
      (serve allServed .little)).exec shortWorld = (.ok (.ok (.reader r₀)), w₀) ∧
    r₀.chunkSize = 2 ∧ r₀.length = 4 ∧ w₀.net.HoldsChunks r₀.id (pieces 2 [1, 2, 3, 4]) ∧
    ((mongoSyncGridfsStreamSeek (.reader r₀) 0 .seekEnd).run (serve allServed .little)).exec w₀
        = (.ok (.error .EPROTO, .reader r'), w'') ∧
      ¬ SeeksRight 4 (seekTarget 4 (position 4 []) 0 .seekEnd) (.error .EPROTO) r' := by
  have hat : shortReader.At smallOid 2 [1, 2, 3, 4] 0 :=
    ⟨rfl, rfl, rfl, rfl, rfl, by decide, fun _ => .inl ⟨rfl, rfl, rfl⟩⟩
  refine ⟨_, _, _, _, exec_shortFind allServed rfl, rfl, rfl, shortStore_holds.after 1,
    exec_seek_failed hat (q := 4) rfl (.inr rfl), ?_⟩
  rintro ⟨hresult, -⟩
  cases hresult

end LibMongo
