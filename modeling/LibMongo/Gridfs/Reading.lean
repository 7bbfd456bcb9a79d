import LibMongo.Gridfs.Reader
import LibMongo.Gridfs.Agree

/-!
# Runs of a reader

A reader is made by `mongo_sync_gridfs_stream_find` and then read and sought in any order,
while look-ups of chunks may fail.  `ReaderRun` follows it, and `position` is where it has to
stand after the calls that succeeded.

A failed look-up does no harm if it is the first of a read or that of a seek at one of the
ends of the file, and `ReaderCall.Spared` allows for no other.  Then every read returns the
bytes at its position (`reader_exact`).  A look-up that fails at the end of a chunk leaves the
reader between two positions, so that the next read returns other bytes
(`reader_goes_astray`).
-/

namespace LibMongo

open Bytes Interaction Program Store

/-! ## Calls -/

/-- A call on a reader. -/
inductive ReaderCall where
  | read (size : Int)
  | seek (pos : Int) (whence : Whence)
deriving DecidableEq

/-- A round of the loop that reads takes a byte at least.  A seek returns no bytes. -/
def ReaderCall.run (s : MongoSyncGridfsStream) :
    ReaderCall → Grid (Except Errno Bytes × MongoSyncGridfsStream)
  | .read size => mongoSyncGridfsStreamRead (size.toNat + 1) s (some size)
  | .seek pos whence => do
      let (result, s) ← mongoSyncGridfsStreamSeek s pos whence
      return (result.map fun _ => [], s)

/-- A call and what it returned. -/
structure ReaderTurn where
  call : ReaderCall
  result : Except Errno Bytes
deriving DecidableEq

/-- The position after a call.  One that failed leaves it. -/
def ReaderTurn.move (length pos : Int) (t : ReaderTurn) : Int :=
  match t.call, t.result with
  | .read _, .ok bytes => pos + bytes.length
  | .seek p .seekSet, .ok _ => p
  | .seek p .seekCur, .ok _ => pos + p
  | .seek p .seekEnd, .ok _ => length + p
  | _, _ => pos

/-- The position after some calls. -/
def position (length : Int) (ts : List ReaderTurn) : Int := ts.foldl (ReaderTurn.move length) 0

theorem position_snoc (length : Int) (ts : List ReaderTurn) (t : ReaderTurn) :
    position length (ts ++ [t]) = t.move length (position length ts) := by
  simp [position]

/-- Every read that succeeds returns the bytes of the file at its position, up to its size. -/
def ReadsExact (data : Bytes) (ts : List ReaderTurn) : Prop :=
  ∀ front t rest, ts = front ++ t :: rest → ∀ size bytes, t.call = .read size →
    t.result = .ok bytes →
      bytes = (data.drop (position data.length front).toNat).take size.toNat

theorem ReadsExact.nil (data : Bytes) : ReadsExact data [] := by
  intro front t rest hts
  simp at hts

theorem ReadsExact.snoc {data : Bytes} {ts : List ReaderTurn} {t : ReaderTurn}
    (h : ReadsExact data ts)
    (ht : ∀ size bytes, t.call = .read size → t.result = .ok bytes →
      bytes = (data.drop (position data.length ts).toNat).take size.toNat) :
    ReadsExact data (ts ++ [t]) := by
  intro front u rest hts size bytes hcall hresult
  rcases List.eq_nil_or_concat rest with rfl | ⟨rest, v, rfl⟩
  · obtain ⟨rfl, hu⟩ := List.append_inj' hts rfl
    cases hu
    exact ht size bytes hcall hresult
  · rw [List.concat_eq_append, ← List.cons_append, ← List.append_assoc] at hts
    exact h front u rest (List.append_inj' hts rfl).1 size bytes hcall hresult

section Runs

variable (fate : Fate) (o : ByteOrder)

/-- A run of a reader, in which all calls are `P`. -/
inductive ReaderRun (P : GridfsReader → World Store → ReaderCall → Prop) (r₀ : GridfsReader)
    (w₀ : World Store) : List ReaderTurn → GridfsReader → World Store → Prop
  | start : ReaderRun P r₀ w₀ [] r₀ w₀
  | call {ts : List ReaderTurn} {r r' : GridfsReader} {w w' : World Store} {c : ReaderCall}
      {result : Except Errno Bytes} : ReaderRun P r₀ w₀ ts r w → P r w c →
      ((c.run (.reader r)).run (serve fate o)).exec w = (.ok (result, .reader r'), w') →
      ReaderRun P r₀ w₀ (ts ++ [⟨c, result⟩]) r' w'

/-- The look-ups that would do harm do not fail.  A read loads chunks as it passes from one
to the next.  A seek within the file loads one, and there is none at the end of a file whose
last chunk is full. -/
def ReaderCall.Spared (r : GridfsReader) (w : World Store) : ReaderCall → Prop
  | .read size =>
      (r.data = none ∧ fate w.net.tries ≠ none) ∨
        ∀ j < crossings r.chunkSize.toNat r.length.toNat r.offset.toNat size.toNat,
          fate (w.net.tries + (if r.data.isNone then 1 else 0) + j) = none
  | .seek p whence =>
      r.offset = 0 ∨ r.offset = r.length ∨ ∀ q, r.target p whence = .ok (some q) →
        fate w.net.tries = none ∧ (q < r.length ∨ ¬ r.chunkSize ∣ r.length)

end Runs

/-! ## One call -/

section Step

variable {fate : Fate} {o : ByteOrder} {oid : Oid} {c pos : Nat} {data : Bytes}
  {r : GridfsReader} {w : World Store}

/-- A seek that has nothing to do is to the position. -/
theorem GridfsReader.target_none {p : Int} {whence : Whence} (h : r.target p whence = .ok none)
    (length : Int) : ReaderTurn.move length r.offset ⟨.seek p whence, .ok []⟩ = r.offset := by
  cases whence with
  | seekSet =>
      rw [target] at h
      split at h
      next heq => exact heq
      next => split at h <;> cases h
  | seekCur =>
      rw [target] at h
      split at h
      next => cases h
      next =>
        split at h
        next hzero =>
          show r.offset + p = r.offset
          rw [hzero, Int.add_zero]
        next => cases h
  | seekEnd =>
      rw [target] at h
      split at h <;> cases h
  | other => cases h

/-- Any other seek is to a position of the file. -/
theorem GridfsReader.target_some {p q : Int} {whence : Whence}
    (h : r.target p whence = .ok (some q)) :
    ReaderTurn.move r.length r.offset ⟨.seek p whence, .ok []⟩ = q ∧ 0 ≤ q ∧ q ≤ r.length := by
  cases whence with
  | seekSet =>
      rw [target] at h
      split at h
      next => cases h
      next =>
        split at h
        next => cases h
        next hrange =>
          cases h
          exact ⟨rfl, by omega, by omega⟩
  | seekCur =>
      rw [target] at h
      split at h
      next => cases h
      next hrange =>
        split at h
        next => cases h
        next =>
          cases h
          exact ⟨Int.add_comm _ _, by omega, by omega⟩
  | seekEnd =>
      rw [target] at h
      split at h
      next => cases h
      next hrange =>
        cases h
        exact ⟨Int.add_comm _ _, by omega, by omega⟩
  | other => cases h

/-- What a call does: the reader is where the call leaves it, and a read returns the bytes
at the position. -/
structure ReaderCall.Does (c : Nat) (oid : Oid) (data : Bytes) (pos : Nat) (call : ReaderCall)
    (result : Except Errno Bytes) (r' : GridfsReader) (w w' : World Store) : Prop where
  store : ∃ k, w'.net = w.net.after k
  at_ : ∃ pos' : Nat, r'.At oid c data pos' ∧
    (pos' : Int) = ReaderTurn.move data.length pos ⟨call, result⟩
  read : ∀ size bytes, call = .read size → result = .ok bytes →
    bytes = (data.drop pos).take size.toNat

/-- A read. -/
theorem read_does (hc : 0 < c) (hne : data ≠ []) (hchunks : w.net.HasChunks oid (pieces c data))
    (h : r.At oid c data pos) {size : Int} (hspared : (ReaderCall.read size).Spared fate r w) :
    ∃ result r' w', (((ReaderCall.read size).run (.reader r)).run (serve fate o)).exec w
        = (.ok (result, .reader r'), w') ∧
      (ReaderCall.read size).Does c oid data pos result r' w w' := by
  by_cases hsize : size ≤ 0
  · refine ⟨.error .EINVAL, r, w, ?_, ⟨0, rfl⟩, ⟨pos, h, rfl⟩, ?_⟩
    · rw [ReaderCall.run, mongoSyncGridfsStreamRead]
      dsimp only
      rw [if_pos hsize]
      rfl
    · intro _ _ _ hresult
      cases hresult
  obtain ⟨n, rfl⟩ := Int.eq_ofNat_of_zero_le (by omega : 0 ≤ size)
  have hn : 0 < n := by omega
  by_cases hfailed : r.data = none ∧ fate w.net.tries ≠ none
  · -- the first chunk cannot be loaded
    obtain ⟨hexec, hat⟩ := exec_read_failed (o := o) h hn hfailed.1 hfailed.2
    refine ⟨_, _, _, hexec, ⟨1, rfl⟩, ⟨pos, hat, rfl⟩, ?_⟩
    intro _ _ _ hresult
    cases hresult
  · have hfate := hspared.resolve_left hfailed
    rw [h.chunkSize, h.length, h.offset] at hfate
    obtain ⟨r', w', k, hexec, hat, hnet⟩ := exec_read (o := o) hc hne hchunks h hn
      (fun hdata => by
        by_contra hne
        exact hfailed ⟨hdata, hne⟩) hfate
    refine ⟨_, r', w', hexec, ⟨k, hnet⟩, ⟨_, hat, ?_⟩, ?_⟩
    · show _ = (pos : Int) + (((data.drop pos).take n).length : Nat)
      rw [List.length_take, List.length_drop]
      push_cast
      rfl
    · intro size' bytes hcall hresult
      cases hcall
      cases hresult
      rfl

theorem pieceCount_gt {length : Nat} (hc : 0 < c) (h : ¬ c ∣ length) :
    length / c < pieceCount c length := by
  have hdiv := Nat.div_add_mod length c
  have hmod : length % c ≠ 0 := fun hzero => h (Nat.dvd_of_mod_eq_zero hzero)
  rw [pieceCount, Nat.lt_iff_add_one_le, Nat.le_div_iff_mul_le hc, Nat.add_mul, Nat.one_mul,
    Nat.mul_comm]
  omega

/-- A seek. -/
theorem seek_does (hc : 0 < c) (hchunks : w.net.HoldsChunks oid (pieces c data))
    (h : r.At oid c data pos) {p : Int} {whence : Whence}
    (hspared : (ReaderCall.seek p whence).Spared fate r w) :
    ∃ result r' w', (((ReaderCall.seek p whence).run (.reader r)).run (serve fate o)).exec w
        = (.ok (result, .reader r'), w') ∧
      (ReaderCall.seek p whence).Does c oid data pos result r' w w' := by
  have hread : ∀ {result : Except Errno Bytes} (size : Int) (bytes : Bytes),
      ReaderCall.seek p whence = .read size → result = .ok bytes →
        bytes = (data.drop pos).take size.toNat := by
    intro _ _ _ hcall
    cases hcall
  have hmove : ∀ e, ReaderTurn.move data.length pos ⟨.seek p whence, .error e⟩ = pos := by
    intro e
    cases whence <;> rfl
  cases htarget : r.target p whence with
  | error e =>
      refine ⟨.error e, r, w, ?_, ⟨0, rfl⟩, ⟨pos, h, (hmove e).symm⟩, hread⟩
      rw [ReaderCall.run, mongoSyncGridfsStreamSeek, htarget]
      rfl
  | ok target =>
      cases target with
      | none =>
          have hsame := GridfsReader.target_none htarget data.length
          rw [h.offset] at hsame
          refine ⟨.ok [], r, w, ?_, ⟨0, rfl⟩, ⟨pos, h, hsame.symm⟩, hread⟩
          rw [ReaderCall.run, mongoSyncGridfsStreamSeek, htarget]
          rfl
      | some q =>
          obtain ⟨hq, hlo, hhi⟩ := GridfsReader.target_some htarget
          obtain ⟨q, rfl⟩ := Int.eq_ofNat_of_zero_le hlo
          rw [h.length, h.offset] at hq
          rw [h.length] at hhi
          have hhi : q ≤ data.length := by omega
          by_cases hserved : fate w.net.tries = none ∧ q / c < (pieces c data).length
          · obtain ⟨r', hexec, hat, -⟩ := exec_seek (o := o) hchunks.toHasChunks h htarget hhi hserved.2
              hserved.1
            refine ⟨.ok [], r', _, exec_run_bind_ok hexec _, ⟨1, rfl⟩, ⟨q, hat, hq.symm⟩, hread⟩
          · have hfail : fate w.net.tries ≠ none ∨
                w.net.find .chunks (chunkSelector oid (q / c : Nat)) = none := by
              by_cases hfate : fate w.net.tries = none
              · have hle : q / c ≤ (pieces c data).length := by
                  rw [pieces_length, pieceCount]
                  exact Nat.div_le_div_right (by omega)
                have hlast := Nat.le_antisymm hle (Nat.not_lt.mp fun hk => hserved ⟨hfate, hk⟩)
                rw [hlast]
                exact .inr hchunks.missing
              · exact .inl hfate
            have hend : pos = 0 ∨ pos = data.length := by
              rcases hspared with hzero | hlast | hinside
              · rw [h.offset] at hzero
                exact .inl (by omega)
              · rw [h.offset, h.length] at hlast
                exact .inr (by omega)
              · obtain ⟨hfate, hlt⟩ := hinside q htarget
                rw [h.length, h.chunkSize] at hlt
                refine absurd ⟨hfate, ?_⟩ hserved
                rcases hlt with hlt | hdvd
                · exact div_lt_pieces hc (by omega)
                · have hpart : ¬ c ∣ data.length := fun hd => hdvd (Int.natCast_dvd_natCast.mpr hd)
                  rw [pieces_length]
                  exact Nat.lt_of_le_of_lt (Nat.div_le_div_right hhi) (pieceCount_gt hc hpart)
            have hexec := exec_seek_failed (o := o) h htarget hfail
            refine ⟨.error .EPROTO, r.dropped, _, exec_run_bind_ok hexec _, ⟨1, rfl⟩,
              ⟨pos, h.dropped hend, (hmove _).symm⟩, hread⟩

/-- A call that spares the reader. -/
theorem call_does (hc : 0 < c) (hne : data ≠ []) (hchunks : w.net.HoldsChunks oid (pieces c data))
    (h : r.At oid c data pos) {call : ReaderCall} (hspared : call.Spared fate r w) :
    ∃ result r' w', ((call.run (.reader r)).run (serve fate o)).exec w
        = (.ok (result, .reader r'), w') ∧ call.Does c oid data pos result r' w w' := by
  cases call with
  | read size => exact read_does hc hne hchunks.toHasChunks h hspared
  | seek p whence => exact seek_does hc hchunks h hspared

end Step

/-! ## Runs -/

/-- A stream that was found stands at the beginning of its file. -/
theorem streamReader_at {gfs : MongoSyncGridfs} {b : Option Bson} {r : GridfsReader}
    (h : streamReader gfs b = .ok (.ok (.reader r))) :
    r.offset = 0 ∧ r.currentChunk = 0 ∧ r.data = none ∧ r.startOffset = 0 ∧ r.length ≠ 0 := by
  unfold streamReader at h
  obtain ⟨c, -, h⟩ := bind_eq_ok.mp h
  obtain ⟨oid, -, h⟩ := bind_eq_ok.mp h
  cases oid with
  | none => cases h
  | some oid =>
      obtain ⟨⟨length, chunkSize, c'⟩, -, h⟩ := bind_eq_ok.mp h
      dsimp only at h
      split at h
      next => cases h
      next hzero =>
        cases h
        exact ⟨rfl, rfl, rfl, rfl, fun hlength => hzero (.inl hlength)⟩

section Exact

variable {fate : Fate} {o : ByteOrder} {gfs : MongoSyncGridfs} {q : Option Bson}
  {w w₀ : World Store} {r₀ : GridfsReader}

theorem exec_streamFind_at
    (hfind : ((mongoSyncGridfsStreamFind gfs q).run (serve fate o)).exec w
      = (.ok (.ok (.reader r₀)), w₀)) :
    r₀.offset = 0 ∧ r₀.currentChunk = 0 ∧ r₀.data = none ∧ r₀.startOffset = 0 ∧ r₀.length ≠ 0 := by
  unfold mongoSyncGridfsStreamFind at hfind
  split at hfind
  next => cases hfind
  next =>
    obtain ⟨reply, u, -, hfind⟩ := exec_run_bind_eq_ok.mp hfind
    cases reply with
    | error e => cases hfind
    | ok p =>
        obtain ⟨b, u', -, hfind⟩ := exec_run_bind_eq_ok.mp hfind
        rw [exec_run_ofExcept] at hfind
        exact streamReader_at (Prod.mk.inj hfind).1

/-- In a run that spares the reader every read is exact, the stream stands where the calls
that succeeded have left it, and the next call returns. -/
theorem reader_exact {c : Nat} {data : Bytes} (hc : 0 < c)
    (hfind : ((mongoSyncGridfsStreamFind gfs q).run (serve fate o)).exec w
      = (.ok (.ok (.reader r₀)), w₀))
    (hsize : r₀.chunkSize = c) (hlength : r₀.length = data.length)
    (hchunks : w₀.net.HoldsChunks r₀.id (pieces c data)) {ts : List ReaderTurn} {r : GridfsReader}
    {w' : World Store} (h : ReaderRun fate o (fun r w call => call.Spared fate r w) r₀ w₀ ts r w') :
    ReadsExact data ts ∧ r.offset = position data.length ts ∧
      ∀ call : ReaderCall, call.Spared fate r w' → ∃ result r' w'',
        ((call.run (.reader r)).run (serve fate o)).exec w' = (.ok (result, .reader r'), w'') := by
  obtain ⟨hoffset, hcur, hdata, hstart, hnonzero⟩ := exec_streamFind_at hfind
  have hne : data ≠ [] := by
    rintro rfl
    exact hnonzero hlength
  have hrun : ReadsExact data ts ∧ w'.net.HoldsChunks r₀.id (pieces c data) ∧
      ∃ pos : Nat, r.At r₀.id c data pos ∧ (pos : Int) = position data.length ts := by
    induction h with
    | start =>
        refine ⟨.nil data, hchunks, 0, ?_, rfl⟩
        exact ⟨rfl, hsize, hlength, hoffset, hstart, Nat.zero_le _, fun _ => .inl ⟨hdata, rfl, hcur⟩⟩
    | call hrun hspared hexec ih =>
        obtain ⟨hexact, hchunks, pos, hat, hpos⟩ := ih
        obtain ⟨result, r', w', hexec', hdoes⟩ := call_does (o := o) hc hne hchunks hat hspared
        rw [hexec'] at hexec
        cases hexec
        obtain ⟨k, hnet⟩ := hdoes.store
        obtain ⟨pos', hat', hpos'⟩ := hdoes.at_
        refine ⟨hexact.snoc ?_, ?_, pos', hat', ?_⟩
        · intro size bytes hcall hresult
          rw [← hpos, Int.toNat_natCast]
          exact hdoes.read size bytes hcall hresult
        · rw [hnet]
          exact hchunks.after k
        · rw [position_snoc, ← hpos, hpos']
  obtain ⟨hexact, hchunks, pos, hat, hpos⟩ := hrun
  refine ⟨hexact, hat.offset.trans hpos, ?_⟩
  intro call hspared
  obtain ⟨result, r', w'', hexec, -⟩ := call_does (o := o) hc hne hchunks hat hspared
  exact ⟨result, r', w'', hexec⟩

end Exact

/-! ## A file of two chunks -/

/-- A store with a file of four bytes. -/
def shortStore : Store where
  files := [uploadFields (.ascii ['0']) smallGridfs smallOid 4 ⟨0, 0⟩]
  chunks := [chunkDoc smallOid 0 [1, 2], chunkDoc smallOid 1 [3, 4]]
  oid := none
  time := ⟨0, 0⟩
  tries := 0

/-- A connection on socket 5 to the store. -/
def shortWorld : World Store := ⟨shortStore, mongoSyncConnInit ⟨5, 0⟩ true, .ok, 6, []⟩

theorem shortStore_holds : shortStore.HoldsChunks smallOid (pieces 2 [1, 2, 3, 4]) := by
  refine ⟨⟨?_⟩, by rfl⟩
  intro k hk
  match k, hk with
  | 0, _ => exact ⟨_, rfl, rfl, rfl, by decide⟩
  | 1, _ => exact ⟨_, rfl, rfl, rfl, by decide⟩
  | k + 2, hk => exact absurd hk (Nat.not_lt.mpr (Nat.le_add_left 2 k))

/-- The look-up of this number fails. -/
def failsAt (k : Nat) : Fate := fun n => if n = k then some .ENOTCONN else none

/-- The reader of the file, as it is found. -/
def shortReader : GridfsReader where
  gfs := smallGridfs
  chunkSize := 2
  length := 4
  offset := 0
  currentChunk := 0
  id := smallOid
  bson := none
  data := none
  startOffset := 0
  size := 0
  chunkOffset := 0

/-- The file is found. -/
theorem exec_shortFind (fate : Fate) (h : fate 0 = none) :
    ((mongoSyncGridfsStreamFind smallGridfs (oidQuery idKey smallOid)).run
      (serve fate .little)).exec shortWorld
        = (.ok (.ok (.reader shortReader)), answered shortWorld) := by
  have hfits : (uploadFields (.ascii ['0']) smallGridfs smallOid 4 ⟨0, 0⟩).encode.length
      < 2147483612 := by decide
  have hfound : shortWorld.net.find .files (.cons idKey (.oid smallOid) .nil)
      = some (uploadFields (.ascii ['0']) smallGridfs smallOid 4 ⟨0, 0⟩) := rfl
  have hquery := exec_query (n := 1) (o := .little) (show fate shortWorld.net.tries = none from h)
    (oidQuery_decode (by decide) smallOid) hfound hfits rfl
  rw [mongoSyncGridfsStreamFind, oidQuery_eq] at *
  exact (exec_run_bind_ok hquery _).trans rfl

/-- The calls of a run one after the other, with the turns they make. -/
def play (fate : Fate) (o : ByteOrder) (r : GridfsReader) (w : World Store) :
    List ReaderCall → Option (List ReaderTurn × GridfsReader × World Store)
  | [] => some ([], r, w)
  | c :: cs =>
      match ((c.run (.reader r)).run (serve fate o)).exec w with
      | (.ok (result, .reader r'), w') =>
          (play fate o r' w' cs).map fun x => (⟨c, result⟩ :: x.1, x.2)
      | _ => none

theorem ReaderRun.of_play {fate : Fate} {o : ByteOrder}
    {P : GridfsReader → World Store → ReaderCall → Prop} {r₀ r r' : GridfsReader}
    {w₀ w w' : World Store} {ts ts' : List ReaderTurn} {cs : List ReaderCall}
    (hP : ∀ c ∈ cs, ∀ r w, P r w c) (h : ReaderRun fate o P r₀ w₀ ts r w)
    (hplay : play fate o r w cs = some (ts', r', w')) :
    ReaderRun fate o P r₀ w₀ (ts ++ ts') r' w' := by
  induction cs generalizing ts ts' r w with
  | nil =>
      cases hplay
      rwa [List.append_nil]
  | cons c cs ih =>
      rw [play] at hplay
      split at hplay
      next result r₁ w₁ hexec =>
        obtain ⟨⟨ts₁, r₂, w₂⟩, hrest, hturns⟩ := Option.map_eq_some_iff.mp hplay
        cases hturns
        have hnext := ih (fun d hd => hP d (List.mem_cons_of_mem c hd))
          (h.call (hP c List.mem_cons_self r w) hexec) hrest
        rwa [List.append_assoc] at hnext
      next => cases hplay

/-- A read that cannot load the first chunk does no harm: the next one returns its bytes. -/
theorem reader_exact_short :
    ∃ ts r w, ReaderRun (failsAt 1) .little (fun r w call => call.Spared (failsAt 1) r w)
        shortReader (answered shortWorld) ts r w ∧ ts.length = 2 ∧ ReadsExact [1, 2, 3, 4] ts := by
  have hat : shortReader.At smallOid 2 [1, 2, 3, 4] 0 :=
    ⟨rfl, rfl, rfl, rfl, rfl, by decide, fun _ => .inl ⟨rfl, rfl, rfl⟩⟩
  have hfails : failsAt 1 (answered shortWorld).net.tries ≠ none := by decide
  obtain ⟨hfailed, hat'⟩ := exec_read_failed (o := .little) hat (n := 3) (by decide) rfl hfails
  have hfirst := ReaderRun.start.call (P := fun r w call => call.Spared (failsAt 1) r w)
    (c := .read 3) (.inl ⟨rfl, hfails⟩) hfailed
  have hspared : (ReaderCall.read 3).Spared (failsAt 1) shortReader.dropped
      { answered shortWorld with net := (answered shortWorld).net.tried } := by
    refine .inr fun j _ => ?_
    show (if 3 + j = 1 then _ else _) = none
    rw [if_neg (by omega)]
  obtain ⟨result, r, w, hexec, -⟩ :=
    call_does (o := .little) (by decide) (by decide) (shortStore_holds.after 2) hat' hspared
  have hrun := hfirst.call hspared hexec
  exact ⟨_, r, w, hrun, rfl,
    (reader_exact (by decide) (exec_shortFind (failsAt 1) rfl) rfl rfl (shortStore_holds.after 1)
      hrun).1⟩

/-- A read fails at the end of the first chunk.  The next one returns the byte in front of the
position. -/
theorem reader_goes_astray :
    ∃ r₀ w₀ ts r w,
      ((mongoSyncGridfsStreamFind smallGridfs (oidQuery idKey smallOid)).run
        (serve (failsAt 2) .little)).exec shortWorld = (.ok (.ok (.reader r₀)), w₀) ∧
      r₀.chunkSize = 2 ∧ r₀.length = 4 ∧ w₀.net.HoldsChunks r₀.id (pieces 2 [1, 2, 3, 4]) ∧
      ReaderRun (failsAt 2) .little (fun _ _ _ => True) r₀ w₀ ts r w ∧
      ¬ ReadsExact [1, 2, 3, 4] ts := by
  have hplay : (play (failsAt 2) .little shortReader (answered shortWorld)
      [.read 1, .read 2, .read 1]).map Prod.fst
        = some [⟨.read 1, .ok [1]⟩, ⟨.read 2, .error .EPROTO⟩, ⟨.read 1, .ok [1]⟩] := by
    decide +kernel
  obtain ⟨⟨ts, r, w⟩, hrun, hts⟩ := Option.map_eq_some_iff.mp hplay
  have hts : ts = [⟨.read 1, .ok [1]⟩, ⟨.read 2, .error .EPROTO⟩, ⟨.read 1, .ok [1]⟩] := hts
  refine ⟨_, _, ts, r, w, exec_shortFind (failsAt 2) rfl, rfl, rfl, shortStore_holds.after 1,
    ReaderRun.start.of_play (fun _ _ _ _ => trivial) hrun, ?_⟩
  intro hexact
  have hlast := hexact [⟨.read 1, .ok [1]⟩, ⟨.read 2, .error .EPROTO⟩] _ [] hts 1 [1] rfl rfl
  revert hlast
  decide

end LibMongo
