import LibMongo.Gridfs.Store
import LibMongo.Base.Pieces

/-!
# Readers

What a reader returns from a stored file.  `GridfsReader.At` is the invariant: the reader
stands at a position of the file, and the chunk it holds, if it holds one, is the one of the
position.

A look-up of a chunk may fail.  Then the reader has no chunk any more, and the next read
starts over with the first chunk, wherever the reader stands.  So the invariant survives a
failed look-up only at both ends of the file (`exec_seekChunk_failed`).
-/

namespace LibMongo

open Bytes Interaction Program

/-! ## Chunks of a stored file -/

/-- The chunks of a file are found by their numbers. -/
structure Store.HasChunks (s : Store) (oid : Oid) (blocks : List Bytes) : Prop where
  found : ∀ k (hk : k < blocks.length), ∃ d, s.find .chunks (chunkSelector oid k) = some d ∧
    d.lookup dataKey = some (.binary subtypeGeneric blocks[k]) ∧ d.errorValue = none ∧
    d.encode.length < 2147483612

/-- And there is none behind the last. -/
structure Store.HoldsChunks (s : Store) (oid : Oid) (blocks : List Bytes) : Prop
    extends s.HasChunks oid blocks where
  missing : s.find .chunks (chunkSelector oid blocks.length) = none

/-- The store after so many attempts. -/
def Store.after (s : Store) (n : Nat) : Store := { s with tries := s.tries + n }

theorem Store.HasChunks.after {s : Store} {oid : Oid} {blocks : List Bytes}
    (h : s.HasChunks oid blocks) (n : Nat) : (s.after n).HasChunks oid blocks := ⟨h.found⟩

theorem Store.HoldsChunks.after {s : Store} {oid : Oid} {blocks : List Bytes}
    (h : s.HoldsChunks oid blocks) (n : Nat) : (s.after n).HoldsChunks oid blocks :=
  ⟨h.toHasChunks.after n, h.missing⟩

/-- The first document of a reply with one. -/
theorem firstDocument_oneDocument (o : ByteOrder) {d : Doc} (h : d.encode.length < 2147483612) :
    ∃ b, firstDocument (some ((oneDocument d).packet o)) = .ok (some b) ∧ b.Encodes d := by
  obtain ⟨b, hnth, b', hfinish, hb'⟩ :=
    (oneDocument d).getNthDocument_first o (oneDocument_fits h) rfl
  refine ⟨b', ?_, hb'⟩
  rw [firstDocument, hnth, ← hfinish]
  rfl

namespace GridfsReader

/-- The reader with a chunk. -/
def loaded (r : GridfsReader) (b : Bson) (data : Bytes) (size : Nat) : GridfsReader :=
  { r with
    bson := some b
    data := some data
    size := size
    chunkOffset := 0 }

/-- The reader without a chunk. -/
def dropped (r : GridfsReader) : GridfsReader := { r with bson := none, data := none }

theorem load_eq (r : GridfsReader) {b : Bson} {d : Doc} {block : Bytes} (h : b.Encodes d)
    (hl : d.lookup dataKey = some (.binary subtypeGeneric block)) :
    ∃ post, r.load (some b) = .ok (.ok (), r.loaded b (block ++ post) block.length) := by
  obtain ⟨post, hget⟩ := find_getBinary h hl
  refine ⟨post, ?_⟩
  rw [load, ← LawfulMonad.bind_assoc, hget, Program.ok_bind]
  rfl

end GridfsReader

open Store

section Lookups

variable {fate : Fate} {o : ByteOrder} {w : World Store} {r : GridfsReader}

/-- A document that is found is loaded. -/
theorem exec_seekChunk_found {k : Int} {d : Doc} (hfate : fate w.net.tries = none)
    (hfind : w.net.find .chunks (chunkSelector r.id k) = some d)
    (hfits : d.encode.length < 2147483612) (herr : d.errorValue = none) :
    ∃ b : Bson, b.Encodes d ∧ ∀ r', r.load (some b) = .ok (.ok (), r') →
      ((streamSeekChunk r k).run (serve fate o)).exec w = (.ok (.ok (), r'), answered w) := by
  obtain ⟨b, hfirst, hb⟩ := firstDocument_oneDocument o hfits
  refine ⟨b, hb, fun r' hload => ?_⟩
  have hquery := exec_query (n := 1) hfate (chunkQuery_decode r.id k) hfind hfits herr (o := o)
  rw [streamSeekChunk, exec_run_bind_ok hquery]
  dsimp only
  rw [hfirst, ofExcept_ok, ret_bind, hload]
  rfl

/-- A chunk that is loaded. -/
theorem exec_seekChunk {blocks : List Bytes} (h : w.net.HasChunks r.id blocks) {k : Nat}
    (hk : k < blocks.length) (hfate : fate w.net.tries = none) :
    ∃ b post, ((streamSeekChunk r k).run (serve fate o)).exec w
      = (.ok (.ok (), r.loaded b (blocks[k] ++ post) blocks[k].length), answered w) := by
  obtain ⟨d, hfind, hdata, herr, hfits⟩ := h.found k hk
  obtain ⟨b, hb, hseek⟩ := exec_seekChunk_found (o := o) hfate hfind hfits herr
  obtain ⟨post, hload⟩ := r.load_eq hb hdata
  exact ⟨b, post, hseek _ hload⟩

/-- A look-up that fails. -/
theorem exec_seekChunk_failed {k : Int}
    (h : fate w.net.tries ≠ none ∨ w.net.find .chunks (chunkSelector r.id k) = none) :
    ((streamSeekChunk r k).run (serve fate o)).exec w
      = (.ok (.error .EPROTO, r.dropped), { w with net := w.net.tried }) := by
  have hquery : ∃ e, ((Grid.query .chunks 1 (chunkQuery r.id k)).run (serve fate o)).exec w
      = (.ok (.error e), { w with net := w.net.tried }) := by
    cases hfate : fate w.net.tries with
    | some e => exact ⟨e, exec_query_failed hfate⟩
    | none =>
        have hmissing := h.resolve_left fun hne => hne hfate
        exact ⟨.ENOENT, exec_query_missing hfate (chunkQuery_decode r.id k) hmissing⟩
  obtain ⟨e, hquery⟩ := hquery
  rw [streamSeekChunk, exec_run_bind_ok hquery]
  rfl

end Lookups

/-! ## Positions -/

namespace GridfsReader

/-- The reader holds the chunk of this position. -/
structure Stands (r : GridfsReader) (c : Nat) (data : Bytes) (pos : Nat) : Prop where
  bytes : ∃ post, r.data = some (piece c data (pos / c) ++ post)
  size : r.size = (piece c data (pos / c)).length
  currentChunk : r.currentChunk = (pos / c : Nat)
  chunkOffset : r.chunkOffset = (pos % c : Nat)

/-- The reader is at this position of a file.  Without a chunk it is at the beginning, and
at the end of the file it does not matter which chunk it has. -/
structure At (r : GridfsReader) (oid : Oid) (c : Nat) (data : Bytes) (pos : Nat) : Prop where
  id : r.id = oid
  chunkSize : r.chunkSize = c
  length : r.length = data.length
  offset : r.offset = pos
  startOffset : r.startOffset = 0
  pos_le : pos ≤ data.length
  chunk : pos < data.length → (r.data = none ∧ pos = 0 ∧ r.currentChunk = 0) ∨ r.Stands c data pos

end GridfsReader

section Pieces

variable {c pos : Nat} {data : Bytes}

/-- How many bytes of a chunk are left behind a position. -/
theorem piece_left (hc : 0 < c) (hpos : pos < data.length) :
    (piece c data (pos / c)).length - pos % c = min (c - pos % c) (data.length - pos) := by
  have hdiv := Nat.div_add_mod pos c
  have hmod := Nat.mod_lt pos hc
  rw [piece, List.length_take, List.length_drop, Nat.mul_comm]
  omega

theorem mod_lt_piece (hc : 0 < c) (hpos : pos < data.length) :
    pos % c < (piece c data (pos / c)).length := by
  have hleft := piece_left hc hpos
  have hmod := Nat.mod_lt pos hc
  omega

/-- They are the bytes of the file there. -/
theorem take_piece (n : Nat) (hn : n ≤ c - pos % c) :
    ((piece c data (pos / c)).drop (pos % c)).take n = (data.drop pos).take n := by
  have hdiv := Nat.div_add_mod pos c
  rw [Nat.mul_comm] at hdiv
  rw [piece, List.drop_take, List.drop_drop, hdiv, List.take_take, Nat.min_eq_left hn]

/-- A position in a file is in one of its chunks. -/
theorem div_lt_pieces (hc : 0 < c) (hpos : pos < data.length) : pos / c < (pieces c data).length := by
  rw [pieces_length, pieceCount, Nat.lt_iff_add_one_le, Nat.le_div_iff_mul_le hc, Nat.add_mul,
    Nat.one_mul]
  have hdiv := Nat.div_mul_le_self pos c
  omega

end Pieces

/-! ## Reading -/

/-- The number of chunks that are loaded while so many bytes are read. -/
def crossings (c length pos n : Nat) : Nat := min (pos + n) (length - 1) / c - pos / c

section Read

variable {fate : Fate} {o : ByteOrder} {oid : Oid} {c pos n : Nat} {data : Bytes}
  {r : GridfsReader} {w : World Store}

/-- The bytes that are copied from a chunk. -/
theorem memcpyFrom_stands (hc : 0 < c) (hpos : pos < data.length) (h : r.Stands c data pos)
    (hstart : r.startOffset = 0) {m : Nat}
    (hm : m ≤ (piece c data (pos / c)).length - pos % c) :
    memcpyFrom r.data (r.startOffset + r.chunkOffset) m = .ok ((data.drop pos).take m) := by
  obtain ⟨post, hdata⟩ := h.bytes
  have hlt := mod_lt_piece hc hpos
  have hleft := piece_left hc hpos
  have htake : ((piece c data (pos / c)).drop (pos % c)).take m = (data.drop pos).take m :=
    take_piece m (by omega)
  rw [hdata, memcpyFrom, hstart, h.chunkOffset, Int.zero_add]
  rw [if_neg (by omega), Int.toNat_natCast, Int.toNat_natCast,
    List.drop_append_of_le_length (by omega), Bytes.load, if_pos (by simp; omega),
    List.take_append_of_le_length (by simp; omega), htake]

/-- Reading on within the chunk. -/
theorem GridfsReader.Stands.within (h : r.Stands c data pos) (hc : 0 < c)
    (hpos : pos < data.length) {m : Nat} (hm : m < (piece c data (pos / c)).length - pos % c) :
    (r.advance m).Stands c data (pos + m) := by
  have hleft := piece_left hc hpos
  have hmod := Nat.mod_lt pos hc
  have hdiv := Nat.div_add_mod pos c
  have hquot : (pos + m) / c = pos / c := by
    rw [Nat.div_eq_iff hc, Nat.mul_comm]
    omega
  have hrem : (pos + m) % c = pos % c + m := by
    have hdiv' := Nat.div_add_mod (pos + m) c
    rw [hquot] at hdiv'
    omega
  refine ⟨?_, ?_, ?_, ?_⟩
  · rw [hquot]
    exact h.bytes
  · rw [hquot]
    exact h.size
  · rw [hquot]
    exact h.currentChunk
  · show r.chunkOffset + m = _
    rw [h.chunkOffset, hrem]
    push_cast
    rfl

theorem GridfsReader.At.advance (h : r.At oid c data pos) {m : Nat} (hle : pos + m ≤ data.length)
    (hstands : pos + m < data.length → (r.advance m).Stands c data (pos + m)) :
    (r.advance m).At oid c data (pos + m) := by
  refine ⟨h.id, h.chunkSize, h.length, ?_, h.startOffset, hle, fun hlt => .inr (hstands hlt)⟩
  show r.offset + m = _
  rw [h.offset]
  push_cast
  rfl

/-- Where a chunk ends before the file does, the next one begins. -/
theorem next_chunk (hc : 0 < c) (hpos : pos < data.length) {left : Nat}
    (hleft : left = (piece c data (pos / c)).length - pos % c) (hlt : pos + left < data.length) :
    (pos + left) / c = pos / c + 1 ∧ (pos + left) % c = 0 := by
  have hpiece := piece_left hc hpos
  have hmod := Nat.mod_lt pos hc
  have hdiv := Nat.div_add_mod pos c
  have hend : pos + left = c * (pos / c + 1) := by
    rw [Nat.mul_add, Nat.mul_one]
    omega
  rw [hend, Nat.mul_div_cancel_left _ hc, Nat.mul_mod_right]
  exact ⟨rfl, rfl⟩

/-- The first of the chunks that are loaded, and the others. -/
theorem crossings_succ (hc : 0 < c) (hpos : pos < data.length) {left : Nat}
    (hleft : left = (piece c data (pos / c)).length - pos % c) (hlt : pos + left < data.length)
    (hn : left ≤ n) :
    crossings c data.length pos n = crossings c data.length (pos + left) (n - left) + 1 := by
  obtain ⟨hquot, -⟩ := next_chunk hc hpos hleft hlt
  have hle : (pos + left) / c ≤ min (pos + n) (data.length - 1) / c :=
    Nat.div_le_div_right (by omega)
  rw [crossings, crossings, show pos + left + (n - left) = pos + n by omega]
  omega

theorem crossings_eq_zero {length : Nat} (h : min (pos + n) (length - 1) ≤ pos) :
    crossings c length pos n = 0 := by
  rw [crossings]
  exact Nat.sub_eq_zero_of_le (Nat.div_le_div_right h)

/-- No chunk is loaded for bytes in front of the end of one. -/
theorem crossings_within {length : Nat} (hc : 0 < c)
    (h : min (pos + n) (length - 1) < pos + (c - pos % c)) : crossings c length pos n = 0 := by
  have hdiv := Nat.div_add_mod pos c
  have hmod := Nat.mod_lt pos hc
  have hend : pos + (c - pos % c) = (pos / c + 1) * c := by
    rw [Nat.add_mul, Nat.one_mul, Nat.mul_comm]
    omega
  rw [crossings]
  apply Nat.sub_eq_zero_of_le
  apply Nat.le_of_lt_succ
  rw [Nat.div_lt_iff_lt_mul hc, ← hend]
  exact h

/-- The reader with the next chunk. -/
def GridfsReader.next (r : GridfsReader) (m : Nat) (b : Bson) (block : Bytes) (size : Nat) :
    GridfsReader :=
  { r.advance m with currentChunk := r.currentChunk + 1 }.loaded b block size

theorem GridfsReader.Stands.next (h : r.Stands c data pos) (hc : 0 < c)
    (hpos : pos < data.length) {left : Nat}
    (hleft : left = (piece c data (pos / c)).length - pos % c) (hlt : pos + left < data.length)
    (b : Bson) (post : Bytes) :
    (r.next left b (piece c data (pos / c + 1) ++ post) (piece c data (pos / c + 1)).length).Stands
      c data (pos + left) := by
  obtain ⟨hquot, hrem⟩ := next_chunk hc hpos hleft hlt
  refine ⟨⟨post, ?_⟩, ?_, ?_, ?_⟩
  · rw [hquot]
    rfl
  · rw [hquot]
    rfl
  · show r.currentChunk + 1 = _
    rw [h.currentChunk, hquot]
    push_cast
    rfl
  · rw [hrem]
    rfl

theorem GridfsReader.At.next (h : r.At oid c data pos) {left : Nat} {b : Bson} {block : Bytes}
    {size : Nat} (hle : pos + left ≤ data.length)
    (hstands : (r.next left b block size).Stands c data (pos + left)) :
    (r.next left b block size).At oid c data (pos + left) := by
  refine ⟨h.id, h.chunkSize, h.length, ?_, h.startOffset, hle, fun _ => .inr hstands⟩
  show r.offset + left = _
  rw [h.offset]
  push_cast
  rfl

section Rounds

variable {fuel : Nat} {rest m : Int} {done bytes : Bytes}

/-- The loop stops when nothing is wanted any more or nothing is left. -/
theorem readLoop_stop (h : ¬ (0 < rest ∧ r.offset + r.startOffset < r.length)) :
    readLoop (fuel + 1) r rest done = .ret (.ok done, r) := by
  rw [readLoop, if_neg h]
  rfl

variable (hmore : 0 < rest ∧ r.offset + r.startOffset < r.length)
  (hsize : (if rest < r.size - r.chunkOffset then rest else r.size - r.chunkOffset) = m)
  (hbytes : memcpyFrom r.data (r.startOffset + r.chunkOffset) m = .ok bytes)
include hmore hsize hbytes

/-- A round in which no chunk is loaded. -/
theorem readLoop_copy (h : ¬ ((r.advance m).size ≤ (r.advance m).chunkOffset + r.startOffset ∧
      (r.advance m).offset + r.startOffset < r.length)) :
    readLoop (fuel + 1) r rest done = readLoop fuel (r.advance m) (rest - m) (done ++ bytes) := by
  rw [readLoop, if_pos hmore]
  dsimp only
  rw [hsize, hbytes, ofExcept_ok, ret_bind]
  exact if_neg h

/-- A round at the end of a chunk. -/
theorem readLoop_load (h : (r.advance m).size ≤ (r.advance m).chunkOffset + r.startOffset ∧
      (r.advance m).offset + r.startOffset < r.length) :
    readLoop (fuel + 1) r rest done = (do
      match ← streamSeekChunk { r.advance m with currentChunk := r.currentChunk + 1 }
        (r.currentChunk + 1) with
      | (.error e, r) => return (.error e, r)
      | (.ok (), r) => readLoop fuel r (rest - m) (done ++ bytes)) := by
  rw [readLoop, if_pos hmore]
  dsimp only
  rw [hsize, hbytes, ofExcept_ok, ret_bind]
  exact if_pos h

end Rounds

/-- Until a chunk is loaded the reader is at the beginning.  Then the number of the chunk and
the offset in it make up the position. -/
structure GridfsReader.InStep (r : GridfsReader) : Prop where
  start : r.data = none → r.offset = 0
  sum : r.data ≠ none → r.currentChunk * r.chunkSize + r.chunkOffset = r.offset

theorem GridfsReader.Stands.data_ne (h : r.Stands c data pos) : r.data ≠ none := by
  obtain ⟨post, hdata⟩ := h.bytes
  rw [hdata]
  exact Option.some_ne_none _

theorem GridfsReader.Stands.inStep (h : r.Stands c data pos) (hsize : r.chunkSize = c)
    (hoffset : r.offset = pos) : r.InStep where
  start hnone := absurd hnone h.data_ne
  sum _ := by
    have hdiv := Nat.div_add_mod pos c
    rw [h.currentChunk, h.chunkOffset, hsize, hoffset, Int.mul_comm]
    exact_mod_cast hdiv

theorem GridfsReader.InStep.advance (h : r.InStep) (hdata : r.data ≠ none) (m : Int) :
    (r.advance m).InStep where
  start hnone := absurd hnone hdata
  sum _ := by
    show r.currentChunk * r.chunkSize + (r.chunkOffset + m) = r.offset + m
    rw [← h.sum hdata, Int.add_assoc]

/-- The bytes of a round: what is wanted, or what is left of the chunk. -/
theorem round_size (n : Nat) {size q left : Nat} (hq : q ≤ size) (hleft : size - q = left) :
    (if (n : Int) < (size : Int) - q then (n : Int) else (size : Int) - q) = (min n left : Nat) := by
  have hsub : (size : Int) - q = left := by omega
  rw [hsub]
  split
  next h => rw [Nat.min_eq_left (by omega)]
  next h => rw [Nat.min_eq_right (by omega)]

/-- The tests behind a round: the chunk is used up, and the file is not. -/
theorem round_tests (n : Nat) {size q left pos length : Nat} (hq : q ≤ size)
    (hleft : size - q = left) : ((size : Int) ≤ q + (min n left : Nat) ∧
      (pos : Int) + (min n left : Nat) < length) ↔ left ≤ n ∧ pos + left < length := by
  by_cases h : left ≤ n
  · rw [Nat.min_eq_right h]
    omega
  · rw [Nat.min_eq_left (by omega)]
    omega

/-- Where the rounds behind a round lead. -/
theorem round_end (n : Nat) {left pos length : Nat} (hle : pos + left ≤ length) :
    pos + min n left + min (n - min n left) (length - (pos + min n left))
      = pos + min n (length - pos) := by
  by_cases h : left ≤ n
  · rw [Nat.min_eq_right h]
    omega
  · rw [Nat.min_eq_left (by omega), Nat.sub_self, Nat.zero_min, Nat.min_eq_left (by omega)]
    rfl

/-- A round that does not lead to another chunk is the last one, if it takes something. -/
theorem round_last {n left pos length : Nat} (hle : pos + left ≤ length)
    (h : ¬ (left ≤ n ∧ pos + left < length)) :
    (pos + min n left < length → min n left < left) ∧
      min (pos + min n left + (n - min n left)) (length - 1) ≤ pos + min n left ∧
      (0 < left → min (pos + n) (length - 1) < pos + left) := by
  by_cases hn : left ≤ n
  · rw [Nat.min_eq_right hn]
    omega
  · rw [Nat.min_eq_left (by omega)]
    omega

theorem round_shorter {n left fuel : Nat} (hn : 0 < n) (hleft : 0 < left) (h : n < fuel + 1) :
    n - min n left < fuel := by
  have hmin : 0 < min n left := Nat.lt_min.mpr ⟨hn, hleft⟩
  omega

theorem take_round (pos : Nat) (data : Bytes) {m n : Nat} (hm : m ≤ n) :
    (data.drop pos).take m ++ (data.drop (pos + m)).take (n - m) = (data.drop pos).take n := by
  rw [← List.drop_drop, ← List.take_add, Nat.add_sub_of_le hm]

/-- How the loop that reads ends.  If all look-ups are served it returns the bytes at the
position, as many as are asked for and are there, and otherwise it fails. -/
inductive ReadEnds (fate : Fate) (tries : Nat) (oid : Oid) (c : Nat) (data : Bytes) (pos n : Nat)
    (done : Bytes) (r : GridfsReader) : Except Errno Bytes → GridfsReader → Prop
  | served {r' : GridfsReader} :
      (∀ j < crossings c data.length pos n, fate (tries + j) = none) →
      r'.At oid c data (pos + min n (data.length - pos)) → (r.InStep → r'.InStep) →
      ReadEnds fate tries oid c data pos n done r (.ok (done ++ (data.drop pos).take n)) r'
  | failed {r' : GridfsReader} {j : Nat} {e : Errno} :
      j < crossings c data.length pos n → fate (tries + j) ≠ none →
      ReadEnds fate tries oid c data pos n done r (.error e) r'

/-- Nothing is left to do. -/
theorem ReadEnds.done {tries : Nat} {bytes : Bytes} (h : r.At oid c data pos)
    (hstop : n = 0 ∨ data.length ≤ pos) :
    ReadEnds fate tries oid c data pos n bytes r (.ok bytes) r := by
  have htaken : (data.drop pos).take n = [] := by
    rcases hstop with rfl | hend
    · exact List.take_zero
    · rw [List.drop_of_length_le hend, List.take_nil]
  have hresult : (.ok bytes : Except Errno Bytes) = .ok (bytes ++ (data.drop pos).take n) := by
    rw [htaken, List.append_nil]
  have hmin : min n (data.length - pos) = 0 := by omega
  rw [hresult]
  refine .served (fun j hj => ?_) (by rwa [hmin]) id
  rw [crossings_eq_zero (by omega)] at hj
  exact absurd hj (Nat.not_lt_zero j)

section Round

variable {tries left : Nat} {done : Bytes} {r' : GridfsReader} {result : Except Errno Bytes}
  (hc : 0 < c) (hpos : pos < data.length)
  (hleft : (piece c data (pos / c)).length - pos % c = left)
include hc hpos hleft

theorem round_left : 0 < left ∧ pos + left ≤ data.length ∧ pos + left ≤ pos + (c - pos % c) := by
  have hmod := Nat.mod_lt pos hc
  have hpiece := piece_left hc hpos
  omega

/-- The loop goes on within the chunk, and needs no other. -/
theorem ReadEnds.within (hnext : ¬ (left ≤ n ∧ pos + left < data.length)) (hdata : r.data ≠ none)
    (h : ReadEnds fate tries oid c data (pos + min n left) (n - min n left)
      (done ++ (data.drop pos).take (min n left)) (r.advance (min n left : Nat)) result r') :
    ReadEnds fate tries oid c data pos n done r result r' := by
  obtain ⟨hleft0, hends, hroom⟩ := round_left hc hpos hleft
  obtain ⟨-, hrest, hhere⟩ := round_last hends hnext
  cases h with
  | served _ hat hstep =>
      rw [List.append_assoc, take_round pos data (Nat.min_le_left n left)]
      rw [round_end n hends] at hat
      refine .served (fun j hj => ?_) hat (fun hr => hstep (hr.advance hdata _))
      rw [crossings_within hc (Nat.lt_of_lt_of_le (hhere hleft0) hroom)] at hj
      exact absurd hj (Nat.not_lt_zero j)
  | failed hj _ =>
      rw [crossings_eq_zero hrest] at hj
      exact absurd hj (Nat.not_lt_zero _)

/-- The next chunk is served, and the loop goes on in it. -/
theorem ReadEnds.next {r₁ : GridfsReader} (hln : left ≤ n) (hlt : pos + left < data.length)
    (hserved : fate tries = none) (hr₁ : r₁.InStep)
    (h : ReadEnds fate (tries + 1) oid c data (pos + left) (n - left)
      (done ++ (data.drop pos).take left) r₁ result r') :
    ReadEnds fate tries oid c data pos n done r result r' := by
  have hcross := crossings_succ hc hpos hleft.symm hlt hln
  cases h with
  | served hall hat hstep =>
      have hend := round_end n (Nat.le_of_lt hlt)
      rw [Nat.min_eq_right hln] at hend
      rw [List.append_assoc, take_round pos data hln]
      rw [hend] at hat
      refine .served (fun j hj => ?_) hat (fun _ => hstep hr₁)
      cases j with
      | zero => exact hserved
      | succ j =>
          have hj' := hall j (by omega)
          rwa [Nat.add_assoc, Nat.add_comm 1] at hj'
  | @failed _ j e hj hfail =>
      refine .failed (j := j + 1) (by omega) ?_
      rwa [Nat.add_assoc, Nat.add_comm 1] at hfail

variable (hstands : r.Stands c data pos) (h : r.At oid c data pos)
include hstands h

/-- What a round takes from the chunk, and what it tests then. -/
theorem round_stands (n : Nat) :
    (if (n : Int) < r.size - r.chunkOffset then (n : Int) else r.size - r.chunkOffset)
        = (min n left : Nat) ∧
      memcpyFrom r.data (r.startOffset + r.chunkOffset) (min n left : Nat)
        = .ok ((data.drop pos).take (min n left)) ∧
      (((r.advance (min n left : Nat)).size
            ≤ (r.advance (min n left : Nat)).chunkOffset + r.startOffset ∧
          (r.advance (min n left : Nat)).offset + r.startOffset < r.length) ↔
        left ≤ n ∧ pos + left < data.length) := by
  have hle := Nat.le_of_lt (mod_lt_piece hc hpos)
  refine ⟨?_, ?_, ?_⟩
  · rw [hstands.size, hstands.chunkOffset]
    exact round_size n hle hleft
  · apply memcpyFrom_stands hc hpos hstands h.startOffset
    rw [hleft]
    exact Nat.min_le_right n left
  · show r.size ≤ r.chunkOffset + (min n left : Nat) + r.startOffset ∧
      r.offset + (min n left : Nat) + r.startOffset < r.length ↔ _
    rw [hstands.size, hstands.chunkOffset, h.startOffset, h.offset, h.length, Int.add_zero,
      Int.add_zero]
    exact round_tests n hle hleft

/-- The look-up of the chunk behind this one. -/
theorem exec_seek_behind (hchunks : w.net.HasChunks oid (pieces c data))
    (hlt : pos + left < data.length) (hserved : fate w.net.tries = none) :
    ∃ r₁, ((streamSeekChunk { r.advance left with currentChunk := r.currentChunk + 1 }
        (r.currentChunk + 1)).run (serve fate o)).exec w = (.ok (.ok (), r₁), answered w) ∧
      r₁.At oid c data (pos + left) ∧ r₁.Stands c data (pos + left) := by
  obtain ⟨hquot, -⟩ := next_chunk hc hpos hleft.symm hlt
  have hk : pos / c + 1 < (pieces c data).length := by
    rw [← hquot]
    exact div_lt_pieces hc hlt
  have hchunks' : w.net.HasChunks
      { r.advance left with currentChunk := r.currentChunk + 1 }.id (pieces c data) := by
    rw [← h.id] at hchunks
    exact hchunks
  have hcur : r.currentChunk + 1 = ((pos / c + 1 : Nat) : Int) := by
    rw [hstands.currentChunk]
    push_cast
    rfl
  obtain ⟨b, post, hseek⟩ := exec_seekChunk (o := o) hchunks' hk hserved
  rw [getElem_pieces, ← hcur] at hseek
  have hstands' := hstands.next hc hpos hleft.symm hlt b post
  exact ⟨_, hseek, h.next (Nat.le_of_lt hlt) hstands', hstands'⟩

end Round

/-- The loop ends. -/
theorem run_readLoop (fate : Fate) (o : ByteOrder) {fuel : Nat} (done : Bytes) (hc : 0 < c)
    (hchunks : w.net.HasChunks oid (pieces c data)) (h : r.At oid c data pos)
    (hstands : pos < data.length → r.Stands c data pos) (hfuel : n < fuel) :
    ∃ result r' w' k, ((readLoop fuel r n done).run (serve fate o)).exec w
        = (.ok (result, r'), w') ∧ w'.net = w.net.after k ∧
      ReadEnds fate w.net.tries oid c data pos n done r result r' := by
  induction fuel generalizing r w pos n done with
  | zero => exact absurd hfuel (Nat.not_lt_zero _)
  | succ fuel ih =>
      have hoffset := h.offset
      have hstart := h.startOffset
      have hlength := h.length
      by_cases hgoes : 0 < n ∧ pos < data.length
      · obtain ⟨hn, hpos⟩ := hgoes
        have hstands := hstands hpos
        obtain ⟨left, hleft⟩ : ∃ left, (piece c data (pos / c)).length - pos % c = left := ⟨_, rfl⟩
        obtain ⟨hleft0, hends, -⟩ := round_left hc hpos hleft
        obtain ⟨hsize, hbytes, htests⟩ := round_stands hc hpos hleft hstands h n
        have hmore : 0 < (n : Int) ∧ r.offset + r.startOffset < r.length := by omega
        have hrest : (n : Int) - (min n left : Nat) = (n - min n left : Nat) :=
          (Int.ofNat_sub (Nat.min_le_left n left)).symm
        by_cases hnext : left ≤ n ∧ pos + left < data.length
        · -- the chunk is used up, and there is another one
          rw [readLoop_load hmore hsize hbytes (htests.mpr hnext), hrest]
          obtain ⟨hln, hlt⟩ := hnext
          have hcross := crossings_succ hc hpos hleft.symm hlt hln
          rw [Nat.min_eq_right hln]
          by_cases hserved : fate w.net.tries = none
          · obtain ⟨r₁, hseek, hat, hstands'⟩ :=
              exec_seek_behind (o := o) hc hpos hleft hstands h hchunks hlt hserved
            rw [exec_run_bind_ok hseek]
            obtain ⟨result, r', w', k, hexec, hnet, hend⟩ := ih (w := answered w) (n := n - left)
              (done ++ (data.drop pos).take left) (hchunks.after 1) hat (fun _ => hstands')
              (by omega)
            refine ⟨result, r', w', 1 + k, hexec, ?_, ?_⟩
            · rw [hnet]
              exact congrArg (fun t => { w.net with tries := t }) (Nat.add_assoc _ _ _)
            · exact hend.next hc hpos hleft hln hlt hserved
                (hstands'.inStep hat.chunkSize hat.offset)
          · have hseek := exec_seekChunk_failed (o := o)
              (r := { r.advance left with currentChunk := r.currentChunk + 1 })
              (k := r.currentChunk + 1) (.inl hserved)
            rw [exec_run_bind_ok hseek]
            exact ⟨_, _, _, 1, rfl, rfl, .failed (j := 0) (by omega) hserved⟩
        · -- the wanted bytes are in the chunk, or the file ends with it
          rw [readLoop_copy hmore hsize hbytes fun ht => hnext (htests.mp ht), hrest]
          have hstands' : pos + min n left < data.length →
              (r.advance (min n left : Nat)).Stands c data (pos + min n left) := by
            intro hlt
            exact hstands.within hc hpos (by rw [hleft]; exact (round_last hends hnext).1 hlt)
          have hat' := h.advance
            (Nat.le_trans (Nat.add_le_add_left (Nat.min_le_right n left) pos) hends) hstands'
          obtain ⟨result, r', w', k, hexec, hnet, hend⟩ := ih (n := n - min n left)
            (done ++ (data.drop pos).take (min n left)) hchunks hat' hstands'
            (round_shorter hn hleft0 hfuel)
          exact ⟨result, r', w', k, hexec, hnet,
            hend.within hc hpos hleft hnext hstands.data_ne⟩
      · rw [readLoop_stop (by omega)]
        exact ⟨_, r, w, 0, rfl, rfl, .done h (by omega)⟩

/-- If all look-ups are served, the loop returns the bytes at the position. -/
theorem exec_readLoop {fuel : Nat} (done : Bytes) (hc : 0 < c)
    (hchunks : w.net.HasChunks oid (pieces c data)) (h : r.At oid c data pos)
    (hstands : pos < data.length → r.Stands c data pos) (hfuel : n < fuel)
    (hfate : ∀ j < crossings c data.length pos n, fate (w.net.tries + j) = none) :
    ∃ r' w' k, ((readLoop fuel r n done).run (serve fate o)).exec w
        = (.ok (.ok (done ++ (data.drop pos).take n), r'), w') ∧
      r'.At oid c data (pos + min n (data.length - pos)) ∧ w'.net = w.net.after k := by
  obtain ⟨result, r', w', k, hexec, hnet, hend⟩ :=
    run_readLoop fate o done hc hchunks h hstands hfuel
  cases hend with
  | served _ hat _ => exact ⟨r', w', k, hexec, hat, hnet⟩
  | failed hj hfail => exact absurd (hfate _ hj) hfail

namespace GridfsReader

/-- Where the position matters a reader without a chunk is at the beginning. -/
theorem At.stands (h : r.At oid c data pos) (hdata : r.data ≠ none) (hpos : pos < data.length) :
    r.Stands c data pos := by
  rcases h.chunk hpos with ⟨hnone, -⟩ | hstands
  · exact absurd hnone hdata
  · exact hstands

/-- At both ends of the file the chunk can be lost. -/
theorem At.dropped (h : r.At oid c data pos) (hend : pos = 0 ∨ pos = data.length) :
    r.dropped.At oid c data pos := by
  refine ⟨h.id, h.chunkSize, h.length, h.offset, h.startOffset, h.pos_le, fun hpos => .inl ?_⟩
  have hzero : pos = 0 := hend.resolve_right (Nat.ne_of_lt hpos)
  refine ⟨rfl, hzero, ?_⟩
  rcases h.chunk hpos with ⟨-, -, hcur⟩ | hstands
  · exact hcur
  · show r.currentChunk = 0
    rw [hstands.currentChunk, hzero, Nat.zero_div]
    rfl

/-- Without a chunk the reader is at one of them. -/
theorem At.end_of_none (h : r.At oid c data pos) (hdata : r.data = none) :
    pos = 0 ∨ pos = data.length := by
  by_cases hpos : pos < data.length
  · rcases h.chunk hpos with ⟨-, hzero, -⟩ | hstands
    · exact .inl hzero
    · obtain ⟨post, hsome⟩ := hstands.bytes
      rw [hdata] at hsome
      cases hsome
  · exact .inr (Nat.le_antisymm h.pos_le (Nat.not_lt.mp hpos))

/-- The reader with the first chunk. -/
theorem At.loaded (h : r.At oid c data pos) (hdata : r.data = none) (b : Bson) (post : Bytes) :
    (r.loaded b (piece c data 0 ++ post) (piece c data 0).length).At oid c data pos := by
  refine ⟨h.id, h.chunkSize, h.length, h.offset, h.startOffset, h.pos_le, fun hpos => .inr ?_⟩
  rcases h.chunk hpos with ⟨-, hzero, hcur⟩ | hstands
  · rw [hzero]
    refine ⟨⟨post, ?_⟩, ?_, ?_, ?_⟩
    · rw [Nat.zero_div]
      rfl
    · rw [Nat.zero_div]
      rfl
    · rw [Nat.zero_div]
      exact hcur
    · rw [Nat.zero_mod]
      rfl
  · obtain ⟨post', hsome⟩ := hstands.bytes
    rw [hdata] at hsome
    cases hsome

end GridfsReader

/-- The first chunk is loaded. -/
theorem exec_seekFirst (hc : 0 < c) (hne : data ≠ [])
    (hchunks : w.net.HasChunks oid (pieces c data)) (h : r.At oid c data pos)
    (hdata : r.data = none) (hfate : fate w.net.tries = none) :
    ∃ r', ((streamSeekChunk r 0).run (serve fate o)).exec w = (.ok (.ok (), r'), answered w) ∧
      r'.At oid c data pos ∧ r'.data ≠ none := by
  rw [← h.id] at hchunks
  have hk : 0 < (pieces c data).length := by
    have hdiv := div_lt_pieces hc (List.length_pos_iff.mpr hne)
    rwa [Nat.zero_div] at hdiv
  obtain ⟨b, post, hseek⟩ := exec_seekChunk (o := o) hchunks hk hfate
  rw [getElem_pieces] at hseek
  exact ⟨_, hseek, h.loaded hdata b post, Option.some_ne_none _⟩

/-- How a read ends.  If it succeeds it has returned what there is, up to the size asked for. -/
theorem run_read (fate : Fate) (o : ByteOrder) (hc : 0 < c) (hne : data ≠ [])
    (hchunks : w.net.HasChunks oid (pieces c data)) (h : r.At oid c data pos) (hn : 0 < n) :
    ∃ result r' w' k,
      ((mongoSyncGridfsStreamRead (n + 1) (.reader r) (some n)).run (serve fate o)).exec w
        = (.ok (result, .reader r'), w') ∧ w'.net = w.net.after k ∧
      ∀ bytes, result = .ok bytes → bytes = (data.drop pos).take n ∧
        r'.At oid c data (pos + min n (data.length - pos)) ∧ (r.InStep → r'.InStep) := by
  rw [mongoSyncGridfsStreamRead]
  dsimp only
  rw [if_neg (by omega)]
  cases hdata : r.data with
  | some bytes =>
      obtain ⟨result, r', w', k, hexec, hnet, hend⟩ := run_readLoop fate o [] hc
        hchunks h (h.stands (by rw [hdata]; exact Option.some_ne_none _)) (Nat.lt_succ_self n)
      refine ⟨result, r', w', k, exec_run_bind_ok hexec _, hnet, ?_⟩
      intro bytes hok
      subst hok
      cases hend with
      | served _ hat hstep => exact ⟨rfl, hat, hstep⟩
  | none =>
      by_cases hfate : fate w.net.tries = none
      · obtain ⟨r₁, hseek, hat, hsome⟩ := exec_seekFirst (o := o) hc hne hchunks h hdata hfate
        obtain ⟨result, r', w', k, hexec, hnet, hend⟩ := run_readLoop fate o
          (w := answered w) [] hc (hchunks.after 1) hat (hat.stands hsome) (Nat.lt_succ_self n)
        refine ⟨result, r', w', 1 + k, ?_, ?_, ?_⟩
        · refine (exec_run_bind_ok hseek _).trans ?_
          exact exec_run_bind_ok hexec _
        · rw [hnet]
          exact congrArg (fun t => { w.net with tries := t }) (Nat.add_assoc _ _ _)
        intro bytes hok
        subst hok
        cases hend with
        | served _ hat' hstep =>
            refine ⟨rfl, hat', fun hr => hstep ?_⟩
            -- the reader is at the beginning, in its first chunk
            have hpos : pos = 0 := by
              have hzero := hr.start hdata
              rw [h.offset] at hzero
              exact Int.ofNat_eq_zero.mp hzero
            have hstands := hat.stands hsome
              (by rw [hpos]; exact List.length_pos_iff.mpr hne)
            exact hstands.inStep hat.chunkSize hat.offset
      · refine ⟨.error .EPROTO, _, _, 1,
          exec_run_bind_ok (exec_seekChunk_failed (.inl hfate)) _, rfl, ?_⟩
        intro bytes hok
        cases hok

/-- A read that is served returns what there is, up to the size asked for. -/
theorem exec_read (hc : 0 < c) (hne : data ≠ []) (hchunks : w.net.HasChunks oid (pieces c data))
    (h : r.At oid c data pos) (hn : 0 < n) (hfirst : r.data = none → fate w.net.tries = none)
    (hfate : ∀ j < crossings c data.length pos n,
      fate (w.net.tries + (if r.data.isNone then 1 else 0) + j) = none) :
    ∃ r' w' k, ((mongoSyncGridfsStreamRead (n + 1) (.reader r) (some n)).run (serve fate o)).exec w
        = (.ok (.ok ((data.drop pos).take n), .reader r'), w') ∧
      r'.At oid c data (pos + min n (data.length - pos)) ∧ w'.net = w.net.after k := by
  rw [mongoSyncGridfsStreamRead]
  dsimp only
  rw [if_neg (by omega)]
  cases hdata : r.data with
  | some bytes =>
      rw [hdata] at hfate
      obtain ⟨r', w', k, hexec, hat, hnet⟩ := exec_readLoop (o := o) [] hc hchunks h
        (h.stands (by rw [hdata]; exact Option.some_ne_none _)) (Nat.lt_succ_self n) hfate
      refine ⟨r', w', k, ?_, hat, hnet⟩
      exact exec_run_bind_ok hexec _
  | none =>
      rw [hdata] at hfate
      obtain ⟨r₁, hseek, hat, hsome⟩ :=
        exec_seekFirst (o := o) hc hne hchunks h hdata (hfirst hdata)
      obtain ⟨r', w', k, hexec, hat', hnet⟩ := exec_readLoop (o := o) (w := answered w) []
        hc (hchunks.after 1) hat (hat.stands hsome) (Nat.lt_succ_self n) hfate
      refine ⟨r', w', 1 + k, ?_, hat', ?_⟩
      · refine (exec_run_bind_ok hseek _).trans ?_
        exact exec_run_bind_ok hexec _
      · rw [hnet]
        exact congrArg (fun t => { w.net with tries := t }) (Nat.add_assoc _ _ _)

/-- A read that cannot load the first chunk leaves the position as it is. -/
theorem exec_read_failed (h : r.At oid c data pos) (hn : 0 < n) (hdata : r.data = none)
    (hfate : fate w.net.tries ≠ none) :
    ((mongoSyncGridfsStreamRead (n + 1) (.reader r) (some n)).run (serve fate o)).exec w
        = (.ok (.error .EPROTO, .reader r.dropped), { w with net := w.net.tried }) ∧
      r.dropped.At oid c data pos := by
  refine ⟨?_, h.dropped (h.end_of_none hdata)⟩
  rw [mongoSyncGridfsStreamRead]
  dsimp only
  rw [if_neg (by omega), hdata]
  exact exec_run_bind_ok (exec_seekChunk_failed (.inl hfate)) _

/-! ## Seeking -/

section Seek

variable {p : Int} {whence : Whence} {q : Nat}

/-- A seek to a chunk that is served. -/
theorem exec_seek (hchunks : w.net.HasChunks oid (pieces c data))
    (h : r.At oid c data pos) (htarget : r.target p whence = .ok (some (q : Int)))
    (hq : q ≤ data.length) (hk : q / c < (pieces c data).length)
    (hfate : fate w.net.tries = none) :
    ∃ r', ((mongoSyncGridfsStreamSeek (.reader r) p whence).run (serve fate o)).exec w
        = (.ok (.ok (), .reader r'), answered w) ∧ r'.At oid c data q ∧ r'.InStep := by
  rw [← h.id] at hchunks
  obtain ⟨b, post, hseek⟩ := exec_seekChunk (o := o) hchunks hk hfate
  rw [getElem_pieces] at hseek
  have hdiv : ((q : Int)).tdiv r.chunkSize = (q / c : Nat) := by
    rw [h.chunkSize]
    rfl
  have hmod : ((q : Int)).tmod r.chunkSize = (q % c : Nat) := by
    rw [h.chunkSize]
    rfl
  refine ⟨
    { r.loaded b (piece c data (q / c) ++ post) (piece c data (q / c)).length with
      chunkOffset := (q % c : Nat)
      currentChunk := (q / c : Nat)
      offset := q }, ?_, ⟨h.id, h.chunkSize, h.length, rfl, h.startOffset, hq, fun _ => .inr ?_⟩,
    ⟨fun hnone => (by cases hnone), fun _ => ?_⟩⟩
  · rw [← hdiv] at hseek
    rw [mongoSyncGridfsStreamSeek, ← hdiv, ← hmod, htarget]
    exact exec_run_bind_ok hseek _
  · exact ⟨⟨post, rfl⟩, rfl, rfl, rfl⟩
  · show ((q / c : Nat) : Int) * r.chunkSize + (q % c : Nat) = q
    rw [h.chunkSize, Int.mul_comm]
    exact_mod_cast Nat.div_add_mod q c

/-- A seek that fails leaves the position as it is, but the chunk is lost. -/
theorem exec_seek_failed (h : r.At oid c data pos)
    (htarget : r.target p whence = .ok (some (q : Int)))
    (hfail : fate w.net.tries ≠ none ∨ w.net.find .chunks (chunkSelector oid (q / c : Nat)) = none) :
    ((mongoSyncGridfsStreamSeek (.reader r) p whence).run (serve fate o)).exec w
      = (.ok (.error .EPROTO, .reader r.dropped), { w with net := w.net.tried }) := by
  have hdiv : ((q : Int)).tdiv r.chunkSize = (q / c : Nat) := by
    rw [h.chunkSize]
    rfl
  rw [← h.id] at hfail
  rw [← hdiv] at hfail
  rw [mongoSyncGridfsStreamSeek, htarget]
  exact exec_run_bind_ok (exec_seekChunk_failed hfail) _

end Seek

end Read

end LibMongo
