import LibMongo.Gridfs.Slots
import LibMongo.Gridfs.Reading

/-!
# Chunks of both subtypes

The data of a chunk are of the subtype `GENERIC`, or of the old subtype `BINARY`, in which
four bytes stand in front of the payload.  The reader skips them, and goes on to skip four
bytes of every later chunk.

A file of such chunks is a list of slots (`slotsOf`), and a read of the stream is a read of
the slots (`exec_read_slots`).  So reads up to the end return the payloads just if the slots
are read whole (`binary_reads_iff`).
-/

namespace LibMongo

open Bytes Interaction Program Store

/-! ## Chunks -/

/-- The subtypes that the data of a chunk may have. -/
inductive ChunkKind where
  | generic
  /-- The four bytes in front of the payload. -/
  | binary (front : BitVec 32)
deriving DecidableEq

/-- A document of the collection of chunks.  The data is its first element of that name. -/
structure StoredChunk where
  before : Doc
  kind : ChunkKind
  payload : Bytes
  after : Doc
  first : before.lookup dataKey = none

namespace StoredChunk

/-- The subtype byte of the data. -/
def subtype (c : StoredChunk) : UInt8 :=
  match c.kind with
  | .generic => subtypeGeneric
  | .binary _ => subtypeBinary

/-- The bytes of the data. -/
def block (c : StoredChunk) : Bytes :=
  match c.kind with
  | .generic => c.payload
  | .binary front => leBytes 4 front.toNat ++ c.payload

/-- The chunk as a document, with what stands before and after the data. -/
def doc (c : StoredChunk) : Doc :=
  c.before.append (.cons dataKey (.binary c.subtype c.block) c.after)

/-- The document from the data on. -/
def image (c : StoredChunk) : Bytes := c.block ++ (c.after.elems ++ [0])

/-- The offset that the reader has when it has loaded the chunk. -/
def skew (c : StoredChunk) (s : Nat) : Nat :=
  match c.kind with
  | .generic => s
  | .binary _ => 4

/-- The chunk as the reader sees it. -/
def slot (c : StoredChunk) (s : Nat) : Slot := ⟨s, c.image.drop s, c.payload⟩

end StoredChunk

/-- The chunks of a file as the reader sees them. -/
def slotsOf (s : Nat) : List StoredChunk → List Slot
  | [] => []
  | c :: cs => c.slot (c.skew s) :: slotsOf (c.skew s) cs

theorem StoredChunk.le_skew (c : StoredChunk) {s : Nat} (hs : s ≤ 4) : s ≤ c.skew s ∧ c.skew s ≤ 4 := by
  rw [skew]
  cases c.kind with
  | generic => exact ⟨Nat.le_refl s, hs⟩
  | binary front => exact ⟨hs, Nat.le_refl 4⟩

/-- The offset never gets smaller. -/
theorem slotsOf_le {s : Nat} (hs : s ≤ 4) (cs : List StoredChunk) :
    ∀ t ∈ slotsOf s cs, s ≤ t.skew := by
  induction cs generalizing s with
  | nil =>
      intro t ht
      cases ht
  | cons c cs ih =>
      intro t ht
      obtain ⟨hle, hle'⟩ := c.le_skew hs
      rw [slotsOf, List.mem_cons] at ht
      rcases ht with rfl | ht
      · exact hle
      · exact Nat.le_trans hle (ih hle' t ht)

theorem slotsOf_grow {s : Nat} (hs : s ≤ 4) (cs : List StoredChunk) :
    (slotsOf s cs).Pairwise fun t u => t.skew ≤ u.skew := by
  induction cs generalizing s with
  | nil => exact .nil
  | cons c cs ih =>
      obtain ⟨-, hle⟩ := c.le_skew hs
      exact .cons (slotsOf_le hle cs) (ih hle)

/-- The payloads of all chunks. -/
def chunkPayloads (cs : List StoredChunk) : Bytes := cs.flatMap StoredChunk.payload

theorem payloads_slotsOf (s : Nat) (cs : List StoredChunk) :
    payloads (slotsOf s cs) = chunkPayloads cs := by
  induction cs generalizing s with
  | nil => rfl
  | cons c cs ih =>
      rw [slotsOf, payloads_cons, ih]
      rfl

/-- The chunks are found by their numbers, and there is none behind the last. -/
structure Store.KeepsChunks (s : Store) (oid : Oid) (cs : List StoredChunk) : Prop where
  found : ∀ k (hk : k < cs.length), s.find .chunks (chunkSelector oid k) = some cs[k].doc ∧
    cs[k].doc.errorValue = none ∧ cs[k].doc.encode.length < 2147483612
  missing : s.find .chunks (chunkSelector oid cs.length) = none

theorem Store.KeepsChunks.after {s : Store} {oid : Oid} {cs : List StoredChunk}
    (h : s.KeepsChunks oid cs) (n : Nat) : (s.after n).KeepsChunks oid cs := ⟨h.found, h.missing⟩

/-! ## Loading a chunk -/

/-- The reader with this chunk. -/
def GridfsReader.holding (r : GridfsReader) (b : Bson) (c : StoredChunk) (s : Nat) : GridfsReader :=
  { r with
    bson := some b
    data := some c.image
    startOffset := s
    size := c.payload.length
    chunkOffset := 0 }

theorem GridfsReader.load_chunk (r : GridfsReader) {b : Bson} {c : StoredChunk} {s : Nat}
    (h : b.Encodes c.doc) (hs : r.startOffset = s) :
    r.load (some b) = .ok (.ok (), r.holding b c (c.skew s)) := by
  have hfind := bsonFind_first h c.first
  have hget := h.getBinary_eq
  rw [load, hfind, ok_bind, hget, ok_bind]
  dsimp only
  cases hkind : c.kind with
  | generic =>
      have hsub : c.subtype = subtypeGeneric := by rw [StoredChunk.subtype, hkind]
      have hblock : c.block = c.payload := by rw [StoredChunk.block, hkind]
      have hskew : c.skew s = s := by rw [StoredChunk.skew, hkind]
      rw [if_pos hsub, GridfsReader.holding, hskew, ← hs, StoredChunk.image, hblock]
      rfl
  | binary front =>
      have hsub : c.subtype = subtypeBinary := by rw [StoredChunk.subtype, hkind]
      have hblock : c.block = leBytes 4 front.toNat ++ c.payload := by
        rw [StoredChunk.block, hkind]
      have hskew : c.skew s = 4 := by rw [StoredChunk.skew, hkind]
      have hsize : (c.block.length : Int) - 4 = c.payload.length := by
        rw [hblock, List.length_append, leBytes_length]
        omega
      rw [if_neg (by rw [hsub]; decide), if_pos hsub, GridfsReader.holding, hskew, hsize]
      rfl

section Lookups

variable {fate : Fate} {o : ByteOrder} {w : World Store} {r : GridfsReader}
  {cs : List StoredChunk}

/-- A chunk that is loaded. -/
theorem exec_seekChunk_kind (h : w.net.KeepsChunks r.id cs) {k s : Nat} (hk : k < cs.length)
    (hs : r.startOffset = s) (hfate : fate w.net.tries = none) :
    ∃ b, ((streamSeekChunk r k).run (serve fate o)).exec w
      = (.ok (.ok (), r.holding b cs[k] (cs[k].skew s)), answered w) := by
  obtain ⟨hfind, herr, hfits⟩ := h.found k hk
  obtain ⟨b, hb, hseek⟩ := exec_seekChunk_found (o := o) hfate hfind hfits herr
  exact ⟨b, hseek _ (r.load_chunk hb hs)⟩

end Lookups

/-! ## A read -/

/-- The reader is in the chunk behind those of `front`, at an offset in its payload and at a
position of the file. -/
structure GridfsReader.In (r : GridfsReader) (oid : Oid) (length : Nat) (front : List StoredChunk)
    (c : StoredChunk) (s q pos : Nat) : Prop where
  id : r.id = oid
  length : r.length = length
  offset : r.offset = pos
  data : r.data = some c.image
  startOffset : r.startOffset = s
  size : r.size = c.payload.length
  chunkOffset : r.chunkOffset = q
  inside : q ≤ c.payload.length
  currentChunk : r.currentChunk = front.length

/-- The reader has these slots before it. -/
def GridfsReader.Shows (r : GridfsReader) (oid : Oid) (length : Nat) (cs : List StoredChunk)
    (slots : List Slot) (pos : Nat) : Prop :=
  ∃ front c back s q, cs = front ++ c :: back ∧
    slots = (c.slot s).drop q :: slotsOf s back ∧ r.In oid length front c s q pos

/-- What returns is this read of the slots, behind what was read before.  A read of the slots
does return if all is `served`. -/
structure ReadsSlots (oid : Oid) (length : Nat) (cs : List StoredChunk) (slots : List Slot)
    (pos n : Nat) (done : Bytes) (w : World Store) (served : Prop)
    (returns : Except Errno Bytes → GridfsReader → World Store → Prop) : Prop where
  sound : ∀ bytes r' w', returns (.ok bytes) r' w' → ∃ more slots', bytes = done ++ more ∧
    readSlots length slots pos n = some (more, slots') ∧
    r'.Shows oid length cs slots' (pos + more.length) ∧ ∃ k, w'.net = w.net.after k
  complete : served → ∀ more slots', readSlots length slots pos n = some (more, slots') →
    ∃ bytes r' w', returns (.ok bytes) r' w'

section Read

variable {fate : Fate} {order : ByteOrder} {w : World Store} {r : GridfsReader} {oid : Oid}
  {length s q pos n : Nat} {front back cs : List StoredChunk} {c : StoredChunk} {slots : List Slot}
  {done : Bytes} {served : Prop}

section Returns

variable {returns : Except Errno Bytes → GridfsReader → World Store → Prop}

/-- A read that does not succeed, and whose slots do not either. -/
theorem ReadsSlots.failed (hout : ∀ bytes r' w', ¬ returns (.ok bytes) r' w')
    (hslots : served → readSlots length slots pos n = none) :
    ReadsSlots oid length cs slots pos n done w served returns where
  sound bytes r' w' h := absurd h (hout bytes r' w')
  complete hserved more slots' h := by
    rw [hslots hserved] at h
    cases h

theorem ReadsSlots.returned {bytes more : Bytes} {slots' : List Slot} {r' : GridfsReader}
    (hbytes : bytes = done ++ more)
    (hslots : readSlots length slots pos n = some (more, slots'))
    (hshows : r'.Shows oid length cs slots' (pos + more.length)) :
    ReadsSlots oid length cs slots pos n done w served fun result r₁ w₁ =>
      ((Except.ok (Except.ok bytes, r'), w) :
        Except Halt (Except Errno Bytes × GridfsReader) × World Store) = (.ok (result, r₁), w₁) where
  sound bytes₁ r₁ w₁ h := by
    cases h
    exact ⟨more, slots', hbytes, hslots, hshows, 0, rfl⟩
  complete _ _ _ _ := ⟨_, _, _, rfl⟩

/-- The same returns. -/
theorem ReadsSlots.of {returns₁ : Except Errno Bytes → GridfsReader → World Store → Prop}
    {served₁ : Prop} (h : ReadsSlots oid length cs slots pos n done w served₁ returns₁)
    (hreturns : ∀ result r' w', returns₁ result r' w' ↔ returns result r' w')
    (hserved : served → served₁) :
    ReadsSlots oid length cs slots pos n done w served returns where
  sound bytes r' w' hr := h.sound bytes r' w' ((hreturns _ _ _).mpr hr)
  complete hs more slots' hread := by
    obtain ⟨bytes, r', w', hr⟩ := h.complete (hserved hs) more slots' hread
    exact ⟨bytes, r', w', (hreturns _ _ _).mp hr⟩

/-- A read that starts with a look-up. -/
theorem ReadsSlots.later
    (h : ReadsSlots oid length cs slots pos n done (answered w) served returns) :
    ReadsSlots oid length cs slots pos n done w served returns where
  sound bytes r' w' hr := by
    obtain ⟨more, slots', hbytes, hread, hshows, k, hnet⟩ := h.sound bytes r' w' hr
    refine ⟨more, slots', hbytes, hread, hshows, 1 + k, ?_⟩
    rw [hnet]
    exact congrArg (fun t => { w.net with tries := t }) (Nat.add_assoc _ _ _)
  complete := h.complete

/-- The read goes on behind the bytes of the first slot. -/
theorem ReadsSlots.before {slots₁ : List Slot} {m n' : Nat} {bytes : Bytes} {served₁ : Prop} (hm : bytes.length = m)
    (hslots : readSlots length slots pos n
      = (readSlots length slots₁ (pos + m) n').map fun x => (bytes ++ x.1, x.2))
    (h : ReadsSlots oid length cs slots₁ (pos + m) n' (done ++ bytes) w served₁ returns)
    (hserved : served → served₁) :
    ReadsSlots oid length cs slots pos n done w served returns where
  sound bytes₁ r' w' hout := by
    obtain ⟨more, slots', hbytes, hread, hshows, hnet⟩ := h.sound bytes₁ r' w' hout
    refine ⟨bytes ++ more, slots', ?_, ?_, ?_, hnet⟩
    · rw [hbytes, List.append_assoc]
    · rw [hslots, hread]
      rfl
    · rw [List.length_append, hm, ← Nat.add_assoc]
      exact hshows
  complete hs more slots' hread := by
    rw [hslots] at hread
    obtain ⟨⟨more₁, slots₂⟩, hrest, -⟩ := Option.map_eq_some_iff.mp hread
    exact h.complete (hserved hs) more₁ slots₂ hrest

end Returns

theorem GridfsReader.In.advance (h : r.In oid length front c s q pos) {m : Nat}
    (hm : q + m ≤ c.payload.length) : (r.advance m).In oid length front c s (q + m) (pos + m) where
  id := h.id
  length := h.length
  offset := by
    show r.offset + m = _
    rw [h.offset]
    push_cast
    rfl
  data := h.data
  startOffset := h.startOffset
  size := h.size
  chunkOffset := by
    show r.chunkOffset + m = _
    rw [h.chunkOffset]
    push_cast
    rfl
  inside := hm
  currentChunk := h.currentChunk

theorem GridfsReader.In.next (h : r.In oid length front c s q pos) {m : Nat} (b : Bson)
    (c' : StoredChunk) (s' : Nat) :
    ({ r.advance m with currentChunk := r.currentChunk + 1 }.holding b c' s').In oid length
      (front ++ [c]) c' s' 0 (pos + m) where
  id := h.id
  length := h.length
  offset := by
    show r.offset + m = _
    rw [h.offset]
    push_cast
    rfl
  data := rfl
  startOffset := rfl
  size := rfl
  chunkOffset := rfl
  inside := Nat.zero_le _
  currentChunk := by
    show r.currentChunk + 1 = _
    rw [h.currentChunk, List.length_append, List.length_singleton]
    push_cast
    rfl

/-- The bytes of a round, if there are so many. -/
theorem GridfsReader.In.memcpy (h : r.In oid length front c s q pos) (m : Nat) :
    memcpyFrom r.data (r.startOffset + r.chunkOffset) m
      = Bytes.load ((c.slot s).drop q).bytes m := by
  have hdrop : ((s : Int) + q).toNat = s + q := by omega
  rw [h.data, memcpyFrom, h.startOffset, h.chunkOffset, if_neg (by omega), hdrop, Int.toNat_natCast,
    Slot.drop_bytes, StoredChunk.slot, List.drop_drop]

/-- The look-up of the next chunk fails, as it does behind the last one, or the reader is at
the beginning of that chunk. -/
theorem exec_seek_next (fate : Fate) (order : ByteOrder)
    (hlookups : w.net.KeepsChunks oid (front ++ c :: back))
    (h : r.In oid length front c s q pos) (m : Nat) :
    (∃ e r' w', ((streamSeekChunk { r.advance m with currentChunk := r.currentChunk + 1 }
        (r.currentChunk + 1)).run (serve fate order)).exec w = (.ok (.error e, r'), w') ∧
      ((∀ k, fate k = none) → back = [])) ∨
    ∃ c' back' r', back = c' :: back' ∧
      ((streamSeekChunk { r.advance m with currentChunk := r.currentChunk + 1 }
        (r.currentChunk + 1)).run (serve fate order)).exec w = (.ok (.ok (), r'), answered w) ∧
      r'.In oid length (front ++ [c]) c' (c'.skew s) 0 (pos + m) := by
  have hid : { r.advance m with currentChunk := r.currentChunk + 1 }.id = oid := h.id
  have hcur : r.currentChunk + 1 = ((front ++ [c]).length : Nat) := by
    rw [h.currentChunk, List.length_append, List.length_singleton]
    push_cast
    rfl
  by_cases hfate : fate w.net.tries = none
  · cases back with
    | nil =>
        have hmissing := hlookups.missing
        rw [← hcur, ← hid] at hmissing
        exact .inl ⟨_, _, _, exec_seekChunk_failed (.inr hmissing), fun _ => rfl⟩
    | cons c' back' =>
        have hk : (front ++ [c]).length < (front ++ c :: c' :: back').length := by simp
        have hget : (front ++ c :: c' :: back')[(front ++ [c]).length] = c' := by
          simp [List.getElem_append_right]
        rw [← hid] at hlookups
        obtain ⟨b, hseek⟩ := exec_seekChunk_kind (o := order) hlookups hk
          (show { r.advance m with currentChunk := r.currentChunk + 1 }.startOffset = (s : Int) from
            h.startOffset) hfate
        rw [hget, ← hcur] at hseek
        exact .inr ⟨c', back', _, rfl, hseek, h.next b c' (c'.skew s)⟩
  · exact .inl ⟨_, _, _, exec_seekChunk_failed (.inl hfate), fun hserved => absurd (hserved _) hfate⟩

/-- The loop that reads is a read of the slots. -/
theorem exec_readLoop_slots (fate : Fate) (order : ByteOrder)
    (hlookups : w.net.KeepsChunks oid (front ++ c :: back))
    (h : r.In oid length front c s q pos) (fuel : Nat) (done : Bytes) :
    ReadsSlots oid length (front ++ c :: back) ((c.slot s).drop q :: slotsOf s back) pos n done w
      ((∀ k, fate k = none) ∧ back.length + 1 < fuel) fun result r' w' =>
        ((readLoop fuel r n done).run (serve fate order)).exec w = (.ok (result, r'), w') := by
  induction fuel generalizing r w n done front c back s q pos with
  | zero =>
      refine .failed ?_ ?_
      · intro bytes r' w' hexec
        cases hexec
      · intro hserved
        exact absurd hserved.2 (Nat.not_lt_zero _)
  | succ fuel ih =>
      have hlength := h.length
      have hoffset := h.offset
      have hstart := h.startOffset
      have hinside := h.inside
      by_cases hstop : n = 0 ∨ length ≤ pos + s
      · -- nothing is wanted any more, or the file is finished
        rw [readLoop_stop (by omega)]
        exact .returned (List.append_nil done).symm (readSlots_stop hstop _)
          ⟨front, c, back, s, q, rfl, rfl, h⟩
      have hmore : 0 < (n : Int) ∧ r.offset + r.startOffset < r.length := by omega
      have hround := round_size n hinside rfl
      rw [← h.size, ← h.chunkOffset] at hround
      have hbytes := h.memcpy (min n (c.payload.length - q))
      have hpayload : ((c.slot s).drop q).payload.length = c.payload.length - q :=
        List.length_drop
      have hmin : min n ((c.slot s).drop q).payload.length = min n (c.payload.length - q) := by
        rw [hpayload]
      generalize hm : min n (c.payload.length - q) = m at hround hbytes hmin
      by_cases hshort : ((c.slot s).drop q).bytes.length < m
      · -- the copy leaves the document
        refine .failed ?_ fun _ => readSlots_short hstop hmin hshort _
        intro bytes r' w'
        rw [Bytes.load, if_neg (Nat.not_le.mpr hshort)] at hbytes
        rw [readLoop, if_pos hmore]
        dsimp only
        rw [hround, hbytes]
        intro hexec
        cases hexec
      have hle := Nat.not_lt.mp hshort
      rw [Bytes.load, if_pos hle] at hbytes
      have hlen : (((c.slot s).drop q).bytes.take m).length = m := by
        rw [List.length_take, Nat.min_eq_left hle]
      have htests : ((r.advance m).size ≤ (r.advance m).chunkOffset + r.startOffset ∧
          (r.advance m).offset + r.startOffset < r.length) ↔
            ((c.slot s).drop q).payload.length ≤ m + s ∧ pos + m + s < length := by
        show r.size ≤ r.chunkOffset + m + r.startOffset ∧
          r.offset + m + r.startOffset < r.length ↔ _
        rw [h.size, h.chunkOffset, hstart, hoffset, hlength, hpayload]
        omega
      have hrest : (n : Int) - m = (n - m : Nat) := by omega
      by_cases hnext : ((c.slot s).drop q).payload.length ≤ m + s ∧ pos + m + s < length
      · -- the next chunk is loaded
        have hslots := readSlots_next hstop hmin hle hnext (slotsOf s back)
        rw [readLoop_load hmore hround hbytes (htests.mpr hnext), hrest]
        rcases exec_seek_next fate order hlookups h m with
          ⟨e, r₁, w₁, hseek, hback⟩ | ⟨c', back', r₁, rfl, hseek, hin⟩
        · refine .failed ?_ ?_
          · intro bytes r' w'
            rw [exec_run_bind_ok hseek]
            intro hexec
            cases hexec
          · intro hserved
            rw [hslots, hback hserved.1]
            rfl
        · rw [exec_run_bind_ok hseek]
          have hlookups' : (answered w).net.KeepsChunks oid ((front ++ [c]) ++ c' :: back') := by
            rw [List.append_assoc]
            exact hlookups.after 1
          have hread := ih (n := n - m) hlookups' hin (done ++ ((c.slot s).drop q).bytes.take m)
          rw [List.append_assoc] at hread
          refine .before hlen hslots hread.later ?_
          rintro ⟨hserved, hfuel⟩
          exact ⟨hserved, by rw [List.length_cons] at hfuel; omega⟩
      · -- the read ends in this chunk
        have hadvance := h.advance (m := m) (by omega)
        rw [readLoop_copy hmore hround hbytes fun ht => hnext (htests.mp ht), hrest]
        cases fuel with
        | zero =>
            refine .failed ?_ ?_
            · intro bytes r' w' hexec
              cases hexec
            · intro hserved
              exact absurd hserved.2 (by omega)
        | succ fuel =>
            have hdone : ¬ (0 < ((n - m : Nat) : Int) ∧
                (r.advance m).offset + (r.advance m).startOffset < (r.advance m).length) := by
              rw [hadvance.offset, hadvance.startOffset, hadvance.length]
              omega
            rw [readLoop_stop hdone]
            refine .returned rfl (readSlots_here hstop hmin hle hnext _)
              ⟨front, c, back, s, q + m, rfl, ?_, ?_⟩
            · rw [Slot.drop_drop]
            · rw [hlen]
              exact hadvance

/-- A reader that has read nothing yet. -/
structure GridfsReader.Fresh (r : GridfsReader) (oid : Oid) (length : Nat) : Prop where
  id : r.id = oid
  length : r.length = length
  offset : r.offset = 0
  data : r.data = none
  startOffset : r.startOffset = 0
  currentChunk : r.currentChunk = 0

theorem GridfsReader.Fresh.first (h : r.Fresh oid length) (b : Bson) (c : StoredChunk) (s : Nat) :
    (r.holding b c s).In oid length [] c s 0 0 where
  id := h.id
  length := h.length
  offset := h.offset
  data := rfl
  startOffset := rfl
  size := rfl
  chunkOffset := rfl
  inside := Nat.zero_le _
  currentChunk := h.currentChunk

/-- A reader with these slots before it, or one that has yet to load the first of them. -/
def GridfsReader.Faces (r : GridfsReader) (oid : Oid) (length : Nat) (cs : List StoredChunk)
    (slots : List Slot) (pos : Nat) : Prop :=
  r.Shows oid length cs slots pos ∨ r.Fresh oid length ∧ slots = slotsOf 0 cs ∧ pos = 0

/-- With a chunk the stream reads in the loop. -/
theorem exec_read_inside {fuel : Nat} {data : Bytes} (hdata : r.data = some data) (hn : 0 < n)
    (result : Except Errno Bytes) (r' : GridfsReader) (w' : World Store) :
    ((mongoSyncGridfsStreamRead fuel (.reader r) (some n)).run (serve fate order)).exec w
        = (.ok (result, .reader r'), w') ↔
      ((readLoop fuel r n []).run (serve fate order)).exec w = (.ok (result, r'), w') := by
  have hread : mongoSyncGridfsStreamRead fuel (.reader r) (some n)
      = (readLoop fuel r n [] >>= fun read => return (read.1, .reader read.2)) := by
    rw [mongoSyncGridfsStreamRead]
    dsimp only
    rw [if_neg (by omega), hdata]
    rfl
  rw [hread, exec_run_bind_eq_ok]
  constructor
  · rintro ⟨⟨result₁, r₁⟩, w₁, hloop, hret⟩
    cases hret
    exact hloop
  · intro hloop
    exact ⟨(result, r'), w', hloop, rfl⟩

/-- Without one it loads the first chunk before. -/
theorem exec_read_fresh {fuel : Nat} {r₁ : GridfsReader} {w₁ : World Store} {ready : Except Errno Unit}
    (hdata : r.data = none) (hn : 0 < n)
    (hseek : ((streamSeekChunk r 0).run (serve fate order)).exec w = (.ok (ready, r₁), w₁))
    (result : Except Errno Bytes) (r' : GridfsReader) (w' : World Store) :
    ((mongoSyncGridfsStreamRead fuel (.reader r) (some n)).run (serve fate order)).exec w
        = (.ok (result, .reader r'), w') ↔
      match ready with
      | .error e => result = .error e ∧ r' = r₁ ∧ w' = w₁
      | .ok () => ((readLoop fuel r₁ n []).run (serve fate order)).exec w₁ = (.ok (result, r'), w') := by
  rw [mongoSyncGridfsStreamRead]
  dsimp only
  rw [if_neg (by omega), hdata, Option.isNone_none, if_pos rfl, exec_run_bind_ok hseek]
  cases ready with
  | error e =>
      constructor
      · intro hexec
        cases hexec
        exact ⟨rfl, rfl, rfl⟩
      · rintro ⟨rfl, rfl, rfl⟩
        rfl
  | ok u =>
      dsimp only
      rw [exec_run_bind_eq_ok]
      constructor
      · rintro ⟨⟨result₁, r₂⟩, w₂, hloop, hret⟩
        cases hret
        exact hloop
      · intro hloop
        exact ⟨(result, r'), w', hloop, rfl⟩

/-- A read of the stream is a read of its slots. -/
theorem exec_read_slots (fate : Fate) (order : ByteOrder) (hlookups : w.net.KeepsChunks oid cs)
    (h : r.Faces oid length cs slots pos) (hn : 0 < n) (fuel : Nat) :
    ReadsSlots oid length cs slots pos n [] w ((∀ k, fate k = none) ∧ cs.length < fuel)
      fun result r' w' =>
        ((mongoSyncGridfsStreamRead fuel (.reader r) (some n)).run (serve fate order)).exec w
          = (.ok (result, .reader r'), w') := by
  rcases h with ⟨front, c, back, s, q, rfl, rfl, hin⟩ | ⟨hfresh, rfl, rfl⟩
  · have hread := exec_readLoop_slots (n := n) fate order hlookups hin fuel []
    refine hread.of (fun result r' w' => (exec_read_inside hin.data hn result r' w').symm) ?_
    rintro ⟨hserved, hfuel⟩
    refine ⟨hserved, ?_⟩
    rw [List.length_append, List.length_cons] at hfuel
    omega
  · have hid := hfresh.id
    rw [← hid] at hlookups
    by_cases hfate : fate w.net.tries = none
    · cases cs with
      | nil =>
          have hseek : ((streamSeekChunk r 0).run (serve fate order)).exec w = _ :=
            exec_seekChunk_failed (.inr hlookups.missing)
          refine .failed ?_ fun _ => rfl
          intro bytes r' w' hexec
          obtain ⟨hresult, -⟩ := (exec_read_fresh hfresh.data hn hseek _ _ _).mp hexec
          cases hresult
      | cons c back =>
          obtain ⟨b, hseek⟩ := exec_seekChunk_kind (o := order) hlookups
            (Nat.zero_lt_succ back.length) hfresh.startOffset hfate
          rw [hid] at hlookups
          have hlookups' : (answered w).net.KeepsChunks oid ([] ++ c :: back) := hlookups.after 1
          have hread := exec_readLoop_slots (n := n) fate order hlookups'
            (hfresh.first b c (c.skew 0)) fuel []
          refine (hread.of (fun result r' w' =>
            (exec_read_fresh hfresh.data hn hseek result r' w').symm) ?_).later
          rintro ⟨hserved, hfuel⟩
          exact ⟨hserved, hfuel⟩
    · have hseek := exec_seekChunk_failed (o := order) (r := r) (k := 0) (.inl hfate)
      refine .failed ?_ ?_
      · intro bytes r' w' hexec
        obtain ⟨hresult, -⟩ := (exec_read_fresh hfresh.data hn hseek _ _ _).mp hexec
        cases hresult
      · intro hserved
        exact absurd (hserved.1 _) hfate

end Read

/-! ## Reads up to the end -/

/-- Reads of these sizes, one after the other, that all succeed. -/
inductive ReadsOut (fate : Fate) (order : ByteOrder) :
    GridfsReader → World Store → List Nat → List Bytes → GridfsReader → World Store → Prop
  | nil {r : GridfsReader} {w : World Store} : ReadsOut fate order r w [] [] r w
  | cons {r r₁ r₂ : GridfsReader} {w w₁ w₂ : World Store} {n fuel : Nat} {bytes : Bytes}
      {ns : List Nat} {bss : List Bytes} : 0 < n →
      ((mongoSyncGridfsStreamRead fuel (.reader r) (some n)).run (serve fate order)).exec w
        = (.ok (.ok bytes, .reader r₁), w₁) →
      ReadsOut fate order r₁ w₁ ns bss r₂ w₂ →
      ReadsOut fate order r w (n :: ns) (bytes :: bss) r₂ w₂

/-- The file is read whole by reads of these sizes. -/
def CutsWell (cs : List StoredChunk) (ns : List Nat) : Prop :=
  ReadWhole (chunkPayloads cs).length (ends 0 ns) 0 (slotsOf 0 cs)

instance decidableCutsWell (cs : List StoredChunk) (ns : List Nat) : Decidable (CutsWell cs ns) :=
  inferInstanceAs (Decidable (ReadWhole _ _ _ _))

section Runs

variable {fate : Fate} {order : ByteOrder} {w w' : World Store} {r r' : GridfsReader} {oid : Oid}
  {length pos : Nat} {cs : List StoredChunk} {slots : List Slot} {ns : List Nat} {bss : List Bytes}

/-- Without chunks of the old subtype a file is read whole by any reads. -/
theorem cutsWell_generic (hkinds : ∀ c ∈ cs, c.kind = .generic) (ns : List Nat) :
    CutsWell cs ns := by
  have hwhole : ∀ length pos, pos + (chunkPayloads cs).length = length →
      ReadWhole length (ends 0 ns) pos (slotsOf 0 cs) := by
    induction cs with
    | nil =>
        intro length pos _
        trivial
    | cons c cs ih =>
        intro length pos hlength
        rw [chunkPayloads, List.flatMap_cons, List.length_append] at hlength
        have hkind := hkinds c List.mem_cons_self
        have hskew : c.skew 0 = 0 := by rw [StoredChunk.skew, hkind]
        have hblock : c.block = c.payload := by rw [StoredChunk.block, hkind]
        rw [slotsOf, hskew]
        refine ⟨?_, ?_⟩
        · intro hne
          have hpos := List.length_pos_iff.mpr hne
          refine ⟨?_, ?_, ?_⟩
          · show pos + 0 < length
            have hpayload : (c.slot 0).payload = c.payload := rfl
            rw [hpayload] at hpos
            omega
          · show (c.image.drop 0).take c.payload.length = c.payload
            rw [List.drop_zero, StoredChunk.image, hblock, List.take_left']
            rfl
          · intro x _ _ hend
            exact hend
        · apply ih
          · intro d hd
            exact hkinds d (List.mem_cons_of_mem c hd)
          · show pos + c.payload.length + _ = length
            rw [Nat.add_assoc]
            exact hlength
  exact hwhole _ 0 (Nat.zero_add _)

/-- They are reads of the slots. -/
theorem ReadsOut.reads (h : ReadsOut fate order r w ns bss r' w')
    (hlookups : w.net.KeepsChunks oid cs) (hfaces : r.Faces oid length cs slots pos) :
    (∀ n ∈ ns, 0 < n) ∧ ∃ slots', SlotReads length slots pos ns bss slots' := by
  induction h generalizing slots pos with
  | nil => exact ⟨fun n hn => absurd hn List.not_mem_nil, slots, .nil⟩
  | @cons r r₁ r₂ w w₁ w₂ n fuel bytes ns bss hn hexec hrun ih =>
      obtain ⟨more, slots₁, rfl, hread, hshows, k, hnet⟩ :=
        (exec_read_slots fate order hlookups hfaces hn fuel).sound _ _ _ hexec
      have hlookups₁ := hlookups.after k
      rw [← hnet] at hlookups₁
      obtain ⟨hpos, slots₂, hreads⟩ := ih hlookups₁ (.inl hshows)
      refine ⟨?_, slots₂, .cons hread hreads⟩
      intro m hm
      rcases List.mem_cons.mp hm with rfl | hm
      · exact hn
      · exact hpos m hm

/-- Reads of the slots return if all look-ups are served. -/
theorem SlotReads.readsOut (order : ByteOrder) {slots' : List Slot} (h : SlotReads length slots pos ns bss slots')
    (hserved : ∀ k, fate k = none) (hpos : ∀ n ∈ ns, 0 < n) (hlookups : w.net.KeepsChunks oid cs)
    (hfaces : r.Faces oid length cs slots pos) :
    ∃ r' w', ReadsOut fate order r w ns bss r' w' ∧
      r'.Faces oid length cs slots' (pos + bss.flatten.length) ∧ w'.net.KeepsChunks oid cs := by
  induction h generalizing r w with
  | nil => exact ⟨r, w, .nil, hfaces, hlookups⟩
  | @cons slots slots₁ slots₂ pos n ns bytes bss hread hrun ih =>
      have hn := hpos n List.mem_cons_self
      have hstream := exec_read_slots fate order hlookups hfaces hn (cs.length + 1)
      obtain ⟨bytes₁, r₁, w₁, hexec⟩ :=
        hstream.complete ⟨hserved, Nat.lt_succ_self _⟩ bytes slots₁ hread
      obtain ⟨more, slots₃, rfl, hread', hshows, k, hnet⟩ := hstream.sound _ _ _ hexec
      rw [hread] at hread'
      cases hread'
      have hlookups₁ := hlookups.after k
      rw [← hnet] at hlookups₁
      obtain ⟨r₂, w₂, hout, hfaces₂, hlookups₂⟩ :=
        ih (fun m hm => hpos m (List.mem_cons_of_mem n hm)) hlookups₁ (.inl hshows)
      refine ⟨r₂, w₂, .cons hn hexec hout, ?_, hlookups₂⟩
      rw [List.flatten_cons, List.length_append, ← Nat.add_assoc]
      exact hfaces₂

/-- Reads up to the end return the payloads if and only if they cut the chunks well. -/
theorem ReadsOut.payloads_iff (h : ReadsOut fate order r w ns bss r' w')
    (hfresh : r.Fresh oid (chunkPayloads cs).length) (hlookups : w.net.KeepsChunks oid cs)
    (hlast : bss.getLast? = some []) : bss.flatten = chunkPayloads cs ↔ CutsWell cs ns := by
  obtain ⟨hpos, slots', hreads⟩ := h.reads hlookups (.inr ⟨hfresh, rfl, rfl⟩)
  have hsize : 0 + (payloads (slotsOf 0 cs)).length = (chunkPayloads cs).length := by
    rw [payloads_slotsOf, Nat.zero_add]
  have hcuts : CutBy (ends 0 ns) 0 ns := fun _ _ => Iff.rfl
  have hwhole := hreads.whole_iff hsize (slotsOf_grow (Nat.zero_le 4) cs) (.inl hcuts)
    (hreads.ended hpos hlast)
  rw [payloads_slotsOf] at hwhole
  exact hwhole

/-- Reads that cut the chunks well return if all look-ups are served, and when they have asked
for the whole file the next one returns nothing. -/
theorem cut_reads_return (hserved : ∀ k, fate k = none)
    (hfresh : r.Fresh oid (chunkPayloads cs).length) (hlookups : w.net.KeepsChunks oid cs)
    (hne : cs ≠ []) (hpos : ∀ n ∈ ns, 0 < n) (hwell : CutsWell cs ns) :
    ∃ bss r' w', ReadsOut fate order r w ns bss r' w' ∧
      ((chunkPayloads cs).length ≤ ns.sum → ∀ n : Nat, 0 < n → ∃ fuel r'' w'',
        ((mongoSyncGridfsStreamRead fuel (.reader r') (some n)).run (serve fate order)).exec w'
          = (.ok (.ok [], .reader r''), w'')) := by
  have hsize : 0 + (payloads (slotsOf 0 cs)).length = (chunkPayloads cs).length := by
    rw [payloads_slotsOf, Nat.zero_add]
  have hslots : slotsOf 0 cs ≠ [] := by
    cases cs with
    | nil => exact absurd rfl hne
    | cons c cs => exact List.cons_ne_nil _ _
  have hgrow := slotsOf_grow (Nat.zero_le 4) cs
  obtain ⟨bss, slots', hreads⟩ := SlotReads.exists hslots hsize hgrow (.inl fun _ _ => Iff.rfl) hwell
  obtain ⟨r', w', hout, hfaces, hlookups'⟩ :=
    hreads.readsOut order hserved hpos hlookups (.inr ⟨hfresh, rfl, rfl⟩)
  refine ⟨bss, r', w', hout, ?_⟩
  intro hsum n hn
  have hend : Ended (chunkPayloads cs).length (0 + bss.flatten.length) slots' := by
    rcases hreads.full with hfull | hend
    · obtain ⟨s, rest, rfl⟩ := List.exists_cons_of_ne_nil (hreads.ne_nil hslots)
      show _ ≤ 0 + bss.flatten.length + s.skew
      omega
    · exact hend
  obtain ⟨s, rest, rfl⟩ := List.exists_cons_of_ne_nil (hreads.ne_nil hslots)
  have hread := readSlots_stop (n := n) (.inr hend) rest
  have hstream := exec_read_slots fate order hlookups' hfaces hn (cs.length + 1)
  obtain ⟨bytes, r'', w'', hexec⟩ :=
    hstream.complete ⟨hserved, Nat.lt_succ_self _⟩ [] (s :: rest) hread
  obtain ⟨more, slots'', rfl, hread', -⟩ := hstream.sound _ _ _ hexec
  rw [hread] at hread'
  cases hread'
  exact ⟨_, r'', w'', hexec⟩

/-- Of two sequences of reads up to the end, both return the payloads of all chunks if and only
if both cut the chunks well. -/
theorem binary_reads_agree_iff {gfs : MongoSyncGridfs} {query : Option Bson} {w₀ w₁ w₂ : World Store}
    {r₀ r₁ r₂ : GridfsReader} {ns₁ ns₂ : List Nat} {bss₁ bss₂ : List Bytes}
    (hfind : ((mongoSyncGridfsStreamFind gfs query).run (serve fate order)).exec w
      = (.ok (.ok (.reader r₀)), w₀))
    (hlength : r₀.length = (chunkPayloads cs).length) (hlookups : w₀.net.KeepsChunks r₀.id cs)
    (h₁ : ReadsOut fate order r₀ w₀ ns₁ bss₁ r₁ w₁) (hlast₁ : bss₁.getLast? = some [])
    (h₂ : ReadsOut fate order r₀ w₀ ns₂ bss₂ r₂ w₂) (hlast₂ : bss₂.getLast? = some []) :
    bss₁.flatten = bss₂.flatten ∧ bss₁.flatten = chunkPayloads cs ↔
      CutsWell cs ns₁ ∧ CutsWell cs ns₂ := by
  obtain ⟨hoffset, hcur, hdata, hstart, -⟩ := exec_streamFind_at hfind
  have hfresh : r₀.Fresh r₀.id (chunkPayloads cs).length :=
    ⟨rfl, hlength, hoffset, hdata, hstart, hcur⟩
  rw [← h₁.payloads_iff hfresh hlookups hlast₁, ← h₂.payloads_iff hfresh hlookups hlast₂]
  constructor
  · rintro ⟨hsame, hall⟩
    exact ⟨hall, hsame.symm.trans hall⟩
  · rintro ⟨hall₁, hall₂⟩
    exact ⟨hall₁.trans hall₂.symm, hall₁⟩

/-- Reads that were played. -/
theorem ReadsOut.of_play {ts : List ReaderTurn} (hpos : ∀ n ∈ ns, 0 < n)
    (hplay : play fate order r w (ns.map fun n : Nat => .read n) = some (ts, r', w'))
    (hok : ts.map ReaderTurn.result = bss.map .ok) : ReadsOut fate order r w ns bss r' w' := by
  induction ns generalizing r w ts bss with
  | nil =>
      cases hplay
      cases bss with
      | nil => exact .nil
      | cons bytes bss => cases hok
  | cons n ns ih =>
      rw [List.map_cons, play] at hplay
      split at hplay
      next result r₁ w₁ hexec =>
        obtain ⟨⟨ts₁, r₂, w₂⟩, hrest, hturns⟩ := Option.map_eq_some_iff.mp hplay
        cases hturns
        cases bss with
        | nil => cases hok
        | cons bytes bss =>
            rw [List.map_cons, List.map_cons, List.cons_eq_cons] at hok
            obtain ⟨hresult, hok⟩ := hok
            rw [show result = .ok bytes from hresult] at hexec
            exact .cons (hpos n List.mem_cons_self) hexec
              (ih (fun m hm => hpos m (List.mem_cons_of_mem n hm)) hrest hok)
      next => cases hplay

end Runs

/-! ## A file of two old chunks -/

/-- A GridFS with chunks of six bytes. -/
def oldGridfs : MongoSyncGridfs where
  nsPrefix := .ascii ['t', '.', 'f', 's']
  chunkSize := 6
  chunkSize_pos := by decide
  chunkSize_lt := by decide

/-- A chunk of the old subtype. -/
def oldChunk (n : BitVec 64) (payload : Bytes) : StoredChunk where
  before := .cons filesIdKey (.oid smallOid) (.cons nKey (.int64 n) .nil)
  kind := .binary 6
  payload := payload
  after := .nil
  first := rfl

/-- A file of two such chunks. -/
def oldChunks : List StoredChunk :=
  [oldChunk 0 [1, 2, 3, 4, 5, 6], oldChunk 1 [7, 8, 9, 10, 11, 12]]

/-- The store with the file. -/
def oldStore : Store where
  files := [uploadFields (.ascii ['0']) oldGridfs smallOid 12 ⟨0, 0⟩]
  chunks := oldChunks.map StoredChunk.doc
  oid := none
  time := ⟨0, 0⟩
  tries := 0

/-- A connection on socket 5 to the store. -/
def oldWorld : World Store := ⟨oldStore, mongoSyncConnInit ⟨5, 0⟩ true, .ok, 6, []⟩

theorem oldStore_keeps : oldStore.KeepsChunks smallOid oldChunks := by
  refine ⟨?_, by rfl⟩
  intro k hk
  match k, hk with
  | 0, _ => exact ⟨by rfl, by rfl, show (oldChunk 0 _).doc.encode.length < _ by decide⟩
  | 1, _ => exact ⟨by rfl, by rfl, show (oldChunk 1 _).doc.encode.length < _ by decide⟩
  | k + 2, hk => exact absurd hk (Nat.not_lt.mpr (Nat.le_add_left 2 k))

/-- The reader of the file, as it is found. -/
def oldReader : GridfsReader where
  gfs := oldGridfs
  chunkSize := 6
  length := 12
  offset := 0
  currentChunk := 0
  id := smallOid
  bson := none
  data := none
  startOffset := 0
  size := 0
  chunkOffset := 0

theorem exec_oldFind :
    ((mongoSyncGridfsStreamFind oldGridfs (oidQuery idKey smallOid)).run
      (serve allServed .little)).exec oldWorld
        = (.ok (.ok (.reader oldReader)), answered oldWorld) := by
  have hfits : (uploadFields (.ascii ['0']) oldGridfs smallOid 12 ⟨0, 0⟩).encode.length
      < 2147483612 := by decide
  have hfound : oldWorld.net.find .files (.cons idKey (.oid smallOid) .nil)
      = some (uploadFields (.ascii ['0']) oldGridfs smallOid 12 ⟨0, 0⟩) := rfl
  have hquery := exec_query (n := 1) (o := .little)
    (show allServed oldWorld.net.tries = none from rfl) (oidQuery_decode (by decide) smallOid)
    hfound hfits rfl
  rw [mongoSyncGridfsStreamFind, oidQuery_eq] at *
  exact (exec_run_bind_ok hquery _).trans rfl

/-- What reads of these sizes return. -/
def oldReads (ns : List Nat) : Option (List (Except Errno Bytes)) :=
  (play allServed .little oldReader (answered oldWorld) (ns.map fun n : Nat => .read n)).map
    fun x => x.1.map ReaderTurn.result

theorem oldReads_readsOut (ns : List Nat) (bss : List Bytes) (hpos : ∀ n ∈ ns, 0 < n)
    (h : oldReads ns = some (bss.map .ok)) :
    ∃ r w, ReadsOut allServed .little oldReader (answered oldWorld) ns bss r w := by
  obtain ⟨⟨ts, r, w⟩, hplay, hok⟩ := Option.map_eq_some_iff.mp h
  exact ⟨r, w, .of_play hpos hplay hok⟩

/-- Reads that end with the chunks, and reads that also end behind the first byte of each. -/
theorem binary_reads_agree_whole :
    ∃ bss₁ r₁ w₁ bss₂ r₂ w₂,
      ReadsOut allServed .little oldReader (answered oldWorld) [6, 6, 1] bss₁ r₁ w₁ ∧
      ReadsOut allServed .little oldReader (answered oldWorld) [1, 5, 1, 5, 1] bss₂ r₂ w₂ ∧
      bss₁.flatten = bss₂.flatten ∧ bss₁.flatten = chunkPayloads oldChunks := by
  obtain ⟨r₁, w₁, h₁⟩ := oldReads_readsOut [6, 6, 1]
    [[1, 2, 3, 4, 5, 6], [7, 8, 9, 10, 11, 12], []] (by decide) (by decide +kernel)
  obtain ⟨r₂, w₂, h₂⟩ := oldReads_readsOut [1, 5, 1, 5, 1]
    [[1], [2, 3, 4, 5, 6], [7], [8, 9, 10, 11, 12], []] (by decide) (by decide +kernel)
  have hagree := (binary_reads_agree_iff exec_oldFind rfl (oldStore_keeps.after 1) h₁ rfl h₂ rfl).mpr
    ⟨by decide, by decide⟩
  exact ⟨_, r₁, w₁, _, r₂, w₂, h₁, h₂, hagree⟩

/-- A read ends behind two bytes of the first chunk, and the other four are lost. -/
theorem binary_reads_lose :
    ∃ r₀ w₀ bss₁ r₁ w₁ bss₂ r₂ w₂,
      ((mongoSyncGridfsStreamFind oldGridfs (oidQuery idKey smallOid)).run
        (serve allServed .little)).exec oldWorld = (.ok (.ok (.reader r₀)), w₀) ∧
      r₀.length = (chunkPayloads oldChunks).length ∧ w₀.net.KeepsChunks r₀.id oldChunks ∧
      ReadsOut allServed .little r₀ w₀ [6, 6, 1] bss₁ r₁ w₁ ∧ bss₁.getLast? = some [] ∧
      ReadsOut allServed .little r₀ w₀ [2, 10, 1] bss₂ r₂ w₂ ∧ bss₂.getLast? = some [] ∧
      ¬ (bss₁.flatten = bss₂.flatten ∧ bss₁.flatten = chunkPayloads oldChunks) := by
  obtain ⟨r₁, w₁, h₁⟩ := oldReads_readsOut [6, 6, 1]
    [[1, 2, 3, 4, 5, 6], [7, 8, 9, 10, 11, 12], []] (by decide) (by decide +kernel)
  obtain ⟨r₂, w₂, h₂⟩ := oldReads_readsOut [2, 10, 1]
    [[1, 2], [7, 8, 9, 10, 11, 12], []] (by decide) (by decide +kernel)
  exact ⟨oldReader, _, _, r₁, w₁, _, r₂, w₂, exec_oldFind, rfl, oldStore_keeps.after 1, h₁, rfl,
    h₂, rfl, by decide⟩

end LibMongo
