import LibMongo.Base.Bytes

/-!
# Reading slots

What the loop of `mongo_sync_gridfs_stream_read` does when chunks start at an offset of
their data.  A `Slot` is a chunk, or what is left of one.  The offset, its `skew`, is also
added to the positions that are compared with the sizes of the chunk and of the file, so a
read that ends too close to the end of a slot goes on to the next one, and a slot too close
to the end of the file is not read at all.

`ReadWhole` says that neither happens and that the payloads are where the reader looks for
them.  Then, and only then, reads up to the end return the payloads (`reads_whole_iff`).
-/

namespace LibMongo

open Bytes

/-! ## Slots -/

/-- A chunk as a reader meets it, and how far it is off. -/
structure Slot where
  skew : Nat
  /-- What the reader finds. -/
  bytes : Bytes
  /-- What it ought to find. -/
  payload : Bytes
deriving DecidableEq

/-- What is left of a slot. -/
def Slot.drop (s : Slot) (n : Nat) : Slot :=
  { s with bytes := s.bytes.drop n, payload := s.payload.drop n }

@[simp] theorem Slot.drop_skew (s : Slot) (n : Nat) : (s.drop n).skew = s.skew := rfl

@[simp] theorem Slot.drop_bytes (s : Slot) (n : Nat) : (s.drop n).bytes = s.bytes.drop n := rfl

@[simp] theorem Slot.drop_payload (s : Slot) (n : Nat) :
    (s.drop n).payload = s.payload.drop n := rfl

theorem Slot.drop_drop (s : Slot) (m n : Nat) : (s.drop m).drop n = s.drop (m + n) := by
  simp [Slot.drop]

/-- The payloads one after the other. -/
def payloads (slots : List Slot) : Bytes := slots.flatMap Slot.payload

@[simp] theorem payloads_nil : payloads [] = [] := rfl

@[simp] theorem payloads_cons (s : Slot) (slots : List Slot) :
    payloads (s :: slots) = s.payload ++ payloads slots := rfl

/-- The reader takes the file for finished. -/
def Ended (length o : Nat) : List Slot → Prop
  | [] => False
  | s :: _ => length ≤ o + s.skew

/-- A read of `n` bytes in a file of this length, from the offset `o` on.  It fails where
there is no further slot or a slot holds too few bytes. -/
def readSlots (length : Nat) : List Slot → Nat → Nat → Option (Bytes × List Slot)
  | [], _, _ => none
  | s :: rest, o, n =>
      if n = 0 ∨ length ≤ o + s.skew then some ([], s :: rest)
      else
        let c := min n s.payload.length
        if s.bytes.length < c then none
        else if s.payload.length ≤ c + s.skew ∧ o + c + s.skew < length then
          (readSlots length rest (o + c) (n - c)).map fun x => (s.bytes.take c ++ x.1, x.2)
        else some (s.bytes.take c, s.drop c :: rest)

/-- Reads one after the other. -/
inductive SlotReads (length : Nat) : List Slot → Nat → List Nat → List Bytes → List Slot → Prop
  | nil {slots : List Slot} {o : Nat} : SlotReads length slots o [] [] slots
  | cons {slots slots₁ slots₂ : List Slot} {o n : Nat} {ns : List Nat} {bytes : Bytes}
      {bss : List Bytes} : readSlots length slots o n = some (bytes, slots₁) →
      SlotReads length slots₁ (o + bytes.length) ns bss slots₂ →
      SlotReads length slots o (n :: ns) (bytes :: bss) slots₂

/-- Where reads of these sizes end that start at `o`. -/
def ends (o : Nat) : List Nat → List Nat
  | [] => []
  | n :: ns => (o + n) :: ends (o + n) ns

theorem le_of_mem_ends {o x : Nat} {ns : List Nat} (h : x ∈ ends o ns) : o ≤ x := by
  induction ns generalizing o with
  | nil => cases h
  | cons n ns ih =>
      rw [ends, List.mem_cons] at h
      rcases h with rfl | h
      · exact Nat.le_add_right o n
      · exact Nat.le_trans (Nat.le_add_right o n) (ih h)

/-- The slot starts far enough from the end of the file, the reader finds its payload in it,
and no read ends in it too close to its end. -/
structure Slot.Whole (length : Nat) (cuts : List Nat) (o : Nat) (s : Slot) : Prop where
  start : o + s.skew < length
  bytes : s.bytes.take s.payload.length = s.payload
  cut : ∀ x ∈ cuts, o < x → x < o + s.payload.length → x + s.skew < o + s.payload.length

/-- Every slot with a payload is whole.  The first one starts at `o`. -/
def ReadWhole (length : Nat) (cuts : List Nat) : Nat → List Slot → Prop
  | _, [] => True
  | o, s :: rest =>
      (s.payload ≠ [] → s.Whole length cuts o) ∧
        ReadWhole length cuts (o + s.payload.length) rest

instance decidableSlotWhole (length : Nat) (cuts : List Nat) (o : Nat) (s : Slot) :
    Decidable (s.Whole length cuts o) :=
  decidable_of_iff (o + s.skew < length ∧ s.bytes.take s.payload.length = s.payload ∧
      ∀ x ∈ cuts, o < x → x < o + s.payload.length → x + s.skew < o + s.payload.length)
    ⟨fun h => ⟨h.1, h.2.1, h.2.2⟩, fun h => ⟨h.start, h.bytes, h.cut⟩⟩

instance decidableReadWhole (length : Nat) (cuts : List Nat) :
    (o : Nat) → (slots : List Slot) → Decidable (ReadWhole length cuts o slots)
  | _, [] => isTrue trivial
  | o, s :: rest =>
      have := decidableReadWhole length cuts (o + s.payload.length) rest
      inferInstanceAs (Decidable (_ ∧ _))

/-! ## One read -/

section Read

variable {length o n : Nat} {cuts : List Nat} {slots slots' : List Slot} {bytes : Bytes}

section Cons

variable {s : Slot} {c : Nat}

theorem readSlots_stop (h : n = 0 ∨ length ≤ o + s.skew) (rest : List Slot) :
    readSlots length (s :: rest) o n = some ([], s :: rest) := by
  rw [readSlots, if_pos h]

theorem readSlots_short (hgo : ¬ (n = 0 ∨ length ≤ o + s.skew)) (hc : min n s.payload.length = c)
    (hshort : s.bytes.length < c) (rest : List Slot) : readSlots length (s :: rest) o n = none := by
  rw [readSlots, if_neg hgo]
  dsimp only
  rw [hc, if_pos hshort]

variable (hgo : ¬ (n = 0 ∨ length ≤ o + s.skew)) (hc : min n s.payload.length = c)
  (hle : c ≤ s.bytes.length)
include hgo hc hle

theorem readSlots_next (h : s.payload.length ≤ c + s.skew ∧ o + c + s.skew < length)
    (rest : List Slot) :
    readSlots length (s :: rest) o n
      = (readSlots length rest (o + c) (n - c)).map fun x => (s.bytes.take c ++ x.1, x.2) := by
  rw [readSlots, if_neg hgo]
  dsimp only
  rw [hc, if_neg (Nat.not_lt.mpr hle), if_pos h]

theorem readSlots_here (h : ¬ (s.payload.length ≤ c + s.skew ∧ o + c + s.skew < length))
    (rest : List Slot) :
    readSlots length (s :: rest) o n = some (s.bytes.take c, s.drop c :: rest) := by
  rw [readSlots, if_neg hgo]
  dsimp only
  rw [hc, if_neg (Nat.not_lt.mpr hle), if_neg h]

end Cons

/-- The three ways a read goes on at a slot: it stops, it goes on to the next slot, or it
ends here. -/
theorem readSlots_cons {s : Slot} {rest : List Slot}
    (h : readSlots length (s :: rest) o n = some (bytes, slots')) :
    ((n = 0 ∨ length ≤ o + s.skew) ∧ bytes = [] ∧ slots' = s :: rest) ∨
    (0 < n ∧ o + s.skew < length ∧ ∃ c more, c = min n s.payload.length ∧ c ≤ s.bytes.length ∧
      s.payload.length ≤ c + s.skew ∧ o + c + s.skew < length ∧
      readSlots length rest (o + c) (n - c) = some (more, slots') ∧
      bytes = s.bytes.take c ++ more) ∨
    (0 < n ∧ o + s.skew < length ∧ ∃ c, c = min n s.payload.length ∧ c ≤ s.bytes.length ∧
      ¬ (s.payload.length ≤ c + s.skew ∧ o + c + s.skew < length) ∧
      bytes = s.bytes.take c ∧ slots' = s.drop c :: rest) := by
  generalize hc : min n s.payload.length = c
  by_cases hstop : n = 0 ∨ length ≤ o + s.skew
  · rw [readSlots_stop hstop] at h
    cases h
    exact .inl ⟨hstop, rfl, rfl⟩
  have hn : 0 < n := by omega
  have hstart : o + s.skew < length := by omega
  by_cases hshort : s.bytes.length < c
  · rw [readSlots_short hstop hc hshort] at h
    cases h
  have hle := Nat.not_lt.mp hshort
  by_cases hnext : s.payload.length ≤ c + s.skew ∧ o + c + s.skew < length
  · rw [readSlots_next hstop hc hle hnext] at h
    obtain ⟨⟨more, slots₁⟩, hrest, heq⟩ := Option.map_eq_some_iff.mp h
    cases heq
    exact .inr (.inl ⟨hn, hstart, c, more, rfl, hle, hnext.1, hnext.2, hrest, rfl⟩)
  · rw [readSlots_here hstop hc hle hnext] at h
    cases h
    exact .inr (.inr ⟨hn, hstart, c, rfl, hle, hnext, rfl, rfl⟩)

/-- What is left is the end of what there was, and no more bytes were read than passed. -/
theorem readSlots_passes (h : readSlots length slots o n = some (bytes, slots')) :
    ∃ mid, payloads slots = mid ++ payloads slots' ∧ bytes.length ≤ mid.length := by
  induction slots generalizing o n bytes with
  | nil => cases h
  | cons s rest ih =>
      rcases readSlots_cons h with ⟨-, rfl, rfl⟩ | ⟨-, -, c, more, hc, -, -, -, hrest, rfl⟩ |
        ⟨-, -, c, hc, -, -, rfl, rfl⟩
      · exact ⟨[], rfl, Nat.le_refl 0⟩
      · obtain ⟨mid, hmid, hle⟩ := ih hrest
        refine ⟨s.payload ++ mid, ?_, ?_⟩
        · rw [payloads_cons, hmid, List.append_assoc]
        · simp only [List.length_append, List.length_take]
          omega
      · refine ⟨s.payload.take c, ?_, ?_⟩
        · rw [payloads_cons, payloads_cons, Slot.drop_payload, ← List.append_assoc,
            List.take_append_drop]
        · simp only [List.length_take]
          omega

/-- A read returns less than what was asked for at the end only. -/
theorem readSlots_full (h : readSlots length slots o n = some (bytes, slots')) :
    bytes.length = n ∨ Ended length (o + bytes.length) slots' := by
  induction slots generalizing o n bytes with
  | nil => cases h
  | cons s rest ih =>
      rcases readSlots_cons h with ⟨hstop, rfl, rfl⟩ | ⟨-, -, c, more, hc, hle, -, -, hrest, rfl⟩ |
        ⟨-, -, c, hc, hle, hnext, rfl, rfl⟩
      · rcases hstop with rfl | hend
        · exact .inl rfl
        · exact .inr hend
      · have hlength : (s.bytes.take c ++ more).length = c + more.length := by
          rw [List.length_append, List.length_take, Nat.min_eq_left hle]
        rcases ih hrest with hfull | hend
        · left
          omega
        · right
          rw [hlength, ← Nat.add_assoc]
          exact hend
      · have hlength : (s.bytes.take c).length = c := by
          rw [List.length_take, Nat.min_eq_left hle]
        rw [hlength]
        by_cases hfull : c = n
        · exact .inl hfull
        · right
          show length ≤ o + c + s.skew
          omega

/-- Nothing is asked for. -/
theorem readSlots_zero (h : readSlots length slots o 0 = some (bytes, slots')) :
    bytes = [] ∧ slots' = slots := by
  cases slots with
  | nil => cases h
  | cons s rest =>
      rw [readSlots_stop (.inl rfl)] at h
      cases h
      exact ⟨rfl, rfl⟩

/-- At the end nothing is read. -/
theorem readSlots_ended (hend : Ended length o slots)
    (h : readSlots length slots o n = some (bytes, slots')) : bytes = [] ∧ slots' = slots := by
  cases slots with
  | nil => cases h
  | cons s rest =>
      rw [readSlots_stop (.inr hend)] at h
      cases h
      exact ⟨rfl, rfl⟩

/-- Of a file that is finished only empty slots may be left. -/
theorem readWhole_ended_iff (hend : Ended length o slots)
    (hgrow : slots.Pairwise fun s t => s.skew ≤ t.skew) :
    ReadWhole length cuts o slots ↔ payloads slots = [] := by
  induction slots with
  | nil => cases hend
  | cons s rest ih =>
      obtain ⟨hle, hgrow⟩ := List.pairwise_cons.mp hgrow
      rw [ReadWhole, payloads_cons, List.append_eq_nil_iff]
      have hhead : (s.payload ≠ [] → s.Whole length cuts o) ↔ s.payload = [] := by
        constructor
        · intro hwhole
          by_contra hne
          exact absurd (hwhole hne).start (Nat.not_lt.mpr hend)
        · intro hnil hne
          exact absurd hnil hne
      rw [hhead, and_congr_right_iff]
      intro hnil
      rw [hnil, List.length_nil, Nat.add_zero]
      cases rest with
      | nil => simp [ReadWhole]
      | cons t rest =>
          apply ih _ hgrow
          show length ≤ o + t.skew
          have hhead' : length ≤ o + s.skew := hend
          have hskew := hle t List.mem_cons_self
          omega

/-- The ends of reads go on with the next read of `n` bytes from `o` on. -/
structure CutNext (cuts : List Nat) (o n : Nat) : Prop where
  mem : 0 < n → o + n ∈ cuts
  next : ∀ x ∈ cuts, o < x → o + n ≤ x

theorem CutNext.advance (h : CutNext cuts o n) {c : Nat} (hc : c ≤ n) :
    CutNext cuts (o + c) (n - c) where
  mem hn := by
    rw [Nat.add_assoc, Nat.add_sub_cancel' hc]
    exact h.mem (by omega)
  next x hx hlt := by
    have hle := h.next x hx (by omega)
    omega

/-- A slot that a read leaves behind. -/
theorem Slot.whole_passed_iff {s : Slot} (hcuts : CutNext cuts o n) (hstart : o + s.skew < length)
    (hn : s.payload.length ≤ n) :
    (s.payload ≠ [] → s.Whole length cuts o) ↔
      s.bytes.take s.payload.length = s.payload := by
  constructor
  · intro hwhole
    by_cases hnil : s.payload = []
    · rw [hnil]
      rfl
    · exact (hwhole hnil).bytes
  · intro hbytes _
    refine ⟨hstart, hbytes, ?_⟩
    intro x hx hlt hend
    have hle := hcuts.next x hx hlt
    omega

/-- A slot that a read ends in. -/
theorem Slot.whole_cut_iff {s : Slot} (hcuts : CutNext cuts o n) (hn : 0 < n)
    (hlt : n < s.payload.length) (hsize : o + s.payload.length ≤ length) :
    s.Whole length cuts o ↔ s.bytes.take n = s.payload.take n ∧ n + s.skew < s.payload.length ∧
      (s.drop n).Whole length cuts (o + n) := by
  have hsplit : s.bytes.take s.payload.length
      = s.bytes.take n ++ (s.bytes.drop n).take (s.payload.length - n) := by
    rw [← List.take_add, Nat.add_sub_cancel' (Nat.le_of_lt hlt)]
  have hcancel : s.payload.length - n + (o + n) = o + s.payload.length := by omega
  constructor
  · intro hwhole
    have hbytes := hwhole.bytes
    have hcut := hwhole.cut (o + n) (hcuts.mem hn) (by omega) (by omega)
    rw [hsplit] at hbytes
    have htake : s.bytes.take n = s.payload.take n := by
      rw [← hbytes, ← hsplit, List.take_take, Nat.min_eq_left (Nat.le_of_lt hlt)]
    refine ⟨htake, by omega, ⟨?_, ?_, ?_⟩⟩
    · show o + n + s.skew < length
      omega
    · rw [Slot.drop_bytes, Slot.drop_payload, List.length_drop]
      rw [htake] at hbytes
      exact List.append_cancel_left (hbytes.trans (List.take_append_drop n s.payload).symm)
    · intro x hx hlt' hend
      rw [Slot.drop_payload, List.length_drop] at hend ⊢
      have := hwhole.cut x hx (by omega) (by omega)
      rw [Slot.drop_skew]
      omega
  · rintro ⟨htake, hcut, hwhole⟩
    refine ⟨?_, ?_, ?_⟩
    · omega
    · have hbytes := hwhole.bytes
      rw [Slot.drop_bytes, Slot.drop_payload, List.length_drop] at hbytes
      rw [hsplit, hbytes, htake, List.take_append_drop]
    · intro x hx hlt' hend
      rcases Nat.eq_or_lt_of_le (hcuts.next x hx hlt') with rfl | hbehind
      · omega
      · have := hwhole.cut x hx hbehind (by rw [Slot.drop_payload, List.length_drop]; omega)
        rw [Slot.drop_payload, List.length_drop, Slot.drop_skew] at this
        omega

/-- One read keeps the slots whole if and only if nothing is lost in it, and what it returns
is what it ought to. -/
theorem readSlots_whole_iff (h : readSlots length slots o n = some (bytes, slots'))
    (hsize : o + (payloads slots).length = length) (hcuts : CutNext cuts o n) :
    ReadWhole length cuts o slots ↔ bytes ++ payloads slots' = payloads slots ∧
      ReadWhole length cuts (o + bytes.length) slots' := by
  induction slots generalizing o n bytes with
  | nil => cases h
  | cons s rest ih =>
      rw [payloads_cons, List.length_append] at hsize
      have hin : o + s.payload.length ≤ length := by omega
      rcases readSlots_cons h with ⟨-, rfl, rfl⟩ |
        ⟨hn, hstart, c, more, hc, hle, hnext, hmore, hrest, rfl⟩ |
        ⟨hn, hstart, c, hc, hle, hnext, rfl, rfl⟩
      · simp
      · by_cases hfull : s.payload.length ≤ n
        · -- the slot is read to its end
          have hc : c = s.payload.length := by omega
          have hlength : (s.bytes.take c ++ more).length = s.payload.length + more.length := by
            rw [List.length_append, List.length_take, Nat.min_eq_left hle, hc]
          have hrest' := ih hrest (by omega) (hcuts.advance (by omega))
          rw [hlength, ← Nat.add_assoc, ReadWhole, s.whole_passed_iff hcuts hstart hfull, payloads_cons,
            List.append_assoc, ← hc, hrest', hc, ← and_assoc]
          refine and_congr_left fun _ => ⟨?_, ?_⟩
          · rintro ⟨hbytes, hmore⟩
            rw [hbytes, hmore]
          · intro heq
            exact List.append_inj heq (by rw [List.length_take]; omega)
        · -- the next slot is loaded too early
          have hc : c = n := by omega
          rw [hc, Nat.sub_self] at hrest
          obtain ⟨rfl, rfl⟩ := readSlots_zero hrest
          have hcut := s.whole_cut_iff hcuts hn (Nat.not_le.mp hfull) hin
          constructor
          · rintro ⟨hwhole, -⟩
            have hlost := (hcut.mp (hwhole (List.ne_nil_of_length_pos (by omega)))).2.1
            omega
          · rintro ⟨heq, -⟩
            have hlength := congrArg List.length heq
            simp only [List.length_append, List.length_take, List.length_nil, payloads_cons] at hlength
            omega
      · have hlength : (s.bytes.take c).length = c := by
          rw [List.length_take, Nat.min_eq_left hle]
        have hdrop : c + (s.drop c).payload.length = s.payload.length := by
          rw [Slot.drop_payload, List.length_drop]
          omega
        rw [hlength, ReadWhole, ReadWhole, Nat.add_assoc o c, hdrop, payloads_cons, payloads_cons,
          ← List.append_assoc, List.append_cancel_right_eq, ← and_assoc, and_congr_left_iff]
        intro _
        by_cases hfull : s.payload.length ≤ n
        · -- the file ends with the slot, or nothing behind it is read
          have hc : c = s.payload.length := by omega
          rw [s.whole_passed_iff hcuts hstart hfull, Slot.drop_payload, hc, List.drop_length,
            List.append_nil]
          simp
        · -- the read ends in the slot
          have hc : c = n := by omega
          have hne : s.payload ≠ [] := List.ne_nil_of_length_pos (by omega)
          have hne' : (s.drop c).payload ≠ [] := List.ne_nil_of_length_pos (by omega)
          have hcut := s.whole_cut_iff hcuts hn (Nat.not_le.mp hfull) hin
          have hbytes : s.bytes.take c ++ (s.drop c).payload = s.payload ↔
              s.bytes.take c = s.payload.take c := by
            have hsplit := List.take_append_drop c s.payload
            constructor
            · intro heq
              exact List.append_cancel_right (heq.trans hsplit.symm)
            · intro htake
              rw [htake]
              exact hsplit
          rw [hbytes, hc]
          rw [hc] at hne'
          constructor
          · intro hwhole
            obtain ⟨htake, -, hwhole'⟩ := hcut.mp (hwhole hne)
            exact ⟨htake, fun _ => hwhole'⟩
          · rintro ⟨htake, hwhole⟩ -
            have hwhole' := hwhole hne'
            refine hcut.mpr ⟨htake, ?_, hwhole'⟩
            have hstart' := hwhole'.start
            rw [Slot.drop_skew] at hstart'
            omega

theorem readSlots_ne_nil (h : readSlots length slots o n = some (bytes, slots')) : slots' ≠ [] := by
  induction slots generalizing o n bytes with
  | nil => cases h
  | cons s rest ih =>
      rcases readSlots_cons h with ⟨-, -, rfl⟩ | ⟨-, -, c, more, -, -, -, -, hrest, -⟩ |
        ⟨-, -, c, -, -, -, -, rfl⟩
      · exact List.cons_ne_nil s rest
      · exact ih hrest
      · exact List.cons_ne_nil _ rest

/-- A read of whole slots returns. -/
theorem readSlots_returns (hne : slots ≠ []) (hsize : o + (payloads slots).length = length)
    (hcuts : CutNext cuts o n) (hwhole : ReadWhole length cuts o slots) :
    ∃ x, readSlots length slots o n = some x := by
  induction slots generalizing o n with
  | nil => exact absurd rfl hne
  | cons s rest ih =>
      rw [payloads_cons, List.length_append] at hsize
      obtain ⟨hhead, hrest⟩ := hwhole
      by_cases hstop : n = 0 ∨ length ≤ o + s.skew
      · exact ⟨_, readSlots_stop hstop rest⟩
      generalize hc : min n s.payload.length = c
      have hle : c ≤ s.bytes.length := by
        by_cases hnil : s.payload = []
        · rw [hnil, List.length_nil, Nat.min_zero] at hc
          omega
        · have hlength := congrArg List.length (hhead hnil).bytes
          rw [List.length_take] at hlength
          omega
      by_cases hnext : s.payload.length ≤ c + s.skew ∧ o + c + s.skew < length
      · have hfull : c = s.payload.length := by
          -- a read that ends in the slot does not go on to the next one
          by_contra hcut
          have hn : c = n := by omega
          have hlost := (hhead (List.ne_nil_of_length_pos (by omega))).cut (o + n)
            (hcuts.mem (by omega)) (by omega) (by omega)
          omega
        have hmore : rest ≠ [] := by
          rintro rfl
          rw [payloads_nil, List.length_nil] at hsize
          omega
        rw [← hfull] at hrest
        obtain ⟨x, hx⟩ := ih hmore (by omega) (hcuts.advance (c := c) (by omega)) hrest
        rw [readSlots_next hstop hc hle hnext, hx]
        exact ⟨_, rfl⟩
      · exact ⟨_, readSlots_here hstop hc hle hnext rest⟩

end Read

/-! ## Reads up to the end -/

section Run

variable {length : Nat} {slots slots' : List Slot} {o : Nat} {ns : List Nat} {bss : List Bytes}

/-- At the end nothing is read any more. -/
theorem SlotReads.of_ended (h : SlotReads length slots o ns bss slots') (hend : Ended length o slots) :
    bss.flatten = [] ∧ slots' = slots := by
  induction h with
  | nil => exact ⟨rfl, rfl⟩
  | cons hread _ ih =>
      obtain ⟨rfl, rfl⟩ := readSlots_ended hend hread
      exact ih hend

theorem SlotReads.ne_nil (h : SlotReads length slots o ns bss slots') (hne : slots ≠ []) : slots' ≠ [] := by
  induction h with
  | nil => exact hne
  | cons hread _ ih => exact ih (readSlots_ne_nil hread)

/-- Reads do not return more than there is. -/
theorem SlotReads.length_le (h : SlotReads length slots o ns bss slots') :
    bss.flatten.length + (payloads slots').length ≤ (payloads slots).length := by
  induction h with
  | nil => simp
  | cons hread _ ih =>
      obtain ⟨mid, hmid, hle⟩ := readSlots_passes hread
      rw [List.flatten_cons, List.length_append, hmid, List.length_append]
      omega

/-- They return as much as was asked for, or the file is finished. -/
theorem SlotReads.full (h : SlotReads length slots o ns bss slots') :
    bss.flatten.length = ns.sum ∨ Ended length (o + bss.flatten.length) slots' := by
  induction h with
  | nil => exact .inl rfl
  | @cons slots slots₁ slots₂ o n ns bytes bss hread hrun ih =>
      rw [List.flatten_cons, List.length_append, List.sum_cons, ← Nat.add_assoc]
      rcases ih with hfull | hend
      · rcases readSlots_full hread with hn | hend
        · left
          rw [hn, hfull]
        · right
          have hnothing := hrun.of_ended hend
          rw [hnothing.1, hnothing.2, List.length_nil, Nat.add_zero]
          exact hend
      · exact .inr hend

/-- Skews that grow still do so behind a read. -/
theorem readSlots_grow {n : Nat} {bytes : Bytes}
    (h : readSlots length slots o n = some (bytes, slots'))
    (hgrow : slots.Pairwise fun s t => s.skew ≤ t.skew) :
    slots'.Pairwise fun s t => s.skew ≤ t.skew := by
  induction slots generalizing o n bytes with
  | nil => cases h
  | cons s rest ih =>
      rcases readSlots_cons h with ⟨-, -, rfl⟩ | ⟨-, -, c, more, -, -, -, -, hrest, -⟩ |
        ⟨-, -, c, -, -, -, -, rfl⟩
      · exact hgrow
      · exact ih hrest (List.pairwise_cons.mp hgrow).2
      · exact List.pairwise_cons.mpr (List.pairwise_cons.mp hgrow)

/-- The ends of reads are those of reads of these sizes from `o` on. -/
def CutBy (cuts : List Nat) (o : Nat) (ns : List Nat) : Prop :=
  ∀ x, o < x → (x ∈ cuts ↔ x ∈ ends o ns)

theorem CutBy.next {cuts : List Nat} {n : Nat} (h : CutBy cuts o (n :: ns)) : CutNext cuts o n where
  mem hn := (h (o + n) (by omega)).mpr (by simp [ends])
  next x hx hlt := by
    have hmem := (h x hlt).mp hx
    rw [ends, List.mem_cons] at hmem
    rcases hmem with rfl | hmem
    · exact Nat.le_refl _
    · exact le_of_mem_ends hmem

theorem CutBy.tail {cuts : List Nat} {n : Nat} (h : CutBy cuts o (n :: ns)) :
    CutBy cuts (o + n) ns := by
  intro x hlt
  rw [h x (by omega), ends, List.mem_cons]
  constructor
  · rintro (rfl | hmem)
    · exact absurd hlt (Nat.lt_irrefl _)
    · exact hmem
  · exact .inr

/-- Reads up to the end return the payloads if and only if the slots are whole. -/
theorem SlotReads.whole_iff {cuts : List Nat} (h : SlotReads length slots o ns bss slots')
    (hsize : o + (payloads slots).length = length)
    (hgrow : slots.Pairwise fun s t => s.skew ≤ t.skew)
    (hcuts : CutBy cuts o ns ∨ Ended length o slots)
    (hend : Ended length (o + bss.flatten.length) slots') :
    bss.flatten = payloads slots ↔ ReadWhole length cuts o slots := by
  induction h with
  | nil =>
      have hwhole : ReadWhole length cuts _ _ ↔ _ := readWhole_ended_iff hend hgrow
      exact eq_comm.trans hwhole.symm
  | @cons slots slots₁ slots₂ o n ns bytes bss hread hrun ih =>
      rw [List.flatten_cons] at hend ⊢
      rw [List.length_append, ← Nat.add_assoc] at hend
      by_cases hended : Ended length o slots
      · -- the file was finished before
        obtain ⟨rfl, rfl⟩ := readSlots_ended hended hread
        exact ih hsize hgrow (.inr hended) hend
      · have hcuts := hcuts.resolve_right hended
        rw [readSlots_whole_iff hread hsize hcuts.next]
        obtain ⟨mid, hmid, hle⟩ := readSlots_passes hread
        have hrest := hrun.length_le
        rw [hmid, List.length_append] at hsize
        rw [hmid]
        by_cases hkept : bytes.length = mid.length
        · have hnext : CutBy cuts (o + bytes.length) ns ∨ Ended length (o + bytes.length) slots₁ := by
            rcases readSlots_full hread with hfull | hended'
            · left
              rw [hfull]
              exact hcuts.tail
            · exact .inr hended'
          rw [← ih (by omega) (readSlots_grow hread hgrow) hnext hend]
          constructor
          · intro heq
            obtain ⟨hbytes, hflat⟩ := List.append_inj heq hkept
            exact ⟨by rw [hbytes], hflat⟩
          · rintro ⟨hbytes, hflat⟩
            rw [hflat, hbytes]
        · -- bytes were lost
          constructor
          · intro heq
            have hlength := congrArg List.length heq
            rw [List.length_append, List.length_append] at hlength
            omega
          · rintro ⟨heq, -⟩
            have hlength := congrArg List.length heq
            rw [List.length_append, List.length_append] at hlength
            omega

/-- Reads of whole slots return. -/
theorem SlotReads.exists {cuts : List Nat} (hne : slots ≠ [])
    (hsize : o + (payloads slots).length = length)
    (hgrow : slots.Pairwise fun s t => s.skew ≤ t.skew)
    (hcuts : CutBy cuts o ns ∨ Ended length o slots) (hwhole : ReadWhole length cuts o slots) :
    ∃ bss slots', SlotReads length slots o ns bss slots' := by
  induction ns generalizing slots o with
  | nil => exact ⟨[], slots, .nil⟩
  | cons n ns ih =>
      by_cases hended : Ended length o slots
      · obtain ⟨s, rest, rfl⟩ := List.exists_cons_of_ne_nil hne
        obtain ⟨bss, slots', hrun⟩ := ih hne hsize hgrow (.inr hended) hwhole
        exact ⟨[] :: bss, slots', .cons (readSlots_stop (.inr hended) rest) hrun⟩
      · have hcuts := hcuts.resolve_right hended
        obtain ⟨⟨bytes, slots₁⟩, hread⟩ := readSlots_returns hne hsize hcuts.next hwhole
        obtain ⟨hbytes, hwhole₁⟩ := (readSlots_whole_iff hread hsize hcuts.next).mp hwhole
        have hsize₁ : o + bytes.length + (payloads slots₁).length = length := by
          rw [← hbytes, List.length_append, ← Nat.add_assoc] at hsize
          exact hsize
        have hnext : CutBy cuts (o + bytes.length) ns ∨ Ended length (o + bytes.length) slots₁ := by
          rcases readSlots_full hread with hfull | hended'
          · left
            rw [hfull]
            exact hcuts.tail
          · exact .inr hended'
        obtain ⟨bss, slots', hrun⟩ :=
          ih (readSlots_ne_nil hread) hsize₁ (readSlots_grow hread hgrow) hnext hwhole₁
        exact ⟨bytes :: bss, slots', .cons hread hrun⟩

/-- The last read returned nothing. -/
theorem SlotReads.ended (h : SlotReads length slots o ns bss slots') (hpos : ∀ n ∈ ns, 0 < n)
    (hlast : bss.getLast? = some []) : Ended length (o + bss.flatten.length) slots' := by
  induction h with
  | nil => cases hlast
  | @cons slots slots₁ slots₂ o n ns bytes bss hread hrun ih =>
      rw [List.flatten_cons, List.length_append, ← Nat.add_assoc]
      cases hrun with
      | nil =>
          cases hlast
          have hn := hpos n List.mem_cons_self
          exact (readSlots_full hread).resolve_left (Nat.ne_of_lt hn)
      | cons hread' hrun' =>
          rw [List.getLast?_cons_cons] at hlast
          exact ih (fun m hm => hpos m (List.mem_cons_of_mem n hm)) hlast

end Run

end LibMongo
