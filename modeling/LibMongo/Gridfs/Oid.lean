import LibMongo.Gridfs.Process

/-!
# ObjectIDs of one process and of several

`mongo_util_oid_new_with_time` fills the block with four copies that overlap.  What they leave is
the second, three bytes of the machine id, two of the process id and three of the sequence number
(`oidCopies_eq`).  Seconds and sequence numbers are stored highest byte first, so `memcmp` orders
the ids of a process by them (`oid_order`).

Two processes are told apart by two bytes of their process ids and nothing else.  The upper bits
were to go into the machine id, but the process id that is shifted for it is the one of the call
before, which for the first call is zero (`oid_apart_iff`).
-/

namespace LibMongo

open Bytes

/-! ## Comparing blocks -/

/-- `memcmp`, the sign only. -/
def memcmp : Bytes → Bytes → Ordering
  | [], [] => .eq
  | [], _ :: _ => .lt
  | _ :: _, [] => .gt
  | x :: xs, y :: ys => (compare x.toNat y.toNat).then (memcmp xs ys)

@[simp] theorem memcmp_self (xs : Bytes) : memcmp xs xs = .eq := by
  induction xs with
  | nil => rfl
  | cons x xs ih => simp [memcmp, ih]

/-- The fronts decide first. -/
theorem memcmp_append {xs xs' : Bytes} (h : xs.length = xs'.length) (ys ys' : Bytes) :
    memcmp (xs ++ ys) (xs' ++ ys') = (memcmp xs xs').then (memcmp ys ys') := by
  induction xs generalizing xs' with
  | nil =>
      cases xs' with
      | nil => rfl
      | cons => cases h
  | cons x xs ih =>
      cases xs' with
      | nil => cases h
      | cons x' xs' =>
          simp only [List.length_cons, Nat.add_right_cancel_iff] at h
          simp only [List.cons_append, memcmp, ih h, Ordering.then_assoc]

/-- The upper digit of a number decides first. -/
theorem compare_digits {a b x y : Nat} (ha : a < 256) (hb : b < 256) :
    (compare x y).then (compare a b) = compare (a + 256 * x) (b + 256 * y) := by
  rcases Nat.lt_trichotomy x y with hlt | rfl | hgt
  · have hwhole : a + 256 * x < b + 256 * y := by omega
    rw [Nat.compare_eq_lt.mpr hlt, Nat.compare_eq_lt.mpr hwhole]
    rfl
  · rcases Nat.lt_trichotomy a b with hlt | rfl | hgt
    · have hwhole : a + 256 * x < b + 256 * x := by omega
      simp [Nat.compare_eq_lt.mpr hlt, Nat.compare_eq_lt.mpr hwhole]
    · simp
    · have hwhole : b + 256 * x < a + 256 * x := by omega
      simp [Nat.compare_eq_gt.mpr hgt, Nat.compare_eq_gt.mpr hwhole]
  · have hwhole : b + 256 * y < a + 256 * x := by omega
    rw [Nat.compare_eq_gt.mpr hgt, Nat.compare_eq_gt.mpr hwhole]
    rfl

/-- Numbers stored highest byte first are compared as numbers. -/
theorem memcmp_reverse_leBytes (k m n : Nat) :
    memcmp (leBytes k m).reverse (leBytes k n).reverse = compare (m % 256 ^ k) (n % 256 ^ k) := by
  induction k generalizing m n with
  | zero => simp [leBytes, Nat.mod_one]
  | succ k ih =>
      have hsplit (i : Nat) : i % 256 ^ (k + 1) = i % 256 + 256 * (i / 256 % 256 ^ k) := by
        rw [Nat.pow_succ, Nat.mul_comm, Nat.mod_mul]
      have hlast : memcmp [UInt8.ofNat m] [UInt8.ofNat n] = compare (m % 256) (n % 256) := by
        simp [memcmp]
      rw [leBytes, leBytes, List.reverse_cons, List.reverse_cons, memcmp_append (by simp), ih, hlast,
        hsplit, hsplit, compare_digits (by omega) (by omega)]

/-! ## The copies -/

/-- The block of an ObjectID after the four calls of `memcpy`. -/
def oidCopies (o : ByteOrder) (s : OidStatics) (ts seq : BitVec 32) : Bytes :=
  let oid := List.replicate 12 0
  let oid := memcpy oid (4 + 2 + 2) (o.mem32 (o.be32 seq))
  let oid := memcpy oid 0 (o.mem32 (o.be32 ts))
  let oid := memcpy oid 4 ((o.mem32 s.machineId).take 3)
  memcpy oid (4 + 3) (o.mem16 s.pid)

/-- What is left of them. -/
theorem oidCopies_eq (o : ByteOrder) (s : OidStatics) (ts seq : BitVec 32) :
    oidCopies o s ts seq
      = o.mem32 (o.be32 ts) ++ (o.mem32 s.machineId).take 3 ++ o.mem16 s.pid
        ++ (o.mem32 (o.be32 seq)).drop 1 := by
  have hts := o.mem32_length (o.be32 ts)
  have hseq := o.mem32_length (o.be32 seq)
  have hid : ((o.mem32 s.machineId).take 3).length = 3 := by simp
  have hpid := o.mem16_length s.pid
  unfold oidCopies
  generalize o.mem32 (o.be32 ts) = a at hts
  generalize o.mem32 (o.be32 seq) = b at hseq
  generalize (o.mem32 s.machineId).take 3 = c at hid
  generalize o.mem16 s.pid = d at hpid
  match a, b, c, d, hts, hseq, hid, hpid with
  | [_, _, _, _], [_, _, _, _], [_, _, _], [_, _], _, _, _, _ => rfl

/-- An id is made unless the machine id or the process id is zero, and is what the copies left. -/
theorem mongoUtilOidNewWithTime_copies (o : ByteOrder) (s : OidStatics) (ts seq : BitVec 32) :
    (mongoUtilOidNewWithTime o s ts seq).map Oid.bytes
      = if s.machineId = 0 ∨ s.pid = 0 then none else some (oidCopies o s ts seq) := by
  rw [oidCopies_eq]
  unfold mongoUtilOidNewWithTime
  split
  next => rfl
  next => rfl

/-! ## Order -/

/-- The ids of a process are ordered by second and sequence number, of which 24 bits count. -/
theorem oid_order (o : ByteOrder) {s : OidStatics} (hmachine : s.machineId ≠ 0) (hpid : s.pid ≠ 0)
    (ts ts' seq seq' : BitVec 32) :
    ∃ id id', mongoUtilOidNewWithTime o s ts seq = some id ∧
      mongoUtilOidNewWithTime o s ts' seq' = some id' ∧
      memcmp id.bytes id'.bytes = (compare (ts.toNat % 2 ^ 32) (ts'.toNat % 2 ^ 32)).then
        (compare (seq.toNat % 2 ^ 24) (seq'.toNat % 2 ^ 24)) ∧
      (id = id' ↔ ts.toNat % 2 ^ 32 = ts'.toNat % 2 ^ 32 ∧
        seq.toNat % 2 ^ 24 = seq'.toNat % 2 ^ 24) := by
  have hset : ¬ (s.machineId = 0 ∨ s.pid = 0) := not_or.mpr ⟨hmachine, hpid⟩
  have hmade (ts seq : BitVec 32) : ∃ id, mongoUtilOidNewWithTime o s ts seq = some id ∧
      id.bytes = (leBytes 4 ts.toNat).reverse ++ (o.mem32 s.machineId).take 3 ++ o.mem16 s.pid
        ++ (leBytes 3 seq.toNat).reverse := by
    unfold mongoUtilOidNewWithTime
    rw [if_neg hset]
    refine ⟨_, rfl, ?_⟩
    simp [leBytes]
  obtain ⟨id, hid, hbytes⟩ := hmade ts seq
  obtain ⟨id', hid', hbytes'⟩ := hmade ts' seq'
  have hts := Nat.mod_eq_of_lt ts.isLt
  have hts' := Nat.mod_eq_of_lt ts'.isLt
  refine ⟨id, id', hid, hid', ?_, ?_⟩
  · rw [hbytes, hbytes', memcmp_append (by simp), memcmp_append (by simp),
      memcmp_append (by simp)]
    simp only [memcmp_self, memcmp_reverse_leBytes, Ordering.then_eq]
    rfl
  · rw [oid_eq_iff hid hid', hts, hts']
    simp only [← BitVec.toNat_inj, BitVec.toNat_setWidth]

/-- A later second goes before a higher sequence number. -/
theorem oid_order_second :
    ∃ id id', mongoUtilOidNewWithTime .little ⟨1234, 7⟩ 1 0 = some id ∧
      mongoUtilOidNewWithTime .little ⟨1234, 7⟩ 0 2 = some id' ∧
      memcmp id.bytes id'.bytes = (compare (1 % 2 ^ 32) (0 % 2 ^ 32)).then
        (compare (0 % 2 ^ 24) (2 % 2 ^ 24)) ∧
      (id = id' ↔ 1 % 2 ^ 32 = 0 % 2 ^ 32 ∧ 0 % 2 ^ 24 = 2 % 2 ^ 24) :=
  oid_order .little (s := ⟨1234, 7⟩) (by decide) (by decide) 1 0 0 2

/-! ## Processes -/

/-- What a process has after its first call of `mongo_util_oid_init`. -/
def firstInit (mid p r : BitVec 32) : OidStatics := mongoUtilOidInit ⟨0, 0⟩ mid p r

/-- With the same machine id, two processes get ids, and never the same one. -/
structure OidsApart (o : ByteOrder) (mid p q : BitVec 32) : Prop where
  left : ∀ r ts seq, mongoUtilOidNewWithTime o (firstInit mid p r) ts seq ≠ none
  right : ∀ r ts seq, mongoUtilOidNewWithTime o (firstInit mid q r) ts seq ≠ none
  apart : ∀ r r' ts seq, mongoUtilOidNewWithTime o (firstInit mid p r) ts seq
    ≠ mongoUtilOidNewWithTime o (firstInit mid q r') ts seq

/-- The first call leaves the machine id as it was given. -/
theorem firstInit_eq {mid : BitVec 32} (hmid : mid ≠ 0) (p r : BitVec 32) :
    firstInit mid p r = ⟨mid, p.setWidth 16⟩ := by
  have hshift : ((0 : BitVec 16).signExtend 32).sshiftRight 16 = 0#32 := by decide
  unfold firstInit mongoUtilOidInit
  rw [if_neg hmid, hshift, BitVec.xor_zero]

theorem setWidth16_eq_iff (p q : BitVec 32) :
    p.setWidth 16 = q.setWidth 16 ↔ p.toNat % 65536 = q.toNat % 65536 := by
  rw [← BitVec.toNat_inj, BitVec.toNat_setWidth, BitVec.toNat_setWidth]

theorem pid_zero_iff (p : BitVec 32) : p.setWidth 16 = 0 ↔ p.toNat % 65536 = 0 :=
  setWidth16_eq_iff p 0

theorem mem16_inj {o : ByteOrder} {x y : BitVec 16} (h : o.mem16 x = o.mem16 y) : x = y := by
  have hbytes : leBytes 2 x.toNat = leBytes 2 y.toNat := by
    cases o with
    | little => exact h
    | big => exact List.reverse_injective h
  exact BitVec.eq_of_toNat_eq (leBytes_inj x.isLt y.isLt hbytes)

/-- Without a process id there is no ObjectID. -/
theorem oid_none_iff {o : ByteOrder} {mid : BitVec 32} (hmid : mid ≠ 0) (p r ts seq : BitVec 32) :
    mongoUtilOidNewWithTime o (firstInit mid p r) ts seq = none ↔ p.toNat % 65536 = 0 := by
  rw [firstInit_eq hmid, ← pid_zero_iff]
  unfold mongoUtilOidNewWithTime
  split
  next h => simpa only [true_iff] using h.resolve_left hmid
  next h => simpa only [reduceCtorEq, false_iff] using (not_or.mp h).2

/-- Two process ids tell processes apart exactly if neither is a multiple of `2 ^ 16` and they do
not agree up to one. -/
theorem oid_apart_iff (o : ByteOrder) {mid : BitVec 32} (hmid : mid ≠ 0) (p q : BitVec 32) :
    OidsApart o mid p q ↔
      p.toNat % 65536 ≠ 0 ∧ q.toNat % 65536 ≠ 0 ∧ p.toNat % 65536 ≠ q.toNat % 65536 := by
  constructor
  · rintro ⟨hp, hq, happart⟩
    refine ⟨?_, ?_, ?_⟩
    · exact (oid_none_iff hmid p 0 0 0).not.mp (hp 0 0 0)
    · exact (oid_none_iff hmid q 0 0 0).not.mp (hq 0 0 0)
    · intro heq
      apply happart 0 0 0 0
      rw [firstInit_eq hmid, firstInit_eq hmid, (setWidth16_eq_iff p q).mpr heq]
  · rintro ⟨hp, hq, hne⟩
    constructor
    · intro r ts seq
      exact (oid_none_iff hmid p r ts seq).not.mpr hp
    · intro r ts seq
      exact (oid_none_iff hmid q r ts seq).not.mpr hq
    · intro r r' ts seq heq
      have hbytes := congrArg (Option.map Oid.bytes) heq
      have hset (p : BitVec 32) (hp : p.toNat % 65536 ≠ 0) :
          ¬ (mid = 0 ∨ p.setWidth 16 = 0) :=
        not_or.mpr ⟨hmid, (pid_zero_iff p).not.mpr hp⟩
      rw [mongoUtilOidNewWithTime_copies, mongoUtilOidNewWithTime_copies, firstInit_eq hmid,
        firstInit_eq hmid, if_neg (hset p hp), if_neg (hset q hq), oidCopies_eq, oidCopies_eq,
        Option.some.injEq] at hbytes
      obtain ⟨hfront, -⟩ := List.append_inj' hbytes rfl
      obtain ⟨-, hpid⟩ := List.append_inj' hfront (by simp)
      exact hne ((setWidth16_eq_iff p q).mp (mem16_inj hpid))

theorem oid_apart_one_two : OidsApart .little 1234 1 2 ↔
    (1 : BitVec 32).toNat % 65536 ≠ 0 ∧ (2 : BitVec 32).toNat % 65536 ≠ 0 ∧
      (1 : BitVec 32).toNat % 65536 ≠ (2 : BitVec 32).toNat % 65536 :=
  oid_apart_iff .little (by decide) 1 2

/-- Process 65537 makes the ids of process 1, and process 65536 makes none. -/
theorem oid_not_apart :
    ¬ OidsApart .little 1234 1 65537 ∧ ¬ OidsApart .little 1234 1 65536 := by
  constructor
  · intro h
    exact h.apart 0 0 0 0 (by decide)
  · intro h
    exact h.right 0 0 0 (by decide)

end LibMongo
