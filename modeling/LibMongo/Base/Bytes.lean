import Mathlib.Algebra.Order.Ring.Int
import Mathlib.Algebra.Order.Ring.Nat
import Mathlib.Data.List.Basic
import Mathlib.Data.List.TakeWhile
import LibMongo.Base.Program

/-!
# Byte strings

Memory seen as lists of bytes.  A pointer into a block is the suffix of the
block that starts at it, so reading through a pointer can only see the bytes
up to the end of the block.

* *Words.*  `leBytes k n` is the little-endian image of `n` in `k` bytes and
  `leNat` reads it back.  `leNat_leBytes` and `leBytes_leNat` are the two
  round trips.
* *Signed words.*  `wrap32` is the conversion to a signed 32-bit integer.
* *Byte order.*  A host stores a word in its own order.  `ByteOrder.le32` is
  the conversion a program applies before it stores a word that must be
  little-endian, and `ByteOrder.mem32_le32` says the stored bytes are the same
  on every host.
* *C strings.*  `CString` is a byte string without a NUL, and `loadCString`
  reads the one a pointer points to.
* *Copies.*  `memcpy` overwrites a part of a block.
-/

/-- A block of memory. -/
abbrev Bytes := List UInt8

namespace Bytes

/-! ## Little-endian words -/

/-- The `k` low bytes of `n`, lowest first. -/
def leBytes : Nat → Nat → Bytes
  | 0, _ => []
  | k + 1, n => UInt8.ofNat n :: leBytes k (n / 256)

/-- The number a little-endian byte string denotes. -/
def leNat : Bytes → Nat
  | [] => 0
  | b :: bs => b.toNat + 256 * leNat bs

@[simp] theorem leBytes_length (k n : Nat) : (leBytes k n).length = k := by
  induction k generalizing n with
  | zero => rfl
  | succ k ih => simp [leBytes, ih]

/-- Reading back a stored number gives its low part. -/
theorem leNat_leBytes (k n : Nat) : leNat (leBytes k n) = n % 256 ^ k := by
  induction k generalizing n with
  | zero => simp [leBytes, leNat, Nat.mod_one]
  | succ k ih =>
      have hstep : n % 256 ^ (k + 1) = n % 256 + 256 * (n / 256 % 256 ^ k) := by
        rw [Nat.pow_succ, Nat.mul_comm, Nat.mod_mul]
      simp only [leBytes, leNat, ih, UInt8.toNat_ofNat', hstep]

theorem leNat_lt (bs : Bytes) : leNat bs < 256 ^ bs.length := by
  induction bs with
  | nil => simp [leNat]
  | cons b bs ih =>
      have hb := b.toNat_lt
      simp only [leNat, List.length_cons, Nat.pow_succ]
      omega

/-- Storing back a number that was read gives the bytes it was read from. -/
theorem leBytes_leNat (bs : Bytes) : leBytes bs.length (leNat bs) = bs := by
  induction bs with
  | nil => rfl
  | cons b bs ih =>
      have hb := b.toNat_lt
      have hdiv : (b.toNat + 256 * leNat bs) / 256 = leNat bs := by omega
      have hlow : UInt8.ofNat (b.toNat + 256 * leNat bs) = b := by
        apply UInt8.toNat_inj.mp
        simp only [UInt8.toNat_ofNat']
        omega
      simp only [List.length_cons, leNat, leBytes, hdiv, ih, hlow]

/-- A number below the range of the word is read back unchanged. -/
theorem leNat_leBytes_of_lt {k n : Nat} (h : n < 256 ^ k) : leNat (leBytes k n) = n := by
  rw [leNat_leBytes, Nat.mod_eq_of_lt h]

/-- Numbers of the range of the word are told apart by their bytes. -/
theorem leBytes_inj {k m n : Nat} (hm : m < 256 ^ k) (hn : n < 256 ^ k)
    (h : leBytes k m = leBytes k n) : m = n := by
  rw [← leNat_leBytes_of_lt hm, ← leNat_leBytes_of_lt hn, h]

/-- The little-endian image of a 32-bit word is read back as that word. -/
@[simp] theorem ofNat_leNat_leBytes4 (x : BitVec 32) :
    BitVec.ofNat 32 (leNat (leBytes 4 x.toNat)) = x := by
  rw [leNat_leBytes_of_lt (by simpa using x.isLt), BitVec.ofNat_toNat, BitVec.setWidth_eq]

/-- The little-endian image of a 64-bit word is read back as that word. -/
@[simp] theorem ofNat_leNat_leBytes8 (x : BitVec 64) :
    BitVec.ofNat 64 (leNat (leBytes 8 x.toNat)) = x := by
  rw [leNat_leBytes_of_lt (by simpa using x.isLt), BitVec.ofNat_toNat, BitVec.setWidth_eq]

/-! ## Signed words -/

/-- Conversion to a signed 32-bit integer. -/
def wrap32 (i : Int) : Int := (i + 2147483648) % 4294967296 - 2147483648

theorem wrap32_of_range {i : Int} (hlo : -2147483648 ≤ i) (hhi : i < 2147483648) : wrap32 i = i := by
  unfold wrap32
  omega

/-- A length below `2 ^ 31` is a signed 32-bit integer. -/
theorem wrap32_ofNat {n : Nat} (h : n < 2147483648) : wrap32 n = n :=
  wrap32_of_range (by omega) (by omega)

theorem wrap32_lt (i : Int) : wrap32 i < 2147483648 := by
  unfold wrap32
  omega

theorem le_wrap32 (i : Int) : -2147483648 ≤ wrap32 i := by
  unfold wrap32
  omega

/-! ## Byte order of the host -/

/-- The order in which a host stores the bytes of a word. -/
inductive ByteOrder where
  | little
  | big
deriving DecidableEq, Repr

/-- The bytes of a word as the host stores them. -/
def ByteOrder.mem32 : ByteOrder → BitVec 32 → Bytes
  | .little, x => leBytes 4 x.toNat
  | .big, x => (leBytes 4 x.toNat).reverse

/-- The word the host reads from bytes in its memory. -/
def ByteOrder.load32 : ByteOrder → Bytes → BitVec 32
  | .little, bs => BitVec.ofNat 32 (leNat bs)
  | .big, bs => BitVec.ofNat 32 (leNat bs.reverse)

/-- Conversion between the order of the host and little-endian. -/
def ByteOrder.le32 : ByteOrder → BitVec 32 → BitVec 32
  | .little, x => x
  | .big, x => BitVec.ofNat 32 (leNat (leBytes 4 x.toNat).reverse)

/-- Conversion between the order of the host and big-endian. -/
def ByteOrder.be32 : ByteOrder → BitVec 32 → BitVec 32
  | .little, x => BitVec.ofNat 32 (leNat (leBytes 4 x.toNat).reverse)
  | .big, x => x

/-- The bytes of a short word as the host stores them. -/
def ByteOrder.mem16 : ByteOrder → BitVec 16 → Bytes
  | .little, x => leBytes 2 x.toNat
  | .big, x => (leBytes 2 x.toNat).reverse

@[simp] theorem ByteOrder.mem16_length (o : ByteOrder) (x : BitVec 16) :
    (o.mem16 x).length = 2 := by
  cases o <;> simp [ByteOrder.mem16]

@[simp] theorem ByteOrder.mem32_length (o : ByteOrder) (x : BitVec 32) :
    (o.mem32 x).length = 4 := by
  cases o <;> simp [ByteOrder.mem32]

@[simp] theorem ByteOrder.load32_mem32 (o : ByteOrder) (x : BitVec 32) :
    o.load32 (o.mem32 x) = x := by
  cases o <;> simp [ByteOrder.load32, ByteOrder.mem32]

theorem leBytes4_ofNat_leNat {bs : Bytes} (h : bs.length = 4) :
    leBytes 4 (BitVec.ofNat 32 (leNat bs)).toNat = bs := by
  have hlt : leNat bs < 2 ^ 32 := by
    have := leNat_lt bs
    rw [h] at this
    simpa using this
  rw [BitVec.toNat_ofNat, Nat.mod_eq_of_lt hlt, ← h, leBytes_leNat]

/-- A converted word has the same bytes on every host. -/
@[simp] theorem ByteOrder.mem32_le32 (o : ByteOrder) (x : BitVec 32) :
    o.mem32 (o.le32 x) = leBytes 4 x.toNat := by
  cases o with
  | little => rfl
  | big =>
      simp only [ByteOrder.mem32, ByteOrder.le32]
      rw [leBytes4_ofNat_leNat (by simp), List.reverse_reverse]

/-- A word converted to big-endian has the same bytes on every host as well. -/
@[simp] theorem ByteOrder.mem32_be32 (o : ByteOrder) (x : BitVec 32) :
    o.mem32 (o.be32 x) = (leBytes 4 x.toNat).reverse := by
  cases o with
  | little => exact leBytes4_ofNat_leNat (by simp)
  | big => rfl

/-- A word in little-endian is the same on every host. -/
theorem ByteOrder.le32_load32 (o : ByteOrder) {bs : Bytes} (h : bs.length = 4) :
    o.le32 (o.load32 bs) = BitVec.ofNat 32 (leNat bs) := by
  cases o with
  | little => rfl
  | big =>
      simp only [ByteOrder.le32, ByteOrder.load32]
      rw [leBytes4_ofNat_leNat (by simpa using h), List.reverse_reverse]

/-- Converting twice gives the word back. -/
@[simp] theorem ByteOrder.le32_le32 (o : ByteOrder) (x : BitVec 32) :
    o.le32 (o.le32 x) = x := by
  cases o with
  | little => rfl
  | big =>
      have hinner : leBytes 4 (ByteOrder.big.le32 x).toNat = (leBytes 4 x.toNat).reverse :=
        leBytes4_ofNat_leNat (by simp)
      show BitVec.ofNat 32 (leNat (leBytes 4 (ByteOrder.big.le32 x).toNat).reverse) = x
      rw [hinner, List.reverse_reverse, ofNat_leNat_leBytes4]

/-! ## Reading through a pointer -/

/-- The first `n` bytes behind a pointer. -/
def load (mem : Bytes) (n : Nat) : Except Halt Bytes :=
  if n ≤ mem.length then .ok (mem.take n) else .error .outside

theorem load_append (front rest : Bytes) : load (front ++ rest) front.length = .ok front := by
  simp [load]

/-- A read that succeeds stays inside the block. -/
theorem load_ok {mem bs : Bytes} {n : Nat} (h : load mem n = .ok bs) :
    n ≤ mem.length ∧ bs = mem.take n := by
  unfold load at h
  split at h
  next hle => exact ⟨hle, by simpa using h.symm⟩
  next => simp at h

/-! ## Copies -/

/-- The block `buf` with `src` written at offset `off`. -/
def memcpy (buf : Bytes) (off : Nat) (src : Bytes) : Bytes :=
  buf.take off ++ src ++ buf.drop (off + src.length)

/-- Fresh memory.  Its content is arbitrary.  A byte that is never written shows
as this one. -/
def fresh (n : Nat) : Bytes := List.replicate n 0xcd

@[simp] theorem fresh_length (n : Nat) : (fresh n).length = n := by simp [fresh]

/-- Writing right behind the part of a fresh block that is already written. -/
theorem memcpy_fresh (written src : Bytes) (n : Nat) :
    memcpy (written ++ fresh n) written.length src
      = (written ++ src) ++ fresh (n - src.length) := by
  simp [memcpy, fresh]

end Bytes

/-! ## C strings -/

/-- A string of the language C: its bytes, without the NUL that ends it. -/
structure CString where
  /-- The bytes before the terminator. -/
  bytes : Bytes
  /-- There is no earlier terminator. -/
  noNul : (0 : UInt8) ∉ bytes
deriving DecidableEq

namespace CString

/-- The string as it lies in memory. -/
def image (s : CString) : Bytes := s.bytes ++ [0]

/-- The number of bytes before the terminator. -/
def length (s : CString) : Nat := s.bytes.length

@[simp] theorem image_length (s : CString) : s.image.length = s.length + 1 := by
  simp [image, length]

theorem ext_bytes {s t : CString} (h : s.bytes = t.bytes) : s = t := by
  cases s
  cases t
  simpa using h

/-- The bytes before the first NUL. -/
def ofBytes (mem : Bytes) : CString where
  bytes := mem.takeWhile (· ≠ 0)
  noNul := by
    intro hmem
    simpa using List.mem_takeWhile_imp hmem

theorem zero_notMem_map {cs : List Char} (h : cs.all (fun c => UInt8.ofNat c.toNat ≠ 0) = true) :
    (0 : UInt8) ∉ cs.map fun c => UInt8.ofNat c.toNat := by
  intro hmem
  obtain ⟨c, hc, hzero⟩ := List.mem_map.mp hmem
  exact absurd hzero (of_decide_eq_true (List.all_eq_true.mp h c hc))

/-- A string of ASCII characters. -/
def ascii (cs : List Char)
    (h : cs.all (fun c => UInt8.ofNat c.toNat ≠ 0) = true := by exact @rfl Bool true) : CString :=
  ⟨cs.map fun c => UInt8.ofNat c.toNat, zero_notMem_map h⟩

/-- The string a pointer points to.  Without a terminator the reader leaves the
block. -/
def load (mem : Bytes) : Except Halt CString :=
  if (0 : UInt8) ∈ mem then .ok (ofBytes mem) else .error .outside

theorem takeWhile_image (s : CString) (rest : Bytes) :
    (s.image ++ rest).takeWhile (· ≠ 0) = s.bytes := by
  have hall : ∀ b ∈ s.bytes, (b ≠ 0) := by
    intro b hb h0
    exact s.noNul (h0 ▸ hb)
  rw [image, List.append_assoc, List.takeWhile_append_of_pos (by simpa using hall)]
  simp

theorem ofBytes_image (s : CString) (rest : Bytes) : ofBytes (s.image ++ rest) = s :=
  ext_bytes (takeWhile_image s rest)

/-- The bytes of a string that lie in a block without its NUL. -/
theorem ofBytes_bytes (s : CString) : ofBytes s.bytes = s := by
  apply ext_bytes
  simp only [ofBytes]
  rw [List.takeWhile_eq_self_iff]
  intro b hb
  simpa using fun h0 : b = 0 => s.noNul (h0 ▸ hb)

/-- A stored string is read back, whatever lies behind it. -/
theorem load_image (s : CString) (rest : Bytes) : load (s.image ++ rest) = .ok s := by
  have hmem : (0 : UInt8) ∈ s.image ++ rest := by simp [image]
  rw [load, if_pos hmem, ofBytes_image]

/-- A string that is read lies in the block with its terminator. -/
theorem load_length {mem : Bytes} {s : CString} (h : load mem = .ok s) :
    s.length < mem.length := by
  unfold load at h
  split at h
  next hmem =>
    have hs : s.bytes = mem.takeWhile (· ≠ 0) := by
      cases h
      rfl
    have hsplit := mem.takeWhile_append_dropWhile (p := (· ≠ 0))
    rw [← hs] at hsplit
    have hrest : mem.dropWhile (· ≠ 0) ≠ [] := by
      intro hnil
      rw [hnil, List.append_nil] at hsplit
      exact s.noNul (hsplit ▸ hmem)
    have hlen := congrArg List.length hsplit
    have hpos := List.length_pos_iff.mpr hrest
    rw [List.length_append] at hlen
    unfold length
    omega
  next => cases h

/-- The two strings one after the other. -/
def append (s t : CString) : CString where
  bytes := s.bytes ++ t.bytes
  noNul := by
    rw [List.mem_append]
    exact fun h => h.elim s.noNul t.noNul

end CString
