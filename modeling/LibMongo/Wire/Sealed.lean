import Mathlib.Data.List.ReduceOption
import Mathlib.Algebra.Order.BigOperators.Group.List
import LibMongo.Wire.Packet
import LibMongo.Base.Framing

/-!
# Packets that state their length

The packets that the library builds are complete: the block is as long as the
packet says, and the first word of the header is the length of the whole
(`MongoPacket.Sealed`).  So on the wire no packet is the beginning of another
(`framing_packets`).
-/

namespace LibMongo

open Bytes

variable {o : ByteOrder} {id : BitVec 32}

/-! ## Blocks -/

/-- A copy inside a block leaves its length. -/
theorem memcpy_inside {buf : Bytes} {n : Nat} (off : Nat) (src : Bytes) (hbuf : buf.length = n)
    (h : off + src.length ≤ n) : (memcpy buf off src).length = n := by
  simp only [memcpy, List.length_append, List.length_take, List.length_drop]
  omega

/-- A document is copied with the size it states. -/
theorem bsonBytes_length (b : Bson) : (bsonBytes b).length = (bsonSize (some b)).toNat := by
  have hle : bsonSize (some b) ≤ b.data.length := by
    rw [bsonSize]
    split
    · rw [wrap32]
      omega
    · omega
  rw [bsonBytes, List.length_take]
  omega

/-- The block of the packet is as long as the packet says. -/
structure MongoPacket.Sealed (o : ByteOrder) (p : MongoPacket) : Prop where
  block : ∃ data, p.data = some data ∧ p.dataSize = data.length
  length : p.header.length = o.le32 (BitVec.ofInt 32 (16 + p.dataSize))

theorem commandPacket_sealed (opcode : MongoWireOpcode) {data : Bytes} {dataSize : Int}
    (h : data.length = dataSize.toNat) (hpos : 0 ≤ dataSize) :
    (commandPacket o id opcode data dataSize).Sealed o := by
  refine ⟨⟨data, rfl, ?_⟩, rfl⟩
  show dataSize = data.length
  omega

/-! ## Commands -/

theorem mongoWireCmdUpdate_sealed {ns : Option CString} {flags : BitVec 32}
    {selector update : Option Bson} {p : MongoPacket}
    (h : mongoWireCmdUpdate o id ns flags selector update = .ok p) : p.Sealed o := by
  unfold mongoWireCmdUpdate at h
  split at h
  case h_1 ns selector update =>
    dsimp only at h
    split at h
    · cases h
    · next hsize =>
      rw [not_or, Int.not_lt, Int.not_lt] at hsize
      have hselector := bsonBytes_length selector
      have hupdate := bsonBytes_length update
      have himage := ns.image_length
      have hword : ∀ x : BitVec 32, (o.mem32 x).length = 4 := o.mem32_length
      cases h
      refine commandPacket_sealed _ ?_ (by omega)
      refine memcpy_inside _ _ (memcpy_inside _ _ (memcpy_inside _ _ (memcpy_inside _ _
        (memcpy_inside _ _ (fresh_length _) ?_) ?_) ?_) ?_) ?_
      · rw [leBytes_length]
        omega
      · omega
      · rw [hword]
        omega
      · omega
      · omega
  case h_2 => cases h

theorem mongoWireCmdDelete_sealed {ns : Option CString} {flags : BitVec 32} {sel : Option Bson}
    {p : MongoPacket} (h : mongoWireCmdDelete o id ns flags sel = .ok p) : p.Sealed o := by
  unfold mongoWireCmdDelete at h
  split at h
  case h_1 ns sel =>
    dsimp only at h
    split at h
    · cases h
    · next hsize =>
      rw [Int.not_lt] at hsize
      have hsel := bsonBytes_length sel
      have himage := ns.image_length
      have hword : ∀ x : BitVec 32, (o.mem32 x).length = 4 := o.mem32_length
      cases h
      refine commandPacket_sealed _ ?_ (by omega)
      refine memcpy_inside _ _ (memcpy_inside _ _ (memcpy_inside _ _ (memcpy_inside _ _
        (fresh_length _) ?_) ?_) ?_) ?_
      · rw [leBytes_length]
        omega
      · omega
      · rw [hword]
        omega
      · omega
  case h_2 => cases h

theorem mongoWireCmdGetMore_sealed {ns : Option CString} {ret : BitVec 32} {cursorId : BitVec 64}
    {p : MongoPacket} (h : mongoWireCmdGetMore o id ns ret cursorId = .ok p) : p.Sealed o := by
  cases ns with
  | none => cases h
  | some ns =>
      have himage := ns.image_length
      have hword : ∀ x : BitVec 32, (o.mem32 x).length = 4 := o.mem32_length
      cases h
      refine commandPacket_sealed _ ?_ (by omega)
      refine memcpy_inside _ _ (memcpy_inside _ _ (memcpy_inside _ _ (memcpy_inside _ _
        (fresh_length _) ?_) ?_) ?_) ?_
      · rw [leBytes_length]
        omega
      · omega
      · rw [hword]
        omega
      · rw [leBytes_length]
        omega

theorem sum_sizes_nonneg {docs : List Bson} (h : ∀ b ∈ docs, 0 ≤ bsonSize (some b)) :
    0 ≤ (docs.map fun b => bsonSize (some b)).sum := by
  refine List.sum_nonneg fun x hx => ?_
  obtain ⟨b, hb, rfl⟩ := List.mem_map.mp hx
  exact h b hb

/-- The documents of an insert fit into the block. -/
theorem copyDocuments_length {data : Bytes} {n pos : Nat} {docs : List Bson}
    (hdata : data.length = n) (hsize : ∀ b ∈ docs, 0 ≤ bsonSize (some b))
    (h : pos + (docs.map fun b => bsonSize (some b)).sum ≤ n) :
    (copyDocuments data pos docs).length = n := by
  induction docs generalizing data pos with
  | nil => exact hdata
  | cons b docs ih =>
      have hb := bsonBytes_length b
      have hpos := hsize b List.mem_cons_self
      have hrest : ∀ b ∈ docs, 0 ≤ bsonSize (some b) := fun b' hb' =>
        hsize b' (List.mem_cons_of_mem b hb')
      have hsum := sum_sizes_nonneg hrest
      rw [List.map_cons, List.sum_cons] at h
      rw [copyDocuments]
      refine ih (memcpy_inside pos _ hdata ?_) hrest ?_
      · omega
      · omega

theorem mongoWireCmdInsertN_sealed {ns : Option CString} {n : Int}
    {docs : Option (List (Option Bson))} {p : MongoPacket}
    (h : mongoWireCmdInsertN o id ns n docs = .ok p) : p.Sealed o := by
  unfold mongoWireCmdInsertN at h
  split at h
  case h_1 ns docs =>
    split at h
    · cases h
    · dsimp only at h
      split at h
      · cases h
      · next hany =>
        have hsize : ∀ b ∈ (docs.take n.toNat).reduceOption, 0 ≤ bsonSize (some b) := by
          intro b hb
          rw [Bool.not_eq_true, List.any_eq_false] at hany
          have := hany (some b) (List.reduceOption_mem_iff.mp hb)
          simp only [decide_eq_true_eq] at this
          omega
        have hsum := sum_sizes_nonneg hsize
        have himage := ns.image_length
        cases h
        refine commandPacket_sealed _ ?_ (by omega)
        refine copyDocuments_length (memcpy_inside _ _ (memcpy_inside _ _ (fresh_length _) ?_) ?_)
          hsize ?_
        · rw [leBytes_length]
          omega
        · omega
        · omega
  case h_2 => cases h

theorem mongoWireCmdQuery_sealed {flags skip ret : BitVec 32} {ns : Option CString}
    {query sel : Option Bson} {p : MongoPacket}
    (h : mongoWireCmdQuery o id ns flags skip ret query sel = .ok p) : p.Sealed o := by
  unfold mongoWireCmdQuery at h
  split at h
  case h_1 ns query =>
    dsimp only at h
    split at h
    · cases h
    · next hsize =>
      rw [not_or, Int.not_lt] at hsize
      have hquery := bsonBytes_length query
      have himage := ns.image_length
      have hword : ∀ x : BitVec 32, (o.mem32 x).length = 4 := o.mem32_length
      -- the fields up to the query, in a block that has room for them
      have hfields : ∀ n : Nat, ns.length + 13 + (bsonBytes query).length ≤ n →
          (memcpy (memcpy (memcpy (memcpy (memcpy (fresh n) 0 (o.mem32 (o.le32 flags))) 4
            ns.image) (4 + (ns.length + 1)) (o.mem32 (o.le32 skip))) (4 * 2 + (ns.length + 1))
            (o.mem32 (o.le32 ret))) (4 * 3 + (ns.length + 1)) (bsonBytes query)).length = n := by
        intro n hn
        refine memcpy_inside _ _ (memcpy_inside _ _ (memcpy_inside _ _ (memcpy_inside _ _
          (memcpy_inside _ _ (fresh_length _) ?_) ?_) ?_) ?_) ?_
        · rw [hword]
          omega
        · omega
        · rw [hword]
          omega
        · rw [hword]
          omega
        · omega
      cases sel with
      | none =>
          cases h
          refine commandPacket_sealed _ ?_ ?_
          · simp only [Option.isSome_none, Bool.false_eq_true, if_false]
            exact hfields _ (by omega)
          · simp only [Option.isSome_none, Bool.false_eq_true, if_false]
            omega
      | some sel =>
          have hsel := bsonBytes_length sel
          have hselSize : 0 ≤ bsonSize (some sel) := by
            have := hsize.2
            simp only [Option.isSome_some, true_and] at this
            omega
          cases h
          refine commandPacket_sealed _ ?_ ?_
          · simp only [Option.isSome_some, if_true]
            exact memcpy_inside _ _ (hfields _ (by omega)) (by omega)
          · simp only [Option.isSome_some, if_true]
            omega
  case h_2 => cases h

theorem mongoWireCmdCustom_sealed {flags : BitVec 32} {db : Option CString} {command : Option Bson}
    {p : MongoPacket} (h : mongoWireCmdCustom o id db flags command = .ok p) : p.Sealed o := by
  unfold mongoWireCmdCustom at h
  split at h
  case h_1 =>
    split at h
    · cases h
    · exact mongoWireCmdQuery_sealed h
  case h_2 => cases h

theorem copyCursorIds_length {data : Bytes} {n pos : Nat} {cids : List (BitVec 64)}
    (hdata : data.length = n) (h : pos + 8 * cids.length ≤ n) :
    (copyCursorIds data pos cids).length = n := by
  induction cids generalizing data pos with
  | nil => exact hdata
  | cons cid cids ih =>
      rw [List.length_cons] at h
      rw [copyCursorIds]
      refine ih (memcpy_inside pos _ hdata ?_) ?_
      · rw [leBytes_length]
        omega
      · omega

theorem mongoWireCmdKillCursors_sealed {cids : List (BitVec 64)} {p : MongoPacket}
    (h : mongoWireCmdKillCursors o id cids = .ok p) : p.Sealed o := by
  unfold mongoWireCmdKillCursors at h
  split at h
  · cases h
  · cases h
    refine commandPacket_sealed _ ?_ (by omega)
    refine copyCursorIds_length (memcpy_inside _ _ (memcpy_inside _ _ (fresh_length _) ?_) ?_) ?_
    · rw [leBytes_length]
      omega
    · rw [o.mem32_length]
      omega
    · omega

/-! ## Packets on the wire -/

/-- Bytes whose first word is their number. -/
def IsPacket (bs : Bytes) : Prop := 16 ≤ bs.length ∧ leNat (bs.take 4) = bs.length

instance (bs : Bytes) : Decidable (IsPacket bs) := inferInstanceAs (Decidable (_ ∧ _))

theorem framing_packets : Framing IsPacket where
  nonempty h hnil := by
    rw [hnil] at h
    exact absurd h.1 (by decide)
  prefixFree {x y} hx hy hpre := by
    refine hpre.eq_of_length ?_
    obtain ⟨t, rfl⟩ := hpre
    rw [← hx.2, ← hy.2, List.take_append_of_le_length (by have := hx.1; omega)]

/-- A packet without a block has no bytes. -/
def MongoPacket.bytes (o : ByteOrder) (p : MongoPacket) : Bytes :=
  p.header.image o ++ p.data.getD []

theorem MongoPacket.Sealed.isPacket {p : MongoPacket} (h : p.Sealed o)
    (hsmall : (p.bytes o).length < 4294967296) : IsPacket (p.bytes o) := by
  obtain ⟨data, hdata, hsize⟩ := h.block
  have hbytes : p.bytes o = p.header.image o ++ data := by rw [MongoPacket.bytes, hdata]; rfl
  rw [hbytes] at hsmall ⊢
  have hlen : (p.header.image o ++ data).length = 16 + data.length := by
    rw [List.length_append, MongoPacketHeader.image_length]
  have hword : (p.header.image o).take 4 = leBytes 4 (16 + data.length) := by
    have hfirst : (p.header.image o).take 4 = o.mem32 p.header.length := by
      rw [MongoPacketHeader.image, List.take_left' (o.mem32_length _)]
    rw [hfirst, h.length, ByteOrder.mem32_le32, hsize]
    congr 1
    rw [hlen] at hsmall
    rw [show (16 + (data.length : Int)) = ((16 + data.length : Nat) : Int) by omega,
      BitVec.ofInt_natCast, BitVec.toNat_ofNat, Nat.mod_eq_of_lt (by omega)]
  refine ⟨by omega, ?_⟩
  rw [List.take_append_of_le_length (by simp), hword,
    leNat_leBytes_of_lt (by rw [hlen] at hsmall; simpa using hsmall), hlen]

end LibMongo
