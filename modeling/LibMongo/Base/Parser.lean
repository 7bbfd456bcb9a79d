import LibMongo.Base.Bytes

/-!
# Parsers of byte strings

A parser takes a value off the front of a byte string.  `Reads p bs a` says
that `p` takes exactly `bs` off the front and gives `a`, whatever follows, so
the bytes of a composed format are read by the composition of the parsers
(`Reads.bind`).

`Parses p bs a` says that `p` reads the whole of `bs`, and is for the parsers
that look for the end of the input.  `parseAll` repeats a parser to the end, and
`parseAll_flatMap` is its rule for the images of a list.
-/

/-- A parser of byte strings. -/
abbrev Parser (α : Type) := StateT Bytes Option α

namespace Parser

open Bytes

/-! ## What a parser reads -/

/-- `p` takes `bs` off the front and gives `a`. -/
def Reads {α : Type} (p : Parser α) (bs : Bytes) (a : α) : Prop :=
  ∀ rest, p.run (bs ++ rest) = some (a, rest)

theorem Reads.pure {α : Type} (a : α) : Reads (Pure.pure a) [] a := fun _ => rfl

/-- Formats one after the other are read by the parsers one after the other. -/
theorem Reads.bind {α β : Type} {p : Parser α} {f : α → Parser β} {bs cs : Bytes} {a : α} {b : β}
    (hp : Reads p bs a) (hf : Reads (f a) cs b) : Reads (p >>= f) (bs ++ cs) b := by
  intro rest
  rw [List.append_assoc, StateT.run_bind, hp]
  exact hf rest

/-- The last parser of a sequence. -/
theorem Reads.map {α β : Type} {p : Parser α} {f : α → β} {bs : Bytes} {a : α}
    (hp : Reads p bs a) : Reads (f <$> p) bs (f a) := by
  intro rest
  rw [StateT.run_map, hp]
  rfl

/-- A parser that reads the whole input. -/
theorem Reads.run {α : Type} {p : Parser α} {bs : Bytes} {a : α} (h : Reads p bs a) :
    p.run bs = some (a, []) := by
  have := h []
  rwa [List.append_nil] at this

/-- `p` reads the whole input. -/
def Parses {α : Type} (p : Parser α) (bs : Bytes) (a : α) : Prop := p.run bs = some (a, [])

theorem Reads.parses {α : Type} {p : Parser α} {bs : Bytes} {a : α} (h : Reads p bs a) :
    Parses p bs a := h.run

/-- What comes last may look at the end of the input. -/
theorem Reads.then {α β : Type} {p : Parser α} {f : α → Parser β} {bs cs : Bytes} {a : α} {b : β}
    (hp : Reads p bs a) (hf : Parses (f a) cs b) : Parses (p >>= f) (bs ++ cs) b := by
  rw [Parses, StateT.run_bind, hp cs]
  exact hf

theorem Parses.map {α β : Type} {p : Parser α} {f : α → β} {bs : Bytes} {a : α}
    (hp : Parses p bs a) : Parses (f <$> p) bs (f a) := by
  rw [Parses, StateT.run_map, hp]
  rfl

/-! ## Parsers for words and strings -/

/-- The next `n` bytes. -/
def take (n : Nat) : Parser Bytes := fun bs =>
  if n ≤ bs.length then some (bs.take n, bs.drop n) else none

/-- A little-endian word of four bytes. -/
def word32 : Parser (BitVec 32) := (fun bs => BitVec.ofNat 32 (leNat bs)) <$> take 4

/-- A little-endian word of eight bytes. -/
def word64 : Parser (BitVec 64) := (fun bs => BitVec.ofNat 64 (leNat bs)) <$> take 8

/-- A string up to its NUL. -/
def cstring : Parser CString := fun bs =>
  if (0 : UInt8) ∈ bs then
    some (CString.ofBytes bs, bs.drop ((CString.ofBytes bs).length + 1))
  else none

/-- A word with this value. -/
def expect (x : BitVec 32) : Parser Unit := do
  let y ← word32
  if y = x then return () else failure

theorem reads_take (bs : Bytes) : Reads (take bs.length) bs bs := by
  intro rest
  have hle : bs.length ≤ (bs ++ rest).length := by simp
  show (if bs.length ≤ (bs ++ rest).length then _ else _) = _
  rw [if_pos hle, List.take_left, List.drop_left]

theorem reads_word32 (x : BitVec 32) : Reads word32 (leBytes 4 x.toNat) x := by
  have h := (reads_take (leBytes 4 x.toNat)).map (f := fun bs => BitVec.ofNat 32 (leNat bs))
  rw [leBytes_length, ofNat_leNat_leBytes4] at h
  exact h

theorem reads_word64 (x : BitVec 64) : Reads word64 (leBytes 8 x.toNat) x := by
  have h := (reads_take (leBytes 8 x.toNat)).map (f := fun bs => BitVec.ofNat 64 (leNat bs))
  rw [leBytes_length, ofNat_leNat_leBytes8] at h
  exact h

theorem reads_cstring (s : CString) : Reads cstring s.image s := by
  intro rest
  have hmem : (0 : UInt8) ∈ s.image ++ rest := by simp [CString.image]
  show (if (0 : UInt8) ∈ s.image ++ rest then _ else _) = _
  rw [if_pos hmem, CString.ofBytes_image, ← CString.image_length, List.drop_left]

theorem reads_expect (x : BitVec 32) : Reads (expect x) (leBytes 4 x.toNat) () := by
  have h := (reads_word32 x).bind (f := fun y => if y = x then (return () : Parser Unit) else failure)
    (by rw [if_pos rfl]; exact Reads.pure ())
  rw [List.append_nil] at h
  exact h

/-! ## Repetition -/

/-- Values to the end of the input.  Every value takes a byte at least, so the
length of the input is enough fuel. -/
def parseAll {α : Type} (p : Parser α) : Nat → Bytes → Option (List α)
  | _, [] => some []
  | 0, _ :: _ => none
  | fuel + 1, b :: bs => do
      let (a, rest) ← p.run (b :: bs)
      let as ← parseAll p fuel rest
      return a :: as

/-- A parser repeated to the end of the input. -/
def toEnd {α : Type} (p : Parser α) : Parser (List α) := fun bs =>
  (parseAll p bs.length bs).map fun as => (as, [])

/-- The images of a list, each read by `p`, are read as that list. -/
theorem parseAll_flatMap {α β : Type} {p : Parser α} {image : β → Bytes} {f : β → α}
    (hp : ∀ x, Reads p (image x) (f x)) (hne : ∀ x, image x ≠ []) (xs : List β) {fuel : Nat}
    (hfuel : xs.length ≤ fuel) :
    parseAll p fuel (xs.flatMap image) = some (xs.map f) := by
  induction xs generalizing fuel with
  | nil => cases fuel <;> rfl
  | cons x xs ih =>
      rw [List.length_cons] at hfuel
      obtain ⟨fuel, rfl⟩ : ∃ n, fuel = n + 1 := ⟨fuel - 1, by omega⟩
      have hrest := @ih fuel (by omega)
      have hrun := hp x (xs.flatMap image)
      rw [List.flatMap_cons]
      cases hcons : image x ++ xs.flatMap image with
      | nil =>
          rw [List.append_eq_nil_iff] at hcons
          exact absurd hcons.1 (hne x)
      | cons b bs =>
          rw [hcons] at hrun
          simp only [parseAll, hrun, Option.bind_eq_bind, Option.bind_some, hrest]
          rfl

end Parser
