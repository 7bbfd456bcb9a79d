import Mathlib.Algebra.Order.Ring.Nat
import Mathlib.Data.List.Basic
import Mathlib.Tactic.Common

/-!
# Lists in pieces

`pieces c l` cuts a list into pieces of the length `c`, the last of which may be shorter.
Piece `k` is given by its position, so it can be looked up (`getElem_pieces`), and the list
can also be taken apart from the front (`pieces_append`) and put together again
(`flatten_pieces`).
-/

variable {α : Type}

/-- The number of pieces a length makes. -/
def pieceCount (c n : Nat) : Nat := (n + c - 1) / c

/-- The piece with this number. -/
def piece (c : Nat) (l : List α) (k : Nat) : List α := (l.drop (k * c)).take c

/-- The pieces of a list. -/
def pieces (c : Nat) (l : List α) : List (List α) :=
  (List.range (pieceCount c l.length)).map (piece c l)

section Pieces

variable {c : Nat}

@[simp] theorem pieces_length (l : List α) : (pieces c l).length = pieceCount c l.length := by
  simp [pieces]

theorem getElem_pieces {l : List α} {k : Nat} (h : k < (pieces c l).length) :
    (pieces c l)[k] = piece c l k := by
  simp [pieces]

theorem pieceCount_short {n : Nat} (hpos : 0 < n) (hle : n ≤ c) : pieceCount c n = 1 := by
  rw [pieceCount]
  exact Nat.div_eq_of_lt_le (by omega) (by omega)

/-- A list that is no longer than a piece. -/
theorem pieces_short {l : List α} (hne : l ≠ []) (hle : l.length ≤ c) : pieces c l = [l] := by
  rw [pieces, pieceCount_short (List.length_pos_iff.mpr hne) hle]
  simp [piece, List.take_of_length_le hle]

/-- The length of full pieces. -/
theorem length_flatten_full {ps : List (List α)} (hps : ∀ p ∈ ps, p.length = c) :
    ps.flatten.length = ps.length * c := by
  rw [List.length_flatten, List.map_congr_left hps, List.map_const', List.sum_replicate_nat]

variable (hc : 0 < c)
include hc

@[simp] theorem pieceCount_zero : pieceCount c 0 = 0 := by
  rw [pieceCount]
  exact Nat.div_eq_of_lt (by omega)

/-- Another full piece. -/
theorem pieceCount_add (n : Nat) : pieceCount c (c + n) = pieceCount c n + 1 := by
  rw [pieceCount, pieceCount, ← Nat.add_div_right _ hc]
  congr 1
  omega

@[simp] theorem pieces_nil : pieces c ([] : List α) = [] := by
  simp [pieces, pieceCount_zero hc]

/-- The first piece and the others. -/
theorem pieces_append {p : List α} (hp : p.length = c) (l : List α) :
    pieces c (p ++ l) = p :: pieces c l := by
  have hfirst : piece c (p ++ l) 0 = p := by
    rw [piece, Nat.zero_mul, List.drop_zero, List.take_left' hp]
  have hnext : ∀ k, piece c (p ++ l) (k + 1) = piece c l k := by
    intro k
    have hpos : (k + 1) * c = p.length + k * c := by
      rw [hp, Nat.succ_mul, Nat.add_comm]
    rw [piece, hpos, ← List.drop_drop, List.drop_left, piece]
  rw [pieces, List.length_append, hp, pieceCount_add hc, List.range_succ_eq_map, List.map_cons,
    hfirst, List.map_map, pieces]
  congr 1
  apply List.map_congr_left
  intro k _
  exact hnext k

theorem pieces_eq_cons {l : List α} (hne : l ≠ []) :
    pieces c l = l.take c :: pieces c (l.drop c) := by
  by_cases hle : l.length ≤ c
  · rw [pieces_short hne hle, List.take_of_length_le hle, List.drop_of_length_le hle,
      pieces_nil hc]
  · conv => lhs; rw [← List.take_append_drop c l]
    exact pieces_append hc (by rw [List.length_take]; omega) _

/-- Full pieces in front. -/
theorem pieces_flatten_append {ps : List (List α)} (hps : ∀ p ∈ ps, p.length = c) (l : List α) :
    pieces c (ps.flatten ++ l) = ps ++ pieces c l := by
  induction ps with
  | nil => rfl
  | cons p ps ih =>
      rw [List.flatten_cons, List.append_assoc, pieces_append hc (hps p List.mem_cons_self),
        ih fun q hq => hps q (List.mem_cons_of_mem _ hq)]
      rfl

/-- A list is full pieces and a rest that is shorter than a piece. -/
theorem exists_pieces (l : List α) :
    ∃ (ps : List (List α)) (r : List α),
      l = ps.flatten ++ r ∧ (∀ p ∈ ps, p.length = c) ∧ r.length < c := by
  induction h : l.length using Nat.strongRecOn generalizing l with
  | _ n ih =>
      by_cases hlt : l.length < c
      · exact ⟨[], l, rfl, fun p hp => absurd hp List.not_mem_nil, hlt⟩
      · have hdrop : (l.drop c).length < n := by
          rw [List.length_drop]
          omega
        obtain ⟨ps, r, hl, hps, hr⟩ := ih _ hdrop (l.drop c) rfl
        refine ⟨l.take c :: ps, r, ?_, ?_, hr⟩
        · rw [List.flatten_cons, List.append_assoc, ← hl, List.take_append_drop]
        · intro p hp
          rcases List.mem_cons.mp hp with rfl | hp
          · rw [List.length_take, Nat.min_eq_left (by omega)]
          · exact hps p hp

/-- The pieces make up the list. -/
theorem flatten_pieces (l : List α) : (pieces c l).flatten = l := by
  obtain ⟨ps, r, rfl, hps, hr⟩ := exists_pieces hc l
  rw [pieces_flatten_append hc hps, List.flatten_append]
  by_cases hne : r = []
  · rw [hne, pieces_nil hc]
    rfl
  · rw [pieces_short hne (Nat.le_of_lt hr)]
    simp

end Pieces
