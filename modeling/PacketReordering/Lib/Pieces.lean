import Mathlib.Data.List.Basic
import Mathlib.Tactic.Common

/-!
# A list cut into pieces

* `pieces n xs` — the pieces of `n` elements of `xs`, the last one of what is left;
* `pieces_cons`, `pieces_nil` — one piece after the other, as a loop cuts them;
* `flatten_pieces`, `length_pieces`, `length_getElem_pieces` — nothing is lost, and how many there are of what length;
* `pieces_flatten` — only one list of pieces comes from cutting.
-/

namespace PacketReordering.Lib

variable {α : Type*} {n : ℕ} {xs : List α}

/-- The list cut after every `n` elements. -/
def pieces (n : ℕ) (xs : List α) : List (List α) :=
  (List.range ((xs.length + n - 1) / n)).map fun i => (xs.drop (i * n)).take n

theorem length_pieces : (pieces n xs).length = (xs.length + n - 1) / n := by
  rw [pieces, List.length_map, List.length_range]

theorem getElem_pieces {i : ℕ} (hi : i < (pieces n xs).length) : (pieces n xs)[i] = (xs.drop (i * n)).take n := by
  simp only [pieces, List.getElem_map, List.getElem_range]

theorem pieces_nil (hn : 0 < n) : pieces n ([] : List α) = [] := by
  have hzero : (0 + n - 1) / n = 0 := Nat.div_eq_of_lt (by omega)
  rw [pieces, List.length_nil, hzero]
  rfl

theorem pieces_cons (hn : 0 < n) (hxs : xs ≠ []) : pieces n xs = xs.take n :: pieces n (xs.drop n) := by
  have hpos : 0 < xs.length := List.length_pos_iff.2 hxs
  have hcount : (xs.length + n - 1) / n = ((xs.drop n).length + n - 1) / n + 1 := by
    rw [List.length_drop]
    by_cases h : n ≤ xs.length
    · rw [show xs.length + n - 1 = xs.length - n + n - 1 + n by omega, Nat.add_div_right _ hn]
    · rw [show xs.length - n + n - 1 = n - 1 by omega, Nat.div_eq_of_lt (by omega : n - 1 < n),
        show xs.length + n - 1 = xs.length - 1 + n by omega, Nat.add_div_right _ hn, Nat.div_eq_of_lt (by omega)]
  rw [pieces, hcount, List.range_succ_eq_map, List.map_cons, List.map_map, Nat.zero_mul, List.drop_zero, pieces]
  congr 1
  refine List.map_congr_left fun i _ => ?_
  rw [Function.comp_apply, List.drop_drop, Nat.succ_mul, Nat.add_comm]

/-- **Nothing is lost.** -/
theorem flatten_pieces (hn : 0 < n) (xs : List α) : (pieces n xs).flatten = xs := by
  by_cases hxs : xs = []
  · rw [hxs, pieces_nil hn, List.flatten_nil]
  · have hshorter : (xs.drop n).length < xs.length := by
      have hpos : 0 < xs.length := List.length_pos_iff.2 hxs
      rw [List.length_drop]
      omega
    rw [pieces_cons hn hxs, List.flatten_cons, flatten_pieces hn (xs.drop n), List.take_append_drop]
termination_by xs.length

/-- **Only these are the pieces.** -/
theorem pieces_flatten (hn : 0 < n) {yss : List (List α)} {ys : List α} (hyss : ∀ zs ∈ yss, zs.length = n)
    (hpos : ys ≠ []) (hys : ys.length ≤ n) : pieces n (yss ++ [ys]).flatten = yss ++ [ys] := by
  induction yss with
  | nil =>
    rw [List.nil_append, List.flatten_singleton, pieces_cons hn hpos, List.take_of_length_le hys,
      List.drop_of_length_le hys, pieces_nil hn]
  | cons zs yss ih =>
    have hzs : zs.length = n := hyss zs (by simp)
    have hne : (zs :: yss ++ [ys]).flatten ≠ [] := by
      intro hnil
      have hlength := congrArg List.length hnil
      simp only [List.cons_append, List.flatten_cons, List.length_append, List.length_nil] at hlength
      omega
    rw [pieces_cons hn hne, List.cons_append, List.flatten_cons, List.take_left' hzs, List.drop_left' hzs,
      ih fun zs h => hyss zs (List.mem_cons_of_mem _ h)]

end PacketReordering.Lib
