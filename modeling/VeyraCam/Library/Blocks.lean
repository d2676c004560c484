import Mathlib.Algebra.Order.Ring.Nat
import Mathlib.Data.List.Range

/-! # Cutting a list into blocks

A list cut into consecutive blocks of a given size, the last one possibly
shorter. The blocks concatenate to the list.
-/

namespace VeyraCam.Blocks

variable {α : Type*} {m n i : ℕ}

/-- The number of blocks of size `m` that hold `n` elements. -/
def count (m n : ℕ) : ℕ := (n + m - 1) / m

def block (m : ℕ) (l : List α) (i : ℕ) : List α := (l.drop (i * m)).take m

theorem lt_count_iff (hm : 0 < m) : i < count m n ↔ i * m < n := by
  rw [count, Nat.lt_iff_add_one_le, Nat.le_div_iff_mul_le hm, Nat.add_mul, one_mul]
  omega

theorem count_pos (hm : 0 < m) (hn : 0 < n) : 0 < count m n :=
  (lt_count_iff hm).mpr (by simpa using hn)

theorem length_block (m : ℕ) (l : List α) (i : ℕ) :
    (block m l i).length = min m (l.length - i * m) := by
  rw [block, List.length_take, List.length_drop]

theorem length_block_le (m : ℕ) (l : List α) (i : ℕ) : (block m l i).length ≤ m :=
  (length_block m l i).trans_le (min_le_left _ _)

theorem flatMap_block (m : ℕ) (l : List α) (n : ℕ) :
    (List.range n).flatMap (block m l) = l.take (n * m) := by
  induction n with
  | zero => simp
  | succ n ih =>
    rw [List.range_succ, List.flatMap_append, ih, List.flatMap_singleton, Nat.add_mul, one_mul,
      List.take_add, block]

theorem flatMap_block_count (hm : 0 < m) (l : List α) :
    (List.range (count m l.length)).flatMap (block m l) = l := by
  rw [flatMap_block, List.take_of_length_le]
  have h : ¬ count m l.length < count m l.length := lt_irrefl _
  rw [lt_count_iff hm] at h
  omega

end VeyraCam.Blocks
