import Mathlib.Tactic

/-!
# A list in blocks of one size

Block `i` of a list has the elements from `size * i` to `size * (i + 1)`, as far
as there are any. The first block that is not full is the last one.
-/

namespace EthMange.Blocks

variable {α : Type*}

def block (size : ℕ) (xs : List α) (i : ℕ) : List α := (xs.drop (size * i)).take size

theorem block_length (size : ℕ) (xs : List α) (i : ℕ) :
    (block size xs i).length = min size (xs.length - size * i) := by
  rw [block, List.length_take, List.length_drop]

/-- The first blocks are the front of the list. -/
theorem flatMap_block (size : ℕ) (xs : List α) (n : ℕ) :
    (List.range n).flatMap (block size xs) = xs.take (size * n) := by
  induction n with
  | zero => simp
  | succ n ih =>
    rw [List.range_succ, List.flatMap_append, ih, Nat.mul_succ, List.take_add]
    simp [block]

theorem block_full_iff {size : ℕ} (hsize : 0 < size) (xs : List α) (i : ℕ) :
    (block size xs i).length = size ↔ i < xs.length / size := by
  rw [block_length, Nat.lt_iff_add_one_le, Nat.le_div_iff_mul_le hsize, Nat.add_one_mul,
    Nat.mul_comm i size]
  omega

/-- All blocks up to the first that is not full make up the list. -/
theorem flatMap_block_all {size : ℕ} (hsize : 0 < size) (xs : List α) :
    (List.range (xs.length / size + 1)).flatMap (block size xs) = xs := by
  rw [flatMap_block, List.take_of_length_le]
  have hdiv := Nat.div_add_mod xs.length size
  have hmod := Nat.mod_lt xs.length hsize
  rw [Nat.mul_succ]
  omega

end EthMange.Blocks
