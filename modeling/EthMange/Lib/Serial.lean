import Mathlib.Data.BitVec
import Mathlib.Tactic

/-!
# Serial numbers

Counters of `w` bits that number the places of a stream. Two of them are compared by the
sign of their difference, which tells the order of the places as long as these are less than
half the range of the counter apart.
-/

namespace EthMange.Serial

variable {w : ℕ}

/-- The number of the place `n`, when the first place has the number `o`. -/
def pos (o : BitVec w) (n : ℕ) : BitVec w := o + BitVec.ofNat w n

def lt (a b : BitVec w) : Prop := (a - b).toInt < 0

def le (a b : BitVec w) : Prop := (a - b).toInt ≤ 0

instance (a b : BitVec w) : Decidable (lt a b) :=
  inferInstanceAs (Decidable ((a - b).toInt < 0))

instance (a b : BitVec w) : Decidable (le a b) :=
  inferInstanceAs (Decidable ((a - b).toInt ≤ 0))

/-- `a` lies from `b` to `c`. -/
def Between (a b c : BitVec w) : Prop := ¬ lt a b ∧ le a c

instance (a b c : BitVec w) : Decidable (Between a b c) :=
  inferInstanceAs (Decidable (¬ lt a b ∧ le a c))

variable {o : BitVec w} {m n : ℕ}

@[simp] theorem pos_zero (o : BitVec w) : pos o 0 = o := by simp [pos]

theorem pos_add (o : BitVec w) (n k : ℕ) : pos o n + BitVec.ofNat w k = pos o (n + k) := by
  rw [pos, pos, BitVec.ofNat_add, BitVec.add_assoc]

theorem pos_succ (o : BitVec w) (n : ℕ) : pos o n + 1 = pos o (n + 1) := pos_add o n 1

theorem pos_sub_one (o : BitVec w) (n : ℕ) : pos o (n + 1) - 1 = pos o n := by
  rw [← pos_succ, BitVec.add_sub_cancel]

theorem pos_sub_pos (o : BitVec w) (m n : ℕ) :
    pos o m - pos o n = BitVec.ofInt w ((m : ℤ) - n) := by
  rw [pos, pos, add_sub_add_left_eq_sub, sub_eq_add_neg (m : ℤ), BitVec.ofInt_add,
    BitVec.ofInt_neg, BitVec.ofInt_natCast, BitVec.ofInt_natCast, sub_eq_add_neg]

theorem toNat_pos_sub (o : BitVec w) (hle : n ≤ m) (hlt : m < n + 2 ^ w) :
    (pos o m - pos o n).toNat = m - n := by
  have hcast : (m : ℤ) - n = ((m - n : ℕ) : ℤ) := by omega
  rw [pos_sub_pos, hcast, BitVec.ofInt_natCast, BitVec.toNat_ofNat, Nat.mod_eq_of_lt (by omega)]

theorem toInt_pos_sub (o : BitVec (w + 1)) (hm : m < n + 2 ^ w) (hn : n ≤ m + 2 ^ w) :
    (pos o m - pos o n).toInt = (m : ℤ) - n := by
  have hm' : (m : ℤ) < n + 2 ^ w := mod_cast hm
  have hn' : (n : ℤ) ≤ m + 2 ^ w := mod_cast hn
  rw [pos_sub_pos, BitVec.toInt_ofInt]
  apply Int.bmod_eq_of_le
  · rw [pow_succ]
    push_cast
    omega
  · rw [pow_succ]
    push_cast
    omega

theorem lt_pos_iff (o : BitVec (w + 1)) (hm : m < n + 2 ^ w) (hn : n ≤ m + 2 ^ w) :
    lt (pos o m) (pos o n) ↔ m < n := by
  rw [lt, toInt_pos_sub o hm hn]
  omega

theorem le_pos_iff (o : BitVec (w + 1)) (hm : m < n + 2 ^ w) (hn : n ≤ m + 2 ^ w) :
    le (pos o m) (pos o n) ↔ m ≤ n := by
  rw [le, toInt_pos_sub o hm hn]
  omega

theorem between_pos_iff (o : BitVec (w + 1)) {k : ℕ} (hm : m < n + 2 ^ w) (hn : n ≤ m + 2 ^ w)
    (hk : k ≤ m + 2 ^ w) (hmk : m < k + 2 ^ w) :
    Between (pos o m) (pos o n) (pos o k) ↔ n ≤ m ∧ m ≤ k := by
  rw [Between, lt_pos_iff o hm hn, le_pos_iff o hmk hk, not_lt]

theorem pos_inj (o : BitVec w) (hm : m < n + 2 ^ w) (hn : n < m + 2 ^ w) :
    pos o m = pos o n ↔ m = n := by
  refine ⟨fun h => ?_, fun h => h ▸ rfl⟩
  rcases le_total n m with hle | hle
  · have hsub := toNat_pos_sub o hle hm
    rw [h, BitVec.sub_self, BitVec.toNat_zero] at hsub
    omega
  · have hsub := toNat_pos_sub o hle hn
    rw [h, BitVec.sub_self, BitVec.toNat_zero] at hsub
    omega

end EthMange.Serial
