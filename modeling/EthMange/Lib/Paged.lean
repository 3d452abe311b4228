import Mathlib.Tactic

/-!
# Memories with pages

A memory whose cells are written one after the other, where the address counter
wraps at the end of a page. A write that fits in its page is a store of
consecutive cells; one that does not goes on at the start of the page.
-/

namespace EthMange.Paged

variable {β : Type*} {P : ℕ}

/-- What `p` points at from index `k` on. -/
def advance (p : ℕ → β) (k : ℕ) : ℕ → β := fun i => p (i + k)

/-- The `n` cells from `a` on get the values of `p`. -/
def store (M : ℕ → β) (a : ℕ) (p : ℕ → β) (n : ℕ) : ℕ → β :=
  fun x => if a ≤ x ∧ x < a + n then p (x - a) else M x

/-- The address after `a` in the page of `a`. -/
def next (P a : ℕ) : ℕ := a / P * P + (a + 1) % P

def pageStore (P : ℕ) : (n a : ℕ) → (p : ℕ → β) → (ℕ → β) → ℕ → β
  | 0, _, _, M => M
  | n + 1, a, p, M => pageStore P n (next P a) (advance p 1) (Function.update M a (p 0))

@[simp] theorem advance_zero (p : ℕ → β) : advance p 0 = p := rfl

@[simp] theorem advance_advance (p : ℕ → β) (k m : ℕ) :
    advance (advance p k) m = advance p (k + m) := by
  funext i
  simp [advance, Nat.add_comm k m, Nat.add_assoc]

@[simp] theorem store_zero (M : ℕ → β) (a : ℕ) (p : ℕ → β) : store M a p 0 = M := by
  funext x
  simp only [store, Nat.add_zero]
  exact if_neg (by omega)

theorem store_one (M : ℕ → β) (a : ℕ) (p : ℕ → β) :
    store M a p 1 = Function.update M a (p 0) := by
  funext x
  by_cases hx : x = a
  · subst hx
    simp [store]
  · rw [Function.update_of_ne hx, store, if_neg (by omega)]

theorem store_at (M : ℕ → β) (a : ℕ) (p : ℕ → β) {i n : ℕ} (h : i < n) :
    store M a p n (a + i) = p i := by
  rw [store, if_pos (by omega), Nat.add_sub_cancel_left]

theorem store_outside (M : ℕ → β) (p : ℕ → β) {a n x : ℕ} (h : x < a ∨ a + n ≤ x) :
    store M a p n x = M x := by
  rw [store, if_neg (by omega)]

/-- Two stores one behind the other are one. -/
theorem store_store (M : ℕ → β) (a : ℕ) (p : ℕ → β) (k m : ℕ) :
    store (store M a p k) (a + k) (advance p k) m = store M a p (k + m) := by
  funext x
  by_cases hx : a + k ≤ x
  · by_cases hend : x < a + k + m
    · obtain ⟨i, rfl⟩ := Nat.exists_eq_add_of_le hx
      rw [store_at _ _ _ (by omega), Nat.add_assoc a, store_at _ _ _ (by omega), advance,
        Nat.add_comm]
    · rw [store_outside _ _ (by omega), store_outside _ _ (by omega), store_outside _ _ (by omega)]
  · rw [store_outside _ _ (by omega)]
    by_cases ha : a ≤ x
    · obtain ⟨i, rfl⟩ := Nat.exists_eq_add_of_le ha
      rw [store_at _ _ _ (by omega), store_at _ _ _ (by omega)]
    · rw [store_outside _ _ (by omega), store_outside _ _ (by omega)]

theorem succ_mod {a : ℕ} (h : a % P + 1 < P) : (a + 1) % P = a % P + 1 := by
  rw [Nat.add_mod, Nat.mod_eq_of_lt (show 1 < P by omega), Nat.mod_eq_of_lt h]

theorem next_of_lt {a : ℕ} (h : a % P + 1 < P) : next P a = a + 1 := by
  rw [next, succ_mod h, ← Nat.add_assoc, Nat.div_add_mod']

theorem next_of_eq {a : ℕ} (h : a % P + 1 = P) : next P a = a / P * P := by
  have hsucc : (a + 1) % P = 0 := by
    have hpage : a + 1 = a / P * P + P := by
      rw [← h, ← Nat.add_assoc, h, Nat.div_add_mod']
    rw [hpage, Nat.add_mod_right, Nat.mul_mod_left]
  rw [next, hsucc, Nat.add_zero]

/-- A write that ends in its page. -/
theorem pageStore_of_le (M : ℕ → β) (p : ℕ → β) {n a : ℕ} (h : a % P + n ≤ P) :
    pageStore P n a p M = store M a p n := by
  induction n generalizing a p M with
  | zero => rw [store_zero]; rfl
  | succ n ih =>
    rw [pageStore, ← store_one]
    cases n with
    | zero => rfl
    | succ n =>
      have hnext : next P a = a + 1 := next_of_lt (by omega)
      have hmod : (a + 1) % P = a % P + 1 := succ_mod (by omega)
      rw [hnext, ih _ _ (by omega), store_store, Nat.add_comm 1]

/-- A write that fills its page to the end goes on at the start of it. -/
theorem pageStore_of_cross (M : ℕ → β) (p : ℕ → β) {k m a : ℕ} (h : a % P + k = P) (hk : 0 < k)
    (hm : m ≤ P) :
    pageStore P (k + m) a p M = store (store M a p k) (a / P * P) (advance p k) m := by
  induction k generalizing a p M with
  | zero => omega
  | succ k ih =>
    rw [Nat.add_right_comm, pageStore, ← store_one]
    obtain rfl | hpos := Nat.eq_zero_or_pos k
    · have hstart : a / P * P % P = 0 := Nat.mul_mod_left _ _
      rw [next_of_eq h, Nat.zero_add, pageStore_of_le _ _ (by omega)]
    · have hmod : (a + 1) % P = a % P + 1 := succ_mod (by omega)
      have hdiv : (a + 1) / P = a / P := by
        rw [Nat.succ_div, if_neg, Nat.add_zero]
        rw [Nat.dvd_iff_mod_eq_zero, hmod]
        omega
      rw [next_of_lt (by omega), ih _ _ (by omega) hpos, hdiv, store_store, advance_advance,
        Nat.add_comm 1 k]

/-- A write over the end of its page is a plain store exactly if the values that
go astray were there before, where they belong and where they land. -/
theorem pageStore_eq_store_iff (M : ℕ → β) (p : ℕ → β) {k m a : ℕ} (h : a % P + k = P)
    (hk : 0 < k) (hm : m ≤ a % P) :
    pageStore P (k + m) a p M = store M a p (k + m) ↔
      ∀ j < m, M (a + (k + j)) = p (k + j) ∧ M (a / P * P + j) = p (k + j) := by
  have hpage := Nat.div_add_mod' a P
  rw [pageStore_of_cross M p h hk (by omega)]
  constructor
  · intro heq j hj
    have hbehind := congrFun heq (a + (k + j))
    have hstart := congrFun heq (a / P * P + j)
    rw [store_outside _ _ (by omega), store_outside _ _ (by omega), store_at _ _ _ (by omega)]
      at hbehind
    rw [store_at _ _ _ hj, store_outside _ _ (by omega), advance, Nat.add_comm j k] at hstart
    exact ⟨hbehind, hstart.symm⟩
  · intro hall
    rw [← store_store]
    funext x
    by_cases hstart : a / P * P ≤ x ∧ x < a / P * P + m
    · obtain ⟨j, rfl⟩ := Nat.exists_eq_add_of_le hstart.1
      have hj : j < m := by omega
      rw [store_at _ _ _ hj, store_outside _ _ (by omega), store_outside _ _ (by omega),
        (hall j hj).2, advance, Nat.add_comm]
    · rw [store_outside (store M a p k) _ (by omega)]
      by_cases hbehind : a + k ≤ x ∧ x < a + k + m
      · obtain ⟨j, rfl⟩ := Nat.exists_eq_add_of_le hbehind.1
        have hj : j < m := by omega
        rw [store_at _ _ _ hj, store_outside _ _ (by omega), Nat.add_assoc, (hall j hj).1, advance,
          Nat.add_comm]
      · rw [store_outside (store M a p k) _ (by omega)]

end EthMange.Paged
