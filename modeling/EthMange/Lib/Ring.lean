import Mathlib.Tactic

/-!
# A ring of slots between a producer and a consumer

The producer fills the slot at its own position and moves on; the consumer
empties the slot at its position and moves on. A flag in each slot says which
of the two owns it. `Ring.Holds` is the abstraction: the full slots, read from
the consumer's position to the producer's, are a first-in first-out queue.
-/

namespace EthMange.Ring

variable {n : ℕ} {α : Type*}

/-- The slot `k` places after `i` around the ring. -/
def ahead (i : Fin n) (k : ℕ) : Fin n := ⟨(i.val + k) % n, Nat.mod_lt _ i.pos⟩

/-- The next slot around the ring. -/
def next (i : Fin n) : Fin n := ahead i 1

@[simp] theorem ahead_zero (i : Fin n) : ahead i 0 = i := by
  apply Fin.ext
  simp [ahead, Nat.mod_eq_of_lt i.isLt]

theorem ahead_ahead (i : Fin n) (j k : ℕ) : ahead (ahead i j) k = ahead i (j + k) := by
  apply Fin.ext
  simp [ahead, Nat.add_assoc]

theorem next_ahead (i : Fin n) (k : ℕ) : next (ahead i k) = ahead i (k + 1) :=
  ahead_ahead i k 1

theorem ahead_next (i : Fin n) (k : ℕ) : ahead (next i) k = ahead i (k + 1) := by
  rw [next, ahead_ahead, Nat.add_comm]

@[simp] theorem ahead_period (i : Fin n) : ahead i n = i := by
  apply Fin.ext
  simp [ahead, Nat.mod_eq_of_lt i.isLt]

theorem ahead_inj {i : Fin n} {j k : ℕ} (hj : j < n) (hk : k < n)
    (h : ahead i j = ahead i k) : j = k := by
  have hmod : (i.val + j) % n = (i.val + k) % n := congrArg Fin.val h
  have hjk : j % n = k % n := Nat.ModEq.add_left_cancel' i.val hmod
  rwa [Nat.mod_eq_of_lt hj, Nat.mod_eq_of_lt hk] at hjk

/-- The full slots from `get` on are exactly the queue `q`, and `put` is the
slot after its last element. -/
structure Holds (full : Fin n → Prop) (val : Fin n → α) (get put : Fin n)
    (q : List α) : Prop where
  length_le : q.length ≤ n
  put_eq : put = ahead get q.length
  full_iff : ∀ k < n, full (ahead get k) ↔ k < q.length
  val_eq : ∀ (k : ℕ) (h : k < q.length), val (ahead get k) = q[k]

section
variable {full : Fin n → Prop} {val : Fin n → α} {get put : Fin n} {q : List α}

theorem Holds.empty (hfull : ∀ i, ¬ full i) (get : Fin n) : Holds full val get get [] where
  length_le := Nat.zero_le _
  put_eq := (ahead_zero get).symm
  full_iff k _ := by simp [hfull]
  val_eq k h := absurd h (Nat.not_lt_zero k)

/-- Only full slots count: the queue is unchanged when flags and the contents
of full slots are. -/
theorem Holds.congr (h : Holds full val get put q) {full' : Fin n → Prop} {val' : Fin n → α}
    (hfull : ∀ i, full' i ↔ full i) (hval : ∀ i, full i → val' i = val i) :
    Holds full' val' get put q where
  length_le := h.length_le
  put_eq := h.put_eq
  full_iff k hk := (hfull _).trans (h.full_iff k hk)
  val_eq k hk := by
    have hlt : k < n := Nat.lt_of_lt_of_le hk h.length_le
    rw [hval _ ((h.full_iff k hlt).mpr hk), h.val_eq k hk]

/-- The consumer finds a full slot exactly when the queue is not empty. -/
theorem Holds.full_get_iff (h : Holds full val get put q) : full get ↔ 0 < q.length := by
  simpa using h.full_iff 0 get.pos

/-- The producer finds a full slot exactly when the queue takes up the ring. -/
theorem Holds.full_put_iff (h : Holds full val get put q) : full put ↔ q.length = n := by
  obtain hlt | hge := Nat.lt_or_ge q.length n
  · rw [h.put_eq, h.full_iff _ hlt]
    omega
  · have hlen : q.length = n := Nat.le_antisymm h.length_le hge
    have hpos := get.pos
    rw [h.put_eq, hlen, ahead_period, h.full_get_iff]
    omega

/-- Filling the slot at the producer's position appends to the queue. -/
theorem Holds.push (h : Holds full val get put q) (full' : Fin n → Prop) (val' : Fin n → α)
    (hput : ¬ full put) (hfull : full' put)
    (hframe : ∀ i, i ≠ put → (full' i ↔ full i))
    (hval : ∀ i, i ≠ put → full i → val' i = val i) :
    Holds full' val' get (next put) (q ++ [val' put]) := by
  have hlt : q.length < n := by
    have hne := mt h.full_put_iff.mpr hput
    have hle := h.length_le
    omega
  have hne : ∀ k < n, k ≠ q.length → ahead get k ≠ put := by
    intro k hk hkq heq
    rw [h.put_eq] at heq
    exact hkq (ahead_inj hk hlt heq)
  refine ⟨by simpa using hlt, ?_, ?_, ?_⟩
  · rw [List.length_append, List.length_singleton, ← next_ahead, ← h.put_eq]
  · intro k hk
    rw [List.length_append, List.length_singleton]
    by_cases hkq : k = q.length
    · rw [hkq, ← h.put_eq]
      simp [hfull]
    · rw [hframe _ (hne k hk hkq), h.full_iff k hk]
      omega
  · intro k hk
    rw [List.length_append, List.length_singleton] at hk
    by_cases hkq : k = q.length
    · subst hkq
      simp [← h.put_eq]
    · have hkl : k < q.length := by omega
      have hkn : k < n := by omega
      rw [hval _ (hne k hkn hkq) ((h.full_iff k hkn).mpr hkl), h.val_eq k hkl,
        List.getElem_append_left hkl]

/-- Emptying the slot at the consumer's position takes the head off the queue. -/
theorem Holds.pop (h : Holds full val get put q) (full' : Fin n → Prop) (val' : Fin n → α)
    (hget : full get) (hempty : ¬ full' get)
    (hframe : ∀ i, i ≠ get → (full' i ↔ full i))
    (hval : ∀ i, i ≠ get → full i → val' i = val i) :
    ∃ q', q = val get :: q' ∧ Holds full' val' (next get) put q' := by
  cases q with
  | nil => exact absurd (h.full_get_iff.mp hget) (Nat.lt_irrefl 0)
  | cons a q' =>
    have hlen : q'.length + 1 ≤ n := h.length_le
    have hhead : val get = a := by simpa using h.val_eq 0 (Nat.succ_pos _)
    have hne : ∀ k, k + 1 < n → ahead get (k + 1) ≠ get := by
      intro k hk heq
      have := ahead_inj hk get.pos (heq.trans (ahead_zero get).symm)
      omega
    refine ⟨q', by rw [hhead], by omega, ?_, ?_, ?_⟩
    · rw [ahead_next]
      exact h.put_eq
    · intro k hk
      rw [ahead_next]
      by_cases hlast : k + 1 < n
      · rw [hframe _ (hne k hlast), h.full_iff _ hlast, List.length_cons]
        omega
      · have hkn : k + 1 = n := by omega
        rw [hkn, ahead_period]
        exact iff_of_false hempty (by omega)
    · intro k hk
      have hkn : k + 1 < n := by omega
      have hfull := (h.full_iff (k + 1) hkn).mpr (by simpa using hk)
      rw [ahead_next, hval _ (hne k hkn) hfull, h.val_eq (k + 1) (by simpa using hk),
        List.getElem_cons_succ]

end

end EthMange.Ring
