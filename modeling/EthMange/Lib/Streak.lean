import Mathlib.Tactic

/-!
# Runs of a signal

A signal is true or false at every tick. A maximal run of it is named by the tick at
which it starts, and a tick of the run by its distance from there.
-/

namespace EthMange.Streak

variable {f : ℕ → Bool} {a b i t : ℕ}

/-- `a + i` is a tick of the maximal run that starts at `a`. -/
structure At (f : ℕ → Bool) (a i : ℕ) : Prop where
  start : ∀ b, b + 1 = a → f b = false
  holds : ∀ j ≤ i, f (a + j) = true

theorem At.mono (h : At f a i) {j : ℕ} (hj : j ≤ i) : At f a j :=
  ⟨h.start, fun k hk => h.holds k (hk.trans hj)⟩

/-- A signal that is true in one interval only has one run. -/
theorem At.of_interval {lo hi : ℕ} (hf : ∀ t, f t = true ↔ lo ≤ t ∧ t < hi) (h : At f a i) :
    a = lo ∧ a + i < hi := by
  have hfirst := (hf (a + 0)).mp (h.holds 0 (Nat.zero_le i))
  have hlast := (hf (a + i)).mp (h.holds i le_rfl)
  refine ⟨?_, hlast.2⟩
  by_contra hne
  have hbefore := h.start (a - 1) (by omega)
  rw [(hf (a - 1)).mpr (by omega)] at hbefore
  cases hbefore

/-- Every tick at which the signal is true belongs to a maximal run. -/
theorem exists_at (h : f t = true) : ∃ a i, a + i = t ∧ At f a i := by
  induction t with
  | zero => exact ⟨0, 0, rfl, fun b hb => by omega, fun j hj => by
      obtain rfl : j = 0 := by omega
      exact h⟩
  | succ t ih =>
    cases hprev : f t with
    | false =>
      refine ⟨t + 1, 0, rfl, fun b hb => ?_, fun j hj => ?_⟩
      · obtain rfl : b = t := by omega
        exact hprev
      · obtain rfl : j = 0 := by omega
        exact h
    | true =>
      obtain ⟨a, i, rfl, hat⟩ := ih hprev
      refine ⟨a, i + 1, rfl, hat.start, fun j hj => ?_⟩
      obtain rfl | hlt := hj.eq_or_lt
      · exact h
      · exact hat.holds j (by omega)

/-- The last tick before `t` at which the signal is false. -/
structure LastFalse (f : ℕ → Bool) (t b : ℕ) : Prop where
  before : b < t
  low : f b = false
  since : ∀ c, b < c → c < t → f c = true

theorem lastFalse_succ (h : f t = false) : LastFalse f (t + 1) t :=
  ⟨Nat.lt_succ_self t, h, fun c hc hc' => by omega⟩

theorem LastFalse.succ (h : LastFalse f t b) (ht : f t = true) : LastFalse f (t + 1) b := by
  refine ⟨h.before.trans (Nat.lt_succ_self t), h.low, fun c hc hc' => ?_⟩
  obtain rfl | hlt := (Nat.le_of_lt_succ hc').eq_or_lt
  · exact ht
  · exact h.since c hc hlt

theorem LastFalse.pred (h : LastFalse f (t + 1) b) (ht : f t = true) : LastFalse f t b := by
  have hne : b ≠ t := by
    rintro rfl
    rw [h.low] at ht
    exact Bool.noConfusion ht
  have hbefore := h.before
  exact ⟨by omega, h.low, fun c hc hc' => h.since c hc (by omega)⟩

theorem LastFalse.eq_of_succ (h : LastFalse f (t + 1) b) (ht : f t = false) : b = t := by
  by_contra hne
  have hbefore := h.before
  rw [h.since t (by omega) (Nat.lt_succ_self t)] at ht
  exact Bool.noConfusion ht

theorem not_lastFalse_zero : ¬ LastFalse f 0 b := fun h => Nat.not_lt_zero b h.before

section Frozen

variable {β : Type*} {q : ℕ → β}

/-- What changes only where the signal is false is as the last such tick left it. -/
theorem LastFalse.frozen (hq : ∀ t, f t = true → q (t + 1) = q t) (h : LastFalse f t b) :
    q t = q (b + 1) := by
  induction t with
  | zero => exact absurd h not_lastFalse_zero
  | succ t ih =>
    cases ht : f t with
    | true => rw [hq t ht, ih (h.pred ht)]
    | false => rw [h.eq_of_succ ht]

theorem frozen_of_none (hq : ∀ t, f t = true → q (t + 1) = q t)
    (h : ∀ b, ¬ LastFalse f t b) : q t = q 0 := by
  induction t with
  | zero => rfl
  | succ t ih =>
    cases ht : f t with
    | true => rw [hq t ht, ih fun b hb => h b (hb.succ ht)]
    | false => exact absurd (lastFalse_succ ht) (h t)

end Frozen

end EthMange.Streak
