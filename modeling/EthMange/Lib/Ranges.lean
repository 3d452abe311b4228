import Mathlib.Tactic

/-!
# Consecutive ranges

A range is a start and a length. A list of ranges is consecutive from an address
on if the first starts there and each of the others where the one before it ends.
-/

namespace EthMange.Ranges

def Consecutive : ℕ → List (ℕ × ℕ) → Prop
  | _, [] => True
  | start, r :: rs => r.1 = start ∧ Consecutive (start + r.2) rs

def total (rs : List (ℕ × ℕ)) : ℕ := (rs.map Prod.snd).sum

@[simp] theorem total_nil : total [] = 0 := rfl

@[simp] theorem total_cons (r : ℕ × ℕ) (rs : List (ℕ × ℕ)) :
    total (r :: rs) = r.2 + total rs := by
  simp [total]

@[simp] theorem total_append (rs qs : List (ℕ × ℕ)) :
    total (rs ++ qs) = total rs + total qs := by
  simp [total]

/-- A range that starts at the end of the others extends them. -/
theorem Consecutive.concat {start : ℕ} {rs : List (ℕ × ℕ)} (h : Consecutive start rs) (n : ℕ) :
    Consecutive start (rs ++ [(start + total rs, n)]) := by
  induction rs generalizing start with
  | nil => exact ⟨by simp, trivial⟩
  | cons r rs ih =>
    have htail := ih h.2
    rw [Nat.add_assoc, ← total_cons] at htail
    exact ⟨h.1, htail⟩

theorem Consecutive.start_le {start : ℕ} {rs : List (ℕ × ℕ)} (h : Consecutive start rs) :
    ∀ r ∈ rs, start ≤ r.1 := by
  induction rs generalizing start with
  | nil => simp
  | cons r rs ih =>
    rw [List.forall_mem_cons]
    exact ⟨h.1.ge, fun q hq => le_trans (Nat.le_add_right _ _) (ih h.2 q hq)⟩

/-- Consecutive ranges do not overlap. -/
theorem Consecutive.disjoint {start : ℕ} {rs : List (ℕ × ℕ)} (h : Consecutive start rs) :
    rs.Pairwise fun r q => r.1 + r.2 ≤ q.1 := by
  induction rs generalizing start with
  | nil => exact List.Pairwise.nil
  | cons r rs ih =>
    obtain ⟨hr, hrest⟩ := h
    refine List.Pairwise.cons ?_ (ih hrest)
    rw [hr]
    exact hrest.start_le

end EthMange.Ranges
