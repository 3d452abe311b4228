import Mathlib.Tactic

/-!
# Writes to cells

A memory is a function from cells to values, and a list of writes changes it one
after the other.
-/

namespace EthMange.Paint

variable {κ α : Type*} [DecidableEq κ]

/-- The memory after the writes. -/
def paint (m : κ → α) (ws : List (κ × α)) : κ → α :=
  ws.foldl (fun m w => Function.update m w.1 w.2) m

@[simp] theorem paint_nil (m : κ → α) : paint m [] = m := rfl

@[simp] theorem paint_cons (m : κ → α) (w : κ × α) (ws : List (κ × α)) :
    paint m (w :: ws) = paint (Function.update m w.1 w.2) ws := rfl

theorem paint_append (m : κ → α) (ws ws' : List (κ × α)) :
    paint m (ws ++ ws') = paint (paint m ws) ws' := List.foldl_append

/-- A cell that no write is for keeps its value. -/
theorem paint_of_forall_ne {m : κ → α} {ws : List (κ × α)} {k : κ} (h : ∀ w ∈ ws, w.1 ≠ k) :
    paint m ws k = m k := by
  induction ws generalizing m with
  | nil => rfl
  | cons w ws ih =>
    rw [List.forall_mem_cons] at h
    rw [paint_cons, ih h.2, Function.update_of_ne h.1.symm]

/-- What a cell holds afterwards depends on that cell only. -/
theorem paint_congr {m m' : κ → α} {k : κ} (h : m k = m' k) (ws : List (κ × α)) :
    paint m ws k = paint m' ws k := by
  induction ws generalizing m m' with
  | nil => exact h
  | cons w ws ih =>
    rw [paint_cons, paint_cons]
    apply ih
    by_cases hk : k = w.1
    · rw [hk, Function.update_self, Function.update_self]
    · rw [Function.update_of_ne hk, Function.update_of_ne hk, h]

/-- Writes of one value leave it in every cell that they are for. -/
theorem paint_of_forall_eq {m : κ → α} {ws : List (κ × α)} {k : κ} {v : α}
    (hv : ∀ w ∈ ws, w.2 = v) (hk : ∃ w ∈ ws, w.1 = k) : paint m ws k = v := by
  induction ws generalizing m with
  | nil => simp at hk
  | cons w ws ih =>
    rw [List.forall_mem_cons] at hv
    rw [paint_cons]
    by_cases hlater : ∃ w' ∈ ws, w'.1 = k
    · exact ih hv.2 hlater
    · obtain ⟨w', hw', rfl⟩ := hk
      have hhead : w' = w := by
        obtain rfl | hmem := List.mem_cons.mp hw'
        · rfl
        · exact absurd ⟨w', hmem, rfl⟩ hlater
      subst hhead
      rw [paint_of_forall_ne fun w'' hw'' heq => hlater ⟨w'', hw'', heq⟩, Function.update_self,
        hv.1]

end EthMange.Paint
