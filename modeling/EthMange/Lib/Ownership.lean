import Mathlib.Tactic

/-!
# Use after release

A resource is followed through a log of actions, some of which release it and
some of which use it. Releasing counts as a use where a second release would be
as wrong as a later access.
-/

namespace EthMange.Ownership

variable {α : Type*} {release use : α → Prop}

/-- No use follows a release. -/
def NoUseAfter (release use : α → Prop) (log : List α) : Prop :=
  log.Pairwise fun a b => release a → ¬ use b

instance [DecidablePred release] [DecidablePred use] (log : List α) :
    Decidable (NoUseAfter release use log) :=
  inferInstanceAs (Decidable (List.Pairwise _ _))

theorem noUseAfter_append {l k : List α} : NoUseAfter release use (l ++ k) ↔
    NoUseAfter release use l ∧ NoUseAfter release use k ∧
      ∀ a ∈ l, ∀ b ∈ k, release a → ¬ use b :=
  List.pairwise_append

theorem NoUseAfter.of_sublist {l k : List α} (h : NoUseAfter release use k)
    (hsub : l.Sublist k) : NoUseAfter release use l :=
  List.Pairwise.sublist hsub h

theorem NoUseAfter.not_use {l k : List α} {a b : α} (h : NoUseAfter release use (l ++ a :: k))
    (ha : release a) (hb : b ∈ k) : ¬ use b :=
  (List.pairwise_cons.mp (noUseAfter_append.mp h).2.1).1 b hb ha

theorem noUseAfter_of_unreleased {l : List α} (h : ∀ a ∈ l, ¬ release a) :
    NoUseAfter release use l := by
  induction l with
  | nil => exact List.Pairwise.nil
  | cons a l ih =>
    rw [List.forall_mem_cons] at h
    exact List.Pairwise.cons (fun _ _ hrel => absurd hrel h.1) (ih h.2)

/-- What came before the first release does not matter. -/
theorem noUseAfter_append_of_unreleased {l k : List α} (h : ∀ a ∈ l, ¬ release a) :
    NoUseAfter release use (l ++ k) ↔ NoUseAfter release use k := by
  rw [noUseAfter_append]
  constructor
  · exact fun hlk => hlk.2.1
  · exact fun hk => ⟨noUseAfter_of_unreleased h, hk, fun a ha _ _ hrel => absurd hrel (h a ha)⟩

/-- Where releasing is a use, a log releases at most once. -/
theorem NoUseAfter.countP_le_one [DecidablePred release] {l : List α}
    (h : NoUseAfter release use l) (huse : ∀ a, release a → use a) : l.countP release ≤ 1 := by
  induction l with
  | nil => exact Nat.zero_le 1
  | cons a l ih =>
    obtain ⟨ha, hl⟩ := List.pairwise_cons.mp h
    by_cases hrel : release a
    · have hzero : l.countP release = 0 := by
        rw [List.countP_eq_zero]
        intro b hb
        simpa using fun hb' => ha b hb hrel (huse b hb')
      rw [List.countP_cons, hzero]
      split <;> simp
    · rw [List.countP_cons_of_neg (by simpa using hrel)]
      exact ih hl

end EthMange.Ownership
