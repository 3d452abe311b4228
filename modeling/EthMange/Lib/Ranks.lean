import Mathlib.Tactic
import Mathlib.Data.List.Sort

/-!
# Ranks of a list

The elements of a list by their rank, and the least and greatest sum that so many of
them can have. A block of consecutive ranks lies between what is left after fewer
elements are taken off at either end.
-/

namespace EthMange.Ranks

open List

section Sums

variable {α : Type*} [AddCommMonoid α] [LinearOrder α] [IsOrderedAddMonoid α]

/-- No elements of a sorted list sum to less than as many of its first. -/
theorem sum_take_le {s u : List α} (hs : s.Pairwise (· ≤ ·)) (hu : u <+~ s) :
    (s.take u.length).sum ≤ u.sum := by
  induction s generalizing u with
  | nil =>
    have hnil : u = [] := List.subperm_nil.mp hu
    subst hnil
    exact le_rfl
  | cons a s ih =>
    obtain ⟨hle, hsorted⟩ := List.pairwise_cons.mp hs
    cases u with
    | nil => exact le_rfl
    | cons c u =>
      -- `a` itself if it is there, otherwise any element
      have hpick : ∃ b ∈ c :: u, a ≤ b ∧ (c :: u).erase b <+~ s := by
        by_cases ha : a ∈ c :: u
        · refine ⟨a, ha, le_rfl, ?_⟩
          have herase := hu.erase a
          rwa [List.erase_cons_head] at herase
        · have htail : c :: u <+~ s := by
            have herase := hu.erase a
            rwa [List.erase_cons_head, List.erase_of_not_mem ha] at herase
          have hc : c ∈ s := htail.subset List.mem_cons_self
          exact ⟨c, List.mem_cons_self, hle c hc, (List.erase_subperm c _).trans htail⟩
      obtain ⟨b, hb, hab, hrest⟩ := hpick
      have hlength : ((c :: u).erase b).length = u.length := by
        rw [List.length_erase_of_mem hb, List.length_cons, Nat.add_sub_cancel]
      have hsum := ih hsorted hrest
      rw [hlength] at hsum
      rw [List.length_cons, List.take_succ_cons, List.sum_cons, ← List.sum_erase hb]
      exact add_le_add hab hsum

end Sums

/-- The sorted list. -/
def sorted (l : List ℕ) : List ℕ := l.insertionSort (· ≤ ·)

theorem sorted_perm (l : List ℕ) : sorted l ~ l := List.perm_insertionSort _ l

theorem sortedLE_sorted (l : List ℕ) : (sorted l).SortedLE := List.sortedLE_insertionSort

@[simp] theorem length_sorted (l : List ℕ) : (sorted l).length = l.length :=
  List.length_insertionSort _ l

/-- The sum of the `k` least elements. -/
def leastSum (k : ℕ) (l : List ℕ) : ℕ := ((sorted l).take k).sum

/-- The sum of the `k` greatest elements. -/
def greatestSum (k : ℕ) (l : List ℕ) : ℕ := ((sorted l).drop (l.length - k)).sum

theorem leastSum_le {u l : List ℕ} (h : u <+~ l) : leastSum u.length l ≤ u.sum :=
  sum_take_le (sortedLE_sorted l).pairwise ((sorted_perm l).symm.subperm_left.mp h)

/-- By what the elements left out sum to. -/
theorem le_greatestSum {u l : List ℕ} (h : u <+~ l) : u.sum ≤ greatestSum u.length l := by
  obtain ⟨u', hperm, hsub⟩ := h
  obtain ⟨v, hv⟩ := hsub.exists_perm_append
  have hsplit : l ~ u ++ v := hv.trans (hperm.append_right v)
  have hlength : l.length = u.length + v.length := by rw [hsplit.length_eq, List.length_append]
  have hleast : leastSum v.length l ≤ v.sum :=
    leastSum_le ((List.sublist_append_right u v).subperm.trans hsplit.symm.subperm)
  have hcut : ((sorted l).take v.length).sum + ((sorted l).drop v.length).sum = l.sum := by
    rw [← List.sum_append, List.take_append_drop, (sorted_perm l).sum_eq]
  have hsum : u.sum + v.sum = l.sum := by rw [hsplit.sum_eq, List.sum_append]
  have hdrop : l.length - u.length = v.length := by omega
  rw [greatestSum, hdrop]
  rw [leastSum] at hleast
  omega

/-- Elements taken off at either end leave some below and some above what stands in
the middle. -/
theorem between_of_outliers {l low others high : List ℕ} (hsplit : l ~ low ++ others ++ high)
    (hlow : ∀ a ∈ low, ∀ b ∈ others, a ≤ b) (hhigh : ∀ b ∈ others, ∀ c ∈ high, b ≤ c)
    {i : ℕ} (hi : low.length ≤ i) (hi' : i + high.length < l.length) :
    ∃ b ∈ others, (sorted l)[i]? = some b := by
  have hlength : l.length = low.length + others.length + high.length := by
    rw [hsplit.length_eq, List.length_append, List.length_append]
  have hsome : others ≠ [] := by
    rintro rfl
    rw [List.length_nil] at hlength
    omega
  obtain ⟨m, hm⟩ := List.exists_mem_of_ne_nil others hsome
  have hordered : (sorted low ++ sorted others ++ sorted high).Pairwise (· ≤ ·) := by
    rw [List.pairwise_append, List.pairwise_append]
    refine ⟨⟨(sortedLE_sorted low).pairwise, (sortedLE_sorted others).pairwise, ?_⟩,
      (sortedLE_sorted high).pairwise, ?_⟩
    · intro a ha b hb
      exact hlow a ((sorted_perm low).mem_iff.mp ha) b ((sorted_perm others).mem_iff.mp hb)
    · intro a ha c hc
      have hc' := (sorted_perm high).mem_iff.mp hc
      obtain hlow' | hothers := List.mem_append.mp ha
      · exact (hlow a ((sorted_perm low).mem_iff.mp hlow') m hm).trans (hhigh m hm c hc')
      · exact hhigh a ((sorted_perm others).mem_iff.mp hothers) c hc'
  have heq : sorted l = sorted low ++ sorted others ++ sorted high := by
    have hperm : sorted l ~ sorted low ++ sorted others ++ sorted high :=
      (sorted_perm l).trans (hsplit.trans
        (((sorted_perm low).symm.append (sorted_perm others).symm).append
          (sorted_perm high).symm))
    exact hperm.eq_of_sortedLE (sortedLE_sorted l) hordered.sortedLE
  have hmiddle : i - low.length < (sorted others).length := by
    rw [length_sorted]
    omega
  refine ⟨(sorted others)[i - low.length],
    (sorted_perm others).mem_iff.mp (List.getElem_mem hmiddle), ?_⟩
  have hleft : i < (sorted low ++ sorted others).length := by
    rw [List.length_append, length_sorted, length_sorted]
    omega
  rw [heq, List.getElem?_append_left hleft, List.getElem?_append_right (by simpa using hi),
    length_sorted, List.getElem?_eq_getElem hmiddle]

end EthMange.Ranks
