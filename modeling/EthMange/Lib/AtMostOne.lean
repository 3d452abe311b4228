import Mathlib.Tactic

/-!
# At most one entry of a list

Uniqueness of an entry with some property, by its position, through the two ways
in which a list of clients changes: one comes in at the end, one is replaced.
-/

namespace EthMange

variable {α : Type*} {p : α → Prop} {l : List α}

/-- At most one position of the list has an entry with the property. -/
def AtMostOne (p : α → Prop) (l : List α) : Prop :=
  ∀ (i j : ℕ) (a b : α), l[i]? = some a → l[j]? = some b → p a → p b → i = j

theorem AtMostOne.nil : AtMostOne p ([] : List α) := by
  intro i j a b hi
  simp at hi

/-- The entry that comes in has the property only if no other has it. -/
theorem AtMostOne.concat (h : AtMostOne p l) {c : α} (hc : p c → ∀ a ∈ l, ¬ p a) :
    AtMostOne p (l ++ [c]) := by
  have hcases : ∀ {i : ℕ} {a : α}, (l ++ [c])[i]? = some a →
      l[i]? = some a ∨ i = l.length ∧ a = c := by
    intro i a hi
    obtain hlt | rfl | hgt := lt_trichotomy i l.length
    · exact .inl (by rwa [List.getElem?_append_left hlt] at hi)
    · exact .inr ⟨rfl, by simpa [eq_comm] using hi⟩
    · rw [List.getElem?_eq_none (by simp; omega)] at hi
      simp at hi
  intro i j a b hi hj ha hb
  rcases hcases hi with hi' | ⟨hilen, hac⟩ <;> rcases hcases hj with hj' | ⟨hjlen, hbc⟩
  · exact h i j a b hi' hj' ha hb
  · exact absurd ha (hc (hbc ▸ hb) a (List.mem_of_getElem? hi'))
  · exact absurd hb (hc (hac ▸ ha) b (List.mem_of_getElem? hj'))
  · rw [hilen, hjlen]

theorem mem_of_mem_concat {a c : α} (ha : a ∈ l ++ [c]) (hpa : p a) (hc : ¬ p c) : a ∈ l := by
  obtain hold | hnew := List.mem_append.mp ha
  · exact hold
  · exact absurd (List.mem_singleton.mp hnew ▸ hpa) hc

theorem eq_of_mem_concat (hl : ∀ a ∈ l, ¬ p a) {a c : α} (ha : a ∈ l ++ [c]) (hpa : p a) :
    a = c := by
  obtain hold | hnew := List.mem_append.mp ha
  · exact absurd hpa (hl a hold)
  · exact List.mem_singleton.mp hnew

/-- The new entry has the property only if the one that it replaces has it. -/
theorem AtMostOne.set (h : AtMostOne p l) {i : ℕ} {c d : α} (hd : l[i]? = some d)
    (hc : p c → p d) : AtMostOne p (l.set i c) := by
  have hcases : ∀ {j : ℕ} {a : α}, (l.set i c)[j]? = some a → p a → ∃ b, l[j]? = some b ∧ p b := by
    intro j a hj ha
    by_cases hij : i = j
    · subst hij
      have hlt := (List.getElem?_eq_some_iff.mp hd).1
      rw [List.getElem?_set_self hlt, Option.some.injEq] at hj
      exact ⟨d, hd, hc (hj ▸ ha)⟩
    · rw [List.getElem?_set_ne hij] at hj
      exact ⟨a, hj, ha⟩
  intro j k a b hj hk ha hb
  obtain ⟨a', hj', ha'⟩ := hcases hj ha
  obtain ⟨b', hk', hb'⟩ := hcases hk hb
  exact h j k a' b' hj' hk' ha' hb'

/-- If the replaced entry was the one with the property, only its successor can
have it now. -/
theorem AtMostOne.eq_of_mem_set (h : AtMostOne p l) {i : ℕ} {a c d : α} (hd : l[i]? = some d)
    (hpd : p d) (ha : a ∈ l.set i c) (hpa : p a) : a = c := by
  obtain ⟨j, hj⟩ := List.mem_iff_getElem?.mp ha
  by_cases hij : i = j
  · subst hij
    have hlt := (List.getElem?_eq_some_iff.mp hd).1
    rw [List.getElem?_set_self hlt, Option.some.injEq] at hj
    exact hj.symm
  · rw [List.getElem?_set_ne hij] at hj
    exact absurd (h i j d a hd hj hpd hpa) hij

theorem mem_of_mem_set {i : ℕ} {a c : α} (ha : a ∈ l.set i c) (hpa : p a) (hc : ¬ p c) :
    a ∈ l :=
  (List.mem_or_eq_of_mem_set ha).resolve_right fun hac => hc (hac ▸ hpa)

theorem mem_set_of_mem {i : ℕ} {a c d : α} (hd : l[i]? = some d) (hpd : ¬ p d) (ha : a ∈ l)
    (hpa : p a) : a ∈ l.set i c := by
  obtain ⟨j, hj⟩ := List.mem_iff_getElem?.mp ha
  have hij : i ≠ j := by
    rintro rfl
    rw [hd, Option.some.injEq] at hj
    exact hpd (hj ▸ hpa)
  rw [← List.getElem?_set_ne hij] at hj
  exact List.mem_of_getElem? hj

/-- With one entry that has the property, no other entry of the list has it. -/
theorem AtMostOne.not_of_ne (h : AtMostOne p l) {i j : ℕ} {a b : α} (hi : l[i]? = some a)
    (hj : l[j]? = some b) (ha : p a) (hij : i ≠ j) : ¬ p b :=
  fun hb => hij (h i j a b hi hj ha hb)

end EthMange
