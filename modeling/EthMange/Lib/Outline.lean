import Mathlib.Data.Set.Prod
import Mathlib.Order.Cover
import Mathlib.Tactic

/-!
# The outline of a rectangle

The outline of a rectangle is what its interior leaves of it. Two rows and two columns
make it up; if a column is missing, or lies elsewhere, there is a gap wherever the
rectangle has an interior row.
-/

namespace EthMange.Outline

open Set

variable {α β : Type*} [LinearOrder α] [LinearOrder β]

/-- The rectangle without its interior. -/
def outline (top bottom : α) (left right : β) : Set (α × β) :=
  (Icc top bottom ×ˢ Icc left right) \ (Ioo top bottom ×ˢ Ioo left right)

/-- A side in a row. -/
def rowSide (row : α) (left right : β) : Set (α × β) := {row} ×ˢ Icc left right

/-- A side in a column, without its lowest cell. -/
def colSide (top bottom : α) (col : β) : Set (α × β) := Ico top bottom ×ˢ {col}

/-- The sides but for the right one. -/
def openSides (top bottom : α) (left right : β) : Set (α × β) :=
  rowSide top left right ∪ rowSide bottom left right ∪ colSide top bottom left

section Sides

variable {top bottom a : α} {left right col : β} {p : α × β}

theorem mem_outline : p ∈ outline top bottom left right ↔
    p.1 ∈ Icc top bottom ∧ p.2 ∈ Icc left right ∧
      (p.1 = top ∨ p.1 = bottom ∨ p.2 = left ∨ p.2 = right) := by
  constructor
  · rintro ⟨⟨hrow, hcol⟩, hinside⟩
    refine ⟨hrow, hcol, ?_⟩
    by_contra hside
    push Not at hside
    obtain ⟨htop, hbottom, hleft, hright⟩ := hside
    exact hinside ⟨⟨lt_of_le_of_ne hrow.1 htop.symm, lt_of_le_of_ne hrow.2 hbottom⟩,
      lt_of_le_of_ne hcol.1 hleft.symm, lt_of_le_of_ne hcol.2 hright⟩
  · rintro ⟨hrow, hcol, hside⟩
    refine ⟨⟨hrow, hcol⟩, ?_⟩
    rintro ⟨⟨htop, hbottom⟩, hleft, hright⟩
    obtain h | h | h | h := hside
    · exact htop.ne' h
    · exact hbottom.ne h
    · exact hleft.ne' h
    · exact hright.ne h

theorem mem_openSides : p ∈ openSides top bottom left right ↔
    (p.1 = top ∨ p.1 = bottom) ∧ p.2 ∈ Icc left right ∨ p.1 ∈ Ico top bottom ∧ p.2 = left := by
  rw [or_and_right]
  exact Iff.rfl

theorem openSides_subset (htop : top < bottom) (hleft : left ≤ right) :
    openSides top bottom left right ⊆ outline top bottom left right := by
  rintro ⟨row, col⟩ hp
  rw [mem_outline]
  obtain ⟨rfl | rfl, hcol⟩ | ⟨hrow, rfl⟩ := mem_openSides.mp hp
  · exact ⟨left_mem_Icc.mpr htop.le, hcol, .inl rfl⟩
  · exact ⟨right_mem_Icc.mpr htop.le, hcol, .inr (.inl rfl)⟩
  · exact ⟨Ico_subset_Icc_self hrow, left_mem_Icc.mpr hleft, .inr (.inr (.inl rfl))⟩

/-- What the open sides lack is in the right column. -/
theorem mem_openSides_or_right (h : p ∈ outline top bottom left right) :
    p ∈ openSides top bottom left right ∨ p ∈ colSide top bottom right := by
  obtain ⟨hrow, hcol, hside⟩ := mem_outline.mp h
  obtain hlow | hlow := hrow.2.lt_or_eq
  · obtain htop | hbottom | hleft | hright := hside
    · exact .inl (mem_openSides.mpr (.inl ⟨.inl htop, hcol⟩))
    · exact absurd hbottom hlow.ne
    · exact .inl (mem_openSides.mpr (.inr ⟨⟨hrow.1, hlow⟩, hleft⟩))
    · exact .inr ⟨⟨hrow.1, hlow⟩, hright⟩
  · exact .inl (mem_openSides.mpr (.inl ⟨.inr hlow, hcol⟩))

/-- In an interior row the open sides have the left column only. -/
theorem eq_left_of_mem_openSides (ha : a ∈ Ioo top bottom)
    (h : (a, col) ∈ openSides top bottom left right) : col = left := by
  obtain ⟨hrow | hrow, -⟩ | ⟨-, hcol⟩ := mem_openSides.mp h
  · exact absurd hrow ha.1.ne'
  · exact absurd hrow ha.2.ne
  · exact hcol

/-- Every row has a cell of the right column. -/
theorem right_mem_outline (ha : a ∈ Ioo top bottom) (hleft : left ≤ right) :
    (a, right) ∈ outline top bottom left right :=
  mem_outline.mpr ⟨Ioo_subset_Icc_self ha, right_mem_Icc.mpr hleft, .inr (.inr (.inr rfl))⟩

/-- A rectangle without interior rows is closed by its rows. -/
theorem outline_subset_of_covBy (hcov : top ⋖ bottom) :
    outline top bottom left right ⊆ openSides top bottom left right := by
  intro p hp
  obtain ⟨hrow, hcol, -⟩ := mem_outline.mp hp
  exact mem_openSides.mpr (.inl ⟨hcov.eq_or_eq hrow.1 hrow.2, hcol⟩)

/-- Without its right side the outline is closed only if there is nothing to close. -/
theorem openSides_eq_outline_iff (htop : top < bottom) (hleft : left ≤ right) :
    openSides top bottom left right = outline top bottom left right ↔
      left = right ∨ top ⋖ bottom := by
  constructor
  · intro heq
    by_contra hgap
    obtain ⟨hne, hcov⟩ := not_or.mp hgap
    obtain ⟨a, ha⟩ := (not_covBy_iff htop).mp hcov
    have hmem := right_mem_outline ha hleft
    rw [← heq] at hmem
    exact hne (eq_left_of_mem_openSides ha hmem).symm
  · intro h
    apply (openSides_subset htop hleft).antisymm
    obtain rfl | hcov := h
    · intro p hp
      obtain hopen | hright := mem_openSides_or_right hp
      · exact hopen
      · exact .inr hright
    · exact outline_subset_of_covBy hcov

/-- A last side in the right column, or of a rectangle without interior rows, stays in the
outline. -/
theorem colSide_subset (hcol : col ∈ Icc left right) (h : col = right ∨ top ⋖ bottom) :
    colSide top bottom col ⊆ outline top bottom left right := by
  rintro ⟨row, c⟩ ⟨hrow, hc⟩
  obtain rfl : c = col := hc
  refine mem_outline.mpr ⟨Ico_subset_Icc_self hrow, hcol, ?_⟩
  obtain hright | hcov := h
  · exact .inr (.inr (.inr hright))
  · obtain htop | hbottom := hcov.eq_or_eq hrow.1 hrow.2.le
    · exact .inl htop
    · exact .inr (.inl hbottom)

/-- With the last side in a column of its own the outline is closed if that is the right
column, or if there is nothing to close and the column belongs to the rectangle. -/
theorem sides_eq_outline_iff (htop : top < bottom) (hleft : left ≤ right) :
    openSides top bottom left right ∪ colSide top bottom col = outline top bottom left right ↔
      col = right ∨ top ⋖ bottom ∧ col ∈ Icc left right := by
  constructor
  · intro heq
    have hcorner : (top, col) ∈ outline top bottom left right := by
      rw [← heq]
      exact .inr ⟨left_mem_Ico.mpr htop, rfl⟩
    have hcol : col ∈ Icc left right := (mem_outline.mp hcorner).2.1
    by_cases hcov : top ⋖ bottom
    · exact .inr ⟨hcov, hcol⟩
    · left
      obtain ⟨a, ha⟩ := (not_covBy_iff htop).mp hcov
      have hmem := right_mem_outline ha hleft
      rw [← heq] at hmem
      obtain hopen | hside := hmem
      · have hright := eq_left_of_mem_openSides ha hopen
        exact le_antisymm hcol.2 (hright ▸ hcol.1)
      · exact hside.2.symm
  · rintro (rfl | ⟨hcov, hcol⟩)
    · have hcol : col ∈ Icc left col := right_mem_Icc.mpr hleft
      apply Subset.antisymm
      · exact union_subset (openSides_subset htop hleft) (colSide_subset hcol (.inl rfl))
      · exact fun p hp => mem_openSides_or_right hp
    · apply Subset.antisymm
      · exact union_subset (openSides_subset htop hleft) (colSide_subset hcol (.inr hcov))
      · exact (outline_subset_of_covBy hcov).trans subset_union_left

end Sides

end EthMange.Outline
