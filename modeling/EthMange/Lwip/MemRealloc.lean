import EthMange.Lwip.MemAlloc

/-!
# Shrinking

`mem_realloc` cuts off the end of a block in use, and gives it to the free block behind it
if there is one.
-/

namespace EthMange.Lwip

open Tiling

namespace Heap

variable {h h' : Heap} {n : ℕ} {b : Block} {bs pre post : List Block}

/-- The block in use at `o` has `s` bytes now, of which `n + 8` are as before. -/
structure Shrunk (h h' : Heap) (bs bs' : List Block) (o s n : ℕ) : Prop where
  represents : h'.Represents bs'
  coalesced : Coalesced bs'
  used_iff : ∀ x : ℕ × Block, x.2.used = true →
    (x ∈ placed 0 bs' ↔ x ∈ placed 0 bs ∧ x.1 ≠ o ∨ x = (o, ⟨s, true⟩))
  keeps : ∀ x ∈ placed 0 bs, x.2.used = true → x.1 ≠ o →
    ∀ a, x.1 + sizeofStructMem ≤ a → a < x.1 + x.2.size → h'.ram a = h.ram a
  kept : ∀ a, o + sizeofStructMem ≤ a → a < o + (n + sizeofStructMem) → h'.ram a = h.ram a

theorem Represents.positive (hr : h.Represents bs) : ∀ d ∈ bs, 0 < d.size := fun d hd => by
  have := hr.wide' d hd
  omega

/-- A new struct behind the first `n` bytes of a block in use: the rest of that block, with
the free block behind it if there is one, is a free block then. -/
theorem Represents.shrink (mid : List Block) (hr : h.Represents (pre ++ b :: (mid ++ post)))
    (hb : b.used = true) (hmid : ∀ d ∈ mid, d.used = false)
    (hco : Coalesced (pre ++ b :: (mid ++ post))) (hhead : ∀ d ∈ post.head?, d.used = true)
    (h4 : 4 ∣ n) (hmin : minSizeAligned ≤ n) (hn : n + sizeofStructMem < b.size)
    (ht : sizeofStructMem + minSizeAligned ≤ b.size + total mid - (n + sizeofStructMem)) :
    Shrunk h (((h.insert (total pre) (total pre + (n + 8))
        (total pre + b.size + total mid)).linkBack (total pre + (n + 8))).setLfree
          (lowestFree 0 (pre ++ ⟨n + 8, true⟩ :: ⟨b.size + total mid - (n + 8), false⟩ :: post)))
      (pre ++ b :: (mid ++ post))
      (pre ++ ⟨n + 8, true⟩ :: ⟨b.size + total mid - (n + 8), false⟩ :: post)
      (total pre) (n + 8) n := by
  obtain ⟨hpre, hnext, hprev, hused, hpost⟩ := hr.split
  have hend := hr.end_eq
  have hwide := hr.wide
  have haligned := hr.aligned
  rw [total_append] at hend
  simp only [List.forall_mem_append, List.forall_mem_cons] at hwide haligned
  simp only [sizeofStructMem, minSizeAligned] at hn ht hmin hwide
  have hlast : total pre + b.size + total mid =
      total pre + (n + 8) + (b.size + total mid - (n + 8)) := by omega
  have hend' : total pre + (n + 8) + (b.size + total mid - (n + 8)) + total post =
      memSizeAligned := by omega
  rw [hlast]
  have hg (a : ℕ) (_ : a ≠ total pre + 4) :
      (h.insert (total pre) (total pre + (n + 8))
        (total pre + (n + 8) + (b.size + total mid - (n + 8)))).ram a =
          (h.insert (total pre) (total pre + (n + 8))
            (total pre + (n + 8) + (b.size + total mid - (n + 8)))).ram a := rfl
  have hram := fun a => ram_of_insert (a := a) hg (by omega) (by omega) hend'
  have hgused : (h.insert (total pre) (total pre + (n + 8))
      (total pre + (n + 8) + (b.size + total mid - (n + 8)))).used (total pre) = true := by
    rw [insert, used_setNext, (sameAt_setPrev (by omega)).used, (sameAt_setNext (by omega)).used,
      (sameAt_setUsed (by omega)).used, hused, hb]
  have hco' := hco
  rw [coalesced_split] at hco'
  refine ⟨represents_of_insert hg (by omega) (by omega) hend' hgused hpre hprev
    (hlast ▸ (linked_append.mp hpost).2) ?_ ?_ hr.ending, ?_, fun x hx => ?_,
    fun x hx hxu hne a hlow hhigh => ?_, fun a hlow hhigh => ?_⟩
  · simp only [List.forall_mem_append, List.forall_mem_cons, sizeofStructMem, minSizeAligned]
    exact ⟨hwide.1, by omega, by omega, hwide.2.2.2⟩
  · have h4mid : 4 ∣ total mid := by
      refine List.dvd_sum fun v hv => ?_
      obtain ⟨d, hd, rfl⟩ := List.mem_map.mp hv
      exact haligned.2.2.1 d hd
    simp only [List.forall_mem_append, List.forall_mem_cons]
    exact ⟨haligned.1, by omega, by omega, haligned.2.2.2⟩
  · have hcopost : Coalesced post := (List.isChain_append.mp hco'.2.tail).2.1
    rw [coalesced_split]
    exact ⟨hco'.1.last_mono fun _ => rfl, coalesced_cons_cons.mpr ⟨.inl rfl,
      List.isChain_cons.mpr ⟨fun d hd => .inr (hhead d hd), hcopost⟩⟩⟩
  · have hne (q : ℕ) (d : Block) (hd : d.used = false) : x ≠ (q, d) := by
      rintro rfl
      simp [hd] at hx
    have hmid' (q : ℕ) : x ∉ placed q mid := fun hmem => by
      simp [hmid x.2 (block_of_mem_placed hmem)] at hx
    rw [← Nat.zero_add (total pre), mem_placed_ne_start hr.positive]
    simp only [placed_append, placed_cons, List.mem_append, List.mem_cons, hmid', false_or,
      hne _ ⟨b.size + total mid - (n + 8), false⟩ rfl, Nat.zero_add, ← hlast]
    tauto
  · rw [ram_setLfree]
    have hmem : (total pre, b) ∈ placed 0 (pre ++ b :: (mid ++ post)) := mem_placed
    have hxb : x.1 + x.2.size ≤ total pre ∨ total pre + b.size ≤ x.1 := by
      obtain rfl | h := eq_or_apart hmem hx
      · exact absurd rfl hne
      · exact h.symm
    have hbehind : a < total pre + b.size + total mid ∨
        total pre + b.size + total mid + 8 ≤ a := by
      have hr' : h.Represents ((pre ++ b :: mid) ++ post) := by simpa using hr
      have hx' : x ∈ placed 0 ((pre ++ b :: mid) ++ post) := by simpa using hx
      have hlen : total (pre ++ b :: mid) = total pre + b.size + total mid := by
        rw [total_append, total_cons, Nat.add_assoc]
      cases post with
      | nil =>
        have := hr.data_lt hx hhigh
        simp only [total_nil] at hend'
        omega
      | cons d post =>
        refine struct_apart (x := (total pre + b.size + total mid, d)) hr'.wide' ?_ hx' hlow hhigh
        rw [← hlen, placed_append, Nat.zero_add]
        exact List.mem_append_right _ List.mem_cons_self
    simp only [sizeofStructMem] at hlow
    exact hram a (by omega) (by omega) (by omega)
  · rw [ram_setLfree]
    simp only [sizeofStructMem] at hlow hhigh
    exact hram a (by omega) (by omega) (by omega)

theorem Shrunk.refl (hr : h.Represents (pre ++ b :: post)) (hco : Coalesced (pre ++ b :: post))
    (hb : b.used = true) (n : ℕ) :
    Shrunk h h (pre ++ b :: post) (pre ++ b :: post) (total pre) b.size n where
  represents := hr
  coalesced := hco
  used_iff x hx := by
    have hbeq : (⟨b.size, true⟩ : Block) = b := by rw [← hb]
    have hmem : (total pre, b) ∈ placed 0 (pre ++ b :: post) := mem_placed
    rw [hbeq]
    constructor
    · intro hmem'
      obtain rfl | h := eq_or_apart hmem hmem'
      · exact .inr rfl
      · have := hr.positive b (by simp)
        have := hr.positive x.2 (block_of_mem_placed hmem')
        exact .inl ⟨hmem', by simp only at h; omega⟩
    · rintro (⟨hmem', -⟩ | rfl)
      · exact hmem'
      · exact hmem
  keeps _ _ _ _ _ _ _ := rfl
  kept _ _ _ := rfl

theorem moveLfree_eq (h : Heap) (p q : ℕ) :
    h.moveLfree p q = h.setLfree (if h.lfree = p then q else h.lfree) := by
  rw [moveLfree]
  split
  · rfl
  · exact (setLfree_self h).symm

theorem linkBack_setLfree (h : Heap) (p q : ℕ) :
    (h.setLfree q).linkBack p = (h.linkBack p).setLfree q := by
  have hnext : (h.setLfree q).next p = h.next p := rfl
  rw [linkBack, linkBack, hnext]
  split <;> rfl

/-- What is cut off a block in use becomes the first free block, if there is none in front
of it. -/
theorem Represents.lowest_cut (hr : h.Represents (pre ++ b :: post)) (hb : b.used = true)
    (s t : ℕ) (cs : List Block) :
    lowestFree 0 (pre ++ ⟨s, true⟩ :: ⟨t, false⟩ :: cs) =
        (if h.lfree < total pre then h.lfree else total pre + s) ∧
      (h.lfree < total pre ∨ h.lfree = lowestFree (total pre + b.size) post) := by
  by_cases hfree : ∃ d ∈ pre, d.used = false
  · have hlt := lowestFree_lt (p := 0) hfree fun d hd => hr.positive d (by simp [hd])
    have hlow : h.lfree = lowestFree 0 pre := by
      rw [hr.lowest, lowestFree_append_of_free hfree]
    rw [lowestFree_append_of_free hfree, if_pos (by omega)]
    exact ⟨hlow.symm, .inl (by omega)⟩
  · have hall : ∀ d ∈ pre, d.used = true := by simpa using hfree
    have hlow : h.lfree = lowestFree (total pre + b.size) post := by
      rw [hr.lowest, lowestFree_append hall, Nat.zero_add, lowestFree, if_pos hb]
    have := (lowestFree_le (total pre + b.size) post).1
    rw [lowestFree_append hall, Nat.zero_add, lowestFree, if_pos rfl, lowestFree,
      if_neg (by simp), if_neg (by omega)]
    exact ⟨rfl, .inr hlow⟩

/-- `mem_realloc` of a block in use, as far as it holds the new size; what is cut off is
free. -/
theorem Represents.memRealloc (hr : h.Represents (pre ++ b :: post))
    (hco : Coalesced (pre ++ b :: post)) (hb : b.used = true) (newsize : ℕ) :
    (b.size < roundSize newsize + sizeofStructMem ∧
        h.memRealloc (total pre + sizeofStructMem) newsize = (h, none)) ∨
      roundSize newsize + sizeofStructMem ≤ b.size ∧ ∃ h' s bs',
        h.memRealloc (total pre + sizeofStructMem) newsize =
          (h', some (total pre + sizeofStructMem)) ∧
        roundSize newsize + sizeofStructMem ≤ s ∧
        Shrunk h h' (pre ++ b :: post) bs' (total pre) s (roundSize newsize) := by
  obtain ⟨-, hnext, -, -, hpost⟩ := hr.split
  have hend := hr.end_eq
  have hbw := hr.wide b (by simp)
  have hmem : memSizeAligned = 20480 := rfl
  simp only [sizeofStructMem, minSizeAligned] at hbw ⊢
  have h4 := dvd_roundSize newsize
  have hmin := roundSize_ge newsize
  generalize hn : roundSize newsize = n at h4 hmin ⊢
  have hsize : (h.next (total pre) + 2 ^ 16 - total pre - 8) % 2 ^ 16 = b.size - 8 := by
    rw [hnext]
    omega
  by_cases hlt : b.size < n + 8
  · refine .inl ⟨hlt, ?_⟩
    simp only [Heap.memRealloc, hn, sizeofStructMem, Nat.add_sub_cancel, hsize]
    by_cases hlarge : memSizeAligned < n
    · rw [if_pos hlarge]
    · rw [if_neg hlarge, if_neg (by omega), if_pos (by omega)]
  refine .inr ⟨by omega, ?_⟩
  simp only [Heap.memRealloc, hn, sizeofStructMem, Nat.add_sub_cancel, hsize]
  rw [if_neg (by omega), if_neg (by omega), if_neg (by omega)]
  by_cases hsame : n = b.size - 8
  · rw [if_pos hsame]
    exact ⟨h, b.size, _, rfl, by omega, .refl hr hco hb n⟩
  rw [if_neg hsame, hnext]
  have hptr2 : total pre + 8 + n = total pre + (n + 8) := by omega
  have hbpost := (coalesced_split.mp hco).2
  by_cases hfree : h.used (total pre + b.size) = false
  · rw [if_pos hfree]
    cases post with
    | nil =>
      rw [total_nil, Nat.add_zero] at hend
      rw [hend, hr.ending] at hfree
      simp at hfree
    | cons c post =>
      obtain ⟨⟨hnextc, -, husedc⟩, -⟩ := hpost
      have hc : c.used = false := husedc ▸ hfree
      have hcw := hr.wide c (by simp)
      simp only [sizeofStructMem, minSizeAligned] at hcw
      have hhead : ∀ d ∈ post.head?, d.used = true := fun d hd => by
        have := (List.isChain_cons.mp hbpost.tail).1 d hd
        simpa [hc] using this
      have hshrink := Represents.shrink [c] (n := n) hr hb (by simp [hc]) hco hhead h4 hmin
        (by simp only [sizeofStructMem]; omega)
        (by simp only [sizeofStructMem, minSizeAligned, total_cons, total_nil]; omega)
      refine ⟨_, n + 8, _, ?_, le_rfl, hshrink⟩
      obtain ⟨hlow, hor⟩ := hr.lowest_cut hb (n + 8)
        (b.size + total [c] - (n + 8)) post
      rw [lowestFree, if_neg (by simp [hc])] at hor
      have hlfree : (if h.lfree = total pre + b.size then total pre + (n + 8) else h.lfree) =
          if h.lfree < total pre then h.lfree else total pre + (n + 8) := by
        obtain hlt | heq := hor
        · rw [if_neg (by omega), if_pos hlt]
        · rw [if_pos heq, if_neg (by omega)]
      rw [hlow, moveLfree_eq, hptr2, hnextc, total_cons, total_nil, Nat.add_zero, hlfree,
        ← linkBack_setLfree]
      rfl
  · rw [if_neg hfree]
    by_cases hcut : n + 8 + minSizeAligned ≤ b.size - 8
    · rw [if_pos hcut]
      have hhead : ∀ d ∈ post.head?, d.used = true := fun d hd => by
        obtain ⟨post, rfl⟩ : ∃ ds, post = d :: ds := by
          cases post with
          | nil => simp at hd
          | cons c ds => exact ⟨ds, by simpa using hd⟩
        obtain ⟨⟨-, -, husedd⟩, -⟩ := hpost
        simpa [← husedd] using hfree
      have hshrink := Represents.shrink [] (n := n) hr hb (by simp) hco hhead h4 hmin
        (by simp only [sizeofStructMem]; omega)
        (by simp only [sizeofStructMem, total_nil]; omega)
      refine ⟨_, n + 8, _, ?_, le_rfl, hshrink⟩
      obtain ⟨hlow, hor⟩ := hr.lowest_cut hb (n + 8)
        (b.size + total [] - (n + 8)) post
      have hlfree :
          (if total pre + (n + 8) < h.lfree then h.setLfree (total pre + (n + 8)) else h) =
          h.setLfree (if h.lfree < total pre then h.lfree else total pre + (n + 8)) := by
        obtain hlt | heq := hor
        · rw [if_neg (by omega), if_pos hlt, setLfree_self]
        · have := (lowestFree_le (total pre + b.size) post).1
          rw [if_pos (by omega), if_neg (by omega)]
      have hnext' (v : ℕ) : (h.setLfree v).next (total pre) = total pre + b.size := hnext
      rw [hlow, hptr2, hlfree, hnext', total_nil, Nat.add_zero, ← linkBack_setLfree]
      rfl
    · rw [if_neg hcut]
      exact ⟨h, b.size, _, rfl, by omega, .refl hr hco hb n⟩

end Heap

end EthMange.Lwip
