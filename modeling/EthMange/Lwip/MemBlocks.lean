import EthMange.Lwip.Mem

/-!
# The heap as a list of blocks

`Represents` says that the structs in the array are those of a list of blocks that tile it,
linked in both directions, and that `lfree` is the first free one. Each operation of the heap
is a step on that list.
-/

namespace EthMange.Lwip

open Tiling

namespace Heap

/-- The structs from `p` on are those of the blocks; the struct before the first of them
is at `q`. -/
def Linked (h : Heap) : ℕ → ℕ → List Block → Prop
  | _, _, [] => True
  | q, p, b :: bs =>
    (h.next p = p + b.size ∧ h.prev p = q ∧ h.used p = b.used) ∧ h.Linked p (p + b.size) bs

/-- The start of the last block, or `q` if there is none. -/
def lastStart (q p : ℕ) : List Block → ℕ
  | [] => q
  | b :: bs => lastStart p (p + b.size) bs

variable {h h' : Heap} {p q n v : ℕ} {b c : Block} {bs cs pre post : List Block}

theorem linked_append : h.Linked q p (bs ++ cs) ↔
    h.Linked q p bs ∧ h.Linked (lastStart q p bs) (p + total bs) cs := by
  induction bs generalizing q p with
  | nil => simp [Linked, lastStart]
  | cons b bs ih => simp [Linked, lastStart, ih, and_assoc, Nat.add_assoc]

theorem lastStart_concat : lastStart q p (bs ++ [b]) = p + total bs := by
  induction bs generalizing q p with
  | nil => rfl
  | cons c bs ih => rw [List.cons_append, lastStart, ih, total_cons, Nat.add_assoc]

theorem Linked.congr (hsame : ∀ x ∈ placed p bs, SameAt h h' x.1) (hl : h.Linked q p bs) :
    h'.Linked q p bs := by
  induction bs generalizing q p with
  | nil => trivial
  | cons b bs ih =>
    have hs : SameAt h h' p := hsame (p, b) List.mem_cons_self
    refine ⟨?_, ih (fun x hx => hsame x (List.mem_cons_of_mem _ hx)) hl.2⟩
    rw [hs.next, hs.prev, hs.used]
    exact hl.1

/-- What was written lies behind the blocks. -/
theorem Linked.congr_below (hwide : ∀ b ∈ bs, 8 ≤ b.size)
    (hsame : ∀ a < p + total bs, h'.ram a = h.ram a) (hl : h.Linked q p bs) :
    h'.Linked q p bs := by
  refine hl.congr fun x hx i hi => hsame _ ?_
  have := (bounds_of_mem_placed hx).2
  have := hwide x.2 (block_of_mem_placed hx)
  omega

/-- What was written lies before the blocks, but for the field that points back from the
first of them. -/
theorem Linked.relink {q' : ℕ} (hwide : ∀ b ∈ bs, 8 ≤ b.size)
    (hsame : ∀ a, p ≤ a → a < p + 2 ∨ p + 4 ≤ a → h'.ram a = h.ram a)
    (hprev : bs ≠ [] → h'.prev p = q') (hl : h.Linked q p bs) : h'.Linked q' p bs := by
  cases bs with
  | nil => trivial
  | cons b bs =>
    have hb := hwide b List.mem_cons_self
    obtain ⟨⟨hnext, -, hused⟩, hrest⟩ := hl
    refine ⟨⟨?_, hprev (List.cons_ne_nil _ _), ?_⟩, hrest.congr fun x hx i hi => ?_⟩
    · rw [← hnext]
      exact word_congr (hsame p le_rfl (.inl (by omega)))
        (hsame (p + 1) (by omega) (.inl (by omega)))
    · rw [← hused, used, used, hsame _ (by omega) (.inr (by omega))]
    · have := (bounds_of_mem_placed hx).1
      exact hsame _ (by omega) (.inr (by omega))

/-- The structs of the array are those of the blocks. -/
structure Represents (h : Heap) (bs : List Block) : Prop where
  linked : h.Linked 0 0 bs
  total_eq : total bs = memSizeAligned
  wide : ∀ b ∈ bs, sizeofStructMem + minSizeAligned ≤ b.size
  aligned : ∀ b ∈ bs, 4 ∣ b.size
  ending : h.used memSizeAligned = true
  lowest : h.lfree = lowestFree 0 bs

/-- The bytes behind the structs of the blocks in use are the same. -/
def KeepsData (h h' : Heap) (bs : List Block) : Prop :=
  ∀ x ∈ placed 0 bs, x.2.used = true → ∀ a, x.1 + sizeofStructMem ≤ a → a < x.1 + x.2.size →
    h'.ram a = h.ram a

/-- The blocks have changed, but not those in use. -/
structure Reblocked (h h' : Heap) (bs bs' : List Block) : Prop where
  represents : h'.Represents bs'
  used_iff : ∀ x : ℕ × Block, x.2.used = true → (x ∈ placed 0 bs' ↔ x ∈ placed 0 bs)
  keeps : KeepsData h h' bs

/-- No struct lies in the bytes behind another one. -/
theorem struct_apart {x y : ℕ × Block} (hwide : ∀ b ∈ bs, 8 ≤ b.size) (hx : x ∈ placed p bs)
    (hy : y ∈ placed p bs) {a : ℕ} (hlow : y.1 + 8 ≤ a) (hhigh : a < y.1 + y.2.size) :
    a < x.1 ∨ x.1 + 8 ≤ a := by
  have hwx := hwide x.2 (block_of_mem_placed hx)
  obtain rfl | h := eq_or_apart hx hy
  · exact .inr hlow
  · omega

theorem Represents.wide' (hr : h.Represents bs) : ∀ b ∈ bs, 8 ≤ b.size := by
  intro b hb
  have := hr.wide b hb
  simp only [sizeofStructMem, minSizeAligned] at this
  omega

theorem Represents.split (hr : h.Represents (pre ++ b :: post)) :
    h.Linked 0 0 pre ∧ h.next (total pre) = total pre + b.size ∧
      h.prev (total pre) = lastStart 0 0 pre ∧ h.used (total pre) = b.used ∧
      h.Linked (total pre) (total pre + b.size) post := by
  obtain ⟨hpre, ⟨hnext, hprev, hused⟩, hpost⟩ := linked_append.mp hr.linked
  rw [Nat.zero_add] at hnext hprev hused hpost
  exact ⟨hpre, hnext, hprev, hused, hpost⟩

theorem Represents.end_eq (hr : h.Represents (pre ++ b :: post)) :
    total pre + b.size + total post = memSizeAligned := by
  have := hr.total_eq
  rw [total_append, total_cons] at this
  omega

theorem mem_placed :
    (total pre, b) ∈ placed 0 (pre ++ b :: post) := by
  rw [placed_append, Nat.zero_add]
  exact List.mem_append_right _ List.mem_cons_self

theorem Represents.size_lt (hr : h.Represents (pre ++ b :: post)) :
    total pre + b.size ≤ memSizeAligned := by
  have := hr.end_eq
  omega

/-- What a step on the blocks has to show of the list after it. -/
theorem Represents.of_parts (hpre : h.Linked 0 0 pre)
    (hcs : h.Linked (lastStart 0 0 pre) (total pre) cs)
    (htotal : total pre + total cs = memSizeAligned)
    (hwide : ∀ b ∈ pre ++ cs, sizeofStructMem + minSizeAligned ≤ b.size)
    (haligned : ∀ b ∈ pre ++ cs, 4 ∣ b.size) (hend : h.used memSizeAligned = true)
    (hlow : h.lfree = lowestFree 0 (pre ++ cs)) : h.Represents (pre ++ cs) where
  linked := linked_append.mpr ⟨hpre, by rwa [Nat.zero_add]⟩
  total_eq := by rw [total_append, htotal]
  wide := hwide
  aligned := haligned
  ending := hend
  lowest := hlow

/-! ### Freeing -/

theorem moveLfree_of_ne (hne : h.lfree ≠ p) : h.moveLfree p q = h := by
  rw [moveLfree, if_neg hne]

/-- The struct behind that of `p` does not change when the one at `p` does. -/
theorem sameAt_setNext {r : ℕ} (hr : r + 8 ≤ p ∨ p + 8 ≤ r) : SameAt h (h.setNext p v) r :=
  fun i hi => ram_setNext (by omega)

theorem sameAt_setPrev {r : ℕ} (hr : r + 8 ≤ p ∨ p + 8 ≤ r) : SameAt h (h.setPrev p v) r :=
  fun i hi => ram_setPrev (by omega)

theorem sameAt_setUsed {r : ℕ} {v : Bool} (hr : r + 8 ≤ p ∨ p + 8 ≤ r) :
    SameAt h (h.setUsed p v) r :=
  fun i hi => ram_setUsed (by omega)

theorem Represents.combine_eq (hr : h.Represents (pre ++ b :: c :: post)) (hb : b.used = false) :
    h.combine (total pre) (total pre + b.size) =
      (h.setNext (total pre) (total pre + b.size + c.size)).setPrev
        (total pre + b.size + c.size) (total pre) := by
  obtain ⟨-, -, -, -, ⟨hnext, -, -⟩, -⟩ := hr.split
  have hbw := hr.wide' b (by simp)
  have hlow : h.lfree ≤ total pre := by
    rw [hr.lowest, ← Nat.zero_add (total pre)]
    exact lowestFree_le_of_free hb
  rw [combine, moveLfree_of_ne (by omega), hnext, (sameAt_setNext (by omega)).next, hnext]

/-- Two free neighbours are combined. -/
theorem Represents.combine (hr : h.Represents (pre ++ b :: c :: post)) (hb : b.used = false) :
    (h.combine (total pre) (total pre + b.size)).Represents
      (pre ++ ⟨b.size + c.size, false⟩ :: post) := by
  obtain ⟨hpre, hnext, hprev, hused, -, hpost⟩ := hr.split
  have hend := hr.end_eq
  have hbw := hr.wide b (by simp)
  have hcw := hr.wide c (by simp)
  have hsize : memSizeAligned = 20480 := rfl
  simp only [total_cons, sizeofStructMem, minSizeAligned] at hend hbw hcw
  rw [hr.combine_eq hb]
  refine .of_parts ?_ ?_ ?_ ?_ ?_ ?_ ?_
  · refine hpre.congr_below (fun d hd => hr.wide' d (by simp [hd])) fun a ha => ?_
    rw [ram_setPrev (by omega), ram_setNext (by omega)]
  · have hhead : SameAt (h.setNext (total pre) (total pre + b.size + c.size))
        ((h.setNext (total pre) (total pre + b.size + c.size)).setPrev
          (total pre + b.size + c.size) (total pre)) (total pre) := sameAt_setPrev (by omega)
    refine ⟨⟨?_, ?_, ?_⟩, ?_⟩
    · rw [hhead.next, next_setNext _ _ (by omega), Nat.add_assoc]
    · rw [hhead.prev, prev_setNext, hprev]
    · rw [hhead.used, used_setNext, hused, hb]
    · rw [← Nat.add_assoc]
      refine hpost.relink (fun d hd => hr.wide' d (by simp [hd])) (fun a ha ha' => ?_)
        fun _ => prev_setPrev _ _ (by omega)
      rw [ram_setPrev (by omega), ram_setNext (by omega)]
  · simp only [total_cons]
    omega
  · have hwide := hr.wide
    simp only [List.forall_mem_append, List.forall_mem_cons, sizeofStructMem,
      minSizeAligned] at hwide ⊢
    exact ⟨hwide.1, by omega, hwide.2.2.2⟩
  · have haligned := hr.aligned
    simp only [List.forall_mem_append, List.forall_mem_cons] at haligned ⊢
    exact ⟨haligned.1, Nat.dvd_add haligned.2.1 haligned.2.2.1, haligned.2.2.2⟩
  · rw [used, ram_setPrev (by omega), ram_setNext (by omega)]
    exact hr.ending
  · rw [lfree_setPrev, lfree_setNext, hr.lowest]
    exact lowestFree_congr hb rfl

theorem Represents.ram_combine (hr : h.Represents (pre ++ b :: c :: post)) (hb : b.used = false)
    {a : ℕ} (ha : a < total pre ∨ total pre + 8 ≤ a)
    (ha' : a < total pre + b.size + c.size ∨ total pre + b.size + c.size + 8 ≤ a) :
    (h.combine (total pre) (total pre + b.size)).ram a = h.ram a := by
  rw [hr.combine_eq hb, ram_setPrev (by omega), ram_setNext ha]

/-- The block at `total pre` is marked as free. -/
theorem Represents.release (hr : h.Represents (pre ++ b :: post)) (hb : b.used = true) :
    ((h.setUsed (total pre) false).setLfree (min (total pre) h.lfree)).Represents
      (pre ++ ⟨b.size, false⟩ :: post) := by
  obtain ⟨hpre, hnext, hprev, hused, hpost⟩ := hr.split
  have hend := hr.end_eq
  have hbw := hr.wide b (by simp)
  simp only [sizeofStructMem, minSizeAligned] at hbw
  refine .of_parts ?_ ?_ ?_ ?_ ?_ ?_ ?_
  · exact hpre.congr_below (fun d hd => hr.wide' d (by simp [hd]))
      fun a ha => ram_setUsed (by omega)
  · refine ⟨⟨?_, ?_, used_setUsed _ _ _⟩, ?_⟩
    · exact (next_setUsed h _ _).trans hnext
    · exact (prev_setUsed h _ _).trans hprev
    · refine hpost.congr fun x hx i hi => ram_setUsed ?_
      have := (bounds_of_mem_placed hx).1
      simp only at this ⊢
      omega
  · simp only [total_cons]
    omega
  · simpa only [List.forall_mem_append, List.forall_mem_cons] using hr.wide
  · simpa only [List.forall_mem_append, List.forall_mem_cons] using hr.aligned
  · exact (congrArg (· != 0) (ram_setUsed (by omega))).trans hr.ending
  · rw [lfree_setLfree, hr.lowest]
    by_cases hfree : ∃ d ∈ pre, d.used = false
    · have hlt := lowestFree_lt (p := 0) hfree fun d hd => by
        have := hr.wide' d (by simp [hd])
        omega
      rw [lowestFree_append_of_free hfree, lowestFree_append_of_free hfree]
      omega
    · have hall : ∀ d ∈ pre, d.used = true := by simpa using hfree
      rw [lowestFree_append hall, lowestFree_append hall, Nat.zero_add, lowestFree, lowestFree,
        if_pos hb, if_neg (by simp)]
      have := (lowestFree_le (total pre + b.size) post).1
      omega

theorem Reblocked.refl (hr : h.Represents bs) : Reblocked h h bs bs :=
  ⟨hr, fun _ _ => Iff.rfl, fun _ _ _ _ _ _ => rfl⟩

theorem Reblocked.trans {k : Heap} {ds : List Block} (h1 : Reblocked h h' bs cs)
    (h2 : Reblocked h' k cs ds) : Reblocked h k bs ds where
  represents := h2.represents
  used_iff x hx := (h2.used_iff x hx).trans (h1.used_iff x hx)
  keeps x hx hused a hlow hhigh :=
    (h2.keeps x ((h1.used_iff x hused).mpr hx) hused a hlow hhigh).trans
      (h1.keeps x hx hused a hlow hhigh)

theorem Represents.data_lt {x : ℕ × Block} (hr : h.Represents bs) (hx : x ∈ placed 0 bs) {a : ℕ}
    (hhigh : a < x.1 + x.2.size) : a < memSizeAligned := by
  have := (bounds_of_mem_placed hx).2
  have := hr.total_eq
  omega

theorem Represents.reblocked_combine (hr : h.Represents (pre ++ b :: c :: post))
    (hb : b.used = false) (hc : c.used = false) :
    Reblocked h (h.combine (total pre) (total pre + b.size)) (pre ++ b :: c :: post)
      (pre ++ ⟨b.size + c.size, false⟩ :: post) where
  represents := hr.combine hb
  used_iff x hx := mem_placed_join hb hc hx
  keeps x hx _ a hlow hhigh := by
    refine hr.ram_combine hb (struct_apart hr.wide' mem_placed hx hlow hhigh) ?_
    cases post with
    | nil =>
      have := hr.data_lt hx hhigh
      have := hr.end_eq
      simp only [total_cons, total_nil] at this
      omega
    | cons d post =>
      refine struct_apart (x := (total pre + b.size + c.size, d)) hr.wide' ?_ hx hlow hhigh
      rw [placed_append]
      simp

/-- `plug_holes` leaves no two free neighbours, where there were none but at `mem`. -/
theorem Represents.plugHoles (hr : h.Represents (pre ++ b :: post)) (hb : b.used = false)
    (hpre : Coalesced pre) (hpost : Coalesced post) :
    ∃ bs, Reblocked h (h.plugHoles (total pre)) (pre ++ b :: post) bs ∧ Coalesced bs := by
  obtain ⟨-, hnext, -, -, -⟩ := hr.split
  have hbw := hr.wide' b (by simp)
  have hend := hr.end_eq
  -- with the block behind it
  obtain ⟨k, d, post', hk, hre, hd, hco⟩ : ∃ k d post',
      (if total pre ≠ h.next (total pre) ∧ h.used (h.next (total pre)) = false ∧
          h.next (total pre) ≠ memSizeAligned
        then h.combine (total pre) (h.next (total pre)) else h) = k ∧
      Reblocked h k (pre ++ b :: post) (pre ++ d :: post') ∧ d.used = false ∧
        Coalesced (d :: post') := by
    cases post with
    | nil =>
      rw [if_neg (by simp only [total_nil] at hend; omega)]
      exact ⟨h, b, [], rfl, .refl hr, hb, List.isChain_singleton b⟩
    | cons c post =>
      obtain ⟨-, -, -, -, ⟨-, -, hused⟩, -⟩ := hr.split
      have hcw := hr.wide' c (by simp)
      rw [total_cons] at hend
      rw [hnext, hused]
      by_cases hc : c.used = false
      · rw [if_pos ⟨by omega, hc, by omega⟩]
        exact ⟨_, _, _, rfl, hr.reblocked_combine hb hc, rfl, hpost.head_mono (by simp [hc])⟩
      · rw [if_neg (by simp [hc])]
        exact ⟨h, b, c :: post, rfl, .refl hr, hb,
          coalesced_cons_cons.mpr ⟨.inr (by simpa using hc), hpost⟩⟩
  rw [Heap.plugHoles]
  simp only [hk]
  -- with the block in front of it
  obtain ⟨-, -, hprev, -, -⟩ := hre.represents.split
  rw [hprev]
  obtain rfl | ⟨pre, a, rfl⟩ := List.eq_nil_or_concat' pre
  · rw [if_neg (by simp [lastStart])]
    exact ⟨_, hre, hco⟩
  · have hr' : k.Represents (pre ++ a :: d :: post') := by
      simpa only [List.append_assoc, List.singleton_append] using hre.represents
    obtain ⟨-, -, -, hused, -⟩ := hr'.split
    have haw := hr'.wide' a (by simp)
    rw [lastStart_concat, Nat.zero_add, hused]
    by_cases ha : a.used = false
    · rw [if_pos ⟨by simp; omega, ha⟩, total_append, total_cons, total_nil, Nat.add_zero]
      have hjoin := hr'.reblocked_combine ha hd
      rw [show pre ++ a :: d :: post' = pre ++ [a] ++ d :: post' by simp] at hjoin
      exact ⟨_, hre.trans hjoin, coalesced_split.mpr
        ⟨hpre.last_mono (by simp [ha]), hco.head_mono (by simp [hd])⟩⟩
    · rw [if_neg (by simp [ha])]
      refine ⟨_, hre, ?_⟩
      rw [List.append_assoc, List.singleton_append, coalesced_split]
      exact ⟨hpre, coalesced_cons_cons.mpr ⟨.inl (by simpa using ha), hco⟩⟩

/-- `mem_free` of a block in use takes it from the blocks in use, and leaves no two free
neighbours. -/
theorem Represents.memFree (hr : h.Represents (pre ++ b :: post))
    (hco : Coalesced (pre ++ b :: post)) (hb : b.used = true) :
    ∃ bs, (h.memFree (some (total pre + sizeofStructMem))).Represents bs ∧ Coalesced bs ∧
      (∀ x : ℕ × Block, x.2.used = true →
        (x ∈ placed 0 bs ↔ x ∈ placed 0 (pre ++ b :: post) ∧ x.1 ≠ total pre)) ∧
      ∀ x ∈ placed 0 (pre ++ b :: post), x.2.used = true → x.1 ≠ total pre →
        ∀ a, x.1 + sizeofStructMem ≤ a → a < x.1 + x.2.size →
          (h.memFree (some (total pre + sizeofStructMem))).ram a = h.ram a := by
  have hbw := hr.wide b (by simp)
  have hend := hr.end_eq
  simp only [sizeofStructMem, minSizeAligned] at hbw
  have hfree : h.memFree (some (total pre + sizeofStructMem)) =
      ((h.setUsed (total pre) false).setLfree (min (total pre) h.lfree)).plugHoles
        (total pre) := by
    rw [Heap.memFree, if_neg (by simp only [sizeofStructMem]; omega), Nat.add_sub_cancel]
    refine congrArg (Heap.plugHoles · (total pre)) ?_
    rw [lfree_setUsed]
    split
    · rw [min_eq_left (by omega)]
    · rw [min_eq_right (by omega)]
      rfl
  have hco' := hco
  rw [coalesced_split] at hco'
  obtain ⟨bs, hre, hcobs⟩ := (hr.release hb).plugHoles rfl hco'.1.init hco'.2.tail
  have hmem (x : ℕ × Block) (hx : x.2.used = true) :
      x ∈ placed 0 (pre ++ ⟨b.size, false⟩ :: post) ↔
        x ∈ placed 0 (pre ++ b :: post) ∧ x.1 ≠ total pre := by
    have hpos : ∀ d ∈ pre ++ b :: post, 0 < d.size := fun d hd => by
      have := hr.wide' d hd
      omega
    have hne : x ≠ (0 + total pre, ⟨b.size, false⟩) := by
      rintro rfl
      simp at hx
    rw [← Nat.zero_add (total pre), mem_placed_ne_start hpos, placed_append, placed_cons,
      List.mem_append, List.mem_cons]
    simp only [hne, false_or]
  rw [hfree]
  refine ⟨bs, hre.represents, hcobs, fun x hx => (hre.used_iff x hx).trans (hmem x hx), ?_⟩
  intro x hx hused hne a hlow hhigh
  rw [hre.keeps x ((hmem x hused).mpr ⟨hx, hne⟩) hused a hlow hhigh]
  exact ram_setUsed (struct_apart hr.wide' mem_placed hx hlow hhigh)

end Heap

end EthMange.Lwip
