import EthMange.Lwip.MemBlocks

/-!
# Allocating

`mem_malloc` takes the first free block that is large enough and cuts off what it does not
need.
-/

namespace EthMange.Lwip

open Tiling

namespace Heap

variable {h h' g : Heap} {p q n s t : ℕ} {b c : Block} {bs cs pre post : List Block}

theorem roundSize_eq (size : ℕ) :
    roundSize size = max minSizeAligned (memAlignSize size % 2 ^ 16) := by
  simp only [roundSize]
  by_cases hlt : memAlignSize size % 2 ^ 16 < minSizeAligned
  · rw [if_pos hlt, max_eq_left (by omega)]
  · rw [if_neg hlt, max_eq_right (by omega)]

theorem roundSize_ge (size : ℕ) : minSizeAligned ≤ roundSize size := by
  rw [roundSize_eq]
  exact le_max_left _ _

theorem dvd_roundSize (size : ℕ) : 4 ∣ roundSize size := by
  rw [roundSize_eq, minSizeAligned, memAlignSize]
  omega

/-- The sizes that the rounding does not wrap. -/
theorem le_roundSize {size : ℕ} (hsize : size ≤ 65532) : size ≤ roundSize size := by
  rw [roundSize_eq, memAlignSize]
  omega

/-! ### Inserting a struct -/

theorem ram_insert {a : ℕ} (hp : a < p ∨ p + 8 ≤ a) (hq : a < q ∨ q + 8 ≤ a) {v : ℕ} :
    (h.insert p q v).ram a = h.ram a := by
  rw [insert, ram_setNext hp, ram_setPrev (by omega), ram_setNext hq, ram_setUsed hq]

theorem ram_linkBack {a : ℕ} (ha : a < h.next p + 2 ∨ h.next p + 4 ≤ a) :
    (h.linkBack p).ram a = h.ram a := by
  rw [linkBack]
  split
  · exact ram_setPrev ha
  · rfl

section

/- `g` is the heap after a struct was put behind `s` bytes of the block at `total pre`, and
`t` bytes before the blocks `post`. -/
variable (hg : ∀ a, a ≠ total pre + 4 →
    g.ram a = (h.insert (total pre) (total pre + s) (total pre + s + t)).ram a)
  (hs : 8 ≤ s) (ht : 8 ≤ t) (hend : total pre + s + t + total post = memSizeAligned)

include hg hs ht hend

theorem fields_of_insert : g.next (total pre) = total pre + s ∧
    g.prev (total pre) = h.prev (total pre) ∧ g.next (total pre + s) = total pre + s + t ∧
      g.prev (total pre + s) = total pre ∧ g.used (total pre + s) = false := by
  have hsize : memSizeAligned = 20480 := rfl
  have hword (a : ℕ) (ha : a + 1 < total pre + 4 ∨ total pre + 4 < a) :
      word g.ram a = word (h.insert (total pre) (total pre + s) (total pre + s + t)).ram a :=
    word_congr (hg _ (by omega)) (hg _ (by omega))
  have hsame : SameAt (((h.setUsed (total pre + s) false).setNext (total pre + s)
        (total pre + s + t)).setPrev (total pre + s) (total pre))
      (h.insert (total pre) (total pre + s) (total pre + s + t)) (total pre + s) :=
    sameAt_setNext (by omega)
  refine ⟨?_, ?_, ?_, ?_, ?_⟩
  · exact (hword _ (.inl (by omega))).trans (next_setNext _ _ (by omega))
  · refine (hword _ (.inl (by omega))).trans ((prev_setNext _ _ _).trans ?_)
    rw [(sameAt_setPrev (by omega)).prev, (sameAt_setNext (by omega)).prev,
      (sameAt_setUsed (by omega)).prev]
  · refine (hword _ (.inr (by omega))).trans (hsame.next.trans ?_)
    rw [next_setPrev, next_setNext _ _ (by omega)]
  · exact (hword _ (.inr (by omega))).trans
      (hsame.prev.trans (prev_setPrev _ _ (by omega)))
  · refine (congrArg (· != 0) (hg _ (by omega))).trans (hsame.used.trans ?_)
    rw [used_setPrev, used_setNext, used_setUsed]

/-- Everything but the structs at the ends of the two parts is as before. -/
theorem ram_of_insert {a : ℕ} (hp : a < total pre ∨ total pre + 8 ≤ a)
    (hq : a < total pre + s ∨ total pre + s + 8 ≤ a)
    (hn : a < total pre + s + t + 2 ∨ total pre + s + t + 4 ≤ a) :
    (g.linkBack (total pre + s)).ram a = h.ram a := by
  obtain ⟨-, -, hnext, -, -⟩ := fields_of_insert hg hs ht hend
  rw [ram_linkBack (by rwa [hnext]), hg a (by omega), ram_insert hp hq]

theorem linked_of_insert (hused : g.used (total pre) = true) (hpre : h.Linked 0 0 pre)
    (hprev : h.prev (total pre) = lastStart 0 0 pre)
    (hpost : h.Linked q (total pre + s + t) post) (hwpre : ∀ d ∈ pre, 8 ≤ d.size)
    (hwpost : ∀ d ∈ post, 8 ≤ d.size) :
    (g.linkBack (total pre + s)).Linked 0 0 (pre ++ ⟨s, true⟩ :: ⟨t, false⟩ :: post) := by
  have hsize : memSizeAligned = 20480 := rfl
  have hram := @ram_of_insert _ _ _ _ _ _ hg hs ht hend
  obtain ⟨hnext, hprev', hnext2, hprev2, hused2⟩ := fields_of_insert hg hs ht hend
  have hsame (o : ℕ) (ho : o + 8 ≤ total pre + s + t) :
      SameAt g (g.linkBack (total pre + s)) o :=
    fun i hi => ram_linkBack (by omega)
  refine linked_append.mpr ⟨hpre.congr_below hwpre fun a ha => ?_, ?_⟩
  · exact hram (by omega) (by omega) (by omega)
  · rw [Nat.zero_add]
    have h1 := hsame (total pre) (by omega)
    have h2 := hsame (total pre + s) (by omega)
    refine ⟨⟨?_, ?_, ?_⟩, ⟨?_, ?_, ?_⟩, ?_⟩
    · rw [h1.next, hnext]
    · rw [h1.prev, hprev', hprev]
    · rw [h1.used, hused]
    · rw [h2.next, hnext2]
    · rw [h2.prev, hprev2]
    · rw [h2.used, hused2]
    · refine hpost.relink hwpost (fun a ha ha' => ?_) fun hne => ?_
      · simp only at ha ha'
        exact hram (by omega) (by omega) (by omega)
      obtain ⟨d, post, rfl⟩ := List.exists_cons_of_ne_nil hne
      have hd := hwpost d List.mem_cons_self
      rw [total_cons] at hend
      rw [linkBack, hnext2, if_pos (by omega), prev_setPrev _ _ (by omega)]

theorem represents_of_insert (hused : g.used (total pre) = true) (hpre : h.Linked 0 0 pre)
    (hprev : h.prev (total pre) = lastStart 0 0 pre)
    (hpost : h.Linked q (total pre + s + t) post)
    (hwide : ∀ d ∈ pre ++ ⟨s, true⟩ :: ⟨t, false⟩ :: post,
      sizeofStructMem + minSizeAligned ≤ d.size)
    (haligned : ∀ d ∈ pre ++ ⟨s, true⟩ :: ⟨t, false⟩ :: post, 4 ∣ d.size)
    (hending : h.used memSizeAligned = true) :
    ((g.linkBack (total pre + s)).setLfree
        (lowestFree 0 (pre ++ ⟨s, true⟩ :: ⟨t, false⟩ :: post))).Represents
      (pre ++ ⟨s, true⟩ :: ⟨t, false⟩ :: post) where
  linked := by
    have hw : ∀ d ∈ pre ++ ⟨s, true⟩ :: ⟨t, false⟩ :: post, 8 ≤ d.size := fun d hd => by
      have := hwide d hd
      simp only [sizeofStructMem] at this
      omega
    have hl := linked_of_insert hg hs ht hend hused hpre hprev hpost
      (fun d hd => hw d (by simp [hd])) (fun d hd => hw d (by simp [hd]))
    exact hl.congr fun x _ => sameAt_setLfree _ _ _
  total_eq := by
    simp only [total_append, total_cons]
    omega
  wide := hwide
  aligned := haligned
  ending := by
    have hram := ram_of_insert hg hs ht hend (a := memSizeAligned + 4) (by omega) (by omega)
      (by omega)
    exact (congrArg (· != 0) hram).trans hending
  lowest := rfl

end

/-! ### Searching -/

theorem room_eq (hnext : h.next p = p + s) (hs : 8 ≤ s) (hlt : p + s ≤ memSizeAligned) :
    h.room p = s - sizeofStructMem := by
  rw [memSizeAligned] at hlt
  rw [room, hnext, sizeofStructMem]
  omega

theorem scan_eq {fuel : ℕ} (hl : h.Linked q p bs) (hend : p + total bs = memSizeAligned)
    (hwide : ∀ d ∈ bs, 8 ≤ d.size) (hfuel : bs.length < fuel) :
    h.scan n fuel p = some (firstFit (n + sizeofStructMem) p bs) := by
  induction bs generalizing q p fuel with
  | nil =>
    obtain ⟨fuel, rfl⟩ : ∃ k, fuel = k + 1 := ⟨fuel - 1, by simp at hfuel; omega⟩
    rw [total_nil] at hend
    rw [scan, if_neg (by omega), firstFit]
  | cons b bs ih =>
    obtain ⟨fuel, rfl⟩ : ∃ k, fuel = k + 1 := ⟨fuel - 1, by simp at hfuel; omega⟩
    have hb := hwide b List.mem_cons_self
    obtain ⟨⟨hnext, -, hused⟩, hrest⟩ := hl
    have hend' := hend
    rw [total_cons] at hend'
    have hroom := room_eq hnext hb (by omega)
    rw [scan]
    split
    · rw [firstFit, hused, hroom]
      by_cases hfit : b.used = false ∧ n + sizeofStructMem ≤ b.size
      · rw [if_pos ⟨hfit.1, by omega⟩, if_pos hfit]
      · have hnot : ¬ (b.used = false ∧ n ≤ b.size - sizeofStructMem) := by
          rintro ⟨hfree, hle⟩
          refine hfit ⟨hfree, ?_⟩
          simp only [sizeofStructMem] at hle ⊢
          omega
        rw [if_neg hnot, if_neg hfit, hnext]
        exact ih hrest (by omega) (fun d hd => hwide d (List.mem_cons_of_mem b hd))
          (by simpa using hfuel)
    · -- less than `n` bytes are left
      rename_i hlate
      refine congrArg some (firstFit_eq_none.mpr fun d hd _ => ?_).symm
      have hle : d.size ≤ total (b :: bs) :=
        List.le_sum_of_mem (List.mem_map_of_mem hd)
      simp only [sizeofStructMem]
      omega

theorem nextFree_eq {fuel : ℕ} (hl : h.Linked q p bs) (hend : p + total bs = memSizeAligned)
    (hwide : ∀ d ∈ bs, 8 ≤ d.size) (hfuel : bs.length < fuel) :
    h.nextFree fuel p = some (lowestFree p bs) := by
  induction bs generalizing q p fuel with
  | nil =>
    obtain ⟨fuel, rfl⟩ : ∃ k, fuel = k + 1 := ⟨fuel - 1, by simp at hfuel; omega⟩
    rw [total_nil] at hend
    rw [nextFree, if_neg (by omega), lowestFree]
  | cons b bs ih =>
    obtain ⟨fuel, rfl⟩ : ∃ k, fuel = k + 1 := ⟨fuel - 1, by simp at hfuel; omega⟩
    have hb := hwide b List.mem_cons_self
    obtain ⟨⟨hnext, -, hused⟩, hrest⟩ := hl
    rw [total_cons] at hend
    rw [nextFree, lowestFree, hused]
    by_cases hbu : b.used = true
    · rw [if_pos ⟨hbu, by omega⟩, if_pos hbu, hnext]
      exact ih hrest (by omega) (fun d hd => hwide d (List.mem_cons_of_mem b hd))
        (by simpa using hfuel)
    · rw [if_neg fun h => hbu h.1, if_neg hbu]

theorem Represents.length_lt (hr : h.Represents bs) : bs.length < memSizeAligned := by
  have hlen (cs : List Block) (hwide : ∀ d ∈ cs, sizeofStructMem + minSizeAligned ≤ d.size) :
      20 * cs.length ≤ total cs := by
    induction cs with
    | nil => simp
    | cons d cs ih =>
      rw [List.forall_mem_cons] at hwide
      have := ih hwide.2
      have := hwide.1
      simp only [sizeofStructMem, minSizeAligned] at this
      rw [List.length_cons, total_cons]
      omega
  have := hlen bs hr.wide
  have := hr.total_eq
  simp only [memSizeAligned] at this ⊢
  omega

/-- `mem_malloc` finds the first block of the list that is free and large enough. -/
theorem Represents.scan (hr : h.Represents bs) (n : ℕ) :
    h.scan n memSizeAligned h.lfree = some (firstFit (n + sizeofStructMem) 0 bs) := by
  obtain ⟨us, cs, rfl, hall, hlow⟩ := exists_split_lowestFree 0 bs
  have hlen := hr.length_lt
  rw [List.length_append] at hlen
  rw [hr.lowest, hlow, firstFit_append_of_used hall]
  refine scan_eq (linked_append.mp hr.linked).2 ?_ (fun d hd => hr.wide' d (by simp [hd]))
    (by omega)
  have := hr.total_eq
  rw [total_append] at this
  omega

/-! ### Taking -/

/-- What `mem_malloc` makes of the block that it takes. -/
def carve (n : ℕ) (b : Block) : List Block :=
  if n + sizeofStructMem + (sizeofStructMem + minSizeAligned) ≤ b.size then
    [⟨n + sizeofStructMem, true⟩, ⟨b.size - (n + sizeofStructMem), false⟩]
  else [⟨b.size, true⟩]

theorem carve_eq (hn : n + sizeofStructMem ≤ b.size) :
    ∃ s rest, carve n b = ⟨s, true⟩ :: rest ∧ n + sizeofStructMem ≤ s ∧ s + total rest = b.size ∧
      (rest = [] ∨ rest = [⟨b.size - (n + sizeofStructMem), false⟩]) := by
  rw [carve]
  split
  · exact ⟨_, _, rfl, le_rfl, by simp only [total_cons, total_nil]; omega, .inr rfl⟩
  · exact ⟨_, _, rfl, hn, by simp, .inl rfl⟩

theorem Represents.take_split (hr : h.Represents (pre ++ b :: post))
    (hbig : n + sizeofStructMem + (sizeofStructMem + minSizeAligned) ≤ b.size) :
    h.take (total pre) n = ((h.insert (total pre) (total pre + (n + 8))
      (total pre + (n + 8) + (b.size - (n + 8)))).setUsed (total pre) true).linkBack
        (total pre + (n + 8)) := by
  obtain ⟨-, hnext, -, -, -⟩ := hr.split
  have hroom := room_eq hnext (hr.wide' b (by simp)) hr.size_lt
  simp only [sizeofStructMem, minSizeAligned] at hbig hroom
  have hlast : total pre + (n + 8) + (b.size - (n + 8)) = total pre + b.size := by omega
  have hptr2 : total pre + 8 + n = total pre + (n + 8) := by omega
  simp only [Heap.take, sizeofStructMem, minSizeAligned, hroom, hnext, hptr2, hlast]
  rw [if_pos (by omega)]

theorem Represents.take_whole (hr : h.Represents (pre ++ b :: post))
    (hsmall : ¬ n + sizeofStructMem + (sizeofStructMem + minSizeAligned) ≤ b.size) :
    h.take (total pre) n = h.setUsed (total pre) true := by
  obtain ⟨-, hnext, -, -, -⟩ := hr.split
  have hroom := room_eq hnext (hr.wide' b (by simp)) hr.size_lt
  simp only [sizeofStructMem, minSizeAligned] at hsmall hroom
  simp only [Heap.take, sizeofStructMem, minSizeAligned, hroom]
  rw [if_neg (by omega)]

/-- The block behind is where `mem_malloc` writes last. -/
theorem Represents.behind_apart {x : ℕ × Block} (hr : h.Represents (pre ++ b :: post))
    (hx : x ∈ placed 0 (pre ++ b :: post)) {a : ℕ} (hlow : x.1 + 8 ≤ a)
    (hhigh : a < x.1 + x.2.size) :
    a < total pre + b.size ∨ total pre + b.size + 8 ≤ a := by
  cases post with
  | nil =>
    have := hr.data_lt hx hhigh
    have := hr.end_eq
    simp only [total_nil] at this
    omega
  | cons d post =>
    refine struct_apart (x := (total pre + b.size, d)) hr.wide' ?_ hx hlow hhigh
    rw [placed_append]
    simp

theorem Represents.take (hr : h.Represents (pre ++ b :: post)) (hb : b.used = false)
    (h4 : 4 ∣ n) (hmin : minSizeAligned ≤ n) :
    ((h.take (total pre) n).setLfree (lowestFree 0 (pre ++ (carve n b ++ post)))).Represents
        (pre ++ (carve n b ++ post)) ∧
      KeepsData h (h.take (total pre) n) (pre ++ b :: post) := by
  obtain ⟨hpre, hnext, hprev, hused, hpost⟩ := hr.split
  have hend := hr.end_eq
  have hwide := hr.wide
  have haligned := hr.aligned
  have hsize : memSizeAligned = 20480 := rfl
  rw [List.forall_mem_append, List.forall_mem_cons] at hwide haligned
  -- what is not the struct of this block, inside it, or the struct behind it
  have hapart (x : ℕ × Block) (hx : x ∈ placed 0 (pre ++ b :: post)) (hxu : x.2.used = true)
      (a : ℕ) (hlow : x.1 + sizeofStructMem ≤ a) (hhigh : a < x.1 + x.2.size) :
      a < total pre ∨ total pre + b.size + 8 ≤ a := by
    have hbehind := hr.behind_apart hx hlow hhigh
    have hmem : (total pre, b) ∈ placed 0 (pre ++ b :: post) := mem_placed
    obtain rfl | h := eq_or_apart hmem hx
    · simp [hb] at hxu
    · simp only [sizeofStructMem] at hlow h
      omega
  by_cases hbig : n + sizeofStructMem + (sizeofStructMem + minSizeAligned) ≤ b.size
  · rw [hr.take_split hbig, carve, if_pos hbig]
    simp only [sizeofStructMem, minSizeAligned, List.cons_append, List.nil_append]
      at hbig hmin hwide ⊢
    have hg (a : ℕ) (ha : a ≠ total pre + 4) :
        ((h.insert (total pre) (total pre + (n + 8))
          (total pre + (n + 8) + (b.size - (n + 8)))).setUsed (total pre) true).ram a =
            (h.insert (total pre) (total pre + (n + 8))
              (total pre + (n + 8) + (b.size - (n + 8)))).ram a :=
      Function.update_of_ne ha _ _
    have hlast : total pre + b.size = total pre + (n + 8) + (b.size - (n + 8)) := by omega
    have hend' : total pre + (n + 8) + (b.size - (n + 8)) + total post = memSizeAligned := by
      omega
    refine ⟨represents_of_insert hg (by omega) (by omega) hend' (used_setUsed _ _ _) hpre hprev
      (hlast ▸ hpost) ?_ ?_ hr.ending, fun x hx hxu a hlow hhigh => ?_⟩
    · simp only [List.forall_mem_append, List.forall_mem_cons, sizeofStructMem, minSizeAligned]
      exact ⟨hwide.1, by omega, by omega, hwide.2.2⟩
    · simp only [List.forall_mem_append, List.forall_mem_cons]
      exact ⟨haligned.1, by omega, by omega, haligned.2.2⟩
    · have := hapart x hx hxu a hlow hhigh
      exact ram_of_insert hg (by omega) (by omega) hend' (by omega) (by omega) (by omega)
  · rw [hr.take_whole hbig, carve, if_neg hbig]
    simp only [sizeofStructMem, minSizeAligned] at hwide
    refine ⟨.of_parts ?_ ?_ ?_ ?_ ?_ ?_ rfl, fun x hx hxu a hlow hhigh => ?_⟩
    · exact hpre.congr_below (fun d hd => hr.wide' d (by simp [hd]))
        fun a ha => ram_setUsed (by omega)
    · refine ⟨⟨?_, ?_, used_setUsed _ _ _⟩, ?_⟩
      · exact (next_setUsed h _ _).trans hnext
      · exact (prev_setUsed h _ _).trans hprev
      · refine hpost.congr fun x hx i hi => ram_setUsed ?_
        have := (bounds_of_mem_placed hx).1
        simp only at this ⊢
        omega
    · simp only [List.singleton_append, total_cons]
      omega
    · simpa only [List.forall_mem_append, List.forall_mem_cons, List.singleton_append] using hr.wide
    · simpa only [List.forall_mem_append, List.forall_mem_cons, List.singleton_append]
        using hr.aligned
    · exact (congrArg (· != 0) (ram_setUsed (by omega))).trans hr.ending
    · have := hapart x hx hxu a hlow hhigh
      exact ram_setUsed (by omega)

/-- A block of `s` bytes, that at `o`, has come to the blocks in use. -/
structure Granted (h h' : Heap) (bs bs' : List Block) (o s : ℕ) : Prop where
  represents : h'.Represents bs'
  coalesced : Coalesced bs'
  free : ∃ b, (o, b) ∈ placed 0 bs ∧ b.used = false ∧ s ≤ b.size
  used_iff : ∀ x : ℕ × Block, x.2.used = true →
    (x ∈ placed 0 bs' ↔ x ∈ placed 0 bs ∨ x = (o, ⟨s, true⟩))
  keeps : KeepsData h h' bs

theorem coalesced_carve (hco : Coalesced (pre ++ b :: post)) (hb : b.used = false)
    (hn : n + sizeofStructMem ≤ b.size) : Coalesced (pre ++ (carve n b ++ post)) := by
  obtain ⟨s, rest, hcarve, -, -, hrest⟩ := carve_eq hn
  rw [coalesced_split] at hco
  rw [hcarve, List.cons_append, coalesced_split]
  refine ⟨hco.1.last_mono fun _ => rfl, ?_⟩
  obtain rfl | rfl := hrest
  · exact hco.2.head_mono fun _ => rfl
  · exact coalesced_cons_cons.mpr ⟨.inl rfl, hco.2.head_mono (by simp [hb])⟩

theorem mem_placed_carve (pre post : List Block) (hb : b.used = false)
    (hn : n + sizeofStructMem ≤ b.size) :
    ∃ s, n + sizeofStructMem ≤ s ∧ s ≤ b.size ∧ ∀ x : ℕ × Block, x.2.used = true →
      (x ∈ placed 0 (pre ++ (carve n b ++ post)) ↔
        x ∈ placed 0 (pre ++ b :: post) ∨ x = (total pre, ⟨s, true⟩)) := by
  obtain ⟨s, rest, hcarve, hs, hsum, hrest⟩ := carve_eq hn
  refine ⟨s, hs, by omega, fun x hx => ?_⟩
  have hne (q : ℕ) (d : Block) (hd : d.used = false) : x ≠ (q, d) := by
    rintro rfl
    simp [hd] at hx
  have hrest' (q : ℕ) : x ∉ placed q rest := by
    obtain rfl | rfl := hrest
    · simp
    · simpa using hne q ⟨_, false⟩ rfl
  simp only [hcarve, List.cons_append, placed_append, placed_cons, List.mem_append, List.mem_cons,
    hne _ _ hb, hrest', false_or, Nat.zero_add, Nat.add_assoc, hsum]
  tauto

/-- `mem_malloc` grants a block of at least the rounded size, or no free block is large
enough. -/
theorem Represents.memMalloc (hr : h.Represents bs) (hco : Coalesced bs) (size : ℕ) :
    (h.memMalloc size = some (h, none) ∧ (size = 0 ∨
        ∀ b ∈ bs, b.used = false → b.size < roundSize size + sizeofStructMem)) ∨
      size ≠ 0 ∧ ∃ h' o s bs', h.memMalloc size = some (h', some (o + sizeofStructMem)) ∧
        roundSize size + sizeofStructMem ≤ s ∧ Granted h h' bs bs' o s := by
  by_cases h0 : size = 0
  · exact .inl ⟨by rw [Heap.memMalloc, if_pos h0], .inl h0⟩
  have hscan := hr.scan (roundSize size)
  by_cases hlarge : memSizeAligned < roundSize size
  · refine .inl ⟨by rw [Heap.memMalloc, if_neg h0, if_pos hlarge], .inr fun b hb _ => ?_⟩
    have hle : b.size ≤ total bs := List.le_sum_of_mem (List.mem_map_of_mem hb)
    rw [hr.total_eq] at hle
    omega
  cases hfit : firstFit (roundSize size + sizeofStructMem) 0 bs with
  | none =>
    refine .inl ⟨?_, .inr (firstFit_eq_none.mp hfit)⟩
    rw [Heap.memMalloc, if_neg h0, if_neg hlarge]
    simp only [hscan, hfit]
  | some o =>
    obtain ⟨pre, b, post, rfl, hb, hn, rfl⟩ := firstFit_eq_some hfit
    rw [Nat.zero_add] at hfit
    obtain ⟨hrep, hkeeps⟩ := hr.take hb (dvd_roundSize size) (roundSize_ge size)
    obtain ⟨s, hs, hle, hused⟩ := mem_placed_carve pre post hb hn
    refine .inr ⟨h0, _, total pre, s, _, ?_, hs, hrep, coalesced_carve hco hb hn,
      ⟨b, mem_placed, hb, hle⟩, hused, fun x hx hxu a hlow hhigh => ?_⟩
    swap
    · rw [ram_setLfree]
      exact hkeeps x hx hxu a hlow hhigh
    rw [Heap.memMalloc, if_neg h0, if_neg hlarge]
    simp only [hscan, hfit]
    have hlfree : (h.take (total pre) (roundSize size)).lfree = h.lfree := by
      rw [Heap.take]
      split
      · rw [lfree_linkBack, lfree_setUsed, lfree_insert]
      · rfl
    rw [hlfree]
    by_cases hall : ∀ d ∈ pre, d.used = true
    · have hlow : h.lfree = total pre := by
        rw [hr.lowest, lowestFree_append hall, Nat.zero_add, lowestFree, if_neg (by simp [hb])]
      have hl : (h.take (total pre) (roundSize size)).Linked (lastStart 0 0 pre) (0 + total pre)
          (carve (roundSize size) b ++ post) :=
        (linked_append.mp hrep.linked).2.congr fun x _ => (sameAt_setLfree _ _ _).symm
      have hend : 0 + total pre + total (carve (roundSize size) b ++ post) = memSizeAligned := by
        rw [Nat.zero_add, ← total_append, hrep.total_eq]
      have hlen := hrep.length_lt
      rw [List.length_append] at hlen
      have hwide : ∀ d ∈ carve (roundSize size) b ++ post, 8 ≤ d.size :=
        fun d hd => hrep.wide' d (List.mem_append_right pre hd)
      have hnext : (h.take (total pre) (roundSize size)).nextFree memSizeAligned (0 + total pre) =
          some (lowestFree (0 + total pre) (carve (roundSize size) b ++ post)) :=
        nextFree_eq hl hend hwide (by omega)
      rw [Nat.zero_add] at hnext
      rw [if_pos hlow.symm, hlow, hnext, lowestFree_append hall, Nat.zero_add, Option.map_some]
    · have hfree : ∃ d ∈ pre, d.used = false := by simpa using hall
      have hlow : h.lfree = lowestFree 0 pre := by
        rw [hr.lowest, lowestFree_append_of_free hfree]
      have hlt := lowestFree_lt (p := 0) hfree fun d hd => by
        have := hr.wide' d (by simp [hd])
        omega
      rw [if_neg (by omega), lowestFree_append_of_free hfree, ← hlow, ← hlfree, setLfree_self]

end Heap

end EthMange.Lwip
