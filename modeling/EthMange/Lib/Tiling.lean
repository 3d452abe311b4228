import Mathlib.Tactic

/-!
# A region that is tiled by blocks

A region of memory is cut into blocks that follow each other without a gap. A block is in
use or free, and `Coalesced` says that no two free blocks are neighbours: then every gap
between the blocks in use is one free block, and a search for a free block that is large
enough finds whatever room there is.
-/

namespace EthMange.Tiling

structure Block where
  size : ℕ
  used : Bool
  deriving DecidableEq, Repr

def total (bs : List Block) : ℕ := (bs.map Block.size).sum

/-- The blocks of a region that starts at `p`, each with its start. -/
def placed : ℕ → List Block → List (ℕ × Block)
  | _, [] => []
  | p, b :: bs => (p, b) :: placed (p + b.size) bs

/-- No two neighbours are free. -/
def Coalesced (bs : List Block) : Prop := bs.IsChain fun b c => b.used ∨ c.used

/-- The start of the first free block, or the end of the region. -/
def lowestFree : ℕ → List Block → ℕ
  | p, [] => p
  | p, b :: bs => if b.used then lowestFree (p + b.size) bs else p

/-- The first free block that holds `n`. -/
def firstFit (n : ℕ) : ℕ → List Block → Option ℕ
  | _, [] => none
  | p, b :: bs => if b.used = false ∧ n ≤ b.size then some p else firstFit n (p + b.size) bs

/-- The address lies in a block that is in use. -/
def InUse (p : ℕ) (bs : List Block) (a : ℕ) : Prop :=
  ∃ x ∈ placed p bs, x.2.used ∧ x.1 ≤ a ∧ a < x.1 + x.2.size

variable {p n : ℕ} {b c : Block} {bs cs : List Block}

@[simp] theorem total_nil : total [] = 0 := rfl

@[simp] theorem total_cons (b : Block) (bs : List Block) :
    total (b :: bs) = b.size + total bs := by simp [total]

@[simp] theorem total_append (bs cs : List Block) : total (bs ++ cs) = total bs + total cs := by
  simp [total]

@[simp] theorem placed_nil (p : ℕ) : placed p [] = [] := rfl

@[simp] theorem placed_cons (p : ℕ) (b : Block) (bs : List Block) :
    placed p (b :: bs) = (p, b) :: placed (p + b.size) bs := rfl

theorem placed_append (p : ℕ) (bs cs : List Block) :
    placed p (bs ++ cs) = placed p bs ++ placed (p + total bs) cs := by
  induction bs generalizing p with
  | nil => simp
  | cons b bs ih => simp [ih, Nat.add_assoc]

theorem bounds_of_mem_placed {x : ℕ × Block} (hx : x ∈ placed p bs) :
    p ≤ x.1 ∧ x.1 + x.2.size ≤ p + total bs := by
  induction bs generalizing p with
  | nil => simp at hx
  | cons b bs ih =>
    rw [placed_cons, List.mem_cons] at hx
    rw [total_cons]
    obtain rfl | hx := hx
    · simp only
      omega
    · have := ih hx
      omega

theorem block_of_mem_placed {x : ℕ × Block} (hx : x ∈ placed p bs) : x.2 ∈ bs := by
  induction bs generalizing p with
  | nil => simp at hx
  | cons b bs ih =>
    rw [placed_cons, List.mem_cons] at hx
    obtain rfl | hx := hx
    · exact List.mem_cons_self
    · exact List.mem_cons_of_mem b (ih hx)

theorem exists_mem_placed (p : ℕ) (hb : b ∈ bs) : ∃ o, (o, b) ∈ placed p bs := by
  induction bs generalizing p with
  | nil => simp at hb
  | cons c bs ih =>
    obtain rfl | hb := List.mem_cons.mp hb
    · exact ⟨p, List.mem_cons_self⟩
    · obtain ⟨o, ho⟩ := ih (p + c.size) hb
      exact ⟨o, List.mem_cons_of_mem _ ho⟩

/-- A block that starts at the given place cuts the list in two. -/
theorem exists_split_of_mem_placed {o : ℕ} (hx : (o, b) ∈ placed p bs) :
    ∃ pre post, bs = pre ++ b :: post ∧ o = p + total pre := by
  induction bs generalizing p with
  | nil => simp at hx
  | cons c bs ih =>
    rw [placed_cons, List.mem_cons, Prod.mk.injEq] at hx
    obtain ⟨rfl, rfl⟩ | hx := hx
    · exact ⟨[], bs, rfl, rfl⟩
    · obtain ⟨pre, post, rfl, rfl⟩ := ih hx
      exact ⟨c :: pre, post, rfl, by rw [total_cons]; omega⟩

/-- Two free neighbours and the block that they make have the same blocks in use. -/
theorem mem_placed_join {x : ℕ × Block} (hb : b.used = false) (hc : c.used = false)
    (hx : x.2.used = true) : x ∈ placed p (bs ++ ⟨b.size + c.size, false⟩ :: cs) ↔
      x ∈ placed p (bs ++ b :: c :: cs) := by
  have hne (q : ℕ) (d : Block) (hd : d.used = false) : x ≠ (q, d) := by
    rintro rfl
    simp [hd] at hx
  simp only [placed_append, placed_cons, List.mem_append, List.mem_cons, hne _ _ hb, hne _ _ hc,
    hne _ ⟨b.size + c.size, false⟩ rfl, false_or, Nat.add_assoc]

/-- The other blocks start somewhere else. -/
theorem mem_placed_ne_start {x : ℕ × Block} (hpos : ∀ d ∈ bs ++ b :: cs, 0 < d.size) :
    x ∈ placed p (bs ++ b :: cs) ∧ x.1 ≠ p + total bs ↔
      x ∈ placed p bs ∨ x ∈ placed (p + total bs + b.size) cs := by
  have hb := hpos b (by simp)
  rw [placed_append, placed_cons, List.mem_append, List.mem_cons]
  constructor
  · rintro ⟨hx | rfl | hx, hne⟩
    · exact .inl hx
    · exact absurd rfl hne
    · exact .inr hx
  · rintro (hx | hx)
    · have := (bounds_of_mem_placed hx).2
      have := hpos x.2 (by simp [block_of_mem_placed hx])
      exact ⟨.inl hx, by omega⟩
    · have := (bounds_of_mem_placed hx).1
      exact ⟨.inr (.inr hx), by omega⟩

theorem placed_pairwise (p : ℕ) (bs : List Block) :
    (placed p bs).Pairwise fun x y => x.1 + x.2.size ≤ y.1 := by
  induction bs generalizing p with
  | nil => exact List.Pairwise.nil
  | cons b bs ih =>
    rw [placed_cons, List.pairwise_cons]
    exact ⟨fun y hy => (bounds_of_mem_placed hy).1, ih _⟩

/-- Two blocks are one or lie apart. -/
theorem eq_or_apart {x y : ℕ × Block} (hx : x ∈ placed p bs) (hy : y ∈ placed p bs) :
    x = y ∨ x.1 + x.2.size ≤ y.1 ∨ y.1 + y.2.size ≤ x.1 := by
  obtain ⟨i, hi, rfl⟩ := List.getElem_of_mem hx
  obtain ⟨j, hj, rfl⟩ := List.getElem_of_mem hy
  have hall := List.pairwise_iff_getElem.mp (placed_pairwise p bs)
  obtain hij | rfl | hij := lt_trichotomy i j
  · exact .inr (.inl (hall i j hi hj hij))
  · exact .inl rfl
  · exact .inr (.inr (hall j i hj hi hij))

@[simp] theorem coalesced_nil : Coalesced [] := List.IsChain.nil

theorem coalesced_cons_cons :
    Coalesced (b :: c :: bs) ↔ (b.used ∨ c.used) ∧ Coalesced (c :: bs) :=
  List.isChain_cons_cons

theorem Coalesced.tail (h : Coalesced (b :: bs)) : Coalesced bs := List.IsChain.tail h

theorem coalesced_split :
    Coalesced (bs ++ b :: cs) ↔ Coalesced (bs ++ [b]) ∧ Coalesced (b :: cs) :=
  List.isChain_split

theorem Coalesced.last_mono (huse : b.used → c.used) (h : Coalesced (bs ++ [b])) :
    Coalesced (bs ++ [c]) := by
  rw [Coalesced, List.isChain_append] at h ⊢
  refine ⟨h.1, List.isChain_singleton c, fun x hx y hy => ?_⟩
  obtain rfl : c = y := by simpa using hy
  exact (h.2.2 x hx b (by simp)).imp id huse

theorem Coalesced.head_mono (huse : b.used → c.used) (h : Coalesced (b :: bs)) :
    Coalesced (c :: bs) := by
  cases bs with
  | nil => exact List.isChain_singleton c
  | cons d bs =>
    rw [coalesced_cons_cons] at h ⊢
    exact ⟨h.1.imp huse id, h.2⟩

theorem Coalesced.init (h : Coalesced (bs ++ cs)) : Coalesced bs :=
  (List.isChain_append.mp h).1

/-! ### Free blocks and gaps -/

theorem lowestFree_append (h : ∀ b ∈ bs, b.used) :
    lowestFree p (bs ++ cs) = lowestFree (p + total bs) cs := by
  induction bs generalizing p with
  | nil => rfl
  | cons b bs ih =>
    rw [List.forall_mem_cons] at h
    rw [List.cons_append, lowestFree, if_pos h.1, ih h.2, total_cons, Nat.add_assoc]

theorem lowestFree_append_of_free (h : ∃ b ∈ bs, b.used = false) :
    lowestFree p (bs ++ cs) = lowestFree p bs := by
  induction bs generalizing p with
  | nil => simp at h
  | cons b bs ih =>
    rw [List.cons_append, lowestFree, lowestFree]
    split
    · rename_i hb
      obtain ⟨d, hd, hfree⟩ := h
      obtain rfl | hd := List.mem_cons.mp hd
      · simp [hfree] at hb
      · exact ih ⟨d, hd, hfree⟩
    · rfl

/-- What follows the first free block does not matter. -/
theorem lowestFree_congr {ds : List Block} (hb : b.used = false) (hc : c.used = false) :
    lowestFree p (bs ++ b :: cs) = lowestFree p (bs ++ c :: ds) := by
  induction bs generalizing p with
  | nil => simp [lowestFree, hb, hc]
  | cons d bs ih => simp [lowestFree, ih]

theorem lowestFree_le_of_free (hb : b.used = false) :
    lowestFree p (bs ++ b :: cs) ≤ p + total bs := by
  induction bs generalizing p with
  | nil => simp [lowestFree, hb]
  | cons d bs ih =>
    rw [List.cons_append, lowestFree, total_cons]
    split
    · have := ih (p := p + d.size)
      omega
    · omega

theorem lowestFree_le (p : ℕ) (bs : List Block) :
    p ≤ lowestFree p bs ∧ lowestFree p bs ≤ p + total bs := by
  induction bs generalizing p with
  | nil => exact ⟨le_rfl, le_rfl⟩
  | cons b bs ih =>
    rw [lowestFree, total_cons]
    split
    · have := ih (p + b.size)
      omega
    · omega

theorem lowestFree_lt (hfree : ∃ b ∈ bs, b.used = false) (hpos : ∀ b ∈ bs, 0 < b.size) :
    lowestFree p bs < p + total bs := by
  induction bs generalizing p with
  | nil => simp at hfree
  | cons b bs ih =>
    rw [List.forall_mem_cons] at hpos
    rw [lowestFree, total_cons]
    split
    · rename_i hb
      obtain ⟨d, hd, hused⟩ := hfree
      obtain rfl | hd := List.mem_cons.mp hd
      · simp [hused] at hb
      · have := ih (p := p + b.size) ⟨d, hd, hused⟩ hpos.2
        omega
    · have := hpos.1
      omega

theorem exists_split_lowestFree (p : ℕ) (bs : List Block) :
    ∃ us cs, bs = us ++ cs ∧ (∀ b ∈ us, b.used) ∧ lowestFree p bs = p + total us := by
  induction bs generalizing p with
  | nil => exact ⟨[], [], rfl, by simp, rfl⟩
  | cons b bs ih =>
    rw [lowestFree]
    split
    · rename_i hb
      obtain ⟨us, cs, rfl, hall, hlow⟩ := ih (p + b.size)
      refine ⟨b :: us, cs, rfl, List.forall_mem_cons.mpr ⟨hb, hall⟩, ?_⟩
      rw [hlow, total_cons, Nat.add_assoc]
    · exact ⟨[], b :: bs, rfl, by simp, rfl⟩

theorem firstFit_append_of_used (h : ∀ b ∈ bs, b.used) :
    firstFit n p (bs ++ cs) = firstFit n (p + total bs) cs := by
  induction bs generalizing p with
  | nil => rfl
  | cons b bs ih =>
    rw [List.forall_mem_cons] at h
    rw [List.cons_append, firstFit, if_neg (by simp [h.1]), ih h.2, total_cons, Nat.add_assoc]

theorem firstFit_eq_none : firstFit n p bs = none ↔ ∀ b ∈ bs, b.used = false → b.size < n := by
  induction bs generalizing p with
  | nil => simp [firstFit]
  | cons b bs ih =>
    rw [firstFit, List.forall_mem_cons]
    split
    · rename_i hb
      simp [hb]
    · rename_i hb
      rw [ih]
      constructor
      · exact fun h => ⟨fun hfree => by_contra fun hn => hb ⟨hfree, by omega⟩, h⟩
      · exact fun h => h.2

theorem firstFit_eq_some {o : ℕ} (h : firstFit n p bs = some o) :
    ∃ pre b post, bs = pre ++ b :: post ∧ b.used = false ∧ n ≤ b.size ∧ o = p + total pre := by
  induction bs generalizing p with
  | nil => simp [firstFit] at h
  | cons b bs ih =>
    rw [firstFit] at h
    split at h
    · rename_i hb
      exact ⟨[], b, bs, rfl, hb.1, hb.2, (Option.some.inj h).symm⟩
    · obtain ⟨pre, c, post, rfl, hc, hn, rfl⟩ := ih h
      exact ⟨b :: pre, c, post, rfl, hc, hn, by rw [total_cons]; omega⟩

/-- Room in one piece between the blocks in use lies in one free block. -/
theorem exists_free_of_gap (hco : Coalesced bs) (hpos : ∀ b ∈ bs, 0 < b.size) (hn : 0 < n)
    {a : ℕ} (hlow : p ≤ a) (hhigh : a + n ≤ p + total bs)
    (hgap : ∀ i < n, ¬ InUse p bs (a + i)) : ∃ b ∈ bs, b.used = false ∧ n ≤ b.size := by
  induction bs generalizing p with
  | nil =>
    simp only [total_nil] at hhigh
    omega
  | cons b bs ih =>
    rw [List.forall_mem_cons] at hpos
    rw [total_cons] at hhigh
    have hrest : ∀ i < n, ¬ InUse (p + b.size) bs (a + i) :=
      fun i hi ⟨x, hx, h⟩ => hgap i hi ⟨x, List.mem_cons_of_mem _ hx, h⟩
    have hlater (hlow : p + b.size ≤ a) : ∃ c ∈ b :: bs, c.used = false ∧ n ≤ c.size := by
      obtain ⟨c, hc, h⟩ := ih hco.tail hpos.2 hlow (by omega) hrest
      exact ⟨c, List.mem_cons_of_mem b hc, h⟩
    by_cases hstart : p + b.size ≤ a
    · exact hlater hstart
    have hfree : b.used = false := by
      by_contra hused
      exact hgap 0 hn ⟨(p, b), List.mem_cons_self, by simpa using hused, by omega, by simp; omega⟩
    by_cases hend : a + n ≤ p + b.size
    · exact ⟨b, List.mem_cons_self, hfree, by omega⟩
    -- the gap goes on into the next block, which is in use
    exfalso
    cases bs with
    | nil =>
      simp only [total_nil] at hhigh
      omega
    | cons c cs =>
      have hc : c.used = true := by simpa [hfree] using (coalesced_cons_cons.mp hco).1
      have hcpos := hpos.2 c List.mem_cons_self
      refine hgap (p + b.size - a) (by omega) ⟨(p + b.size, c), ?_, hc, ?_, ?_⟩
      · exact List.mem_cons_of_mem _ List.mem_cons_self
      · simp only
        omega
      · simp only
        omega

/-- A free block is room in one piece. -/
theorem gap_of_free {x : ℕ × Block} (hx : x ∈ placed p bs) (hfree : x.2.used = false) {a : ℕ}
    (hlow : x.1 ≤ a) (hhigh : a < x.1 + x.2.size) : ¬ InUse p bs a := by
  rintro ⟨y, hy, hused, hylow, hyhigh⟩
  obtain rfl | h := eq_or_apart hx hy
  · simp [hfree] at hused
  · omega

/-- Without a block in use the region is one free block. -/
theorem eq_singleton_of_unused (hco : Coalesced bs) (hfree : ∀ b ∈ bs, b.used = false)
    (hne : bs ≠ []) : bs = [⟨total bs, false⟩] := by
  cases bs with
  | nil => exact absurd rfl hne
  | cons b bs =>
    rw [List.forall_mem_cons] at hfree
    cases bs with
    | nil =>
      obtain ⟨size, used⟩ := b
      simpa using hfree.1
    | cons c cs =>
      have := (coalesced_cons_cons.mp hco).1
      simp [hfree.1, hfree.2 c List.mem_cons_self] at this

end EthMange.Tiling
