import EthMange.Lib.Run
import EthMange.Lwip.MemRealloc

/-!
# Runs of the heap

The callers take blocks, write to the bytes that they asked for, shrink the blocks and give
them back, in any order. Along every such run the blocks lie apart and keep what was written
to them; `mem_malloc` fails only where there is no room in one piece; and when all blocks are
given back the heap is as it was at first.
-/

namespace EthMange.Lwip

open Tiling Run Heap

/-- A block that a caller holds: the size that it asked for, and what it has written there. -/
structure Holding where
  size : ℕ
  bytes : ℕ → UInt8

structure HeapState where
  heap : Heap
  held : ℕ → Option Holding

inductive HeapEvent
  | malloc (size : ℕ)
  | free (rmem : ℕ)
  | realloc (rmem newsize : ℕ)
  | write (rmem off : ℕ) (value : UInt8)
  deriving DecidableEq, Repr

namespace HeapState

def start (ram : Memory) : HeapState := ⟨Heap.memInit ram, fun _ => none⟩

/-- What the callers may do: they give back and shrink what they hold, and write inside it.
A request of more than 65532 bytes, which the rounding of `mem_malloc` would wrap, is not
made. -/
def Allowed (st : HeapState) : HeapEvent → Prop
  | .malloc size => size ≤ 65532
  | .free rmem => (st.held rmem).isSome
  | .realloc rmem newsize => ∃ g ∈ st.held rmem, newsize ≤ g.size
  | .write rmem off _ => ∃ g ∈ st.held rmem, off < g.size

instance (st : HeapState) : (e : HeapEvent) → Decidable (st.Allowed e)
  | .malloc size => inferInstanceAs (Decidable (size ≤ 65532))
  | .free rmem => inferInstanceAs (Decidable ((st.held rmem).isSome = true))
  | .realloc rmem newsize => inferInstanceAs (Decidable (∃ g ∈ st.held rmem, newsize ≤ g.size))
  | .write rmem off _ => inferInstanceAs (Decidable (∃ g ∈ st.held rmem, off < g.size))

def step (st : HeapState) (e : HeapEvent) : Option HeapState :=
  if st.Allowed e then
    match e with
    | .malloc size =>
      (st.heap.memMalloc size).map fun (h, rmem) =>
        ⟨h, match rmem with
          | some p => Function.update st.held p (some ⟨size, fun i => h.ram (p + i)⟩)
          | none => st.held⟩
    | .free rmem => some ⟨st.heap.memFree (some rmem), Function.update st.held rmem none⟩
    | .realloc rmem newsize =>
      match st.heap.memRealloc rmem newsize with
      | (h, some p) =>
        some ⟨h, Function.update st.held p ((st.held p).map fun g => { g with size := newsize })⟩
      | (h, none) => some ⟨h, st.held⟩
    | .write rmem off value =>
      some ⟨{ st.heap with ram := Function.update st.heap.ram (rmem + off) value },
        Function.update st.held rmem
          ((st.held rmem).map fun g => { g with bytes := Function.update g.bytes off value })⟩
  else none

/-- The blocks that are held are aligned, lie in the heap and apart from each other, and
have the bytes that were written there. -/
structure Safe (st : HeapState) : Prop where
  aligned : ∀ p g, st.held p = some g → 4 ∣ p
  inside : ∀ p g, st.held p = some g → sizeofStructMem ≤ p ∧ p + g.size ≤ memSizeAligned
  apart : ∀ p q g k, st.held p = some g → st.held q = some k → p ≠ q →
    p + g.size ≤ q ∨ q + k.size ≤ p
  kept : ∀ p g, st.held p = some g → ∀ i < g.size, st.heap.ram (p + i) = g.bytes i

/-- The address lies in a block that is held, or in the struct in front of it. -/
def Occupied (st : HeapState) (a : ℕ) : Prop :=
  ∃ p, (st.held p).isSome ∧ p - sizeofStructMem ≤ a ∧ a < st.heap.next (p - sizeofStructMem)

/-- `HeapInv` ties the blocks in use to those that are held. -/
structure Inv (st : HeapState) (bs : List Block) : Prop where
  represents : st.heap.Represents bs
  coalesced : Coalesced bs
  held_mem : ∀ p g, st.held p = some g → ∃ o b, p = o + sizeofStructMem ∧ (o, b) ∈ placed 0 bs ∧
    b.used = true ∧ roundSize g.size + sizeofStructMem ≤ b.size ∧ g.size ≤ 65532 ∧
      ∀ i < g.size, st.heap.ram (p + i) = g.bytes i
  used_held : ∀ x ∈ placed 0 bs, x.2.used = true → (st.held (x.1 + sizeofStructMem)).isSome

variable {st st' : HeapState} {bs : List Block} {p o s : ℕ} {b : Block}

theorem represents_memInit (ram : Memory) :
    (memInit ram).Represents [⟨memSizeAligned, false⟩] := by
  have hsize : memSizeAligned = 20480 := rfl
  set h := ((((⟨ram, 0⟩ : Heap).setNext 0 memSizeAligned).setPrev 0 0).setUsed 0 false) with hh
  have hsame : SameAt h (memInit ram) 0 := fun i hi => by
    rw [memInit, ram_setPrev (by omega), ram_setNext (by omega), ram_setUsed (by omega)]
  refine ⟨⟨⟨?_, ?_, ?_⟩, trivial⟩, rfl, ?_, ?_, ?_, rfl⟩
  · rw [hsame.next, hh, next_setUsed, next_setPrev, next_setNext _ _ (by omega), Nat.zero_add]
  · rw [hsame.prev, hh, prev_setUsed, prev_setPrev _ _ (by omega)]
  · rw [hsame.used, hh, used_setUsed]
  · simp [sizeofStructMem, minSizeAligned, hsize]
  · simp [hsize]
  · rw [memInit, used_setPrev, used_setNext, used_setUsed]

theorem inv_start (ram : Memory) : (start ram).Inv [⟨memSizeAligned, false⟩] where
  represents := represents_memInit ram
  coalesced := List.isChain_singleton _
  held_mem p g hg := by simp [start] at hg
  used_held x hx hused := by
    rw [placed_cons, placed_nil, List.mem_singleton] at hx
    simp [hx] at hused

/-- The blocks that are held keep their bytes in a heap that keeps those of their blocks. -/
theorem Inv.data_in_block {g : Holding} (hb : roundSize g.size + sizeofStructMem ≤ b.size)
    (hg : g.size ≤ 65532) {i : ℕ} (hi : i < g.size) :
    o + sizeofStructMem ≤ o + sizeofStructMem + i ∧ o + sizeofStructMem + i < o + b.size := by
  have := le_roundSize hg
  omega

theorem Inv.malloc (hi : st.Inv bs) {size : ℕ} (hsize : size ≤ 65532) :
    ∃ st', st.step (.malloc size) = some st' ∧ ∃ bs', st'.Inv bs' := by
  have hallowed : st.Allowed (.malloc size) := hsize
  rw [step, if_pos hallowed]
  obtain ⟨hnone, -⟩ | ⟨-, h', o, s, bs', hsome, hs, hgr⟩ :=
    hi.represents.memMalloc hi.coalesced size
  · simp only [hnone, Option.map_some]
    exact ⟨_, rfl, bs, hi⟩
  simp only [hsome, Option.map_some]
  refine ⟨_, rfl, bs', hgr.represents, hgr.coalesced, fun p g hg => ?_, fun x hx hused => ?_⟩
  · dsimp only at hg ⊢
    by_cases hp : p = o + sizeofStructMem
    · subst hp
      rw [Function.update_self, Option.some.injEq] at hg
      subst hg
      exact ⟨o, ⟨s, true⟩, rfl, (hgr.used_iff _ rfl).mpr (.inr rfl), rfl, hs, hsize, fun _ _ => rfl⟩
    · rw [Function.update_of_ne hp] at hg
      obtain ⟨q, b, rfl, hmem, hb, hround, hle, hkept⟩ := hi.held_mem p g hg
      refine ⟨q, b, rfl, (hgr.used_iff _ hb).mpr (.inl hmem), hb, hround, hle, fun i hlt => ?_⟩
      obtain ⟨hlow, hhigh⟩ := Inv.data_in_block (o := q) hround hle hlt
      rw [hgr.keeps _ hmem hb _ hlow hhigh, hkept i hlt]
  · dsimp only
    by_cases hp : x.1 + sizeofStructMem = o + sizeofStructMem
    · rw [hp, Function.update_self]
      rfl
    · rw [Function.update_of_ne hp]
      obtain hmem | rfl := (hgr.used_iff x hused).mp hx
      · exact hi.used_held x hmem hused
      · exact absurd rfl hp

/-- The block of what is held. -/
theorem Inv.split (hi : st.Inv bs) {g : Holding} (hg : st.held p = some g) :
    ∃ pre b post, bs = pre ++ b :: post ∧ p = total pre + sizeofStructMem ∧ b.used = true ∧
      roundSize g.size + sizeofStructMem ≤ b.size ∧ g.size ≤ 65532 ∧
        ∀ i < g.size, st.heap.ram (p + i) = g.bytes i := by
  obtain ⟨o, b, rfl, hmem, hb, hround, hle, hkept⟩ := hi.held_mem p g hg
  obtain ⟨pre, post, rfl, rfl⟩ := exists_split_of_mem_placed hmem
  rw [Nat.zero_add] at hkept ⊢
  exact ⟨pre, b, post, rfl, rfl, hb, hround, hle, hkept⟩

theorem Inv.free (hi : st.Inv bs) (hheld : (st.held p).isSome) :
    ∃ st', st.step (.free p) = some st' ∧ ∃ bs', st'.Inv bs' := by
  have hallowed : st.Allowed (.free p) := hheld
  obtain ⟨g, hg⟩ := Option.isSome_iff_exists.mp hheld
  obtain ⟨pre, b, post, rfl, rfl, hb, -⟩ := hi.split hg
  obtain ⟨bs', hrep, hco, hused, hkeeps⟩ := hi.represents.memFree hi.coalesced hb
  rw [step, if_pos hallowed]
  refine ⟨_, rfl, bs', hrep, hco, fun q k hk => ?_, fun x hx hxu => ?_⟩
  · dsimp only at hk ⊢
    have hq : q ≠ total pre + sizeofStructMem := by
      rintro rfl
      simp at hk
    rw [Function.update_of_ne hq] at hk
    obtain ⟨o, c, rfl, hmem, hc, hround, hle, hkept⟩ := hi.held_mem q k hk
    have hne : o ≠ total pre := fun h => hq (by rw [h])
    refine ⟨o, c, rfl, (hused _ hc).mpr ⟨hmem, hne⟩, hc, hround, hle, fun i hlt => ?_⟩
    obtain ⟨hlow, hhigh⟩ := Inv.data_in_block (o := o) hround hle hlt
    rw [hkeeps _ hmem hc hne _ hlow hhigh, hkept i hlt]
  · obtain ⟨hmem, hne⟩ := (hused x hxu).mp hx
    dsimp only
    rw [Function.update_of_ne (by omega)]
    exact hi.used_held x hmem hxu

theorem roundSize_mono {m n : ℕ} (hmn : m ≤ n) (hn : n ≤ 65532) : roundSize m ≤ roundSize n := by
  rw [roundSize_eq, roundSize_eq, memAlignSize, memAlignSize]
  omega

theorem Inv.realloc (hi : st.Inv bs) {g : Holding} (hg : st.held p = some g) {newsize : ℕ}
    (hle : newsize ≤ g.size) :
    ∃ st', st.step (.realloc p newsize) = some st' ∧ ∃ bs', st'.Inv bs' := by
  have hallowed : st.Allowed (.realloc p newsize) := ⟨g, hg, hle⟩
  obtain ⟨pre, b, post, rfl, rfl, hb, hround, hsize, hkept⟩ := hi.split hg
  have hmono := roundSize_mono hle hsize
  rw [step, if_pos hallowed]
  obtain ⟨hlt, -⟩ | ⟨-, h', s, bs', hre, hs, hsh⟩ :=
    hi.represents.memRealloc hi.coalesced hb newsize
  · omega
  simp only [hre, hg, Option.map_some]
  refine ⟨_, rfl, bs', hsh.represents, hsh.coalesced, fun q k hk => ?_, fun x hx hxu => ?_⟩
  · dsimp only at hk ⊢
    by_cases hq : q = total pre + sizeofStructMem
    · subst hq
      rw [Function.update_self, Option.some.injEq] at hk
      subst hk
      refine ⟨total pre, ⟨s, true⟩, rfl, (hsh.used_iff _ rfl).mpr (.inr rfl), rfl, hs, by
        simp only; omega, fun i hlt => ?_⟩
      simp only at hlt
      have hnew := le_roundSize (hle.trans hsize)
      rw [hsh.kept _ (by omega) (by omega), hkept i (by omega)]
    · rw [Function.update_of_ne hq] at hk
      obtain ⟨o, c, rfl, hmem, hc, hround', hle', hkept'⟩ := hi.held_mem q k hk
      have hne : o ≠ total pre := fun h => hq (by rw [h])
      refine ⟨o, c, rfl, (hsh.used_iff _ hc).mpr (.inl ⟨hmem, hne⟩), hc, hround', hle',
        fun i hlt => ?_⟩
      obtain ⟨hlow, hhigh⟩ := Inv.data_in_block (o := o) hround' hle' hlt
      rw [hsh.keeps _ hmem hc hne _ hlow hhigh, hkept' i hlt]
  · dsimp only
    by_cases hq : x.1 + sizeofStructMem = total pre + sizeofStructMem
    · rw [hq, Function.update_self]
      rfl
    · rw [Function.update_of_ne hq]
      obtain ⟨hmem, -⟩ | rfl := (hsh.used_iff x hxu).mp hx
      · exact hi.used_held x hmem hxu
      · exact absurd rfl hq

/-- A byte behind the struct of a block is not one of the structs. -/
theorem represents_write {v : UInt8} (hr : st.heap.Represents bs) (hmem : (o, b) ∈ placed 0 bs)
    {a : ℕ} (hlow : o + sizeofStructMem ≤ a) (hhigh : a < o + b.size) :
    ({ st.heap with ram := Function.update st.heap.ram a v } : Heap).Represents bs where
  linked := hr.linked.congr fun x hx i hi => by
    have := struct_apart hr.wide' hx hmem hlow hhigh
    exact Function.update_of_ne (by omega) _ _
  total_eq := hr.total_eq
  wide := hr.wide
  aligned := hr.aligned
  ending := by
    have := hr.data_lt hmem hhigh
    exact (congrArg (· != 0) (Function.update_of_ne (by omega) _ _)).trans hr.ending
  lowest := hr.lowest

theorem Inv.write (hi : st.Inv bs) {g : Holding} (hg : st.held p = some g) {off : ℕ}
    (hoff : off < g.size) (v : UInt8) :
    ∃ st', st.step (.write p off v) = some st' ∧ ∃ bs', st'.Inv bs' := by
  have hallowed : st.Allowed (.write p off v) := ⟨g, hg, hoff⟩
  obtain ⟨o, b, rfl, hmem, hb, hround, hsize, hkept⟩ := hi.held_mem p g hg
  obtain ⟨hlow, hhigh⟩ := Inv.data_in_block (o := o) hround hsize hoff
  rw [step, if_pos hallowed]
  refine ⟨_, rfl, bs, represents_write hi.represents hmem hlow hhigh, hi.coalesced,
    fun q k hk => ?_, fun x hx hxu => ?_⟩
  · dsimp only at hk ⊢
    by_cases hq : q = o + sizeofStructMem
    · subst hq
      rw [Function.update_self, hg, Option.map_some, Option.some.injEq] at hk
      subst hk
      refine ⟨o, b, rfl, hmem, hb, hround, hsize, fun i hlt => ?_⟩
      dsimp only at hlt ⊢
      by_cases heq : i = off
      · rw [heq, Function.update_self, Function.update_self]
      · rw [Function.update_of_ne (by omega), Function.update_of_ne heq]
        exact hkept i hlt
    · rw [Function.update_of_ne hq] at hk
      obtain ⟨o', c, rfl, hmem', hc, hround', hsize', hkept'⟩ := hi.held_mem q k hk
      refine ⟨o', c, rfl, hmem', hc, hround', hsize', fun i hlt => ?_⟩
      obtain ⟨hlow', hhigh'⟩ := Inv.data_in_block (o := o') hround' hsize' hlt
      rw [Function.update_of_ne, hkept' i hlt]
      -- the byte that was written lies in another block
      obtain heq | hne := eq_or_apart hmem hmem'
      · exact absurd (congrArg (fun x => x.1 + sizeofStructMem) heq.symm) hq
      · simp only at hne
        omega
  · dsimp only
    by_cases hq : x.1 + sizeofStructMem = o + sizeofStructMem
    · rw [hq, Function.update_self, hg]
      rfl
    · rw [Function.update_of_ne hq]
      exact hi.used_held x hx hxu

theorem isSome_of_update {held : ℕ → Option Holding} {g : Option Holding} {q : ℕ}
    (h : (Function.update held p g q).isSome) : (held q).isSome ∨ q = p ∧ g.isSome := by
  by_cases hq : q = p
  · rw [hq, Function.update_self] at h
    exact .inr ⟨hq, h⟩
  · rw [Function.update_of_ne hq] at h
    exact .inl h

/-- A block that is held was held before, or `mem_malloc` has just handed it out. -/
theorem held_of_step {e : HeapEvent} {q : ℕ} (hstep : st.step e = some st')
    (hq : (st'.held q).isSome) :
    (st.held q).isSome ∨
      ∃ size h, e = .malloc size ∧ st.heap.memMalloc size = some (h, some q) := by
  have hmap (p : ℕ) (f : Holding → Holding)
      (h : (Function.update st.held p ((st.held p).map f) q).isSome) : (st.held q).isSome := by
    obtain h | ⟨rfl, h⟩ := isSome_of_update h
    · exact h
    · rwa [Option.isSome_map] at h
  unfold HeapState.step at hstep
  split at hstep
  case isFalse => cases hstep
  case isTrue =>
    cases e with
    | malloc size =>
      obtain ⟨⟨h, rmem⟩, hmalloc, rfl⟩ := Option.map_eq_some_iff.mp hstep
      cases rmem with
      | none => exact .inl hq
      | some p =>
        obtain hq | ⟨rfl, -⟩ := isSome_of_update hq
        · exact .inl hq
        · exact .inr ⟨size, h, rfl, hmalloc⟩
    | free rmem =>
      obtain rfl := Option.some.inj hstep
      obtain hq | ⟨-, hnone⟩ := isSome_of_update hq
      · exact .inl hq
      · cases hnone
    | realloc rmem newsize =>
      dsimp only at hstep
      split at hstep <;> obtain rfl := Option.some.inj hstep
      · exact .inl (hmap _ _ hq)
      · exact .inl hq
    | write rmem off value =>
      obtain rfl := Option.some.inj hstep
      exact .inl (hmap _ _ hq)

theorem step_of_not_allowed {e : HeapEvent} (he : ¬ st.Allowed e) : st.step e = none :=
  if_neg he

/-- Whatever the callers may do can be done, and keeps the invariant. -/
theorem Inv.step (hi : st.Inv bs) {e : HeapEvent} (he : st.Allowed e) :
    ∃ st', st.step e = some st' ∧ ∃ bs', st'.Inv bs' := by
  cases e with
  | malloc size => exact hi.malloc he
  | free rmem => exact hi.free he
  | realloc rmem newsize =>
    obtain ⟨g, hg, hle⟩ := he
    exact hi.realloc hg hle
  | write rmem off value =>
    obtain ⟨g, hg, hoff⟩ := he
    exact hi.write hg hoff value

theorem inv_run {ram : Memory} {es : List HeapEvent}
    (hrun : run HeapState.step (start ram) es = some st) : ∃ bs, st.Inv bs := by
  refine run_invariant (I := fun st => ∃ bs, st.Inv bs) (fun s e t ⟨bs, hi⟩ hstep => ?_)
    ⟨_, inv_start ram⟩ hrun
  have he : s.Allowed e := by
    by_contra hno
    rw [step_of_not_allowed hno] at hstep
    exact absurd hstep (by simp)
  obtain ⟨t', ht', hinv⟩ := hi.step he
  exact (Option.some.inj (ht'.symm.trans hstep)) ▸ hinv

theorem Inv.safe (hi : st.Inv bs) : st.Safe where
  aligned p g hg := by
    obtain ⟨pre, b, post, rfl, rfl, -⟩ := hi.split hg
    have h4 : 4 ∣ total pre := by
      refine List.dvd_sum fun v hv => ?_
      obtain ⟨d, hd, rfl⟩ := List.mem_map.mp hv
      exact hi.represents.aligned d (by simp [hd])
    exact Nat.dvd_add h4 (by decide)
  inside p g hg := by
    obtain ⟨pre, b, post, rfl, rfl, -, hround, hsize, -⟩ := hi.split hg
    have := hi.represents.size_lt
    have := le_roundSize hsize
    omega
  apart p q g k hg hk hne := by
    obtain ⟨o, b, rfl, hmem, -, hround, hsize, -⟩ := hi.held_mem p g hg
    obtain ⟨o', c, rfl, hmem', -, hround', hsize', -⟩ := hi.held_mem q k hk
    have := le_roundSize hsize
    have := le_roundSize hsize'
    obtain heq | h := eq_or_apart hmem hmem'
    · exact absurd (congrArg (fun x => x.1 + sizeofStructMem) heq) hne
    · simp only at h
      omega
  kept p g hg := by
    obtain ⟨o, b, rfl, -, -, -, -, hkept⟩ := hi.held_mem p g hg
    exact hkept

/-- The next field of a struct says where its block ends. -/
theorem next_of_mem_placed {h : Heap} (hr : h.Represents bs) (hmem : (o, b) ∈ placed 0 bs) :
    h.next o = o + b.size := by
  obtain ⟨pre, post, rfl, rfl⟩ := exists_split_of_mem_placed hmem
  rw [Nat.zero_add]
  exact hr.split.2.1

theorem Inv.occupied_iff (hi : st.Inv bs) {a : ℕ} : st.Occupied a ↔ InUse 0 bs a := by
  constructor
  · rintro ⟨p, hheld, hlow, hhigh⟩
    obtain ⟨g, hg⟩ := Option.isSome_iff_exists.mp hheld
    obtain ⟨o, b, rfl, hmem, hb, -⟩ := hi.held_mem p g hg
    rw [Nat.add_sub_cancel] at hlow hhigh
    rw [next_of_mem_placed hi.represents hmem] at hhigh
    exact ⟨(o, b), hmem, hb, hlow, hhigh⟩
  · rintro ⟨⟨o, b⟩, hmem, hb, hlow, hhigh⟩
    refine ⟨o + sizeofStructMem, hi.used_held _ hmem hb, ?_, ?_⟩
    · rw [Nat.add_sub_cancel]
      exact hlow
    · rw [Nat.add_sub_cancel, next_of_mem_placed hi.represents hmem]
      exact hhigh

/-- In every run, whatever the callers may do next returns, and the blocks that they hold are
aligned, inside the heap, apart from each other and as they were written. -/
theorem heap_blocks_kept (ram : Memory) (es : List HeapEvent) (st : HeapState)
    (hrun : run HeapState.step (start ram) es = some st) :
    st.Safe ∧ ∀ e, st.Allowed e → (st.step e).isSome := by
  obtain ⟨bs, hi⟩ := inv_run hrun
  refine ⟨hi.safe, fun e he => ?_⟩
  obtain ⟨st', hstep, -⟩ := hi.step he
  rw [hstep]
  rfl

/-- Two blocks, a byte in the first, which is then shrunk so that the rest of it is given to
a third: the byte is still there. -/
theorem heap_blocks_kept_shrunk_block :
    ∃ st, run HeapState.step (start fun _ => 0) [.malloc 100, .malloc 40, .write 8 5 7,
        .realloc 8 50, .malloc 20, .free 116] = some st ∧ st.heap.ram 13 = 7 ∧
      st.Safe ∧ ∀ e, st.Allowed e → (st.step e).isSome := by
  have hram : (run HeapState.step (start fun _ => 0) [.malloc 100, .malloc 40, .write 8 5 7,
      .realloc 8 50, .malloc 20, .free 116]).map (fun st => st.heap.ram 13) = some 7 := by
    decide +kernel
  obtain ⟨st, hst, hbyte⟩ := Option.map_eq_some_iff.mp hram
  exact ⟨st, hst, hbyte, heap_blocks_kept _ _ st hst⟩

/-- In every state that is reached, `mem_malloc` finds no block exactly where the heap has
no room in one piece for the bytes and their struct. -/
theorem malloc_fails_iff_no_room (ram : Memory) (es : List HeapEvent) (st : HeapState)
    (hrun : run HeapState.step (start ram) es = some st) (size : ℕ) (hsize : 0 < size) :
    st.heap.memMalloc size = some (st.heap, none) ↔
      ∀ a, a + (roundSize size + sizeofStructMem) ≤ memSizeAligned →
        ∃ i < roundSize size + sizeofStructMem, st.Occupied (a + i) := by
  obtain ⟨bs, hi⟩ := inv_run hrun
  have hn : 0 < roundSize size + sizeofStructMem := by
    have := roundSize_ge size
    simp only [minSizeAligned] at this
    omega
  constructor
  · intro hnone a ha
    by_contra hfree
    have hgap : ∀ i < roundSize size + sizeofStructMem, ¬ InUse 0 bs (a + i) := by
      intro i hlt huse
      exact hfree ⟨i, hlt, hi.occupied_iff.mpr huse⟩
    obtain ⟨b, hb, hbfree, hle⟩ := exists_free_of_gap hi.coalesced hi.represents.positive hn
      (Nat.zero_le a) (by rw [hi.represents.total_eq]; omega) hgap
    obtain ⟨-, h0 | hall⟩ | ⟨-, h', o, s, bs', hsome, -⟩ :=
      hi.represents.memMalloc hi.coalesced size
    · omega
    · have := hall b hb hbfree
      omega
    · rw [hnone] at hsome
      simp at hsome
  · intro hall
    obtain ⟨hnone, -⟩ | ⟨-, h', o, s, bs', -, hs, hgr⟩ :=
      hi.represents.memMalloc hi.coalesced size
    · exact hnone
    · -- the block that it took was room
      exfalso
      obtain ⟨b, hmem, hbfree, hle⟩ := hgr.free
      have hend := (bounds_of_mem_placed hmem).2
      rw [hi.represents.total_eq] at hend
      dsimp only at hend
      obtain ⟨i, hlt, hocc⟩ := hall o (by omega)
      exact gap_of_free hmem hbfree (by simp only; omega) (by simp only; omega)
        (hi.occupied_iff.mp hocc)

theorem malloc_fails_iff_no_room_almost_full :
    ∃ st, run HeapState.step (start fun _ => 0) [.malloc 20000] = some st ∧
      (st.heap.memMalloc 1000 = some (st.heap, none) ↔
        ∀ a, a + (roundSize 1000 + sizeofStructMem) ≤ memSizeAligned →
          ∃ i < roundSize 1000 + sizeofStructMem, st.Occupied (a + i)) := by
  have hsome : (run HeapState.step (start fun _ => 0) [.malloc 20000]).isSome = true := by
    decide +kernel
  obtain ⟨st, hst⟩ := Option.isSome_iff_exists.mp hsome
  exact ⟨st, hst, malloc_fails_iff_no_room _ _ st hst 1000 (by decide)⟩

/-- When everything is given back, the heap is one free block again. -/
theorem heap_restored (ram : Memory) (es : List HeapEvent) (st : HeapState)
    (hrun : run HeapState.step (start ram) es = some st) (hheld : ∀ p, st.held p = none) :
    st.heap.next 0 = memSizeAligned ∧ st.heap.prev 0 = 0 ∧ st.heap.used 0 = false ∧
      st.heap.lfree = 0 := by
  obtain ⟨bs, hi⟩ := inv_run hrun
  have hfree : ∀ b ∈ bs, b.used = false := fun b hb => by
    by_contra hused
    obtain ⟨o, hmem⟩ := exists_mem_placed 0 hb
    have := hi.used_held _ hmem (by simpa using hused)
    rw [hheld] at this
    simp at this
  have hne : bs ≠ [] := by
    rintro rfl
    exact absurd hi.represents.total_eq (by decide)
  have hbs := eq_singleton_of_unused hi.coalesced hfree hne
  rw [hi.represents.total_eq] at hbs
  subst hbs
  obtain ⟨⟨⟨hnext, hprev, hused⟩, -⟩, -, -, -, -, hlow⟩ := hi.represents
  exact ⟨by rw [hnext, Nat.zero_add], hprev, hused, hlow⟩

theorem heap_restored_shrunk_block :
    ∃ st, run HeapState.step (start fun _ => 0)
        [.malloc 100, .write 8 3 7, .realloc 8 40, .free 8] = some st ∧
      st.heap.next 0 = memSizeAligned ∧ st.heap.prev 0 = 0 ∧ st.heap.used 0 = false ∧
        st.heap.lfree = 0 := by
  have hmalloc : ((start fun _ => 0).heap.memMalloc 100).map Prod.snd = some (some 8) := by
    decide +kernel
  have hfree : (run HeapState.step (start fun _ => 0)
      [.malloc 100, .write 8 3 7, .realloc 8 40, .free 8]).map (fun st => (st.held 8).isSome) =
        some false := by
    decide +kernel
  obtain ⟨st, hst, hnone⟩ := Option.map_eq_some_iff.mp hfree
  refine ⟨st, hst, heap_restored _ _ st hst fun p => ?_⟩
  by_contra hp
  have hheld := Option.isSome_iff_ne_none.mpr hp
  -- what is held at the end was handed out by the one mem_malloc, which gave the block at 8
  simp only [run_cons, run_nil, Option.bind_eq_some_iff] at hst
  obtain ⟨s₁, h₁, s₂, h₂, s₃, h₃, s₄, h₄, hst⟩ := hst
  rw [← Option.some.inj hst] at hheld
  obtain h | ⟨_, _, he, -⟩ := held_of_step h₄ hheld
  · obtain h | ⟨_, _, he, -⟩ := held_of_step h₃ h
    · obtain h | ⟨_, _, he, -⟩ := held_of_step h₂ h
      · obtain h | ⟨_, h', he, hnew⟩ := held_of_step h₁ h
        · simp [start] at h
        · cases he
          rw [hnew, Option.map_some, Option.some.injEq] at hmalloc
          have hp8 : p = 8 := Option.some.inj hmalloc
          rw [hp8, Option.some.inj hst, hnone] at hheld
          cases hheld
      · cases he
    · cases he
  · cases he

end HeapState

end EthMange.Lwip
