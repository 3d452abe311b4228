import EthMange.Lib.Tiling
import EthMange.Lwip.Heap

/-!
# The heap

The heap is one array of bytes, cut into blocks by a `struct mem` at the start of each: the
index of the next one, the index of the one before, and whether the block is in use. A
pointer that the callers hold is the index of the first byte after such a struct.
-/

namespace EthMange.Lwip

open Tiling

/-- `MEM_SIZE_ALIGNED`, also the index of `ram_end` -/
def memSizeAligned : ℕ := 20 * 1024

/-- `SIZEOF_STRUCT_MEM` -/
def sizeofStructMem : ℕ := 8

/-- `MIN_SIZE_ALIGNED` -/
def minSizeAligned : ℕ := 12

-- a field of type `mem_size_t` at the index `a`
def word (m : Memory) (a : ℕ) : ℕ := (m a).toNat + 256 * (m (a + 1)).toNat

def putWord (m : Memory) (a v : ℕ) : Memory :=
  Function.update (Function.update m a (UInt8.ofNat v)) (a + 1) (UInt8.ofNat (v / 256))

structure Heap where
  ram : Memory
  -- `lfree`, as an index
  lfree : ℕ

namespace Heap

-- the fields of `*(struct mem *)&ram[ptr]`

def next (h : Heap) (ptr : ℕ) : ℕ := word h.ram ptr

def prev (h : Heap) (ptr : ℕ) : ℕ := word h.ram (ptr + 2)

def used (h : Heap) (ptr : ℕ) : Bool := h.ram (ptr + 4) != 0

def setNext (h : Heap) (ptr v : ℕ) : Heap := { h with ram := putWord h.ram ptr v }

def setPrev (h : Heap) (ptr v : ℕ) : Heap := { h with ram := putWord h.ram (ptr + 2) v }

def setUsed (h : Heap) (ptr : ℕ) (v : Bool) : Heap :=
  { h with ram := Function.update h.ram (ptr + 4) (if v then 1 else 0) }

def setLfree (h : Heap) (ptr : ℕ) : Heap := { h with lfree := ptr }

/-- `if (lfree == src) lfree = dst` -/
def moveLfree (h : Heap) (src dst : ℕ) : Heap :=
  if h.lfree = src then h.setLfree dst else h

/-- Combine `mem` with the unused `nmem` behind it. -/
def combine (h : Heap) (mem nmem : ℕ) : Heap :=
  let h := (h.moveLfree nmem mem).setNext mem (h.next nmem)
  h.setPrev (h.next nmem) mem

/-- `plug_holes` -/
def plugHoles (h : Heap) (mem : ℕ) : Heap :=
  let nmem := h.next mem
  let h :=
    if mem ≠ nmem ∧ h.used nmem = false ∧ nmem ≠ memSizeAligned then h.combine mem nmem else h
  let pmem := h.prev mem
  if pmem ≠ mem ∧ h.used pmem = false then h.combine pmem mem else h

/-- `mem_init`, over whatever the array holds. -/
def memInit (ram : Memory) : Heap :=
  let h := (((⟨ram, 0⟩ : Heap).setNext 0 memSizeAligned).setPrev 0 0).setUsed 0 false
  ((h.setUsed memSizeAligned true).setNext memSizeAligned memSizeAligned).setPrev
    memSizeAligned memSizeAligned

/-- `mem_free`; a null pointer is `none`. -/
def memFree (h : Heap) : Option ℕ → Heap
  | none => h
  | some rmem =>
    if memSizeAligned ≤ rmem then h
    else
      let mem := rmem - sizeofStructMem
      let h := h.setUsed mem false
      let h := if mem < h.lfree then h.setLfree mem else h
      h.plugHoles mem

/-- An unused struct is put at `ptr2`, between that at `ptr` and that at `next`. -/
def insert (h : Heap) (ptr ptr2 next : ℕ) : Heap :=
  (((h.setUsed ptr2 false).setNext ptr2 next).setPrev ptr2 ptr).setNext ptr ptr2

/-- `mem2->next->prev = mem2`, but at the end of the heap -/
def linkBack (h : Heap) (ptr2 : ℕ) : Heap :=
  if h.next ptr2 ≠ memSizeAligned then h.setPrev (h.next ptr2) ptr2 else h

/-- The size that `mem_malloc` and `mem_realloc` work with, as a `mem_size_t`. -/
def roundSize (size : ℕ) : ℕ :=
  let size := memAlignSize size % 2 ^ 16
  if size < minSizeAligned then minSizeAligned else size

/-- `mem_realloc` -/
def memRealloc (h : Heap) (rmem newsize : ℕ) : Heap × Option ℕ :=
  let newsize := roundSize newsize
  if memSizeAligned < newsize then (h, none)
  else if memSizeAligned ≤ rmem then (h, some rmem)
  else
    let ptr := rmem - sizeofStructMem
    let size := (h.next ptr + 2 ^ 16 - ptr - sizeofStructMem) % 2 ^ 16
    if size < newsize then (h, none)
    else if newsize = size then (h, some rmem)
    else
      let mem2 := h.next ptr
      let ptr2 := ptr + sizeofStructMem + newsize
      if h.used mem2 = false then
        -- the struct of the free block behind it is moved down
        let next := h.next mem2
        (((h.moveLfree mem2 ptr2).insert ptr ptr2 next).linkBack ptr2, some rmem)
      else if newsize + sizeofStructMem + minSizeAligned ≤ size then
        let h := if ptr2 < h.lfree then h.setLfree ptr2 else h
        ((h.insert ptr ptr2 (h.next ptr)).linkBack ptr2, some rmem)
      else (h, some rmem)

/-- `mem->next - (ptr + SIZEOF_STRUCT_MEM)`, an unsigned number of 32 bits. -/
def room (h : Heap) (ptr : ℕ) : ℕ :=
  (h.next ptr + 2 ^ 32 - (ptr + sizeofStructMem)) % 2 ^ 32

/-- The search of `mem_malloc`: the block, if there is one. The outer `none` says that the
number of turns did not suffice. -/
def scan (h : Heap) (size : ℕ) : ℕ → ℕ → Option (Option ℕ)
  | 0, _ => none
  | fuel + 1, ptr =>
    if ptr < memSizeAligned - size then
      if h.used ptr = false ∧ size ≤ h.room ptr then some (some ptr)
      else h.scan size fuel (h.next ptr)
    else some none

/-- `mem_malloc` takes the block that it found. -/
def take (h : Heap) (ptr size : ℕ) : Heap :=
  if size + sizeofStructMem + minSizeAligned ≤ h.room ptr then
    let ptr2 := ptr + sizeofStructMem + size
    ((h.insert ptr ptr2 (h.next ptr)).setUsed ptr true).linkBack ptr2
  else h.setUsed ptr true

/-- The loop that looks for the next free block. -/
def nextFree (h : Heap) : ℕ → ℕ → Option ℕ
  | 0, _ => none
  | fuel + 1, ptr =>
    if h.used ptr ∧ ptr ≠ memSizeAligned then h.nextFree fuel (h.next ptr) else some ptr

/-- `mem_malloc`. It makes at most as many turns in each of its loops as the heap has bytes;
`none` would say that they did not suffice. -/
def memMalloc (h : Heap) (size : ℕ) : Option (Heap × Option ℕ) :=
  if size = 0 then some (h, none)
  else
    let size := roundSize size
    if memSizeAligned < size then some (h, none)
    else
      match h.scan size memSizeAligned h.lfree with
      | none => none
      | some none => some (h, none)
      | some (some ptr) =>
        let h := h.take ptr size
        if ptr = h.lfree then
          (h.nextFree memSizeAligned h.lfree).map fun lfree =>
            (h.setLfree lfree, some (ptr + sizeofStructMem))
        else some (h, some (ptr + sizeofStructMem))

/-! ### Fields -/

/-- The struct at an index is the same in two heaps. -/
def SameAt (h h' : Heap) (ptr : ℕ) : Prop := ∀ i < 5, h'.ram (ptr + i) = h.ram (ptr + i)

variable {h h' : Heap} {p q v : ℕ}

theorem putWord_of_ne {m : Memory} {a : ℕ} (h0 : p ≠ a) (h1 : p ≠ a + 1) :
    putWord m a v p = m p := by
  rw [putWord, Function.update_of_ne h1, Function.update_of_ne h0]

theorem word_putWord (m : Memory) (a : ℕ) (hv : v < 2 ^ 16) : word (putWord m a v) a = v := by
  have hne : a ≠ a + 1 := by omega
  rw [word, putWord, Function.update_self, Function.update_of_ne hne, Function.update_self]
  simp only [UInt8.toNat_ofNat']
  omega

theorem word_congr {m m' : Memory} {a : ℕ} (h0 : m' a = m a) (h1 : m' (a + 1) = m (a + 1)) :
    word m' a = word m a := by
  rw [word, word, h0, h1]

theorem SameAt.next (hs : SameAt h h' p) : h'.next p = h.next p :=
  word_congr (hs 0 (by omega)) (hs 1 (by omega))

theorem SameAt.prev (hs : SameAt h h' p) : h'.prev p = h.prev p :=
  word_congr (hs 2 (by omega)) (hs 3 (by omega))

theorem SameAt.used (hs : SameAt h h' p) : h'.used p = h.used p := by
  rw [Heap.used, Heap.used, hs 4 (by omega)]

@[simp] theorem next_setNext (h : Heap) (p : ℕ) (hv : v < 2 ^ 16) : (h.setNext p v).next p = v :=
  word_putWord _ _ hv

@[simp] theorem prev_setNext (h : Heap) (p v : ℕ) : (h.setNext p v).prev p = h.prev p :=
  word_congr (putWord_of_ne (by omega) (by omega)) (putWord_of_ne (by omega) (by omega))

@[simp] theorem used_setNext (h : Heap) (p v : ℕ) : (h.setNext p v).used p = h.used p :=
  congrArg (· != 0) (putWord_of_ne (by omega) (by omega))

@[simp] theorem next_setPrev (h : Heap) (p v : ℕ) : (h.setPrev p v).next p = h.next p :=
  word_congr (putWord_of_ne (by omega) (by omega)) (putWord_of_ne (by omega) (by omega))

@[simp] theorem prev_setPrev (h : Heap) (p : ℕ) (hv : v < 2 ^ 16) : (h.setPrev p v).prev p = v :=
  word_putWord _ _ hv

@[simp] theorem used_setPrev (h : Heap) (p v : ℕ) : (h.setPrev p v).used p = h.used p :=
  congrArg (· != 0) (putWord_of_ne (by omega) (by omega))

@[simp] theorem next_setUsed (h : Heap) (p : ℕ) (v : Bool) : (h.setUsed p v).next p = h.next p :=
  word_congr (Function.update_of_ne (by omega) _ _) (Function.update_of_ne (by omega) _ _)

@[simp] theorem prev_setUsed (h : Heap) (p : ℕ) (v : Bool) : (h.setUsed p v).prev p = h.prev p :=
  word_congr (Function.update_of_ne (by omega) _ _) (Function.update_of_ne (by omega) _ _)

@[simp] theorem used_setUsed (h : Heap) (p : ℕ) (v : Bool) : (h.setUsed p v).used p = v := by
  simp only [used, setUsed, Function.update_self]
  cases v <;> rfl

/-- A write to the struct at `p` leaves everything else. -/
theorem ram_setNext {a : ℕ} (ha : a < p ∨ p + 8 ≤ a) : (h.setNext p v).ram a = h.ram a :=
  putWord_of_ne (by omega) (by omega)

theorem ram_setPrev {a : ℕ} (ha : a < p + 2 ∨ p + 4 ≤ a) : (h.setPrev p v).ram a = h.ram a :=
  putWord_of_ne (by omega) (by omega)

theorem ram_setUsed {b : Bool} {a : ℕ} (ha : a < p ∨ p + 8 ≤ a) :
    (h.setUsed p b).ram a = h.ram a :=
  Function.update_of_ne (by omega) _ _

@[simp] theorem ram_setLfree (h : Heap) (p : ℕ) : (h.setLfree p).ram = h.ram := rfl

@[simp] theorem lfree_setLfree (h : Heap) (p : ℕ) : (h.setLfree p).lfree = p := rfl

theorem setLfree_self (h : Heap) : h.setLfree h.lfree = h := rfl

theorem sameAt_setLfree (h : Heap) (p q : ℕ) : SameAt h (h.setLfree p) q := fun _ _ => rfl

theorem SameAt.symm (hs : SameAt h h' p) : SameAt h' h p := fun i hi => (hs i hi).symm

@[simp] theorem lfree_setNext (h : Heap) (p v : ℕ) : (h.setNext p v).lfree = h.lfree := rfl

@[simp] theorem lfree_setPrev (h : Heap) (p v : ℕ) : (h.setPrev p v).lfree = h.lfree := rfl

@[simp] theorem lfree_setUsed (h : Heap) (p : ℕ) (v : Bool) :
    (h.setUsed p v).lfree = h.lfree := rfl

@[simp] theorem lfree_insert (h : Heap) (p q v : ℕ) : (h.insert p q v).lfree = h.lfree := rfl

@[simp] theorem lfree_linkBack (h : Heap) (p : ℕ) : (h.linkBack p).lfree = h.lfree := by
  rw [linkBack]
  split <;> rfl

@[simp] theorem ram_moveLfree (h : Heap) (p q : ℕ) : (h.moveLfree p q).ram = h.ram := by
  rw [moveLfree]
  split <;> rfl

end Heap

end EthMange.Lwip
