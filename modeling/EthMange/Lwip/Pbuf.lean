import Mathlib.Tactic

/-!
# Memory and packet buffers

`Memory` is what a pointer sees: the bytes at and after it. A pbuf is a chain
of such pointers with lengths; what lies behind `len` bytes of a payload is
memory of somebody else and may hold anything.
-/

namespace EthMange

abbrev Memory := ℕ → UInt8

abbrev Bytes := List UInt8

namespace Memory

def read (m : Memory) (off len : ℕ) : Bytes := (List.range len).map fun k => m (off + k)

/-- `memcpy(&m[off], src, len)`. -/
def memcpy (m : Memory) (off : ℕ) (src : Memory) (len : ℕ) : Memory :=
  fun a => if off ≤ a ∧ a < off + len then src (a - off) else m a

/-- Memory that starts with the given bytes and is zero after them. -/
def ofBytes (bs : Bytes) : Memory := fun a => bs.getD a 0

@[simp] theorem read_length (m : Memory) (off len : ℕ) : (m.read off len).length = len := by
  simp [read]

@[simp] theorem read_zero (m : Memory) (off : ℕ) : m.read off 0 = [] := rfl

theorem read_add (m : Memory) (off k l : ℕ) :
    m.read off (k + l) = m.read off k ++ m.read (off + k) l := by
  simp only [read, List.range_add, List.map_append, List.map_map, Nat.add_assoc]
  rfl

theorem read_succ (m : Memory) (off n : ℕ) :
    m.read off (n + 1) = m off :: m.read (off + 1) n := by
  rw [Nat.add_comm, read_add]
  rfl

theorem read_prefix (m : Memory) (off : ℕ) {k n : ℕ} (h : k ≤ n) :
    m.read off k <+: m.read off n := by
  obtain ⟨l, rfl⟩ := Nat.exists_eq_add_of_le h
  rw [read_add]
  exact List.prefix_append _ _

theorem mem_read (m : Memory) {off n a : ℕ} (hlow : off ≤ a) (hhigh : a < off + n) :
    m a ∈ m.read off n :=
  List.mem_map.mpr ⟨a - off, List.mem_range.mpr (by omega), congrArg m (by omega)⟩

theorem read_congr {m m' : Memory} {off len : ℕ}
    (h : ∀ a, off ≤ a → a < off + len → m a = m' a) : m.read off len = m'.read off len := by
  refine List.map_congr_left fun k hk => ?_
  have hk := List.mem_range.mp hk
  exact h _ (Nat.le_add_right _ _) (by omega)

theorem memcpy_inside (m : Memory) (off : ℕ) (src : Memory) {len k : ℕ} (h : k < len) :
    m.memcpy off src len (off + k) = src k := by
  have hin : off ≤ off + k ∧ off + k < off + len := by omega
  simp only [memcpy, hin, and_self, if_true, Nat.add_sub_cancel_left]

theorem memcpy_outside (m : Memory) (src : Memory) {off len a : ℕ}
    (h : a < off ∨ off + len ≤ a) : m.memcpy off src len a = m a := by
  have hout : ¬ (off ≤ a ∧ a < off + len) := by omega
  simp only [memcpy, hout, if_false]

theorem read_memcpy (m : Memory) (off : ℕ) (src : Memory) (len : ℕ) :
    (m.memcpy off src len).read off len = src.read 0 len := by
  refine List.map_congr_left fun k hk => ?_
  have hk := List.mem_range.mp hk
  rw [memcpy_inside _ _ _ hk, Nat.zero_add]

theorem read_memcpy_append (m : Memory) (l : ℕ) (src : Memory) (len : ℕ) :
    (m.memcpy l src len).read 0 (l + len) = m.read 0 l ++ src.read 0 len := by
  have hlow : (m.memcpy l src len).read 0 l = m.read 0 l :=
    read_congr fun a _ ha => memcpy_outside _ _ (by omega)
  rw [read_add, hlow, Nat.zero_add, read_memcpy]

@[simp] theorem read_ofBytes (bs : Bytes) : (ofBytes bs).read 0 bs.length = bs := by
  refine List.ext_getElem (by simp) fun k _ hk => ?_
  simp [read, ofBytes, hk]

end Memory

-- the bytes of a C string with its NUL
def stringBytes (s : String) : Bytes := (s.toList.map fun c => UInt8.ofNat c.toNat) ++ [0]

/-- One `struct pbuf` of a chain: the memory at `payload` and `len`. -/
structure PbufSeg where
  payload : Memory
  len : ℕ

def PbufSeg.bytes (q : PbufSeg) : Bytes := q.payload.read 0 q.len

@[simp] theorem PbufSeg.bytes_length (q : PbufSeg) : q.bytes.length = q.len := by
  simp [bytes]

/-- A chain of pbufs. The 16-bit `tot_len` of its head is the sum of the
lengths, so the sum is below `2^16`. -/
structure Pbuf where
  head : PbufSeg
  next : List PbufSeg
  tot_lt : (head.len + (next.map PbufSeg.len).sum) < 2 ^ 16

namespace Pbuf

-- `p->payload`, `p->len` and `p->tot_len`
def payload (p : Pbuf) : Memory := p.head.payload

def len (p : Pbuf) : ℕ := p.head.len

def totLen (p : Pbuf) : ℕ := p.head.len + (p.next.map PbufSeg.len).sum

def chain (p : Pbuf) : List PbufSeg := p.head :: p.next

def bytes (p : Pbuf) : Bytes := p.chain.flatMap PbufSeg.bytes

def single (bs : Bytes) (h : bs.length < 2 ^ 16) : Pbuf where
  head := ⟨Memory.ofBytes bs, bs.length⟩
  next := []
  tot_lt := by simpa using h

theorem len_lt (p : Pbuf) : p.len < 2 ^ 16 := lt_of_le_of_lt (Nat.le_add_right _ _) p.tot_lt

theorem totLen_eq_sum (p : Pbuf) : p.totLen = (p.chain.map PbufSeg.len).sum := by
  simp [totLen, chain]

theorem bytes_length (p : Pbuf) : p.bytes.length = p.totLen := by
  rw [totLen_eq_sum, bytes, List.length_flatMap]
  simp

/-- The bytes of the first pbuf are the first bytes of the chain. -/
theorem bytes_eq_read (p : Pbuf) {n : ℕ} (h : n ≤ p.len) :
    ∃ rest, p.bytes = p.payload.read 0 n ++ rest := by
  have hhead : p.head.bytes = p.payload.read 0 n ++ p.payload.read n (p.len - n) := by
    have hlen : p.head.len = n + (p.len - n) := (Nat.add_sub_cancel' h).symm
    rw [PbufSeg.bytes, hlen, Memory.read_add, Nat.zero_add]
    rfl
  refine ⟨p.payload.read n (p.len - n) ++ p.next.flatMap PbufSeg.bytes, ?_⟩
  rw [bytes, chain, List.flatMap_cons, hhead, List.append_assoc]

theorem take_bytes (p : Pbuf) {n : ℕ} (h : n ≤ p.len) : p.bytes.take n = p.payload.read 0 n := by
  obtain ⟨rest, hbytes⟩ := p.bytes_eq_read h
  rw [hbytes, List.take_left' (Memory.read_length _ _ _)]

end Pbuf

-- `err_t`
inductive Err
  | ok | mem | buf | timeout | rte | abrt | rst | clsd | conn | val | arg | use | netif
  | isconn | inprogress
  deriving DecidableEq, Repr

end EthMange
