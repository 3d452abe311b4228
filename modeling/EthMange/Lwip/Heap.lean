import EthMange.Lwip.Output

/-!
# Where the headers of a datagram are written

A pbuf in the heap is a block with its payload pointer somewhere in it. `pbuf_header`
moves the pointer down as long as the address stays above that of the block, and the
stack writes a header where it then points to.
-/

namespace EthMange.Lwip

/-- `SIZEOF_STRUCT_PBUF` -/
def sizeofStructPbuf : ℕ := 16

/-- `LWIP_MEM_ALIGN`, with `MEM_ALIGNMENT` 4. -/
def memAlign (a : UInt32) : UInt32 := ((a + 3) >>> 2) <<< 2

/-- `LWIP_MEM_ALIGN_SIZE` -/
def memAlignSize (n : ℕ) : ℕ := (n + 3) / 4 * 4

/-- The bytes that `pbuf_alloc` takes from the heap, for the room in front of the
payload that its layer needs. -/
def pbufSize (offset length : ℕ) : ℕ :=
  memAlignSize (sizeofStructPbuf + offset) + memAlignSize length

/-- A block as `mem_malloc` returns it. -/
structure HeapBlock (size : ℕ) where
  addr : UInt32
  aligned : addr.toNat % 4 = 0
  fits : addr.toNat + size ≤ 2 ^ 32

/-- A pbuf of type `PBUF_RAM`. -/
structure HeapPbuf where
  addr : UInt32
  payload : UInt32
  totLen : ℕ

/-- `pbuf_alloc` for `PBUF_RAM`, in the block that it gets. -/
def pbufAlloc {size : ℕ} (block : HeapBlock size) (offset length : ℕ) : HeapPbuf :=
  ⟨block.addr, memAlign (block.addr + UInt32.ofNat (sizeofStructPbuf + offset)), length⟩

/-- `pbuf_header` with a positive increment. -/
def HeapPbuf.pbufHeader (p : HeapPbuf) (increment : ℕ) : Option HeapPbuf :=
  if p.payload - UInt32.ofNat increment < p.addr + UInt32.ofNat sizeofStructPbuf then none
  else some { p with
    payload := p.payload - UInt32.ofNat increment
    totLen := p.totLen + increment }

/-- A block is taken from the heap, or bytes are written from an address on. -/
inductive MemEvent
  | alloc (addr : UInt32) (size : ℕ)
  | write (addr : UInt32) (len : ℕ)

/-- `len` bytes at the payload pointer. -/
def HeapPbuf.write (p : HeapPbuf) (len : ℕ) : MemEvent := .write p.payload len

/-- What `etharp_output` finds for a packet that has room for its header: it is sent;
or a request is sent and a copy of it kept; or it is dropped. -/
inductive ArpStep
  | send (err : Err)
  | query (request : Option (HeapBlock (pbufSize 0 42))) (copy : Option (HeapBlock (pbufSize 0 66)))
    (err : Err)
  | drop (err : Err)

/-- The interface and the heap as one call of `udp_send` meets them. -/
structure HeapEnv where
  route : Bool
  -- the pbuf for the headers, if they need one and there is one
  headerPbuf : Option (HeapBlock (pbufSize (sizeofEthHdr + ipHlen) udpHlen))
  arp : ArpStep

/-- `etharp_raw`, which sends a request of 42 bytes. -/
def etharpRaw : Option (HeapBlock (pbufSize 0 42)) → List MemEvent
  | some block => [.alloc block.addr (pbufSize 0 42), (pbufAlloc block 0 42).write 42]
  | none => []

/-- The copy of a packet for the queue. -/
def etharpCopy (p : HeapPbuf) : Option (HeapBlock (pbufSize 0 66)) → List MemEvent
  | some block =>
    [.alloc block.addr (pbufSize 0 p.totLen), (pbufAlloc block 0 p.totLen).write p.totLen]
  | none => []

/-- `etharp_output` -/
def HeapEnv.etharpOutput (env : HeapEnv) (p : HeapPbuf) : Err × List MemEvent :=
  match p.pbufHeader sizeofEthHdr with
  | none => (.buf, [])
  | some p =>
    match env.arp with
    | .send err => (err, [p.write sizeofEthHdr])
    | .query request copy err => (err, etharpRaw request ++ etharpCopy p copy)
    | .drop err => (err, [])

/-- `ip_output_if`, for a packet that is not over the MTU. -/
def HeapEnv.ipOutputIf (env : HeapEnv) (p : HeapPbuf) : Err × List MemEvent :=
  match p.pbufHeader ipHlen with
  | none => (.buf, [])
  | some p => ((env.etharpOutput p).1, p.write ipHlen :: (env.etharpOutput p).2)

/-- `udp_sendto_if`, for a control block that is bound to a port and to no address. -/
def HeapEnv.udpSendtoIf (env : HeapEnv) (p : HeapPbuf) : Err × List MemEvent :=
  match p.pbufHeader udpHlen with
  | none =>
    match env.headerPbuf with
    | none => (.mem, [])
    | some block =>
      -- the pbuf in front, to which that of the data is chained
      let q := { pbufAlloc block (sizeofEthHdr + ipHlen) udpHlen with totLen := udpHlen + p.totLen }
      ((env.ipOutputIf q).1,
        .alloc block.addr (pbufSize (sizeofEthHdr + ipHlen) udpHlen) :: q.write udpHlen ::
          (env.ipOutputIf q).2)
  | some p => ((env.ipOutputIf p).1, p.write udpHlen :: (env.ipOutputIf p).2)

/-- `udp_send` -/
def HeapEnv.udpSend (env : HeapEnv) (p : HeapPbuf) : Err × List MemEvent :=
  if env.route then env.udpSendtoIf p else (.rte, [])

/-! ### Inside the blocks -/

/-- The address lies in the block. -/
def Within (block : UInt32 × ℕ) (a : UInt32) : Prop := (a - block.1).toNat < block.2

/-- Every byte is written to one of the blocks, or to one that was taken from the heap
before. -/
def Contained : List (UInt32 × ℕ) → List MemEvent → Prop
  | _, [] => True
  | blocks, .alloc addr size :: events => Contained ((addr, size) :: blocks) events
  | blocks, .write addr len :: events =>
    (∀ i < len, ∃ block ∈ blocks, Within block (addr + UInt32.ofNat i)) ∧ Contained blocks events

instance (block : UInt32 × ℕ) (a : UInt32) : Decidable (Within block a) :=
  inferInstanceAs (Decidable ((a - block.1).toNat < block.2))

instance decidableContained : ∀ blocks events, Decidable (Contained blocks events)
  | _, [] => isTrue trivial
  | blocks, .alloc addr size :: events => decidableContained ((addr, size) :: blocks) events
  | blocks, .write addr len :: events =>
    haveI := decidableContained blocks events
    inferInstanceAs (Decidable ((∀ i < len, ∃ block ∈ blocks,
      Within block (addr + UInt32.ofNat i)) ∧ Contained blocks events))

/-! ### Offsets in a block -/

/-- An offset inside a block names an address in it. -/
theorem within_offset {addr : UInt32} {size k : ℕ} (hk : k < size) (hsize : size ≤ 2 ^ 32) :
    Within (addr, size) (addr + UInt32.ofNat k) := by
  show (addr + UInt32.ofNat k - addr).toNat < size
  have hoff : addr + UInt32.ofNat k - addr = UInt32.ofNat k := by
    rw [UInt32.add_comm, UInt32.add_sub_cancel]
  rw [hoff, UInt32.toNat_ofNat_of_lt' (by rw [UInt32.size]; omega)]
  exact hk

/-- Of an aligned address, what is added to it is aligned. -/
theorem memAlign_offset {a : UInt32} (ha : a.toNat % 4 = 0) (n : ℕ) :
    memAlign (a + UInt32.ofNat n) = a + UInt32.ofNat (memAlignSize n) := by
  apply UInt32.toNat_inj.mp
  rw [memAlign, memAlignSize]
  simp only [UInt32.toNat_shiftLeft, UInt32.toNat_shiftRight, UInt32.toNat_add,
    UInt32.toNat_ofNat', UInt32.reduceToNat]
  norm_num only [Nat.shiftLeft_eq, Nat.shiftRight_eq_div_pow]
  omega

/-- The bytes lie one after the other in the block from an offset on. -/
theorem writes_within {addr : UInt32} {size k len : ℕ} {blocks : List (UInt32 × ℕ)}
    (hmem : (addr, size) ∈ blocks) (hsize : size ≤ 2 ^ 32) (hlen : k + len ≤ size) :
    ∀ i < len, ∃ block ∈ blocks, Within block (addr + UInt32.ofNat k + UInt32.ofNat i) := by
  intro i hi
  have haddr : addr + UInt32.ofNat k + UInt32.ofNat i = addr + UInt32.ofNat (k + i) := by
    rw [UInt32.ofNat_add, UInt32.add_assoc]
  rw [haddr]
  exact ⟨(addr, size), hmem, within_offset (by omega) hsize⟩

namespace HeapPbuf

/-- The pbuf of the block at `addr`, its payload pointer `k` bytes into the block. -/
structure At (addr : UInt32) (k : ℕ) (p : HeapPbuf) : Prop where
  addr_eq : p.addr = addr
  payload_eq : p.payload = addr + UInt32.ofNat k

variable {addr : UInt32} {size k len : ℕ} {p : HeapPbuf} {blocks : List (UInt32 × ℕ)}

/-- With the room of a header behind the `struct pbuf`, `pbuf_header` moves the pointer
down to the header's first byte. -/
theorem At.pbufHeader (hp : p.At addr k) (hfits : addr.toNat + size ≤ 2 ^ 32)
    (hk : k ≤ size) (hlen : 0 < len) (hroom : sizeofStructPbuf + len ≤ k) :
    ∃ q : HeapPbuf, p.pbufHeader len = some q ∧ q.At addr (k - len) ∧
      q.totLen = p.totLen + len := by
  have hpayload : p.payload - UInt32.ofNat len = addr + UInt32.ofNat (k - len) := by
    rw [hp.payload_eq, UInt32.ofNat_sub (by omega)]
    grind
  have habove : ¬ p.payload - UInt32.ofNat len < p.addr + UInt32.ofNat sizeofStructPbuf := by
    rw [hpayload, hp.addr_eq, UInt32.lt_iff_toNat_lt, UInt32.toNat_add, UInt32.toNat_add,
      UInt32.toNat_ofNat', UInt32.toNat_ofNat']
    simp only [sizeofStructPbuf] at hroom ⊢
    omega
  refine ⟨⟨p.addr, p.payload - UInt32.ofNat len, p.totLen + len⟩, ?_, ?_, rfl⟩
  · exact if_neg habove
  · exact ⟨hp.addr_eq, hpayload⟩

/-- What is written at the payload pointer stays in the block. -/
theorem At.contained (hp : p.At addr k) (hmem : (addr, size) ∈ blocks)
    (hfits : addr.toNat + size ≤ 2 ^ 32) (hlen : k + len ≤ size) {events : List MemEvent}
    (hevents : Contained blocks events) : Contained blocks (p.write len :: events) := by
  refine ⟨?_, hevents⟩
  rw [hp.payload_eq]
  exact writes_within hmem (by omega) hlen

end HeapPbuf

/-- The payload of a new pbuf starts behind its `struct pbuf` and the room it asks for. -/
theorem pbufAlloc_at {size : ℕ} (block : HeapBlock size) (offset length : ℕ) :
    (pbufAlloc block offset length).At block.addr (memAlignSize (sizeofStructPbuf + offset)) :=
  ⟨rfl, memAlign_offset block.aligned _⟩

/-! ### The layers below UDP -/

/-- The copy for the queue is written to its own block. -/
theorem etharpCopy_contained {p : HeapPbuf} (hlen : p.totLen ≤ 66)
    (copy : Option (HeapBlock (pbufSize 0 66))) (blocks : List (UInt32 × ℕ)) :
    Contained blocks (etharpCopy p copy) := by
  cases copy with
  | none => trivial
  | some block =>
    have hfits := block.fits
    have hsize : pbufSize 0 p.totLen ≤ pbufSize 0 66 := by
      simp only [pbufSize, memAlignSize]
      omega
    refine (pbufAlloc_at block 0 p.totLen).contained List.mem_cons_self (by omega) ?_ trivial
    simp only [pbufSize, memAlignSize]
    omega

/-- A request is written to its own block. -/
theorem etharpRaw_contained (request : Option (HeapBlock (pbufSize 0 42)))
    {events : List MemEvent} (hevents : ∀ blocks, Contained blocks events)
    (blocks : List (UInt32 × ℕ)) : Contained blocks (etharpRaw request ++ events) := by
  cases request with
  | none => exact hevents blocks
  | some block =>
    exact (pbufAlloc_at block 0 42).contained List.mem_cons_self block.fits (by decide)
      (hevents _)

namespace HeapEnv

variable (env : HeapEnv) {addr : UInt32} {size k : ℕ} {p : HeapPbuf} {blocks : List (UInt32 × ℕ)}

/-- With room for the Ethernet header in the block, `etharp_output` stays in it. -/
theorem etharpOutput_contained (hp : p.At addr k) (hmem : (addr, size) ∈ blocks)
    (hfits : addr.toNat + size ≤ 2 ^ 32) (hk : k ≤ size)
    (hroom : sizeofStructPbuf + sizeofEthHdr ≤ k) (hlen : p.totLen ≤ 52) :
    Contained blocks (env.etharpOutput p).2 := by
  obtain ⟨q, hq, hat, htot⟩ := hp.pbufHeader hfits hk (by decide) hroom
  have hk' : k - sizeofEthHdr + sizeofEthHdr ≤ size := by
    rw [Nat.sub_add_cancel (le_trans (Nat.le_add_left _ _) hroom)]
    exact hk
  unfold etharpOutput
  rw [hq]
  cases env.arp with
  | send err => exact hat.contained hmem hfits hk' trivial
  | query request copy err =>
    refine etharpRaw_contained request (etharpCopy_contained ?_ copy) blocks
    rw [htot, sizeofEthHdr]
    omega
  | drop err => trivial

/-- With room for both headers in the block, `ip_output_if` stays in it. -/
theorem ipOutputIf_contained (hp : p.At addr k) (hmem : (addr, size) ∈ blocks)
    (hfits : addr.toNat + size ≤ 2 ^ 32) (hk : k ≤ size)
    (hroom : sizeofStructPbuf + sizeofEthHdr + ipHlen ≤ k) (hlen : p.totLen ≤ 32) :
    Contained blocks (env.ipOutputIf p).2 := by
  simp only [sizeofStructPbuf, sizeofEthHdr, ipHlen] at hroom
  obtain ⟨q, hq, hat, htot⟩ :=
    @HeapPbuf.At.pbufHeader addr size k ipHlen p hp hfits hk (by decide)
      (by simp only [sizeofStructPbuf, ipHlen]; omega)
  unfold ipOutputIf
  rw [hq]
  simp only [ipHlen] at hat htot ⊢
  apply hat.contained hmem hfits (by omega)
  exact env.etharpOutput_contained hat hmem hfits (by omega)
    (by simp only [sizeofStructPbuf, sizeofEthHdr]; omega) (by omega)

/-! ### UDP -/

/-- A pbuf without the room gets its headers in a new one. -/
theorem udpSendtoIf_contained_of_none (hp : p.pbufHeader udpHlen = none) (hlen : p.totLen ≤ 24)
    (blocks : List (UInt32 × ℕ)) : Contained blocks (env.udpSendtoIf p).2 := by
  unfold udpSendtoIf
  rw [hp]
  cases env.headerPbuf with
  | none => trivial
  | some block =>
    obtain ⟨haddr, hpayload⟩ := pbufAlloc_at block (sizeofEthHdr + ipHlen) udpHlen
    refine HeapPbuf.At.contained ⟨haddr, hpayload⟩ List.mem_cons_self block.fits (by decide) ?_
    refine env.ipOutputIf_contained ⟨haddr, hpayload⟩ List.mem_cons_self block.fits (by decide)
      (by decide) ?_
    simp only [udpHlen]
    omega

/-- A pbuf with room for the three headers in its block has them written there. -/
theorem udpSendtoIf_contained (hp : p.At addr k) (hmem : (addr, size) ∈ blocks)
    (hfits : addr.toNat + size ≤ 2 ^ 32) (hk : k ≤ size)
    (hroom : sizeofStructPbuf + sizeofEthHdr + ipHlen + udpHlen ≤ k) (hlen : p.totLen ≤ 24) :
    Contained blocks (env.udpSendtoIf p).2 := by
  simp only [sizeofStructPbuf, sizeofEthHdr, ipHlen, udpHlen] at hroom
  obtain ⟨q, hq, hat, htot⟩ :=
    @HeapPbuf.At.pbufHeader addr size k udpHlen p hp hfits hk (by decide)
      (by simp only [sizeofStructPbuf, udpHlen]; omega)
  unfold udpSendtoIf
  rw [hq]
  simp only [udpHlen] at hat htot ⊢
  apply hat.contained hmem hfits (by omega)
  exact env.ipOutputIf_contained hat hmem hfits (by omega)
    (by simp only [sizeofStructPbuf, sizeofEthHdr, ipHlen]; omega) (by omega)

end HeapEnv

end EthMange.Lwip
