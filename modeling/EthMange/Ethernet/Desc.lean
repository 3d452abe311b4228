import EthMange.Lib.Ring
import EthMange.Lwip.Pbuf

/-!
# DMA descriptors

The descriptors of the Ethernet DMA as `stm32_eth.c` lays them out in chain
mode, the bits of their words that the driver tests, and the two status flags
of the DMA that it clears.
-/

namespace EthMange.Ethernet

-- the size of every buffer
def ethMaxPacketSize : ℕ := 1520

def ethDmaTxDescOwn : BitVec 32 := 0x80000000#32
def ethDmaTxDescLs : BitVec 32 := 0x20000000#32
def ethDmaTxDescFs : BitVec 32 := 0x10000000#32
def ethDmaTxDescTch : BitVec 32 := 0x00100000#32
def ethDmaTxDescTbs1 : BitVec 32 := 0x00001FFF#32
def ethDmaTxDescChecksumTcpUdpIcmpFull : BitVec 32 := 0x00C00000#32

def ethDmaRxDescOwn : BitVec 32 := 0x80000000#32
def ethDmaRxDescFl : BitVec 32 := 0x3FFF0000#32
def ethDmaRxDescEs : BitVec 32 := 0x00008000#32
def ethDmaRxDescFs : BitVec 32 := 0x00000200#32
def ethDmaRxDescLs : BitVec 32 := 0x00000100#32
def ethDmaRxDescDic : BitVec 32 := 0x80000000#32
def ethDmaRxDescRch : BitVec 32 := 0x00004000#32
def ethDmaRxDescFrameLengthShift : ℕ := 16

def ethDmasrRbus : BitVec 32 := 0x00000080#32
def ethDmasrTbus : BitVec 32 := 0x00000004#32

def ethError : BitVec 32 := 0#32
def ethSuccess : BitVec 32 := 1#32

/-- `ETH_DMADESCTypeDef`. A table has `n` descriptors and `n` buffers; an
address is the index of the descriptor or buffer it points to. -/
structure DmaDesc (n : ℕ) where
  status : BitVec 32
  controlBufferSize : BitVec 32
  buffer1Addr : Fin n
  buffer2NextDescAddr : Fin n

/-- The DMA registers the driver touches. `dmatpdr` and `dmarpdr` count the
poll demands written to the registers of that name. -/
structure EthRegs where
  dmasr : BitVec 32
  dmatpdr : ℕ
  dmarpdr : ℕ

def isSet (w m : BitVec 32) : Prop := w &&& m ≠ 0#32

instance (w m : BitVec 32) : Decidable (isSet w m) := inferInstanceAs (Decidable (_ ≠ _))

theorem isSet_or_self (w : BitVec 32) {m : BitVec 32} (hm : m ≠ 0#32) : isSet (w ||| m) m := by
  have h : (w ||| m) &&& m = m := by
    ext i hi
    simp only [BitVec.getElem_and, BitVec.getElem_or, Bool.and_eq_right_iff_imp]
    intro hmi
    simp [hmi]
  rw [isSet, h]
  exact hm

theorem not_isSet_and_not (w m : BitVec 32) : ¬ isSet (w &&& ~~~m) m := by
  rw [isSet, not_not, BitVec.and_assoc]
  simp

theorem isSet_self {m : BitVec 32} (hm : m ≠ 0#32) : isSet m m := by
  rwa [isSet, BitVec.and_self]

section
variable {n : ℕ}

/-- The link that the chain initialisation writes: the following descriptor,
and the first one after the last. -/
def chainLink (i : Fin n) : Fin n :=
  if h : i.val < n - 1 then ⟨i.val + 1, by omega⟩ else ⟨0, i.pos⟩

theorem chainLink_eq_next (i : Fin n) : chainLink i = Ring.next i := by
  have hi := i.isLt
  apply Fin.ext
  simp only [chainLink, Ring.next, Ring.ahead]
  split
  · exact (Nat.mod_eq_of_lt (by omega)).symm
  · have hlast : i.val + 1 = n := by omega
    simp [hlast]

def ethDmaTxDescChainInit (tab : Fin n → DmaDesc n) : Fin n → DmaDesc n := fun i =>
  { tab i with
    status := ethDmaTxDescTch
    buffer1Addr := i
    buffer2NextDescAddr := chainLink i }

-- called with `ETH_DMATxDesc_ChecksumTCPUDPICMPFull`
def ethDmaTxDescChecksumInsertionConfig (d : DmaDesc n) : DmaDesc n :=
  { d with status := d.status ||| ethDmaTxDescChecksumTcpUdpIcmpFull }

def ethDmaRxDescChainInit : Fin n → DmaDesc n := fun i =>
  { status := ethDmaRxDescOwn
    controlBufferSize := ethDmaRxDescRch ||| BitVec.ofNat 32 ethMaxPacketSize
    buffer1Addr := i
    buffer2NextDescAddr := chainLink i }

-- called with `ENABLE`
def ethDmaRxDescReceiveItConfig (d : DmaDesc n) : DmaDesc n :=
  { d with controlBufferSize := d.controlBufferSize &&& ~~~ethDmaRxDescDic }

/-- Every descriptor points to its own buffer and to the next one in the ring. -/
def Chained (tab : Fin n → DmaDesc n) : Prop :=
  ∀ i, (tab i).buffer1Addr = i ∧ (tab i).buffer2NextDescAddr = Ring.next i

/-- Writing to a status or control word leaves the chain as it is. -/
theorem Chained.update {tab : Fin n → DmaDesc n} (h : Chained tab) (i : Fin n) {d : DmaDesc n}
    (hbuf : d.buffer1Addr = (tab i).buffer1Addr)
    (hnext : d.buffer2NextDescAddr = (tab i).buffer2NextDescAddr) :
    Chained (Function.update tab i d) := by
  intro j
  by_cases hj : j = i
  · subst hj
    rw [Function.update_self, hbuf, hnext]
    exact h j
  · rw [Function.update_of_ne hj]
    exact h j

end

/-- Clear the flag `m` by writing it to `DMASR`, and resume transmission with a
write to `DMATPDR`, when the flag is set. -/
def EthRegs.resumeTx (r : EthRegs) : EthRegs :=
  if isSet r.dmasr ethDmasrTbus then
    { r with dmasr := r.dmasr &&& ~~~ethDmasrTbus, dmatpdr := r.dmatpdr + 1 }
  else r

def EthRegs.resumeRx (r : EthRegs) : EthRegs :=
  if isSet r.dmasr ethDmasrRbus then
    { r with dmasr := r.dmasr &&& ~~~ethDmasrRbus, dmarpdr := r.dmarpdr + 1 }
  else r

end EthMange.Ethernet
