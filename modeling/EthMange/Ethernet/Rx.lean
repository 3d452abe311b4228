import EthMange.Lib.Run
import EthMange.Ethernet.Desc

/-!
# The receive side of the driver

`ETH_IRQHandler` with `low_level_input` and the functions under it, the DMA
that fills the descriptors, and the system of the two in which the DMA may fill
descriptors between any two steps of the handler.
-/

namespace EthMange.Ethernet

def ethRxBufNb : ℕ := 4

/-- What the DMA writes into one descriptor and its buffer; the status word
comes with OWN clear. -/
structure RxFill where
  status : BitVec 32
  buffer : Memory
  own_clear : ¬ isSet status ethDmaRxDescOwn

/-- The descriptors and buffers, the position of the driver and that of the
DMA. `midFrame` says that the DMA has begun a frame and not yet ended it,
`received` lists what it has filled, and `zeroPage` is the memory at address 0. -/
structure Rx where
  dmaRxDscrTab : Fin ethRxBufNb → DmaDesc ethRxBufNb
  rxBuff : Fin ethRxBufNb → Memory
  dmaRxDescToGet : Fin ethRxBufNb
  eth : EthRegs
  dmaPos : Fin ethRxBufNb
  midFrame : Bool
  received : List (BitVec 32 × Memory)
  zeroPage : Memory

/-- The receive part of `low_level_init`. -/
def lowLevelInitRx (buff : Fin ethRxBufNb → Memory) (eth : EthRegs) (zeroPage : Memory) : Rx where
  dmaRxDscrTab := fun i => ethDmaRxDescReceiveItConfig (ethDmaRxDescChainInit i)
  rxBuff := buff
  dmaRxDescToGet := ⟨0, by decide⟩
  eth := eth
  dmaPos := ⟨0, by decide⟩
  midFrame := false
  received := []
  zeroPage := zeroPage

namespace Rx

def Own (s : Rx) (i : Fin ethRxBufNb) : Prop := isSet (s.dmaRxDscrTab i).status ethDmaRxDescOwn

instance (s : Rx) (i : Fin ethRxBufNb) : Decidable (s.Own i) :=
  inferInstanceAs (Decidable (isSet _ _))

/-- The DMA writes the next piece of a frame. It needs a descriptor of its own;
without one it is suspended with RBUS set and the piece is lost. -/
def dmaFill (s : Rx) (f : RxFill) : Rx :=
  if s.Own s.dmaPos then
    { s with
      dmaRxDscrTab := Function.update s.dmaRxDscrTab s.dmaPos
        { s.dmaRxDscrTab s.dmaPos with status := f.status }
      rxBuff := Function.update s.rxBuff (s.dmaRxDscrTab s.dmaPos).buffer1Addr f.buffer
      dmaPos := (s.dmaRxDscrTab s.dmaPos).buffer2NextDescAddr
      midFrame := !decide (isSet f.status ethDmaRxDescLs)
      received := s.received ++ [(f.status, f.buffer)] }
  else { s with eth := { s.eth with dmasr := s.eth.dmasr ||| ethDmasrRbus } }

/-- `frame.descriptor->Status = ETH_DMARxDesc_OWN` -/
def giveBack (s : Rx) (i : Fin ethRxBufNb) : Rx :=
  { s with
    dmaRxDscrTab := Function.update s.dmaRxDscrTab i
      { s.dmaRxDscrTab i with status := ethDmaRxDescOwn } }

end Rx

/-- A status word without ES and with FS and LS: a whole frame without error. -/
def IsWholeFrame (status : BitVec 32) : Prop :=
  ¬ isSet status ethDmaRxDescEs ∧ isSet status ethDmaRxDescLs ∧ isSet status ethDmaRxDescFs

instance (w : BitVec 32) : Decidable (IsWholeFrame w) :=
  inferInstanceAs (Decidable (_ ∧ _ ∧ _))

/-- `ETH_GetDMARxDescFrameLength` on the status word. -/
def ethGetDmaRxDescFrameLength (status : BitVec 32) : BitVec 32 :=
  (status &&& ethDmaRxDescFl) >>> ethDmaRxDescFrameLengthShift

def ethGetRxPktSize (s : Rx) : BitVec 32 :=
  if ¬ s.Own s.dmaRxDescToGet ∧ IsWholeFrame (s.dmaRxDscrTab s.dmaRxDescToGet).status then
    ethGetDmaRxDescFrameLength (s.dmaRxDscrTab s.dmaRxDescToGet).status
  else 0#32

/-- `FrameTypeDef`; `none` is the null address. -/
structure FrameType where
  length : BitVec 32
  buffer : Option (Fin ethRxBufNb)
  descriptor : Option (Fin ethRxBufNb)
  deriving DecidableEq

-- the 16-bit `len` of `low_level_input`
def FrameType.len (frame : FrameType) : ℕ := (frame.length.setWidth 16).toNat

def ethRxPktChainMode (s : Rx) : FrameType × Rx :=
  if s.Own s.dmaRxDescToGet then
    (⟨ethError, none, none⟩, { s with eth := s.eth.resumeRx })
  else
    let d := s.dmaRxDscrTab s.dmaRxDescToGet
    let s' := { s with dmaRxDescToGet := d.buffer2NextDescAddr }
    if IsWholeFrame d.status then
      (⟨ethGetDmaRxDescFrameLength d.status - 4#32, some d.buffer1Addr, some s.dmaRxDescToGet⟩, s')
    else (⟨ethError, none, some s.dmaRxDescToGet⟩, s')

def Rx.source (s : Rx) (frame : FrameType) : Memory := frame.buffer.elim s.zeroPage s.rxBuff

/-- Where the handler stands. A pbuf chain that is being filled is the list of
the segments done, followed by the lengths of those to come. -/
inductive RxPc
  -- not running
  | idle
  -- before the test of the loop in `ETH_IRQHandler`
  | guard
  -- before `ETH_RxPkt_ChainMode`
  | fetch
  -- before `pbuf_alloc`
  | alloc (frame : FrameType)
  -- in the copy loop
  | copy (frame : FrameType) (q : List ℕ) (l : ℕ) (p : List Bytes)
  -- before the write to `frame.descriptor->Status`; no chain if `pbuf_alloc` failed
  | release (frame : FrameType) (p : Option (List Bytes))
  -- before `netif->input`
  | input (p : Option (List Bytes))
  deriving DecidableEq

/-- DMA and handler together. `allocs` lists the results of `pbuf_alloc`,
`fetched` and `released` the descriptors fetched and given back, and `packets`
what `netif->input` got. -/
structure RxSystem where
  rx : Rx
  pc : RxPc
  allocs : List Bool
  fetched : List (Option (Fin ethRxBufNb))
  released : List (Option (Fin ethRxBufNb))
  packets : List Bytes

inductive RxEvent
  -- the DMA fills a descriptor
  | fill (f : RxFill)
  -- the interrupt is taken
  | irq
  -- `pbuf_alloc` returns a chain with these segment lengths, or `NULL`
  | alloc (r : Option (List ℕ))
  -- the handler makes any other step
  | step

def handlerStep (s : RxSystem) : Option RxSystem :=
  match s.pc with
  | .idle => none
  | .guard => some { s with pc := if ethGetRxPktSize s.rx ≠ 0#32 then .fetch else .idle }
  | .fetch =>
    let (frame, rx) := ethRxPktChainMode s.rx
    some { s with rx := rx, pc := .alloc frame, fetched := s.fetched ++ [frame.descriptor] }
  | .alloc _ => none
  | .copy frame (len :: q) l p =>
    some { s with pc := .copy frame q (l + len) (p ++ [(s.rx.source frame).read l len]) }
  | .copy frame [] _ p => some { s with pc := .release frame (some p) }
  | .release frame p =>
    -- a null descriptor is written through as well, outside the table
    let rx := frame.descriptor.elim s.rx s.rx.giveBack
    some { s with
      rx := { rx with eth := rx.eth.resumeRx }
      pc := .input p
      released := s.released ++ [frame.descriptor] }
  | .input p => some { s with pc := .guard, packets := s.packets ++ p.toList.map List.flatten }

/-- The chain that `pbuf_alloc` returns has `len` bytes in all. -/
def allocStep (s : RxSystem) (r : Option (List ℕ)) : Option RxSystem :=
  match s.pc, r with
  | .alloc frame, none => some { s with pc := .release frame none, allocs := s.allocs ++ [false] }
  | .alloc frame, some q =>
    if q.sum = frame.len then
      some { s with pc := .copy frame q 0 [], allocs := s.allocs ++ [true] }
    else none
  | _, _ => none

/-- FS is on the first descriptor of a frame and on no other. The handler is not
interrupted by itself. -/
def rxStep (s : RxSystem) : RxEvent → Option RxSystem
  | .fill f =>
    if isSet f.status ethDmaRxDescFs ↔ s.rx.midFrame = false then
      some { s with rx := s.rx.dmaFill f }
    else none
  | .irq =>
    match s.pc with
    | .idle => some { s with pc := .guard }
    | _ => none
  | .alloc r => allocStep s r
  | .step => handlerStep s

/-- The system after `low_level_init`. -/
def rxInit (buff : Fin ethRxBufNb → Memory) (eth : EthRegs) (zeroPage : Memory) : RxSystem :=
  ⟨lowLevelInitRx buff eth zeroPage, .idle, [], [], [], []⟩

end EthMange.Ethernet
