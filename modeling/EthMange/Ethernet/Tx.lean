import EthMange.Lib.Run
import EthMange.Ethernet.Desc

/-!
# The transmit side of the driver

`low_level_output` and the functions under it, the DMA that sends the frames,
and the system of the two in which the DMA may run between any two steps of a
call.
-/

namespace EthMange.Ethernet

def ethTxBufNb : ℕ := 2

/-- The descriptors and buffers, the position of the driver and that of the
DMA, and the frames that have left the board. -/
structure Tx where
  dmaTxDscrTab : Fin ethTxBufNb → DmaDesc ethTxBufNb
  txBuff : Fin ethTxBufNb → Memory
  dmaTxDescToSet : Fin ethTxBufNb
  eth : EthRegs
  dmaPos : Fin ethTxBufNb
  wire : List Bytes

/-- The transmit part of `low_level_init`, on descriptors and buffers that hold
anything. -/
def lowLevelInitTx (tab : Fin ethTxBufNb → DmaDesc ethTxBufNb)
    (buff : Fin ethTxBufNb → Memory) (eth : EthRegs) : Tx where
  dmaTxDscrTab := fun i => ethDmaTxDescChecksumInsertionConfig (ethDmaTxDescChainInit tab i)
  txBuff := buff
  dmaTxDescToSet := ⟨0, by decide⟩
  eth := eth
  dmaPos := ⟨0, by decide⟩
  wire := []

namespace Tx

def Own (s : Tx) (i : Fin ethTxBufNb) : Prop := isSet (s.dmaTxDscrTab i).status ethDmaTxDescOwn

instance (s : Tx) (i : Fin ethTxBufNb) : Decidable (s.Own i) :=
  inferInstanceAs (Decidable (isSet _ _))

/-- The frame that the DMA reads from the buffer of a descriptor. -/
def frameAt (s : Tx) (i : Fin ethTxBufNb) : Bytes :=
  (s.txBuff (s.dmaTxDscrTab i).buffer1Addr).read 0
    ((s.dmaTxDscrTab i).controlBufferSize &&& ethDmaTxDescTbs1).toNat

/-- `memcpy((u8_t*)&buffer[l], q->payload, q->len)` -/
def copy (s : Tx) (buffer : Fin ethTxBufNb) (l : ℕ) (q : PbufSeg) : Tx :=
  { s with
    txBuff := Function.update s.txBuff buffer ((s.txBuff buffer).memcpy l q.payload q.len) }

/-- The DMA looks at its next descriptor. It sends the frame and clears OWN when
it owns the descriptor, and is suspended with TBUS set when it does not. -/
def dmaStep (s : Tx) : Tx :=
  if s.Own s.dmaPos then
    { s with
      wire := s.wire ++ [s.frameAt s.dmaPos]
      dmaTxDscrTab := Function.update s.dmaTxDscrTab s.dmaPos
        { s.dmaTxDscrTab s.dmaPos with
          status := (s.dmaTxDscrTab s.dmaPos).status &&& ~~~ethDmaTxDescOwn }
      dmaPos := (s.dmaTxDscrTab s.dmaPos).buffer2NextDescAddr }
  else { s with eth := { s.eth with dmasr := s.eth.dmasr ||| ethDmasrTbus } }

end Tx

def ethGetCurrentTxBuffer (s : Tx) : Fin ethTxBufNb :=
  (s.dmaTxDscrTab s.dmaTxDescToSet).buffer1Addr

/-- The descriptor that `ETH_TxPkt_ChainMode` hands to the DMA. -/
def handOver (d : DmaDesc ethTxBufNb) (frameLength : BitVec 16) : DmaDesc ethTxBufNb :=
  { d with
    controlBufferSize := frameLength.setWidth 32 &&& ethDmaTxDescTbs1
    status := d.status ||| (ethDmaTxDescLs ||| ethDmaTxDescFs) ||| ethDmaTxDescOwn }

/-- The part of `ETH_TxPkt_ChainMode` behind the OWN check. -/
def Tx.submit (s : Tx) (frameLength : BitVec 16) : Tx :=
  { s with
    dmaTxDscrTab := Function.update s.dmaTxDscrTab s.dmaTxDescToSet
      (handOver (s.dmaTxDscrTab s.dmaTxDescToSet) frameLength)
    eth := s.eth.resumeTx
    dmaTxDescToSet := (s.dmaTxDscrTab s.dmaTxDescToSet).buffer2NextDescAddr }

def ethTxPktChainMode (frameLength : BitVec 16) (s : Tx) : BitVec 32 × Tx :=
  if s.Own s.dmaTxDescToSet then (ethError, s) else (ethSuccess, s.submit frameLength)

/-- The loop of `low_level_output` over the pbuf chain. It returns `l`. -/
def copyChain (buffer : Fin ethTxBufNb) : List PbufSeg → ℕ → Tx → ℕ × Tx
  | [], l, s => (l, s)
  | q :: qs, l, s => copyChain buffer qs (l + q.len) (s.copy buffer l q)

/-- `low_level_output`. The result of `ETH_TxPkt_ChainMode` is not looked at. -/
def lowLevelOutput (p : Pbuf) (s : Tx) : Err × Tx :=
  let buffer := ethGetCurrentTxBuffer s
  let (l, s) := copyChain buffer p.chain 0 s
  let (_, s) := ethTxPktChainMode (BitVec.ofNat 16 l) s
  (.ok, s)

/-- A call of `low_level_output` that is running: its argument and its locals,
with the pbufs still to be copied. -/
structure OutputCall where
  p : Pbuf
  buffer : Fin ethTxBufNb
  q : List PbufSeg
  l : ℕ

def OutputCall.start (p : Pbuf) (s : Tx) : OutputCall := ⟨p, ethGetCurrentTxBuffer s, p.chain, 0⟩

/-- The next step of a call: one turn of the loop, or, after the loop, the hand
over and the return. -/
def OutputCall.step (c : OutputCall) (s : Tx) : (OutputCall ⊕ Err) × Tx :=
  match c.q with
  | q :: qs => (.inl { c with q := qs, l := c.l + q.len }, s.copy c.buffer c.l q)
  | [] => (.inr .ok, (ethTxPktChainMode (BitVec.ofNat 16 c.l) s).2)

/-- Driver and DMA together. `returned` lists the calls that have returned, with
their results. -/
structure TxSystem where
  tx : Tx
  call : Option OutputCall
  returned : List (Pbuf × Err)

inductive TxEvent
  -- `low_level_output(netif, p)` is called
  | call (p : Pbuf)
  -- the running call makes one step
  | cpu
  -- the DMA makes one step
  | dma

/-- Calls do not overlap; the DMA may run at any time. -/
def txStep (s : TxSystem) : TxEvent → Option TxSystem
  | .call p =>
    match s.call with
    | none => some { s with call := some (.start p s.tx) }
    | some _ => none
  | .cpu => s.call.map fun c =>
    match c.step s.tx with
    | (.inl c', tx) => { s with tx := tx, call := some c' }
    | (.inr err, tx) => { tx := tx, call := none, returned := s.returned ++ [(c.p, err)] }
  | .dma => some { s with tx := s.tx.dmaStep }

def txInit (tab : Fin ethTxBufNb → DmaDesc ethTxBufNb) (buff : Fin ethTxBufNb → Memory)
    (eth : EthRegs) : TxSystem :=
  ⟨lowLevelInitTx tab buff eth, none, []⟩

/-- Without a DMA step in between, the steps of a call are `low_level_output`. -/
theorem run_call (p : Pbuf) (s : Tx) (returned : List (Pbuf × Err)) :
    Run.run txStep ⟨s, none, returned⟩
        (.call p :: List.replicate (p.chain.length + 1) .cpu) =
      some ⟨(lowLevelOutput p s).2, none, returned ++ [(p, (lowLevelOutput p s).1)]⟩ := by
  have hloop : ∀ (q : List PbufSeg) (l : ℕ) (s : Tx) (buffer : Fin ethTxBufNb),
      Run.run txStep ⟨s, some ⟨p, buffer, q, l⟩, returned⟩ (List.replicate (q.length + 1) .cpu) =
        some ⟨(ethTxPktChainMode (BitVec.ofNat 16 (copyChain buffer q l s).1)
          (copyChain buffer q l s).2).2, none, returned ++ [(p, .ok)]⟩ := by
    intro q
    induction q with
    | nil =>
      intro l s buffer
      simp [txStep, OutputCall.step, copyChain]
    | cons q qs ih =>
      intro l s buffer
      rw [List.length_cons, List.replicate_succ, Run.run_cons]
      simp only [txStep, OutputCall.step, Option.map_some, Option.bind_some, copyChain]
      exact ih _ _ _
  rw [Run.run_cons]
  simp only [txStep, OutputCall.start, Option.bind_some]
  exact hloop _ _ _ _

end EthMange.Ethernet
