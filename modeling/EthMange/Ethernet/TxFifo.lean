import EthMange.Ethernet.Tx

/-!
# Frames leave in call order

The descriptors that the DMA owns are a queue of frames between the driver and
the DMA. As long as no call goes to work while its descriptor is still owned by
the DMA, every call adds its frame to that queue, the DMA takes the frames off in
order, and nobody writes to a buffer that the DMA may be reading.
-/

namespace EthMange.Ethernet

namespace Tx

variable {s : Tx}

theorem dmaStep_of_own (h : s.Own s.dmaPos) : s.dmaStep =
    { s with
      wire := s.wire ++ [s.frameAt s.dmaPos]
      dmaTxDscrTab := Function.update s.dmaTxDscrTab s.dmaPos
        { s.dmaTxDscrTab s.dmaPos with
          status := (s.dmaTxDscrTab s.dmaPos).status &&& ~~~ethDmaTxDescOwn }
      dmaPos := (s.dmaTxDscrTab s.dmaPos).buffer2NextDescAddr } := by
  rw [dmaStep, if_pos h]

theorem dmaStep_of_not_own (h : ¬ s.Own s.dmaPos) : s.dmaStep =
    { s with eth := { s.eth with dmasr := s.eth.dmasr ||| ethDmasrTbus } } := by
  rw [dmaStep, if_neg h]

@[simp] theorem dmaStep_txBuff (s : Tx) : s.dmaStep.txBuff = s.txBuff := by
  rw [dmaStep]
  split <;> rfl

@[simp] theorem dmaStep_dmaTxDescToSet (s : Tx) :
    s.dmaStep.dmaTxDescToSet = s.dmaTxDescToSet := by
  rw [dmaStep]
  split <;> rfl

theorem own_of_dmaStep_own {i : Fin ethTxBufNb} (h : s.dmaStep.Own i) : s.Own i := by
  by_cases hown : s.Own s.dmaPos
  · rw [dmaStep_of_own hown] at h
    by_cases hi : i = s.dmaPos
    · rw [hi]
      exact hown
    · simpa [Own, Function.update_of_ne hi] using h
  · rw [dmaStep_of_not_own hown] at h
    exact h

/-- The queue between driver and DMA holds the frames `pending`. -/
def Pending (s : Tx) (pending : List Bytes) : Prop :=
  Chained s.dmaTxDscrTab ∧
    Ring.Holds s.Own s.frameAt s.dmaPos s.dmaTxDescToSet pending

theorem frameAt_eq (h : Chained s.dmaTxDscrTab) (i : Fin ethTxBufNb) :
    s.frameAt i = (s.txBuff i).read 0
      ((s.dmaTxDscrTab i).controlBufferSize &&& ethDmaTxDescTbs1).toNat := by
  rw [frameAt, (h i).1]

/-- A DMA step sends the first pending frame, if there is one. -/
theorem Pending.dmaStep {pending : List Bytes} (h : s.Pending pending) :
    s.dmaStep.wire = s.wire ++ pending.take 1 ∧ s.dmaStep.Pending (pending.drop 1) := by
  obtain ⟨hchain, hring⟩ := h
  by_cases hown : s.Own s.dmaPos
  · obtain ⟨rest, hq, hpop⟩ := hring.pop s.dmaStep.Own s.dmaStep.frameAt hown
      (by
        rw [dmaStep_of_own hown]
        simp only [Own, Function.update_self]
        exact not_isSet_and_not _ _)
      (by
        intro i hi
        rw [dmaStep_of_own hown]
        simp only [Own, Function.update_of_ne hi])
      (by
        intro i hi _
        rw [dmaStep_of_own hown]
        simp only [frameAt, Function.update_of_ne hi])
    have hnext : s.dmaStep.dmaPos = Ring.next s.dmaPos := by
      rw [dmaStep_of_own hown]
      exact (hchain s.dmaPos).2
    subst hq
    refine ⟨?_, ?_, ?_⟩
    · rw [dmaStep_of_own hown]
      rfl
    · rw [dmaStep_of_own hown]
      exact hchain.update s.dmaPos rfl rfl
    · rw [hnext, dmaStep_dmaTxDescToSet]
      exact hpop
  · have hempty : pending = [] := by
      have := mt hring.full_get_iff.mpr hown
      exact List.eq_nil_of_length_eq_zero (by omega)
    subst hempty
    rw [dmaStep_of_not_own hown]
    exact ⟨(List.append_nil _).symm, hchain, hring⟩

/-- Left alone, the DMA sends all pending frames in order. -/
theorem Pending.wire_iterate {pending : List Bytes} (h : s.Pending pending) (k : ℕ) :
    (Tx.dmaStep^[k] s).wire = s.wire ++ pending.take k := by
  induction k generalizing s pending with
  | zero => simp
  | succ k ih =>
    obtain ⟨hwire, hrest⟩ := h.dmaStep
    rw [Function.iterate_succ_apply, ih hrest, hwire, List.append_assoc, Nat.add_comm k 1,
      List.take_add]

theorem Pending.length_le {pending : List Bytes} (h : s.Pending pending) :
    pending.length ≤ ethTxBufNb := h.2.length_le

end Tx

/-! ### The copy and the hand over -/

theorem handOver_own (d : DmaDesc ethTxBufNb) (len : BitVec 16) :
    isSet (handOver d len).status ethDmaTxDescOwn :=
  isSet_or_self _ (by decide)

-- the 13 bits of the length field are enough for a buffer
theorem handOver_length (d : DmaDesc ethTxBufNb) {l : ℕ} (hl : l ≤ ethMaxPacketSize) :
    ((handOver d (BitVec.ofNat 16 l)).controlBufferSize &&& ethDmaTxDescTbs1).toNat = l := by
  have hmask : ethDmaTxDescTbs1.toNat = 2 ^ 13 - 1 := by decide
  have hl' : l ≤ 1520 := hl
  have h16 : l % 2 ^ 16 = l := Nat.mod_eq_of_lt (by omega)
  have h32 : l % 2 ^ 32 = l := Nat.mod_eq_of_lt (by omega)
  have h13 : l % 2 ^ 13 = l := Nat.mod_eq_of_lt (by omega)
  simp only [handOver, BitVec.toNat_and, BitVec.toNat_setWidth, BitVec.toNat_ofNat, hmask,
    Nat.and_two_pow_sub_one_eq_mod, h16, h32, h13]

namespace Tx

variable {s : Tx}

theorem Chained.submit (h : Chained s.dmaTxDscrTab) (len : BitVec 16) :
    Chained (s.submit len).dmaTxDscrTab :=
  h.update s.dmaTxDescToSet rfl rfl

theorem submit_frameAt (h : Chained s.dmaTxDscrTab) {l : ℕ} (hl : l ≤ ethMaxPacketSize) :
    (s.submit (BitVec.ofNat 16 l)).frameAt s.dmaTxDescToSet =
      (s.txBuff s.dmaTxDescToSet).read 0 l := by
  rw [frameAt_eq (Chained.submit h _)]
  simp only [submit, Function.update_self, handOver_length _ hl]

/-- Handing over the free descriptor at the driver's position queues the first
`l` bytes of its buffer. -/
theorem Pending.submit {pending : List Bytes} (h : s.Pending pending)
    (hfree : ¬ s.Own s.dmaTxDescToSet) {l : ℕ} (hl : l ≤ ethMaxPacketSize) :
    (s.submit (BitVec.ofNat 16 l)).Pending
      (pending ++ [(s.txBuff s.dmaTxDescToSet).read 0 l]) := by
  obtain ⟨hchain, hring⟩ := h
  have hpush := hring.push (s.submit (BitVec.ofNat 16 l)).Own
    (s.submit (BitVec.ofNat 16 l)).frameAt hfree
    (by
      simp only [Own, Tx.submit, Function.update_self]
      exact handOver_own _ _)
    (by
      intro i hi
      simp only [Own, Tx.submit, Function.update_of_ne hi])
    (by
      intro i hi _
      simp only [frameAt, Tx.submit, Function.update_of_ne hi])
  have hnext : (s.submit (BitVec.ofNat 16 l)).dmaTxDescToSet = Ring.next s.dmaTxDescToSet :=
    (hchain s.dmaTxDescToSet).2
  rw [submit_frameAt hchain hl, ← hnext] at hpush
  exact ⟨Chained.submit hchain _, hpush⟩

theorem Pending.copy {pending : List Bytes} (h : s.Pending pending) {buffer : Fin ethTxBufNb}
    (hfree : ¬ s.Own buffer) (l : ℕ) (q : PbufSeg) : (s.copy buffer l q).Pending pending := by
  obtain ⟨hchain, hring⟩ := h
  refine ⟨hchain, hring.congr (fun _ => Iff.rfl) fun i hi => ?_⟩
  have hne : i ≠ buffer := fun heq => hfree (heq ▸ hi)
  simp only [frameAt, Tx.copy, (hchain i).1, Function.update_of_ne hne]

end Tx

/-! ### The system invariant -/

/-- The frames of the calls that have returned `ERR_OK`, in call order. -/
def TxSystem.okFrames (s : TxSystem) : List Bytes :=
  (s.returned.filter fun r => r.2 = .ok).map fun r => r.1.bytes

/-- A running call copies into the buffer at the driver's position and has copied
the first `l` bytes of its frame. Once it has begun to copy that buffer is free. -/
structure CallInv (tx : Tx) (c : OutputCall) : Prop where
  begun : c.q ≠ c.p.chain → ¬ tx.Own tx.dmaTxDescToSet
  buffer_eq : c.buffer = tx.dmaTxDescToSet
  copied : c.p.bytes = (tx.txBuff c.buffer).read 0 c.l ++ c.q.flatMap PbufSeg.bytes
  fits : c.p.totLen ≤ ethMaxPacketSize

theorem CallInv.length {tx : Tx} {c : OutputCall} (h : CallInv tx c) :
    c.l + (c.q.map PbufSeg.len).sum = c.p.totLen := by
  have hlen := congrArg List.length h.copied
  simpa [Pbuf.bytes_length, List.length_flatMap] using hlen.symm

structure TxInv (s : TxSystem) (pending : List Bytes) : Prop where
  queue : s.tx.Pending pending
  frames : s.okFrames = s.tx.wire ++ pending
  call : ∀ c, s.call = some c → CallInv s.tx c

def CallFits : TxEvent → Prop
  | .call p => p.totLen ≤ ethMaxPacketSize
  | _ => True

/-- A running call copies and hands over only while its descriptor is not owned by
the DMA. -/
def RingFree (s : TxSystem) : TxEvent → Prop
  | .cpu => s.call.isSome = true → ¬ s.tx.Own s.tx.dmaTxDescToSet
  | _ => True

instance : (e : TxEvent) → Decidable (CallFits e)
  | .call p => inferInstanceAs (Decidable (p.totLen ≤ ethMaxPacketSize))
  | .cpu | .dma => .isTrue trivial

instance (s : TxSystem) : (e : TxEvent) → Decidable (RingFree s e)
  | .cpu => inferInstanceAs (Decidable (_ → ¬ _))
  | .call _ | .dma => .isTrue trivial

theorem txInv_init (tab : Fin ethTxBufNb → DmaDesc ethTxBufNb) (buff : Fin ethTxBufNb → Memory)
    (eth : EthRegs) : TxInv (txInit tab buff eth) [] where
  queue := by
    refine ⟨fun i => ⟨rfl, chainLink_eq_next i⟩, Ring.Holds.empty (fun i => ?_) _⟩
    simp only [Tx.Own, txInit, lowLevelInitTx, ethDmaTxDescChecksumInsertionConfig,
      ethDmaTxDescChainInit]
    decide
  frames := rfl
  call := by simp [txInit]

theorem callInv_start {tx : Tx} (h : Chained tx.dmaTxDscrTab) {p : Pbuf}
    (hfits : p.totLen ≤ ethMaxPacketSize) : CallInv tx (.start p tx) where
  begun := fun hne => absurd rfl hne
  buffer_eq := (h tx.dmaTxDescToSet).1
  copied := by simp [OutputCall.start, Pbuf.bytes]
  fits := hfits

theorem CallInv.dmaStep {tx : Tx} {c : OutputCall} (h : CallInv tx c) : CallInv tx.dmaStep c where
  begun := by
    intro hne
    rw [Tx.dmaStep_dmaTxDescToSet]
    exact mt Tx.own_of_dmaStep_own (h.begun hne)
  buffer_eq := by rw [Tx.dmaStep_dmaTxDescToSet, h.buffer_eq]
  copied := by rw [Tx.dmaStep_txBuff, h.copied]
  fits := h.fits

/-- A segment that is copied behind the bytes already copied joins them. -/
theorem copied_copy {tx : Tx} {c : OutputCall} {q : PbufSeg} {qs : List PbufSeg}
    (hcopied : c.p.bytes = (tx.txBuff c.buffer).read 0 c.l ++ c.q.flatMap PbufSeg.bytes)
    (hq : c.q = q :: qs) :
    c.p.bytes = ((tx.copy c.buffer c.l q).txBuff c.buffer).read 0 (c.l + q.len) ++
      qs.flatMap PbufSeg.bytes := by
  rw [hcopied, hq]
  simp only [Tx.copy, Function.update_self, Memory.read_memcpy_append, List.flatMap_cons,
    List.append_assoc]
  rfl

theorem CallInv.copy {tx : Tx} {c : OutputCall} (h : CallInv tx c)
    (hfree : ¬ tx.Own tx.dmaTxDescToSet) {q : PbufSeg} {qs : List PbufSeg} (hq : c.q = q :: qs) :
    CallInv (tx.copy c.buffer c.l q) { c with q := qs, l := c.l + q.len } where
  begun := fun _ => hfree
  buffer_eq := h.buffer_eq
  copied := copied_copy h.copied hq
  fits := h.fits

/-- One segment is copied into the buffer of the call. -/
theorem txInv_copy {s t : TxSystem} {pending : List Bytes} (hinv : TxInv s pending) {c : OutputCall}
    (hcall : s.call = some c) (hfree : ¬ s.tx.Own s.tx.dmaTxDescToSet) {q : PbufSeg}
    {qs : List PbufSeg} (hq : c.q = q :: qs) (hstep : txStep s .cpu = some t) :
    TxInv t pending := by
  have hc := hinv.call c hcall
  simp only [txStep, hcall, Option.map_some, OutputCall.step, hq, Option.some.injEq] at hstep
  subst hstep
  have hbuf : ¬ s.tx.Own c.buffer := hc.buffer_eq ▸ hfree
  refine ⟨hinv.queue.copy hbuf c.l q, hinv.frames, fun c' hc' => ?_⟩
  rw [← Option.some.inj hc']
  exact hc.copy hfree hq

/-- The call ends and hands its frame over. -/
theorem txInv_submit {s t : TxSystem} {pending : List Bytes} (hinv : TxInv s pending)
    {c : OutputCall} (hcall : s.call = some c) (hfree : ¬ s.tx.Own s.tx.dmaTxDescToSet)
    (hq : c.q = []) (hstep : txStep s .cpu = some t) : TxInv t (pending ++ [c.p.bytes]) := by
  have hc := hinv.call c hcall
  simp only [txStep, hcall, Option.map_some, OutputCall.step, hq, Option.some.injEq] at hstep
  subst hstep
  have hl : c.l = c.p.totLen := by simpa [hq] using hc.length
  have hfits : c.l ≤ ethMaxPacketSize := hl ▸ hc.fits
  have hframe : c.p.bytes = (s.tx.txBuff s.tx.dmaTxDescToSet).read 0 c.l := by
    simpa [hq, hc.buffer_eq] using hc.copied
  have hpending := hinv.queue.submit hfree hfits
  rw [← hframe] at hpending
  rw [ethTxPktChainMode, if_neg hfree]
  refine ⟨hpending, ?_, by simp⟩
  have hframes := hinv.frames
  simp only [TxSystem.okFrames, Tx.submit] at hframes ⊢
  simp [hframes]

/-- One step of driver or DMA keeps the invariant, if a call that is at work finds
a free descriptor. -/
theorem txInv_step {s t : TxSystem} {e : TxEvent} (h : ∃ pending, TxInv s pending)
    (hfits : CallFits e) (hfree : RingFree s e) (hstep : txStep s e = some t) :
    ∃ pending, TxInv t pending := by
  obtain ⟨pending, hinv⟩ := h
  cases e with
  | call p =>
    cases hcall : s.call with
    | some c => simp [txStep, hcall] at hstep
    | none =>
      simp only [txStep, hcall, Option.some.injEq] at hstep
      subst hstep
      refine ⟨pending, hinv.queue, hinv.frames, fun c hc => ?_⟩
      rw [← Option.some.inj hc]
      exact callInv_start hinv.queue.1 hfits
  | dma =>
    simp only [txStep, Option.some.injEq] at hstep
    subst hstep
    obtain ⟨hwire, hpending⟩ := hinv.queue.dmaStep
    refine ⟨pending.drop 1, hpending, ?_, fun c hc => (hinv.call c hc).dmaStep⟩
    have hframes : s.okFrames = s.tx.wire ++ (pending.take 1 ++ pending.drop 1) := by
      rw [List.take_append_drop]
      exact hinv.frames
    rw [hwire, List.append_assoc]
    exact hframes
  | cpu =>
    cases hcall : s.call with
    | none => simp [txStep, hcall] at hstep
    | some c =>
      have hfree : ¬ s.tx.Own s.tx.dmaTxDescToSet := hfree (hcall ▸ rfl)
      cases hq : c.q with
      | cons q qs => exact ⟨pending, txInv_copy hinv hcall hfree hq hstep⟩
      | nil => exact ⟨_, txInv_submit hinv hcall hfree hq hstep⟩

/-! ### Faithful transmission -/

-- the buffer that a step of the system writes to
def writesBuffer (s : TxSystem) : TxEvent → Option (Fin ethTxBufNb)
  | .cpu => s.call.bind fun c => c.q.head?.map fun _ => c.buffer
  | _ => none

def SparesOwned (s : TxSystem) (e : TxEvent) : Prop :=
  ∀ i, s.tx.Own i → writesBuffer s e ≠ some (s.tx.dmaTxDscrTab i).buffer1Addr

instance (s : TxSystem) (e : TxEvent) : Decidable (SparesOwned s e) :=
  inferInstanceAs (Decidable (∀ _, _ → _))

/-- The calls that returned `ERR_OK` are, in order and one frame each, the
frames on the wire and those that the DMA still has to send; left alone, it
sends them one after the other. -/
def Faithful (s : TxSystem) : Prop :=
  ∃ pending, s.okFrames = s.tx.wire ++ pending ∧ pending.length ≤ ethTxBufNb ∧
    ∀ k, (Tx.dmaStep^[k] s.tx).wire = s.tx.wire ++ pending.take k

theorem TxInv.faithful {s : TxSystem} {pending : List Bytes} (h : TxInv s pending) :
    Faithful s :=
  ⟨pending, h.frames, h.queue.length_le, h.queue.wire_iterate⟩

/-- The steps that spare the buffers of the DMA are those that find a free
descriptor. -/
theorem TxInv.sparesOwned_iff {s : TxSystem} {pending : List Bytes} (h : TxInv s pending)
    (e : TxEvent) : SparesOwned s e ↔ RingFree s e := by
  cases e with
  | call p => simp [SparesOwned, writesBuffer, RingFree]
  | dma => simp [SparesOwned, writesBuffer, RingFree]
  | cpu =>
    have hbuffer : ∀ i, (s.tx.dmaTxDscrTab i).buffer1Addr = i := fun i => (h.queue.1 i).1
    constructor
    · intro hspares hcall hown
      obtain ⟨c, hc⟩ := Option.isSome_iff_exists.mp hcall
      have hinv := h.call c hc
      cases hq : c.q with
      | nil =>
        -- a chain has a first pbuf, so the call has copied already
        exact hinv.begun (by simp [hq, Pbuf.chain]) hown
      | cons q qs =>
        refine hspares _ hown ?_
        simp only [writesBuffer, hc, Option.bind_some, hq, List.head?_cons, Option.map_some,
          hinv.buffer_eq, hbuffer]
    · intro hfree i hown hw
      simp only [writesBuffer, Option.bind_eq_some_iff, Option.map_eq_some_iff] at hw
      obtain ⟨c, hcall, _, _, hbuf⟩ := hw
      have hi : i = s.tx.dmaTxDescToSet := by
        rw [← hbuffer i, ← hbuf, (h.call c hcall).buffer_eq]
      exact hfree (hcall ▸ rfl) (hi ▸ hown)

/-- In a run of calls and DMA steps every call that returns `ERR_OK` puts exactly
its frame on the wire, in call order, and no buffer is written while the DMA owns
it, if and only if the calls copy and hand over only with a free descriptor. -/
theorem transmit_faithful_iff (tab : Fin ethTxBufNb → DmaDesc ethTxBufNb)
    (buff : Fin ethTxBufNb → Memory) (eth : EthRegs) (es : List TxEvent) (s : TxSystem)
    (hfits : ∀ e ∈ es, CallFits e) (hrun : Run.run txStep (txInit tab buff eth) es = some s) :
    Faithful s ∧ Run.Along txStep SparesOwned (txInit tab buff eth) es ↔
      Run.Along txStep RingFree (txInit tab buff eth) es := by
  have hcalls : Run.Along txStep (fun _ => CallFits) (txInit tab buff eth) es :=
    Run.Along.of_forall _ hfits
  have hinit : ∃ pending, TxInv (txInit tab buff eth) pending := ⟨[], txInv_init tab buff eth⟩
  have hstep : ∀ s e t, (∃ pending, TxInv s pending) → CallFits e ∧ RingFree s e →
      txStep s e = some t → ∃ pending, TxInv t pending :=
    fun s e t h hg hst => txInv_step h hg.1 hg.2 hst
  constructor
  · rintro ⟨-, hspares⟩
    refine (hcalls.and hspares).of_invariant (I := fun s => ∃ pending, TxInv s pending)
      (fun s e t h hg hst => ?_) (fun s e ⟨_, h⟩ hg => (h.sparesOwned_iff e).mp hg.2) hinit
    obtain ⟨_, hinv⟩ := h
    exact hstep s e t ⟨_, hinv⟩ ⟨hg.1, (hinv.sparesOwned_iff e).mp hg.2⟩ hst
  · intro hfree
    have hG := hcalls.and hfree
    obtain ⟨pending, hinv⟩ := hG.invariant hstep hinit hrun
    exact ⟨hinv.faithful,
      hG.of_invariant hstep (fun _ e ⟨_, h⟩ hg => (h.sparesOwned_iff e).mpr hg.2) hinit⟩

/-- The board after start-up with all memory zero. -/
def txIdle : TxSystem := txInit (fun i => ⟨0, 0, i, i⟩) (fun _ _ => 0) ⟨0, 0, 0⟩

/-- A call with a one-byte frame that runs to its end without a DMA step. -/
def sendByte (b : UInt8) : List TxEvent :=
  [.call (.single [b] (by simp)), .cpu, .cpu]

/-- The third call begins while both descriptors are owned by the DMA, and goes to
work after the DMA has sent the first frame. -/
theorem transmit_faithful_three_frames :
    ∃ s, Run.run txStep txIdle
        (sendByte 1 ++ sendByte 2 ++ [.call (.single [3] (by simp)), .dma, .cpu, .cpu]) = some s ∧
      s.okFrames = [[1], [2], [3]] ∧ s.tx.wire = [[1]] ∧ Faithful s ∧
      Run.Along txStep SparesOwned txIdle
        (sendByte 1 ++ sendByte 2 ++ [.call (.single [3] (by simp)), .dma, .cpu, .cpu]) :=
  ⟨_, rfl, by decide, by decide,
    (transmit_faithful_iff _ _ _ _ _ (by decide) rfl).mpr (by decide)⟩

/-- With both descriptors still owned by the DMA, a third call overwrites the
first frame, queues nothing and returns `ERR_OK`: the DMA sends the third frame
in place of the first and then the second. -/
theorem burst_not_faithful :
    ∃ s, (∀ e ∈ sendByte 1 ++ sendByte 2 ++ sendByte 3, CallFits e) ∧
      Run.run txStep txIdle (sendByte 1 ++ sendByte 2 ++ sendByte 3) = some s ∧
      s.okFrames = [[1], [2], [3]] ∧ (Tx.dmaStep^[3] s.tx).wire = [[3], [2]] ∧
      ¬ Faithful s ∧
      ¬ Run.Along txStep SparesOwned txIdle (sendByte 1 ++ sendByte 2 ++ sendByte 3) := by
  refine ⟨_, by decide, rfl, by decide, by decide, ?_, by decide⟩
  rintro ⟨pending, hframes, hlen, -⟩
  have hcount := congrArg List.length hframes
  rw [List.length_append] at hcount
  have hthree : (3 : ℕ) = 0 + pending.length := hcount
  have htwo : pending.length ≤ 2 := hlen
  omega

end EthMange.Ethernet
