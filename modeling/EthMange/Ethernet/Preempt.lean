import EthMange.Ethernet.TxFifo

/-!
# Transmission under preemption

The main loop and `ETH_IRQHandler` share the driver. A call of `low_level_output`
in the main loop may be interrupted between any two of its steps; the handler
then runs to completion and may send frames itself. A call remembers the buffer
it has fetched, but hands over whatever descriptor is current when it is done.
-/

namespace EthMange.Ethernet

open Run

/-- The driver with the call of the main loop, if one is running, and that of the
handler. `returned` lists the calls that have returned, with their results. -/
structure PreemptSystem where
  tx : Tx
  main : Option OutputCall
  inIrq : Bool
  irq : Option OutputCall
  returned : List (Pbuf × Err)

inductive PreemptEvent
  -- `low_level_output` is called in the main loop, and makes a step
  | mainCall (p : Pbuf)
  | mainStep
  -- the handler begins, calls `low_level_output`, makes a step of the call, returns
  | irqEnter
  | irqCall (p : Pbuf)
  | irqStep
  | irqExit
  | dma

/-- The main loop stands still while the handler runs. -/
def preemptStep (s : PreemptSystem) : PreemptEvent → Option PreemptSystem
  | .mainCall p =>
    if ¬ s.inIrq ∧ s.main.isNone then some { s with main := some (.start p s.tx) } else none
  | .mainStep =>
    if s.inIrq then none
    else s.main.map fun c =>
      match c.step s.tx with
      | (.inl c', tx) => { s with tx := tx, main := some c' }
      | (.inr err, tx) =>
        { s with tx := tx, main := none, returned := s.returned ++ [(c.p, err)] }
  | .irqEnter => if s.inIrq then none else some { s with inIrq := true }
  | .irqCall p =>
    if s.inIrq ∧ s.irq.isNone then some { s with irq := some (.start p s.tx) } else none
  | .irqStep =>
    s.irq.map fun c =>
      match c.step s.tx with
      | (.inl c', tx) => { s with tx := tx, irq := some c' }
      | (.inr err, tx) => { s with tx := tx, irq := none, returned := s.returned ++ [(c.p, err)] }
  | .irqExit => if s.inIrq ∧ s.irq.isNone then some { s with inIrq := false } else none
  | .dma => some { s with tx := s.tx.dmaStep }

def preemptInit (tab : Fin ethTxBufNb → DmaDesc ethTxBufNb) (buff : Fin ethTxBufNb → Memory)
    (eth : EthRegs) : PreemptSystem :=
  ⟨lowLevelInitTx tab buff eth, none, false, none, []⟩

/-- What the calls of both sides have handed over. -/
def PreemptSystem.transmitted (s : PreemptSystem) : TxSystem := ⟨s.tx, none, s.returned⟩

def FrameFits : PreemptEvent → Prop
  | .mainCall p | .irqCall p => p.totLen ≤ ethMaxPacketSize
  | _ => True

/-- A call that is done copying. -/
def OutputCall.Copied (c : OutputCall) : Prop := c.q.isEmpty = true

/-- The current descriptor is free whenever a call fetches its buffer or hands it
over. -/
def NeverFull (s : PreemptSystem) : PreemptEvent → Prop
  | .mainCall _ | .irqCall _ => ¬ s.tx.Own s.tx.dmaTxDescToSet
  | .mainStep => ∀ c ∈ s.main, c.Copied → ¬ s.tx.Own s.tx.dmaTxDescToSet
  | .irqStep => ∀ c ∈ s.irq, c.Copied → ¬ s.tx.Own s.tx.dmaTxDescToSet
  | _ => True

/-- The handler does not get in the way of the call in the main loop: that call
copies into a buffer that the DMA does not own and hands over the buffer it has
fetched, and nothing is copied over what it has copied. -/
def Undisturbed (s : PreemptSystem) : PreemptEvent → Prop
  | .mainStep => ∀ c ∈ s.main, (c.Copied → c.buffer = ethGetCurrentTxBuffer s.tx) ∧
      (¬ c.Copied → ¬ s.tx.Own c.buffer)
  | .irqStep => ∀ c ∈ s.main, ∀ d ∈ s.irq, ¬ d.Copied → d.buffer = c.buffer → c.l = 0
  | _ => True

instance : (e : PreemptEvent) → Decidable (FrameFits e)
  | .mainCall p | .irqCall p => inferInstanceAs (Decidable (p.totLen ≤ ethMaxPacketSize))
  | .mainStep | .irqEnter | .irqStep | .irqExit | .dma => .isTrue trivial

instance (c : OutputCall) : Decidable c.Copied := inferInstanceAs (Decidable (_ = _))

instance (s : PreemptSystem) : (e : PreemptEvent) → Decidable (NeverFull s e)
  | .mainCall _ | .irqCall _ => inferInstanceAs (Decidable (¬ _))
  | .mainStep => inferInstanceAs (Decidable (∀ c ∈ s.main, _ → _))
  | .irqStep => inferInstanceAs (Decidable (∀ c ∈ s.irq, _ → _))
  | .irqEnter | .irqExit | .dma => .isTrue trivial

instance (s : PreemptSystem) : (e : PreemptEvent) → Decidable (Undisturbed s e)
  | .mainStep => inferInstanceAs (Decidable (∀ c ∈ s.main, (_ → _) ∧ (_ → _)))
  | .irqStep => inferInstanceAs (Decidable (∀ c ∈ s.main, ∀ d ∈ s.irq, _ → _ → _))
  | .mainCall _ | .irqEnter | .irqCall _ | .irqExit | .dma => .isTrue trivial

/-! ### What a step does -/

inductive PreemptEffect (s : PreemptSystem) : PreemptEvent → PreemptSystem → Prop
  | mainCall (p : Pbuf) (hin : s.inIrq = false) (hidle : s.main = none) :
    PreemptEffect s (.mainCall p) { s with main := some (.start p s.tx) }
  | mainCopy {c : OutputCall} {q : PbufSeg} {qs : List PbufSeg} (hin : s.inIrq = false)
      (hmain : c ∈ s.main) (hq : c.q = q :: qs) :
    PreemptEffect s .mainStep
      { s with tx := s.tx.copy c.buffer c.l q, main := some { c with q := qs, l := c.l + q.len } }
  | mainReturn {c : OutputCall} (hin : s.inIrq = false) (hmain : c ∈ s.main) (hq : c.q = []) :
    PreemptEffect s .mainStep
      { s with
        tx := (ethTxPktChainMode (BitVec.ofNat 16 c.l) s.tx).2
        main := none
        returned := s.returned ++ [(c.p, .ok)] }
  | irqEnter (hin : s.inIrq = false) : PreemptEffect s .irqEnter { s with inIrq := true }
  | irqCall (p : Pbuf) (hin : s.inIrq = true) (hidle : s.irq = none) :
    PreemptEffect s (.irqCall p) { s with irq := some (.start p s.tx) }
  | irqCopy {d : OutputCall} {q : PbufSeg} {qs : List PbufSeg} (hirq : d ∈ s.irq)
      (hq : d.q = q :: qs) :
    PreemptEffect s .irqStep
      { s with tx := s.tx.copy d.buffer d.l q, irq := some { d with q := qs, l := d.l + q.len } }
  | irqReturn {d : OutputCall} (hirq : d ∈ s.irq) (hq : d.q = []) :
    PreemptEffect s .irqStep
      { s with
        tx := (ethTxPktChainMode (BitVec.ofNat 16 d.l) s.tx).2
        irq := none
        returned := s.returned ++ [(d.p, .ok)] }
  | irqExit (hin : s.inIrq = true) (hidle : s.irq = none) :
    PreemptEffect s .irqExit { s with inIrq := false }
  | dma : PreemptEffect s .dma { s with tx := s.tx.dmaStep }

theorem preemptStep_effect {s t : PreemptSystem} {e : PreemptEvent}
    (h : preemptStep s e = some t) : PreemptEffect s e t := by
  cases e with
  | mainCall p =>
    simp only [preemptStep] at h
    split_ifs at h with hcan
    obtain rfl := Option.some.inj h
    exact .mainCall p (Bool.not_eq_true _ ▸ hcan.1) (Option.isNone_iff_eq_none.mp hcan.2)
  | mainStep =>
    simp only [preemptStep] at h
    split_ifs at h with hin
    obtain ⟨c, hmain, rfl⟩ := Option.map_eq_some_iff.mp h
    cases hq : c.q with
    | cons q qs =>
      simp only [OutputCall.step, hq]
      exact .mainCopy (Bool.not_eq_true _ ▸ hin) hmain hq
    | nil =>
      simp only [OutputCall.step, hq]
      exact .mainReturn (Bool.not_eq_true _ ▸ hin) hmain hq
  | irqEnter =>
    simp only [preemptStep] at h
    split_ifs at h with hin
    obtain rfl := Option.some.inj h
    exact .irqEnter (Bool.not_eq_true _ ▸ hin)
  | irqCall p =>
    simp only [preemptStep] at h
    split_ifs at h with hcan
    obtain rfl := Option.some.inj h
    exact .irqCall p hcan.1 (Option.isNone_iff_eq_none.mp hcan.2)
  | irqStep =>
    obtain ⟨d, hirq, rfl⟩ := Option.map_eq_some_iff.mp h
    cases hq : d.q with
    | cons q qs =>
      simp only [OutputCall.step, hq]
      exact .irqCopy hirq hq
    | nil =>
      simp only [OutputCall.step, hq]
      exact .irqReturn hirq hq
  | irqExit =>
    simp only [preemptStep] at h
    split_ifs at h with hcan
    obtain rfl := Option.some.inj h
    exact .irqExit hcan.1 (Option.isNone_iff_eq_none.mp hcan.2)
  | dma =>
    obtain rfl := Option.some.inj h
    exact .dma

/-! ### The invariant -/

/-- The bytes that a call has copied are still in its buffer. -/
structure PrefixKept (tx : Tx) (c : OutputCall) : Prop where
  copied : c.p.bytes = (tx.txBuff c.buffer).read 0 c.l ++ c.q.flatMap PbufSeg.bytes
  fits : c.p.totLen ≤ ethMaxPacketSize

/-- A call that has begun with a free descriptor. -/
structure FreeCall (tx : Tx) (c : OutputCall) : Prop extends CallInv tx c where
  free : ¬ tx.Own tx.dmaTxDescToSet

structure PreemptInv (s : PreemptSystem) (pending : List Bytes) : Prop where
  queue : s.tx.Pending pending
  frames : s.transmitted.okFrames = s.tx.wire ++ pending
  main : ∀ c ∈ s.main, PrefixKept s.tx c
  -- a call of the handler is not interrupted
  irq : ∀ c ∈ s.irq, FreeCall s.tx c
  inIrq : s.irq.isSome → s.inIrq = true

section Call

variable {tx : Tx} {c : OutputCall} {pending : List Bytes} {q : PbufSeg} {qs : List PbufSeg}

theorem CallInv.prefixKept (h : CallInv tx c) : PrefixKept tx c := ⟨h.copied, h.fits⟩

theorem FreeCall.copy (h : FreeCall tx c) (hq : c.q = q :: qs) :
    FreeCall (tx.copy c.buffer c.l q) { c with q := qs, l := c.l + q.len } :=
  ⟨h.toCallInv.copy h.free hq, h.free⟩

theorem FreeCall.dmaStep (h : FreeCall tx c) : FreeCall tx.dmaStep c := by
  refine ⟨h.toCallInv.dmaStep, ?_⟩
  rw [Tx.dmaStep_dmaTxDescToSet]
  exact mt Tx.own_of_dmaStep_own h.free

theorem PrefixKept.length (h : PrefixKept tx c) (hq : c.q = []) : c.l = c.p.totLen := by
  have hlen := congrArg List.length h.copied
  rw [Pbuf.bytes_length, hq] at hlen
  simpa using hlen.symm

theorem PrefixKept.congr {tx' : Tx} (h : PrefixKept tx c)
    (hbuff : tx'.txBuff c.buffer = tx.txBuff c.buffer) : PrefixKept tx' c :=
  ⟨by rw [hbuff, h.copied], h.fits⟩

theorem PrefixKept.copy (h : PrefixKept tx c) (hq : c.q = q :: qs) :
    PrefixKept (tx.copy c.buffer c.l q) { c with q := qs, l := c.l + q.len } where
  copied := copied_copy h.copied hq
  fits := h.fits

/-- Somebody else's copy spares what the call has copied. -/
theorem PrefixKept.copy_other (h : PrefixKept tx c) {buffer : Fin ethTxBufNb} (l : ℕ)
    (q : PbufSeg) (hspared : buffer = c.buffer → c.l = 0) :
    PrefixKept (tx.copy buffer l q) c := by
  by_cases hbuffer : buffer = c.buffer
  · refine ⟨?_, h.fits⟩
    rw [h.copied, hspared hbuffer]
    rfl
  · apply h.congr
    simp only [Tx.copy, Function.update_of_ne (Ne.symm hbuffer)]

/-- Handing over the current descriptor queues the frame of a call that has copied
it into the buffer of that descriptor. -/
theorem PrefixKept.submit (h : PrefixKept tx c) (hqueue : tx.Pending pending) (hq : c.q = [])
    (hbuffer : c.buffer = tx.dmaTxDescToSet) (hfree : ¬ tx.Own tx.dmaTxDescToSet) :
    (ethTxPktChainMode (BitVec.ofNat 16 c.l) tx).2 = tx.submit (BitVec.ofNat 16 c.l) ∧
      (tx.submit (BitVec.ofNat 16 c.l)).Pending (pending ++ [c.p.bytes]) := by
  have hl : c.l ≤ ethMaxPacketSize := by
    rw [h.length hq]
    exact h.fits
  have hframe : c.p.bytes = (tx.txBuff tx.dmaTxDescToSet).read 0 c.l := by
    rw [h.copied, hq, hbuffer, List.flatMap_nil, List.append_nil]
  refine ⟨by rw [ethTxPktChainMode, if_neg hfree], ?_⟩
  rw [hframe]
  exact hqueue.submit hfree hl

end Call

theorem okFrames_append (s : PreemptSystem) (tx : Tx) (c : OutputCall) :
    (TxSystem.mk tx none (s.returned ++ [(c.p, .ok)])).okFrames =
      s.transmitted.okFrames ++ [c.p.bytes] := by
  simp [TxSystem.okFrames, PreemptSystem.transmitted]

section Step

variable {s t : PreemptSystem} {pending : List Bytes}

theorem preemptInv_init (tab : Fin ethTxBufNb → DmaDesc ethTxBufNb)
    (buff : Fin ethTxBufNb → Memory) (eth : EthRegs) :
    PreemptInv (preemptInit tab buff eth) [] where
  queue := (txInv_init tab buff eth).queue
  frames := rfl
  main := nofun
  irq := nofun
  inIrq := nofun

/-- While the main loop runs, no call of the handler is there. -/
theorem PreemptInv.irq_eq_none (h : PreemptInv s pending) (hin : s.inIrq = false) :
    s.irq = none := by
  by_contra hsome
  have hirq := h.inIrq (Option.isSome_iff_ne_none.mpr hsome)
  exact Bool.noConfusion (hin.symm.trans hirq)

/-- A call that hands over its frame returns it as the last one. -/
theorem PreemptInv.frames_submit (h : PreemptInv s pending) (tx : Tx) (c : OutputCall)
    (hwire : tx.wire = s.tx.wire) :
    (TxSystem.mk tx none (s.returned ++ [(c.p, .ok)])).okFrames =
      tx.wire ++ (pending ++ [c.p.bytes]) := by
  rw [okFrames_append s tx c, h.frames, hwire, List.append_assoc]

section Call

variable {c d : OutputCall} {q : PbufSeg} {qs : List PbufSeg}

theorem PreemptInv.mainCopy (h : PreemptInv s pending) (hin : s.inIrq = false) (hmain : c ∈ s.main)
    (hq : c.q = q :: qs) (hfree : ¬ s.tx.Own c.buffer) :
    PreemptInv { s with
      tx := s.tx.copy c.buffer c.l q
      main := some { c with q := qs, l := c.l + q.len } } pending := by
  have hnone := h.irq_eq_none hin
  refine ⟨h.queue.copy hfree c.l q, h.frames, ?_, ?_, ?_⟩
  · rintro _ ⟨⟩
    exact (h.main c hmain).copy hq
  · simp [hnone]
  · simp [hnone]

theorem PreemptInv.mainReturn (h : PreemptInv s pending) (hin : s.inIrq = false)
    (hmain : c ∈ s.main) (hq : c.q = []) (hbuffer : c.buffer = s.tx.dmaTxDescToSet)
    (hfree : ¬ s.tx.Own s.tx.dmaTxDescToSet) :
    PreemptInv { s with
      tx := (ethTxPktChainMode (BitVec.ofNat 16 c.l) s.tx).2
      main := none
      returned := s.returned ++ [(c.p, .ok)] } (pending ++ [c.p.bytes]) := by
  have hnone := h.irq_eq_none hin
  obtain ⟨htx, hpending⟩ := (h.main c hmain).submit h.queue hq hbuffer hfree
  rw [htx]
  refine ⟨hpending, h.frames_submit _ c rfl, ?_, ?_, ?_⟩
  · simp
  · simp [hnone]
  · simp [hnone]

theorem PreemptInv.irqCopy (h : PreemptInv s pending) (hirq : d ∈ s.irq) (hq : d.q = q :: qs)
    (hspared : ∀ c ∈ s.main, d.buffer = c.buffer → c.l = 0) :
    PreemptInv { s with
      tx := s.tx.copy d.buffer d.l q
      irq := some { d with q := qs, l := d.l + q.len } } pending := by
  have hcall := h.irq d hirq
  have hfree : ¬ s.tx.Own d.buffer := hcall.buffer_eq ▸ hcall.free
  have hin := h.inIrq (Option.isSome_iff_exists.mpr ⟨d, hirq⟩)
  refine ⟨h.queue.copy hfree d.l q, h.frames, ?_, ?_, fun _ => hin⟩
  · exact fun c hc => (h.main c hc).copy_other d.l q (hspared c hc)
  · rintro _ ⟨⟩
    exact hcall.copy hq

theorem PreemptInv.irqReturn (h : PreemptInv s pending) (hirq : d ∈ s.irq) (hq : d.q = []) :
    PreemptInv { s with
      tx := (ethTxPktChainMode (BitVec.ofNat 16 d.l) s.tx).2
      irq := none
      returned := s.returned ++ [(d.p, .ok)] } (pending ++ [d.p.bytes]) := by
  have hcall := h.irq d hirq
  obtain ⟨htx, hpending⟩ := hcall.prefixKept.submit h.queue hq hcall.buffer_eq hcall.free
  rw [htx]
  refine ⟨hpending, h.frames_submit _ d rfl, ?_, ?_, ?_⟩
  · exact fun c hc => (h.main c hc).congr rfl
  · simp
  · simp

end Call

theorem PreemptInv.dma (h : PreemptInv s pending) :
    PreemptInv { s with tx := s.tx.dmaStep } (pending.drop 1) := by
  obtain ⟨hwire, hpending⟩ := h.queue.dmaStep
  refine ⟨hpending, ?_, ?_, ?_, h.inIrq⟩
  · have hframes : s.transmitted.okFrames =
        s.tx.wire ++ (pending.take 1 ++ pending.drop 1) := by
      rw [List.take_append_drop]
      exact h.frames
    rw [hwire, List.append_assoc]
    exact hframes
  · exact fun c hc => (h.main c hc).congr (by rw [Tx.dmaStep_txBuff])
  · exact fun c hc => (h.irq c hc).dmaStep

theorem preemptInv_step {e : PreemptEvent} (h : ∃ pending, PreemptInv s pending)
    (hfits : FrameFits e) (hfull : NeverFull s e) (hsafe : Undisturbed s e)
    (hstep : preemptStep s e = some t) : ∃ pending, PreemptInv t pending := by
  obtain ⟨pending, hinv⟩ := h
  cases preemptStep_effect hstep with
  | mainCall p hin hidle =>
    refine ⟨pending, hinv.queue, hinv.frames, ?_, hinv.irq, hinv.inIrq⟩
    rintro _ ⟨⟩
    exact (callInv_start hinv.queue.1 hfits).prefixKept
  | @mainCopy c q qs hin hmain hq =>
    have hfree := (hsafe c hmain).2 (by simp [OutputCall.Copied, hq])
    exact ⟨pending, hinv.mainCopy hin hmain hq hfree⟩
  | @mainReturn c hin hmain hq =>
    have hcopied : c.Copied := by simp [OutputCall.Copied, hq]
    have hbuffer := ((hsafe c hmain).1 hcopied).trans (hinv.queue.1 _).1
    exact ⟨_, hinv.mainReturn hin hmain hq hbuffer (hfull c hmain hcopied)⟩
  | irqEnter hin => exact ⟨pending, hinv.queue, hinv.frames, hinv.main, hinv.irq, fun _ => rfl⟩
  | irqCall p hin hidle =>
    refine ⟨pending, hinv.queue, hinv.frames, hinv.main, ?_, fun _ => hin⟩
    rintro _ ⟨⟩
    exact ⟨callInv_start hinv.queue.1 hfits, hfull⟩
  | @irqCopy d q qs hirq hq =>
    have hspared (c : OutputCall) (hc : c ∈ s.main) : d.buffer = c.buffer → c.l = 0 :=
      hsafe c hc d hirq (by simp [OutputCall.Copied, hq])
    exact ⟨pending, hinv.irqCopy hirq hq hspared⟩
  | irqReturn hirq hq => exact ⟨_, hinv.irqReturn hirq hq⟩
  | irqExit hin hidle =>
    refine ⟨pending, hinv.queue, hinv.frames, hinv.main, hinv.irq, ?_⟩
    simp [hidle]
  | dma => exact ⟨_, hinv.dma⟩

end Step

/-- In every run in which the ring is never full and the handler does not disturb
the call it interrupts, the frames of both sides leave the board, each once with its
own bytes and length, in the order in which their calls return. -/
theorem preempted_transmit_faithful (tab : Fin ethTxBufNb → DmaDesc ethTxBufNb)
    (buff : Fin ethTxBufNb → Memory) (eth : EthRegs) (es : List PreemptEvent) (s : PreemptSystem)
    (hfits : ∀ e ∈ es, FrameFits e)
    (hfull : Along preemptStep NeverFull (preemptInit tab buff eth) es)
    (hsafe : Along preemptStep Undisturbed (preemptInit tab buff eth) es)
    (hrun : run preemptStep (preemptInit tab buff eth) es = some s) : Faithful s.transmitted := by
  have hG := ((Along.of_forall (preemptInit tab buff eth) hfits).and hfull).and hsafe
  have hstep : ∀ s e t, (∃ pending, PreemptInv s pending) →
      (FrameFits e ∧ NeverFull s e) ∧ Undisturbed s e → preemptStep s e = some t →
        ∃ pending, PreemptInv t pending :=
    fun s e t h hg hst => preemptInv_step h hg.1.1 hg.1.2 hg.2 hst
  obtain ⟨pending, hinv⟩ := hG.invariant hstep ⟨[], preemptInv_init tab buff eth⟩ hrun
  exact ⟨pending, hinv.frames, hinv.queue.length_le, hinv.queue.wire_iterate⟩

/-! ### Handlers that do not send -/

/-- The handler sends nothing while a call of the main loop is running. -/
def NotNested (s : PreemptSystem) : PreemptEvent → Prop
  | .irqCall _ => s.main = none
  | _ => True

/-- A call of the main loop excludes one of the handler and still has the current
descriptor. -/
structure Alone (s : PreemptSystem) : Prop where
  chained : Chained s.tx.dmaTxDscrTab
  main : ∀ c ∈ s.main, s.irq = none ∧ c.buffer = s.tx.dmaTxDescToSet ∧
    ¬ s.tx.Own s.tx.dmaTxDescToSet
  inIrq : s.irq.isSome → s.inIrq = true

theorem Alone.undisturbed {s : PreemptSystem} (h : Alone s) (e : PreemptEvent) :
    Undisturbed s e := by
  cases e with
  | mainStep =>
    intro c hc
    obtain ⟨_, hbuffer, hfree⟩ := h.main c hc
    exact ⟨fun _ => hbuffer.trans (h.chained _).1.symm, fun _ => hbuffer ▸ hfree⟩
  | irqStep =>
    intro c hc d hd
    rw [(h.main c hc).1] at hd
    exact absurd hd nofun
  | mainCall | irqEnter | irqCall | irqExit | dma => trivial

theorem chained_ethTxPktChainMode {s : Tx} (h : Chained s.dmaTxDscrTab) (len : BitVec 16) :
    Chained (ethTxPktChainMode len s).2.dmaTxDscrTab := by
  rw [ethTxPktChainMode]
  split_ifs
  · exact h
  · exact Tx.Chained.submit h len

theorem chained_dmaStep {s : Tx} (h : Chained s.dmaTxDscrTab) :
    Chained s.dmaStep.dmaTxDscrTab := by
  rw [Tx.dmaStep]
  split_ifs
  · exact h.update s.dmaPos rfl rfl
  · exact h

/-- While a call of the handler is there, the main loop has none. -/
theorem Alone.main_eq_none {s : PreemptSystem} {d : OutputCall} (h : Alone s) (hirq : d ∈ s.irq) :
    s.main = none := by
  by_contra hsome
  obtain ⟨c, hc⟩ := Option.ne_none_iff_exists'.mp hsome
  exact absurd ((h.main c hc).1.symm.trans hirq) (Option.some_ne_none d).symm

theorem alone_step {s t : PreemptSystem} {e : PreemptEvent} (h : Alone s) (hfull : NeverFull s e)
    (hnested : NotNested s e) (hstep : preemptStep s e = some t) : Alone t := by
  cases preemptStep_effect hstep with
  | mainCall p hin hidle =>
    refine ⟨h.chained, ?_, h.inIrq⟩
    rintro _ ⟨⟩
    refine ⟨?_, (h.chained _).1, hfull⟩
    by_contra hsome
    have hirq := h.inIrq (Option.isSome_iff_ne_none.mpr hsome)
    exact Bool.noConfusion (hin.symm.trans hirq)
  | @mainCopy c q qs hin hmain hq =>
    refine ⟨h.chained, ?_, h.inIrq⟩
    rintro _ ⟨⟩
    exact h.main c hmain
  | mainReturn hin hmain hq =>
    exact ⟨chained_ethTxPktChainMode h.chained _, by simp, h.inIrq⟩
  | irqEnter hin => exact ⟨h.chained, h.main, fun _ => rfl⟩
  | irqCall p hin hidle =>
    have hnone : s.main = none := hnested
    exact ⟨h.chained, by simp [hnone], fun _ => hin⟩
  | irqCopy hirq hq =>
    have hnone := h.main_eq_none hirq
    have hin := h.inIrq (Option.isSome_iff_exists.mpr ⟨_, hirq⟩)
    exact ⟨h.chained, by simp [hnone], fun _ => hin⟩
  | irqReturn hirq hq =>
    have hnone := h.main_eq_none hirq
    exact ⟨chained_ethTxPktChainMode h.chained _, by simp [hnone], by simp⟩
  | irqExit hin hidle => exact ⟨h.chained, h.main, by simp [hidle]⟩
  | dma =>
    refine ⟨chained_dmaStep h.chained, fun c hc => ?_, h.inIrq⟩
    obtain ⟨hnone, hbuffer, hfree⟩ := h.main c hc
    rw [Tx.dmaStep_dmaTxDescToSet]
    exact ⟨hnone, hbuffer, mt Tx.own_of_dmaStep_own hfree⟩

/-- A handler that only receives while a call of the main loop is running does not
disturb it. -/
theorem undisturbed_of_not_nested (tab : Fin ethTxBufNb → DmaDesc ethTxBufNb)
    (buff : Fin ethTxBufNb → Memory) (eth : EthRegs) {es : List PreemptEvent}
    (hfull : Along preemptStep NeverFull (preemptInit tab buff eth) es)
    (hnested : Along preemptStep NotNested (preemptInit tab buff eth) es) :
    Along preemptStep Undisturbed (preemptInit tab buff eth) es := by
  refine (hfull.and hnested).of_invariant
    (fun s e t h hg hstep => alone_step h hg.1 hg.2 hstep) (fun s e h _ => h.undisturbed e) ?_
  exact ⟨fun i => ⟨rfl, chainLink_eq_next i⟩, nofun, nofun⟩

/-! ### Two interleavings -/

/-- The board after start-up with all memory zero. -/
def preemptIdle : PreemptSystem := preemptInit (fun i => ⟨0, 0, i, i⟩) (fun _ _ => 0) ⟨0, 0, 0⟩

/-- The handler sends the byte `b`. -/
def irqSendByte (b : UInt8) : List PreemptEvent :=
  [.irqEnter, .irqCall (.single [b] (show 1 < 2 ^ 16 by decide)), .irqStep, .irqStep, .irqExit]

/-- The main loop sends the byte 1; the handler runs between the fetch and the copy. -/
def preemptedByte (handler : List PreemptEvent) : List PreemptEvent :=
  [.mainCall (.single [1] (by decide))] ++ handler ++ [.mainStep, .mainStep]

/-- Two frames of the handler that the DMA sends before the main loop goes on. -/
def twoFrames : List PreemptEvent := preemptedByte (irqSendByte 2 ++ irqSendByte 3 ++ [.dma, .dma])

/-- They do no harm to a call that has copied nothing yet. -/
theorem preempted_transmit_faithful_two_frames :
    ∃ s, run preemptStep preemptIdle twoFrames = some s ∧ s.tx.wire = [[2], [3]] ∧
      s.transmitted.okFrames = [[2], [3], [1]] ∧ Faithful s.transmitted := by
  have hended : (run preemptStep preemptIdle twoFrames).map
      (fun s => (s.tx.wire, s.transmitted.okFrames)) = some ([[2], [3]], [[2], [3], [1]]) := by
    decide +kernel
  obtain ⟨s, hrun, hs⟩ := Option.map_eq_some_iff.mp hended
  obtain ⟨hwire, hframes⟩ := Prod.mk.inj hs
  refine ⟨s, hrun, hwire, hframes, ?_⟩
  exact preempted_transmit_faithful (fun i => ⟨0, 0, i, i⟩) (fun _ _ => 0) ⟨0, 0, 0⟩ twoFrames s
    (by decide) (by decide +kernel) (by decide +kernel) hrun

/-- One frame of the handler between the fetch and the copy: the main loop copies
into the buffer of the handler's frame, and the other buffer leaves in place of its
own. -/
theorem nested_frame_not_faithful :
    ∃ s, (∀ e ∈ preemptedByte (irqSendByte 2), FrameFits e) ∧
      Along preemptStep NeverFull preemptIdle (preemptedByte (irqSendByte 2)) ∧
      run preemptStep preemptIdle (preemptedByte (irqSendByte 2)) = some s ∧
      s.transmitted.okFrames = [[2], [1]] ∧ (Tx.dmaStep^[2] s.tx).wire = [[1], [0]] ∧
      ¬ Faithful s.transmitted := by
  have hended : (run preemptStep preemptIdle (preemptedByte (irqSendByte 2))).map
      (fun s => (s.transmitted.okFrames, s.tx.wire, (Tx.dmaStep^[2] s.tx).wire)) =
        some ([[2], [1]], [], [[1], [0]]) := by
    decide +kernel
  obtain ⟨s, hrun, hs⟩ := Option.map_eq_some_iff.mp hended
  simp only [Prod.mk.injEq] at hs
  obtain ⟨hframes, hnone, hwire⟩ := hs
  refine ⟨s, by decide, by decide +kernel, hrun, hframes, hwire, ?_⟩
  rintro ⟨pending, hpending, -, htake⟩
  have hnone' : s.transmitted.tx.wire = [] := hnone
  have htwo : [[1], [0]] = [] ++ pending.take 2 := by
    rw [← hwire, ← hnone']
    exact htake 2
  rw [hframes, hnone', List.nil_append] at hpending
  rw [← hpending] at htwo
  exact absurd htwo (by decide)

end EthMange.Ethernet
