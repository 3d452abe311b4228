import EthMange.Ethernet.RxWedge

/-!
# Received frames reach the stack in order

The descriptors of the driver are a queue of frames between the DMA and the
handler. If every frame fits one descriptor, the handler takes the frames off
that queue in order, gives every descriptor back once, after its bytes have
been copied, and passes on exactly those frames for which there was a pbuf.
-/

namespace EthMange.Ethernet

-- a filled descriptor: its status word and its buffer
abbrev RxFrame := BitVec 32 × Memory

def frameLength (status : BitVec 32) : ℕ := (ethGetDmaRxDescFrameLength status).toNat

/-- The bytes of a frame without its four bytes of CRC. -/
def payload (f : RxFrame) : Bytes := f.2.read 0 (frameLength f.1 - 4)

/-- A whole frame without error that fits one buffer. -/
def FitsBuffer (status : BitVec 32) : Prop :=
  IsWholeFrame status ∧ 4 < frameLength status ∧ frameLength status ≤ ethMaxPacketSize

instance (w : BitVec 32) : Decidable (FitsBuffer w) := inferInstanceAs (Decidable (_ ∧ _ ∧ _))

def FillsFitting : RxEvent → Prop
  | .fill f => FitsBuffer f.status
  | _ => True

instance : (e : RxEvent) → Decidable (FillsFitting e)
  | .fill f => inferInstanceAs (Decidable (FitsBuffer f.status))
  | .irq | .alloc _ | .step => .isTrue trivial

/-- The packets for the frames whose allocation succeeded. -/
def deliver (hist : List (RxFrame × Bool)) : List Bytes :=
  (hist.filter fun h => h.2).map fun h => payload h.1

theorem FitsBuffer.receivable {w : BitVec 32} (h : FitsBuffer w) : IsReceivable w := by
  refine ⟨h.1, fun hzero => ?_⟩
  have hlen := h.2.1
  rw [frameLength, hzero] at hlen
  simp at hlen

/-- Neither the subtraction of the CRC nor the 16-bit `len` loses anything. -/
theorem FitsBuffer.len {w : BitVec 32} (h : FitsBuffer w) :
    ((ethGetDmaRxDescFrameLength w - 4#32).setWidth 16).toNat = frameLength w - 4 := by
  have hlow := h.2.1
  have hhigh : frameLength w ≤ 1520 := h.2.2
  simp only [frameLength] at hlow hhigh ⊢
  have hle : (4#32).toNat ≤ (ethGetDmaRxDescFrameLength w).toNat := by
    rw [BitVec.toNat_ofNat]
    omega
  rw [BitVec.toNat_setWidth, BitVec.toNat_sub_of_le (BitVec.le_def.mpr hle), BitVec.toNat_ofNat]
  exact Nat.mod_eq_of_lt (by omega)

namespace Rx

variable {s : Rx} {get : Fin ethRxBufNb} {q : List RxFrame}

/-- From `get` on, the descriptors of the driver hold the frames `q`. -/
structure Waiting (s : Rx) (get : Fin ethRxBufNb) (q : List RxFrame) : Prop where
  chained : Chained s.dmaRxDscrTab
  ring : Ring.Holds (fun i => ¬ s.Own i) (fun i => ((s.dmaRxDscrTab i).status, s.rxBuff i))
    get s.dmaPos q
  fits : ∀ f ∈ q, FitsBuffer f.1

/-- The DMA adds a frame at the end, or loses it when it has no descriptor. -/
theorem Waiting.dmaFill (h : s.Waiting get q) {f : RxFill} (hf : FitsBuffer f.status) :
    ∃ new, (s.dmaFill f).Waiting get (q ++ new) ∧
      (s.dmaFill f).received = s.received ++ new := by
  by_cases hown : s.Own s.dmaPos
  · have hfill : s.dmaFill f =
        { s with
          dmaRxDscrTab := Function.update s.dmaRxDscrTab s.dmaPos
            { s.dmaRxDscrTab s.dmaPos with status := f.status }
          rxBuff := Function.update s.rxBuff s.dmaPos f.buffer
          dmaPos := Ring.next s.dmaPos
          midFrame := !decide (isSet f.status ethDmaRxDescLs)
          received := s.received ++ [(f.status, f.buffer)] } := by
      rw [Rx.dmaFill, if_pos hown, (h.chained s.dmaPos).1, (h.chained s.dmaPos).2]
    refine ⟨[(f.status, f.buffer)], ⟨?_, ?_, ?_⟩, by rw [hfill]⟩
    · rw [hfill]
      exact h.chained.update s.dmaPos rfl rfl
    · have hpush := h.ring.push (fun i => ¬ (s.dmaFill f).Own i)
        (fun i => (((s.dmaFill f).dmaRxDscrTab i).status, (s.dmaFill f).rxBuff i))
        (not_not.mpr hown)
        (by
          simp only [hfill, Own, Function.update_self]
          exact f.own_clear)
        (by
          intro i hi
          simp only [hfill, Own, Function.update_of_ne hi])
        (by
          intro i hi _
          simp only [hfill, Function.update_of_ne hi])
      simpa only [hfill, Function.update_self] using hpush
    · intro g hg
      obtain hg | hg := List.mem_append.mp hg
      · exact h.fits g hg
      · rw [List.mem_singleton.mp hg]
        exact hf
  · rw [dmaFill_of_not_own hown]
    rw [← List.append_nil q] at h
    exact ⟨[], ⟨h.chained, h.ring, h.fits⟩, by simp⟩

theorem Waiting.giveBack {cur : RxFrame} {rest : List RxFrame} (h : s.Waiting get (cur :: rest)) :
    (s.giveBack get).Waiting (Ring.next get) rest where
  chained := h.chained.update get rfl rfl
  ring := by
    obtain ⟨q', hq, hpop⟩ := h.ring.pop (fun i => ¬ (s.giveBack get).Own i)
      (fun i => (((s.giveBack get).dmaRxDscrTab i).status, (s.giveBack get).rxBuff i))
      (h.ring.full_get_iff.mpr (by simp))
      (by
        rw [not_not, Own, giveBack_desc, if_pos rfl]
        exact isSet_own)
      (by
        intro i hi
        rw [Own, giveBack_desc, if_neg hi, Own])
      (by
        intro i hi _
        rw [giveBack_desc, if_neg hi]
        rfl)
    obtain ⟨-, rfl⟩ := List.cons.inj hq
    exact hpop
  fits f hf := h.fits f (List.mem_cons_of_mem cur hf)

theorem Waiting.head {cur : RxFrame} {rest : List RxFrame} (h : s.Waiting get (cur :: rest)) :
    ¬ s.Own get ∧ (s.dmaRxDscrTab get).status = cur.1 ∧ s.rxBuff get = cur.2 ∧
      FitsBuffer cur.1 := by
  have hfull := h.ring.full_get_iff.mpr (by simp)
  have hval := h.ring.val_eq 0 (by simp)
  simp only [Ring.ahead_zero, List.getElem_cons_zero] at hval
  exact ⟨hfull, congrArg Prod.fst hval, congrArg Prod.snd hval, h.fits cur List.mem_cons_self⟩

theorem Waiting.pktSize_eq_zero_iff (h : s.Waiting s.dmaRxDescToGet q) :
    ethGetRxPktSize s = 0#32 ↔ q = [] := by
  cases q with
  | nil =>
    have hown : s.Own s.dmaRxDescToGet := by
      have := mt h.ring.full_get_iff.mp (by simp)
      exact not_not.mp this
    simp [ethGetRxPktSize, hown]
  | cons cur rest =>
    obtain ⟨hown, hstatus, -, hfits⟩ := h.head
    rw [ethGetRxPktSize_eq_zero_iff hown, hstatus]
    simp [hfits.receivable]

theorem Waiting.fetch {cur : RxFrame} {rest : List RxFrame}
    (h : s.Waiting s.dmaRxDescToGet (cur :: rest)) :
    ethRxPktChainMode s =
      (⟨ethGetDmaRxDescFrameLength cur.1 - 4#32, some s.dmaRxDescToGet, some s.dmaRxDescToGet⟩,
        { s with dmaRxDescToGet := Ring.next s.dmaRxDescToGet }) := by
  obtain ⟨hown, hstatus, -, hfits⟩ := h.head
  simp only [ethRxPktChainMode, if_neg hown, hstatus, if_pos hfits.1,
    (h.chained s.dmaRxDescToGet).1, (h.chained s.dmaRxDescToGet).2]

end Rx

/-! ### The system invariant -/

/-- No descriptor is in the hands of the handler. -/
structure AtRest (s : RxSystem) (hist : List (RxFrame × Bool)) (get : Fin ethRxBufNb) : Prop where
  get_eq : get = s.rx.dmaRxDescToGet
  allocs : s.allocs = hist.map Prod.snd
  fetched : s.fetched = s.released

/-- The handler has fetched the frame `cur` at `get` and not yet given its
descriptor back; `last` is the result of its allocation, if there is one yet. -/
structure InHand (s : RxSystem) (hist : List (RxFrame × Bool)) (get : Fin ethRxBufNb)
    (q : List RxFrame) (frame : FrameType) (cur : RxFrame) (last : List Bool) : Prop where
  head : q.head? = some cur
  frame_eq : frame = ⟨ethGetDmaRxDescFrameLength cur.1 - 4#32, some get, some get⟩
  toGet : s.rx.dmaRxDescToGet = Ring.next get
  allocs : s.allocs = hist.map Prod.snd ++ last
  fetched : s.fetched = s.released ++ [some get]
  packets : s.packets = deliver hist

/-- The part of the invariant that depends on where the handler stands. -/
def PcInv (s : RxSystem) (hist : List (RxFrame × Bool)) (get : Fin ethRxBufNb)
    (q : List RxFrame) : Prop :=
  match s.pc with
  | .idle => AtRest s hist get ∧ s.packets = deliver hist
  | .guard => AtRest s hist get ∧ s.packets = deliver hist
  | .fetch => AtRest s hist get ∧ s.packets = deliver hist ∧ q.head?.isSome
  | .alloc frame => ∃ cur, InHand s hist get q frame cur []
  | .copy frame lens l p => ∃ cur, InHand s hist get q frame cur [true] ∧
      p.flatten = cur.2.read 0 l ∧ l + lens.sum = frameLength cur.1 - 4
  | .release frame p => ∃ cur b, InHand s hist get q frame cur [b] ∧
      p.toList.map List.flatten = deliver [(cur, b)]
  | .input p => AtRest s hist get ∧ s.packets ++ p.toList.map List.flatten = deliver hist

/-- `hist` is what the handler has consumed, `q` what waits in the ring from
`get` on. -/
structure RxInv (s : RxSystem) (hist : List (RxFrame × Bool)) (get : Fin ethRxBufNb)
    (q : List RxFrame) : Prop where
  received : s.rx.received = hist.map Prod.fst ++ q
  waiting : s.rx.Waiting get q
  pc : PcInv s hist get q
  fetched_some : none ∉ s.fetched

theorem rxInv_init (buff : Fin ethRxBufNb → Memory) (eth : EthRegs) (zeroPage : Memory) :
    RxInv (rxInit buff eth zeroPage) [] ⟨0, by decide⟩ [] where
  received := rfl
  waiting := by
    refine ⟨fun i => ⟨rfl, chainLink_eq_next i⟩, Ring.Holds.empty (fun i => ?_) _, by simp⟩
    exact not_not.mpr isSet_own
  pc := ⟨⟨rfl, rfl, rfl⟩, rfl⟩
  fetched_some := by simp [rxInit]

theorem deliver_append (hist new : List (RxFrame × Bool)) :
    deliver (hist ++ new) = deliver hist ++ deliver new := by
  simp [deliver]

section
variable {s t : RxSystem} {hist : List (RxFrame × Bool)} {get : Fin ethRxBufNb}
  {q : List RxFrame}

theorem PcInv.dmaFill (h : PcInv s hist get q) (f : RxFill) (new : List RxFrame) :
    PcInv { s with rx := s.rx.dmaFill f } hist get (q ++ new) := by
  have hrest (h : AtRest s hist get) (pc : RxPc) :
      AtRest { s with rx := s.rx.dmaFill f, pc := pc } hist get :=
    ⟨by rw [Rx.dmaFill_dmaRxDescToGet]; exact h.get_eq, h.allocs, h.fetched⟩
  have hhand {frame cur last} (h : InHand s hist get q frame cur last) (pc : RxPc) :
      InHand { s with rx := s.rx.dmaFill f, pc := pc } hist get (q ++ new) frame cur last :=
    ⟨by simp [List.head?_append, h.head], h.frame_eq,
      by rw [Rx.dmaFill_dmaRxDescToGet]; exact h.toGet, h.allocs, h.fetched, h.packets⟩
  unfold PcInv at h ⊢
  cases hpc : s.pc with
  | idle => simp only [hpc] at h ⊢; exact ⟨hrest h.1 _, h.2⟩
  | guard => simp only [hpc] at h ⊢; exact ⟨hrest h.1 _, h.2⟩
  | input p => simp only [hpc] at h ⊢; exact ⟨hrest h.1 _, h.2⟩
  | fetch =>
    simp only [hpc] at h ⊢
    refine ⟨hrest h.1 _, h.2.1, ?_⟩
    obtain ⟨cur, hcur⟩ := Option.isSome_iff_exists.mp h.2.2
    simp [List.head?_append, hcur]
  | alloc frame =>
    simp only [hpc] at h ⊢
    obtain ⟨cur, h⟩ := h
    exact ⟨cur, hhand h _⟩
  | copy frame lens l p =>
    simp only [hpc] at h ⊢
    obtain ⟨cur, h, hp⟩ := h
    exact ⟨cur, hhand h _, hp⟩
  | release frame p =>
    simp only [hpc] at h ⊢
    obtain ⟨cur, b, h, hp⟩ := h
    exact ⟨cur, b, hhand h _, hp⟩

theorem InHand.cons {frame : FrameType} {cur : RxFrame} {last : List Bool}
    (h : InHand s hist get q frame cur last) : ∃ rest, q = cur :: rest :=
  List.head?_eq_some_iff.mp h.head

theorem InHand.source {frame : FrameType} {cur : RxFrame} {last : List Bool}
    (h : InHand s hist get q frame cur last) (hw : s.rx.Waiting get q) :
    s.rx.source frame = cur.2 := by
  obtain ⟨rest, rfl⟩ := h.cons
  rw [Rx.source, h.frame_eq]
  exact hw.head.2.2.1

theorem InHand.len {frame : FrameType} {cur : RxFrame} {last : List Bool}
    (h : InHand s hist get q frame cur last) (hw : s.rx.Waiting get q) :
    frame.len = frameLength cur.1 - 4 := by
  obtain ⟨rest, rfl⟩ := h.cons
  rw [FrameType.len, h.frame_eq]
  exact hw.head.2.2.2.len

/-! ### The steps of the handler -/

theorem rxInv_guard (h : RxInv s hist get q) (hpc : s.pc = .guard)
    (hstep : handlerStep s = some t) : RxInv t hist get q := by
  have hp := h.pc
  simp only [PcInv, hpc] at hp
  obtain ⟨hrest, hpackets⟩ := hp
  have hwait : s.rx.Waiting s.rx.dmaRxDescToGet q := hrest.get_eq ▸ h.waiting
  simp only [handlerStep, hpc, Option.some.injEq] at hstep
  subst hstep
  refine ⟨h.received, h.waiting, ?_, h.fetched_some⟩
  by_cases hsize : ethGetRxPktSize s.rx = 0#32
  · simp only [PcInv, hsize, ne_eq, not_true_eq_false, if_false]
    exact ⟨⟨hrest.get_eq, hrest.allocs, hrest.fetched⟩, hpackets⟩
  · simp only [PcInv, hsize, ne_eq, not_false_eq_true, if_true]
    refine ⟨⟨hrest.get_eq, hrest.allocs, hrest.fetched⟩, hpackets, ?_⟩
    rw [List.isSome_head?]
    exact mt hwait.pktSize_eq_zero_iff.mpr hsize

/-- The frame at the head of the queue is taken in hand. -/
theorem rxInv_fetch (h : RxInv s hist get q) (hpc : s.pc = .fetch)
    (hstep : handlerStep s = some t) : RxInv t hist get q := by
  have hp := h.pc
  simp only [PcInv, hpc] at hp
  obtain ⟨hrest, hpackets, hhead⟩ := hp
  obtain ⟨cur, hcur⟩ := Option.isSome_iff_exists.mp hhead
  obtain ⟨rest, rfl⟩ := List.head?_eq_some_iff.mp hcur
  have hwait : s.rx.Waiting s.rx.dmaRxDescToGet (cur :: rest) := hrest.get_eq ▸ h.waiting
  simp only [handlerStep, hpc, hwait.fetch, Option.some.injEq] at hstep
  subst hstep
  refine ⟨h.received, ⟨h.waiting.chained, h.waiting.ring, h.waiting.fits⟩,
    ⟨cur, rfl, ?_, ?_, ?_, ?_, hpackets⟩, ?_⟩
  · rw [hrest.get_eq]
  · rw [hrest.get_eq]
  · simpa using hrest.allocs
  · rw [hrest.fetched, hrest.get_eq]
  · simpa using h.fetched_some

theorem rxInv_copy (h : RxInv s hist get q) {frame : FrameType} {lens : List ℕ} {l : ℕ}
    {p : List Bytes} (hpc : s.pc = .copy frame lens l p) (hstep : handlerStep s = some t) :
    RxInv t hist get q := by
  have hp := h.pc
  simp only [PcInv, hpc] at hp
  obtain ⟨cur, hhand, hcopied, hlen⟩ := hp
  cases lens with
  | nil =>
    simp only [handlerStep, hpc, Option.some.injEq] at hstep
    subst hstep
    refine ⟨h.received, h.waiting, ⟨cur, true, ⟨hhand.head, hhand.frame_eq,
      hhand.toGet, hhand.allocs, hhand.fetched, hhand.packets⟩, ?_⟩, h.fetched_some⟩
    have hl : l = frameLength cur.1 - 4 := by simpa using hlen
    simp [deliver, payload, hcopied, hl]
  | cons len lens =>
    simp only [handlerStep, hpc, Option.some.injEq] at hstep
    subst hstep
    refine ⟨h.received, h.waiting, ⟨cur, ⟨hhand.head, hhand.frame_eq,
      hhand.toGet, hhand.allocs, hhand.fetched, hhand.packets⟩, ?_, ?_⟩, h.fetched_some⟩
    · rw [hhand.source h.waiting, List.flatten_append, hcopied, Memory.read_add]
      simp
    · rw [← hlen, List.sum_cons]
      omega

/-- The descriptor goes back and its frame into the history. -/
theorem rxInv_release (h : RxInv s hist get q) {frame : FrameType} {p : Option (List Bytes)}
    (hpc : s.pc = .release frame p) (hstep : handlerStep s = some t) :
    ∃ hist q, RxInv t hist (Ring.next get) q := by
  have hp := h.pc
  simp only [PcInv, hpc] at hp
  obtain ⟨cur, b, hhand, hresult⟩ := hp
  obtain ⟨rest, rfl⟩ := hhand.cons
  have hdesc : frame.descriptor = some get := by rw [hhand.frame_eq]
  simp only [handlerStep, hpc, hdesc, Option.elim_some, Option.some.injEq] at hstep
  subst hstep
  have hback := h.waiting.giveBack
  refine ⟨hist ++ [(cur, b)], rest, ?_, ⟨hback.chained, hback.ring, hback.fits⟩,
    ⟨⟨?_, ?_, hhand.fetched⟩, ?_⟩, h.fetched_some⟩
  · simpa [Rx.giveBack] using h.received
  · exact hhand.toGet.symm
  · simpa using hhand.allocs
  · rw [deliver_append, ← hresult, hhand.packets]

theorem rxInv_handlerStep (h : RxInv s hist get q) (hstep : handlerStep s = some t) :
    ∃ hist get q, RxInv t hist get q := by
  cases hpc : s.pc with
  | idle => simp [handlerStep, hpc] at hstep
  | alloc frame => simp [handlerStep, hpc] at hstep
  | guard => exact ⟨hist, get, q, rxInv_guard h hpc hstep⟩
  | fetch => exact ⟨hist, get, q, rxInv_fetch h hpc hstep⟩
  | copy frame lens l p => exact ⟨hist, get, q, rxInv_copy h hpc hstep⟩
  | release frame p =>
    obtain ⟨hist', q', h'⟩ := rxInv_release h hpc hstep
    exact ⟨hist', Ring.next get, q', h'⟩
  | input p =>
    have hp := h.pc
    simp only [PcInv, hpc] at hp
    simp only [handlerStep, hpc, Option.some.injEq] at hstep
    subst hstep
    exact ⟨hist, get, q, h.received, h.waiting, ⟨⟨hp.1.get_eq, hp.1.allocs, hp.1.fetched⟩, hp.2⟩,
      h.fetched_some⟩

theorem rxInv_allocStep (h : RxInv s hist get q) {r : Option (List ℕ)}
    (hstep : allocStep s r = some t) : RxInv t hist get q := by
  have hp := h.pc
  simp only [allocStep] at hstep
  split at hstep
  · next frame hpc =>
    simp only [PcInv, hpc] at hp
    obtain ⟨cur, hhand⟩ := hp
    cases hstep
    refine ⟨h.received, h.waiting, ⟨cur, false, ⟨hhand.head, hhand.frame_eq, hhand.toGet, ?_,
      hhand.fetched, hhand.packets⟩, by simp [deliver]⟩, h.fetched_some⟩
    simpa using hhand.allocs
  · next frame lens hpc =>
    simp only [PcInv, hpc] at hp
    obtain ⟨cur, hhand⟩ := hp
    split at hstep
    · next hsum =>
      cases hstep
      refine ⟨h.received, h.waiting, ⟨cur, ⟨hhand.head, hhand.frame_eq, hhand.toGet, ?_,
        hhand.fetched, hhand.packets⟩, rfl, ?_⟩, h.fetched_some⟩
      · simpa using hhand.allocs
      · rw [Nat.zero_add, hsum, hhand.len h.waiting]
    · cases hstep
  · cases hstep

end

theorem rxInv_step {s t : RxSystem} {e : RxEvent} (h : ∃ hist get q, RxInv s hist get q)
    (hfill : FillsFitting e) (hstep : rxStep s e = some t) :
    ∃ hist get q, RxInv t hist get q := by
  obtain ⟨hist, get, q, h⟩ := h
  cases e with
  | fill f =>
    simp only [rxStep, Option.ite_none_right_eq_some, Option.some.injEq] at hstep
    obtain ⟨-, rfl⟩ := hstep
    obtain ⟨new, hwait, hreceived⟩ := h.waiting.dmaFill hfill
    refine ⟨hist, get, q ++ new, ?_, hwait, h.pc.dmaFill f new, h.fetched_some⟩
    rw [hreceived, h.received, List.append_assoc]
  | irq =>
    have hp := h.pc
    cases hpc : s.pc <;> simp only [rxStep, hpc, Option.some.injEq, reduceCtorEq] at hstep
    subst hstep
    simp only [PcInv, hpc] at hp
    exact ⟨hist, get, q, h.received, h.waiting,
      ⟨⟨hp.1.get_eq, hp.1.allocs, hp.1.fetched⟩, hp.2⟩, h.fetched_some⟩
  | alloc r => exact ⟨hist, get, q, rxInv_allocStep h hstep⟩
  | step => exact rxInv_handlerStep h hstep

/-! ### Faithful reception -/

/-- The packets passed on so far are those of the frames received and allocated
so far, in order; when the handler is not inside its loop body they are all of
them. Descriptors are given back in the order in which they are fetched, one at
a time, and no null descriptor is ever fetched or written through. -/
structure FifoFaithful (s : RxSystem) : Prop where
  packets_prefix : s.packets <+: deliver (s.rx.received.zip s.allocs)
  packets_eq : s.pc = .idle ∨ s.pc = .guard → s.packets = deliver (s.rx.received.zip s.allocs)
  drained : s.pc = .guard → ethGetRxPktSize s.rx = 0#32 →
    s.allocs.length = s.rx.received.length
  released : s.fetched = s.released ∨ ∃ d, s.fetched = s.released ++ [d]
  released_eq : s.pc = .idle ∨ s.pc = .guard → s.fetched = s.released
  fetched_some : none ∉ s.fetched
  released_some : none ∉ s.released

/-- A descriptor that is given back is the one fetched last, still belongs to the
driver, and its `FL - 4` bytes are in the pbuf chain, if there is one. -/
def ReleasesCopied (s : RxSystem) (e : RxEvent) : Prop :=
  ∀ frame p, e = .step → s.pc = .release frame p →
    ∃ d, frame.descriptor = some d ∧ s.fetched = s.released ++ [some d] ∧ ¬ s.rx.Own d ∧
      ∀ chain, p = some chain →
        chain.flatten = payload ((s.rx.dmaRxDscrTab d).status, s.rx.rxBuff d)

section
variable {s : RxSystem} {hist : List (RxFrame × Bool)} {get : Fin ethRxBufNb} {q : List RxFrame}

theorem RxInv.zip (h : RxInv s hist get q) (last : List Bool)
    (hallocs : s.allocs = hist.map Prod.snd ++ last) :
    s.rx.received.zip s.allocs = hist ++ q.zip last := by
  rw [h.received, hallocs, List.zip_append (by simp), List.zip_map']
  simp

theorem RxInv.zip_atRest (h : RxInv s hist get q) (hrest : AtRest s hist get) :
    s.rx.received.zip s.allocs = hist := by
  simpa using h.zip [] (by simpa using hrest.allocs)

theorem RxInv.fetched_cases (h : RxInv s hist get q) :
    s.fetched = s.released ∨ ∃ d, s.fetched = s.released ++ [d] := by
  have hp := h.pc
  rw [PcInv] at hp
  split at hp
  · exact .inl hp.1.fetched
  · exact .inl hp.1.fetched
  · exact .inl hp.1.fetched
  · obtain ⟨cur, hhand⟩ := hp
    exact .inr ⟨_, hhand.fetched⟩
  · obtain ⟨cur, hhand, -⟩ := hp
    exact .inr ⟨_, hhand.fetched⟩
  · obtain ⟨cur, b, hhand, -⟩ := hp
    exact .inr ⟨_, hhand.fetched⟩
  · exact .inl hp.1.fetched

theorem RxInv.packets_prefix (h : RxInv s hist get q) :
    s.packets <+: deliver (s.rx.received.zip s.allocs) := by
  have hhand : ∀ {frame cur last}, InHand s hist get q frame cur last →
      s.packets <+: deliver (s.rx.received.zip s.allocs) := fun hhand => by
    rw [h.zip _ hhand.allocs, deliver_append, hhand.packets]
    exact List.prefix_append _ _
  have hp := h.pc
  rw [PcInv] at hp
  split at hp
  · rw [h.zip_atRest hp.1, hp.2]
  · rw [h.zip_atRest hp.1, hp.2]
  · rw [h.zip_atRest hp.1, hp.2.1]
  · obtain ⟨cur, hp⟩ := hp
    exact hhand hp
  · obtain ⟨cur, hp, -⟩ := hp
    exact hhand hp
  · obtain ⟨cur, b, hp, -⟩ := hp
    exact hhand hp
  · rw [h.zip_atRest hp.1, ← hp.2]
    exact List.prefix_append _ _

theorem RxInv.outside (h : RxInv s hist get q) (hpc : s.pc = .idle ∨ s.pc = .guard) :
    AtRest s hist get ∧ s.packets = deliver hist := by
  have hp := h.pc
  rw [PcInv] at hp
  obtain hpc | hpc := hpc
  · simpa only [hpc] using hp
  · simpa only [hpc] using hp

theorem RxInv.fifoFaithful (h : RxInv s hist get q) : FifoFaithful s where
  packets_prefix := h.packets_prefix
  packets_eq hpc := by
    obtain ⟨hrest, hpackets⟩ := h.outside hpc
    rw [h.zip_atRest hrest, hpackets]
  drained hpc hsize := by
    obtain ⟨hrest, -⟩ := h.outside (.inr hpc)
    have hwait : s.rx.Waiting s.rx.dmaRxDescToGet q := hrest.get_eq ▸ h.waiting
    rw [h.received, hrest.allocs, hwait.pktSize_eq_zero_iff.mp hsize]
    simp
  released := h.fetched_cases
  released_eq hpc := (h.outside hpc).1.fetched
  fetched_some := h.fetched_some
  released_some hnone := by
    apply h.fetched_some
    obtain heq | ⟨d, heq⟩ := h.fetched_cases
    · rwa [heq]
    · rw [heq]
      exact List.mem_append_left _ hnone

theorem RxInv.releasesCopied (h : RxInv s hist get q) (e : RxEvent) : ReleasesCopied s e := by
  rintro frame p - hpc
  have hp := h.pc
  simp only [PcInv, hpc] at hp
  obtain ⟨cur, b, hhand, hresult⟩ := hp
  obtain ⟨rest, rfl⟩ := hhand.cons
  obtain ⟨hown, hstatus, hbuff, -⟩ := h.waiting.head
  refine ⟨get, by rw [hhand.frame_eq], hhand.fetched, hown, fun chain hchain => ?_⟩
  subst hchain
  rw [hstatus, hbuff]
  cases b with
  | false => simp [deliver] at hresult
  | true => simpa [deliver] using hresult

end

/-- In every run in which each frame fits one descriptor, with the DMA filling
descriptors at any time and allocations failing in any pattern, the handler is
a first-in first-out queue that gives every descriptor back once. -/
theorem receive_faithful (buff : Fin ethRxBufNb → Memory) (eth : EthRegs) (zeroPage : Memory)
    (es : List RxEvent) (s : RxSystem) (hfill : ∀ e ∈ es, FillsFitting e)
    (hrun : Run.run rxStep (rxInit buff eth zeroPage) es = some s) :
    FifoFaithful s ∧ Run.Along rxStep ReleasesCopied (rxInit buff eth zeroPage) es := by
  have hG : Run.Along rxStep (fun _ e => FillsFitting e) (rxInit buff eth zeroPage) es :=
    .of_forall _ hfill
  have hinit : ∃ hist get q, RxInv (rxInit buff eth zeroPage) hist get q :=
    ⟨[], _, [], rxInv_init buff eth zeroPage⟩
  have hstep : ∀ s e t, (∃ hist get q, RxInv s hist get q) → FillsFitting e →
      rxStep s e = some t → ∃ hist get q, RxInv t hist get q :=
    fun s e t h hf hst => rxInv_step h hf hst
  obtain ⟨hist, get, q, hinv⟩ := hG.invariant hstep hinit hrun
  exact ⟨hinv.fifoFaithful, hG.of_invariant hstep
    (fun _ e ⟨_, _, _, h⟩ _ => h.releasesCopied e) hinit⟩

/-- Two frames, a chain of two pbufs for the first and none for the second. -/
theorem receive_faithful_two_frames :
    ∃ s, Run.run rxStep rxIdle
        [.fill goodFill, .irq, .step, .step, .alloc (some [60, 4]), .fill goodFill, .step, .step,
          .step, .step, .step, .step, .step, .alloc none, .step, .step, .step] = some s ∧
      s.packets = [List.replicate 64 7] ∧ FifoFaithful s ∧
      Run.Along rxStep ReleasesCopied rxIdle
        [.fill goodFill, .irq, .step, .step, .alloc (some [60, 4]), .fill goodFill, .step, .step,
          .step, .step, .step, .step, .step, .alloc none, .step, .step, .step] :=
  ⟨_, rfl, by decide, receive_faithful _ _ _ _ _ (by decide) rfl⟩

end EthMange.Ethernet
