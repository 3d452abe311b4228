import EthMange.Ethernet.Rx

/-!
# When reception goes on

The loop of `ETH_IRQHandler` ends at a descriptor that does not hold a whole
frame without error. If every frame that the DMA has room for is whole,
error-free and of a length that is not zero, such a descriptor is one that the
DMA owns. Otherwise the handler
leaves at a descriptor that nobody will ever release.
-/

namespace EthMange.Ethernet

def LoopExits (s : RxSystem) : RxEvent → Prop
  | .step => s.pc = .guard ∧ ethGetRxPktSize s.rx = 0#32
  | _ => False

instance (s : RxSystem) : (e : RxEvent) → Decidable (LoopExits s e)
  | .step => inferInstanceAs (Decidable (_ ∧ _))
  | .fill _ | .irq | .alloc _ => .isFalse id

/-- If the loop ends while no frame is half-filled, the DMA owns the descriptor
at the driver's position. -/
def ExitsAtOwned (s : RxSystem) (e : RxEvent) : Prop :=
  LoopExits s e → s.rx.midFrame = false → s.rx.Own s.rx.dmaRxDescToGet

instance (s : RxSystem) (e : RxEvent) : Decidable (ExitsAtOwned s e) :=
  inferInstanceAs (Decidable (_ → _ → _))

def IsReceivable (status : BitVec 32) : Prop :=
  IsWholeFrame status ∧ ethGetDmaRxDescFrameLength status ≠ 0#32

instance (w : BitVec 32) : Decidable (IsReceivable w) := inferInstanceAs (Decidable (_ ∧ _))

/-- What the DMA stores is receivable; what it has no descriptor for is lost. -/
def FillsReceivable (s : RxSystem) : RxEvent → Prop
  | .fill f => s.rx.Own s.rx.dmaPos → IsReceivable f.status
  | _ => True

instance (s : RxSystem) : (e : RxEvent) → Decidable (FillsReceivable s e)
  | .fill _ => inferInstanceAs (Decidable (_ → _))
  | .irq | .alloc _ | .step => .isTrue trivial

/-- The guard is zero at a descriptor of the driver exactly when that one holds
nothing receivable. -/
theorem ethGetRxPktSize_eq_zero_iff {s : Rx} (h : ¬ s.Own s.dmaRxDescToGet) :
    ethGetRxPktSize s = 0#32 ↔ ¬ IsReceivable (s.dmaRxDscrTab s.dmaRxDescToGet).status := by
  by_cases hwhole : IsWholeFrame (s.dmaRxDscrTab s.dmaRxDescToGet).status <;>
    simp [ethGetRxPktSize, IsReceivable, h, hwhole]

/-! ### What the steps do to the descriptors -/

theorem isSet_own : isSet ethDmaRxDescOwn ethDmaRxDescOwn := isSet_self (by decide)

namespace Rx

variable {s : Rx}

theorem dmaFill_of_not_own (h : ¬ s.Own s.dmaPos) (f : RxFill) : s.dmaFill f =
    { s with eth := { s.eth with dmasr := s.eth.dmasr ||| ethDmasrRbus } } := by
  rw [dmaFill, if_neg h]

theorem dmaFill_desc (f : RxFill) (i : Fin ethRxBufNb) :
    (s.dmaFill f).dmaRxDscrTab i =
      if i = s.dmaPos ∧ s.Own s.dmaPos then { s.dmaRxDscrTab i with status := f.status }
      else s.dmaRxDscrTab i := by
  by_cases hown : s.Own s.dmaPos
  · by_cases hi : i = s.dmaPos
    · subst hi
      simp [dmaFill, hown]
    · simp [dmaFill, hown, hi]
  · simp [dmaFill, hown]

@[simp] theorem dmaFill_dmaRxDescToGet (f : RxFill) :
    (s.dmaFill f).dmaRxDescToGet = s.dmaRxDescToGet := by
  rw [dmaFill]
  split <;> rfl

theorem giveBack_desc (i j : Fin ethRxBufNb) :
    (s.giveBack i).dmaRxDscrTab j =
      if j = i then { s.dmaRxDscrTab j with status := ethDmaRxDescOwn }
      else s.dmaRxDscrTab j := by
  by_cases hj : j = i
  · subst hj
    simp [giveBack]
  · simp [giveBack, hj]

theorem dmaFill_desc_of_not_own {i : Fin ethRxBufNb} (hi : ¬ s.Own i) (f : RxFill) :
    (s.dmaFill f).dmaRxDscrTab i = s.dmaRxDscrTab i := by
  rw [dmaFill_desc, if_neg]
  rintro ⟨rfl, hown⟩
  exact hi hown

end Rx

@[simp] theorem ethRxPktChainMode_dmaRxDscrTab (s : Rx) :
    (ethRxPktChainMode s).2.dmaRxDscrTab = s.dmaRxDscrTab := by
  rw [ethRxPktChainMode]
  split
  · rfl
  · dsimp only
    split <;> rfl

/-- A handler step leaves the descriptors alone, except that the release step
gives one back. -/
theorem handlerStep_desc {s t : RxSystem} (h : handlerStep s = some t) (i : Fin ethRxBufNb) :
    t.rx.dmaRxDscrTab i = s.rx.dmaRxDscrTab i ∨
      (t.rx.dmaRxDscrTab i).status = ethDmaRxDescOwn := by
  cases hpc : s.pc with
  | idle => simp [handlerStep, hpc] at h
  | alloc frame => simp [handlerStep, hpc] at h
  | guard =>
    simp only [handlerStep, hpc, Option.some.injEq] at h
    subst h
    exact .inl rfl
  | fetch =>
    simp only [handlerStep, hpc, Option.some.injEq] at h
    subst h
    exact .inl (by simp)
  | copy frame q l p =>
    cases q with
    | nil =>
      simp only [handlerStep, hpc, Option.some.injEq] at h
      subst h
      exact .inl rfl
    | cons len q =>
      simp only [handlerStep, hpc, Option.some.injEq] at h
      subst h
      exact .inl rfl
  | input p =>
    simp only [handlerStep, hpc, Option.some.injEq] at h
    subst h
    exact .inl rfl
  | release frame p =>
    simp only [handlerStep, hpc, Option.some.injEq] at h
    subst h
    cases hd : frame.descriptor with
    | none => exact .inl rfl
    | some d =>
      simp only [Option.elim_some, Rx.giveBack_desc]
      split
      · exact .inr rfl
      · exact .inl rfl

theorem allocStep_rx {s t : RxSystem} {r : Option (List ℕ)} (h : allocStep s r = some t) :
    t.rx = s.rx := by
  simp only [allocStep] at h
  split at h
  · cases h
    rfl
  · split at h
    · cases h
      rfl
    · cases h
  · cases h

/-! ### No wedge with receivable frames -/

def AllReceivable (s : RxSystem) : Prop :=
  ∀ i, ¬ s.rx.Own i → IsReceivable (s.rx.dmaRxDscrTab i).status

theorem allReceivable_init (buff : Fin ethRxBufNb → Memory) (eth : EthRegs)
    (zeroPage : Memory) : AllReceivable (rxInit buff eth zeroPage) :=
  fun _ hown => absurd isSet_own hown

theorem allReceivable_step {s t : RxSystem} {e : RxEvent} (h : AllReceivable s)
    (hfill : FillsReceivable s e) (hstep : rxStep s e = some t) : AllReceivable t := by
  intro i hi
  cases e with
  | fill f =>
    simp only [rxStep, Option.ite_none_right_eq_some, Option.some.injEq] at hstep
    obtain ⟨-, rfl⟩ := hstep
    by_cases hpos : i = s.rx.dmaPos ∧ s.rx.Own s.rx.dmaPos
    · rw [Rx.dmaFill_desc, if_pos hpos]
      exact hfill hpos.2
    · rw [Rx.Own, Rx.dmaFill_desc, if_neg hpos] at hi
      rw [Rx.dmaFill_desc, if_neg hpos]
      exact h i hi
  | irq =>
    cases hpc : s.pc <;> simp only [rxStep, hpc, Option.some.injEq, reduceCtorEq] at hstep
    subst hstep
    exact h i hi
  | alloc r =>
    rw [Rx.Own, allocStep_rx hstep] at hi
    rw [allocStep_rx hstep]
    exact h i hi
  | step =>
    obtain hsame | hown := handlerStep_desc hstep i
    · rw [Rx.Own, hsame] at hi
      rw [hsame]
      exact h i hi
    · rw [Rx.Own, hown] at hi
      exact absurd isSet_own hi

theorem AllReceivable.exitsAtOwned {s : RxSystem} (h : AllReceivable s) (e : RxEvent) :
    ExitsAtOwned s e := by
  intro hexit _
  by_contra hown
  cases e <;> simp only [LoopExits] at hexit
  exact (ethGetRxPktSize_eq_zero_iff hown).mp hexit.2 (h _ hown)

/-- In every run in which the DMA fills every descriptor with a whole frame
without error, the handler leaves its loop only at a descriptor of the DMA. -/
theorem receive_never_wedges (buff : Fin ethRxBufNb → Memory) (eth : EthRegs)
    (zeroPage : Memory) (es : List RxEvent)
    (hfill : Run.Along rxStep FillsReceivable (rxInit buff eth zeroPage) es) :
    Run.Along rxStep ExitsAtOwned (rxInit buff eth zeroPage) es :=
  hfill.of_invariant (I := AllReceivable)
    (fun _ _ _ h hf hstep => allReceivable_step h hf hstep)
    (fun _ e h _ => h.exitsAtOwned e) (allReceivable_init buff eth zeroPage)

/-- The board after start-up with all memory zero. -/
def rxIdle : RxSystem := rxInit (fun _ _ => 0) ⟨0, 0, 0⟩ fun _ => 0

/-- A frame of 68 bytes in one descriptor. -/
def goodFill : RxFill := ⟨0x00440300#32, fun _ => 7, by decide⟩

/-- The same frame flagged in error. -/
def errorFill : RxFill := ⟨0x00448300#32, fun _ => 7, by decide⟩

/-- A frame in error comes while the ring is full, and is lost. -/
theorem receive_never_wedges_full_ring :
    Run.Along rxStep ExitsAtOwned rxIdle
      (List.replicate ethRxBufNb (.fill goodFill) ++
        [.fill errorFill, .irq, .step, .step, .alloc none, .step, .step, .step]) :=
  receive_never_wedges _ _ _ _ (by decide)

/-! ### A wedge is for ever -/

/-- The handler has left, or is about to leave, its loop at a descriptor of the
driver. -/
structure Wedged (s : RxSystem) : Prop where
  pc : s.pc = .idle ∨ s.pc = .guard
  own : ¬ s.rx.Own s.rx.dmaRxDescToGet
  size : ethGetRxPktSize s.rx = 0#32

/-- No fill and no later run of the handler frees a wedged descriptor. -/
theorem wedged_step {s t : RxSystem} {e : RxEvent} (h : Wedged s) (hstep : rxStep s e = some t) :
    Wedged t := by
  have hsize := (ethGetRxPktSize_eq_zero_iff h.own).mp h.size
  cases e with
  | fill f =>
    simp only [rxStep, Option.ite_none_right_eq_some, Option.some.injEq] at hstep
    obtain ⟨-, rfl⟩ := hstep
    have hdesc := Rx.dmaFill_desc_of_not_own h.own f
    have hown : ¬ (s.rx.dmaFill f).Own (s.rx.dmaFill f).dmaRxDescToGet := by
      rw [Rx.Own, Rx.dmaFill_dmaRxDescToGet, hdesc]
      exact h.own
    refine ⟨h.pc, hown, (ethGetRxPktSize_eq_zero_iff hown).mpr ?_⟩
    rwa [Rx.dmaFill_dmaRxDescToGet, hdesc]
  | irq =>
    cases hpc : s.pc <;> simp only [rxStep, hpc, Option.some.injEq, reduceCtorEq] at hstep
    subst hstep
    exact ⟨.inr rfl, h.own, h.size⟩
  | alloc r =>
    rcases h.pc with hpc | hpc <;> simp [rxStep, allocStep, hpc] at hstep
  | step =>
    obtain hpc | hpc := h.pc
    · simp [rxStep, handlerStep, hpc] at hstep
    · simp only [rxStep, handlerStep, hpc, h.size, ne_eq, not_true_eq_false, if_false,
        Option.some.injEq] at hstep
      subst hstep
      exact ⟨.inl rfl, h.own, h.size⟩

theorem wedged_run {s t : RxSystem} {es : List RxEvent} (h : Wedged s)
    (hrun : Run.run rxStep s es = some t) : Wedged t :=
  Run.run_invariant (fun _ _ _ h hstep => wedged_step h hstep) h hrun

/-- One frame in error wedges reception: the handler leaves its loop at the
descriptor that holds it, and nothing that happens later frees it. -/
theorem error_frame_wedges :
    ∃ s, Run.run rxStep rxIdle [.fill errorFill, .irq, .step] = some s ∧
      s.rx.midFrame = false ∧
      ¬ Run.Along rxStep ExitsAtOwned rxIdle [.fill errorFill, .irq, .step] ∧
      ∀ es t, Run.run rxStep s es = some t →
        ¬ t.rx.Own t.rx.dmaRxDescToGet ∧ ethGetRxPktSize t.rx = 0#32 := by
  refine ⟨_, rfl, by decide, by decide, fun es t hrun => ?_⟩
  have h := wedged_run ⟨.inl rfl, by decide, by decide⟩ hrun
  exact ⟨h.own, h.size⟩

end EthMange.Ethernet
