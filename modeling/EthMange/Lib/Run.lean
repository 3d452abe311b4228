import Mathlib.Tactic

/-!
# Runs of a partial step function

A system is a step function `step : σ → ε → Option σ`; `none` says that the
event is not enabled in the state. `run` folds it over a list of events and
`Along` says that a condition holds before every event of a run. The rules
below turn a fact about one step into a fact about every run.
-/

namespace EthMange.Run

variable {σ ε : Type*} {step : σ → ε → Option σ}

/-- The state after a list of events, if every one of them is enabled. -/
def run (step : σ → ε → Option σ) (s : σ) (es : List ε) : Option σ :=
  es.foldlM step s

@[simp] theorem run_nil (s : σ) : run step s [] = some s := rfl

@[simp] theorem run_cons (s : σ) (e : ε) (es : List ε) :
    run step s (e :: es) = (step s e).bind fun t => run step t es := by
  simp [run, List.foldlM_cons, Option.bind_eq_bind]

/-- `G` holds of the state and the event at every step of the run. -/
def Along (step : σ → ε → Option σ) (G : σ → ε → Prop) : σ → List ε → Prop
  | _, [] => True
  | s, e :: es => G s e ∧ (step s e).elim True fun t => Along step G t es

variable {G Q : σ → ε → Prop} {I : σ → Prop}

@[simp] theorem along_nil (s : σ) : Along step G s [] := trivial

theorem along_cons (s : σ) (e : ε) (es : List ε) :
    Along step G s (e :: es) ↔ G s e ∧ ∀ t, step s e = some t → Along step G t es := by
  cases h : step s e <;> simp [Along, h]

instance decidableElim {α : Type*} (o : Option α) (p : α → Prop) [∀ a, Decidable (p a)] :
    Decidable (o.elim True p) :=
  match o with
  | none => .isTrue trivial
  | some a => inferInstanceAs (Decidable (p a))

instance decidableAlong [∀ s e, Decidable (G s e)] :
    (s : σ) → (es : List ε) → Decidable (Along step G s es)
  | _, [] => .isTrue trivial
  | s, e :: es =>
    have (t : σ) : Decidable (Along step G t es) := decidableAlong t es
    inferInstanceAs (Decidable (G s e ∧ (step s e).elim True fun t => Along step G t es))

/-- The invariant rule: what one step keeps under `G`, a whole run keeps. -/
theorem Along.invariant
    (hstep : ∀ s e t, I s → G s e → step s e = some t → I t)
    {s t : σ} {es : List ε} (hs : I s) (hG : Along step G s es)
    (hrun : run step s es = some t) : I t := by
  induction es generalizing s with
  | nil =>
    simp only [run_nil, Option.some.injEq] at hrun
    exact hrun ▸ hs
  | cons e es ih =>
    obtain ⟨hg, hrest⟩ := (along_cons s e es).mp hG
    rw [run_cons, Option.bind_eq_some_iff] at hrun
    obtain ⟨u, hu, hrun⟩ := hrun
    exact ih (hstep s e u hs hg hu) (hrest u hu) hrun

/-- A condition that follows from the invariant at every step holds along the
whole run. -/
theorem Along.of_invariant
    (hstep : ∀ s e t, I s → G s e → step s e = some t → I t)
    (himp : ∀ s e, I s → G s e → Q s e)
    {s : σ} {es : List ε} (hs : I s) (hG : Along step G s es) :
    Along step Q s es := by
  induction es generalizing s with
  | nil => trivial
  | cons e es ih =>
    rw [along_cons] at hG ⊢
    exact ⟨himp s e hs hG.1, fun t ht => ih (hstep s e t hs hG.1 ht) (hG.2 t ht)⟩

theorem Along.mono (himp : ∀ s e, G s e → Q s e) {s : σ} {es : List ε}
    (hG : Along step G s es) : Along step Q s es :=
  hG.of_invariant (I := fun _ => True) (fun _ _ _ _ _ _ => trivial)
    (fun s e _ => himp s e) trivial

theorem Along.of_forall {P : ε → Prop} (s : σ) {es : List ε} (h : ∀ e ∈ es, P e) :
    Along step (fun _ e => P e) s es := by
  induction es generalizing s with
  | nil => trivial
  | cons e es ih =>
    rw [along_cons]
    exact ⟨h e List.mem_cons_self, fun t _ => ih t fun f hf => h f (List.mem_cons_of_mem e hf)⟩

/-- In a run to its end a condition on the events holds of all of them. -/
theorem Along.forall_mem {P : ε → Prop} {s t : σ} {es : List ε}
    (hG : Along step (fun _ e => P e) s es) (hrun : run step s es = some t) : ∀ e ∈ es, P e := by
  induction es generalizing s with
  | nil => exact fun _ he => absurd he List.not_mem_nil
  | cons e es ih =>
    rw [along_cons] at hG
    rw [run_cons, Option.bind_eq_some_iff] at hrun
    obtain ⟨u, hu, hrun⟩ := hrun
    exact List.forall_mem_cons.mpr ⟨hG.1, ih (hG.2 u hu) hrun⟩

/-- The invariant rule without a condition on the steps. -/
theorem run_invariant (hstep : ∀ s e t, I s → step s e = some t → I t) {s t : σ} {es : List ε}
    (hs : I s) (hrun : run step s es = some t) : I t :=
  Along.invariant (fun s e t h (_ : True) => hstep s e t h) hs
    (Along.of_forall s fun _ _ => trivial) hrun

theorem along_of_invariant (hstep : ∀ s e t, I s → step s e = some t → I t)
    (himp : ∀ s e, I s → Q s e) {s : σ} (hs : I s) (es : List ε) : Along step Q s es :=
  (Along.of_forall s fun _ _ => trivial).of_invariant (fun s e t h (_ : True) => hstep s e t h)
    (fun s e h _ => himp s e h) hs

/-- Every event of a run to its end is enabled. -/
theorem along_of_run {s t : σ} {es : List ε} (hrun : run step s es = some t) :
    Along step (fun s e => (step s e).isSome = true) s es := by
  induction es generalizing s with
  | nil => trivial
  | cons e es ih =>
    rw [run_cons, Option.bind_eq_some_iff] at hrun
    obtain ⟨u, hu, hrun⟩ := hrun
    rw [along_cons]
    refine ⟨by rw [hu]; rfl, fun v hv => ?_⟩
    obtain rfl : u = v := Option.some.inj (hu.symm.trans hv)
    exact ih hrun

/-- What a step that misses `G` loses is lost for the rest of the run. -/
theorem invariant_or_lost {L : σ → Prop}
    (hstep : ∀ s e t, I s → G s e → step s e = some t → I t)
    (hlost : ∀ s e t, I s → ¬ G s e → step s e = some t → L t)
    (hkeep : ∀ s e t, L s → step s e = some t → L t)
    {s t : σ} {es : List ε} (hs : I s) (hrun : run step s es = some t) :
    Along step G s es ∧ I t ∨ ¬ Along step G s es ∧ L t := by
  induction es generalizing s with
  | nil =>
    simp only [run_nil, Option.some.injEq] at hrun
    exact .inl ⟨trivial, hrun ▸ hs⟩
  | cons e es ih =>
    rw [run_cons, Option.bind_eq_some_iff] at hrun
    obtain ⟨u, hu, hrun⟩ := hrun
    have hrest (hG : Along step G s (e :: es)) : Along step G u es :=
      ((along_cons s e es).mp hG).2 u hu
    by_cases hg : G s e
    · obtain ⟨hG, ht⟩ | ⟨hG, ht⟩ := ih (hstep s e u hs hg hu) hrun
      · refine .inl ⟨(along_cons s e es).mpr ⟨hg, fun v hv => ?_⟩, ht⟩
        obtain rfl : u = v := Option.some.inj (hu.symm.trans hv)
        exact hG
      · exact .inr ⟨fun hall => hG (hrest hall), ht⟩
    · exact .inr ⟨fun hall => hg ((along_cons s e es).mp hall).1,
        run_invariant hkeep (hlost s e u hs hg hu) hrun⟩

theorem Along.and {s : σ} {es : List ε} (hG : Along step G s es) (hQ : Along step Q s es) :
    Along step (fun s e => G s e ∧ Q s e) s es := by
  induction es generalizing s with
  | nil => trivial
  | cons e es ih =>
    rw [along_cons] at hG hQ ⊢
    exact ⟨⟨hG.1, hQ.1⟩, fun t ht => ih (hG.2 t ht) (hQ.2 t ht)⟩

end EthMange.Run
