import EthMange.Lwip.Pbuf

/-!
# Data that an application refuses

A receive callback owns the pbuf if it returns `ERR_OK`. Otherwise the stack keeps it
as `refused_data`, and `tcp_input` and `tcp_fasttmr` deliver it again. The segments of
a connection are numbered here, so that it can be said which of them are freed.
-/

namespace EthMange

/-- What a receive callback does with the pbuf that it is given. -/
structure RecvResult (σ : Type*) where
  err : Err
  -- the calls of `pbuf_free` and of `tcp_recved`
  frees : ℕ
  recved : List ℕ
  app : σ

/-- The pbuf is freed once or refused; what is refused is not acknowledged either. -/
def RecvResult.Respects {σ : Type*} (r : RecvResult σ) : Prop :=
  (r.err = .ok → r.frees = 1) ∧ (r.err ≠ .ok → r.frees = 0 ∧ r.recved = [])

/-- A PCB with its application; `freed` are the numbers of the freed segments. -/
structure RecvPcb (σ : Type*) where
  app : σ
  refused : Option (ℕ × Pbuf)
  received : ℕ
  freed : List ℕ

section Recv

variable {σ : Type*} (recv : σ → Pbuf → RecvResult σ)

/-- `TCP_EVENT_RECV`, and keeping what is refused. -/
def notify (s : RecvPcb σ) (n : ℕ) (p : Pbuf) : RecvPcb σ :=
  let r := recv s.app p
  { s with
    app := r.app
    refused := if r.err = .ok then none else some (n, p)
    freed := s.freed ++ List.replicate r.frees n }

/-- Data that was refused is delivered again. -/
def notifyKept (s : RecvPcb σ) : RecvPcb σ :=
  match s.refused with
  | some (n, p) => notify recv s n p
  | none => s

inductive RecvEvent
  | input (p : Pbuf)
  | fasttmr

/-- A new segment is dropped while older data is refused. -/
def recvStep (s : RecvPcb σ) : RecvEvent → RecvPcb σ
  | .fasttmr => notifyKept recv s
  | .input p =>
    let s := notifyKept recv s
    if s.refused.isSome then s
    else notify recv { s with received := s.received + 1 } s.received p

/-- No segment has been freed twice, and the one that is kept has not been freed. -/
structure FreedOnce (s : RecvPcb σ) : Prop where
  once : s.freed.Nodup
  known : ∀ n ∈ s.freed, n < s.received
  kept : ∀ n p, s.refused = some (n, p) → n < s.received ∧ n ∉ s.freed

variable {recv} {I : σ → Prop} {s : RecvPcb σ}

theorem FreedOnce.notify (h : FreedOnce s) {n : ℕ} {p : Pbuf} (hn : n < s.received)
    (hfree : n ∉ s.freed) (hrespects : (recv s.app p).Respects) :
    FreedOnce (notify recv s n p) := by
  by_cases hok : (recv s.app p).err = .ok
  · have hfrees := hrespects.1 hok
    refine ⟨?_, ?_, ?_⟩
    · simp only [EthMange.notify, hfrees, List.replicate_one]
      exact List.nodup_append.mpr ⟨h.once, List.nodup_singleton n, by
        rintro a ha b hb rfl
        exact hfree (List.mem_singleton.mp hb ▸ ha)⟩
    · simp only [EthMange.notify, hfrees, List.replicate_one]
      exact List.forall_mem_append.mpr ⟨h.known, List.forall_mem_singleton.mpr hn⟩
    · simp [EthMange.notify, hok]
  · have hfrees := (hrespects.2 hok).1
    refine ⟨?_, ?_, ?_⟩
    · simpa [EthMange.notify, hfrees] using h.once
    · simpa [EthMange.notify, hfrees] using h.known
    · rintro m q hkept
      simp only [EthMange.notify, hok, if_false, Option.some.injEq, Prod.mk.injEq] at hkept
      obtain ⟨rfl, rfl⟩ := hkept
      simpa [EthMange.notify, hfrees] using ⟨hn, hfree⟩

theorem FreedOnce.notifyKept (h : FreedOnce s)
    (hrespects : ∀ p, (recv s.app p).Respects) : FreedOnce (notifyKept recv s) := by
  rw [EthMange.notifyKept]
  split
  · next n p hkept => exact h.notify (h.kept n p hkept).1 (h.kept n p hkept).2 (hrespects p)
  · exact h

/-- The invariant of the application holds whatever is delivered. -/
theorem notifyKept_app (happ : I s.app) (hkeep : ∀ app p, I app → I (recv app p).app) :
    I (notifyKept recv s).app := by
  rw [notifyKept]
  split
  · exact hkeep _ _ happ
  · exact happ

theorem FreedOnce.step (h : FreedOnce s) (happ : I s.app)
    (hrecv : ∀ app p, I app → (recv app p).Respects ∧ I (recv app p).app) (e : RecvEvent) :
    FreedOnce (recvStep recv s e) ∧ I (recvStep recv s e).app := by
  have hkept := h.notifyKept fun p => (hrecv s.app p happ).1
  have happ' := notifyKept_app happ fun app p happ => (hrecv app p happ).2
  cases e with
  | fasttmr => exact ⟨hkept, happ'⟩
  | input p =>
    simp only [recvStep]
    split_ifs with hrefused
    · exact ⟨hkept, happ'⟩
    · refine ⟨?_, (hrecv _ p happ').2⟩
      have hnew : FreedOnce { EthMange.notifyKept recv s with
          received := (EthMange.notifyKept recv s).received + 1 } := by
        refine ⟨hkept.once, fun n hn => Nat.lt_succ_of_lt (hkept.known n hn), fun n p hp => ?_⟩
        exact absurd (Option.isSome_iff_exists.mpr ⟨_, hp⟩) hrefused
      refine hnew.notify (Nat.lt_succ_self _) (fun hmem => ?_) (hrecv _ p happ').1
      exact absurd (hkept.known _ hmem) (lt_irrefl _)

/-- Under the contract no segment of a connection is ever freed twice. -/
theorem FreedOnce.run (h : FreedOnce s) (happ : I s.app)
    (hrecv : ∀ app p, I app → (recv app p).Respects ∧ I (recv app p).app)
    (es : List RecvEvent) : FreedOnce (es.foldl (recvStep recv) s) := by
  induction es generalizing s with
  | nil => exact h
  | cons e es ih =>
    obtain ⟨hstep, happ'⟩ := h.step happ hrecv e
    exact ih hstep happ'

end Recv

end EthMange
