import EthMange.Lib.Ownership
import EthMange.Httpd.Connection

/-!
# The block of a connection

`http_accept` allocates the `http_state` block and makes it the argument of the
callbacks. A connection either holds the block and has neither freed it nor been
closed, or has given it back and no callback can reach it any more.
-/

namespace EthMange.Httpd

open Run Ownership

def TouchesBlock (a : HttpAction) : Prop := a = .access ∨ a = .free

instance : DecidablePred TouchesBlock := fun _ => inferInstanceAs (Decidable (_ ∨ _))

-- actions that do not change who owns the block
def HttpAction.Neutral : HttpAction → Prop
  | .malloc | .free | .nullAccess | .close _ => False
  | _ => True

/-- The block is allocated and nothing has been given back. -/
structure Holding (log : List HttpAction) : Prop where
  malloc : log.count .malloc = 1
  kept : ∀ a ∈ log, a ≠ .free ∧ ∀ err, a ≠ .close err
  valid : .nullAccess ∉ log

/-- Every block there was has been freed, once, and not used afterwards. -/
structure Released (log : List HttpAction) : Prop where
  malloc : log.count .malloc ≤ 1
  free : log.count .free = log.count .malloc
  unused : NoUseAfter (· = .free) TouchesBlock log
  valid : .nullAccess ∉ log
  closed : ∀ err, .close err ∈ log → log.count .malloc = 1

theorem HttpAction.Quiet.neutral {a : HttpAction} (h : a.Quiet) : a.Neutral := by
  cases a <;> trivial

theorem Quiet.neutral {as : List HttpAction} (h : Quiet as) : ∀ a ∈ as, a.Neutral :=
  fun a ha => (h a ha).neutral

section Log

variable {log as : List HttpAction} {a : HttpAction}

theorem count_eq_zero_of_neutral (h : ∀ b ∈ as, b.Neutral) (ha : ¬ a.Neutral) :
    as.count a = 0 :=
  List.count_eq_zero.mpr fun hmem => ha (h a hmem)

theorem Holding.append (h : Holding log) (has : ∀ a ∈ as, a.Neutral) : Holding (log ++ as) := by
  constructor
  · rw [List.count_append, h.malloc, count_eq_zero_of_neutral has id]
  · intro a ha
    obtain hlog | hnew := List.mem_append.mp ha
    · exact h.kept a hlog
    · have hneutral := has a hnew
      constructor
      · rintro rfl
        exact hneutral
      · rintro err rfl
        exact hneutral
  · intro hnull
    obtain hlog | hnew := List.mem_append.mp hnull
    · exact h.valid hlog
    · exact has _ hnew

theorem Holding.unused (h : Holding log) : NoUseAfter (· = .free) TouchesBlock log :=
  noUseAfter_of_unreleased fun a ha => (h.kept a ha).1

theorem Holding.free (h : Holding log) : Released (log ++ [.free]) := by
  have hnone : log.count .free = 0 := List.count_eq_zero.mpr fun hmem => (h.kept _ hmem).1 rfl
  have hmalloc : (log ++ [HttpAction.free]).count .malloc = 1 := by
    rw [List.count_append, h.malloc]
    rfl
  constructor
  · exact hmalloc.le
  · rw [hmalloc, List.count_append, hnone]
    rfl
  · rw [noUseAfter_append_of_unreleased fun a ha => (h.kept a ha).1]
    exact List.pairwise_singleton _ _
  · simp [h.valid]
  · exact fun _ _ => hmalloc

theorem Released.close (h : Released log) (err : Err) (hmalloc : log.count .malloc = 1) :
    Released (log ++ [.close err]) := by
  have hmalloc' : (log ++ [HttpAction.close err]).count .malloc = 1 := by
    rw [List.count_append, hmalloc]
    rfl
  constructor
  · exact hmalloc'.le
  · rw [hmalloc', List.count_append, h.free, hmalloc]
    rfl
  · rw [noUseAfter_append]
    refine ⟨h.unused, List.pairwise_singleton _ _, fun a _ b hb _ => ?_⟩
    rw [List.mem_singleton] at hb
    simp [hb, TouchesBlock]
  · simp [h.valid]
  · exact fun _ _ => hmalloc'

end Log

/-! ### Callbacks -/

theorem sendData_neutral (env : HttpEnv) (c : HttpConn) :
    ∃ as, (∀ a ∈ as, a.Neutral) ∧ (sendData env c).log = c.log ++ as := by
  refine ⟨_, ?_, sendData_log env c⟩
  split <;> simp [HttpAction.Neutral]

/-- A callback keeps the block, or gives it back as the last thing it does with
it. -/
theorem CallbackEffect.log {c c' : HttpConn} (h : CallbackEffect c c')
    (harg : c.pcb.callbackArg = true) :
    ∃ as, (∀ a ∈ as, a.Neutral) ∧
      ((c'.pcb.callbackArg = true ∧ c'.log = c.log ++ as) ∨
        ∃ err, c'.pcb.callbackArg = false ∧ c'.log = c.log ++ as ++ [.free] ++ [.close err]) := by
  cases h with
  | quiet as has => exact ⟨as, has.neutral, .inl ⟨harg, rfl⟩⟩
  | send as env has =>
    obtain ⟨bs, hbs, hlog⟩ := sendData_neutral env (c.act as)
    refine ⟨as ++ bs, List.forall_mem_append.mpr ⟨has.neutral, hbs⟩, .inl ⟨by simpa using harg, ?_⟩⟩
    rw [hlog, act_log, List.append_assoc]
  | page as f env has hnull hfile =>
    obtain ⟨bs, hbs, hlog⟩ := sendData_neutral env
      ({ c.act as with hs := ⟨f.1, f.2⟩ }.act [.access, .select f.1 f.2])
    have hselect : ∀ a ∈ [HttpAction.access, .select f.1 f.2], a.Neutral := by
      simp [HttpAction.Neutral]
    refine ⟨as ++ ([.access, .select f.1 f.2] ++ bs), ?_, .inl ⟨by simpa [sendPage] using harg, ?_⟩⟩
    · exact List.forall_mem_append.mpr
        ⟨has.neutral, List.forall_mem_append.mpr ⟨hselect, hbs⟩⟩
    · exact hlog.trans (by simp)
  | close as env has =>
    refine ⟨as, has.neutral, .inr ⟨env.close, rfl, ?_⟩⟩
    rw [closeConn_log, act_log]
    simp

/-! ### Whole runs -/

/-- The connection has its block. -/
def Held (s : HttpSystem) : Prop := s.conn.pcb.callbackArg = true ∧ s.phase ≠ .ended

structure BlockInv (s : HttpSystem) : Prop where
  linked : Linked s.conn
  pending : s.phase = .pending → s.conn.log = [] ∧ s.conn.pcb.callbackArg = false
  active : s.phase = .active → s.conn.log.count .malloc = 1
  held : Held s → Holding s.conn.log
  released : ¬ Held s → Released s.conn.log

theorem released_nil : Released [] := by
  constructor <;> simp [NoUseAfter]

theorem blockInv_init (hs : HttpState) : BlockInv (httpInit hs) where
  linked := ⟨nofun, nofun, nofun⟩
  pending := fun _ => ⟨rfl, rfl⟩
  active := nofun
  held := fun h => nomatch h.1
  released := fun _ => released_nil

theorem holding_accept {c : HttpConn} (h : c.log = []) : Holding (httpAccept true c).2.log := by
  have hlog : (httpAccept true c).2.log = [.malloc, .access] := by
    simp [httpAccept, h]
  rw [hlog]
  constructor <;> simp

theorem BlockInv.callback {s : HttpSystem} {c : HttpConn} (h : BlockInv s)
    (hphase : s.phase = .active) (harg : s.conn.pcb.callbackArg = true)
    (hc : CallbackEffect s.conn c) : BlockInv ⟨c, .active⟩ := by
  have hholding := h.held ⟨harg, by simp [hphase]⟩
  obtain ⟨as, has, ⟨harg', hlog⟩ | ⟨err, harg', hlog⟩⟩ := hc.log harg
  · have hnew : Holding c.log := hlog ▸ hholding.append has
    exact ⟨hc.linked harg h.linked, nofun, fun _ => hnew.malloc, fun _ => hnew,
      fun hheld => absurd ⟨harg', nofun⟩ hheld⟩
  · have hfree := (hholding.append has).free
    have hmalloc : (s.conn.log ++ as ++ [HttpAction.free]).count .malloc = 1 := by
      rw [List.count_append, (hholding.append has).malloc]
      rfl
    have hnew : Released c.log := hlog ▸ hfree.close err hmalloc
    have hclose : HttpAction.close err ∈ c.log := by simp [hlog]
    exact ⟨hc.linked harg h.linked, nofun, fun _ => hnew.closed err hclose,
      fun hheld => absurd (harg'.symm.trans hheld.1) Bool.false_ne_true, fun _ => hnew⟩

/-- An error gives a held block back. -/
theorem BlockInv.error {s : HttpSystem} (h : BlockInv s) (hphase : s.phase ≠ .ended) :
    Released (errorEvent s.conn).log := by
  rw [errorEvent_eq, act_log]
  cases harg : s.conn.pcb.callbackArg with
  | true =>
    rw [h.linked.errf harg]
    exact (h.held ⟨harg, hphase⟩).free
  | false =>
    rw [Bool.and_false, if_neg Bool.false_ne_true, List.append_nil]
    exact h.released fun hheld => Bool.false_ne_true (harg.symm.trans hheld.1)

theorem BlockInv.step {s t : HttpSystem} (h : BlockInv s) (hstep : StepEffect s t) :
    BlockInv t := by
  have hlinked := hstep.linked h.linked
  cases hstep with
  | accepted hphase =>
    have hholding := holding_accept (h.pending hphase).1
    exact ⟨hlinked, nofun, fun _ => hholding.malloc, fun _ => hholding,
      fun hheld => absurd ⟨rfl, nofun⟩ hheld⟩
  | failed hphase =>
    exact ⟨hlinked, nofun, nofun, fun hheld => absurd rfl hheld.2, fun _ => h.error hphase⟩
  | callback c hphase harg hc => exact h.callback hphase harg hc
  | closeAgain err hphase harg =>
    have hgone : ¬ Held s := fun hheld => Bool.false_ne_true (harg.symm.trans hheld.1)
    have hnew := (h.released hgone).close err (h.active hphase)
    exact ⟨hlinked, nofun, fun _ => hnew.closed err (by simp),
      fun hheld => absurd (harg.symm.trans hheld.1) Bool.false_ne_true, fun _ => hnew⟩
  | ignored => exact h
  | removed hphase hclose =>
    have hgone : ¬ Held s := fun hheld => ((h.held hheld).kept _ hclose).2 _ rfl
    exact ⟨hlinked, nofun, nofun, fun hheld => absurd rfl hheld.2, fun _ => h.released hgone⟩

theorem blockInv_step {fs : FsImage} (s : HttpSystem) (e : HttpEvent) (t : HttpSystem)
    (h : BlockInv s) (hstep : httpStep fs s e = some t) : BlockInv t :=
  h.step (httpStep_effect h.linked hstep)

theorem BlockInv.closed {s : HttpSystem} {err : Err} (h : BlockInv s)
    (hclose : .close err ∈ s.conn.log) : s.conn.log.count .free = 1 := by
  have hgone : ¬ Held s := fun hheld => ((h.held hheld).kept _ hclose).2 _ rfl
  have hreleased := h.released hgone
  exact hreleased.free.trans (hreleased.closed err hclose)

/-- Over any run the block is allocated at most once, no callback touches it
after it was freed, none reads through a NULL argument, and once the connection
has been closed or has ended the block that was allocated has been freed exactly
once. -/
theorem http_state_lifecycle (fs : FsImage) (hs : HttpState) (es : List HttpEvent)
    {t : HttpSystem} (hrun : run (httpStep fs) (httpInit hs) es = some t) :
    t.conn.log.count .malloc ≤ 1 ∧
    NoUseAfter (· = .free) TouchesBlock t.conn.log ∧
    .nullAccess ∉ t.conn.log ∧
    (∀ err, .close err ∈ t.conn.log → t.conn.log.count .free = 1) ∧
    (t.phase = .ended → t.conn.log.count .free = t.conn.log.count .malloc) := by
  have hinv := run_invariant blockInv_step (blockInv_init hs) hrun
  by_cases hheld : Held t
  · have h := hinv.held hheld
    exact ⟨h.malloc.le, h.unused, h.valid, fun _ => hinv.closed,
      fun hended => absurd hended hheld.2⟩
  · have h := hinv.released hheld
    exact ⟨h.malloc, h.unused, h.valid, fun _ => hinv.closed, fun _ => h.free⟩

/-- The peer closes, `tcp_close` fails, the poll closes again, and a reset comes
after that. -/
theorem http_state_lifecycle_failed_close :
    ∃ t, run (httpStep sampleFs) (httpInit ⟨7, 9⟩)
        [.accept true, .recv (some gifRequest) .ok (idleEnv 1460),
          .recv none .ok ⟨1460, .ok, .mem, 0⟩, .poll (idleEnv 1460), .error] = some t ∧
      t.phase = .ended ∧ t.conn.log.count .malloc = 1 ∧
      t.conn.log.count .free = t.conn.log.count .malloc := by
  have hended : (run (httpStep sampleFs) (httpInit ⟨7, 9⟩)
      [.accept true, .recv (some gifRequest) .ok (idleEnv 1460),
        .recv none .ok ⟨1460, .ok, .mem, 0⟩, .poll (idleEnv 1460), .error]).map
      (fun t => (t.phase, t.conn.log.count .malloc)) = some (.ended, 1) := by
    decide +kernel
  obtain ⟨t, hrun, ht⟩ := Option.map_eq_some_iff.mp hended
  obtain ⟨hphase, hmalloc⟩ := Prod.mk.inj ht
  exact ⟨t, hrun, hphase, hmalloc,
    (http_state_lifecycle sampleFs ⟨7, 9⟩ _ hrun).2.2.2.2 hphase⟩

end EthMange.Httpd
