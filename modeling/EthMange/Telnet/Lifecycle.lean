import EthMange.Lib.Ownership
import EthMange.Lib.Run
import EthMange.Telnet.Server

/-!
# The name block of a telnet connection

A FIN makes the receive callback free the block, but the block stays the argument
of the callbacks until the stack forgets the connection. Everything that the
stack still has to tell about it then reaches a block that is gone.
-/

namespace EthMange.Telnet

open Run Ownership

inductive TelnetPhase
  -- before the accept callback is called
  | pending
  | active
  -- the PCB is gone
  | ended
  deriving DecidableEq, Repr

structure TelnetSystem where
  conn : TelnetConn
  phase : TelnetPhase

inductive TelnetEvent
  | accept (calloc : Bool)
  -- data, or a FIN where there is no pbuf
  | recv (p : Option Pbuf) (env : TelnetEnv)
  -- a reset, a timeout or an abort
  | error
  -- the FIN of a connection that has been closed is acknowledged
  | removed

def telnetInit (name : Name) : TelnetSystem := ⟨⟨false, false, false, name, []⟩, .pending⟩

/-- The error event, with the argument that is set. -/
def errorEvent (c : TelnetConn) : TelnetConn := if c.errf then connErr c.callbackArg c else c

/-- The stack delivers no empty segment, and always `ERR_OK`. -/
def telnetStep (app : TelnetApp) (s : TelnetSystem) : TelnetEvent → Option TelnetSystem
  | .accept calloc =>
    if s.phase = .pending then some ⟨(telnetAccept calloc s.conn).2, .active⟩ else none
  | .recv p env =>
    if s.phase = .active ∧ ∀ q ∈ p, 0 < q.totLen then
      if s.conn.recv then some ⟨(app.recv s.conn.callbackArg p .ok env s.conn).2, .active⟩
      else some s
    else none
  | .error => if s.phase = .ended then none else some ⟨errorEvent s.conn, .ended⟩
  | .removed =>
    if s.phase = .active ∧ .close .ok ∈ s.conn.log then some { s with phase := .ended } else none

/-- The block is used; freeing it is a use. -/
def TouchesBlock : TelnetAction → Prop
  | .length | .byte _ | .printf _ | .memFree true => True
  | _ => False

instance : DecidablePred TouchesBlock := fun a =>
  match a with
  | .length | .byte _ | .printf _ | .memFree true => .isTrue trivial
  | .calloc | .memFree false | .write _ _ | .recved _ | .pbufFree | .close _ => .isFalse id

/-- The connection has been closed, or its PCB is gone. -/
def Over (s : TelnetSystem) : Prop := s.phase = .ended ∨ ∃ err, .close err ∈ s.conn.log

/-- No use after the block was freed, and once the connection is over it has been
freed as often as it was allocated. -/
structure NameSafe (s : TelnetSystem) : Prop where
  unused : NoUseAfter (· = .memFree true) TouchesBlock s.conn.log
  freed : Over s → s.conn.log.count (.memFree true) = s.conn.log.count .calloc

/-- Once the block has been freed the stack calls back no more. -/
def QuietAfterFree (s : TelnetSystem) (e : TelnetEvent) : Prop :=
  .memFree true ∈ s.conn.log → e = .removed

instance (e : TelnetEvent) : Decidable (e = .removed) :=
  match e with
  | .removed => .isTrue rfl
  | .accept _ | .recv _ _ | .error => .isFalse nofun

instance (s : TelnetSystem) (e : TelnetEvent) : Decidable (QuietAfterFree s e) :=
  inferInstanceAs (Decidable (_ → _))

/-! ### What a step does -/

/-- The block is neither used nor allocated. -/
def Idle (as : List TelnetAction) : Prop := ∀ a ∈ as, ¬ TouchesBlock a ∧ a ≠ .calloc

/-- The block is neither allocated nor freed, and nothing is closed. -/
def Keeps : TelnetAction → Prop
  | .calloc | .memFree true | .close _ => False
  | _ => True

/-- The block is used, but not freed. -/
structure Uses (as : List TelnetAction) : Prop where
  kept : ∀ a ∈ as, Keeps a
  touches : ∃ a ∈ as, TouchesBlock a

/-- The argument is the block and the callbacks are set, or there is none yet. -/
structure Registered (s : TelnetSystem) : Prop where
  pending : s.phase = .pending → s.conn.callbackArg = false ∧ s.conn.errf = false
  active : s.phase = .active → s.conn.recv = true ∧ s.conn.errf = true

/-- A step other than the removal of the PCB. -/
inductive StepEffect (s : TelnetSystem) : TelnetSystem → Prop
  | accepted (calloc) (h : s.phase = .pending) :
    StepEffect s ⟨(telnetAccept calloc s.conn).2, .active⟩
  -- data or a FIN without a block, or an error before the connection was accepted
  | idle (as name) (phase : TelnetPhase) (h : s.phase ≠ .ended) (has : Idle as)
    (harg : s.conn.callbackArg = false) (hphase : phase = .active → s.phase = .active)
    (hpending : phase ≠ .pending) :
    StepEffect s ⟨{ s.conn.act as with name := name }, phase⟩
  | data (as name) (h : s.phase = .active) (has : Uses as) (harg : s.conn.callbackArg = true) :
    StepEffect s ⟨{ s.conn.act as with name := name }, .active⟩
  -- a FIN or an error
  | free (as) (phase : TelnetPhase) (h : s.phase = .active) (has : Idle as)
    (harg : s.conn.callbackArg = true) (hpending : phase ≠ .pending) :
    StepEffect s ⟨s.conn.act (.memFree true :: as), phase⟩

theorem AccessOnly.kept {as : List TelnetAction} (h : AccessOnly as) : ∀ a ∈ as, Keeps a := by
  intro a ha
  obtain rfl | ⟨i, rfl⟩ := h a ha <;> trivial

section Recv

variable {p : Pbuf}

theorem telnetRecv_null (hello : Bytes) (env : TelnetEnv) (c : TelnetConn) (p : Pbuf) :
    (telnetRecv hello false (some p) .ok env c).2 =
      { c.act [.recved p.totLen, .pbufFree] with name := c.name } := by
  simp [telnetRecv, TelnetConn.act]

theorem telnetRecv_fin (hello : Bytes) (arg : Bool) (env : TelnetEnv) (c : TelnetConn) :
    (telnetRecv hello arg none .ok env c).2 = c.act [.memFree arg, .close env.close] := rfl

/-- A segment is read into the block, and the block is not freed. -/
theorem telnetRecv_data (hello : Bytes) (env : TelnetEnv) (c : TelnetConn)
    (hdata : 0 < p.totLen) : ∃ as name, Uses as ∧
    (telnetRecv hello true (some p) .ok env c).2 = { c.act as with name := name } := by
  obtain ⟨as, has, hlog⟩ := recvChain_log hdata c.name
  have hreply : ∀ a ∈ replyLog hello env (recvChain p c.name).name, Keeps a := by
    rw [replyLog]
    exact List.forall_mem_append.mpr ⟨(crLfLog_accessOnly _).kept, by simp [Keeps]⟩
  have huses (bs : List TelnetAction) (hbs : ∀ a ∈ bs, Keeps a) :
      Uses ([.recved p.totLen] ++ (.length :: as) ++ bs ++ [.pbufFree]) := by
    refine ⟨?_, .length, by simp, trivial⟩
    simp only [List.forall_mem_append]
    refine ⟨⟨⟨by simp [Keeps], ?_⟩, hbs⟩, by simp [Keeps]⟩
    exact List.forall_mem_cons.mpr ⟨trivial, has.kept⟩
  cases hdone : (recvChain p c.name).done with
  | true =>
    refine ⟨_, ⟨0, (crLf (recvChain p c.name).name).bytes⟩, huses _ hreply, ?_⟩
    simp [telnetRecv, TelnetConn.act, hdone, hlog]
  | false =>
    refine ⟨_, (recvChain p c.name).name, huses [] (by simp), ?_⟩
    simp [telnetRecv, TelnetConn.act, hdone, hlog]

end Recv

theorem recv_effect (app : TelnetApp) {s : TelnetSystem} {p : Option Pbuf} (env : TelnetEnv)
    (hphase : s.phase = .active) (hdata : ∀ q ∈ p, 0 < q.totLen) :
    StepEffect s ⟨(app.recv s.conn.callbackArg p .ok env s.conn).2, .active⟩ := by
  have hnot : s.phase ≠ .ended := by simp [hphase]
  rw [app.recv_eq]
  cases harg : s.conn.callbackArg with
  | false =>
    cases p with
    | none =>
      rw [telnetRecv_fin]
      exact .idle _ s.conn.name .active hnot (by simp [Idle, TouchesBlock]) harg
        (fun _ => hphase) nofun
    | some p =>
      rw [telnetRecv_null]
      exact .idle _ s.conn.name .active hnot (by simp [Idle, TouchesBlock]) harg
        (fun _ => hphase) nofun
  | true =>
    cases p with
    | none =>
      rw [telnetRecv_fin]
      exact .free _ .active hphase (by simp [Idle, TouchesBlock]) harg nofun
    | some p =>
      obtain ⟨as, name, has, hcall⟩ := telnetRecv_data app.hello env s.conn (hdata p rfl)
      rw [hcall]
      exact .data as name hphase has harg

theorem error_effect {s : TelnetSystem} (hreg : Registered s) (hphase : s.phase ≠ .ended) :
    StepEffect s ⟨errorEvent s.conn, .ended⟩ := by
  cases hs : s.phase with
  | pending =>
    obtain ⟨harg, herrf⟩ := hreg.pending hs
    have hidle := StepEffect.idle [] s.conn.name .ended hphase (by simp [Idle]) harg nofun nofun
    simp only [TelnetConn.act, List.append_nil] at hidle
    rw [errorEvent, herrf]
    exact hidle
  | active =>
    rw [errorEvent, (hreg.active hs).2, if_pos rfl, connErr]
    cases harg : s.conn.callbackArg with
    | false =>
      exact .idle _ s.conn.name .ended hphase (by simp [Idle, TouchesBlock]) harg nofun nofun
    | true => exact .free [] .ended hs (by simp [Idle]) harg nofun
  | ended => exact absurd hs hphase

/-- All that a step can do. -/
theorem telnetStep_effect {app : TelnetApp} {s t : TelnetSystem} {e : TelnetEvent}
    (hreg : Registered s) (he : e ≠ .removed) (h : telnetStep app s e = some t) :
    StepEffect s t := by
  cases e with
  | accept calloc =>
    simp only [telnetStep] at h
    split_ifs at h with hphase
    exact Option.some.inj h ▸ .accepted calloc hphase
  | recv p env =>
    simp only [telnetStep] at h
    split_ifs at h with hready hrecv
    · exact Option.some.inj h ▸ recv_effect app env hready.1 hready.2
    · exact absurd (hreg.active hready.1).1 hrecv
  | error =>
    simp only [telnetStep] at h
    split_ifs at h with hphase
    exact Option.some.inj h ▸ error_effect hreg hphase
  | removed => exact absurd rfl he

theorem StepEffect.registered {s t : TelnetSystem} (h : StepEffect s t) (hreg : Registered s) :
    Registered t := by
  cases h with
  | accepted calloc => exact ⟨nofun, fun _ => ⟨rfl, rfl⟩⟩
  | idle as name phase hs has harg hphase hpending =>
    exact ⟨fun ht => absurd ht hpending, fun ht => hreg.active (hphase ht)⟩
  | data as name hs => exact ⟨nofun, fun _ => hreg.active hs⟩
  | free as phase hs has harg hpending =>
    exact ⟨fun ht => absurd ht hpending, fun _ => hreg.active hs⟩

/-! ### Whole runs -/

/-- The block, allocated once, has not been used after it was freed. -/
structure OneBlock (log : List TelnetAction) : Prop where
  calloc : log.count .calloc = 1
  unused : NoUseAfter (· = .memFree true) TouchesBlock log

structure NameInv (s : TelnetSystem) : Prop where
  registered : Registered s
  pending : s.phase = .pending → s.conn.log = []
  none : s.conn.callbackArg = false → Idle s.conn.log
  one : s.conn.callbackArg = true → OneBlock s.conn.log
  finished : s.conn.callbackArg = true → Over s → .memFree true ∈ s.conn.log

section Log

variable {log as : List TelnetAction}

theorem Idle.not_free (h : Idle as) : .memFree true ∉ as := fun hmem => (h _ hmem).1 trivial

theorem Idle.not_calloc (h : Idle as) : .calloc ∉ as := fun hmem => (h _ hmem).2 rfl

theorem Idle.append {bs : List TelnetAction} (h : Idle as) (hb : Idle bs) : Idle (as ++ bs) :=
  List.forall_mem_append.mpr ⟨h, hb⟩

theorem noUseAfter_of_not_mem (h : .memFree true ∉ log) :
    NoUseAfter (· = .memFree true) TouchesBlock log :=
  noUseAfter_of_unreleased fun _ ha hfree => h (hfree ▸ ha)

theorem OneBlock.uses (h : OneBlock log) (hfree : .memFree true ∉ log) (has : Uses as) :
    OneBlock (log ++ as) := by
  constructor
  · rw [List.count_append, h.calloc, List.count_eq_zero.mpr (has.kept .calloc)]
  · refine noUseAfter_of_not_mem fun hmem => ?_
    obtain hold | hnew := List.mem_append.mp hmem
    · exact hfree hold
    · exact has.kept _ hnew

theorem OneBlock.free (h : OneBlock log) (hfree : .memFree true ∉ log) (has : Idle as) :
    OneBlock (log ++ .memFree true :: as) := by
  constructor
  · rw [List.count_append, h.calloc, List.count_cons, List.count_eq_zero.mpr has.not_calloc]
    rfl
  · rw [noUseAfter_append_of_unreleased fun a ha hmem => hfree (by rwa [← hmem])]
    refine List.Pairwise.cons (fun b hb _ => (has b hb).1) ?_
    exact noUseAfter_of_not_mem has.not_free

theorem OneBlock.freed (h : OneBlock log) (hfree : .memFree true ∈ log) :
    log.count (.memFree true) = log.count .calloc := by
  have hle : log.count (.memFree true) ≤ 1 := by
    have hcount := h.unused.countP_le_one fun a ha => by
      subst ha
      trivial
    simpa [List.count, beq_eq_decide] using hcount
  rw [h.calloc]
  exact le_antisymm hle (List.count_pos_iff.mpr hfree)

theorem Idle.freed (h : Idle log) : log.count (.memFree true) = log.count .calloc := by
  rw [List.count_eq_zero.mpr h.not_free, List.count_eq_zero.mpr h.not_calloc]

end Log

theorem NameInv.safe {s : TelnetSystem} (h : NameInv s) : NameSafe s := by
  cases harg : s.conn.callbackArg with
  | false =>
    have hnone := h.none harg
    exact ⟨noUseAfter_of_not_mem hnone.not_free, fun _ => hnone.freed⟩
  | true =>
    have hone := h.one harg
    exact ⟨hone.unused, fun hover => hone.freed (h.finished harg hover)⟩

theorem nameInv_init (name : Name) : NameInv (telnetInit name) where
  registered := ⟨fun _ => ⟨rfl, rfl⟩, nofun⟩
  pending := fun _ => rfl
  none := fun _ => by simp [Idle, telnetInit]
  one := nofun
  finished := nofun

/-- A step of a connection whose block has not been freed. -/
theorem NameInv.step {s t : TelnetSystem} (h : NameInv s) (hfree : .memFree true ∉ s.conn.log)
    (heffect : StepEffect s t) : NameInv t := by
  have hreg := heffect.registered h.registered
  cases heffect with
  | accepted calloc hs =>
    have hlog := h.pending hs
    refine ⟨hreg, nofun, ?_, ?_, ?_⟩
    · rintro rfl
      simp [telnetAccept, hlog, Idle]
    · rintro rfl
      exact ⟨by simp [telnetAccept, hlog], noUseAfter_of_not_mem (by simp [telnetAccept, hlog])⟩
    · rintro rfl
      simp [Over, telnetAccept, hlog]
  | idle as name phase hs has harg hphase hpending =>
    refine ⟨hreg, fun ht => absurd ht hpending, fun _ => (h.none harg).append has, ?_, ?_⟩
    · exact fun hblock => absurd (harg.symm.trans hblock) Bool.false_ne_true
    · exact fun hblock => absurd (harg.symm.trans hblock) Bool.false_ne_true
  | data as name hs has harg =>
    refine ⟨hreg, nofun, ?_, fun _ => (h.one harg).uses hfree has, ?_⟩
    · exact fun hnone => absurd (hnone.symm.trans harg) Bool.false_ne_true
    · rintro _ (hended | ⟨err, hclose⟩)
      · exact absurd hended nofun
      · obtain hold | hnew := List.mem_append.mp hclose
        · exact List.mem_append_left as (h.finished harg (.inr ⟨err, hold⟩))
        · exact absurd (has.kept _ hnew) id
  | free as phase hs has harg hpending =>
    refine ⟨hreg, fun ht => absurd ht hpending, ?_, fun _ => (h.one harg).free hfree has, ?_⟩
    · exact fun hnone => absurd (hnone.symm.trans harg) Bool.false_ne_true
    · exact fun _ _ => by simp

theorem removed_eq {s t : TelnetSystem} {app : TelnetApp}
    (hstep : telnetStep app s .removed = some t) :
    .close .ok ∈ s.conn.log ∧ t = { s with phase := .ended } := by
  simp only [telnetStep] at hstep
  split_ifs at hstep with hremoved
  exact ⟨hremoved.2, (Option.some.inj hstep).symm⟩

theorem nameInv_step {app : TelnetApp} (s : TelnetSystem) (e : TelnetEvent) (t : TelnetSystem)
    (h : NameInv s) (hquiet : QuietAfterFree s e) (hstep : telnetStep app s e = some t) :
    NameInv t := by
  by_cases he : e = .removed
  · subst he
    obtain ⟨hclose, rfl⟩ := removed_eq hstep
    exact ⟨⟨nofun, nofun⟩, nofun, h.none, h.one, fun harg _ => h.finished harg (.inr ⟨.ok, hclose⟩)⟩
  · exact h.step (fun hfree => he (hquiet hfree)) (telnetStep_effect h.registered he hstep)

/-! ### Events after the block was freed -/

/-- A step only adds to the log. -/
theorem StepEffect.log {s t : TelnetSystem} (h : StepEffect s t) :
    ∃ as, t.conn.log = s.conn.log ++ as := by
  cases h with
  | accepted calloc => exact ⟨_, rfl⟩
  | idle as => exact ⟨as, rfl⟩
  | data as => exact ⟨as, rfl⟩
  | free as => exact ⟨_, rfl⟩

/-- The block has been used or freed after it was freed. -/
structure Misused (s : TelnetSystem) : Prop where
  registered : Registered s
  used : ¬ NoUseAfter (· = .memFree true) TouchesBlock s.conn.log

theorem misused_of_touch {log as : List TelnetAction} (hfree : .memFree true ∈ log)
    (htouch : ∃ a ∈ as, TouchesBlock a) :
    ¬ NoUseAfter (· = .memFree true) TouchesBlock (log ++ as) := by
  obtain ⟨a, ha, htouch⟩ := htouch
  rw [noUseAfter_append]
  exact fun h => h.2.2 _ hfree a ha rfl htouch

/-- Any callback of a connection whose block has been freed uses it. -/
theorem misused_step {app : TelnetApp} (s : TelnetSystem) (e : TelnetEvent) (t : TelnetSystem)
    (h : NameInv s) (hloud : ¬ QuietAfterFree s e) (hstep : telnetStep app s e = some t) :
    Misused t := by
  obtain ⟨hfree, he⟩ := Classical.not_imp.mp hloud
  have heffect := telnetStep_effect h.registered he hstep
  refine ⟨heffect.registered h.registered, ?_⟩
  cases heffect with
  | accepted calloc hs =>
    rw [h.pending hs] at hfree
    exact absurd hfree List.not_mem_nil
  | idle as name phase hs has harg => exact absurd hfree (h.none harg).not_free
  | data as name hs has => exact misused_of_touch hfree has.touches
  | free as => exact misused_of_touch hfree ⟨_, List.mem_cons_self, trivial⟩

theorem Misused.step {app : TelnetApp} (s : TelnetSystem) (e : TelnetEvent) (t : TelnetSystem)
    (h : Misused s) (hstep : telnetStep app s e = some t) : Misused t := by
  by_cases he : e = .removed
  · subst he
    obtain ⟨_, rfl⟩ := removed_eq hstep
    exact ⟨⟨nofun, nofun⟩, h.used⟩
  · have heffect := telnetStep_effect h.registered he hstep
    obtain ⟨as, hlog⟩ := heffect.log
    refine ⟨heffect.registered h.registered, fun hunused => h.used ?_⟩
    rw [hlog] at hunused
    exact (noUseAfter_append.mp hunused).1

/-- In every run of a telnet connection the block is freed exactly once and not used
after that if and only if no callback follows the one that frees it. -/
theorem name_block_safe_iff (app : TelnetApp) (name : Name) {es : List TelnetEvent}
    {t : TelnetSystem} (hrun : run (telnetStep app) (telnetInit name) es = some t) :
    NameSafe t ↔ Along (telnetStep app) QuietAfterFree (telnetInit name) es := by
  obtain ⟨hquiet, ht⟩ | ⟨hloud, ht⟩ :=
    invariant_or_lost nameInv_step misused_step Misused.step (nameInv_init name) hrun
  · exact ⟨fun _ => hquiet, fun _ => ht.safe⟩
  · exact ⟨fun hsafe => absurd hsafe.unused ht.used, fun hquiet => absurd hquiet hloud⟩

/-- A connection that is closed by its peer in an orderly way. -/
def orderlyRun : List TelnetEvent :=
  [.accept true, .recv (some (.single [72, 105, 13, 10] (by decide))) ⟨.ok, .ok, .ok⟩,
    .recv none ⟨.ok, .ok, .ok⟩, .removed]

theorem name_block_safe_orderly :
    ∃ t, run (telnetStep .helloWorld) (telnetInit ⟨0, fun _ => 0⟩) orderlyRun = some t ∧
      NameSafe t := by
  have hquiet : Along (telnetStep .helloWorld) QuietAfterFree (telnetInit ⟨0, fun _ => 0⟩)
      orderlyRun := by
    decide +kernel
  exact ⟨_, rfl, (name_block_safe_iff .helloWorld ⟨0, fun _ => 0⟩ rfl).mpr hquiet⟩

/-- The peer closes and does not acknowledge the FIN that answers: after the timeout
the block is freed again. -/
theorem last_ack_timeout_frees_again :
    ∃ t, run (telnetStep .helloWorld) (telnetInit ⟨0, fun _ => 0⟩)
        [.accept true, .recv none ⟨.ok, .ok, .ok⟩, .error] = some t ∧
      t.conn.log.count (.memFree true) = 2 ∧ ¬ NameSafe t :=
  ⟨_, rfl, rfl, fun h => absurd (h.freed (.inl rfl)) (by decide)⟩

end EthMange.Telnet
