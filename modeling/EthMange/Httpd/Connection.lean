import EthMange.Lib.Run
import EthMange.Httpd.Server

/-!
# The life of a connection

The stack delivers to a connection whatever its registered callbacks allow, in
any order, up to one error event or the removal of a PCB that has been closed.
What one step can do is said once, as `StepEffect`; everything about whole runs
is derived from it.
-/

namespace EthMange.Httpd

inductive ConnPhase
  -- before `http_accept` is called
  | pending
  | active
  -- the PCB is gone
  | ended
  deriving DecidableEq, Repr

structure HttpSystem where
  conn : HttpConn
  phase : ConnPhase

inductive HttpEvent
  | accept (malloc : Bool)
  -- data, or a FIN where there is no pbuf
  | recv (p : Option Pbuf) (err : Err) (env : HttpEnv)
  | sent (env : HttpEnv)
  | poll (env : HttpEnv)
  | error
  -- a PCB that has been closed goes without a callback
  | removed

/-- The connection of a SYN; its block holds anything. -/
def httpInit (hs : HttpState) : HttpSystem :=
  ⟨⟨⟨false, false, false, false, false⟩, hs, []⟩, .pending⟩

/-- The error event, with the argument that is set. -/
def errorEvent (c : HttpConn) : HttpConn := if c.pcb.errf then connErr c.pcb.callbackArg c else c

def httpStep (fs : FsImage) (s : HttpSystem) : HttpEvent → Option HttpSystem
  | .accept malloc =>
    if s.phase = .pending then
      match httpAccept malloc s.conn with
      | (.ok, c) => some ⟨c, .active⟩
      -- the stack aborts the connection
      | (_, c) => some ⟨errorEvent c, .ended⟩
    else none
  | .recv p err env =>
    if s.phase = .active then
      if s.conn.pcb.recv then
        (httpRecv fs s.conn.pcb.callbackArg p err env s.conn).map fun c => ⟨c, .active⟩
      else some s
    else none
  | .sent env =>
    if s.phase = .active then
      if s.conn.pcb.sent then some ⟨httpSent s.conn.pcb.callbackArg env s.conn, .active⟩
      else some s
    else none
  | .poll env =>
    if s.phase = .active then
      if s.conn.pcb.poll then some ⟨httpPoll s.conn.pcb.callbackArg env s.conn, .active⟩
      else some s
    else none
  | .error => if s.phase = .ended then none else some ⟨errorEvent s.conn, .ended⟩
  | .removed =>
    if s.phase = .active ∧ .close .ok ∈ s.conn.log then some { s with phase := .ended } else none

/-! ### The pages -/

theorem strEq_literal (s : String) : strEq (literal s) s = true := by
  have hlen : (stringBytes s).length = s.length + 1 := by simp [stringBytes, String.length_toList]
  rw [strEq, decide_eq_true_eq, literal, ← hlen, Memory.read_ofBytes]

/-- A page whose name is in the list is found. -/
theorem fsOpen_literal (fs : FsImage) {s : String} (h : ∃ f ∈ fs.root, f.name = s) :
    ∃ f, fsOpen fs.root (literal s) = some f := by
  obtain ⟨f, hf, rfl⟩ := h
  have hsome : (fs.root.find? fun g => strEq (literal f.name) g.name).isSome :=
    List.find?_isSome.mpr ⟨f, hf, strEq_literal f.name⟩
  obtain ⟨g, hg⟩ := Option.isSome_iff_exists.mp hsome
  exact ⟨(g.data, g.len), by rw [fsOpen, hg, Option.map_some]⟩

theorem fsOpen_ne_null {fs : FsImage} {name : Memory} {f : ℕ × UInt32}
    (h : fsOpen fs.root name = some f) : f.1 ≠ 0 := by
  rw [fsOpen, Option.map_eq_some_iff] at h
  obtain ⟨g, hg, rfl⟩ := h
  obtain ⟨h₁, h₂, h₃, h₄, h₅⟩ := fs.not_null
  have hmem := List.mem_of_find?_eq_some hg
  simp only [FsImage.root, List.mem_cons, List.not_mem_nil, or_false] at hmem
  rcases hmem with rfl | rfl | rfl | rfl | rfl <;> assumption

/-! ### What a callback does -/

/-- Actions that concern neither the ownership of the block nor the stream. -/
def HttpAction.Quiet : HttpAction → Prop
  | .access | .recved _ | .pbufFree | .led _ _ | .digit _ _ => True
  | _ => False

def Quiet (as : List HttpAction) : Prop := ∀ a ∈ as, a.Quiet

/-- The effect of a callback on a connection that has its block. -/
inductive CallbackEffect (c : HttpConn) : HttpConn → Prop
  | quiet (as) (h : Quiet as) : CallbackEffect c (c.act as)
  | send (as env) (h : Quiet as) : CallbackEffect c (sendData env (c.act as))
  | page (as f env) (h : Quiet as) (hnull : f.1 ≠ 0) (hfile : c.hs.file = 0) :
    CallbackEffect c (sendPage (some f) env (c.act as))
  | close (as env) (h : Quiet as) : CallbackEffect c (closeConn true env (c.act as))

@[simp] theorem quiet_nil : Quiet [] := by simp [Quiet]

@[simp] theorem quiet_cons {a : HttpAction} {as : List HttpAction} :
    Quiet (a :: as) ↔ a.Quiet ∧ Quiet as := by
  simp [Quiet]

theorem quiet_append {as bs : List HttpAction} : Quiet (as ++ bs) ↔ Quiet as ∧ Quiet bs := by
  simp only [Quiet, List.forall_mem_append]

/-- The pages that were put into the block. -/
def selectedOf (log : List HttpAction) : List (ℕ × UInt32) :=
  log.filterMap fun
    | .select data len => some (data, len)
    | _ => none

/-- No page is selected and nothing is accepted by `tcp_write`. -/
def HttpAction.Silent : HttpAction → Prop
  | .select _ _ | .write _ _ .ok => False
  | _ => True

theorem HttpAction.Quiet.silent {a : HttpAction} (h : a.Quiet) : a.Silent := by
  cases a <;> trivial

theorem Quiet.silent {as : List HttpAction} (h : Quiet as) : ∀ a ∈ as, a.Silent :=
  fun a ha => (h a ha).silent

theorem selectedOf_append (l k : List HttpAction) :
    selectedOf (l ++ k) = selectedOf l ++ selectedOf k :=
  List.filterMap_append

theorem selectedOf_silent (l : List HttpAction) {k : List HttpAction} (h : ∀ a ∈ k, a.Silent) :
    selectedOf (l ++ k) = selectedOf l := by
  have hnone : selectedOf k = [] := by
    rw [selectedOf, List.filterMap_eq_nil_iff]
    intro a ha
    cases a <;> first | rfl | exact absurd (h _ ha) id
  rw [selectedOf_append, hnone, List.append_nil]

@[simp] theorem act_pcb (c : HttpConn) (as : List HttpAction) : (c.act as).pcb = c.pcb := rfl

@[simp] theorem act_hs (c : HttpConn) (as : List HttpAction) : (c.act as).hs = c.hs := rfl

@[simp] theorem act_log (c : HttpConn) (as : List HttpAction) :
    (c.act as).log = c.log ++ as := rfl

@[simp] theorem act_nil (c : HttpConn) : c.act [] = c := by simp [HttpConn.act]

@[simp] theorem act_act (c : HttpConn) (as bs : List HttpAction) :
    (c.act as).act bs = c.act (as ++ bs) := by
  simp [HttpConn.act]

@[simp] theorem sendData_pcb (env : HttpEnv) (c : HttpConn) : (sendData env c).pcb = c.pcb := by
  rw [sendData]
  split <;> rfl

theorem sendData_log (env : HttpEnv) (c : HttpConn) :
    (sendData env c).log = c.log ++
      ([.access, .write c.hs.file (sendLen env.sndbuf c.hs.left) env.write] ++
        if env.write = .ok then [.access] else []) := by
  rw [sendData]
  split_ifs with h <;> simp

theorem sendPage_log (f : ℕ × UInt32) (env : HttpEnv) (c : HttpConn) :
    (sendPage (some f) env c).log = c.log ++
      .access :: .select f.1 f.2 :: .access ::
        .write f.1 (sendLen env.sndbuf f.2) env.write ::
          if env.write = .ok then [.access] else [] := by
  have hlog : (sendPage (some f) env c).log =
      (sendData env ({ c with hs := ⟨f.1, f.2⟩ }.act [.access, .select f.1 f.2])).log := rfl
  rw [hlog, sendData_log, act_log, List.append_assoc]
  rfl

theorem closeConn_log (c : HttpConn) :
    (closeConn true env c).log = c.log ++ [.free, .close env.close] := by
  simp [closeConn]

theorem ledOn_quiet (b : UInt8) : Quiet (ledOn b) := by
  rw [ledOn]
  split_ifs <;> simp [HttpAction.Quiet]

theorem ledScan_quiet {data : Memory} {fuel i : ℕ} {leds : List HttpAction}
    (h : ledScan data fuel i = some leds) : Quiet leds := by
  induction fuel generalizing i leds with
  | zero => simp [ledScan] at h
  | succ fuel ih =>
    rw [ledScan] at h
    split_ifs at h with hspace hl he hd
    · rw [Option.some.injEq] at h
      exact h ▸ quiet_nil
    · rw [Option.map_eq_some_iff] at h
      obtain ⟨rest, hrest, rfl⟩ := h
      exact quiet_append.mpr ⟨ledOn_quiet _, ih hrest⟩
    · exact ih h
    · exact ih h
    · exact ih h

section Callbacks

variable {fs : FsImage} {c c' : HttpConn} {env : HttpEnv}

/-- A request that is none closes the connection; any other one leads to a page. -/
theorem httpRequest_cases {p : Pbuf} (h : httpRequest fs true p env c = some c') :
    (∃ as f, Quiet as ∧ f.1 ≠ 0 ∧ c' = sendPage (some f) env (c.act as)) ∨
      c' = closeConn true env c := by
  rw [httpRequest] at h
  simp only at h
  split_ifs at h with hadc hled hget
  · obtain ⟨f, hf⟩ := fsOpen_literal fs (s := "/STM32F107ADC.html") (by simp [FsImage.root])
    rw [hf, Option.some.injEq] at h
    refine .inl ⟨_, f, ?_, fsOpen_ne_null hf, h.symm⟩
    simp [adcDigits, HttpAction.Quiet]
  · rw [Option.map_eq_some_iff] at h
    obtain ⟨leds, hleds, h⟩ := h
    obtain ⟨f, hf⟩ := fsOpen_literal fs (s := "/STM32F107LED.html") (by simp [FsImage.root])
    rw [hf] at h
    refine .inl ⟨_, f, ?_, fsOpen_ne_null hf, h.symm⟩
    simp [quiet_append, ledScan_quiet hleds, HttpAction.Quiet]
  · obtain ⟨g, hg⟩ := fsOpen_literal fs (s := "/STM32F107.html") (by simp [FsImage.root])
    rw [hg, Option.some.injEq] at h
    have hfree : Quiet [.pbufFree] := by simp [HttpAction.Quiet]
    cases hf : fsOpen fs.root (copyName (requestPayload p.payload) 40 0 fun _ => 0) with
    | none =>
      rw [hf, Option.none_or] at h
      exact .inl ⟨_, g, hfree, fsOpen_ne_null hg, h.symm⟩
    | some f =>
      rw [hf, Option.some_or] at h
      exact .inl ⟨_, f, hfree, fsOpen_ne_null hf, h.symm⟩
  · rw [Option.some.injEq] at h
    exact .inr h.symm

theorem httpRecv_effect {p : Option Pbuf} {err : Err}
    (h : httpRecv fs true p err env c = some c') : CallbackEffect c c' := by
  by_cases herr : err = .ok
  · subst herr
    cases p with
    | none =>
      simp only [httpRecv, ne_eq, not_true_eq_false, if_false, Option.some.injEq] at h
      rw [← h]
      simpa using CallbackEffect.close (c := c) [] env quiet_nil
    | some p =>
      simp only [httpRecv, ne_eq, not_true_eq_false, if_false, act_act, act_hs] at h
      have htaken : Quiet ([.recved p.totLen] ++ [.access]) := by simp [HttpAction.Quiet]
      by_cases hfile : c.hs.file = 0
      · rw [if_pos hfile] at h
        obtain ⟨as, f, has, hnull, rfl⟩ | rfl := httpRequest_cases h
        · rw [act_act]
          exact .page _ f env (quiet_append.mpr ⟨htaken, has⟩) hnull hfile
        · exact .close _ env htaken
      · rw [if_neg hfile, Option.some.injEq] at h
        rw [← h]
        exact .quiet _ (by simp [HttpAction.Quiet])
  · simp only [httpRecv, if_pos herr, Option.some.injEq] at h
    have hquiet := CallbackEffect.quiet (c := c) [] quiet_nil
    rw [act_nil] at hquiet
    exact h ▸ hquiet

theorem httpSent_of_left (h : 0 < c.hs.left) :
    httpSent true env c = sendData env (c.act [.access]) := by
  simp only [httpSent, not_true_eq_false, if_false, act_hs]
  exact if_pos h

theorem httpSent_of_done (h : ¬ 0 < c.hs.left) :
    httpSent true env c = closeConn true env (c.act [.access]) := by
  simp only [httpSent, not_true_eq_false, if_false, act_hs]
  exact if_neg h

theorem httpSent_effect (env : HttpEnv) (c : HttpConn) :
    CallbackEffect c (httpSent true env c) := by
  have haccess : Quiet [.access] := by simp [HttpAction.Quiet]
  by_cases h : 0 < c.hs.left
  · rw [httpSent_of_left h]
    exact .send _ env haccess
  · rw [httpSent_of_done h]
    exact .close _ env haccess

end Callbacks

/-! ### What a step does -/

/-- A data or sent callback is registered only with the block as its argument,
and the error callback is there to take the block back. -/
structure Linked (c : HttpConn) : Prop where
  recv : c.pcb.recv = true → c.pcb.callbackArg = true
  sent : c.pcb.sent = true → c.pcb.callbackArg = true
  errf : c.pcb.callbackArg = true → c.pcb.errf = true

inductive StepEffect (s : HttpSystem) : HttpSystem → Prop
  | accepted (h : s.phase = .pending) : StepEffect s ⟨(httpAccept true s.conn).2, .active⟩
  -- refused by `http_accept`, reset or aborted
  | failed (h : s.phase ≠ .ended) : StepEffect s ⟨errorEvent s.conn, .ended⟩
  | callback (c) (h : s.phase = .active) (harg : s.conn.pcb.callbackArg = true)
    (hc : CallbackEffect s.conn c) : StepEffect s ⟨c, .active⟩
  -- the poll of a connection without its block
  | closeAgain (err) (h : s.phase = .active) (harg : s.conn.pcb.callbackArg = false) :
    StepEffect s ⟨s.conn.act [.close err], .active⟩
  -- no callback is registered
  | ignored : StepEffect s s
  | removed (h : s.phase = .active) (hclose : .close .ok ∈ s.conn.log) :
    StepEffect s { s with phase := .ended }

/-- All that a step can do. -/
theorem httpStep_effect {fs : FsImage} {s t : HttpSystem} {e : HttpEvent} (hlink : Linked s.conn)
    (h : httpStep fs s e = some t) : StepEffect s t := by
  cases e with
  | accept malloc =>
    simp only [httpStep] at h
    split_ifs at h with hphase
    cases malloc with
    | false =>
      simp only [httpAccept, Bool.false_eq_true, not_false_eq_true, if_true,
        Option.some.injEq] at h
      exact h ▸ .failed (by simp [hphase])
    | true =>
      simp only [httpAccept, not_true_eq_false, if_false, Option.some.injEq] at h
      exact h ▸ .accepted hphase
  | recv p err env =>
    simp only [httpStep] at h
    split_ifs at h with hphase hrecv
    · have harg := hlink.recv hrecv
      rw [Option.map_eq_some_iff] at h
      obtain ⟨c, hc, rfl⟩ := h
      rw [harg] at hc
      exact .callback c hphase harg (httpRecv_effect hc)
    · exact Option.some.inj h ▸ .ignored
  | sent env =>
    simp only [httpStep] at h
    split_ifs at h with hphase hsent
    · have harg := hlink.sent hsent
      rw [harg, Option.some.injEq] at h
      exact h ▸ .callback _ hphase harg (httpSent_effect env s.conn)
    · exact Option.some.inj h ▸ .ignored
  | poll env =>
    simp only [httpStep] at h
    split_ifs at h with hphase hpoll
    · rw [Option.some.injEq] at h
      cases harg : s.conn.pcb.callbackArg with
      | false =>
        rw [harg] at h
        exact h ▸ .closeAgain env.close hphase harg
      | true =>
        rw [harg] at h
        have hsend := CallbackEffect.send (c := s.conn) [] env quiet_nil
        rw [act_nil] at hsend
        exact h ▸ .callback _ hphase harg hsend
    · exact Option.some.inj h ▸ .ignored
  | error =>
    simp only [httpStep] at h
    split_ifs at h with hphase
    exact Option.some.inj h ▸ .failed hphase
  | removed =>
    simp only [httpStep] at h
    split_ifs at h with hremoved
    exact Option.some.inj h ▸ .removed hremoved.1 hremoved.2

theorem errorEvent_eq (c : HttpConn) :
    errorEvent c = c.act (if c.pcb.errf && c.pcb.callbackArg then [.free] else []) := by
  cases herrf : c.pcb.errf <;> cases harg : c.pcb.callbackArg <;>
    simp [errorEvent, connErr, herrf, harg]

theorem CallbackEffect.linked {c c' : HttpConn} (h : CallbackEffect c c')
    (harg : c.pcb.callbackArg = true) (hlink : Linked c) : Linked c' := by
  cases h with
  | quiet as has => exact ⟨hlink.recv, hlink.sent, hlink.errf⟩
  | send as env has =>
    constructor <;> rw [sendData_pcb]
    exacts [hlink.recv, hlink.sent, hlink.errf]
  | page as f env has hnull hfile =>
    have hpcb : (sendPage (some f) env (c.act as)).pcb = { c.pcb with sent := true } := by
      simp [sendPage]
    constructor <;> rw [hpcb]
    exacts [hlink.recv, fun _ => harg, hlink.errf]
  | close as env has => exact ⟨nofun, nofun, nofun⟩

theorem StepEffect.linked {s t : HttpSystem} (h : StepEffect s t) (hlink : Linked s.conn) :
    Linked t.conn := by
  cases h with
  | accepted => exact ⟨fun _ => rfl, fun _ => rfl, fun _ => rfl⟩
  | failed =>
    rw [errorEvent_eq]
    exact ⟨hlink.recv, hlink.sent, hlink.errf⟩
  | callback c hphase harg hc => exact hc.linked harg hlink
  | closeAgain err => exact ⟨hlink.recv, hlink.sent, hlink.errf⟩
  | ignored => exact hlink
  | removed => exact hlink

/-! ### A small image and a request -/

def sampleFs : FsImage := ⟨0x8000, 0x9000, 0xA000, 0xC000, 0x11000, by decide⟩

def gifRequest : Pbuf := .single (stringBytes "GET /images/ST.gif ") (by decide)

def idleEnv (sndbuf : UInt16) : HttpEnv := ⟨sndbuf, .ok, .ok, 0⟩

end EthMange.Httpd
