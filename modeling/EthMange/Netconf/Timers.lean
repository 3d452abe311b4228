import EthMange.Lib.Clock
import EthMange.Netconf.Periodic

/-!
# The periodic timers survive the wrap of `LocalTime`

Every task is polled by one comparison of `LocalTime` with its own timer. The
rest of a poll, the start of the applications and the DHCP fallback included,
leaves the timers alone, so a task fires as a timer of its own would.
-/

namespace EthMange.Netconf

open Clock (clock32 firings GapsWithin)

inductive PeriodicTask
  | tcpTmr
  | etharpTmr
  | dhcpFineTmr
  | dhcpCoarseTmr
  | displayRefresh
deriving DecidableEq

namespace PeriodicTask

def action : PeriodicTask → NetAction
  | tcpTmr => .tcpTmr
  | etharpTmr => .etharpTmr
  | dhcpFineTmr => .dhcpFineTmr
  | dhcpCoarseTmr => .dhcpCoarseTmr
  | displayRefresh => .displayRefresh

def msecs : PeriodicTask → UInt32
  | tcpTmr => tcpTmrInterval
  | etharpTmr => arpTmrInterval
  | dhcpFineTmr => dhcpFineTimerMsecs
  | dhcpCoarseTmr => dhcpCoarseTimerMsecs
  | displayRefresh => lcdTimerMsecs

def timer : PeriodicTask → NetconfVars → UInt32
  | tcpTmr, v => v.tcpTimer
  | etharpTmr, v => v.arpTimer
  | dhcpFineTmr, v => v.dhcpFineTimer
  | dhcpCoarseTmr, v => v.dhcpCoarseTimer
  | displayRefresh, v => v.displayTimer

def setTimer (localtime : UInt32) : PeriodicTask → NetconfVars → NetconfVars
  | tcpTmr, v => { v with tcpTimer := localtime }
  | etharpTmr, v => { v with arpTimer := localtime }
  | dhcpFineTmr, v => { v with dhcpFineTimer := localtime }
  | dhcpCoarseTmr, v => { v with dhcpCoarseTimer := localtime }
  | displayRefresh, v => { v with displayTimer := localtime }

/-- The true time at which a poll tests the task. -/
def pollTime : PeriodicTask → NetEvent → Option ℕ
  | displayRefresh, .poll displayTime _ => some displayTime
  | _, .poll _ lwipTime => some lwipTime
  | _, .dhcp .. => none

/-- The interval in milliseconds. -/
def interval (task : PeriodicTask) : ℕ := task.msecs.toNat

/-- One comparison of `LocalTime` with the timer of the task. -/
def poll (task : PeriodicTask) (localtime : UInt32) (b : Board) : Board :=
  if localtime - task.timer b.vars ≥ task.msecs then
    { b.act task.action with vars := task.setTimer localtime b.vars }
  else b

theorem interval_pos (task : PeriodicTask) : 0 < task.interval := by
  cases task <;> decide

theorem interval_le (task : PeriodicTask) : task.interval ≤ 60000 := by
  cases task <;> decide

theorem action_injective {task other : PeriodicTask} :
    task.action = other.action ↔ task = other := by
  cases task <;> cases other <;> decide

@[simp] theorem timer_setTimer (task : PeriodicTask) (localtime : UInt32) (v : NetconfVars) :
    task.timer (task.setTimer localtime v) = localtime := by
  cases task <;> rfl

theorem timer_setTimer_of_ne {task other : PeriodicTask} (h : task ≠ other) (localtime : UInt32)
    (v : NetconfVars) : task.timer (other.setTimer localtime v) = task.timer v := by
  cases task <;> cases other <;> first | rfl | exact absurd rfl h

end PeriodicTask

/-- Between the two boards the timer of the task was not touched and the task
not called. -/
def Untouched (task : PeriodicTask) (b b' : Board) : Prop :=
  task.timer b'.vars = task.timer b.vars ∧
    b'.log.count task.action = b.log.count task.action

/-- Between the two boards the task was tested once, at a reading of the clock. -/
def Polled (task : PeriodicTask) (now : UInt32) (b b' : Board) : Prop :=
  task.timer b'.vars = clock32.stamp task.interval (task.timer b.vars) now ∧
    b'.log.count task.action =
      b.log.count task.action +
        (decide (task.interval ≤ clock32.since now (task.timer b.vars))).toNat

section Frames

variable {task : PeriodicTask} {now : UInt32} {a b c : Board}

theorem Untouched.refl (task : PeriodicTask) (b : Board) : Untouched task b b := ⟨rfl, rfl⟩

theorem Untouched.trans (hab : Untouched task a b) (hbc : Untouched task b c) :
    Untouched task a c :=
  ⟨hbc.1.trans hab.1, hbc.2.trans hab.2⟩

theorem Untouched.polled (hab : Untouched task a b) (hbc : Polled task now b c) :
    Polled task now a c := by
  refine ⟨?_, ?_⟩
  · rw [hbc.1, hab.1]
  · rw [hbc.2, hab.1, hab.2]

theorem Polled.untouched (hab : Polled task now a b) (hbc : Untouched task b c) :
    Polled task now a c :=
  ⟨hbc.1.trans hab.1, hbc.2.trans hab.2⟩

theorem polled_poll (task : PeriodicTask) (now : UInt32) (b : Board) :
    Polled task now b (task.poll now b) := by
  have hdue : now - task.timer b.vars ≥ task.msecs ↔
      task.interval ≤ clock32.since now (task.timer b.vars) := UInt32.le_iff_toNat_le
  rw [Polled, PeriodicTask.poll, Clock.WrappingClock.stamp]
  by_cases h : now - task.timer b.vars ≥ task.msecs
  · rw [if_pos h, if_pos (hdue.mp h)]
    simp [Board.act, hdue.mp h]
  · rw [if_neg h, if_neg (hdue.not.mp h)]
    simp [hdue.not.mp h]

theorem untouched_poll {other : PeriodicTask} (h : task ≠ other) (now : UInt32) (b : Board) :
    Untouched task b (other.poll now b) := by
  rw [PeriodicTask.poll]
  split_ifs
  · refine ⟨PeriodicTask.timer_setTimer_of_ne h now b.vars, ?_⟩
    have hne : other.action ≠ task.action :=
      fun heq => h (PeriodicTask.action_injective.mp heq).symm
    simp [Board.act, hne]
  · exact Untouched.refl task b

end Frames

/-- An action that is not one of the tasks. -/
def NetAction.Foreign : NetAction → Prop
  | .tcpTmr | .etharpTmr | .dhcpFineTmr | .dhcpCoarseTmr | .displayRefresh => False
  | _ => True

theorem NetAction.Foreign.ne {act : NetAction} (h : act.Foreign) (task : PeriodicTask) :
    act ≠ task.action := by
  rintro rfl
  cases task <;> exact h

section Display

variable (task : PeriodicTask)

theorem untouched_act (act : NetAction) (h : act.Foreign) (b : Board) :
    Untouched task b (b.act act) :=
  ⟨rfl, by simp [Board.act, h.ne task]⟩

theorem untouched_startApp (init : NetAction) (h : init.Foreign) (user : UdpUser) (b : Board) :
    Untouched task b (startApp user init b) := by
  have hinit := untouched_act task init h b
  rw [startApp]
  split
  · exact hinit
  · exact hinit.trans (untouched_act task .nullPcb trivial _)

theorem untouched_serverInit (b : Board) : Untouched task b (serverInit b) :=
  untouched_startApp task (.serverInit b.netif.ipAddr) trivial .server b

theorem untouched_clientInit (b : Board) : Untouched task b (clientInit b) :=
  untouched_startApp task (.clientInit b.netif.ipAddr) trivial .client b

theorem untouched_dhcpStop (b : Board) : Untouched task b (dhcpStop b) := by
  have hstop := untouched_act task .dhcpStop trivial b
  rw [dhcpStop]
  split
  · exact hstop
  · exact hstop

theorem untouched_netifSetAddr (ipAddr netmask gw : UInt32) (b : Board) :
    Untouched task b (netifSetAddr ipAddr netmask gw b) :=
  untouched_act task (.netifSetAddr ipAddr netmask gw) trivial b

-- no task keeps its time in the cached address or the LED counter
theorem untouched_vars (ipAddress : UInt32) (ledToggle : UInt8) (b : Board) :
    Untouched task b { b with vars := { b.vars with ipAddress, ledToggle } } :=
  ⟨by cases task <;> rfl, rfl⟩

theorem untouched_showAddress (b : Board) : Untouched task b (showAddress b) := by
  rw [showAddress]
  apply (untouched_vars task b.netif.ipAddr b.vars.ledToggle b).trans
  apply (untouched_serverInit task _).trans
  apply (untouched_clientInit task _).trans
  exact untouched_vars task _ _ _

theorem untouched_waitForDhcp (b : Board) : Untouched task b (waitForDhcp b) := by
  rw [waitForDhcp]
  apply (untouched_act task (.ledToggle (b.vars.ledToggle &&& 3)) trivial b).trans
  apply (untouched_vars task b.vars.ipAddress ((b.vars.ledToggle &&& 3) + 1) _).trans
  apply (untouched_act task (.readTries b.netif.dhcp.isSome) trivial _).trans
  dsimp only
  split_ifs
  · exact (untouched_dhcpStop task _).trans (untouched_netifSetAddr task _ _ _ _)
  · exact Untouched.refl task _

theorem untouched_refreshDisplay (b : Board) : Untouched task b (refreshDisplay b) := by
  rw [refreshDisplay]
  split_ifs
  · exact untouched_showAddress task b
  · exact untouched_waitForDhcp task b
  · exact Untouched.refl task b

/-- `Display_Periodic_Handle` tests its timer and then leaves all timers alone. -/
theorem untouched_displayPeriodicHandle (localtime : UInt32) (b : Board) :
    Untouched task (PeriodicTask.displayRefresh.poll localtime b)
      (displayPeriodicHandle localtime b) := by
  rw [displayPeriodicHandle]
  by_cases hdue : localtime - b.vars.displayTimer ≥ lcdTimerMsecs
  · have hpoll : PeriodicTask.displayRefresh.poll localtime b = _ := if_pos hdue
    rw [if_pos hdue, hpoll]
    exact untouched_refreshDisplay task _
  · have hpoll : PeriodicTask.displayRefresh.poll localtime b = b := if_neg hdue
    rw [if_neg hdue, hpoll]
    exact Untouched.refl task b

end Display

theorem lwipPeriodicHandle_eq (localtime : UInt32) (b : Board) :
    lwipPeriodicHandle localtime b =
      PeriodicTask.dhcpCoarseTmr.poll localtime (PeriodicTask.dhcpFineTmr.poll localtime
        (PeriodicTask.etharpTmr.poll localtime (PeriodicTask.tcpTmr.poll localtime b))) := rfl

/-- `LwIP_Periodic_Handle` tests each of its four timers once. -/
theorem polled_lwipPeriodicHandle {task : PeriodicTask} (h : task ≠ .displayRefresh)
    (localtime : UInt32) (b : Board) :
    Polled task localtime b (lwipPeriodicHandle localtime b) := by
  have hown := polled_poll task localtime
  have hother (other : PeriodicTask) (hne : task ≠ other) := untouched_poll hne localtime
  rw [lwipPeriodicHandle_eq]
  cases task with
  | tcpTmr =>
    refine (hown b).untouched ((hother _ ?_ _).trans ((hother _ ?_ _).trans (hother _ ?_ _)))
    all_goals simp
  | etharpTmr =>
    refine (hother _ ?_ b).polled ((hown _).untouched ((hother _ ?_ _).trans (hother _ ?_ _)))
    all_goals simp
  | dhcpFineTmr =>
    refine (hother _ ?_ b).polled ((hother _ ?_ _).polled ((hown _).untouched (hother _ ?_ _)))
    all_goals simp
  | dhcpCoarseTmr =>
    refine (hother _ ?_ b).polled ((hother _ ?_ _).polled ((hother _ ?_ _).polled (hown _)))
    all_goals simp
  | displayRefresh => exact absurd rfl h

theorem untouched_lwipPeriodicHandle (localtime : UInt32) (b : Board) :
    Untouched .displayRefresh b (lwipPeriodicHandle localtime b) := by
  have hother (other : PeriodicTask) (hne : .displayRefresh ≠ other) := untouched_poll hne localtime
  rw [lwipPeriodicHandle_eq]
  refine (hother _ ?_ b).trans ((hother _ ?_ _).trans ((hother _ ?_ _).trans (hother _ ?_ _))) <;>
    simp

/-- A poll of the main loop tests every task once, at the time at which its
handler reads `LocalTime`. -/
theorem polled_systemPeriodicHandle {task : PeriodicTask} {displayTime lwipTime now : ℕ}
    (hnow : task.pollTime (.poll displayTime lwipTime) = some now) (b : Board) :
    Polled task (clock32.reading now) b.clearLog (systemPeriodicHandle displayTime lwipTime b) := by
  rw [systemPeriodicHandle]
  by_cases h : task = .displayRefresh
  · subst h
    obtain rfl : displayTime = now := Option.some.inj hnow
    exact ((polled_poll _ _ _).untouched (untouched_displayPeriodicHandle _ _ _)).untouched
      (untouched_lwipPeriodicHandle _ _)
  · obtain rfl : lwipTime = now := by
      cases task <;> first | exact Option.some.inj hnow | exact absurd rfl h
    exact ((untouched_poll h _ _).trans (untouched_displayPeriodicHandle task _ _)).polled
      (polled_lwipPeriodicHandle h _ _)

/-- How often each poll called the task. -/
def NetSystem.calls (task : PeriodicTask) (s : NetSystem) : List ℕ :=
  s.turns.map fun turn => turn.count task.action

/-- Between two polls DHCP leaves the timers alone. -/
theorem netStep_dhcp {s t : NetSystem} {e : NetEvent} {task : PeriodicTask}
    (he : task.pollTime e = none) (hstep : netStep s e = some t) :
    t.board.vars = s.board.vars ∧ t.turns = s.turns := by
  cases e with
  | poll displayTime lwipTime => cases task <;> simp [PeriodicTask.pollTime] at he
  | dhcp ipAddr netmask gw tries =>
    rw [netStep] at hstep
    split at hstep
    · simp only [Option.some.injEq] at hstep
      rw [← hstep]
      exact ⟨rfl, rfl⟩
    · simp at hstep

/-- A poll adds one entry to the calls of a task and moves its timer as a timer
of its own would move. -/
theorem netStep_poll {s t : NetSystem} {e : NetEvent} {task : PeriodicTask} {now : ℕ}
    (he : task.pollTime e = some now) (hstep : netStep s e = some t) :
    task.timer t.board.vars =
        clock32.stamp task.interval (task.timer s.board.vars) (clock32.reading now) ∧
      t.calls task = s.calls task ++
        [(decide (task.interval ≤
          clock32.since (clock32.reading now) (task.timer s.board.vars))).toNat] := by
  cases e with
  | poll displayTime lwipTime =>
    obtain ⟨htimer, hcount⟩ := polled_systemPeriodicHandle he s.board
    simp only [netStep, Option.some.injEq] at hstep
    subst hstep
    refine ⟨htimer, ?_⟩
    simp only [NetSystem.calls, List.map_append, List.map_cons, List.map_nil]
    rw [hcount, Board.clearLog, List.count_nil, Nat.zero_add]
  | dhcp ipAddr netmask gw tries => cases task <;> simp [PeriodicTask.pollTime] at he

/-- Over a run a task is called as a timer of its own on the wrapping counter,
tested at the same times, fires. -/
theorem run_calls {s t : NetSystem} {es : List NetEvent} (task : PeriodicTask)
    (hrun : Run.run netStep s es = some t) :
    t.calls task = s.calls task ++
      (clock32.firings task.interval (task.timer s.board.vars)
        ((es.filterMap task.pollTime).map clock32.reading)).map Bool.toNat := by
  induction es generalizing s with
  | nil =>
    simp only [Run.run_nil, Option.some.injEq] at hrun
    simp [hrun]
  | cons e es ih =>
    rw [Run.run_cons, Option.bind_eq_some_iff] at hrun
    obtain ⟨u, hu, hrun⟩ := hrun
    rw [ih hrun]
    cases he : task.pollTime e with
    | none =>
      obtain ⟨hvars, hturns⟩ := netStep_dhcp he hu
      rw [List.filterMap_cons_none he, hvars, NetSystem.calls, hturns, NetSystem.calls]
    | some now =>
      obtain ⟨htimer, hcalls⟩ := netStep_poll he hu
      rw [List.filterMap_cons_some he, htimer, hcalls, List.map_cons]
      simp only [Clock.WrappingClock.firings, List.map_cons, List.append_assoc, List.cons_append,
        List.nil_append]

/-- `LocalTime` is the reading of the true time: ten milliseconds a tick. -/
theorem timeUpdate_iterate (ticks : ℕ) :
    timeUpdate^[ticks] 0 = clock32.reading (10 * ticks) := by
  induction ticks with
  | zero => rfl
  | succ ticks ih =>
    rw [Function.iterate_succ_apply', ih, timeUpdate]
    show UInt32.ofNat (10 * ticks) + UInt32.ofNat 10 = UInt32.ofNat (10 * (ticks + 1))
    rw [← UInt32.ofNat_add, Nat.mul_succ]

/-- The gap between two polls that no timer of the board can be confused by. -/
def maxPollGap : ℕ := 2 ^ 32 - 60000

/-- The polls of both handlers come in order with gaps of at most `maxPollGap`,
the first before `LocalTime` wraps. -/
def PollsWithin (es : List NetEvent) : Prop :=
  ∀ task : PeriodicTask, GapsWithin maxPollGap (es.filterMap task.pollTime) ∧
    ∀ now ∈ (es.filterMap task.pollTime).head?, now < 2 ^ 32

/-- From start-up on, every task is called at the polls at which a timer fires
that keeps true times, and what the other timers hold changes nothing. -/
theorem periodic_timers_wrap_proof (task : PeriodicTask) :
    (∀ (b : Board) (es : List NetEvent) (s : NetSystem), b.vars = NetconfVars.init →
      PollsWithin es → Run.run netStep ⟨b, []⟩ es = some s →
      s.calls task =
        (firings task.interval 0 (es.filterMap task.pollTime)).map Bool.toNat) ∧
    ∀ (b c : Board) (es fs : List NetEvent) (s t : NetSystem),
      task.timer b.vars = task.timer c.vars →
      es.filterMap task.pollTime = fs.filterMap task.pollTime →
      Run.run netStep ⟨b, []⟩ es = some s → Run.run netStep ⟨c, []⟩ fs = some t →
      s.calls task = t.calls task := by
  refine ⟨fun b es s hinit hpolls hrun => ?_, fun b c es fs s t htimer htimes hs ht => ?_⟩
  · have hzero : task.timer b.vars = clock32.reading 0 := by
      rw [hinit]
      cases task <;> rfl
    have hgap : task.interval + maxPollGap ≤ clock32.period := by
      have hle := task.interval_le
      show task.interval + (2 ^ 32 - 60000) ≤ 2 ^ 32
      omega
    have hfirst : ∀ now ∈ (es.filterMap task.pollTime).head?, 0 ≤ now ∧ now - 0 < clock32.period :=
      fun now hnow => ⟨Nat.zero_le now, (hpolls task).2 now hnow⟩
    rw [run_calls task hrun, hzero,
      clock32.firings_eq task.interval_pos hgap hfirst (hpolls task).1]
    rfl
  · rw [run_calls task hs, run_calls task ht, htimer, htimes]
    rfl

/-- The wrap falls between the second and the third poll, 59800 ms apart. -/
theorem periodic_timers_wrap_proof_three_polls :
    ∃ s, Run.run netStep ⟨Board.afterInit (some ⟨1⟩) 0, []⟩
        [.poll 300 300, .poll 4294907596 4294907596, .poll 4294967396 4294967396] = some s ∧
      s.calls .dhcpCoarseTmr = [0, 1, 0] := by
  have hpolls : PollsWithin
      [.poll 300 300, .poll 4294907596 4294907596, .poll 4294967396 4294967396] := by
    intro task
    cases task <;> decide +kernel
  refine ⟨_, rfl, ?_⟩
  rw [(periodic_timers_wrap_proof .dhcpCoarseTmr).1 (Board.afterInit (some ⟨1⟩) 0) _ _ rfl
    hpolls rfl]
  decide +kernel

end EthMange.Netconf
