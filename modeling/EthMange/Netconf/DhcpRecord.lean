import EthMange.Lwip.Pbuf
import EthMange.Netconf.Timers

/-!
# The DHCP record is read when it is there

A poll that waits for an address reads `tries` through `netif.dhcp`. The record
is there as long as DHCP runs, and the fallback that takes it away sets an
address. If `dhcp_start` fails there is neither a record nor an address, and the
first poll that is due reads through `NULL`.
-/

namespace EthMange.Netconf

/-! ### Starting DHCP -/

/-- `DHCP_MAX_MSG_LEN_MIN_REQUIRED` -/
def dhcpMaxMsgLenMinRequired : UInt16 := 576

/-- What a call of `dhcp_start` meets: the MTU of the interface, and whether it
gets its record, a control block and the pbuf of the first discover. -/
structure DhcpStartEnv where
  mtu : UInt16
  recordFree : Bool
  pcbFree : Bool
  requestFree : Bool
  deriving DecidableEq

/-- `dhcp_discover` with its result and its record, which counts the first try of
a state. What the sending returns is not looked at. -/
def dhcpDiscover (requestFree : Bool) : Err × Dhcp := (if requestFree then .ok else .mem, ⟨1⟩)

def dhcpStart (env : DhcpStartEnv) (b : Board) : Err × Board :=
  let b := { b with netif := { b.netif with flagDhcp := false } }
  if env.mtu < dhcpMaxMsgLenMinRequired then (.mem, b)
  else
    let attached :=
      match b.netif.dhcp with
      -- the record is used again, its control block is not
      | some _ => some { b with udp := b.udp.udpRemove .dhcp }
      | none => if env.recordFree then some b else none
    match attached with
    | none => (.mem, b)
    | some b =>
      match if env.pcbFree then b.udp.udpNew .dhcp else none with
      | none => (.mem, { b with netif := { b.netif with dhcp := none } })
      | some udp =>
        let (result, record) := dhcpDiscover env.requestFree
        let b := { b with udp, netif := { b.netif with dhcp := some record } }
        if result = .ok then (.ok, { b with netif := { b.netif with flagDhcp := true } })
        else (.mem, dhcpStop b)

/-- The board when `LwIP_Init` has added the interface. -/
def Board.afterNetifAdd (nullTries : UInt8) : Board where
  vars := .init
  netif := { ipAddr := 0, netmask := 0, gw := 0, flagDhcp := false, dhcp := none }
  udp := .empty
  nullTries
  log := []

/-- The board after `LwIP_Init`, which does not look at what `dhcp_start` returns. -/
def lwipInit (env : DhcpStartEnv) (nullTries : UInt8) : Board :=
  (dhcpStart env (.afterNetifAdd nullTries)).2.clearLog

/-- `dhcp_start` gets all it needs. -/
structure DhcpStartEnv.Suffices (env : DhcpStartEnv) : Prop where
  mtu : ¬ env.mtu < dhcpMaxMsgLenMinRequired
  recordFree : env.recordFree = true
  pcbFree : env.pcbFree = true
  requestFree : env.requestFree = true

instance (env : DhcpStartEnv) : Decidable env.Suffices :=
  decidable_of_iff (¬ env.mtu < dhcpMaxMsgLenMinRequired ∧ env.recordFree = true ∧
    env.pcbFree = true ∧ env.requestFree = true)
    ⟨fun h => ⟨h.1, h.2.1, h.2.2.1, h.2.2.2⟩,
      fun h => ⟨h.mtu, h.recordFree, h.pcbFree, h.requestFree⟩⟩

/-- `dhcp_start` leaves a record, or it fails without a trace. -/
theorem dhcpStart_spec (env : DhcpStartEnv) (nullTries : UInt8) :
    env.Suffices ∧ (dhcpStart env (.afterNetifAdd nullTries)).1 = .ok ∧
        lwipInit env nullTries = .afterInit (some ⟨1⟩) nullTries ∨
      ¬ env.Suffices ∧ (dhcpStart env (.afterNetifAdd nullTries)).1 = .mem ∧
        lwipInit env nullTries = .afterInit none nullTries := by
  by_cases hmtu : env.mtu < dhcpMaxMsgLenMinRequired
  · simp only [lwipInit, dhcpStart, Board.afterNetifAdd, hmtu, if_true]
    exact .inr ⟨fun h => h.mtu hmtu, trivial, rfl⟩
  cases hrecord : env.recordFree with
  | false =>
    simp only [lwipInit, dhcpStart, Board.afterNetifAdd, hmtu, hrecord, if_false]
    exact .inr ⟨fun h => by simp [h.recordFree] at hrecord, rfl, rfl⟩
  | true =>
    cases hpcb : env.pcbFree with
    | false =>
      simp only [lwipInit, dhcpStart, Board.afterNetifAdd, hmtu, hrecord, hpcb, if_true, if_false]
      exact .inr ⟨fun h => by simp [h.pcbFree] at hpcb, rfl, rfl⟩
    | true =>
      cases hrequest : env.requestFree with
      | false =>
        simp only [lwipInit, dhcpStart, Board.afterNetifAdd, hmtu, hrecord, hpcb, hrequest,
          if_true, if_false]
        exact .inr ⟨fun h => by simp [h.requestFree] at hrequest, rfl, rfl⟩
      | true =>
        simp only [lwipInit, dhcpStart, Board.afterNetifAdd, hmtu, hrecord, hpcb, hrequest,
          if_true, if_false]
        exact .inl ⟨⟨hmtu, hrecord, hpcb, hrequest⟩, rfl, rfl⟩

/-! ### Reading the record -/

/-- No poll has read `tries` through a `NULL` pointer. -/
def RecordRead (s : NetSystem) : Prop := ∀ turn ∈ s.turns, .readTries false ∉ turn

instance (s : NetSystem) : Decidable (RecordRead s) :=
  inferInstanceAs (Decidable (∀ turn ∈ s.turns, .readTries false ∉ turn))

/-- A poll that would be the first refresh of the display. -/
def FirstDue : NetEvent → Prop
  | .poll displayTime _ => UInt32.ofNat displayTime ≥ lcdTimerMsecs
  | .dhcp .. => False

instance : (e : NetEvent) → Decidable (FirstDue e)
  | .poll displayTime _ => inferInstanceAs (Decidable (UInt32.ofNat displayTime ≥ lcdTimerMsecs))
  | .dhcp .. => .isFalse id

/-- What the handler of the stack leaves alone. -/
structure LwipFrame (b b' : Board) : Prop where
  netif : b'.netif = b.netif
  ipAddress : b'.vars.ipAddress = b.vars.ipAddress
  displayTimer : b'.vars.displayTimer = b.vars.displayTimer
  read : .readTries false ∈ b'.log ↔ .readTries false ∈ b.log

theorem LwipFrame.trans {a b c : Board} (h : LwipFrame a b) (h' : LwipFrame b c) :
    LwipFrame a c :=
  ⟨h'.netif.trans h.netif, h'.ipAddress.trans h.ipAddress, h'.displayTimer.trans h.displayTimer,
    h'.read.trans h.read⟩

theorem lwipFrame_poll {task : PeriodicTask} (htask : task ≠ .displayRefresh) (localtime : UInt32)
    (b : Board) : LwipFrame b (task.poll localtime b) := by
  rw [PeriodicTask.poll]
  split_ifs
  · have hread : .readTries false ∈ b.log ++ [task.action] ↔ .readTries false ∈ b.log := by
      cases task <;> simp [PeriodicTask.action]
    refine ⟨rfl, ?_, ?_, hread⟩
    · cases task <;> rfl
    · cases task <;> first | rfl | exact absurd rfl htask
  · exact ⟨rfl, rfl, rfl, Iff.rfl⟩

theorem lwipFrame_lwipPeriodicHandle (localtime : UInt32) (b : Board) :
    LwipFrame b (lwipPeriodicHandle localtime b) := by
  rw [lwipPeriodicHandle_eq]
  exact (lwipFrame_poll (by simp) localtime b).trans ((lwipFrame_poll (by simp) localtime _).trans
    ((lwipFrame_poll (by simp) localtime _).trans (lwipFrame_poll (by simp) localtime _)))

/-- Without a record there is an address, and the turn so far has not read through
a `NULL` pointer. -/
structure Recorded (b : Board) : Prop where
  address : b.netif.dhcp = none → b.netif.ipAddr ≠ 0
  read : .readTries false ∉ b.log

section Recorded

variable {b : Board}

theorem Recorded.act (h : Recorded b) {act : NetAction} (hact : act ≠ .readTries false) :
    Recorded (b.act act) := by
  refine ⟨h.address, ?_⟩
  rw [Board.act, List.mem_append, List.mem_singleton, not_or]
  exact ⟨h.read, hact.symm⟩

/-- The address, the record and the log are all that counts. -/
theorem Recorded.of_eq {b' : Board} (h : Recorded b) (hnetif : b'.netif = b.netif)
    (hlog : b'.log = b.log) : Recorded b' :=
  ⟨hnetif ▸ h.address, hlog ▸ h.read⟩

theorem Recorded.lwipPeriodicHandle (localtime : UInt32) (h : Recorded b) :
    Recorded (lwipPeriodicHandle localtime b) := by
  have hframe := lwipFrame_lwipPeriodicHandle localtime b
  exact ⟨hframe.netif ▸ h.address, fun hread => h.read (hframe.read.mp hread)⟩

theorem recorded_startApp (user : UdpUser) {init : NetAction} (hinit : init ≠ .readTries false)
    (h : Recorded b) : Recorded (startApp user init b) := by
  rw [startApp]
  split
  · exact (h.act hinit).of_eq rfl rfl
  · exact (h.act hinit).act (by simp)

theorem recorded_showAddress (h : Recorded b) : Recorded (showAddress b) := by
  have hcached : Recorded { b with vars := { b.vars with ipAddress := b.netif.ipAddr } } :=
    h.of_eq rfl rfl
  have hinit : NetAction.serverInit b.netif.ipAddr ≠ .readTries false := by simp
  have hserver := recorded_startApp .server hinit hcached
  exact (recorded_startApp .client (by simp) hserver).of_eq rfl rfl

/-- The fallback leaves an address behind. -/
theorem recorded_waitForDhcp (h : Recorded b) (hdhcp : b.netif.dhcp ≠ none) :
    Recorded (waitForDhcp b) := by
  have hsome : b.netif.dhcp.isSome = true := Option.isSome_iff_ne_none.mpr hdhcp
  have hled : Recorded { b.act (.ledToggle (b.vars.ledToggle &&& 3)) with
      vars := { b.vars with ledToggle := (b.vars.ledToggle &&& 3) + 1 } } :=
    (h.act (by simp)).of_eq rfl rfl
  have htries : NetAction.readTries b.netif.dhcp.isSome ≠ .readTries false := by simp [hsome]
  have hread := hled.act htries
  rw [waitForDhcp]
  dsimp only
  split_ifs
  · have hstop : Recorded (Board.act _ .dhcpStop) := hread.act (by simp)
    have hset : Recorded (Board.act _ (.netifSetAddr (ip4Addr 192 168 1 6)
        (ip4Addr 255 255 255 0) (ip4Addr 192 168 1 1))) := hstop.act (by simp)
    have haddress : ip4Addr 192 168 1 6 ≠ 0 := by decide
    refine ⟨fun _ => haddress, ?_⟩
    rw [dhcpStop]
    split <;> exact hset.read
  · exact hread

theorem recorded_displayPeriodicHandle (localtime : UInt32) (h : Recorded b) :
    Recorded (displayPeriodicHandle localtime b) := by
  rw [displayPeriodicHandle]
  split_ifs
  · have hdue : Recorded { b.act .displayRefresh with
        vars := { b.vars with displayTimer := localtime } } := (h.act (by simp)).of_eq rfl rfl
    rw [refreshDisplay]
    split_ifs with hnew hzero
    · exact recorded_showAddress hdue
    · refine recorded_waitForDhcp hdue fun hnone => ?_
      exact h.address hnone ((not_not.mp hnew).symm.trans hzero)
    · exact hdue
  · exact h

end Recorded

/-- The invariant of a run that begins with a record. -/
structure RecordInv (s : NetSystem) : Prop where
  read : RecordRead s
  address : s.board.netif.dhcp = none → s.board.netif.ipAddr ≠ 0

theorem recordInv_step {s t : NetSystem} {e : NetEvent} (h : RecordInv s)
    (hstep : netStep s e = some t) : RecordInv t := by
  cases e with
  | poll displayTime lwipTime =>
    obtain rfl := Option.some.inj hstep
    have hclear : Recorded s.board.clearLog := ⟨h.address, List.not_mem_nil⟩
    have hturn : Recorded (systemPeriodicHandle displayTime lwipTime s.board) :=
      (recorded_displayPeriodicHandle _ hclear).lwipPeriodicHandle _
    refine ⟨fun turn hturn' => ?_, hturn.address⟩
    obtain hold | hnow := List.mem_append.mp hturn'
    · exact h.read turn hold
    · obtain rfl := List.mem_singleton.mp hnow
      exact hturn.read
  | dhcp ipAddr netmask gw tries =>
    rw [netStep] at hstep
    split at hstep
    · obtain rfl := Option.some.inj hstep
      exact ⟨h.read, fun hnone => absurd hnone (by simp)⟩
    · simp at hstep

/-- Nothing was refreshed yet, and there is neither a record nor an address. -/
structure Waiting (s : NetSystem) : Prop where
  read : RecordRead s
  dhcp : s.board.netif.dhcp = none
  ipAddr : s.board.netif.ipAddr = 0
  ipAddress : s.board.vars.ipAddress = 0
  displayTimer : s.board.vars.displayTimer = 0

section Waiting

variable {s t : NetSystem} {e : NetEvent}

theorem mem_act {b : Board} {act other : NetAction} (h : act ∈ b.log) :
    act ∈ (b.act other).log :=
  List.mem_append_left _ h

theorem refreshDisplay_of_zero {b : Board} (hsame : b.vars.ipAddress = b.netif.ipAddr)
    (hzero : b.vars.ipAddress = 0) : refreshDisplay b = waitForDhcp b := by
  rw [refreshDisplay, if_neg (not_not.mpr hsame), if_pos hzero]

/-- Without a record the wait for DHCP reads through `NULL`. -/
theorem readTries_waitForDhcp {b : Board} (h : b.netif.dhcp = none) :
    .readTries false ∈ (waitForDhcp b).log := by
  have hread (c : Board) : .readTries false ∈ (c.act (.readTries b.netif.dhcp.isSome)).log := by
    rw [h]
    exact List.mem_append_right _ (List.mem_singleton_self _)
  rw [waitForDhcp]
  dsimp only
  split_ifs
  · rw [netifSetAddr, dhcpStop]
    split <;> exact mem_act (mem_act (hread _))
  · exact hread _

theorem Waiting.displayPeriodicHandle_due {displayTime : ℕ} (h : Waiting s)
    (hdue : UInt32.ofNat displayTime ≥ lcdTimerMsecs) :
    .readTries false ∈
      (displayPeriodicHandle (UInt32.ofNat displayTime) s.board.clearLog).log := by
  have htimer : UInt32.ofNat displayTime - s.board.vars.displayTimer ≥ lcdTimerMsecs := by
    rwa [h.displayTimer, UInt32.sub_zero]
  have hturn : displayPeriodicHandle (UInt32.ofNat displayTime) s.board.clearLog =
      waitForDhcp _ :=
    (if_pos htimer).trans
      (refreshDisplay_of_zero (h.ipAddress.trans h.ipAddr.symm) h.ipAddress)
  rw [hturn]
  exact readTries_waitForDhcp h.dhcp

theorem turns_subset (hstep : netStep s e = some t) : s.turns ⊆ t.turns := by
  cases e with
  | poll displayTime lwipTime =>
    obtain rfl := Option.some.inj hstep
    exact List.subset_append_left _ _
  | dhcp ipAddr netmask gw tries =>
    rw [netStep] at hstep
    split at hstep
    · obtain rfl := Option.some.inj hstep
      exact fun _ h => h
    · simp at hstep

theorem Waiting.step (h : Waiting s) (hdue : ¬ FirstDue e) (hstep : netStep s e = some t) :
    Waiting t := by
  cases e with
  | poll displayTime lwipTime =>
    obtain rfl := Option.some.inj hstep
    have htimer : ¬ UInt32.ofNat displayTime - s.board.vars.displayTimer ≥ lcdTimerMsecs := by
      rwa [h.displayTimer, UInt32.sub_zero]
    have hframe := lwipFrame_lwipPeriodicHandle (UInt32.ofNat lwipTime) s.board.clearLog
    have hturn : systemPeriodicHandle displayTime lwipTime s.board =
        lwipPeriodicHandle (UInt32.ofNat lwipTime) s.board.clearLog := by
      rw [systemPeriodicHandle, displayPeriodicHandle, Board.clearLog, if_neg htimer]
    rw [hturn]
    refine ⟨fun turn hmem => ?_, ?_, ?_, ?_, ?_⟩
    · obtain hold | hnow := List.mem_append.mp hmem
      · exact h.read turn hold
      · obtain rfl := List.mem_singleton.mp hnow
        exact fun hread => List.not_mem_nil (hframe.read.mp hread)
    · exact (congrArg Netif.dhcp hframe.netif).trans h.dhcp
    · exact (congrArg Netif.ipAddr hframe.netif).trans h.ipAddr
    · exact hframe.ipAddress.trans h.ipAddress
    · exact hframe.displayTimer.trans h.displayTimer
  | dhcp ipAddr netmask gw tries =>
    rw [netStep, h.dhcp] at hstep
    exact absurd hstep (by simp)

theorem Waiting.not_recordRead (h : Waiting s) (hdue : FirstDue e) (hstep : netStep s e = some t) :
    ¬ RecordRead t := by
  cases e with
  | poll displayTime lwipTime =>
    obtain rfl := Option.some.inj hstep
    intro hread
    have hframe := lwipFrame_lwipPeriodicHandle (UInt32.ofNat lwipTime)
      (displayPeriodicHandle (UInt32.ofNat displayTime) s.board.clearLog)
    exact hread _ (List.mem_append_right _ (List.mem_singleton_self _))
      (hframe.read.mpr (h.displayPeriodicHandle_due hdue))
  | dhcp ipAddr netmask gw tries => exact absurd hdue id

end Waiting

/-- The record is there whenever it is read if and only if `dhcp_start` got all it
needed or no poll of the run refreshes the display. -/
theorem dhcp_record_read_iff (env : DhcpStartEnv) (nullTries : UInt8) (es : List NetEvent)
    (s : NetSystem) (hrun : Run.run netStep ⟨lwipInit env nullTries, []⟩ es = some s) :
    RecordRead s ↔ env.Suffices ∨ ∀ e ∈ es, ¬ FirstDue e := by
  obtain ⟨hsuffices, -, hinit⟩ | ⟨hfail, -, hinit⟩ := dhcpStart_spec env nullTries
  · have hinv : RecordInv ⟨lwipInit env nullTries, []⟩ := by
      rw [hinit]
      exact ⟨by simp [RecordRead], fun hnone => absurd hnone (by simp [Board.afterInit])⟩
    refine iff_of_true ?_ (.inl hsuffices)
    exact (Run.run_invariant (fun _ _ _ h hstep => recordInv_step h hstep) hinv hrun).read
  · have hwait : Waiting ⟨lwipInit env nullTries, []⟩ := by
      rw [hinit]
      exact ⟨by simp [RecordRead], rfl, rfl, rfl, rfl⟩
    obtain ⟨hnone, h⟩ | ⟨hdue, h⟩ := Run.invariant_or_lost (G := fun _ e => ¬ FirstDue e)
      (L := fun s => ¬ RecordRead s) (fun _ _ _ h hg hstep => h.step hg hstep)
      (fun _ _ _ h hg hstep => h.not_recordRead (not_not.mp hg) hstep)
      (fun _ _ _ h hstep hread => h fun turn hturn => hread turn (turns_subset hstep hturn))
      hwait hrun
    · exact iff_of_true h.read (.inr (hnone.forall_mem hrun))
    · refine iff_of_false h (not_or.mpr ⟨hfail, fun hall => hdue ?_⟩)
      exact Run.Along.of_forall _ hall

/-- Three due polls of a board on which DHCP has started: the address comes after
the first. -/
def leaseAfterPoll : List NetEvent :=
  [.poll 250 250, .dhcp 0x6501A8C0 0xFFFFFF 0x101A8C0 1, .poll 500 500, .poll 750 750]

theorem dhcp_record_read_lease :
    ∃ s, Run.run netStep ⟨lwipInit ⟨1500, true, true, true⟩ 0, []⟩ leaseAfterPoll = some s ∧
      s.turns.map (fun turn => turn.count (.readTries true)) = [1, 0, 0] ∧ RecordRead s :=
  ⟨_, rfl, by decide,
    (dhcp_record_read_iff ⟨1500, true, true, true⟩ 0 leaseAfterPoll _ rfl).mpr (.inl (by decide))⟩

/-- There was no memory for the record: the first refresh reads through `NULL`. -/
theorem dhcp_record_missing :
    ∃ s, Run.run netStep ⟨lwipInit ⟨1500, false, true, true⟩ 0, []⟩ [.poll 250 250] = some s ∧
      s.board.netif.dhcp.isNone ∧ ¬ RecordRead s :=
  ⟨_, rfl, by decide, by decide⟩

end EthMange.Netconf
