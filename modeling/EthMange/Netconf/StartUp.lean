import EthMange.Netconf.Timers

/-!
# The applications are started on every change of the address

A due poll that finds another address than the cached one runs `server_init` and
`client_init`, which take one control block each and never give it back. This
goes well for the first address only.
-/

namespace EthMange.Netconf

open Lwip (UdpPool mempNumUdpPcb)

/-- The actions of starting an application. -/
def NetAction.isStart : NetAction → Bool
  | .serverInit _ | .clientInit _ | .nullPcb => true
  | _ => false

/-- The applications were started on an address only, hold one control block
each, and never got `NULL` for one. -/
structure StartUpSafe (s : NetSystem) : Prop where
  on_address : ∀ turn ∈ s.turns, .serverInit 0 ∉ turn ∧ .clientInit 0 ∉ turn
  one_server : s.board.udp.users.count .server ≤ 1
  one_client : s.board.udp.users.count .client ≤ 1
  no_null : ∀ turn ∈ s.turns, .nullPcb ∉ turn

/-- The poll refreshes the display and finds another address than the cached one. -/
def SeesNewAddress (s : NetSystem) : NetEvent → Prop
  | .poll displayTime _ =>
    UInt32.ofNat displayTime - s.board.vars.displayTimer ≥ lcdTimerMsecs ∧
      s.board.vars.ipAddress ≠ s.board.netif.ipAddr
  | .dhcp .. => False

instance (s : NetSystem) : (e : NetEvent) → Decidable (SeesNewAddress s e)
  | .poll .. => inferInstanceAs (Decidable (_ ∧ _))
  | .dhcp .. => .isFalse id

/-- No address has been seen before. -/
def FirstAddress (s : NetSystem) (e : NetEvent) : Prop :=
  SeesNewAddress s e → s.board.vars.ipAddress = 0

instance (s : NetSystem) (e : NetEvent) : Decidable (FirstAddress s e) :=
  inferInstanceAs (Decidable (_ → _))

section Start

/-- The pool after `server_init` and `client_init`. -/
def startPcbs (pool : UdpPool UdpUser) : UdpPool UdpUser :=
  let pool := (pool.udpNew .server).getD pool
  (pool.udpNew .client).getD pool

/-- What `server_init` and `client_init` do. -/
def startLog (ipAddr : UInt32) (pool : UdpPool UdpUser) : List NetAction :=
  let null (user : UdpUser) (pool : UdpPool UdpUser) : List NetAction :=
    if (pool.udpNew user).isNone then [.nullPcb] else []
  .serverInit ipAddr :: null .server pool ++
    .clientInit ipAddr :: null .client ((pool.udpNew .server).getD pool)

theorem startApp_eq (user : UdpUser) (init : NetAction) (b : Board) :
    startApp user init b =
      { b with
        udp := (b.udp.udpNew user).getD b.udp
        log := b.log ++ init :: if (b.udp.udpNew user).isNone then [.nullPcb] else [] } := by
  rw [startApp]
  cases b.udp.udpNew user <;> simp [Board.act]

theorem showAddress_eq (b : Board) :
    showAddress b =
      { b with
        vars := { b.vars with ipAddress := b.netif.ipAddr }
        udp := startPcbs b.udp
        log := b.log ++ startLog b.netif.ipAddr b.udp } := by
  simp [showAddress, serverInit, clientInit, startApp_eq, startPcbs, startLog]

end Start

/-- Between the two boards no application was started, and the cached address
and the control blocks of the applications are the same. -/
structure SameApps (b b' : Board) : Prop where
  log : b'.log.filter NetAction.isStart = b.log.filter NetAction.isStart
  cached : b'.vars.ipAddress = b.vars.ipAddress
  users : ∀ user ≠ .dhcp, b'.udp.users.count user = b.udp.users.count user
  short : b'.udp.users.length ≤ b.udp.users.length

section SameApps

variable {b c d : Board}

theorem SameApps.refl (b : Board) : SameApps b b := ⟨rfl, rfl, fun _ _ => rfl, le_rfl⟩

theorem SameApps.trans (h : SameApps b c) (h' : SameApps c d) : SameApps b d :=
  ⟨h'.log.trans h.log, h'.cached.trans h.cached,
    fun user hne => (h'.users user hne).trans (h.users user hne), h'.short.trans h.short⟩

theorem sameApps_act (act : NetAction) (h : act.isStart = false) (b : Board) :
    SameApps b (b.act act) :=
  ⟨by simp [Board.act, h], rfl, fun _ _ => rfl, le_rfl⟩

theorem sameApps_poll (task : PeriodicTask) (localtime : UInt32) (b : Board) :
    SameApps b (task.poll localtime b) := by
  rw [PeriodicTask.poll]
  split_ifs
  · have hact : task.action.isStart = false := by cases task <;> rfl
    have hcached : (task.setTimer localtime b.vars).ipAddress = b.vars.ipAddress := by
      cases task <;> rfl
    exact ⟨(sameApps_act task.action hact b).log, hcached, fun _ _ => rfl, le_rfl⟩
  · exact SameApps.refl b

theorem sameApps_dhcpStop (b : Board) : SameApps b (dhcpStop b) := by
  have hact := sameApps_act .dhcpStop rfl b
  rw [dhcpStop]
  split
  · refine ⟨hact.log, rfl, fun user hne => ?_, List.length_erase_le⟩
    simp only [Lwip.UdpPool.udpRemove_users]
    exact List.count_erase_of_ne hne
  · exact ⟨hact.log, rfl, fun _ _ => rfl, le_rfl⟩

theorem sameApps_waitForDhcp (b : Board) : SameApps b (waitForDhcp b) := by
  have hled : SameApps b { b.act (.ledToggle (b.vars.ledToggle &&& 3)) with
      vars := { b.vars with ledToggle := (b.vars.ledToggle &&& 3) + 1 } } :=
    ⟨(sameApps_act _ rfl b).log, rfl, fun _ _ => rfl, le_rfl⟩
  rw [waitForDhcp]
  refine hled.trans ((sameApps_act (.readTries b.netif.dhcp.isSome) rfl _).trans ?_)
  dsimp only
  split_ifs
  · apply (sameApps_dhcpStop _).trans
    exact ⟨(sameApps_act _ rfl _).log, rfl, fun _ _ => rfl, le_rfl⟩
  · exact SameApps.refl _

theorem refreshDisplay_of_new (h : b.vars.ipAddress ≠ b.netif.ipAddr) :
    refreshDisplay b = showAddress b := if_pos h

theorem sameApps_refreshDisplay (h : b.vars.ipAddress = b.netif.ipAddr) :
    SameApps b (refreshDisplay b) := by
  rw [refreshDisplay, if_neg (not_not.mpr h)]
  split_ifs
  · exact sameApps_waitForDhcp b
  · exact SameApps.refl b

theorem sameApps_lwipPeriodicHandle (localtime : UInt32) (b : Board) :
    SameApps b (lwipPeriodicHandle localtime b) := by
  rw [lwipPeriodicHandle_eq]
  exact (sameApps_poll _ _ _).trans ((sameApps_poll _ _ _).trans
    ((sameApps_poll _ _ _).trans (sameApps_poll _ _ _)))

end SameApps

/-- What a poll without a new address does. -/
theorem sameApps_poll_of_not_new {s : NetSystem} {displayTime lwipTime : ℕ}
    (h : ¬ SeesNewAddress s (.poll displayTime lwipTime)) :
    SameApps s.board.clearLog (systemPeriodicHandle displayTime lwipTime s.board) := by
  refine SameApps.trans ?_ (sameApps_lwipPeriodicHandle _ _)
  rw [displayPeriodicHandle]
  split_ifs with hdue
  · have hsame : s.board.vars.ipAddress = s.board.netif.ipAddr := by
      by_contra hne
      exact h ⟨hdue, hne⟩
    have hact := sameApps_act .displayRefresh rfl s.board.clearLog
    refine SameApps.trans ?_ (sameApps_refreshDisplay hsame)
    exact ⟨hact.log, rfl, fun _ _ => rfl, le_rfl⟩
  · exact SameApps.refl _

/-- What a poll with a new address does. -/
theorem sameApps_poll_of_new {s : NetSystem} {displayTime lwipTime : ℕ}
    (h : SeesNewAddress s (.poll displayTime lwipTime)) :
    SameApps (showAddress s.board.clearLog)
      (systemPeriodicHandle displayTime lwipTime s.board) := by
  obtain ⟨hdue, hne⟩ := h
  refine SameApps.trans ?_ (sameApps_lwipPeriodicHandle _ _)
  have hdisplay : displayPeriodicHandle (UInt32.ofNat displayTime) s.board.clearLog =
      showAddress _ := (if_pos hdue).trans (refreshDisplay_of_new hne)
  rw [hdisplay, showAddress_eq, showAddress_eq]
  exact ⟨rfl, rfl, fun _ _ => rfl, le_rfl⟩

section Pool

variable {pool : UdpPool UdpUser}

theorem udpNew_of_room (user : UdpUser) (h : pool.users.length < mempNumUdpPcb) :
    ∃ pool', pool.udpNew user = some pool' ∧ pool'.users = user :: pool.users :=
  ⟨_, dif_pos h, rfl⟩

theorem startPcbs_of_room (h : pool.users.length + 1 < mempNumUdpPcb) (ipAddr : UInt32) :
    (startPcbs pool).users = .client :: .server :: pool.users ∧
      startLog ipAddr pool = [.serverInit ipAddr, .clientInit ipAddr] := by
  obtain ⟨one, hone, hserver⟩ := udpNew_of_room .server (Nat.lt_of_succ_lt h)
  have hroom : one.users.length < mempNumUdpPcb := by simpa [hserver]
  obtain ⟨two, htwo, hclient⟩ := udpNew_of_room .client hroom
  simp [startPcbs, startLog, hone, htwo, hclient, hserver]

theorem udpNew_getD_count (user other : UdpUser) :
    pool.users.count other ≤ ((pool.udpNew user).getD pool).users.count other := by
  cases h : pool.udpNew user with
  | none => exact le_rfl
  | some pool' =>
    rw [Option.getD_some, Lwip.UdpPool.udpNew_eq_some h]
    exact List.count_le_count_cons

theorem startPcbs_count (user : UdpUser) :
    pool.users.count user ≤ (startPcbs pool).users.count user :=
  (udpNew_getD_count .server user).trans (udpNew_getD_count .client user)

/-- A second start takes a second control block or finds none. -/
theorem startPcbs_again (pool : UdpPool UdpUser) (ipAddr : UInt32) :
    pool.users.count .server + 1 ≤ (startPcbs pool).users.count .server ∨
      .nullPcb ∈ startLog ipAddr pool := by
  cases h : pool.udpNew .server with
  | none => simp [startLog, h]
  | some one =>
    have hone := Lwip.UdpPool.udpNew_eq_some h
    refine .inl (le_trans ?_ (udpNew_getD_count .client .server))
    simp [h, hone]

end Pool

/-- Before the first address nothing is started; afterwards the server is. -/
structure StartUpInv (s : NetSystem) : Prop where
  safe : StartUpSafe s
  idle : s.board.vars.ipAddress = 0 → s.board.udp.users.count .server = 0 ∧
    s.board.udp.users.count .client = 0 ∧ s.board.udp.users.length ≤ 1
  started : s.board.vars.ipAddress ≠ 0 → 0 < s.board.udp.users.count .server

theorem mem_of_filter {act : NetAction} {turn : List NetAction} (h : act.isStart = true) :
    act ∈ turn ↔ act ∈ turn.filter NetAction.isStart := by
  simp [h]

/-- A turn that starts nothing spoils nothing. -/
theorem startUpSafe_of_sameApps {s : NetSystem} {b : Board} (h : StartUpSafe s)
    (hsame : SameApps s.board.clearLog b) : StartUpSafe ⟨b, s.turns ++ [b.log]⟩ := by
  have hstart : b.log.filter NetAction.isStart = [] := hsame.log
  have hnew {act : NetAction} (hact : act.isStart = true) : act ∉ b.log := by
    rw [mem_of_filter hact, hstart]
    exact List.not_mem_nil
  refine ⟨fun turn hturn => ?_, ?_, ?_, fun turn hturn => ?_⟩
  · obtain hold | hnow := List.mem_append.mp hturn
    · exact h.on_address turn hold
    · obtain rfl := List.mem_singleton.mp hnow
      exact ⟨hnew rfl, hnew rfl⟩
  · exact (hsame.users .server (by decide)).le.trans h.one_server
  · exact (hsame.users .client (by decide)).le.trans h.one_client
  · obtain hold | hnow := List.mem_append.mp hturn
    · exact h.no_null turn hold
    · obtain rfl := List.mem_singleton.mp hnow
      exact hnew rfl

theorem startUpInv_of_sameApps {s : NetSystem} {b : Board} (h : StartUpInv s)
    (hsame : SameApps s.board.clearLog b) : StartUpInv ⟨b, s.turns ++ [b.log]⟩ := by
  have hserver := hsame.users .server (by decide)
  have hclient := hsame.users .client (by decide)
  have hcached : b.vars.ipAddress = s.board.vars.ipAddress := hsame.cached
  refine ⟨startUpSafe_of_sameApps h.safe hsame, fun hzero => ?_, fun hne => ?_⟩
  · obtain ⟨hnoServer, hnoClient, hshort⟩ := h.idle (hcached.symm.trans hzero)
    exact ⟨hserver.trans hnoServer, hclient.trans hnoClient, hsame.short.trans hshort⟩
  · exact (h.started (hcached ▸ hne)).trans_le hserver.ge

/-- The first address starts both applications, once and with room in the pool. -/
theorem startUpInv_of_first {s : NetSystem} {b : Board} (h : StartUpInv s)
    (hzero : s.board.vars.ipAddress = 0) (hne : s.board.vars.ipAddress ≠ s.board.netif.ipAddr)
    (hsame : SameApps (showAddress s.board.clearLog) b) : StartUpInv ⟨b, s.turns ++ [b.log]⟩ := by
  rw [showAddress_eq] at hsame
  obtain ⟨hnoServer, hnoClient, hshort⟩ := h.idle hzero
  have hip : s.board.netif.ipAddr ≠ 0 := fun hip => hne (hzero.trans hip.symm)
  have hroom : s.board.udp.users.length + 1 < mempNumUdpPcb :=
    (Nat.add_le_add_right hshort 1).trans_lt (by decide)
  obtain ⟨husers, hlog⟩ := startPcbs_of_room hroom s.board.netif.ipAddr
  have hstart : b.log.filter NetAction.isStart =
      [.serverInit s.board.netif.ipAddr, .clientInit s.board.netif.ipAddr] := by
    rw [hsame.log]
    simp only [Board.clearLog, hlog, List.nil_append]
    rfl
  have hnot {act : NetAction} (hact : act.isStart = true)
      (hother : act ∉ [.serverInit s.board.netif.ipAddr, .clientInit s.board.netif.ipAddr]) :
      act ∉ b.log := by
    rwa [mem_of_filter hact, hstart]
  have hserver : b.udp.users.count .server = 1 := by
    rw [hsame.users .server (by decide)]
    simp [Board.clearLog, husers, hnoServer]
  have hclient : b.udp.users.count .client = 1 := by
    rw [hsame.users .client (by decide)]
    simp [Board.clearLog, husers, hnoClient]
  have hcached : b.vars.ipAddress = s.board.netif.ipAddr := hsame.cached
  refine ⟨⟨fun turn hturn => ?_, hserver.le, hclient.le, fun turn hturn => ?_⟩,
    fun h0 => absurd (hcached.symm.trans h0) hip, fun _ => hserver ▸ Nat.one_pos⟩
  · obtain hold | hnow := List.mem_append.mp hturn
    · exact h.safe.on_address turn hold
    · obtain rfl := List.mem_singleton.mp hnow
      exact ⟨hnot rfl (by simp [hip.symm]), hnot rfl (by simp [hip.symm])⟩
  · obtain hold | hnow := List.mem_append.mp hturn
    · exact h.safe.no_null turn hold
    · obtain rfl := List.mem_singleton.mp hnow
      exact hnot rfl (by simp)

/-- Any later address starts them again. -/
theorem not_startUpSafe_of_later {s : NetSystem} {b : Board} (h : StartUpInv s)
    (hne : s.board.vars.ipAddress ≠ 0) (hsame : SameApps (showAddress s.board.clearLog) b) :
    ¬ StartUpSafe ⟨b, s.turns ++ [b.log]⟩ := by
  rw [showAddress_eq] at hsame
  intro hsafe
  obtain hserver | hnull := startPcbs_again s.board.udp s.board.netif.ipAddr
  · have hcount : b.udp.users.count .server = (startPcbs s.board.udp).users.count .server :=
      hsame.users .server (by decide)
    have hone : b.udp.users.count .server ≤ 1 := hsafe.one_server
    have hpos := h.started hne
    omega
  · apply hsafe.no_null b.log (List.mem_append_right _ (List.mem_singleton_self _))
    rw [mem_of_filter rfl, hsame.log]
    exact List.mem_filter.mpr ⟨hnull, rfl⟩

theorem netStep_dhcp_safe {s t : NetSystem} {ipAddr netmask gw : UInt32} {tries : UInt8}
    (hstep : netStep s (.dhcp ipAddr netmask gw tries) = some t) :
    t.turns = s.turns ∧ t.board.udp = s.board.udp ∧ t.board.vars = s.board.vars := by
  rw [netStep] at hstep
  split at hstep
  · simp only [Option.some.injEq] at hstep
    rw [← hstep]
    exact ⟨rfl, rfl, rfl⟩
  · simp at hstep

theorem netStep_poll_eq {s t : NetSystem} {displayTime lwipTime : ℕ}
    (hstep : netStep s (.poll displayTime lwipTime) = some t) :
    t = ⟨systemPeriodicHandle displayTime lwipTime s.board,
      s.turns ++ [(systemPeriodicHandle displayTime lwipTime s.board).log]⟩ :=
  (Option.some.inj hstep).symm

theorem startUpInv_step {s t : NetSystem} {e : NetEvent} (h : StartUpInv s)
    (hfirst : FirstAddress s e) (hstep : netStep s e = some t) : StartUpInv t := by
  cases e with
  | dhcp ipAddr netmask gw tries =>
    obtain ⟨hturns, hudp, hvars⟩ := netStep_dhcp_safe hstep
    have hsafe : StartUpSafe t := by
      refine ⟨?_, ?_, ?_, ?_⟩
      · exact hturns ▸ h.safe.on_address
      · exact hudp ▸ h.safe.one_server
      · exact hudp ▸ h.safe.one_client
      · exact hturns ▸ h.safe.no_null
    refine ⟨hsafe, ?_, ?_⟩
    · rw [hvars, hudp]
      exact h.idle
    · rw [hvars, hudp]
      exact h.started
  | poll displayTime lwipTime =>
    rw [netStep_poll_eq hstep]
    by_cases hnew : SeesNewAddress s (.poll displayTime lwipTime)
    · exact startUpInv_of_first h (hfirst hnew) hnew.2 (sameApps_poll_of_new hnew)
    · exact startUpInv_of_sameApps h (sameApps_poll_of_not_new hnew)

theorem not_startUpSafe_step {s t : NetSystem} {e : NetEvent} (h : StartUpInv s)
    (hlater : ¬ FirstAddress s e) (hstep : netStep s e = some t) : ¬ StartUpSafe t := by
  obtain ⟨hnew, hne⟩ := Classical.not_imp.mp hlater
  cases e with
  | dhcp ipAddr netmask gw tries => exact absurd hnew id
  | poll displayTime lwipTime =>
    rw [netStep_poll_eq hstep]
    exact not_startUpSafe_of_later h hne (sameApps_poll_of_new hnew)

/-- No control block is given back, so a state that is not safe stays so. -/
theorem startUpSafe_of_step {s t : NetSystem} {e : NetEvent} (h : StartUpSafe t)
    (hstep : netStep s e = some t) : StartUpSafe s := by
  cases e with
  | dhcp ipAddr netmask gw tries =>
    obtain ⟨hturns, hudp, -⟩ := netStep_dhcp_safe hstep
    exact ⟨hturns ▸ h.on_address, hudp ▸ h.one_server, hudp ▸ h.one_client, hturns ▸ h.no_null⟩
  | poll displayTime lwipTime =>
    have hkept (user : UdpUser) (hne : user ≠ .dhcp) :
        s.board.udp.users.count user ≤ t.board.udp.users.count user := by
      rw [netStep_poll_eq hstep]
      by_cases hnew : SeesNewAddress s (.poll displayTime lwipTime)
      · have hsame : SameApps _ (systemPeriodicHandle displayTime lwipTime s.board) :=
          sameApps_poll_of_new hnew
        rw [showAddress_eq] at hsame
        exact (startPcbs_count user).trans (hsame.users user hne).ge
      · exact ((sameApps_poll_of_not_new hnew).users user hne).ge
    have hturns : ∀ turn ∈ s.turns, turn ∈ t.turns := fun turn hturn => by
      rw [netStep_poll_eq hstep]
      exact List.mem_append_left _ hturn
    exact ⟨fun turn hturn => h.on_address turn (hturns turn hturn),
      (hkept .server (by decide)).trans h.one_server,
      (hkept .client (by decide)).trans h.one_client,
      fun turn hturn => h.no_null turn (hturns turn hturn)⟩

theorem startUpInv_init (dhcp : Option Dhcp) (nullTries : UInt8) :
    StartUpInv ⟨Board.afterInit dhcp nullTries, []⟩ := by
  refine ⟨⟨by simp, ?_, ?_, by simp⟩, fun _ => ⟨?_, ?_, ?_⟩, fun hne => absurd rfl hne⟩ <;>
    cases dhcp <;> simp [Board.afterInit]

/-- The applications start as they should if and only if every new address that
a poll sees is the first one. -/
theorem start_up_safe_iff (dhcp : Option Dhcp) (nullTries : UInt8) (es : List NetEvent)
    (s : NetSystem) (hrun : Run.run netStep ⟨Board.afterInit dhcp nullTries, []⟩ es = some s) :
    StartUpSafe s ↔ Run.Along netStep FirstAddress ⟨Board.afterInit dhcp nullTries, []⟩ es := by
  have hinit := startUpInv_init dhcp nullTries
  obtain ⟨hfirst, hinv⟩ | ⟨hlater, hunsafe⟩ :=
    Run.invariant_or_lost (L := fun s => ¬ StartUpSafe s) (fun _ _ _ h hg => startUpInv_step h hg)
      (fun _ _ _ h hg => not_startUpSafe_step h hg)
      (fun _ _ _ h hstep hsafe => h (startUpSafe_of_step hsafe hstep)) hinit hrun
  · exact iff_of_true hinv.safe hfirst
  · exact iff_of_false hunsafe hlater

/-- A lease is obtained, shown and kept. -/
def oneLease : List NetEvent :=
  [.poll 250 250, .dhcp 0x6501A8C0 0xFFFFFF 0x101A8C0 1, .poll 500 500, .poll 750 750]

theorem start_up_safe_one_lease :
    ∃ s, Run.run netStep ⟨Board.afterInit (some ⟨1⟩) 0, []⟩ oneLease = some s ∧
      s.turns.map (fun turn => turn.count (.serverInit 0x6501A8C0)) = [0, 1, 0] ∧
      StartUpSafe s :=
  ⟨_, rfl, by decide, (start_up_safe_iff (some ⟨1⟩) 0 oneLease _ rfl).mpr (by decide)⟩

/-- The server answers a renewal with a NAK and then leases another address: the
applications are started three times, once without an address, and the pool is
empty before the last start is done. -/
theorem new_address_starts_again :
    ∃ s, Run.run netStep ⟨Board.afterInit (some ⟨1⟩) 0, []⟩
        [.dhcp 0x6501A8C0 0xFFFFFF 0x101A8C0 1, .poll 250 250, .dhcp 0 0 0 1, .poll 500 500,
          .dhcp 0x6601A8C0 0xFFFFFF 0x101A8C0 1, .poll 750 750] = some s ∧
      s.turns.map (fun turn => turn.count (.serverInit 0)) = [0, 1, 0] ∧
      s.turns.map (fun turn => turn.count .nullPcb) = [0, 0, 1] ∧
      s.board.udp.users = [.server, .client, .server, .client, .server, .dhcp] ∧
      ¬ StartUpSafe s :=
  ⟨_, rfl, by decide, by decide, by decide, fun h => absurd h.one_server (by decide)⟩

end EthMange.Netconf
