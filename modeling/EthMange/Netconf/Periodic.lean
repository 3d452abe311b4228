import EthMange.Lib.Run
import EthMange.Lwip.Udp

/-!
# The periodic handlers of the main loop

`Display_Periodic_Handle` and `LwIP_Periodic_Handle` with the variables that
they keep between two polls. What is shown on the LCD is left out, except that
the display was refreshed. DHCP changes the interface between two polls.
-/

namespace EthMange.Netconf

open Lwip (UdpPool)

def lcdTimerMsecs : UInt32 := 250
def maxDhcpTries : UInt8 := 4
def tcpTmrInterval : UInt32 := 250
def arpTmrInterval : UInt32 := 5000
def dhcpFineTimerMsecs : UInt32 := 500
def dhcpCoarseTimerMsecs : UInt32 := 60 * 1000

/-- `IP4_ADDR`: the address in network order, as the little-endian core loads it. -/
def ip4Addr (a b c d : UInt8) : UInt32 :=
  a.toUInt32 ||| b.toUInt32 <<< 8 ||| c.toUInt32 <<< 16 ||| d.toUInt32 <<< 24

/-- What a UDP control block was allocated for. -/
inductive UdpUser
  | dhcp
  | server
  | client
deriving DecidableEq

/-- The DHCP client's record, as far as the main loop reads it. -/
structure Dhcp where
  tries : UInt8

structure Netif where
  ipAddr : UInt32
  netmask : UInt32
  gw : UInt32
  flagDhcp : Bool
  dhcp : Option Dhcp

/-- The variables of `netconf.c`. -/
structure NetconfVars where
  tcpTimer : UInt32
  arpTimer : UInt32
  dhcpFineTimer : UInt32
  dhcpCoarseTimer : UInt32
  ipAddress : UInt32
  displayTimer : UInt32
  ledToggle : UInt8

def NetconfVars.init : NetconfVars := ⟨0, 0, 0, 0, 0, 0, 4⟩

/-- What a poll does, apart from the text on the LCD. -/
inductive NetAction
  | tcpTmr
  | etharpTmr
  | dhcpFineTmr
  | dhcpCoarseTmr
  | displayRefresh
  | serverInit (ipAddr : UInt32)
  | clientInit (ipAddr : UInt32)
  -- `udp_new` returned `NULL`, which the caller dereferences
  | nullPcb
  | ledToggle (led : UInt8)
  | readTries (dhcpPresent : Bool)
  | dhcpStop
  | netifSetAddr (ipAddr netmask gw : UInt32)
deriving DecidableEq

structure Board where
  vars : NetconfVars
  netif : Netif
  udp : UdpPool UdpUser
  /-- What a read of `tries` through a `NULL` pointer finds. -/
  nullTries : UInt8
  log : List NetAction

namespace Board

def act (b : Board) (a : NetAction) : Board := { b with log := b.log ++ [a] }

def clearLog (b : Board) : Board := { b with log := [] }

end Board

/-- The board after `LwIP_Init`: with the DHCP client that `dhcp_start` has left
and its control block, or with neither. -/
def Board.afterInit (dhcp : Option Dhcp) (nullTries : UInt8) : Board where
  vars := .init
  netif := { ipAddr := 0, netmask := 0, gw := 0, flagDhcp := dhcp.isSome, dhcp }
  udp := if dhcp.isSome then ⟨[.dhcp], by decide⟩ else .empty
  nullTries
  log := []

/-- The start of an application, as far as its control block goes. -/
def startApp (user : UdpUser) (init : NetAction) (b : Board) : Board :=
  match b.udp.udpNew user with
  | some udp => { b.act init with udp }
  | none => (b.act init).act .nullPcb

def serverInit (b : Board) : Board := startApp .server (.serverInit b.netif.ipAddr) b

def clientInit (b : Board) : Board := startApp .client (.clientInit b.netif.ipAddr) b

def dhcpStop (b : Board) : Board :=
  let netif := { b.netif with flagDhcp := false, dhcp := none }
  match b.netif.dhcp with
  | some _ => { b.act .dhcpStop with netif, udp := b.udp.udpRemove .dhcp }
  | none => { b.act .dhcpStop with netif }

def netifSetAddr (ipAddr netmask gw : UInt32) (b : Board) : Board :=
  { b.act (.netifSetAddr ipAddr netmask gw) with netif := { b.netif with ipAddr, netmask, gw } }

/-- The branch of `Display_Periodic_Handle` that waits for the DHCP server. -/
def waitForDhcp (b : Board) : Board :=
  let led := b.vars.ledToggle &&& 3
  let b := { b.act (.ledToggle led) with vars := { b.vars with ledToggle := led + 1 } }
  let tries := (b.netif.dhcp.map Dhcp.tries).getD b.nullTries
  let b := b.act (.readTries b.netif.dhcp.isSome)
  if tries > maxDhcpTries then
    netifSetAddr (ip4Addr 192 168 1 6) (ip4Addr 255 255 255 0) (ip4Addr 192 168 1 1) (dhcpStop b)
  else b

/-- The branch of `Display_Periodic_Handle` that starts the applications. The
cached address holds the gateway's for a moment before it is set again. -/
def showAddress (b : Board) : Board :=
  let b := { b with vars := { b.vars with ipAddress := b.netif.ipAddr } }
  let b := clientInit (serverInit b)
  { b with vars := { b.vars with ipAddress := b.netif.ipAddr } }

/-- What `Display_Periodic_Handle` does every 250 ms. -/
def refreshDisplay (b : Board) : Board :=
  if b.vars.ipAddress ≠ b.netif.ipAddr then showAddress b
  else if b.vars.ipAddress = 0 then waitForDhcp b
  else b

def displayPeriodicHandle (localtime : UInt32) (b : Board) : Board :=
  if localtime - b.vars.displayTimer ≥ lcdTimerMsecs then
    refreshDisplay
      { b.act .displayRefresh with vars := { b.vars with displayTimer := localtime } }
  else b

def lwipPeriodicHandle (localtime : UInt32) (b : Board) : Board :=
  let b :=
    if localtime - b.vars.tcpTimer ≥ tcpTmrInterval then
      { b.act .tcpTmr with vars := { b.vars with tcpTimer := localtime } }
    else b
  let b :=
    if localtime - b.vars.arpTimer ≥ arpTmrInterval then
      { b.act .etharpTmr with vars := { b.vars with arpTimer := localtime } }
    else b
  let b :=
    if localtime - b.vars.dhcpFineTimer ≥ dhcpFineTimerMsecs then
      { b.act .dhcpFineTmr with vars := { b.vars with dhcpFineTimer := localtime } }
    else b
  if localtime - b.vars.dhcpCoarseTimer ≥ dhcpCoarseTimerMsecs then
    { b.act .dhcpCoarseTmr with vars := { b.vars with dhcpCoarseTimer := localtime } }
  else b

def systemtickPeriodMs : UInt32 := 10

/-- `Time_Update`, called at every SysTick. -/
def timeUpdate (localTime : UInt32) : UInt32 := localTime + systemtickPeriodMs

/-- What happens to the board: a poll of the main loop, whose two handlers read
`LocalTime` one after the other, or a change that DHCP makes. -/
inductive NetEvent
  | poll (displayTime lwipTime : ℕ)
  | dhcp (ipAddr netmask gw : UInt32) (tries : UInt8)

/-- `System_Periodic_Handle` at two true times, without the clock on the LCD. -/
def systemPeriodicHandle (displayTime lwipTime : ℕ) (b : Board) : Board :=
  lwipPeriodicHandle (UInt32.ofNat lwipTime)
    (displayPeriodicHandle (UInt32.ofNat displayTime) b.clearLog)

/-- The board and what each poll has done. -/
structure NetSystem where
  board : Board
  turns : List (List NetAction)

/-- DHCP acts only while its record is there. -/
def netStep (s : NetSystem) : NetEvent → Option NetSystem
  | .poll displayTime lwipTime =>
    let board := systemPeriodicHandle displayTime lwipTime s.board
    some ⟨board, s.turns ++ [board.log]⟩
  | .dhcp ipAddr netmask gw tries =>
    match s.board.netif.dhcp with
    | some _ =>
      let netif := { s.board.netif with ipAddr, netmask, gw, dhcp := some ⟨tries⟩ }
      some { s with board := { s.board with netif } }
    | none => none

end EthMange.Netconf
