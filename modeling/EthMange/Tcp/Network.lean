import EthMange.Lib.Run
import EthMange.Tcp.Input

/-!
# Two hosts and the network between them

A connection with both its ends in this stack. What a host has sent may arrive any number of
times, at any time and in any order, or never; what arrives is what was sent, in pbufs of any
length. `tcp_input` is cut at its callbacks: the calls that the application makes there, and
the `tcp_output` at its end, are events of their own.

Nobody listens on the ports of the connection. Where somebody does, what comes for a block that
is gone goes to `tcp_listen_input`, whose reset has the number `ackno + 1`; here it is answered
as `tcp_input` answers it without a listener, with the number `ackno`.
-/

namespace EthMange.Tcp

open Run

/-- An end of the connection with its application: what it has written, what it was offered
and took, and whether it was told of the end of the stream. -/
structure Host where
  pcb : Pcb
  written : Bytes
  offered : Bytes
  received : Bytes
  eof : Bool

inductive HostEvent
  | write (data : Bytes) (copy more : Bool) (mem : SegMem)
  | output (buf : Bool)
  | recved (len : ℕ) (buf : Bool)
  | close (mem : SegMem) (buf : Bool)
  -- a packet of the peer, in these pbufs; the last but one says whether its data is taken
  | input (i : ℕ) (chain : List Bytes) (taken buf : Bool)
  | keep (taken : Bool)
  | slowtmr (junk : UInt8) (beyond : ℕ) (buf : Bool)
  | fasttmr (buf : Bool)

namespace Host

def setPcb (h : Host) (pcb : Pcb) : Host := { h with pcb := pcb }

/-- `TCP_EVENT_RECV` for data that the application takes or refuses. -/
def offer (h : Host) (chain : List Bytes) (taken : Bool) : Host :=
  if taken then
    { h with pcb := { h.pcb with refusedData := none }, received := h.received ++ chain.flatten }
  else { h with pcb := { h.pcb with refusedData := some chain } }

/-- The callbacks of `tcp_input`. -/
def callbacks (h : Host) (r : RecvFlags) (taken : Bool) : Host :=
  let h := match r.recvData with
    | some chain => { h.offer chain taken with offered := h.offered ++ chain.flatten }
    | none => h
  { h with eof := h.eof || r.gotFin }

/-- A host and what it does when its peer has sent `arrived`. -/
def event (h : Host) (arrived : List Packet) : HostEvent → Option Host
  | .write data copy more mem =>
    if h.pcb.state ≠ .closed ∧ data.length < 2 ^ 16 then
      match h.pcb.tcpWrite data copy more mem with
      | (pcb, .ok) => some { h with pcb := pcb, written := h.written ++ data }
      | (pcb, _) => some (h.setPcb pcb)
    else none
  | .output buf =>
    if h.pcb.state ≠ .closed then some (h.setPcb (h.pcb.tcpOutput buf)) else none
  | .recved len buf =>
    if h.pcb.state ≠ .closed ∧ len < 2 ^ 16 then some (h.setPcb (h.pcb.tcpRecved len buf)) else none
  | .close mem buf =>
    if h.pcb.state ≠ .closed then some (h.setPcb (h.pcb.tcpClose mem buf).1) else none
  | .input i chain taken buf =>
    match arrived[i]? with
    | some p =>
      if chain.flatten = p.data then
        let (pcb, r) := h.pcb.tcpInput p chain buf
        some ((h.setPcb pcb).callbacks r taken)
      else none
    | none => none
  | .keep taken =>
    match h.pcb.refusedData with
    | some chain => if h.pcb.state.Active then some (h.offer chain taken) else none
    | none => none
  | .slowtmr junk beyond buf =>
    if h.pcb.state ≠ .closed then some (h.setPcb (h.pcb.tcpSlowtmr junk beyond buf)) else none
  | .fasttmr buf =>
    if h.pcb.state.Active then some (h.setPcb (h.pcb.tcpFasttmr buf)) else none

/-- A connection that is established and has carried nothing: `o` is the number of the first
byte that the host will send, and `irs` that of the first one it will get. -/
structure Established (o irs : SeqNo) (h : Host) : Prop where
  state : h.pcb.state = .established
  sndLbb : h.pcb.sndLbb = o
  sndNxt : h.pcb.sndNxt = o
  lastack : h.pcb.lastack = o
  rcvNxt : h.pcb.rcvNxt = irs
  rcvWnd : h.pcb.rcvWnd = tcpWnd
  sndBuf : h.pcb.sndBuf = tcpSndBuf
  sndQueuelen : h.pcb.sndQueuelen = 0
  queues : h.pcb.unsent = [] ∧ h.pcb.unacked = []
  flags : h.pcb.finQueued = false ∧ h.pcb.refusedData = none
  quiet : h.pcb.sent = []
  app : h.written = [] ∧ h.offered = [] ∧ h.received = [] ∧ h.eof = false

/-- A host behind its handshake. -/
def start (o irs : SeqNo) : Host where
  pcb :=
    { state := .established, ackDelay := false, ackNow := false, finQueued := false
      nodelay := false, nagleMemerr := false, rcvNxt := irs, rcvWnd := tcpWnd
      rcvAnnWnd := tcpWnd, rcvAnnRightEdge := irs + BitVec.ofNat 32 tcpWnd, ticks := 0, tmr := 0
      mss := tcpMss, timing := ⟨-1, 0, 0, 0, 6, 6, 0⟩, lastack := o
      cong := ⟨0, 2 * tcpMss, 10 * tcpMss, false⟩, sndNxt := o, sndWnd := tcpWnd
      sndWl1 := irs - 1, sndWl2 := o, sndLbb := o, acked := 0, sndBuf := tcpSndBuf
      sndQueuelen := 0, unsent := [], unacked := [], refusedData := none, persist := ⟨0, 0⟩
      sent := [] }
  written := []
  offered := []
  received := []
  eof := false

theorem established_start (o irs : SeqNo) : (start o irs).Established o irs :=
  ⟨rfl, rfl, rfl, rfl, rfl, rfl, rfl, rfl, ⟨rfl, rfl⟩, ⟨rfl, rfl⟩, rfl, ⟨rfl, rfl, rfl, rfl⟩⟩

end Host

/-- The two hosts. -/
abbrev Net := Bool → Host

namespace Net

def step (net : Net) (e : Bool × HostEvent) : Option Net :=
  ((net e.1).event (net !e.1).pcb.sent e.2).map (Function.update net e.1)

/-- Both ends of a connection that is established; the streams start with these numbers. -/
def Established (o : Bool → SeqNo) (net : Net) : Prop :=
  ∀ s, (net s).Established (o s) (o !s)

end Net

end EthMange.Tcp
