import EthMange.Tcp.Output

/-!
# The calls of the application, and the timers

`tcp.c`: the receive window and how it is announced, `tcp_close`, the end of a control
block, and what the two timers do with one block. The keepalive timer is left out; no
program of the board sets `SOF_KEEPALIVE`.
-/

namespace EthMange.Tcp

open Serial

namespace Pcb

def setRcvAnnWnd (pcb : Pcb) (wnd : ℕ) : Pcb := { pcb with rcvAnnWnd := wnd }

def setRcvWnd (pcb : Pcb) (wnd : ℕ) : Pcb := { pcb with rcvWnd := wnd }

/-- `tcp_update_rcv_ann_wnd`, with its result. -/
def tcpUpdateRcvAnnWnd (pcb : Pcb) : Pcb × ℤ :=
  let newRightEdge := pcb.rcvNxt + BitVec.ofNat 32 pcb.rcvWnd
  if lt newRightEdge (pcb.rcvAnnRightEdge + BitVec.ofNat 32 pcb.mss) then
    if le pcb.rcvNxt pcb.rcvAnnRightEdge then
      (pcb.setRcvAnnWnd ((pcb.rcvAnnRightEdge - pcb.rcvNxt).toNat % 2 ^ 16), 0)
    else (pcb.setRcvAnnWnd 0, 0)
  else (pcb.setRcvAnnWnd pcb.rcvWnd, (newRightEdge - pcb.rcvAnnRightEdge).toInt)

/-- `tcp_recved` -/
def tcpRecved (pcb : Pcb) (len : ℕ) (buf : Bool) : Pcb :=
  let (pcb, inflation) := (pcb.setRcvWnd (EthMange.tcpRecved pcb.rcvWnd len)).tcpUpdateRcvAnnWnd
  if tcpWndUpdateThreshold ≤ inflation then pcb.tcpAckNow buf else pcb

/-- `tcp_send_ctrl(pcb, TCP_FIN)` -/
def sendFin (pcb : Pcb) (mem : SegMem) : Pcb × Err := pcb.tcpEnqueue [] true true false mem

/-- `tcp_close` -/
def tcpClose (pcb : Pcb) (mem : SegMem) (buf : Bool) : Pcb × Err :=
  match pcb.state with
  | .established =>
    match pcb.sendFin mem with
    | (pcb, .ok) => ((pcb.setState .finWait1).tcpOutput buf, .ok)
    | (pcb, err) => (pcb, err)
  | .closeWait =>
    match pcb.sendFin mem with
    | (pcb, .ok) => ((pcb.setState .lastAck).tcpOutput buf, .ok)
    | (pcb, err) => (pcb, err)
  | _ => (pcb, .ok)

/-- `tcp_pcb_purge` -/
def tcpPcbPurge (pcb : Pcb) : Pcb :=
  if pcb.state ≠ .closed ∧ pcb.state ≠ .timeWait then
    { pcb with refusedData := none, unsent := [], unacked := [] }
  else pcb

/-- `tcp_pcb_remove` -/
def tcpPcbRemove (pcb : Pcb) (buf : Bool) : Pcb :=
  let pcb := pcb.tcpPcbPurge
  let pcb := if pcb.state ≠ .timeWait ∧ pcb.ackDelay = true then pcb.tcpAckNow buf else pcb
  pcb.setState .closed

end Pcb

def tcpBackoff : List ℕ := [1, 2, 3, 4, 5, 6, 7, 7, 7, 7, 7, 7, 7]

def tcpPersistBackoff : List ℕ := [3, 6, 12, 24, 48, 96, 120]

/-- The retransmission timer, if it is on. -/
def Timing.run (t : Timing) : Timing :=
  { t with rtime := if 0 ≤ t.rtime then t.rtime + 1 else t.rtime }

/-- The time-out for a retransmission. `nrtx` may lie outside of the table, and `beyond` is
what is found there. -/
def Timing.backOff (t : Timing) (beyond : ℕ) : Timing :=
  { t with
    rto := ((t.sa >>> 3) + t.sv) <<< Int16.ofNat (tcpBackoff.getD t.nrtx beyond)
    rtime := 0 }

/-- The windows after a time-out. -/
def Congestion.collapse (c : Congestion) (mss sndWnd : ℕ) : Congestion :=
  let ssthresh := min c.cwnd sndWnd / 2
  { c with ssthresh := if ssthresh < mss then mss * 2 else ssthresh, cwnd := mss }

/-- One turn of the persist timer; `true` asks for a probe. -/
def Persist.tick (p : Persist) : Persist × Bool :=
  if tcpPersistBackoff.getD (p.backoff - 1) 0 ≤ p.cnt + 1 then
    (⟨0, if p.backoff < tcpPersistBackoff.length then p.backoff + 1 else p.backoff⟩, true)
  else (⟨p.cnt + 1, p.backoff⟩, false)

namespace Pcb

/-- The part of `tcp_slowtmr` that sends again. -/
def slowtmrSend (pcb : Pcb) (junk : UInt8) (beyond : ℕ) (buf : Bool) : Pcb :=
  if 0 < pcb.persist.backoff then
    let (persist, probe) := pcb.persist.tick
    let pcb := pcb.setPersist persist
    if probe then pcb.tcpZeroWindowProbe junk buf else pcb
  else
    let pcb := pcb.setTiming pcb.timing.run
    if pcb.unacked ≠ [] ∧ pcb.timing.rto ≤ pcb.timing.rtime then
      ((pcb.setTiming (pcb.timing.backOff beyond)).setCong
        (pcb.cong.collapse pcb.mss pcb.sndWnd)).tcpRexmitRto buf
    else pcb

/-- The states that a connection may stay in only for some time, in ticks of 500 ms. -/
def Expired (pcb : Pcb) : Prop :=
  let idle := (pcb.ticks - pcb.tmr).toNat
  pcb.state = .finWait2 ∧ 20000 / 500 < idle ∨ pcb.state = .lastAck ∧ 2 * 60000 / 500 < idle ∨
    pcb.state = .timeWait ∧ 2 * 60000 / 500 < idle

instance (pcb : Pcb) : Decidable pcb.Expired :=
  inferInstanceAs (Decidable (_ ∧ _ ∨ _ ∧ _ ∨ _ ∧ _))

def tick (pcb : Pcb) : Pcb := { pcb with ticks := pcb.ticks + 1 }

/-- `tcp_slowtmr` for one control block, up to the poll of the application. -/
def tcpSlowtmr (pcb : Pcb) (junk : UInt8) (beyond : ℕ) (buf : Bool) : Pcb :=
  let pcb := pcb.tick
  if pcb.state = .timeWait then
    if pcb.Expired then pcb.tcpPcbPurge.setState .closed else pcb
  else if pcb.timing.nrtx = tcpMaxrtx then pcb.tcpPcbPurge.setState .closed
  else
    let pcb := pcb.slowtmrSend junk beyond buf
    if pcb.Expired then pcb.tcpPcbPurge.setState .closed else pcb

/-- `tcp_fasttmr` for one control block, behind the data that was refused. -/
def tcpFasttmr (pcb : Pcb) (buf : Bool) : Pcb :=
  if pcb.ackDelay = true then (pcb.tcpAckNow buf).clearAck else pcb

end Pcb

end EthMange.Tcp
