import EthMange.Tcp.Control

/-!
# Receiving

`tcp_in.c`: what an incoming segment acknowledges is freed, its data is trimmed to what is
new and fits into the window, and the state of the connection follows. While `tcp_process`
runs `tcp_output` does nothing. Segments out of sequence are not kept.
-/

namespace EthMange.Tcp

open Serial

/-- `p->tot_len` of a chain. -/
def totLen (chain : List Bytes) : ℕ := chain.flatten.length

/-- The first `off` bytes of a chain are hidden: the pbufs that hold nothing else become
empty, and the payload of the next one moves. -/
def trimFront : List Bytes → ℕ → List Bytes
  | [], _ => []
  | p :: chain, off =>
    if p.length < off then [] :: trimFront chain (off - p.length) else p.drop off :: chain

/-- The loop of `pbuf_realloc`. -/
def shrink : List Bytes → ℕ → List Bytes
  | [], _ => []
  | q :: chain, remLen =>
    if q.length < remLen then q :: shrink chain (remLen - q.length) else [q.take remLen]

/-- `pbuf_realloc` -/
def pbufRealloc (chain : List Bytes) (newLen : ℕ) : List Bytes :=
  if totLen chain ≤ newLen then chain else shrink chain newLen

/-- The loops that free the segments at the head of a queue, with the length of the queues. -/
def freeAcked (done : TcpSeg → Bool) : List TcpSeg → ℕ → List TcpSeg × ℕ
  | [], n => ([], n)
  | seg :: queue, n => if done seg then freeAcked done queue (n - seg.clen) else (seg :: queue, n)

/-- The windows at the start of a fast retransmit. -/
def Congestion.enterFr (c : Congestion) (mss sndWnd : ℕ) : Congestion :=
  let ssthresh := (if sndWnd < c.cwnd then sndWnd else c.cwnd) / 2
  let ssthresh := if ssthresh < 2 * mss then 2 * mss else ssthresh
  { c with ssthresh := ssthresh, cwnd := (ssthresh + 3 * mss) % 2 ^ 16, inFr := true }

/-- `cwnd` grows by `inc`, unless it would wrap. -/
def Congestion.grow (c : Congestion) (inc : ℕ) : Congestion :=
  if c.cwnd < (c.cwnd + inc) % 2 ^ 16 then { c with cwnd := (c.cwnd + inc) % 2 ^ 16 } else c

/-- The windows when new data is acknowledged. -/
def Congestion.newAck (c : Congestion) (mss : ℕ) : Congestion :=
  let c := if c.inFr then { c with inFr := false, cwnd := c.ssthresh } else c
  let c := { c with dupacks := 0 }
  c.grow (if c.cwnd < c.ssthresh then mss else mss * mss / c.cwnd)

/-- The estimate of the round trip time, when the segment that is timed is acknowledged. -/
def Timing.measure (t : Timing) (ticks : BitVec 32) (ackno : SeqNo) : Timing :=
  if t.rttest ≠ 0 ∧ lt t.rtseq ackno then
    let m : Int16 := ⟨⟨(ticks - t.rttest).setWidth 16⟩⟩ - (t.sa >>> 3)
    let sa := t.sa + m
    let m := (if m < 0 then -m else m) - (t.sv >>> 2)
    let sv := t.sv + m
    { t with sa := sa, sv := sv, rto := (sa >>> 3) + sv, rttest := 0 }
  else t

namespace Pcb

/-- The window of the peer is updated. -/
def updateWnd (pcb : Pcb) (p : Packet) : Pcb :=
  if lt pcb.sndWl1 p.seqno ∨ pcb.sndWl1 = p.seqno ∧ lt pcb.sndWl2 p.ackno ∨
      pcb.sndWl2 = p.ackno ∧ pcb.sndWnd < p.wnd then
    { pcb with
      sndWnd := p.wnd
      sndWl1 := p.seqno
      sndWl2 := p.ackno
      persist := if 0 < p.wnd then { pcb.persist with backoff := 0 } else pcb.persist }
  else pcb

/-- The right edge of the window of the peer. -/
def rightWndEdge (pcb : Pcb) : SeqNo := BitVec.ofNat 32 pcb.sndWnd + pcb.sndWl2

def setAcked (pcb : Pcb) (n : ℕ) : Pcb := { pcb with acked := n }

/-- An ACK for what is acknowledged already. -/
def dupAck (pcb : Pcb) (edge : SeqNo) : Pcb :=
  let pcb := pcb.setAcked 0
  if pcb.rightWndEdge = edge then
    let pcb := pcb.setCong { pcb.cong with dupacks := (pcb.cong.dupacks + 1) % 2 ^ 8 }
    if 3 ≤ pcb.cong.dupacks ∧ pcb.unacked ≠ [] then
      if pcb.cong.inFr = false then
        pcb.tcpRexmit.setCong (pcb.cong.enterFr pcb.mss pcb.sndWnd)
      else pcb.setCong (pcb.cong.grow pcb.mss)
    else pcb
  else pcb

/-- An ACK for new data. -/
def newAck (pcb : Pcb) (ackno : SeqNo) : Pcb :=
  let acked := (ackno - pcb.lastack).toNat % 2 ^ 16
  let (unacked, queuelen) :=
    freeAcked (fun seg => le seg.next ackno) pcb.unacked pcb.sndQueuelen
  { pcb with
    timing := { pcb.timing with
      nrtx := 0
      rto := (pcb.timing.sa >>> 3) + pcb.timing.sv
      rtime := if unacked = [] then -1 else 0 }
    acked := acked
    sndBuf := (pcb.sndBuf + acked) % 2 ^ 16
    lastack := ackno
    cong := pcb.cong.newAck pcb.mss
    unacked := unacked
    sndQueuelen := queuelen }

/-- Segments on the `unsent` queue that were sent before and are acknowledged now. -/
def freeUnsent (pcb : Pcb) (ackno : SeqNo) : Pcb :=
  let (unsent, queuelen) :=
    freeAcked (fun seg => Between ackno seg.next pcb.sndNxt) pcb.unsent pcb.sndQueuelen
  { pcb with unsent := unsent, sndQueuelen := queuelen }

/-- The part of `tcp_receive` for the ACK. -/
def receiveAck (pcb : Pcb) (p : Packet) : Pcb :=
  let edge := pcb.rightWndEdge
  let pcb := pcb.updateWnd p
  let pcb :=
    if pcb.lastack = p.ackno then pcb.dupAck edge
    else if Between p.ackno (pcb.lastack + 1) pcb.sndNxt then pcb.newAck p.ackno
    else pcb.setAcked 0
  let pcb := pcb.freeUnsent p.ackno
  pcb.setTiming (pcb.timing.measure pcb.ticks p.ackno)

/-- `tcp_ack` -/
def tcpAck (pcb : Pcb) : Pcb :=
  if pcb.ackDelay = true then { pcb with ackDelay := false, ackNow := true }
  else { pcb with ackDelay := true }

end Pcb

/-- The data of a segment for the application, and `recv_flags`. -/
structure RecvFlags where
  recvData : Option (List Bytes)
  gotFin : Bool
  reset : Bool
  closed : Bool
  deriving DecidableEq, Repr

namespace RecvFlags

def none : RecvFlags := ⟨Option.none, false, false, false⟩

end RecvFlags

namespace Pcb

/-- `rcv_nxt` and `rcv_wnd` after a segment that was accepted. -/
def advance (pcb : Pcb) (len : ℕ) : Pcb :=
  { pcb with rcvNxt := pcb.rcvNxt + BitVec.ofNat 32 len, rcvWnd := pcb.rcvWnd - len }

/-- A segment that starts at `rcv_nxt`. What does not fit into the window is cut off, first
of all its FIN. -/
def accept (pcb : Pcb) (chain : List Bytes) (fin : Bool) : Pcb × RecvFlags :=
  let overrun := pcb.rcvWnd < tcpLen chain.flatten fin
  let chain := if overrun then pbufRealloc chain pcb.rcvWnd else chain
  let fin := if overrun then false else fin
  let pcb := (pcb.advance (tcpLen chain.flatten fin)).tcpUpdateRcvAnnWnd.1.tcpAck
  (pcb, ⟨if 0 < totLen chain then some chain else none, fin, false, false⟩)

/-- The part of `tcp_receive` for a segment that takes `len` sequence numbers. -/
def receiveData (pcb : Pcb) (p : Packet) (chain : List Bytes) (len : ℕ) : Pcb × RecvFlags :=
  let trim := Between pcb.rcvNxt (p.seqno + 1) (p.seqno + BitVec.ofNat 32 len - 1)
  let chain := if trim then trimFront chain (pcb.rcvNxt - p.seqno).toNat else chain
  let seqno := if trim then pcb.rcvNxt else p.seqno
  let pcb := if ¬ trim ∧ lt p.seqno pcb.rcvNxt then pcb.setAckNow else pcb
  if Between seqno pcb.rcvNxt (pcb.rcvNxt + BitVec.ofNat 32 pcb.rcvWnd - 1) ∧
      pcb.rcvNxt = seqno then pcb.accept chain p.fin
  else (pcb.setAckNow, .none)

/-- `tcp_receive` -/
def tcpReceive (pcb : Pcb) (p : Packet) (chain : List Bytes) : Pcb × RecvFlags :=
  let pcb := if p.ack = true then pcb.receiveAck p else pcb
  if 0 < p.tcpLen then pcb.receiveData p chain p.tcpLen
  else if Between p.seqno pcb.rcvNxt (pcb.rcvNxt + BitVec.ofNat 32 pcb.rcvWnd - 1) then (pcb, .none)
  else (pcb.setAckNow, .none)

/-- The connection goes to `TIME_WAIT`. -/
def toTimeWait (pcb : Pcb) : Pcb := pcb.tcpPcbPurge.setState .timeWait

/-- The `switch` of `tcp_process`, after `tcp_receive`. -/
def follow (pcb : Pcb) (p : Packet) (r : RecvFlags) : Pcb × RecvFlags :=
  let allAcked := p.ack = true ∧ p.ackno = pcb.sndNxt
  match pcb.state with
  | .established | .closeWait =>
    if r.gotFin then (pcb.setAckNow.setState .closeWait, r) else (pcb, r)
  | .finWait1 =>
    if r.gotFin then
      if allAcked then (pcb.setAckNow.toTimeWait, r) else (pcb.setAckNow.setState .closing, r)
    else if allAcked then (pcb.setState .finWait2, r) else (pcb, r)
  | .finWait2 => if r.gotFin then (pcb.setAckNow.toTimeWait, r) else (pcb, r)
  | .closing => if allAcked then (pcb.toTimeWait, r) else (pcb, r)
  | .lastAck => if allAcked then (pcb, { r with closed := true }) else (pcb, r)
  | .timeWait | .closed => (pcb, r)

def touch (pcb : Pcb) : Pcb := { pcb with tmr := pcb.ticks }

/-- `tcp_process`, without the options of a segment. -/
def tcpProcess (pcb : Pcb) (p : Packet) (chain : List Bytes) : Pcb × RecvFlags :=
  if p.rst = true then
    if Between p.seqno pcb.rcvNxt (pcb.rcvNxt + BitVec.ofNat 32 pcb.rcvWnd) then
      ({ pcb with ackDelay := false }, { RecvFlags.none with reset := true })
    else (pcb, .none)
  else if p.syn = true then (pcb.setAckNow, .none)
  else
    let (pcb, r) := pcb.touch.tcpReceive p chain
    pcb.follow p r

def setRcvNxt (pcb : Pcb) (n : SeqNo) : Pcb := { pcb with rcvNxt := n }

/-- `tcp_timewait_input` -/
def tcpTimewaitInput (pcb : Pcb) (p : Packet) (buf : Bool) : Pcb :=
  let next := p.seqno + BitVec.ofNat 32 p.tcpLen
  let pcb := if le next pcb.rcvNxt then pcb else pcb.setRcvNxt next
  (if 0 < p.tcpLen then pcb.tcpAckNow buf else pcb).tcpOutput buf

/-- `tcp_rst` for a segment to a connection that there is not. -/
def tcpRst (pcb : Pcb) (p : Packet) (buf : Bool) : Pcb :=
  let ackno := p.seqno + BitVec.ofNat 32 p.tcpLen
  if buf then
    { pcb with sent := pcb.sent ++ [⟨p.ackno, ackno, tcpWnd, false, false, true, false, true, []⟩] }
  else pcb

/-- `tcp_input` up to its callbacks, which get what is returned. While data is refused
nothing else is taken. -/
def tcpInput (pcb : Pcb) (p : Packet) (chain : List Bytes) (buf : Bool) : Pcb × RecvFlags :=
  match pcb.state with
  | .closed => (if p.rst = true then pcb else pcb.tcpRst p buf, .none)
  | .timeWait => (pcb.tcpTimewaitInput p buf, .none)
  | _ =>
    if pcb.refusedData.isSome then (pcb, .none)
    else
      let (pcb, r) := pcb.tcpProcess p chain
      if r.reset ∨ r.closed then (pcb.tcpPcbRemove buf, .none) else (pcb, r)

end Pcb

end EthMange.Tcp
