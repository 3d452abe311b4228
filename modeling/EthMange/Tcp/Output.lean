import EthMange.Tcp.Pcb

/-!
# Sending

`tcp_out.c`: data is cut into segments on the `unsent` queue; `tcp_output` sends what the
windows allow and moves it to `unacked`, from where a retransmission brings it back.
-/

namespace EthMange.Tcp

open Serial

/-- The memory that is left for `tcp_enqueue`: whether the allocations for the segment of a
number succeed. -/
abbrev SegMem := ℕ → Bool

/-- The pbufs of a new segment. Without a copy the header has one of its own. -/
def segClen (copy : Bool) (left : Bytes) : ℕ := if copy = true ∨ left = [] then 1 else 2

/-- The loop of `tcp_enqueue`: the segments for `data` and the length of the queues with
them. `i` is the number of the segment; there are no more turns than `fuel`, which with an
MSS of zero stands for the memory. -/
def cutSegments (mss : ℕ) (copy fin : Bool) (mem : SegMem) :
    ℕ → ℕ → SeqNo → Bytes → ℕ → Option (List TcpSeg × ℕ)
  | 0, _, _, _, _ => none
  | fuel + 1, i, seqno, left, queuelen =>
    let seglen := if mss < left.length then mss else left.length
    let queuelen := queuelen + segClen copy left
    let seg : TcpSeg := ⟨seqno, left.take seglen, fin, false, segClen copy left⟩
    if mem i = false then none
    else if tcpSndQueuelen < queuelen then none
    else if left.drop seglen = [] then some ([seg], queuelen)
    else (cutSegments mss copy fin mem fuel (i + 1) (seqno + BitVec.ofNat 32 seglen)
      (left.drop seglen) queuelen).map fun (queue, n) => (seg :: queue, n)

/-- Whether the first new segment goes into the last one of the `unsent` queue. -/
def Chains (mss : ℕ) (fin : Bool) (useg q : TcpSeg) : Prop :=
  useg.tcpLen ≠ 0 ∧ useg.fin = false ∧ fin = false ∧ useg.len + q.len ≤ mss

instance (mss : ℕ) (fin : Bool) (useg q : TcpSeg) : Decidable (Chains mss fin useg q) :=
  inferInstanceAs (Decidable (_ ∧ _))

/-- The two segments in one. Without a copy the pbuf of the header is freed. -/
def chain (copy : Bool) (useg q : TcpSeg) : TcpSeg :=
  { useg with
    data := useg.data ++ q.data
    clen := useg.clen + (q.clen - (!copy).toNat) }

/-- The new segments at the end of the `unsent` queue, and the length of the queues. -/
def appendQueue (mss : ℕ) (copy fin : Bool) :
    List TcpSeg → List TcpSeg → ℕ → List TcpSeg × ℕ
  | [], queue, n => (queue, n)
  | [useg], q :: queue, n =>
    if Chains mss fin useg q then (chain copy useg q :: queue, n - (!copy).toNat)
    else (useg :: q :: queue, n)
  | [useg], [], n => ([useg], n)
  | seg :: useg :: unsent, queue, n =>
    let (queue, n) := appendQueue mss copy fin (useg :: unsent) queue n
    (seg :: queue, n)

/-- PSH in the last segment, if that has data. -/
def setPush (more : Bool) : List TcpSeg → List TcpSeg
  | [] => []
  | [seg] => [if seg.data ≠ [] ∧ more = false then { seg with psh := true } else seg]
  | seg :: useg :: queue => seg :: setPush more (useg :: queue)

/-- The timers that `tcp_output_segment` starts. -/
def Timing.start (t : Timing) (ticks : BitVec 32) (seqno : SeqNo) : Timing :=
  { t with
    rtime := if t.rtime = -1 then 0 else t.rtime
    rttest := if t.rttest = 0 then ticks else t.rttest
    rtseq := if t.rttest = 0 then seqno else t.rtseq }

/-- A retransmission is counted, and no round trip is timed. -/
def Timing.retry (t : Timing) : Timing := { t with nrtx := (t.nrtx + 1) % 2 ^ 8, rttest := 0 }

namespace Pcb

/-- `len` more numbers of the stream are on the `unsent` queue. A FIN for which there is no
room in the buffer makes the 16-bit `snd_buf` wrap. -/
def enqueued (pcb : Pcb) (unsent : List TcpSeg) (queuelen len : ℕ) (fin : Bool) : Pcb :=
  { pcb with
    unsent := unsent
    finQueued := pcb.finQueued || fin
    sndLbb := pcb.sndLbb + BitVec.ofNat 32 len
    sndBuf := (pcb.sndBuf + 2 ^ 16 - len) % 2 ^ 16
    sndQueuelen := queuelen }

/-- `tcp_enqueue` without options, for data or for a FIN. -/
def tcpEnqueue (pcb : Pcb) (data : Bytes) (fin copy more : Bool) (mem : SegMem) : Pcb × Err :=
  if data = [] ∧ fin = false then (pcb, .arg)
  else if pcb.sndBuf < data.length then (pcb.setNagleMemerr true, .mem)
  else if tcpSndQueuelen ≤ pcb.sndQueuelen then (pcb.setNagleMemerr true, .mem)
  else
    match cutSegments pcb.mss copy fin mem (data.length + 1) 0 pcb.sndLbb data
      pcb.sndQueuelen with
    | none => (pcb.setNagleMemerr true, .mem)
    | some (queue, n) =>
      let (unsent, n) := appendQueue pcb.mss copy fin pcb.unsent queue n
      (pcb.enqueued (setPush more unsent) n (tcpLen data fin) fin, .ok)

/-- `tcp_write` -/
def tcpWrite (pcb : Pcb) (data : Bytes) (copy more : Bool) (mem : SegMem) : Pcb × Err :=
  if pcb.state = .established ∨ pcb.state = .closeWait then
    if data = [] then (pcb, .ok) else pcb.tcpEnqueue data false copy more mem
  else (pcb, .conn)

/-- `ntohl(seg->tcphdr->seqno) - pcb->lastack + seg->len` -/
def reach (pcb : Pcb) (seg : TcpSeg) : ℕ :=
  (seg.seqno - pcb.lastack + BitVec.ofNat 32 seg.len).toNat

/-- `tcp_do_output_nagle` -/
def DoOutputNagle (pcb : Pcb) : Prop :=
  pcb.unacked = [] ∨ pcb.nodelay = true ∨ 2 ≤ pcb.unsent.length ∨
    ∃ seg ∈ pcb.unsent.head?, pcb.mss ≤ seg.len

instance (pcb : Pcb) : Decidable pcb.DoOutputNagle :=
  inferInstanceAs (Decidable (_ ∨ _ ∨ _ ∨ _))

/-- `tcp_output_segment`. The connection has its local address. -/
def outputSegment (pcb : Pcb) (seg : TcpSeg) : Pcb :=
  (pcb.setTiming (pcb.timing.start pcb.ticks seg.seqno)).send
    (pcb.packet seg.seqno seg.data seg.fin seg.psh)

end Pcb

/-- The queue with `seg` in front of the first segment that does not come before it. -/
def insertSeg (seg : TcpSeg) : List TcpSeg → List TcpSeg
  | [] => [seg]
  | s :: queue => if lt s.seqno seg.seqno then s :: insertSeg seg queue else seg :: s :: queue

/-- A segment that was sent is put on the `unacked` queue. -/
def putUnacked (seg : TcpSeg) (unacked : List TcpSeg) : List TcpSeg :=
  match unacked.getLast? with
  | none => [seg]
  | some useg => if lt seg.seqno useg.seqno then insertSeg seg unacked else unacked ++ [seg]

namespace Pcb

/-- One turn of the loop of `tcp_output`, for the first segment of the `unsent` queue. -/
def sendFirst (pcb : Pcb) (seg : TcpSeg) (unsent : List TcpSeg) : Pcb :=
  let pcb := pcb.clearAck.outputSegment seg
  { pcb with
    unsent := unsent
    sndNxt := if lt pcb.sndNxt seg.next then seg.next else pcb.sndNxt
    unacked := if 0 < seg.tcpLen then putUnacked seg pcb.unacked else pcb.unacked }

/-- The windows and the Nagle algorithm let the segment go. -/
def MaySend (pcb : Pcb) (wnd : ℕ) (seg : TcpSeg) : Prop :=
  pcb.reach seg ≤ wnd ∧
    (pcb.DoOutputNagle ∨ pcb.nagleMemerr = true ∨ pcb.finQueued = true)

instance (pcb : Pcb) (wnd : ℕ) (seg : TcpSeg) : Decidable (pcb.MaySend wnd seg) :=
  inferInstanceAs (Decidable (_ ∧ _))

/-- The loop of `tcp_output`. Every turn takes a segment from `unsent`. -/
def outputLoop (wnd : ℕ) : ℕ → Pcb → Pcb
  | 0, pcb => pcb
  | n + 1, pcb =>
    match pcb.unsent with
    | [] => pcb
    | seg :: unsent =>
      if pcb.MaySend wnd seg then outputLoop wnd n (pcb.sendFirst seg unsent) else pcb

/-- What `tcp_output` does behind its loop. -/
def preparePersist (pcb : Pcb) : Pcb :=
  match pcb.unsent with
  | [] => pcb
  | seg :: _ =>
    if pcb.persist.backoff = 0 ∧ pcb.sndWnd < pcb.reach seg then pcb.setPersist ⟨0, 1⟩ else pcb

/-- An ACK alone is due: what is to be sent is nothing, or does not fit into the windows. -/
def AckAlone (pcb : Pcb) (wnd : ℕ) : Prop :=
  pcb.ackNow = true ∧ ∀ seg ∈ pcb.unsent.head?, wnd < pcb.reach seg

instance (pcb : Pcb) (wnd : ℕ) : Decidable (pcb.AckAlone wnd) :=
  inferInstanceAs (Decidable (_ ∧ _))

/-- `tcp_output`, outside of `tcp_process`. `buf` says whether there is a pbuf for an ACK
alone. -/
def tcpOutput (pcb : Pcb) (buf : Bool) : Pcb :=
  let wnd := min pcb.sndWnd pcb.cong.cwnd
  if pcb.AckAlone wnd then
    if buf then pcb.clearAck.send (pcb.packet pcb.sndNxt [] false false) else pcb
  else ((outputLoop wnd pcb.unsent.length pcb).preparePersist).setNagleMemerr false

/-- `tcp_ack_now` -/
def tcpAckNow (pcb : Pcb) (buf : Bool) : Pcb := pcb.setAckNow.tcpOutput buf

/-- `tcp_rexmit_rto` -/
def tcpRexmitRto (pcb : Pcb) (buf : Bool) : Pcb :=
  if pcb.unacked = [] then pcb
  else
    ((pcb.setQueues (pcb.unacked ++ pcb.unsent) []).setTiming pcb.timing.retry).tcpOutput buf

/-- `tcp_rexmit`, which is called only where `tcp_output` does nothing. -/
def tcpRexmit (pcb : Pcb) : Pcb :=
  match pcb.unacked with
  | [] => pcb
  | seg :: unacked =>
    (pcb.setQueues (insertSeg seg pcb.unsent) unacked).setTiming pcb.timing.retry

/-- `tcp_zero_window_probe`. The byte is the first one of the first segment; `junk` lies
behind the header of one that has none. -/
def tcpZeroWindowProbe (pcb : Pcb) (junk : UInt8) (buf : Bool) : Pcb :=
  match pcb.unacked ++ pcb.unsent with
  | [] => pcb
  | seg :: _ =>
    if buf then pcb.send (pcb.packet seg.seqno [seg.data.headD junk] false false) else pcb

end Pcb

end EthMange.Tcp
