import EthMange.Lib.Serial
import EthMange.Lwip.Window

/-!
# TCP control blocks

The control block of a connection that is established, with its two queues of segments.
Sequence numbers have 32 bits; the other counters are numbers that are cut to the width of
their fields where they can leave it.
-/

namespace EthMange.Tcp

open Serial

abbrev SeqNo := BitVec 32

/-- The states of a connection from `ESTABLISHED` on. In `closed` the block is freed. -/
inductive TcpState
  | established | finWait1 | finWait2 | closeWait | closing | lastAck | timeWait | closed
  deriving DecidableEq, Repr

/-- The states of the blocks on `tcp_active_pcbs`. -/
def TcpState.Active (s : TcpState) : Prop := s ≠ .closed ∧ s ≠ .timeWait

instance (s : TcpState) : Decidable s.Active := inferInstanceAs (Decidable (_ ∧ _))

-- the sizes of `lwipopts.h`

def tcpMss : ℕ := 1460

def tcpSndBuf : ℕ := 2 * tcpMss

def tcpSndQueuelen : ℕ := 6 * tcpSndBuf / tcpMss

/-- `TCP_WND_UPDATE_THRESHOLD` -/
def tcpWndUpdateThreshold : ℕ := tcpWnd / 4

def tcpMaxrtx : ℕ := 12

/-- What one host hands to `ip_output` and the other gets. -/
structure Packet where
  seqno : SeqNo
  ackno : SeqNo
  wnd : ℕ
  syn : Bool
  fin : Bool
  rst : Bool
  psh : Bool
  ack : Bool
  data : Bytes
  deriving DecidableEq, Repr

/-- `struct tcp_seg`: a segment on a queue, with the pbufs that it takes. -/
structure TcpSeg where
  seqno : SeqNo
  data : Bytes
  fin : Bool
  psh : Bool
  clen : ℕ
  deriving DecidableEq, Repr

/-- `TCP_TCPLEN` -/
def tcpLen (data : Bytes) (fin : Bool) : ℕ := data.length + fin.toNat

def TcpSeg.len (seg : TcpSeg) : ℕ := seg.data.length

def TcpSeg.tcpLen (seg : TcpSeg) : ℕ := Tcp.tcpLen seg.data seg.fin

/-- `tcplen`, which counts a SYN as well. -/
def Packet.tcpLen (p : Packet) : ℕ := Tcp.tcpLen p.data (p.fin || p.syn)

/-- The sequence number after a segment. -/
def TcpSeg.next (seg : TcpSeg) : SeqNo := seg.seqno + BitVec.ofNat 32 seg.tcpLen

/-- The retransmission timer and the estimate of the round trip time. -/
structure Timing where
  rtime : Int16
  rttest : BitVec 32
  rtseq : SeqNo
  sa : Int16
  sv : Int16
  rto : Int16
  nrtx : ℕ
  deriving DecidableEq, Repr

/-- Fast retransmit and congestion control; `inFr` is `TF_INFR`. -/
structure Congestion where
  dupacks : ℕ
  cwnd : ℕ
  ssthresh : ℕ
  inFr : Bool
  deriving DecidableEq, Repr

/-- The persist timer. -/
structure Persist where
  cnt : ℕ
  backoff : ℕ
  deriving DecidableEq, Repr

/-- `struct tcp_pcb`, with `tcp_ticks`. Of its flags, `ackDelay`, `ackNow`, `finQueued`,
`nodelay` and `nagleMemerr` are `TF_ACK_DELAY`, `TF_ACK_NOW`, `TF_FIN`, `TF_NODELAY` and
`TF_NAGLEMEMERR`. `sent` lists what was handed to `ip_output`. -/
structure Pcb where
  state : TcpState
  ackDelay : Bool
  ackNow : Bool
  finQueued : Bool
  nodelay : Bool
  nagleMemerr : Bool
  rcvNxt : SeqNo
  rcvWnd : ℕ
  rcvAnnWnd : ℕ
  rcvAnnRightEdge : SeqNo
  ticks : BitVec 32
  tmr : BitVec 32
  mss : ℕ
  timing : Timing
  lastack : SeqNo
  cong : Congestion
  sndNxt : SeqNo
  sndWnd : ℕ
  sndWl1 : SeqNo
  sndWl2 : SeqNo
  sndLbb : SeqNo
  acked : ℕ
  sndBuf : ℕ
  sndQueuelen : ℕ
  unsent : List TcpSeg
  unacked : List TcpSeg
  refusedData : Option (List Bytes)
  persist : Persist
  sent : List Packet
  deriving DecidableEq, Repr

namespace Pcb

/-- `tcp_output_set_header`, and the same fields as `tcp_output_segment` sets them. -/
def packet (pcb : Pcb) (seqno : SeqNo) (data : Bytes) (fin psh : Bool) : Packet :=
  ⟨seqno, pcb.rcvNxt, pcb.rcvAnnWnd, false, fin, false, psh, true, data⟩

/-- A packet leaves: the window that it announces has been announced. -/
def send (pcb : Pcb) (p : Packet) : Pcb :=
  { pcb with
    rcvAnnRightEdge := pcb.rcvNxt + BitVec.ofNat 32 pcb.rcvAnnWnd
    sent := pcb.sent ++ [p] }

/-- `pcb->flags |= TF_ACK_NOW` -/
def setAckNow (pcb : Pcb) : Pcb := { pcb with ackNow := true }

/-- `pcb->flags &= ~(TF_ACK_DELAY | TF_ACK_NOW)` -/
def clearAck (pcb : Pcb) : Pcb := { pcb with ackDelay := false, ackNow := false }

def setNagleMemerr (pcb : Pcb) (b : Bool) : Pcb := { pcb with nagleMemerr := b }

def setTiming (pcb : Pcb) (t : Timing) : Pcb := { pcb with timing := t }

def setCong (pcb : Pcb) (c : Congestion) : Pcb := { pcb with cong := c }

def setPersist (pcb : Pcb) (p : Persist) : Pcb := { pcb with persist := p }

def setState (pcb : Pcb) (s : TcpState) : Pcb := { pcb with state := s }

def setQueues (pcb : Pcb) (unsent unacked : List TcpSeg) : Pcb :=
  { pcb with unsent := unsent, unacked := unacked }

end Pcb

end EthMange.Tcp
