import EthMange.Tcp.Receiver

/-!
# What a sender does

Every call, timer and incoming packet makes some of the steps of `SendStep` on what a control
block has to send and has sent. What these steps keep is kept by the code. Two things are no
such steps: `tcp_enqueue` may put data into a segment that is not the last one of the sequence
space, and the probe for a FIN without data has a byte that nobody has written.
-/

namespace EthMange.Tcp

open Serial

/-- The stream of the host is not closed. -/
def TcpState.Open (s : TcpState) : Prop := s = .established ∨ s = .closeWait

/-- The host has closed its stream with a FIN. -/
def TcpState.Shut (s : TcpState) : Prop := s ≠ .closed ∧ ¬ s.Open

/-- The next turn of the slow timer sends a probe. -/
def Pcb.ProbeDue (pcb : Pcb) : Prop := 0 < pcb.persist.backoff ∧ pcb.persist.tick.2 = true

instance (pcb : Pcb) : Decidable pcb.ProbeDue := inferInstanceAs (Decidable (_ ∧ _))

/-- The probe has a byte of the stream. -/
def Pcb.ProbeHasData (pcb : Pcb) : Prop :=
  pcb.ProbeDue → ∀ seg ∈ (pcb.unacked ++ pcb.unsent).head?, seg.data ≠ []

instance (pcb : Pcb) : Decidable pcb.ProbeHasData := inferInstanceAs (Decidable (_ → _))

/-- New data goes behind the last segment of the sequence space, or into it. -/
def JoinsAtEnd (unsent : List TcpSeg) (lbb : SeqNo) (mss : ℕ) (data : Bytes) : Prop :=
  ∀ useg ∈ unsent.getLast?, useg.fin = false → useg.len + min data.length mss ≤ mss →
    useg.next = lbb

instance (unsent : List TcpSeg) (lbb : SeqNo) (mss : ℕ) (data : Bytes) :
    Decidable (JoinsAtEnd unsent lbb mss data) :=
  inferInstanceAs (Decidable (∀ useg ∈ unsent.getLast?, _ → _ → _))

/-- What the application has written, and what a control block has to send and has sent. -/
structure SendState where
  written : Bytes
  state : TcpState
  finQueued : Bool
  lastack : SeqNo
  sndNxt : SeqNo
  sndLbb : SeqNo
  sndBuf : ℕ
  sndQueuelen : ℕ
  unsent : List TcpSeg
  unacked : List TcpSeg
  sent : List Packet

def Pcb.sender (pcb : Pcb) (written : Bytes) : SendState :=
  ⟨written, pcb.state, pcb.finQueued, pcb.lastack, pcb.sndNxt, pcb.sndLbb, pcb.sndBuf,
    pcb.sndQueuelen, pcb.unsent, pcb.unacked, pcb.sent⟩

section Frame

variable (pcb : Pcb) (w : Bytes)

@[simp] theorem Pcb.setAckNow_sender : pcb.setAckNow.sender w = pcb.sender w := rfl

@[simp] theorem Pcb.clearAck_sender : pcb.clearAck.sender w = pcb.sender w := rfl

@[simp] theorem Pcb.setNagleMemerr_sender (b : Bool) :
    (pcb.setNagleMemerr b).sender w = pcb.sender w := rfl

@[simp] theorem Pcb.setTiming_sender (t : Timing) :
    (pcb.setTiming t).sender w = pcb.sender w := rfl

@[simp] theorem Pcb.setCong_sender (c : Congestion) :
    (pcb.setCong c).sender w = pcb.sender w := rfl

@[simp] theorem Pcb.setPersist_sender (p : Persist) :
    (pcb.setPersist p).sender w = pcb.sender w := rfl

@[simp] theorem Pcb.setRcvAnnWnd_sender (n : ℕ) :
    (pcb.setRcvAnnWnd n).sender w = pcb.sender w := rfl

@[simp] theorem Pcb.setRcvWnd_sender (n : ℕ) : (pcb.setRcvWnd n).sender w = pcb.sender w := rfl

@[simp] theorem Pcb.setRcvNxt_sender (n : SeqNo) : (pcb.setRcvNxt n).sender w = pcb.sender w := rfl

@[simp] theorem Pcb.advance_sender (n : ℕ) : (pcb.advance n).sender w = pcb.sender w := rfl

@[simp] theorem Pcb.setAcked_sender (n : ℕ) : (pcb.setAcked n).sender w = pcb.sender w := rfl

@[simp] theorem Pcb.touch_sender : pcb.touch.sender w = pcb.sender w := rfl

@[simp] theorem Pcb.tick_sender : pcb.tick.sender w = pcb.sender w := rfl

@[simp] theorem Pcb.setState_sender (s : TcpState) :
    (pcb.setState s).sender w = { pcb.sender w with state := s } := rfl

@[simp] theorem Pcb.setQueues_sender (unsent unacked : List TcpSeg) :
    (pcb.setQueues unsent unacked).sender w =
      { pcb.sender w with unsent := unsent, unacked := unacked } := rfl

theorem Pcb.enqueued_sender (unsent : List TcpSeg) (n len : ℕ) (fin : Bool) (w' : Bytes) :
    (pcb.enqueued unsent n len fin).sender w' =
      { pcb.sender w with
        written := w'
        unsent := unsent
        finQueued := pcb.finQueued || fin
        sndLbb := pcb.sndLbb + BitVec.ofNat 32 len
        sndBuf := (pcb.sndBuf + 2 ^ 16 - len) % 2 ^ 16
        sndQueuelen := n } := rfl

@[simp] theorem Pcb.tcpAck_sender : pcb.tcpAck.sender w = pcb.sender w := by
  rw [Pcb.tcpAck]
  split_ifs <;> rfl

@[simp] theorem Pcb.updateWnd_sender (p : Packet) :
    (pcb.updateWnd p).sender w = pcb.sender w := by
  rw [Pcb.updateWnd]
  split_ifs <;> rfl

@[simp] theorem Pcb.preparePersist_sender : pcb.preparePersist.sender w = pcb.sender w := by
  rw [Pcb.preparePersist]
  split
  · rfl
  · split_ifs <;> rfl

@[simp] theorem Pcb.tcpUpdateRcvAnnWnd_sender :
    pcb.tcpUpdateRcvAnnWnd.1.sender w = pcb.sender w := by
  rw [Pcb.tcpUpdateRcvAnnWnd]
  split_ifs <;> rfl

@[simp] theorem Pcb.accept_sender (chain : List Bytes) (fin : Bool) :
    (pcb.accept chain fin).1.sender w = pcb.sender w := by
  rw [Pcb.accept, Pcb.tcpAck_sender, Pcb.tcpUpdateRcvAnnWnd_sender, Pcb.advance_sender]

@[simp] theorem Pcb.receiveData_sender (p : Packet) (chain : List Bytes) (len : ℕ) :
    (pcb.receiveData p chain len).1.sender w = pcb.sender w := by
  rw [Pcb.receiveData]
  split_ifs <;> simp

end Frame

/-- One step of a sender. `A` holds of the acknowledgement numbers that come in, and `B` of
those that go out. -/
inductive SendStep (A B : SeqNo → Prop) (v : SendState) : SendState → Prop
  /-- the first segment of `unsent` is sent -/
  | first {seg : TcpSeg} {unsent : List TcpSeg} (hunsent : v.unsent = seg :: unsent)
      (ack : SeqNo) (wnd : ℕ) (hack : B ack) :
      SendStep A B v
        { v with
          unsent := unsent
          sndNxt := if lt v.sndNxt seg.next then seg.next else v.sndNxt
          unacked := if 0 < seg.tcpLen then putUnacked seg v.unacked else v.unacked
          sent := v.sent ++
            [⟨seg.seqno, ack, wnd, false, seg.fin, false, seg.psh, true, seg.data⟩] }
  | ackAlone (ack : SeqNo) (wnd : ℕ) (hack : B ack) :
      SendStep A B v
        { v with sent := v.sent ++ [⟨v.sndNxt, ack, wnd, false, false, false, false, true, []⟩] }
  | probe {seg : TcpSeg} {b : UInt8} (hseg : seg ∈ v.unacked ++ v.unsent) (hb : [b] <+: seg.data)
      (ack : SeqNo) (wnd : ℕ) (hack : B ack) :
      SendStep A B v
        { v with sent := v.sent ++ [⟨seg.seqno, ack, wnd, false, false, false, false, true, [b]⟩] }
  | reset {seqno : SeqNo} (hseqno : A seqno) (hclosed : v.state = .closed) (ack : SeqNo) :
      SendStep A B v
        { v with sent := v.sent ++ [⟨seqno, ack, tcpWnd, false, false, true, false, true, []⟩] }
  /-- all that was sent is put back -/
  | rto : SendStep A B v { v with unsent := v.unacked ++ v.unsent, unacked := [] }
  | rexmit {seg : TcpSeg} {unacked : List TcpSeg} (hunacked : v.unacked = seg :: unacked) :
      SendStep A B v { v with unsent := insertSeg seg v.unsent, unacked := unacked }
  | newAck {ackno : SeqNo} (hack : A ackno) (hnew : Between ackno (v.lastack + 1) v.sndNxt) :
      SendStep A B v
        { v with
          lastack := ackno
          sndBuf := (v.sndBuf + (ackno - v.lastack).toNat % 2 ^ 16) % 2 ^ 16
          unacked := (freeAcked (fun seg => le seg.next ackno) v.unacked v.sndQueuelen).1
          sndQueuelen := (freeAcked (fun seg => le seg.next ackno) v.unacked v.sndQueuelen).2 }
  | freeUnsent {ackno : SeqNo} (hack : A ackno)
      (hold : ¬ Between ackno (v.lastack + 1) v.sndNxt ∨ v.lastack = ackno) :
      SendStep A B v
        { v with
          unsent := (freeAcked (fun seg => Between ackno seg.next v.sndNxt) v.unsent
            v.sndQueuelen).1
          sndQueuelen := (freeAcked (fun seg => Between ackno seg.next v.sndNxt) v.unsent
            v.sndQueuelen).2 }
  | write {mss : ℕ} {data : Bytes} {queue : List TcpSeg} (copy more : Bool)
      (hopen : v.state.Open)
      (hcut : CutOf v.sndLbb mss false data queue) (hbuf : data.length ≤ v.sndBuf)
      (hlen : v.sndQueuelen + clens queue ≤ tcpSndQueuelen) (hdata : data ≠ [])
      (hjoin : JoinsAtEnd v.unsent v.sndLbb mss data) :
      SendStep A B v
        { v with
          written := v.written ++ data
          unsent := setPush more
            (appendQueue mss copy false v.unsent queue (v.sndQueuelen + clens queue)).1
          sndLbb := v.sndLbb + BitVec.ofNat 32 data.length
          sndBuf := (v.sndBuf + 2 ^ 16 - data.length) % 2 ^ 16
          sndQueuelen :=
            (appendQueue mss copy false v.unsent queue (v.sndQueuelen + clens queue)).2 }
  | close {mss : ℕ} {queue : List TcpSeg} {s : TcpState}
      (hstate : v.state = .established ∧ s = .finWait1 ∨ v.state = .closeWait ∧ s = .lastAck)
      (hcut : CutOf v.sndLbb mss true [] queue)
      (hlen : v.sndQueuelen + clens queue ≤ tcpSndQueuelen) :
      SendStep A B v
        { v with
          state := s
          finQueued := true
          unsent := setPush false (v.unsent ++ queue)
          sndLbb := v.sndLbb + 1
          sndBuf := (v.sndBuf + 2 ^ 16 - 1) % 2 ^ 16
          sndQueuelen := v.sndQueuelen + clens queue }
  /-- the stream is not opened again, nor closed but by a FIN, and a block that was taken off
  its list stays away -/
  | enter {s : TcpState} (hopen : s.Open → v.state.Open) (hactive : s.Active → v.state.Active)
      (hshut : s.Shut → v.state.Shut) : SendStep A B v { v with state := s }
  | purge (hstate : v.state = .timeWait ∨ v.state = .closed) :
      SendStep A B v { v with unsent := [], unacked := [] }

/-- Some steps of a sender. -/
abbrev Sends (A B : SeqNo → Prop) : SendState → SendState → Prop :=
  Relation.ReflTransGen (SendStep A B)

namespace Sends

variable {A B : SeqNo → Prop} {v v' : SendState} {pcb : Pcb} {w : Bytes}

/-- The invariant rule for a sender. -/
theorem invariant {I : SendState → Prop} (hsends : Sends A B v v')
    (hstep : ∀ v v', I v → SendStep A B v v' → I v') (h : I v) : I v' := by
  induction hsends with
  | refl => exact h
  | tail _ hstep' ih => exact hstep _ _ ih hstep'

theorem same (h : v' = v) : Sends A B v v' := h ▸ .refl

section Output

theorem sendFirst (hack : B pcb.rcvNxt) {seg : TcpSeg} {unsent : List TcpSeg}
    (hunsent : pcb.unsent = seg :: unsent) :
    Sends A B (pcb.sender w) ((pcb.sendFirst seg unsent).sender w) :=
  .single (.first (v := pcb.sender w) hunsent pcb.rcvNxt pcb.rcvAnnWnd hack)

theorem outputLoop (hack : B pcb.rcvNxt) (wnd n : ℕ) :
    Sends A B (pcb.sender w) ((Pcb.outputLoop wnd n pcb).sender w) := by
  induction n generalizing pcb with
  | zero => exact .refl
  | succ n ih =>
    rw [Pcb.outputLoop]
    split
    · exact .refl
    · next seg unsent hunsent =>
      split_ifs
      · exact (sendFirst hack hunsent).trans (ih hack)
      · exact .refl

theorem tcpOutput (hack : B pcb.rcvNxt) (buf : Bool) :
    Sends A B (pcb.sender w) ((pcb.tcpOutput buf).sender w) := by
  rw [Pcb.tcpOutput]
  split_ifs
  · exact .single (.ackAlone pcb.rcvNxt pcb.rcvAnnWnd hack)
  · exact .refl
  · rw [Pcb.setNagleMemerr_sender, Pcb.preparePersist_sender]
    exact outputLoop hack _ _

theorem tcpAckNow (hack : B pcb.rcvNxt) (buf : Bool) :
    Sends A B (pcb.sender w) ((pcb.tcpAckNow buf).sender w) := by
  have hnow : B pcb.setAckNow.rcvNxt := hack
  exact tcpOutput hnow buf

theorem tcpRexmitRto (hack : B pcb.rcvNxt) (buf : Bool) :
    Sends A B (pcb.sender w) ((pcb.tcpRexmitRto buf).sender w) := by
  rw [Pcb.tcpRexmitRto]
  split_ifs
  · exact .refl
  · have hack' : B ((pcb.setQueues (pcb.unacked ++ pcb.unsent) []).setTiming
        pcb.timing.retry).rcvNxt := hack
    exact .trans (.single .rto) (tcpOutput hack' buf)

theorem tcpRexmit : Sends A B (pcb.sender w) (pcb.tcpRexmit.sender w) := by
  rw [Pcb.tcpRexmit]
  split
  · exact .refl
  · next seg unacked hunacked => exact .single (.rexmit hunacked)

theorem tcpZeroWindowProbe (hack : B pcb.rcvNxt) (junk : UInt8) (buf : Bool)
    (hdata : ∀ seg ∈ (pcb.unacked ++ pcb.unsent).head?, seg.data ≠ []) :
    Sends A B (pcb.sender w) ((pcb.tcpZeroWindowProbe junk buf).sender w) := by
  rw [Pcb.tcpZeroWindowProbe]
  split
  · exact .refl
  · next seg queue hqueue =>
    split_ifs
    · have hmem : seg ∈ pcb.unacked ++ pcb.unsent := by rw [hqueue]; exact List.mem_cons_self
      have hne : seg.data ≠ [] := hdata seg (by rw [hqueue]; rfl)
      have hb : [seg.data.headD junk] <+: seg.data := by
        cases hd : seg.data with
        | nil => exact absurd hd hne
        | cons b data => exact ⟨data, rfl⟩
      exact .single (.probe hmem hb pcb.rcvNxt pcb.rcvAnnWnd hack)
    · exact .refl

end Output

section Calls

/-- `tcp_write`, with what the application has written then. -/
theorem tcpWrite {data : Bytes} 
    (hjoin : JoinsAtEnd pcb.unsent pcb.sndLbb pcb.mss data) (copy more : Bool) (mem : SegMem) :
    Sends A B (pcb.sender w) ((pcb.tcpWrite data copy more mem).1.sender
      (if (pcb.tcpWrite data copy more mem).2 = .ok then w ++ data else w)) := by
  rw [Pcb.tcpWrite]
  by_cases hstate : pcb.state = .established ∨ pcb.state = .closeWait
  · rw [if_pos hstate]
    by_cases hempty : data = []
    · simpa [hempty] using Relation.ReflTransGen.refl
    · have hfin : false = true → data = [] := fun hf => absurd hf (by simp)
      rw [if_neg hempty]
      obtain ⟨b, err, herr, heq⟩ | ⟨queue, hcut, hbuf, -, hlen, heq⟩ :=
        tcpEnqueue_cases hfin copy more mem
      · rw [heq, if_neg herr]
        exact .refl
      · rw [heq, if_pos rfl, Pcb.enqueued_sender pcb w, Bool.or_false, tcpLen_false]
        exact .single (.write copy more hstate hcut hbuf hlen hempty hjoin)
  · rw [if_neg hstate, if_neg (by simp)]

theorem sendFin {s : TcpState} (hstate : pcb.state = .established ∧ s = .finWait1 ∨
      pcb.state = .closeWait ∧ s = .lastAck) (mem : SegMem) :
    Sends A B (pcb.sender w) ((if (pcb.sendFin mem).2 = .ok then (pcb.sendFin mem).1.setState s
      else (pcb.sendFin mem).1).sender w) := by
  have hfin : true = true → ([] : Bytes) = [] := fun _ => rfl
  have hlen : tcpLen [] true = 1 := rfl
  obtain ⟨b, err, herr, heq⟩ | ⟨queue, hcut, -, -, hqueue, heq⟩ :=
    tcpEnqueue_cases hfin true false mem
  · rw [Pcb.sendFin, heq, if_neg herr]
    exact .refl
  · rw [Pcb.sendFin, heq, if_pos rfl, appendQueue_fin, Pcb.setState_sender,
      Pcb.enqueued_sender pcb w, Bool.or_true, hlen]
    exact .single (.close hstate hcut hqueue)

theorem tcpClose (hack : B pcb.rcvNxt) (mem : SegMem) (buf : Bool) :
    Sends A B (pcb.sender w) ((pcb.tcpClose mem buf).1.sender w) := by
  have hnxt : (pcb.sendFin mem).1.rcvNxt = pcb.rcvNxt :=
    congrArg RecvState.rcvNxt (pcb.tcpEnqueue_receiver [] true true false mem)
  rw [Pcb.tcpClose]
  split
  · next hstate =>
    have hfin := sendFin (A := A) (B := B) (w := w) (.inl ⟨hstate, rfl⟩) mem
    split
    · next pcb' heq =>
      rw [heq, if_pos rfl] at hfin
      rw [heq] at hnxt
      exact hfin.trans (tcpOutput (hnxt ▸ hack) buf)
    · next pcb' err herr heq =>
      rw [heq, if_neg (by simpa using herr)] at hfin
      exact hfin
  · next hstate =>
    have hfin := sendFin (A := A) (B := B) (w := w) (.inr ⟨hstate, rfl⟩) mem
    split
    · next pcb' heq =>
      rw [heq, if_pos rfl] at hfin
      rw [heq] at hnxt
      exact hfin.trans (tcpOutput (hnxt ▸ hack) buf)
    · next pcb' err herr heq =>
      rw [heq, if_neg (by simpa using herr)] at hfin
      exact hfin
  · exact .refl

theorem tcpRecved (hack : B pcb.rcvNxt) (len : ℕ) (buf : Bool) :
    Sends A B (pcb.sender w) ((pcb.tcpRecved len buf).sender w) := by
  set pcb' := pcb.setRcvWnd (EthMange.tcpRecved pcb.rcvWnd len) with hpcb'
  have hsame : pcb'.tcpUpdateRcvAnnWnd.1.sender w = pcb.sender w := by simp [hpcb']
  have hnxt : pcb'.tcpUpdateRcvAnnWnd.1.rcvNxt = pcb.rcvNxt :=
    congrArg RecvState.rcvNxt pcb'.tcpUpdateRcvAnnWnd_receiver
  rw [Pcb.tcpRecved, ← hpcb', ← hsame]
  dsimp only
  split_ifs
  · exact tcpAckNow (hnxt ▸ hack) buf
  · exact .refl

end Calls

section End

theorem purgeClosed : Sends A B (pcb.sender w) ((pcb.tcpPcbPurge.setState .closed).sender w) := by
  refine .head (.enter (s := .closed) (by simp [TcpState.Open]) (by simp [TcpState.Active])
    (by simp [TcpState.Shut])) ?_
  rw [Pcb.tcpPcbPurge]
  split_ifs
  · exact .single (.purge (.inr rfl))
  · exact .refl

theorem sendFirst_setState (s : TcpState) (seg : TcpSeg) (unsent : List TcpSeg) :
    (pcb.setState s).sendFirst seg unsent = (pcb.sendFirst seg unsent).setState s := rfl

/-- `tcp_output` does not look at the state. -/
theorem outputLoop_setState (s : TcpState) (wnd n : ℕ) :
    Pcb.outputLoop wnd n (pcb.setState s) = (Pcb.outputLoop wnd n pcb).setState s := by
  induction n generalizing pcb with
  | zero => rfl
  | succ n ih =>
    rw [Pcb.outputLoop, Pcb.outputLoop, show (pcb.setState s).unsent = pcb.unsent from rfl]
    split
    · rfl
    · next seg unsent hunsent =>
      by_cases hmay : pcb.MaySend wnd seg
      · have hmay' : (pcb.setState s).MaySend wnd seg := hmay
        rw [if_pos hmay, if_pos hmay', sendFirst_setState, ih]
      · have hmay' : ¬ (pcb.setState s).MaySend wnd seg := hmay
        rw [if_neg hmay, if_neg hmay']

theorem tcpOutput_setState (s : TcpState) (buf : Bool) :
    ((pcb.setState s).tcpOutput buf).sender w = ((pcb.tcpOutput buf).setState s).sender w := by
  set pcb' := pcb.setState s with hpcb'
  by_cases halone : pcb.AckAlone (min pcb.sndWnd pcb.cong.cwnd)
  · have halone' : pcb'.AckAlone (min pcb'.sndWnd pcb'.cong.cwnd) := halone
    rw [Pcb.tcpOutput, Pcb.tcpOutput, if_pos halone, if_pos halone']
    split_ifs <;> rfl
  · have halone' : ¬ pcb'.AckAlone (min pcb'.sndWnd pcb'.cong.cwnd) := halone
    rw [Pcb.tcpOutput, Pcb.tcpOutput, if_neg halone, if_neg halone']
    simp only [Pcb.setNagleMemerr_sender, Pcb.preparePersist_sender, Pcb.setState_sender]
    exact congrArg (Pcb.sender · w) (outputLoop_setState s _ _)

theorem tcpPcbRemove (hack : B pcb.rcvNxt) (buf : Bool) :
    Sends A B (pcb.sender w) ((pcb.tcpPcbRemove buf).sender w) := by
  obtain ⟨pcb', hpcb', hnxt, hsends⟩ : ∃ pcb', pcb' = pcb.tcpPcbPurge ∧ B pcb'.rcvNxt ∧
      Sends A B (pcb.sender w) ((pcb'.setState .closed).sender w) := by
    refine ⟨_, rfl, ?_, purgeClosed⟩
    rw [Pcb.tcpPcbPurge]
    split_ifs <;> exact hack
  rw [Pcb.tcpPcbRemove, ← hpcb']
  split_ifs
  · have hout : Sends A B ((pcb'.setState .closed).sender w)
        (((pcb'.setState .closed).tcpAckNow buf).sender w) := by
      have hnxt' : B (pcb'.setState .closed).rcvNxt := hnxt
      exact tcpAckNow hnxt' buf
    exact hsends.trans (hout.trans (same (tcpOutput_setState .closed buf).symm))
  · exact hsends

theorem toTimeWait (hshut : pcb.state.Shut) :
    Sends A B (pcb.sender w) (pcb.toTimeWait.sender w) := by
  refine .head (.enter (s := .timeWait) (by simp [TcpState.Open]) (by simp [TcpState.Active])
    fun _ => hshut) ?_
  rw [Pcb.toTimeWait, Pcb.tcpPcbPurge]
  split_ifs
  · exact .single (.purge (.inl rfl))
  · exact .refl

end End

section Timers

theorem slowtmrSend (hack : B pcb.rcvNxt) (junk : UInt8) (beyond : ℕ) (buf : Bool)
    (hdata : pcb.ProbeHasData) :
    Sends A B (pcb.sender w) ((pcb.slowtmrSend junk beyond buf).sender w) := by
  rw [Pcb.slowtmrSend]
  dsimp only
  split_ifs with hpersist hprobe
  · have hack' : B (pcb.setPersist pcb.persist.tick.1).rcvNxt := hack
    exact tcpZeroWindowProbe hack' junk buf (hdata ⟨hpersist, hprobe⟩)
  · exact .refl
  · generalize hpcb' : ((pcb.setTiming pcb.timing.run).setTiming _).setCong _ = pcb'
    have hsame : pcb'.sender w = pcb.sender w := by simp [← hpcb']
    have hreceiver : pcb'.receiver = pcb.receiver := by simp [← hpcb']
    have hnxt : pcb'.rcvNxt = pcb.rcvNxt := congrArg RecvState.rcvNxt hreceiver
    rw [← hsame]
    exact tcpRexmitRto (hnxt ▸ hack) buf
  · exact .refl

theorem tcpSlowtmr (hack : B pcb.rcvNxt) (junk : UInt8) (beyond : ℕ) (buf : Bool)
    (hdata : pcb.ProbeHasData) :
    Sends A B (pcb.sender w) ((pcb.tcpSlowtmr junk beyond buf).sender w) := by
  have hack' : B pcb.tick.rcvNxt := hack
  have hdata' : pcb.tick.ProbeHasData := hdata
  have hsend : Sends A B (pcb.sender w) ((pcb.tick.slowtmrSend junk beyond buf).sender w) :=
    slowtmrSend hack' junk beyond buf hdata'
  have hpurge : Sends A B (pcb.tick.sender w)
      ((pcb.tick.tcpPcbPurge.setState .closed).sender w) := purgeClosed
  rw [Pcb.tcpSlowtmr]
  dsimp only
  split_ifs
  · exact hpurge
  · exact .refl
  · exact hpurge
  · exact hsend.trans purgeClosed
  · exact hsend

theorem tcpFasttmr (hack : B pcb.rcvNxt) (buf : Bool) :
    Sends A B (pcb.sender w) ((pcb.tcpFasttmr buf).sender w) := by
  rw [Pcb.tcpFasttmr]
  split_ifs
  · exact tcpAckNow hack buf
  · exact .refl

end Timers

section Input

theorem dupAck (edge : SeqNo) : Sends A B (pcb.sender w) ((pcb.dupAck edge).sender w) := by
  rw [Pcb.dupAck]
  dsimp only
  split_ifs
  · generalize hpcb' : (pcb.setAcked 0).setCong _ = pcb'
    have hsame : pcb'.sender w = pcb.sender w := by simp [← hpcb']
    rw [Pcb.setCong_sender, ← hsame]
    exact tcpRexmit
  all_goals simp only [Pcb.setCong_sender, Pcb.setAcked_sender, Relation.ReflTransGen.refl]

theorem newAck {ackno : SeqNo} (hack : A ackno)
    (hnew : Between ackno (pcb.lastack + 1) pcb.sndNxt) :
    Sends A B (pcb.sender w) ((pcb.newAck ackno).sender w) :=
  .single (.newAck (v := pcb.sender w) hack hnew)

theorem freeUnsent {ackno : SeqNo} (hack : A ackno)
    (hold : ¬ Between ackno (pcb.lastack + 1) pcb.sndNxt ∨ pcb.lastack = ackno) :
    Sends A B (pcb.sender w) ((pcb.freeUnsent ackno).sender w) :=
  .single (.freeUnsent (v := pcb.sender w) hack hold)

theorem tcpRexmit_lastack : pcb.tcpRexmit.lastack = pcb.lastack := by
  rw [Pcb.tcpRexmit]
  split <;> rfl

theorem dupAck_lastack (edge : SeqNo) : (pcb.dupAck edge).lastack = pcb.lastack := by
  have hcong (pcb : Pcb) (c : Congestion) : (pcb.setCong c).lastack = pcb.lastack := rfl
  have hacked : (pcb.setAcked 0).lastack = pcb.lastack := rfl
  rw [Pcb.dupAck]
  dsimp only
  split_ifs <;> simp only [hcong, hacked, tcpRexmit_lastack]

theorem receiveAck {p : Packet} (hack : A p.ackno) :
    Sends A B (pcb.sender w) ((pcb.receiveAck p).sender w) := by
  have hwnd : (pcb.updateWnd p).sender w = pcb.sender w := pcb.updateWnd_sender w p
  have hlast : (pcb.updateWnd p).lastack = pcb.lastack := congrArg SendState.lastack hwnd
  rw [Pcb.receiveAck, Pcb.setTiming_sender, ← hwnd]
  split_ifs with hdup hnew
  · exact (dupAck _).trans (freeUnsent hack (.inr ((dupAck_lastack _).trans hdup)))
  · exact (newAck hack hnew).trans (freeUnsent hack (.inr rfl))
  · exact freeUnsent hack (.inl hnew)

theorem tcpReceive {p : Packet} (hack : A p.ackno) (chain : List Bytes) :
    Sends A B (pcb.sender w) ((pcb.tcpReceive p chain).1.sender w) := by
  obtain ⟨pcb', hpcb', hsends⟩ : ∃ pcb', pcb' = (if p.ack = true then pcb.receiveAck p else pcb) ∧
      Sends A B (pcb.sender w) (pcb'.sender w) := by
    refine ⟨_, rfl, ?_⟩
    split_ifs
    · exact receiveAck hack
    · exact .refl
  rw [Pcb.tcpReceive, ← hpcb']
  split_ifs
  · rw [Pcb.receiveData_sender]
    exact hsends
  · exact hsends
  · exact hsends

theorem follow (p : Packet) (r : RecvFlags) :
    Sends A B (pcb.sender w) ((pcb.follow p r).1.sender w) := by
  have hackNow : Sends A B (pcb.sender w) (pcb.setAckNow.sender w) := .refl
  have hcloseWait (hopen : pcb.state.Open) :
      Sends A B (pcb.sender w) ((pcb.setState .closeWait).sender w) := by
    refine .single (.enter (s := .closeWait) (fun _ => hopen) (fun _ => ?_)
      fun hshut => absurd (.inr rfl) hshut.2)
    obtain hs | hs := hopen <;> simp [TcpState.Active, Pcb.sender, hs]
  have henter {s : TcpState} (hopen : ¬ s.Open) (hactive : pcb.state.Active)
      (hshut : pcb.state.Shut) : Sends A B (pcb.sender w) ((pcb.setState s).sender w) :=
    .single (.enter (fun hs => absurd hs hopen) (fun _ => hactive) fun _ => hshut)
  rw [Pcb.follow]
  split
  · next hstate =>
    split_ifs
    · exact hcloseWait (.inl hstate)
    · exact .refl
  · next hstate =>
    split_ifs
    · exact hcloseWait (.inr hstate)
    · exact .refl
  · next hstate =>
    have hactive : pcb.state.Active := by simp [TcpState.Active, hstate]
    have hshut : pcb.state.Shut := by simp [TcpState.Shut, TcpState.Open, hstate]
    split_ifs
    · exact hackNow.trans (toTimeWait hshut)
    · exact henter (by simp [TcpState.Open]) hactive hshut
    · exact henter (by simp [TcpState.Open]) hactive hshut
    · exact .refl
  · next hstate =>
    have hshut : pcb.state.Shut := by simp [TcpState.Shut, TcpState.Open, hstate]
    split_ifs
    · exact hackNow.trans (toTimeWait hshut)
    · exact .refl
  · next hstate =>
    have hshut : pcb.state.Shut := by simp [TcpState.Shut, TcpState.Open, hstate]
    split_ifs
    · exact toTimeWait hshut
    · exact .refl
  · split_ifs <;> exact .refl
  · exact .refl
  · exact .refl

theorem tcpProcess {p : Packet} (hack : p.rst = true ∨ A p.ackno) (chain : List Bytes) :
    Sends A B (pcb.sender w) ((pcb.tcpProcess p chain).1.sender w) := by
  rw [Pcb.tcpProcess]
  split_ifs with hrst
  · exact .refl
  · exact .refl
  · exact .refl
  · have hack := hack.resolve_left hrst
    have hreceive : Sends A B (pcb.touch.sender w) ((pcb.touch.tcpReceive p chain).1.sender w) :=
      tcpReceive hack chain
    exact hreceive.trans (follow p _)

theorem tcpTimewaitInput {p : Packet} (buf : Bool)
    (hack : B (pcb.tcpTimewaitInput p buf).rcvNxt) :
    Sends A B (pcb.sender w) ((pcb.tcpTimewaitInput p buf).sender w) := by
  obtain ⟨pcb', hpcb', hsame⟩ : ∃ pcb', pcb' =
      (if le (p.seqno + BitVec.ofNat 32 p.tcpLen) pcb.rcvNxt then pcb
        else pcb.setRcvNxt (p.seqno + BitVec.ofNat 32 p.tcpLen)) ∧
      pcb'.sender w = pcb.sender w :=
    ⟨_, rfl, by split_ifs <;> rfl⟩
  rw [Pcb.tcpTimewaitInput, ← hpcb'] at hack ⊢
  rw [Pcb.tcpOutput_rcvNxt] at hack
  rw [← hsame]
  split_ifs at hack ⊢
  · have hnow : B pcb'.rcvNxt := by rwa [Pcb.tcpAckNow_rcvNxt] at hack
    exact (tcpAckNow hnow buf).trans (tcpOutput hack buf)
  · exact tcpOutput hack buf

theorem tcpInput {p : Packet} (hackno : p.rst = true ∨ A p.ackno) (chain : List Bytes)
    (buf : Bool) (hack : B (pcb.tcpInput p chain buf).1.rcvNxt) :
    Sends A B (pcb.sender w) ((pcb.tcpInput p chain buf).1.sender w) := by
  have hprocess : Sends A B (pcb.sender w) ((pcb.tcpProcess p chain).1.sender w) :=
    tcpProcess hackno chain
  rw [Pcb.tcpInput] at hack ⊢
  split at hack
  · next hstate =>
    dsimp only
    split_ifs with hrst
    · exact .refl
    · rw [Pcb.tcpRst]
      split_ifs
      · exact .single (.reset (hackno.resolve_left hrst) hstate _)
      · exact .refl
  · exact tcpTimewaitInput buf hack
  · rcases hresult : pcb.tcpProcess p chain with ⟨pcb', r⟩
    rw [hresult] at hprocess hack
    dsimp only at hack ⊢
    split_ifs at hack ⊢
    · exact .refl
    · have hnxt : B pcb'.rcvNxt := by rwa [Pcb.tcpPcbRemove_rcvNxt] at hack
      exact hprocess.trans (tcpPcbRemove hnxt buf)
    · exact hprocess

end Input

end Sends

end EthMange.Tcp
