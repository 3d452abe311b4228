import EthMange.Tcp.Queues

/-!
# The stream that a host receives

What `tcp_receive` makes of a segment that carries a piece of the stream of the peer: it
takes nothing, or the next bytes of the stream.
-/

namespace EthMange.Tcp

open Serial

/-- What a control block has received. -/
structure RecvState where
  state : TcpState
  rcvNxt : SeqNo
  rcvWnd : ℕ
  refusedData : Option (List Bytes)

def Pcb.receiver (pcb : Pcb) : RecvState := ⟨pcb.state, pcb.rcvNxt, pcb.rcvWnd, pcb.refusedData⟩

section Frame

variable (pcb : Pcb)

@[simp] theorem Pcb.setAckNow_receiver : pcb.setAckNow.receiver = pcb.receiver := rfl

@[simp] theorem Pcb.clearAck_receiver : pcb.clearAck.receiver = pcb.receiver := rfl

@[simp] theorem Pcb.setNagleMemerr_receiver (b : Bool) :
    (pcb.setNagleMemerr b).receiver = pcb.receiver := rfl

@[simp] theorem Pcb.setTiming_receiver (t : Timing) :
    (pcb.setTiming t).receiver = pcb.receiver := rfl

@[simp] theorem Pcb.setCong_receiver (c : Congestion) :
    (pcb.setCong c).receiver = pcb.receiver := rfl

@[simp] theorem Pcb.setPersist_receiver (p : Persist) :
    (pcb.setPersist p).receiver = pcb.receiver := rfl

@[simp] theorem Pcb.setRcvAnnWnd_receiver (n : ℕ) :
    (pcb.setRcvAnnWnd n).receiver = pcb.receiver := rfl

@[simp] theorem Pcb.setAcked_receiver (n : ℕ) : (pcb.setAcked n).receiver = pcb.receiver := rfl

@[simp] theorem Pcb.touch_receiver : pcb.touch.receiver = pcb.receiver := rfl

@[simp] theorem Pcb.tick_receiver : pcb.tick.receiver = pcb.receiver := rfl

@[simp] theorem Pcb.setQueues_receiver (unsent unacked : List TcpSeg) :
    (pcb.setQueues unsent unacked).receiver = pcb.receiver := rfl

@[simp] theorem Pcb.send_receiver (p : Packet) : (pcb.send p).receiver = pcb.receiver := rfl

@[simp] theorem Pcb.setState_receiver (s : TcpState) :
    (pcb.setState s).receiver = { pcb.receiver with state := s } := rfl

@[simp] theorem Pcb.setRcvWnd_receiver (n : ℕ) :
    (pcb.setRcvWnd n).receiver = { pcb.receiver with rcvWnd := n } := rfl

@[simp] theorem Pcb.enqueued_receiver (unsent : List TcpSeg) (n len : ℕ) (fin : Bool) :
    (pcb.enqueued unsent n len fin).receiver = pcb.receiver := rfl

@[simp] theorem Pcb.newAck_receiver (ackno : SeqNo) :
    (pcb.newAck ackno).receiver = pcb.receiver := rfl

@[simp] theorem Pcb.freeUnsent_receiver (ackno : SeqNo) :
    (pcb.freeUnsent ackno).receiver = pcb.receiver := rfl

@[simp] theorem Pcb.sendFirst_receiver (seg : TcpSeg) (unsent : List TcpSeg) :
    (pcb.sendFirst seg unsent).receiver = pcb.receiver := rfl

@[simp] theorem Pcb.tcpAck_receiver : pcb.tcpAck.receiver = pcb.receiver := by
  rw [Pcb.tcpAck]
  split_ifs <;> rfl

@[simp] theorem Pcb.updateWnd_receiver (p : Packet) :
    (pcb.updateWnd p).receiver = pcb.receiver := by
  rw [Pcb.updateWnd]
  split_ifs <;> rfl

@[simp] theorem Pcb.preparePersist_receiver : pcb.preparePersist.receiver = pcb.receiver := by
  rw [Pcb.preparePersist]
  split
  · rfl
  · split_ifs <;> rfl

@[simp] theorem Pcb.tcpUpdateRcvAnnWnd_receiver :
    pcb.tcpUpdateRcvAnnWnd.1.receiver = pcb.receiver := by
  rw [Pcb.tcpUpdateRcvAnnWnd]
  split_ifs <;> rfl

@[simp] theorem Pcb.outputLoop_receiver (wnd n : ℕ) (pcb : Pcb) :
    (Pcb.outputLoop wnd n pcb).receiver = pcb.receiver := by
  induction n generalizing pcb with
  | zero => rfl
  | succ n ih =>
    rw [Pcb.outputLoop]
    split
    · rfl
    · split_ifs
      · rw [ih, Pcb.sendFirst_receiver]
      · rfl

@[simp] theorem Pcb.tcpOutput_receiver (buf : Bool) :
    (pcb.tcpOutput buf).receiver = pcb.receiver := by
  rw [Pcb.tcpOutput]
  split_ifs <;> simp

@[simp] theorem Pcb.tcpAckNow_receiver (buf : Bool) :
    (pcb.tcpAckNow buf).receiver = pcb.receiver := by
  simp [Pcb.tcpAckNow]

@[simp] theorem Pcb.tcpOutput_rcvNxt (buf : Bool) : (pcb.tcpOutput buf).rcvNxt = pcb.rcvNxt :=
  congrArg RecvState.rcvNxt (pcb.tcpOutput_receiver buf)

@[simp] theorem Pcb.tcpAckNow_rcvNxt (buf : Bool) : (pcb.tcpAckNow buf).rcvNxt = pcb.rcvNxt :=
  congrArg RecvState.rcvNxt (pcb.tcpAckNow_receiver buf)

@[simp] theorem Pcb.tcpPcbPurge_rcvNxt : pcb.tcpPcbPurge.rcvNxt = pcb.rcvNxt := by
  rw [Pcb.tcpPcbPurge]
  split_ifs <;> rfl

@[simp] theorem Pcb.tcpPcbRemove_rcvNxt (buf : Bool) :
    (pcb.tcpPcbRemove buf).rcvNxt = pcb.rcvNxt := by
  obtain ⟨pcb', hpcb', hnxt⟩ : ∃ pcb', pcb' = pcb.tcpPcbPurge ∧ pcb'.rcvNxt = pcb.rcvNxt :=
    ⟨_, rfl, pcb.tcpPcbPurge_rcvNxt⟩
  rw [Pcb.tcpPcbRemove, ← hpcb', ← hnxt]
  split_ifs
  · exact pcb'.tcpAckNow_rcvNxt buf
  · rfl

@[simp] theorem Pcb.tcpRexmitRto_receiver (buf : Bool) :
    (pcb.tcpRexmitRto buf).receiver = pcb.receiver := by
  rw [Pcb.tcpRexmitRto]
  split_ifs <;> simp

@[simp] theorem Pcb.tcpRexmit_receiver : pcb.tcpRexmit.receiver = pcb.receiver := by
  rw [Pcb.tcpRexmit]
  split <;> simp

@[simp] theorem Pcb.tcpZeroWindowProbe_receiver (junk : UInt8) (buf : Bool) :
    (pcb.tcpZeroWindowProbe junk buf).receiver = pcb.receiver := by
  rw [Pcb.tcpZeroWindowProbe]
  split
  · rfl
  · split_ifs <;> rfl

@[simp] theorem Pcb.slowtmrSend_receiver (junk : UInt8) (beyond : ℕ) (buf : Bool) :
    (pcb.slowtmrSend junk beyond buf).receiver = pcb.receiver := by
  rw [Pcb.slowtmrSend]
  dsimp only
  split_ifs <;> simp

@[simp] theorem Pcb.dupAck_receiver (edge : SeqNo) : (pcb.dupAck edge).receiver = pcb.receiver := by
  rw [Pcb.dupAck]
  dsimp only
  split_ifs <;> simp

@[simp] theorem Pcb.receiveAck_receiver (p : Packet) :
    (pcb.receiveAck p).receiver = pcb.receiver := by
  rw [Pcb.receiveAck]
  rw [Pcb.setTiming_receiver, Pcb.freeUnsent_receiver]
  split_ifs <;> simp

@[simp] theorem Pcb.tcpEnqueue_receiver (data : Bytes) (fin copy more : Bool) (mem : SegMem) :
    (pcb.tcpEnqueue data fin copy more mem).1.receiver = pcb.receiver := by
  rw [Pcb.tcpEnqueue]
  split_ifs
  · rfl
  · rfl
  · rfl
  · split <;> rfl

@[simp] theorem Pcb.tcpWrite_receiver (data : Bytes) (copy more : Bool) (mem : SegMem) :
    (pcb.tcpWrite data copy more mem).1.receiver = pcb.receiver := by
  rw [Pcb.tcpWrite]
  split_ifs <;> simp

end Frame

section Chain

theorem trimFront_flatten {chain : List Bytes} {off : ℕ} (h : off ≤ chain.flatten.length) :
    (trimFront chain off).flatten = chain.flatten.drop off := by
  induction chain generalizing off with
  | nil => simp [trimFront]
  | cons p chain ih =>
    rw [List.flatten_cons, List.length_append] at h
    rw [trimFront, List.flatten_cons, List.drop_append]
    split_ifs with hlt
    · rw [List.flatten_cons, List.nil_append, ih (by omega),
        List.drop_eq_nil_of_le (Nat.le_of_lt hlt), List.nil_append]
    · rw [List.flatten_cons, Nat.sub_eq_zero_of_le (by omega), List.drop_zero]

theorem shrink_flatten {chain : List Bytes} {n : ℕ} (h : n ≤ chain.flatten.length) :
    (shrink chain n).flatten = chain.flatten.take n := by
  induction chain generalizing n with
  | nil => simp [shrink]
  | cons q chain ih =>
    rw [List.flatten_cons, List.length_append] at h
    rw [shrink, List.flatten_cons, List.take_append]
    split_ifs with hlt
    · rw [List.flatten_cons, ih (by omega), List.take_of_length_le (Nat.le_of_lt hlt)]
    · rw [List.flatten_singleton, Nat.sub_eq_zero_of_le (by omega), List.take_zero,
        List.append_nil]

theorem pbufRealloc_flatten (chain : List Bytes) (n : ℕ) :
    (pbufRealloc chain n).flatten = chain.flatten.take n := by
  rw [pbufRealloc, totLen]
  split_ifs with hle
  · rw [List.take_of_length_le hle]
  · exact shrink_flatten (by omega)

end Chain

/-- The data that `tcp_receive` hands on. -/
def RecvFlags.data (r : RecvFlags) : Bytes := (r.recvData.getD []).flatten

@[simp] theorem RecvFlags.none_data : RecvFlags.none.data = [] := rfl

/-- From the place `r` on the piece `d` of the stream `w` is taken, with the end of the
stream if `f` says so. -/
structure Takes (o : SeqNo) (w : Bytes) (c : Bool) (r : ℕ) (v v' : RecvState) (flags : RecvFlags)
    (d : Bytes) (f : Bool) : Prop where
  next : v'.rcvNxt = pos o (r + tcpLen d f)
  within : r + tcpLen d f ≤ tcpLen w c
  piece : d <+: w.drop r
  last : f = true → r + d.length = w.length
  wnd : v'.rcvWnd + tcpLen d f = v.rcvWnd
  data : flags.data = d
  fin : flags.gotFin = f
  alive : flags.reset = false ∧ flags.closed = false
  state : v'.state = v.state
  refused : v'.refusedData = v.refusedData

namespace Takes

variable {o : SeqNo} {w : Bytes} {c : Bool} {r : ℕ} {v v' : RecvState}

theorem nothing (hnxt : v.rcvNxt = pos o r) (hr : r ≤ tcpLen w c) :
    Takes o w c r v v .none [] false :=
  ⟨hnxt, hr, List.nil_prefix, fun hf => absurd hf (by simp), rfl, rfl, rfl,
    ⟨rfl, rfl⟩, rfl, rfl⟩

end Takes

section Receive

variable {o : SeqNo} {w : Bytes} {c : Bool} {r : ℕ} {pcb : Pcb}

theorem accept_takes (hnxt : pcb.rcvNxt = pos o r) {chain : List Bytes} {fin : Bool}
    (hpiece : chain.flatten <+: w.drop r) (hwithin : r + tcpLen chain.flatten fin ≤ tcpLen w c)
    (hlast : fin = true → r + chain.flatten.length = w.length) :
    ∃ d f, Takes o w c r pcb.receiver (pcb.accept chain fin).1.receiver (pcb.accept chain fin).2
      d f := by
  -- what is left of the segment once it is cut to the window
  obtain ⟨chain', f, heq, hsub, hfin, hwnd⟩ : ∃ chain' f,
      pcb.accept chain fin =
        ((pcb.advance (tcpLen chain'.flatten f)).tcpUpdateRcvAnnWnd.1.tcpAck,
          ⟨if 0 < totLen chain' then some chain' else none, f, false, false⟩) ∧
      chain'.flatten <+: chain.flatten ∧ (f = true → fin = true ∧ chain' = chain) ∧
      tcpLen chain'.flatten f ≤ pcb.rcvWnd := by
    by_cases hover : pcb.rcvWnd < tcpLen chain.flatten fin
    · refine ⟨pbufRealloc chain pcb.rcvWnd, false, ?_, ?_, by simp, ?_⟩
      · simp only [Pcb.accept, if_pos hover]
      · rw [pbufRealloc_flatten]
        exact List.take_prefix _ _
      · rw [pbufRealloc_flatten, tcpLen_false]
        exact List.length_take_le _ _
    · refine ⟨chain, fin, ?_, List.prefix_rfl, fun hf => ⟨hf, rfl⟩, not_lt.mp hover⟩
      simp only [Pcb.accept, if_neg hover]
  have hlen : tcpLen chain'.flatten f ≤ tcpLen chain.flatten fin := by
    cases f with
    | false => exact hsub.length_le.trans (Nat.le_add_right _ _)
    | true =>
      obtain ⟨rfl, rfl⟩ := hfin rfl
      exact le_rfl
  have hdata : RecvFlags.data ⟨if 0 < totLen chain' then some chain' else none, f, false, false⟩ =
      chain'.flatten := by
    rw [RecvFlags.data]
    dsimp only
    split_ifs with hpos
    · rfl
    · rw [totLen] at hpos
      rw [List.eq_nil_of_length_eq_zero (by omega : chain'.flatten.length = 0)]
      rfl
  rw [heq]
  refine ⟨chain'.flatten, f, ?_⟩
  rw [Pcb.tcpAck_receiver, Pcb.tcpUpdateRcvAnnWnd_receiver]
  refine ⟨?_, by omega, hsub.trans hpiece, fun hf => ?_, ?_, hdata, rfl, ⟨rfl, rfl⟩, rfl, rfl⟩
  · change pcb.rcvNxt + _ = _
    rw [hnxt, pos_add]
  · obtain ⟨hended, rfl⟩ := hfin hf
    exact hlast hended
  · change pcb.rcvWnd - _ + _ = pcb.rcvWnd
    omega

/-- A segment that starts before `rcv_nxt` and goes on behind it loses its first bytes; any
other that is not at `rcv_nxt` is dropped. -/
theorem receiveData_takes (hnxt : pcb.rcvNxt = pos o r) (hr : r ≤ tcpLen w c)
    (hbound : tcpLen w c < 2 ^ 31) {p : Packet} {chain : List Bytes}
    (hchain : chain.flatten = p.data) (hp : Carries o w c p.seqno p.data p.fin)
    (hpos : 0 < tcpLen p.data p.fin) :
    ∃ d f, Takes o w c r pcb.receiver
      (pcb.receiveData p chain (tcpLen p.data p.fin)).1.receiver
      (pcb.receiveData p chain (tcpLen p.data p.fin)).2 d f := by
  obtain ⟨n, hseqno, hwithin, hpiece, hlast⟩ := hp
  set len := tcpLen p.data p.fin with hlen
  have htrim : Between pcb.rcvNxt (p.seqno + 1) (p.seqno + BitVec.ofNat 32 len - 1) ↔
      n < r ∧ r < n + len := by
    obtain ⟨k, hk⟩ : ∃ k, len = k + 1 := ⟨len - 1, by omega⟩
    rw [hnxt, hseqno, pos_succ, pos_add, hk, ← Nat.add_assoc, pos_sub_one,
      between_pos_iff o (by omega) (by omega) (by omega) (by omega)]
    omega
  obtain ⟨pcb', hpcb', hrec⟩ : ∃ pcb', pcb' =
      (if ¬ Between pcb.rcvNxt (p.seqno + 1) (p.seqno + BitVec.ofNat 32 len - 1) ∧
        lt p.seqno pcb.rcvNxt then pcb.setAckNow else pcb) ∧ pcb'.receiver = pcb.receiver :=
    ⟨_, rfl, by split_ifs <;> rfl⟩
  have hnxt' : pcb'.rcvNxt = pos o r := (congrArg RecvState.rcvNxt hrec).trans hnxt
  rw [Pcb.receiveData, ← hpcb', ← hrec]
  by_cases h : n < r ∧ r < n + len
  · rw [if_pos (htrim.mpr h), if_pos (htrim.mpr h)]
    have hoff : (pcb.rcvNxt - p.seqno).toNat = r - n := by
      rw [hnxt, hseqno, toNat_pos_sub o (by omega) (by omega)]
    have hfront : (trimFront chain (pcb.rcvNxt - p.seqno).toNat).flatten = p.data.drop (r - n) := by
      rw [hoff, trimFront_flatten, hchain]
      rw [hchain]
      have : len ≤ p.data.length + 1 := by rw [hlen]; cases p.fin <;> simp [tcpLen]
      omega
    split_ifs
    · refine accept_takes hnxt' ?_ ?_ ?_
      · rw [hfront]
        have := hpiece.drop (r - n)
        rwa [List.drop_drop, show n + (r - n) = r by omega] at this
      · rw [hfront]
        have hone := Bool.toNat_le p.fin
        simp only [tcpLen, List.length_drop] at hwithin hlen ⊢
        omega
      · intro hf
        rw [hfront, List.length_drop]
        have := hlast hf
        simp only [tcpLen, hf, Bool.toNat_true] at hlen
        omega
    · exact ⟨[], false, .nothing hnxt' hr⟩
  · rw [if_neg (fun hb => h (htrim.mp hb)), if_neg (fun hb => h (htrim.mp hb))]
    split_ifs with hin
    · have hn : n = r := by
        have heq := hin.2
        rw [hnxt', hseqno, pos_inj o (by omega) (by omega)] at heq
        exact heq.symm
      subst hn
      exact accept_takes hnxt' (by rwa [hchain]) (by rwa [hchain]) (by rwa [hchain])
    · exact ⟨[], false, .nothing hnxt' hr⟩

end Receive

section Input

variable {o : SeqNo} {w : Bytes} {c : Bool} {r : ℕ} {pcb : Pcb} {p : Packet} {chain : List Bytes}

theorem tcpReceive_takes (hnxt : pcb.rcvNxt = pos o r) (hr : r ≤ tcpLen w c)
    (hbound : tcpLen w c < 2 ^ 31) (hchain : chain.flatten = p.data) (hsyn : p.syn = false)
    (hp : Carries o w c p.seqno p.data p.fin) :
    ∃ d f, Takes o w c r pcb.receiver (pcb.tcpReceive p chain).1.receiver
      (pcb.tcpReceive p chain).2 d f := by
  obtain ⟨pcb', hpcb', hrec⟩ : ∃ pcb', pcb' = (if p.ack = true then pcb.receiveAck p else pcb) ∧
      pcb'.receiver = pcb.receiver :=
    ⟨_, rfl, by split_ifs <;> simp⟩
  have hnxt' : pcb'.rcvNxt = pos o r := (congrArg RecvState.rcvNxt hrec).trans hnxt
  have hlen : p.tcpLen = tcpLen p.data p.fin := by rw [Packet.tcpLen, hsyn, Bool.or_false]
  rw [Pcb.tcpReceive, ← hpcb', ← hrec, hlen]
  split_ifs with hpos
  · exact receiveData_takes hnxt' hr hbound hchain hp hpos
  · exact ⟨[], false, .nothing hnxt' hr⟩
  · exact ⟨[], false, .nothing hnxt' hr⟩

theorem tcpPcbPurge_receiver (h : pcb.refusedData = none) :
    pcb.tcpPcbPurge.receiver = pcb.receiver := by
  rw [Pcb.tcpPcbPurge]
  split_ifs
  · simp only [Pcb.receiver, h]
  · rfl

/-- The peer has closed its stream. -/
def TcpState.GotFin (s : TcpState) : Prop :=
  s = .closeWait ∨ s = .closing ∨ s = .lastAck ∨ s = .timeWait

/-- Only the state changes, for a FIN; in `LAST_ACK` the connection may be closed. -/
theorem follow_receiver (h : pcb.refusedData = none) (flags : RecvFlags) :
    (∃ s, (pcb.follow p flags).1.receiver = { pcb.receiver with state := s } ∧
      (s.GotFin → pcb.state.GotFin ∨ flags.gotFin = true)) ∧
      ((pcb.follow p flags).2 = flags ∨
        pcb.state = .lastAck ∧ (pcb.follow p flags).2.closed = true) := by
  have hpurge : pcb.tcpPcbPurge.receiver = pcb.receiver := tcpPcbPurge_receiver h
  have hpurgeAck : pcb.setAckNow.tcpPcbPurge.receiver = pcb.receiver := tcpPcbPurge_receiver h
  rw [Pcb.follow]
  split
  all_goals rename_i hstate
  all_goals try split_ifs
  all_goals simp only [Pcb.toTimeWait, Pcb.setState_receiver, hpurge, hpurgeAck, hstate,
    Pcb.setAckNow_receiver, true_or, or_true, and_true, true_and]
  all_goals refine ⟨_, rfl, ?_⟩
  all_goals simp_all [TcpState.GotFin]

/-- What `tcp_input` may do to an end of a connection, and what it hands on. -/
inductive InputResult (o : SeqNo) (w : Bytes) (c : Bool) (r : ℕ) (v : RecvState) :
    RecvState → RecvFlags → Prop
  | same : InputResult o w c r v v .none
  | gone {v' : RecvState} (hstate : v'.state = .closed) (hnxt : v'.rcvNxt = v.rcvNxt) :
      InputResult o w c r v v' .none
  | taken {v' : RecvState} {flags : RecvFlags} {d : Bytes} {f : Bool} (s : TcpState)
      (hactive : v.state.Active) (hrefused : v.refusedData = none)
      (hended : s.GotFin → v.state.GotFin ∨ f = true) (h : Takes o w c r v v' flags d f) :
      InputResult o w c r v { v' with state := s } flags

theorem InputResult.alive {v v' : RecvState} {flags : RecvFlags}
    (h : InputResult o w c r v v' flags) : flags.reset = false ∧ flags.closed = false := by
  cases h with
  | same => exact ⟨rfl, rfl⟩
  | gone => exact ⟨rfl, rfl⟩
  | taken _ _ _ _ h => exact h.alive

theorem tcpProcess_result (hactive : pcb.state.Active) (hrefused : pcb.refusedData = none)
    (hnxt : pcb.rcvNxt = pos o r) (hr : r ≤ tcpLen w c) (hbound : tcpLen w c < 2 ^ 31)
    (hended : pcb.state.GotFin → r = tcpLen w c) (hchain : chain.flatten = p.data)
    (hp : p.syn = false ∧ Carries o w c p.seqno p.data p.fin) :
    ((pcb.tcpProcess p chain).2.reset = true ∨ (pcb.tcpProcess p chain).2.closed = true) ∧
        (pcb.tcpProcess p chain).1.rcvNxt = pcb.rcvNxt ∨
      InputResult o w c r pcb.receiver (pcb.tcpProcess p chain).1.receiver
        (pcb.tcpProcess p chain).2 := by
  rw [Pcb.tcpProcess]
  split_ifs with hrst hin hsyn
  · exact .inl ⟨.inl rfl, rfl⟩
  · exact .inr .same
  · exact .inr .same
  · have hnxt' : pcb.touch.rcvNxt = pos o r := hnxt
    obtain ⟨d, f, htakes⟩ := tcpReceive_takes hnxt' hr hbound hchain hp.1 hp.2
    have href : (pcb.touch.tcpReceive p chain).1.refusedData = none :=
      htakes.refused.trans hrefused
    obtain ⟨⟨s, hs, hgotFin⟩, hflags | ⟨hlast, hclosed⟩⟩ :=
      follow_receiver (p := p) href (pcb.touch.tcpReceive p chain).2
    · refine .inr ?_
      dsimp only
      rw [hs, hflags]
      refine .taken s hactive hrefused (fun hs => ?_) htakes
      have hstate : (pcb.touch.tcpReceive p chain).1.state = pcb.state := htakes.state
      rw [hstate, htakes.fin] at hgotFin
      exact hgotFin hs
    · refine .inl ⟨.inr hclosed, ?_⟩
      have hstate : pcb.state = .lastAck := htakes.state.symm.trans hlast
      have hall := hended (.inr (.inr (.inl hstate)))
      have hwithin := htakes.within
      have hnext : (pcb.touch.tcpReceive p chain).1.rcvNxt = pos o (r + tcpLen d f) := htakes.next
      rw [show tcpLen d f = 0 by omega, Nat.add_zero] at hnext
      exact (congrArg RecvState.rcvNxt hs).trans (hnext.trans hnxt.symm)

theorem tcpTimewaitInput_receiver (hnxt : pcb.rcvNxt = pos o r) (hr : r = tcpLen w c)
    (hbound : tcpLen w c < 2 ^ 31)
    (hp : p.syn = false ∧ Carries o w c p.seqno p.data p.fin) (buf : Bool) :
    (pcb.tcpTimewaitInput p buf).receiver = pcb.receiver := by
  obtain ⟨hsyn, n, hseqno, hwithin, -, -⟩ := hp
  have hlen : p.tcpLen = tcpLen p.data p.fin := by rw [Packet.tcpLen, hsyn, Bool.or_false]
  have hle : le (p.seqno + BitVec.ofNat 32 p.tcpLen) pcb.rcvNxt := by
    rw [hnxt, hseqno, pos_add, hlen, le_pos_iff o (by omega) (by omega)]
    omega
  rw [Pcb.tcpTimewaitInput, if_pos hle]
  split_ifs <;> simp

@[simp] theorem tcpRst_receiver (buf : Bool) : (pcb.tcpRst p buf).receiver = pcb.receiver := by
  rw [Pcb.tcpRst]
  split_ifs <;> rfl

theorem tcpInput_result (hnxt : pcb.rcvNxt = pos o r) (hr : r ≤ tcpLen w c)
    (hbound : tcpLen w c < 2 ^ 31) (hended : pcb.state.GotFin → r = tcpLen w c)
    (hchain : chain.flatten = p.data)
    (hp : p.syn = false ∧ Carries o w c p.seqno p.data p.fin) (buf : Bool) :
    InputResult o w c r pcb.receiver (pcb.tcpInput p chain buf).1.receiver
      (pcb.tcpInput p chain buf).2 := by
  rw [Pcb.tcpInput]
  split
  · dsimp only
    split_ifs
    · exact .same
    · rw [tcpRst_receiver]
      exact .same
  · next hstate =>
    have hall := hended (.inr (.inr (.inr hstate)))
    rw [tcpTimewaitInput_receiver hnxt hall hbound hp]
    exact .same
  · next hclosed htimeWait =>
    split_ifs with hrefused
    · exact .same
    · have hrefused' : pcb.refusedData = none := by simpa using hrefused
      have hresult := tcpProcess_result ⟨hclosed, htimeWait⟩ hrefused' hnxt hr hbound hended
        hchain hp
      rcases hprocess : pcb.tcpProcess p chain with ⟨pcb', flags⟩
      rw [hprocess] at hresult
      dsimp only at hresult ⊢
      split_ifs with hgone
      · obtain ⟨-, hsame⟩ | hresult := hresult
        · exact .gone rfl ((pcb'.tcpPcbRemove_rcvNxt buf).trans hsame)
        · simp [hresult.alive.1, hresult.alive.2] at hgone
      · exact hresult.resolve_left fun h => hgone h.1

end Input

end EthMange.Tcp
