import EthMange.Tcp.Reliable

/-!
# The end of a connection

A host that closes first comes to `FIN_WAIT_2` and `TIME_WAIT` by an ACK of `snd_nxt`, and one
that closes second is done with such an ACK. The peer has all of the stream then, if the FIN
was sent before; the code does not check that, and takes an ACK of everything that was sent
for one of the FIN while that is still queued.
-/

namespace EthMange.Tcp

open Serial Run

section Input

variable (pcb : Pcb) (p : Packet)

theorem receiveAck_sndNxt : (pcb.receiveAck p).sndNxt = pcb.sndNxt := by
  have hrexmit (pcb : Pcb) : pcb.tcpRexmit.sndNxt = pcb.sndNxt := by
    rw [Pcb.tcpRexmit]
    split <;> rfl
  have hcong (pcb : Pcb) (c : Congestion) : (pcb.setCong c).sndNxt = pcb.sndNxt := rfl
  have htiming (pcb : Pcb) (t : Timing) : (pcb.setTiming t).sndNxt = pcb.sndNxt := rfl
  have hacked (pcb : Pcb) (n : ℕ) : (pcb.setAcked n).sndNxt = pcb.sndNxt := rfl
  have hdup (pcb : Pcb) (edge : SeqNo) : (pcb.dupAck edge).sndNxt = pcb.sndNxt := by
    rw [Pcb.dupAck]
    dsimp only
    split_ifs <;> simp only [hcong, hacked, hrexmit]
  have hnew (pcb : Pcb) (n : SeqNo) : (pcb.newAck n).sndNxt = pcb.sndNxt := rfl
  have hfree (pcb : Pcb) (n : SeqNo) : (pcb.freeUnsent n).sndNxt = pcb.sndNxt := rfl
  have hwnd : (pcb.updateWnd p).sndNxt = pcb.sndNxt :=
    congrArg SendState.sndNxt (pcb.updateWnd_sender [] p)
  rw [Pcb.receiveAck, htiming, hfree]
  split_ifs <;> simp only [hdup, hnew, hacked, hwnd]

theorem tcpReceive_state (chain : List Bytes) :
    (pcb.tcpReceive p chain).1.state = pcb.state ∧
      (pcb.tcpReceive p chain).1.sndNxt = pcb.sndNxt := by
  obtain ⟨pcb', hpcb', hstate, hnxt⟩ : ∃ pcb',
      pcb' = (if p.ack = true then pcb.receiveAck p else pcb) ∧ pcb'.state = pcb.state ∧
      pcb'.sndNxt = pcb.sndNxt := by
    refine ⟨_, rfl, ?_⟩
    split_ifs
    · exact ⟨congrArg RecvState.state (pcb.receiveAck_receiver p), receiveAck_sndNxt pcb p⟩
    · exact ⟨rfl, rfl⟩
  have hdata := pcb'.receiveData_sender [] p chain p.tcpLen
  rw [Pcb.tcpReceive, ← hpcb', ← hstate, ← hnxt]
  split_ifs
  · exact ⟨congrArg SendState.state hdata, congrArg SendState.sndNxt hdata⟩
  · exact ⟨rfl, rfl⟩
  · exact ⟨rfl, rfl⟩

theorem tcpReceive_flags (chain : List Bytes) :
    (pcb.tcpReceive p chain).2.closed = false ∧ (pcb.tcpReceive p chain).2.reset = false := by
  rw [Pcb.tcpReceive]
  dsimp only [Pcb.receiveData, Pcb.accept, RecvFlags.none]
  split_ifs <;> exact ⟨rfl, rfl⟩

theorem tcpTimewaitInput_state (buf : Bool) : (pcb.tcpTimewaitInput p buf).state = pcb.state := by
  obtain ⟨pcb', hpcb', hstate⟩ : ∃ pcb', pcb' =
      (if le (p.seqno + BitVec.ofNat 32 p.tcpLen) pcb.rcvNxt then pcb
        else pcb.setRcvNxt (p.seqno + BitVec.ofNat 32 p.tcpLen)) ∧ pcb'.state = pcb.state :=
    ⟨_, rfl, by split_ifs <;> rfl⟩
  rw [Pcb.tcpTimewaitInput, ← hpcb', ← hstate]
  refine (congrArg RecvState.state (Pcb.tcpOutput_receiver _ buf)).trans ?_
  split_ifs
  · exact congrArg RecvState.state (pcb'.tcpAckNow_receiver buf)
  · rfl

theorem follow_finishes (r : RecvFlags) :
    ((pcb.follow p r).1.state.Finished → pcb.state.Finished ∨
      (pcb.state = .finWait1 ∨ pcb.state = .closing) ∧ p.ackno = pcb.sndNxt) ∧
    ((pcb.follow p r).1.state = .closed → pcb.state = .closed) ∧
    ((pcb.follow p r).2.closed = true → r.closed = true ∨
      pcb.state = .lastAck ∧ p.ackno = pcb.sndNxt) ∧
    (pcb.follow p r).2.reset = r.reset := by
  rw [Pcb.follow]
  split
  all_goals rename_i hstate
  all_goals try split_ifs
  all_goals simp_all [TcpState.Finished, Pcb.toTimeWait, Pcb.setState, Pcb.setAckNow]

/-- How a packet brings a host to an end: by an ACK of `snd_nxt`, or by a reset. -/
structure Ends (pcb' : Pcb) (r : RecvFlags) : Prop where
  finished : pcb'.state.Finished → pcb.state.Finished ∨
    p.rst = false ∧ (pcb.state = .finWait1 ∨ pcb.state = .closing) ∧ p.ackno = pcb.sndNxt
  live : pcb'.state = .closed → pcb.state = .closed
  closed : r.closed = true → p.rst = false ∧ pcb.state = .lastAck ∧ p.ackno = pcb.sndNxt
  reset : r.reset = true → p.rst = true

theorem Ends.same {pcb' : Pcb} (h : pcb'.state = pcb.state) : Ends pcb p pcb' .none :=
  ⟨fun hs => .inl (h ▸ hs), fun hs => h ▸ hs, fun hc => absurd hc (by simp [RecvFlags.none]),
    fun hr => absurd hr (by simp [RecvFlags.none])⟩

theorem tcpProcess_ends (chain : List Bytes) :
    Ends pcb p (pcb.tcpProcess p chain).1 (pcb.tcpProcess p chain).2 := by
  rw [Pcb.tcpProcess]
  split_ifs with hrst
  · exact ⟨.inl, id, fun hc => absurd hc (by simp [RecvFlags.none]), fun _ => hrst⟩
  · exact .same pcb p rfl
  · exact .same pcb p rfl
  · have hrst : p.rst = false := by simpa using hrst
    obtain ⟨hstate, hnxt⟩ := tcpReceive_state pcb.touch p chain
    obtain ⟨hopen, hreset⟩ := tcpReceive_flags pcb.touch p chain
    obtain ⟨hfinished, hlive, hclosed, hreset'⟩ :=
      follow_finishes (pcb.touch.tcpReceive p chain).1 p (pcb.touch.tcpReceive p chain).2
    rw [hstate, hnxt] at hfinished
    rw [hstate] at hlive
    rw [hstate, hnxt, hopen] at hclosed
    rw [hreset] at hreset'
    exact ⟨fun h => (hfinished h).imp_right fun h => ⟨hrst, h⟩, hlive,
      fun h => ⟨hrst, (hclosed h).resolve_left (by simp)⟩,
      fun h => absurd (hreset'.symm.trans h) (by simp)⟩

theorem tcpInput_finishes (chain : List Bytes) (buf : Bool) :
    ((pcb.tcpInput p chain buf).1.state.Finished → pcb.state.Finished ∨
      p.rst = false ∧ (pcb.state = .finWait1 ∨ pcb.state = .closing) ∧ p.ackno = pcb.sndNxt) ∧
    ((pcb.tcpInput p chain buf).1.state = .closed → pcb.state = .closed ∨
      p.rst = true ∨ pcb.state = .lastAck ∧ p.ackno = pcb.sndNxt) := by
  have hsame {pcb' : Pcb} (h : pcb'.state = pcb.state) :
      (pcb'.state.Finished → pcb.state.Finished ∨ p.rst = false ∧
        (pcb.state = .finWait1 ∨ pcb.state = .closing) ∧ p.ackno = pcb.sndNxt) ∧
      (pcb'.state = .closed → pcb.state = .closed ∨ p.rst = true ∨
        pcb.state = .lastAck ∧ p.ackno = pcb.sndNxt) :=
    ⟨fun hs => .inl (h ▸ hs), fun hs => .inl (h ▸ hs)⟩
  have hprocess := tcpProcess_ends pcb p chain
  rw [Pcb.tcpInput]
  split
  · dsimp only
    split_ifs
    · exact hsame rfl
    · exact hsame (congrArg RecvState.state (tcpRst_receiver buf))
  · exact hsame (tcpTimewaitInput_state pcb p buf)
  · split_ifs
    · exact hsame rfl
    · rcases hresult : pcb.tcpProcess p chain with ⟨pcb', r⟩
      rw [hresult] at hprocess
      dsimp only at hprocess ⊢
      split_ifs with hgone
      · have hclosed : (pcb'.tcpPcbRemove buf).state = .closed := rfl
        refine ⟨fun hs => absurd hs (by simp [hclosed, TcpState.Finished]), fun _ => .inr ?_⟩
        exact hgone.imp hprocess.reset fun hc => (hprocess.closed hc).2
      · exact ⟨hprocess.finished, fun hs => .inl (hprocess.live hs)⟩

end Input

/-- A packet of these that acknowledges `n` comes in. -/
def HostEvent.Acks (arrived : List Packet) (n : SeqNo) : HostEvent → Prop
  | .input i _ _ _ => ∃ p ∈ arrived[i]?, p.rst = false ∧ p.ackno = n
  | _ => False

instance (arrived : List Packet) (n : SeqNo) :
    (e : HostEvent) → Decidable (e.Acks arrived n)
  | .input i _ _ _ =>
    inferInstanceAs (Decidable (∃ p ∈ arrived[i]?, p.rst = false ∧ p.ackno = n))
  | .write _ _ _ _ | .output _ | .recved _ _ | .close _ _ | .keep _ | .slowtmr _ _ _
  | .fasttmr _ => .isFalse id

section Event

variable {h h' : Host} {arrived : List Packet} {e : HostEvent}

/-- Only a packet that comes in brings something, or an end. -/
theorem Host.event_keeps (hevent : h.event arrived e = some h') :
    (∃ i chain taken buf, e = .input i chain taken buf) ∨ (∃ taken, e = .keep taken) ∨
      h.pcb.Keeps h'.pcb := by
  cases e with
  | write data copy more mem =>
    simp only [Host.event] at hevent
    split_ifs at hevent
    have hkeeps : h.pcb.Keeps (h.pcb.tcpWrite data copy more mem).1 :=
      .of_receiver (h.pcb.tcpWrite_receiver data copy more mem)
    rcases hresult : h.pcb.tcpWrite data copy more mem with ⟨pcb, err⟩
    rw [hresult] at hevent hkeeps
    cases err <;> obtain rfl := Option.some.inj hevent <;> exact .inr (.inr hkeeps)
  | output buf =>
    simp only [Host.event] at hevent
    split_ifs at hevent
    obtain rfl := Option.some.inj hevent
    exact .inr (.inr (.of_receiver (h.pcb.tcpOutput_receiver buf)))
  | recved len buf =>
    simp only [Host.event] at hevent
    split_ifs at hevent
    obtain rfl := Option.some.inj hevent
    exact .inr (.inr (.tcpRecved len buf))
  | close mem buf =>
    simp only [Host.event] at hevent
    split_ifs at hevent
    obtain rfl := Option.some.inj hevent
    exact .inr (.inr (.tcpClose mem buf))
  | input i chain taken buf => exact .inl ⟨i, chain, taken, buf, rfl⟩
  | keep taken => exact .inr (.inl ⟨taken, rfl⟩)
  | slowtmr junk beyond buf =>
    simp only [Host.event] at hevent
    split_ifs at hevent
    obtain rfl := Option.some.inj hevent
    exact .inr (.inr (.tcpSlowtmr junk beyond buf))
  | fasttmr buf =>
    simp only [Host.event] at hevent
    split_ifs at hevent
    obtain rfl := Option.some.inj hevent
    exact .inr (.inr (.tcpFasttmr buf))

theorem Host.input_pcb {i : ℕ} {chain : List Bytes} {taken buf : Bool}
    (hevent : h.event arrived (.input i chain taken buf) = some h') :
    ∃ p, arrived[i]? = some p ∧ h'.pcb.state = (h.pcb.tcpInput p chain buf).1.state := by
  simp only [Host.event] at hevent
  split at hevent
  · next p hp =>
    split_ifs at hevent
    refine ⟨p, hp, ?_⟩
    rcases hinput : h.pcb.tcpInput p chain buf with ⟨pcb, flags⟩
    rw [hinput] at hevent
    obtain rfl := Option.some.inj hevent
    exact (Host.callbacks_pcb (h.setPcb pcb) flags taken).2.1
  · exact absurd hevent (by simp)

theorem Host.event_finishes (hevent : h.event arrived e = some h')
    (hfinished : h'.pcb.state.Finished) : h.pcb.state.Finished ∨
      (h.pcb.state = .finWait1 ∨ h.pcb.state = .closing) ∧ e.Acks arrived h.pcb.sndNxt := by
  obtain ⟨i, chain, taken, buf, rfl⟩ | ⟨taken, rfl⟩ | hkeeps := Host.event_keeps hevent
  · obtain ⟨p, hp, hstate⟩ := Host.input_pcb hevent
    rw [hstate] at hfinished
    exact ((tcpInput_finishes h.pcb p chain buf).1 hfinished).imp_right
      fun ⟨hrst, hs, hack⟩ => ⟨hs, p, hp, hrst, hack⟩
  · simp only [Host.event] at hevent
    split at hevent
    · split_ifs at hevent
      obtain rfl := Option.some.inj hevent
      rw [Host.offer] at hfinished
      split_ifs at hfinished <;> exact .inl hfinished
    · exact absurd hevent (by simp)
  · exact .inl (hkeeps.finished hfinished)

end Event

/-- The guard of a run in which no ACK is taken for one of a FIN that is still queued. -/
def Net.FinFirst (net : Net) (e : Bool × HostEvent) : Prop :=
  net.Sane e ∧ ((net e.1).pcb.state.Shut → e.2.Acks (net !e.1).pcb.sent (net e.1).pcb.sndNxt →
    (net e.1).pcb.sndNxt = (net e.1).pcb.sndLbb)

instance (s : TcpState) : Decidable s.Open := inferInstanceAs (Decidable (_ ∨ _))

instance (s : TcpState) : Decidable s.Shut := inferInstanceAs (Decidable (_ ∧ _))

instance (net : Net) (e : Bool × HostEvent) : Decidable (net.FinFirst e) :=
  inferInstanceAs (Decidable (_ ∧ (_ → _ → _)))

section Net

variable {o : Bool → SeqNo} {net net' : Net} {e : Bool × HostEvent} {es : List (Bool × HostEvent)}

/-- An ACK of everything, the FIN included, comes from a peer that has got it. -/
theorem StreamInv.eof_of_acks (h : StreamInv o net) (s : Bool) {ev : HostEvent}
    (hshut : (net s).pcb.state.Shut) (hack : ev.Acks (net !s).pcb.sent (net s).pcb.sndNxt)
    (hlbb : (net s).pcb.sndNxt = (net s).pcb.sndLbb) : (net !s).eof = true := by
  cases ev with
  | input i chain taken buf =>
    obtain ⟨p, hp, hrst, hackno⟩ := hack
    obtain ⟨m, hm, hpos⟩ := (h.arrived s p (List.mem_of_getElem? hp)).resolve_left (by simp [hrst])
    have hgets := h.gets !s
    rw [Bool.not_not] at hgets
    have hfin : (net s).pcb.finQueued = true := (h.sends s).shut hshut
    have hend : (net s).pcb.sndLbb = pos (o s) (tcpLen (net s).written true) := by
      rw [← hfin]
      exact (h.sends s).lbb
    have hwithin := hgets.within
    have hbound := h.bound s true
    rw [hfin] at hwithin
    have hall : pos (o s) m = pos (o s) (tcpLen (net s).written true) :=
      hpos.symm.trans (hackno.trans (hlbb.trans hend))
    rw [pos_inj (o s) (by omega) (by omega)] at hall
    by_contra heof
    have heof : (net !s).eof = false := by simpa using heof
    have hlen := hgets.offered.length_le
    rw [heof, tcpLen_false] at hm
    rw [tcpLen_true] at hall
    omega
  | _ => exact absurd hack id

theorem finished_step (h : StreamInv o net) (hfin : net.FinFirst e)
    (hstep : net.step e = some net')
    (hfinished : ∀ s, (net s).pcb.state.Finished → (net !s).eof = true) :
    ∀ s, (net' s).pcb.state.Finished → (net' !s).eof = true := by
  obtain ⟨hsane, hacks⟩ := hfin
  obtain ⟨host, hevent, rfl⟩ := Option.map_eq_some_iff.mp hstep
  have hfollows := h.follows hsane hevent
  set t := e.1
  have hne : ¬ (!t) = t := by cases t <;> simp
  refine forall_side t ?_ ?_
  all_goals simp only [Function.update_self, Function.update_of_ne hne, Bool.not_not]
  · intro hend
    obtain hend | ⟨hstate, hack⟩ := Host.event_finishes hevent hend
    · exact hfinished t hend
    · have hshut : (net t).pcb.state.Shut := by
        obtain hs | hs := hstate <;> simp [TcpState.Shut, TcpState.Open, hs]
      exact h.eof_of_acks t hshut hack (hacks hshut hack)
  · intro hend
    have heof := hfinished (!t) hend
    rw [Bool.not_not] at heof
    exact hfollows.eof heof

theorem finished_run (hstart : net.Established o) (hfin : Along Net.step Net.FinFirst net es)
    (hrun : run Net.step net es = some net') : StreamInv o net' ∧
      ∀ s, (net' s).pcb.state.Finished → (net' !s).eof = true := by
  refine Along.invariant (G := Net.FinFirst)
    (I := fun net => StreamInv o net ∧ ∀ s, (net s).pcb.state.Finished → (net !s).eof = true)
    (fun _ _ _ h hfin hstep => ⟨h.1.step hfin.1 hstep, finished_step h.1 hfin hstep h.2⟩)
    ⟨StreamInv.of_established hstart, fun s hs => ?_⟩ hfin hrun
  simp [(hstart s).state, TcpState.Finished] at hs

/-- When the FIN of a host counts as acknowledged, its peer has got all that it has written,
and the end of the stream. -/
theorem close_delivered (hstart : net.Established o) (hfin : Along Net.step Net.FinFirst net es)
    (hrun : run Net.step net es = some net') (s : Bool) (hfinished : (net' s).pcb.state.Finished) :
    (net' !s).eof = true ∧ (net' !s).offered = (net' s).written := by
  obtain ⟨hinv, hends⟩ := finished_run hstart hfin hrun
  have heof := hends s hfinished
  have hgets := hinv.gets !s
  rw [Bool.not_not] at hgets
  exact ⟨heof, (hgets.eof heof).2⟩

/-- A packet that frees the block of a host that closed second is a reset, or the peer has got
all that the host has written, and the end of the stream. -/
theorem last_ack_delivered (hstart : net.Established o)
    (hfin : Along Net.step Net.FinFirst net es) (hrun : run Net.step net es = some net')
    {s : Bool} {i : ℕ} {chain : List Bytes} {taken buf : Bool} {net'' : Net}
    (hguard : net'.FinFirst (s, .input i chain taken buf))
    (hstep : net'.step (s, .input i chain taken buf) = some net'')
    (hlast : (net' s).pcb.state = .lastAck) (hclosed : (net'' s).pcb.state = .closed) :
    (∃ p ∈ (net' !s).pcb.sent[i]?, p.rst = true) ∨
      (net'' !s).eof = true ∧ (net'' !s).offered = (net'' s).written := by
  obtain ⟨hinv, -⟩ := finished_run hstart hfin hrun
  have hinv' := hinv.step hguard.1 hstep
  obtain ⟨host, hevent, rfl⟩ := Option.map_eq_some_iff.mp hstep
  obtain ⟨p, hp, hstate⟩ := Host.input_pcb hevent
  rw [Function.update_self, hstate] at hclosed
  obtain hgone | hrst | ⟨-, hackno⟩ := (tcpInput_finishes _ p chain buf).2 hclosed
  · exact absurd (hlast.symm.trans hgone) (by simp)
  · exact .inl ⟨p, hp, hrst⟩
  · by_cases hrst : p.rst = true
    · exact .inl ⟨p, hp, hrst⟩
    · have hack : HostEvent.Acks (net' !s).pcb.sent (net' s).pcb.sndNxt
          (.input i chain taken buf) := ⟨p, hp, by simpa using hrst, hackno⟩
      have hshut : (net' s).pcb.state.Shut := by simp [TcpState.Shut, TcpState.Open, hlast]
      have heof := hinv.eof_of_acks s hshut hack (hguard.2 hshut hack)
      have hne : ¬ (!s) = s := by cases s <;> simp
      have hgets := hinv'.gets !s
      rw [Bool.not_not] at hgets
      rw [Function.update_of_ne hne] at hgets ⊢
      exact .inr ⟨heof, (hgets.eof heof).2⟩

/-- Both hosts close, one behind the other; the packets come in order. -/
def closingRun : List (Bool × HostEvent) :=
  [(true, .write [1, 2] true false fun _ => true), (true, .output true),
    (true, .close (fun _ => true) true), (false, .input 0 [[1, 2]] true true),
    (false, .input 1 [[]] true true), (false, .output true), (true, .input 0 [[]] true true),
    (false, .close (fun _ => true) true), (true, .input 1 [[]] true true), (true, .output true)]

theorem close_delivered_closingRun :
    ∃ net, run Net.step startNet (closingRun.take 7) = some net ∧
      (net false).eof = true ∧ (net false).offered = (net true).written := by
  have hall : ((run Net.step startNet (closingRun.take 7)).map fun net => (net true).pcb.state) =
      some .finWait2 := by decide +kernel
  obtain ⟨net, hrun, hstate⟩ := Option.map_eq_some_iff.mp hall
  exact ⟨net, hrun,
    close_delivered established_startNet (by decide +kernel) hrun true (.inl hstate)⟩

theorem last_ack_delivered_closingRun :
    ∃ net net', run Net.step startNet closingRun = some net ∧
      net.step (false, .input 2 [[]] true true) = some net' ∧
      ((∃ p ∈ (net true).pcb.sent[2]?, p.rst = true) ∨
        (net' true).eof = true ∧ (net' true).offered = (net' false).written) := by
  have hall : ((run Net.step startNet closingRun).bind fun net =>
      (net.step (false, .input 2 [[]] true true)).map fun net' =>
        ((net false).pcb.state, (net' false).pcb.state,
          decide (net.FinFirst (false, .input 2 [[]] true true)))) =
      some (.lastAck, .closed, true) := by decide +kernel
  obtain ⟨net, hrun, hnet⟩ := Option.bind_eq_some_iff.mp hall
  obtain ⟨net', hstep, hstates⟩ := Option.map_eq_some_iff.mp hnet
  obtain ⟨hlast, hstates⟩ := Prod.mk.inj hstates
  obtain ⟨hclosed, hguard⟩ := Prod.mk.inj hstates
  exact ⟨net, net', hrun, hstep, last_ack_delivered established_startNet (by decide +kernel) hrun
    (of_decide_eq_true hguard) hstep hlast hclosed⟩

end Net

end EthMange.Tcp
