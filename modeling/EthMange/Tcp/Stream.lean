import EthMange.Tcp.Sequence

/-!
# The streams of a connection

Along every run of two hosts the application of either of them gets a prefix of what the
application of the other has written, whatever the network loses, repeats and reorders, and
is told of the end of the stream behind its last byte.
-/

namespace EthMange.Tcp

open Serial Run

def Host.sender (h : Host) : SendState := h.pcb.sender h.written

section Callbacks

variable (h : Host) (flags : RecvFlags) (taken : Bool)

theorem Host.callbacks_offered : (h.callbacks flags taken).offered = h.offered ++ flags.data := by
  rw [Host.callbacks, RecvFlags.data]
  cases flags.recvData <;> simp

theorem Host.callbacks_eof : (h.callbacks flags taken).eof = (h.eof || flags.gotFin) := by
  rw [Host.callbacks]
  cases flags.recvData with
  | none => rfl
  | some chain => cases taken <;> rfl

theorem Host.callbacks_pcb : (h.callbacks flags taken).sender = h.sender ∧
    (h.callbacks flags taken).pcb.state = h.pcb.state ∧
    (h.callbacks flags taken).pcb.rcvNxt = h.pcb.rcvNxt := by
  rw [Host.callbacks]
  cases flags.recvData with
  | none => exact ⟨rfl, rfl, rfl⟩
  | some chain => cases taken <;> exact ⟨rfl, rfl, rfl⟩

theorem Host.callbacks_written : (h.callbacks flags taken).written = h.written :=
  congrArg SendState.written (h.callbacks_pcb flags taken).1

/-- What is handed on is taken or kept. -/
theorem Host.callbacks_received (hrefused : h.pcb.refusedData = none) :
    let h' := h.callbacks flags taken
    h'.received ++ (h'.pcb.refusedData.getD []).flatten = h.received ++ flags.data := by
  rw [Host.callbacks, RecvFlags.data]
  cases flags.recvData with
  | none => simp [hrefused]
  | some chain => cases taken <;> simp [Host.offer]

end Callbacks

/-- What the application of a host has got of the stream `w` of its peer. -/
structure RecvInv (o : SeqNo) (w : Bytes) (c : Bool) (h : Host) : Prop where
  offered : h.offered <+: w
  eof : h.eof = true → c = true ∧ h.offered = w
  next : h.pcb.rcvNxt = pos o (tcpLen h.offered h.eof)
  received : h.received <+: h.offered
  live : h.pcb.state.Active → h.received ++ (h.pcb.refusedData.getD []).flatten = h.offered
  ended : h.pcb.state.GotFin → h.eof = true

/-- What is taken follows what was offered before. -/
theorem Takes.offered {o : SeqNo} {w d offered : Bytes} {c f eof : Bool} {v v' : RecvState}
    {flags : RecvFlags} (htakes : Takes o w c (tcpLen offered eof) v v' flags d f)
    (hoffered : offered <+: w) (heof : eof = true → c = true ∧ offered = w) :
    offered ++ d <+: w ∧ ((eof || f) = true → c = true ∧ offered ++ d = w) ∧
      tcpLen offered eof + tcpLen d f = tcpLen (offered ++ d) (eof || f) := by
  have hpiece := htakes.piece
  cases eof with
  | true =>
    obtain ⟨hc, rfl⟩ := heof rfl
    -- behind the end of the stream there is nothing
    have hd : d = [] := by
      rw [tcpLen_true, List.drop_eq_nil_of_le (Nat.le_succ _)] at hpiece
      exact List.prefix_nil.mp hpiece
    have hf : f = false := by
      by_contra hf
      have hlast := htakes.last (by simpa using hf)
      rw [tcpLen_true] at hlast
      omega
    subst hd hf
    exact ⟨by simp, fun _ => ⟨hc, by simp⟩, by simp [tcpLen]⟩
  | false =>
    rw [tcpLen_false] at hpiece
    obtain ⟨rest, rfl⟩ := hoffered
    rw [List.drop_left] at hpiece
    refine ⟨(List.prefix_append_right_inj _).mpr hpiece, fun hf => ?_, ?_⟩
    · rw [Bool.false_or] at hf
      have hlast := htakes.last hf
      have hwithin := htakes.within
      rw [tcpLen_false, List.length_append] at hlast
      have hd : d = rest := hpiece.eq_of_length (by omega)
      refine ⟨?_, by rw [hd]⟩
      cases c with
      | true => rfl
      | false =>
        rw [hf, tcpLen_true, tcpLen_false, tcpLen_false, List.length_append] at hwithin
        omega
    · simp only [tcpLen, List.length_append, Bool.false_or, Bool.toNat_false]
      omega

/-- The FIN of the host counts as acknowledged. -/
def TcpState.Finished (s : TcpState) : Prop := s = .finWait2 ∨ s = .timeWait

/-- What was received is left alone, and neither end of the connection comes to its end. -/
structure Pcb.Keeps (pcb pcb' : Pcb) : Prop where
  next : pcb'.rcvNxt = pcb.rcvNxt
  active : pcb'.state.Active → pcb.state.Active ∧ pcb'.refusedData = pcb.refusedData
  ended : pcb'.state.GotFin → pcb.state.GotFin
  finished : pcb'.state.Finished → pcb.state.Finished

namespace Pcb.Keeps

variable {pcb pcb' : Pcb}

theorem of_receiver (h : pcb'.receiver = pcb.receiver) : pcb.Keeps pcb' := by
  have hstate : pcb'.state = pcb.state := congrArg RecvState.state h
  exact ⟨congrArg RecvState.rcvNxt h, fun hact => ⟨hstate ▸ hact, congrArg RecvState.refusedData h⟩,
    fun hgot => hstate ▸ hgot, fun hfin => hstate ▸ hfin⟩

theorem of_closed (hnxt : pcb'.rcvNxt = pcb.rcvNxt) (hstate : pcb'.state = .closed) :
    pcb.Keeps pcb' :=
  ⟨hnxt, fun hact => absurd hstate hact.1,
    fun hgot => absurd hgot (by simp [hstate, TcpState.GotFin]),
    fun hfin => absurd hfin (by simp [hstate, TcpState.Finished])⟩

theorem tcpRecved (len : ℕ) (buf : Bool) : pcb.Keeps (pcb.tcpRecved len buf) := by
  have hsame : pcb.Keeps
      (pcb.setRcvWnd (EthMange.tcpRecved pcb.rcvWnd len)).tcpUpdateRcvAnnWnd.1 := by
    rw [Pcb.tcpUpdateRcvAnnWnd]
    split_ifs <;> exact ⟨rfl, fun hact => ⟨hact, rfl⟩, id, id⟩
  rw [Pcb.tcpRecved]
  dsimp only
  split_ifs
  · have hack := of_receiver (Pcb.tcpAckNow_receiver
      (pcb.setRcvWnd (EthMange.tcpRecved pcb.rcvWnd len)).tcpUpdateRcvAnnWnd.1 buf)
    refine ⟨hack.next.trans hsame.next, fun hact => ?_, fun hgot => hsame.ended (hack.ended hgot),
      fun hfin => hsame.finished (hack.finished hfin)⟩
    obtain ⟨hact, href⟩ := hack.active hact
    obtain ⟨hact, href'⟩ := hsame.active hact
    exact ⟨hact, href.trans href'⟩
  · exact hsame

theorem tcpClose (mem : SegMem) (buf : Bool) : pcb.Keeps (pcb.tcpClose mem buf).1 := by
  have hfin : (pcb.sendFin mem).1.receiver = pcb.receiver :=
    pcb.tcpEnqueue_receiver [] true true false mem
  have hmove {s : TcpState} (hact : pcb.state.Active) (hgot : s.GotFin → pcb.state.GotFin)
      (hfinished : ¬ s.Finished) :
      pcb.Keeps (((pcb.sendFin mem).1.setState s).tcpOutput buf) := by
    have hout : (((pcb.sendFin mem).1.setState s).tcpOutput buf).receiver =
        { pcb.receiver with state := s } := by
      rw [Pcb.tcpOutput_receiver, Pcb.setState_receiver, hfin]
    have hs : (((pcb.sendFin mem).1.setState s).tcpOutput buf).state = s :=
      congrArg RecvState.state hout
    exact ⟨congrArg RecvState.rcvNxt hout, fun _ => ⟨hact, congrArg RecvState.refusedData hout⟩,
      fun hgot' => hgot (hs ▸ hgot'), fun hfin => absurd (hs ▸ hfin) hfinished⟩
  rw [Pcb.tcpClose]
  split
  · next hstate =>
    split
    · next pcb' heq =>
      have := hmove (s := .finWait1) (by simp [TcpState.Active, hstate]) (by simp [TcpState.GotFin])
        (by simp [TcpState.Finished])
      rwa [heq] at this
    · next pcb' err herr heq =>
      rw [heq] at hfin
      exact of_receiver hfin
  · next hstate =>
    split
    · next pcb' heq =>
      have := hmove (s := .lastAck) (by simp [TcpState.Active, hstate])
        (fun _ => by simp [TcpState.GotFin, hstate]) (by simp [TcpState.Finished])
      rwa [heq] at this
    · next pcb' err herr heq =>
      rw [heq] at hfin
      exact of_receiver hfin
  · exact of_receiver rfl

theorem tcpSlowtmr (junk : UInt8) (beyond : ℕ) (buf : Bool) :
    pcb.Keeps (pcb.tcpSlowtmr junk beyond buf) := by
  have hpurge (pcb' : Pcb) (hrec : pcb'.receiver = pcb.receiver) :
      pcb.Keeps (pcb'.tcpPcbPurge.setState .closed) :=
    of_closed (pcb'.tcpPcbPurge_rcvNxt.trans (congrArg RecvState.rcvNxt hrec)) rfl
  have hsend : (pcb.tick.slowtmrSend junk beyond buf).receiver = pcb.receiver := by simp
  rw [Pcb.tcpSlowtmr]
  dsimp only
  split_ifs
  · exact hpurge _ rfl
  · exact of_receiver rfl
  · exact hpurge _ rfl
  · exact hpurge _ hsend
  · exact of_receiver hsend

theorem tcpFasttmr (buf : Bool) : pcb.Keeps (pcb.tcpFasttmr buf) := by
  refine of_receiver ?_
  rw [Pcb.tcpFasttmr]
  split_ifs <;> simp

end Pcb.Keeps

namespace RecvInv

variable {o : SeqNo} {w w' : Bytes} {c c' : Bool} {h : Host}

theorem within (hinv : RecvInv o w c h) : tcpLen h.offered h.eof ≤ tcpLen w c := by
  cases heof : h.eof with
  | false => exact hinv.offered.length_le.trans (Nat.le_add_right _ _)
  | true =>
    obtain ⟨rfl, hall⟩ := hinv.eof heof
    rw [hall]

theorem setPcb (hinv : RecvInv o w c h) {pcb : Pcb} (hkeeps : h.pcb.Keeps pcb) :
    RecvInv o w c (h.setPcb pcb) := by
  refine ⟨hinv.offered, hinv.eof, hkeeps.next.trans hinv.next, hinv.received, fun hact => ?_,
    fun hgot => hinv.ended (hkeeps.ended hgot)⟩
  obtain ⟨hact, href⟩ := hkeeps.active hact
  exact (congrArg (fun x => h.received ++ (Option.getD x []).flatten) href).trans (hinv.live hact)

/-- The peer writes more, or closes its stream. -/
theorem mono (hinv : RecvInv o w c h) (hgrows : Grows w c w' c') : RecvInv o w' c' h := by
  refine ⟨hinv.offered.trans hgrows.1, fun heof => ?_, hinv.next, hinv.received, hinv.live,
    hinv.ended⟩
  obtain ⟨hc, hall⟩ := hinv.eof heof
  obtain ⟨rfl, hc'⟩ := hgrows.2 hc
  exact ⟨hc', hall⟩

/-- The callbacks of `tcp_input` hand on what was taken. -/
theorem callbacks (hinv : RecvInv o w c h) {pcb : Pcb} {flags : RecvFlags} (taken : Bool)
    (hresult : InputResult o w c (tcpLen h.offered h.eof) h.pcb.receiver pcb.receiver flags) :
    RecvInv o w c ((h.setPcb pcb).callbacks flags taken) := by
  generalize hv : pcb.receiver = v at hresult
  cases hresult with
  | same =>
    have := hinv.setPcb (.of_receiver hv)
    simpa [Host.callbacks, RecvFlags.none] using this
  | gone hstate hnxt =>
    have hclosed : pcb.state = .closed := (congrArg RecvState.state hv).trans hstate
    have hsame : pcb.rcvNxt = h.pcb.rcvNxt := (congrArg RecvState.rcvNxt hv).trans hnxt
    have := hinv.setPcb (.of_closed hsame hclosed)
    simpa [Host.callbacks, RecvFlags.none] using this
  | @taken v' _ d f s hactive hrefused hended htakes =>
    have hnone : h.pcb.refusedData = none := hrefused
    have hnone' : pcb.refusedData = none :=
      (congrArg RecvState.refusedData hv).trans (htakes.refused.trans hrefused)
    have hall : h.received = h.offered := by simpa [hnone] using hinv.live hactive
    have hreceived := Host.callbacks_received (h.setPcb pcb) flags taken hnone'
    have hoffered := Host.callbacks_offered (h.setPcb pcb) flags taken
    have heof := Host.callbacks_eof (h.setPcb pcb) flags taken
    obtain ⟨-, hstate, hnxt⟩ := Host.callbacks_pcb (h.setPcb pcb) flags taken
    rw [htakes.data] at hreceived hoffered
    rw [htakes.fin] at heof
    change _ = h.offered ++ d at hoffered
    change _ = h.received ++ d at hreceived
    change _ = (h.eof || f) at heof
    obtain ⟨hfront, hend, hlen⟩ := htakes.offered hinv.offered hinv.eof
    refine ⟨?_, ?_, ?_, ?_, fun _ => ?_, fun hgot => ?_⟩
    · rw [hoffered]
      exact hfront
    · rw [hoffered, heof]
      exact hend
    · rw [hnxt, hoffered, heof, ← hlen]
      exact (congrArg RecvState.rcvNxt hv).trans htakes.next
    · rw [hoffered, ← hall, ← hreceived]
      exact List.prefix_append _ _
    · rw [hreceived, hoffered, hall]
    · have hs : pcb.state = s := congrArg RecvState.state hv
      rw [hstate] at hgot
      rw [heof, Bool.or_eq_true]
      exact (hended (hs ▸ hgot)).imp_left hinv.ended

end RecvInv

/-- What a step needs: the sequence numbers are enough for the stream, new data that joins a
segment joins the last one of the sequence space, and a probe has data. -/
def Host.Sane (h : Host) : HostEvent → Prop
  | .write data _ _ _ => h.written.length + data.length + 1 < 2 ^ 31 ∧
      JoinsAtEnd h.pcb.unsent h.pcb.sndLbb h.pcb.mss data
  | .slowtmr _ _ _ => h.pcb.ProbeHasData
  | _ => True

instance (h : Host) : (e : HostEvent) → Decidable (h.Sane e)
  | .write _ _ _ _ => inferInstanceAs (Decidable (_ ∧ _))
  | .slowtmr _ _ _ => inferInstanceAs (Decidable h.pcb.ProbeHasData)
  | .output _ | .recved _ _ | .close _ _ | .input _ _ _ _ | .keep _ | .fasttmr _ => .isTrue trivial

/-- What one event does to a host: `w` is the stream of the peer, and `A` holds of what the
peer acknowledges. -/
structure Follows (o : SeqNo) (w : Bytes) (c : Bool) (A : SeqNo → Prop) (h h' : Host) : Prop where
  sends : Sends A (· = h'.pcb.rcvNxt) h.sender h'.sender
  gets : RecvInv o w c h'
  offered : h.offered <+: h'.offered
  eof : h.eof = true → h'.eof = true
  short : h.written.length + 1 < 2 ^ 31 → h'.written.length + 1 < 2 ^ 31

section Event

variable {o : SeqNo} {w : Bytes} {c : Bool} {A : SeqNo → Prop} {h h' : Host}

theorem Follows.of_keeps (hinv : RecvInv o w c h) {pcb : Pcb} (hkeeps : h.pcb.Keeps pcb)
    (hsends : ∀ B : SeqNo → Prop, B h.pcb.rcvNxt →
      Sends A B h.sender (pcb.sender h.written)) :
    Follows o w c A h (h.setPcb pcb) := by
  refine ⟨?_, hinv.setPcb hkeeps, List.prefix_rfl, id, id⟩
  exact hsends (· = pcb.rcvNxt) hkeeps.next.symm

theorem Host.event_follows {arrived : List Packet} {e : HostEvent}
    (hevent : h.event arrived e = some h') (hsane : h.Sane e) (hinv : RecvInv o w c h)
    (hbound : tcpLen w c < 2 ^ 31)
    (harrived : ∀ p ∈ arrived, p.syn = false ∧ Carries o w c p.seqno p.data p.fin)
    (hacks : ∀ p ∈ arrived, p.rst = true ∨ A p.ackno) : Follows o w c A h h' := by
  cases e with
  | write data copy more mem =>
    simp only [Host.event] at hevent
    split_ifs at hevent
    have hwrite (B : SeqNo → Prop) : Sends A B h.sender _ :=
      Sends.tcpWrite (w := h.written) hsane.2 copy more mem
    have hkeeps : h.pcb.Keeps (h.pcb.tcpWrite data copy more mem).1 :=
      .of_receiver (h.pcb.tcpWrite_receiver data copy more mem)
    rcases hresult : h.pcb.tcpWrite data copy more mem with ⟨pcb, err⟩
    rw [hresult] at hevent hwrite hkeeps
    cases err with
    | ok =>
      obtain rfl := Option.some.inj hevent
      have hset := hinv.setPcb hkeeps
      refine ⟨?_, ⟨hset.offered, hset.eof, hset.next, hset.received, hset.live, hset.ended⟩,
        List.prefix_rfl, id, fun _ => ?_⟩
      · exact hwrite _
      · simpa using hsane.1
    | _ =>
      obtain rfl := Option.some.inj hevent
      exact .of_keeps hinv hkeeps fun B _ => hwrite B
  | output buf =>
    simp only [Host.event] at hevent
    split_ifs at hevent
    obtain rfl := Option.some.inj hevent
    exact .of_keeps hinv (.of_receiver (h.pcb.tcpOutput_receiver buf)) fun _ hack =>
      .tcpOutput hack buf
  | recved len buf =>
    simp only [Host.event] at hevent
    split_ifs at hevent
    obtain rfl := Option.some.inj hevent
    exact .of_keeps hinv (.tcpRecved len buf) fun _ hack => .tcpRecved hack len buf
  | close mem buf =>
    simp only [Host.event] at hevent
    split_ifs at hevent
    obtain rfl := Option.some.inj hevent
    exact .of_keeps hinv (.tcpClose mem buf) fun _ hack => .tcpClose hack mem buf
  | input i chain taken buf =>
    simp only [Host.event] at hevent
    split at hevent
    · next p hp =>
      split_ifs at hevent with hchain
      have hmem : p ∈ arrived := List.mem_of_getElem? hp
      have hended : h.pcb.state.GotFin → tcpLen h.offered h.eof = tcpLen w c := fun hgot => by
        obtain ⟨rfl, hall⟩ := hinv.eof (hinv.ended hgot)
        rw [hinv.ended hgot, hall]
      have hresult := tcpInput_result hinv.next hinv.within hbound hended hchain
        (harrived p hmem) buf
      have hsends : Sends A (· = (h.pcb.tcpInput p chain buf).1.rcvNxt) h.sender _ :=
        Sends.tcpInput (w := h.written) (hacks p hmem) chain buf rfl
      rcases hinput : h.pcb.tcpInput p chain buf with ⟨pcb, flags⟩
      rw [hinput] at hevent hresult hsends
      obtain rfl := Option.some.inj hevent
      obtain ⟨hsender, -, hnxt⟩ := Host.callbacks_pcb (h.setPcb pcb) flags taken
      refine ⟨?_, hinv.callbacks taken hresult, ?_, fun heof => ?_, fun hshort => ?_⟩
      · rw [hsender, hnxt]
        exact hsends
      · rw [Host.callbacks_offered]
        exact List.prefix_append _ _
      · rw [Host.callbacks_eof]
        exact Bool.or_eq_true_iff.mpr (.inl heof)
      · rw [Host.callbacks_written]
        exact hshort
    · exact absurd hevent (by simp)
  | keep taken =>
    simp only [Host.event] at hevent
    split at hevent
    · next chain hrefused =>
      split_ifs at hevent with hactive
      obtain rfl := Option.some.inj hevent
      have hlive := hinv.live hactive
      rw [hrefused, Option.getD_some] at hlive
      rw [Host.offer]
      split_ifs
      · refine ⟨.refl, ⟨hinv.offered, hinv.eof, hinv.next, ?_, fun _ => ?_, hinv.ended⟩,
          List.prefix_rfl, id, id⟩
        · exact hlive ▸ List.prefix_rfl
        · exact (List.append_nil _).trans hlive
      · exact ⟨.refl, ⟨hinv.offered, hinv.eof, hinv.next, hinv.received, fun _ => hlive,
          hinv.ended⟩, List.prefix_rfl, id, id⟩
    · exact absurd hevent (by simp)
  | slowtmr junk beyond buf =>
    simp only [Host.event] at hevent
    split_ifs at hevent
    obtain rfl := Option.some.inj hevent
    exact .of_keeps hinv (.tcpSlowtmr junk beyond buf) fun _ hack =>
      .tcpSlowtmr hack junk beyond buf hsane
  | fasttmr buf =>
    simp only [Host.event] at hevent
    split_ifs at hevent
    obtain rfl := Option.some.inj hevent
    exact .of_keeps hinv (.tcpFasttmr buf) fun _ hack => .tcpFasttmr hack buf

end Event

/-- What holds of the two hosts: either of them has sent and got the stream of the other one,
and no packet acknowledges what its sender has not handed on. -/
structure StreamInv (o : Bool → SeqNo) (net : Net) : Prop where
  sends : ∀ s, SendInv (o s) (net s).sender
  gets : ∀ s, RecvInv (o !s) (net !s).written (net !s).pcb.finQueued (net s)
  acks : ∀ s, ∀ p ∈ (net s).pcb.sent,
    p.rst = true ∨ ∃ m ≤ tcpLen (net s).offered (net s).eof, p.ackno = pos (o !s) m
  short : ∀ s, (net s).written.length + 1 < 2 ^ 31

/-- The guard of a run, one step at a time. -/
def Net.Sane (net : Net) (e : Bool × HostEvent) : Prop := (net e.1).Sane e.2

instance (net : Net) (e : Bool × HostEvent) : Decidable (Net.Sane net e) :=
  inferInstanceAs (Decidable ((net e.1).Sane e.2))

theorem forall_side (t : Bool) {P : Bool → Prop} (hself : P t) (hpeer : P !t) : ∀ s, P s := by
  intro s
  obtain rfl | rfl : s = t ∨ s = !t := by cases s <;> cases t <;> simp
  · exact hself
  · exact hpeer

namespace StreamInv

variable {o : Bool → SeqNo} {net net' : Net} {e : Bool × HostEvent}

theorem of_established (h : net.Established o) : StreamInv o net := by
  refine ⟨fun s => ?_, fun s => ?_, fun s => ?_, fun s => ?_⟩
  all_goals
    have hs := h s
    have hp := h !s
    obtain ⟨hunsent, hunacked⟩ := hs.queues
    obtain ⟨hwritten, hoffered, hreceived, heof⟩ := hs.app
  · refine ⟨?_, ⟨0, Nat.zero_le _, ?_⟩, ?_, ?_, fun _ => hs.flags.1, fun hshut => ?_⟩
    · simp [Host.sender, Pcb.sender, hs.sndLbb, hwritten, hs.flags.1, tcpLen]
    · simp [Host.sender, Pcb.sender, hs.sndNxt]
    · simp [Host.sender, Pcb.sender, hunsent, hunacked]
    · simp [Host.sender, Pcb.sender, hs.quiet]
    · exact absurd (.inl hs.state) hshut.2
  · refine ⟨?_, ?_, ?_, ?_, fun _ => ?_, fun hgot => ?_⟩
    · simp [hoffered]
    · simp [heof]
    · simp [hs.rcvNxt, hoffered, heof, tcpLen]
    · simp [hreceived]
    · simp [hreceived, hs.flags.2, hoffered]
    · simp [TcpState.GotFin, hs.state] at hgot
  · simp [hs.quiet]
  · simp [hwritten]

/-- The length of a stream with its end fits into half of the sequence space. -/
theorem bound (h : StreamInv o net) (s : Bool) (c : Bool) :
    tcpLen (net s).written c < 2 ^ 31 := by
  have := h.short s
  have := Bool.toNat_le c
  rw [tcpLen]
  omega

theorem arrived (h : StreamInv o net) (s : Bool) :
    ∀ p ∈ (net !s).pcb.sent, p.rst = true ∨
      ∃ m ≤ tcpLen (net !s).offered (net !s).eof, p.ackno = pos (o s) m := by
  have := h.acks !s
  rwa [Bool.not_not] at this

/-- What the peer acknowledges are numbers of the stream. -/
theorem numbers (h : StreamInv o net) (s : Bool) :
    Numbers (o s) (fun ackno => ∃ m ≤ tcpLen (net !s).offered (net !s).eof, ackno = pos (o s) m)
      (net s).sender := by
  rintro ackno ⟨m, hm, hackno⟩
  have hwithin := (h.gets !s).within
  rw [Bool.not_not] at hwithin
  exact ⟨m, hm.trans hwithin, hackno⟩

theorem follows (h : StreamInv o net) (hsane : net.Sane e) {host : Host}
    (hevent : (net e.1).event (net !e.1).pcb.sent e.2 = some host) :
    Follows (o !e.1) (net !e.1).written (net !e.1).pcb.finQueued
      (fun ackno => ∃ m ≤ tcpLen (net !e.1).offered (net !e.1).eof, ackno = pos (o e.1) m)
      (net e.1) host :=
  Host.event_follows hevent hsane (h.gets e.1) (h.bound _ _) (h.sends !e.1).sent (h.arrived e.1)

theorem step (h : StreamInv o net) (hsane : net.Sane e) (hstep : net.step e = some net') :
    StreamInv o net' := by
  obtain ⟨host, hevent, rfl⟩ := Option.map_eq_some_iff.mp hstep
  have hfollows := h.follows hsane hevent
  set t := e.1
  have hshort := hfollows.short (h.short t)
  have hlen : host.sender.written.length < 2 ^ 31 := Nat.lt_of_succ_lt hshort
  obtain ⟨hsends, hgrows⟩ := (h.sends t).sends (h.numbers t) hfollows.sends hlen
  have hne : ¬ (!t) = t := by cases t <;> simp
  refine ⟨?_, ?_, ?_, ?_⟩
  all_goals
    refine forall_side t ?_ ?_
    all_goals simp only [Function.update_self, Function.update_of_ne hne, Bool.not_not]
  · exact hsends
  · exact h.sends !t
  · exact hfollows.gets
  · have hpeer := h.gets !t
    rw [Bool.not_not] at hpeer
    exact hpeer.mono hgrows
  · intro p hp
    obtain hold | hrst | hnew := Sends.acks hfollows.sends p hp
    · refine (h.acks t p hold).imp_right fun ⟨m, hm, hackno⟩ => ?_
      exact ⟨m, hm.trans (tcpLen_le hfollows.offered hfollows.eof), hackno⟩
    · exact .inl hrst
    · exact .inr ⟨_, le_rfl, hnew.trans hfollows.gets.next⟩
  · exact h.arrived t
  · exact hshort
  · exact h.short !t

end StreamInv

/-- What an application gets is what the other one has written, from its start on and in order,
and the end of the stream comes behind all of it. -/
theorem stream_delivered {o : Bool → SeqNo} {net net' : Net} {es : List (Bool × HostEvent)}
    (hstart : net.Established o) (hsane : Along Net.step Net.Sane net es)
    (hrun : run Net.step net es = some net') (s : Bool) :
    (net' s).received <+: (net' s).offered ∧ (net' s).offered <+: (net' !s).written ∧
      ((net' s).eof = true →
        (net' !s).pcb.finQueued = true ∧ (net' s).offered = (net' !s).written) := by
  have hinv : StreamInv o net' :=
    Along.invariant (fun _ _ _ h hsane hstep => h.step hsane hstep)
      (StreamInv.of_established hstart) hsane hrun
  exact ⟨(hinv.gets s).received, (hinv.gets s).offered, (hinv.gets s).eof⟩

/-- Two writes and a FIN; the first segment comes twice and in two pbufs, and the FIN comes
once before the second one. -/
def lossyRun : List (Bool × HostEvent) :=
  [(true, .write [1, 2, 3] true false fun _ => true), (true, .output true),
    (true, .write [4] true false fun _ => true), (true, .output true),
    (false, .input 0 [[1], [2, 3]] true true), (false, .input 0 [[1, 2, 3]] true true),
    (false, .output true), (true, .input 0 [[]] true true), (true, .output true),
    (true, .close (fun _ => true) true), (false, .input 2 [[]] true true),
    (false, .input 1 [[4]] true true), (false, .input 2 [[]] true true)]

def startNumbers (s : Bool) : SeqNo := if s then 100 else 4294967295

def startNet : Net := fun s => .start (startNumbers s) (startNumbers !s)

theorem established_startNet : startNet.Established startNumbers := fun _ =>
  Host.established_start _ _

theorem stream_delivered_lossyRun :
    ∃ net, run Net.step startNet lossyRun = some net ∧
      ((net false).received, (net false).eof) = ([1, 2, 3, 4], true) ∧ ∀ s,
        (net s).received <+: (net s).offered ∧ (net s).offered <+: (net !s).written ∧
        ((net s).eof = true →
          (net !s).pcb.finQueued = true ∧ (net s).offered = (net !s).written) := by
  have hall : ((run Net.step startNet lossyRun).map fun net =>
      ((net false).received, (net false).eof)) = some ([1, 2, 3, 4], true) := by decide +kernel
  obtain ⟨net, hrun, hreceived⟩ := Option.map_eq_some_iff.mp hall
  exact ⟨net, hrun, hreceived, stream_delivered established_startNet (by decide +kernel) hrun⟩

end EthMange.Tcp
