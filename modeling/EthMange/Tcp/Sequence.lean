import EthMange.Tcp.Sender

/-!
# The sequence space of a sender

Every segment on the queues of a host and every packet that it has sent carries bytes that
its application has written, at their place in the sequence space.
-/

namespace EthMange.Tcp

open Serial

/-- What is queued and sent is the stream that the application has written. -/
structure SendInv (o : SeqNo) (v : SendState) : Prop where
  lbb : v.sndLbb = pos o (tcpLen v.written v.finQueued)
  nxt : ∃ n ≤ tcpLen v.written v.finQueued, v.sndNxt = pos o n
  queued : ∀ seg ∈ v.unsent ++ v.unacked,
    Carries o v.written v.finQueued seg.seqno seg.data seg.fin
  sent : ∀ p ∈ v.sent, p.syn = false ∧ Carries o v.written v.finQueued p.seqno p.data p.fin
  unclosed : v.state.Open → v.finQueued = false
  shut : v.state.Shut → v.finQueued = true

/-- The acknowledgement numbers that come in are numbers of the stream. -/
def Numbers (o : SeqNo) (A : SeqNo → Prop) (v : SendState) : Prop :=
  ∀ ackno, A ackno → ∃ m ≤ tcpLen v.written v.finQueued, ackno = pos o m

section Steps

variable {o : SeqNo} {A B : SeqNo → Prop} {v v' : SendState}

theorem SendStep.written (hstep : SendStep A B v v') : v.written <+: v'.written := by
  cases hstep with
  | write => exact List.prefix_append _ _
  | _ => exact List.prefix_rfl

/-- New packets acknowledge what `B` allows. -/
theorem SendStep.acks (hstep : SendStep A B v v') :
    ∀ p ∈ v'.sent, p ∈ v.sent ∨ p.rst = true ∨ B p.ackno := by
  have hone {q : Packet} (hq : q.rst = true ∨ B q.ackno) :
      ∀ p ∈ v.sent ++ [q], p ∈ v.sent ∨ p.rst = true ∨ B p.ackno := by
    refine List.forall_mem_append.mpr ⟨fun p => .inl, ?_⟩
    exact List.forall_mem_singleton.mpr (.inr hq)
  cases hstep with
  | first _ _ _ hack => exact hone (.inr hack)
  | ackAlone _ _ hack => exact hone (.inr hack)
  | probe _ _ _ _ hack => exact hone (.inr hack)
  | reset => exact hone (.inl rfl)
  | _ => exact fun p => .inl

theorem Sends.acks (hsends : Sends A B v v') :
    ∀ p ∈ v'.sent, p ∈ v.sent ∨ p.rst = true ∨ B p.ackno := by
  induction hsends with
  | refl => exact fun p => .inl
  | tail _ hstep ih =>
    intro p hp
    obtain hold | hnew := hstep.acks p hp
    · exact ih p hold
    · exact .inr hnew

namespace SendInv

theorem send (h : SendInv o v) {p : Packet}
    (hp : p.syn = false ∧ Carries o v.written v.finQueued p.seqno p.data p.fin) :
    SendInv o { v with sent := v.sent ++ [p] } :=
  ⟨h.lbb, h.nxt, h.queued, List.forall_mem_append.mpr ⟨h.sent, List.forall_mem_singleton.mpr hp⟩,
    h.unclosed, h.shut⟩

theorem sub_queues (h : SendInv o v) {unsent unacked : List TcpSeg}
    (hsub : ∀ seg ∈ unsent ++ unacked, seg ∈ v.unsent ++ v.unacked) :
    SendInv o { v with unsent := unsent, unacked := unacked } :=
  ⟨h.lbb, h.nxt, fun seg hseg => h.queued seg (hsub seg hseg), h.sent, h.unclosed, h.shut⟩

theorem setState (h : SendInv o v) {s : TcpState}
    (hopen : s.Open → v.finQueued = false) (hshut : s.Shut → v.finQueued = true) :
    SendInv o { v with state := s } :=
  ⟨h.lbb, h.nxt, h.queued, h.sent, hopen, hshut⟩

theorem grows (h : SendInv o v) (hstep : SendStep A B v v') :
    Grows v.written v.finQueued v'.written v'.finQueued := by
  cases hstep with
  | write _ _ hopen =>
    have hunclosed := h.unclosed hopen
    exact ⟨List.prefix_append _ _, fun hc => absurd (hc.symm.trans hunclosed) (by simp)⟩
  | close => exact ⟨List.prefix_rfl, fun _ => ⟨rfl, rfl⟩⟩
  | _ => exact .refl _ _

theorem next_pos (h : SendInv o v) {seg : TcpSeg} (hseg : seg ∈ v.unsent ++ v.unacked) :
    ∃ n ≤ tcpLen v.written v.finQueued, seg.next = pos o n := by
  obtain ⟨n, hseqno, hle, -, -⟩ := h.queued seg hseg
  exact ⟨n + seg.tcpLen, hle, by rw [TcpSeg.next, hseqno, pos_add]⟩

theorem first (h : SendInv o v) {seg : TcpSeg} {unsent : List TcpSeg}
    (hunsent : v.unsent = seg :: unsent) (ack : SeqNo) (wnd : ℕ) :
    SendInv o
      { v with
        unsent := unsent
        sndNxt := if lt v.sndNxt seg.next then seg.next else v.sndNxt
        unacked := if 0 < seg.tcpLen then putUnacked seg v.unacked else v.unacked
        sent := v.sent ++
          [⟨seg.seqno, ack, wnd, false, seg.fin, false, seg.psh, true, seg.data⟩] } := by
  have hmem : seg ∈ v.unsent ++ v.unacked := by
    rw [hunsent]
    exact List.mem_append_left _ List.mem_cons_self
  have hnxt : ∃ n ≤ tcpLen v.written v.finQueued,
      (if lt v.sndNxt seg.next then seg.next else v.sndNxt) = pos o n := by
    split_ifs
    · exact h.next_pos hmem
    · exact h.nxt
  have hqueued (s : TcpSeg)
      (hs : s ∈ unsent ++ if 0 < seg.tcpLen then putUnacked seg v.unacked else v.unacked) :
      s ∈ v.unsent ++ v.unacked := by
    rw [hunsent]
    split_ifs at hs
    all_goals
      rw [List.mem_append] at hs
      rw [List.mem_append, List.mem_cons]
      try rw [mem_putUnacked] at hs
      tauto
  have hsent : SendInv o { v with sent := v.sent ++
      [⟨seg.seqno, ack, wnd, false, seg.fin, false, seg.psh, true, seg.data⟩] } :=
    h.send ⟨rfl, h.queued seg hmem⟩
  exact ⟨h.lbb, hnxt, fun s hs => h.queued s (hqueued s hs), hsent.sent, h.unclosed, h.shut⟩

/-- The last segment with the data that joins it. -/
theorem carries_chain (h : SendInv o v) (hopen : v.finQueued = false)
    (hlen : v.written.length < 2 ^ 31) {useg q : TcpSeg} {data : Bytes} {copy c : Bool}
    (hmem : useg ∈ v.unsent) (hfin : useg.fin = false) (hnext : useg.next = v.sndLbb)
    (hq : q.data <+: data) :
    Carries o (v.written ++ data) c (chain copy useg q).seqno (chain copy useg q).data
      (chain copy useg q).fin := by
  obtain ⟨n, hseqno, hle, hdata, -⟩ := h.queued useg (List.mem_append_left _ hmem)
  rw [hopen, hfin, tcpLen_false, tcpLen_false] at hle
  have hend : n + useg.data.length = v.written.length := by
    have hlbb := h.lbb
    rw [hopen, tcpLen_false] at hlbb
    rw [TcpSeg.next, hseqno, pos_add, hlbb, TcpSeg.tcpLen_of_fin hfin, TcpSeg.len,
      pos_inj o (by omega) (by omega)] at hnext
    exact hnext
  have hall : useg.data = v.written.drop n :=
    hdata.eq_of_length (by rw [List.length_drop]; omega)
  have hqlen := hq.length_le
  refine ⟨n, hseqno, ?_, ?_, fun hf => absurd (hf.symm.trans hfin) (by simp)⟩
  · rw [show (chain copy useg q).fin = false from hfin, tcpLen_false]
    simp only [chain, tcpLen, List.length_append]
    omega
  · rw [List.drop_append_of_le_length (by omega), chain, hall]
    exact (List.prefix_append_right_inj _).mpr hq

theorem write (h : SendInv o v) (hlen : v.written.length < 2 ^ 31) {mss : ℕ} {data : Bytes}
    {queue : List TcpSeg} (hopen : v.finQueued = false)
    (hcut : CutOf v.sndLbb mss false data queue) (hjoin : JoinsAtEnd v.unsent v.sndLbb mss data)
    (copy more : Bool) (m : ℕ) :
    ∀ seg ∈ setPush more (appendQueue mss copy false v.unsent queue m).1,
      Carries o (v.written ++ data) v.finQueued seg.seqno seg.data seg.fin := by
  have hgrows : Grows v.written v.finQueued (v.written ++ data) v.finQueued :=
    ⟨List.prefix_append _ _, fun hc => absurd (hc.symm.trans hopen) (by simp)⟩
  have hold : ∀ seg ∈ v.unsent,
      Carries o (v.written ++ data) v.finQueued seg.seqno seg.data seg.fin :=
    fun seg hseg => (h.queued seg (List.mem_append_left _ hseg)).mono hgrows
  have hlbb : v.sndLbb = pos o v.written.length := by
    rw [h.lbb, hopen, tcpLen_false]
  have hlaid : Laid (pos o v.written.length) queue := hlbb ▸ hcut.laid
  have hnew : ∀ seg ∈ queue,
      Carries o (v.written ++ data) v.finQueued seg.seqno seg.data seg.fin :=
    hlaid.carries (by rw [hcut.data, List.drop_left]) (by simp) hcut.fins
  refine forall_mem_setPush (fun seg hseg => hseg) ?_
  obtain heq | ⟨init, useg, q, rest, hunsent, rfl, hchains, heq⟩ :=
    appendQueue_cases mss copy false v.unsent queue m
  · rw [heq]
    exact List.forall_mem_append.mpr ⟨hold, hnew⟩
  · obtain ⟨-, hfin, -, hfits⟩ := hchains
    have hlast : useg ∈ v.unsent.getLast? := by rw [hunsent]; simp
    have hnext : useg.next = v.sndLbb := by
      rw [hcut.head q rfl] at hfits
      exact hjoin useg hlast hfin hfits
    have hq : q.data <+: data := by
      rw [← hcut.data, queueData_cons]
      exact List.prefix_append _ _
    rw [heq]
    refine List.forall_mem_append.mpr ⟨fun seg hseg => hold seg ?_,
      List.forall_mem_cons.mpr ⟨?_, fun seg hseg => hnew seg (List.mem_cons_of_mem _ hseg)⟩⟩
    · rw [hunsent]
      exact List.mem_append_left _ hseg
    · exact h.carries_chain hopen hlen (List.mem_of_getLast? hlast) hfin hnext hq

/-- The FIN takes the number behind the stream. -/
theorem close (h : SendInv o v) {mss : ℕ} {queue : List TcpSeg} (hopen : v.finQueued = false)
    (hcut : CutOf v.sndLbb mss true [] queue) (more : Bool) :
    ∀ seg ∈ setPush more (v.unsent ++ queue),
      Carries o v.written true seg.seqno seg.data seg.fin := by
  have hgrows : Grows v.written v.finQueued v.written true :=
    ⟨List.prefix_rfl, fun hc => absurd (hc.symm.trans hopen) (by simp)⟩
  have hlbb : v.sndLbb = pos o v.written.length := by
    rw [h.lbb, hopen, tcpLen_false]
  have hnew : ∀ seg ∈ queue, Carries o v.written true seg.seqno seg.data seg.fin := by
    obtain ⟨seg, rfl⟩ := List.length_eq_one_iff.mp (hcut.single rfl)
    have hdata : seg.data = [] := by simpa using hcut.data
    rw [List.forall_mem_singleton, hdata, hcut.fins seg List.mem_cons_self]
    exact ⟨v.written.length, hcut.laid.1.trans hlbb, le_rfl, List.nil_prefix, fun _ => rfl⟩
  refine forall_mem_setPush (fun seg hseg => hseg) ?_
  exact List.forall_mem_append.mpr
    ⟨fun seg hseg => (h.queued seg (List.mem_append_left _ hseg)).mono hgrows, hnew⟩

/-- What one step keeps. -/
theorem step (h : SendInv o v) (hA : Numbers o A v) (hlen : v.written.length < 2 ^ 31)
    (hstep : SendStep A B v v') : SendInv o v' := by
  have hgrows := h.grows hstep
  cases hstep with
  | first hunsent ack wnd => exact h.first hunsent ack wnd
  | ackAlone =>
    obtain ⟨n, hn, hnxt⟩ := h.nxt
    exact h.send ⟨rfl, hnxt ▸ .empty hn⟩
  | probe hseg hb =>
    have hmem := List.mem_append.mpr (List.mem_append.mp hseg).symm
    exact h.send ⟨rfl, (h.queued _ hmem).cutTo hb⟩
  | reset hseqno =>
    obtain ⟨m, hm, rfl⟩ := hA _ hseqno
    exact h.send ⟨rfl, .empty hm⟩
  | rto => exact h.sub_queues fun seg hseg => by simpa [or_comm] using hseg
  | rexmit hunacked =>
    refine h.sub_queues fun s hs => ?_
    rw [List.mem_append, mem_insertSeg] at hs
    rw [hunacked, List.mem_append, List.mem_cons]
    tauto
  | @newAck ackno =>
    obtain ⟨freed, hfreed, -, -⟩ :=
      freeAcked_spec (fun seg => le seg.next ackno) v.unacked v.sndQueuelen
    refine ⟨h.lbb, h.nxt, fun seg hseg => h.queued seg ?_, h.sent, h.unclosed, h.shut⟩
    rw [hfreed]
    obtain hseg | hseg := List.mem_append.mp hseg
    · exact List.mem_append_left _ hseg
    · exact List.mem_append_right _ (List.mem_append_right _ hseg)
  | @freeUnsent ackno =>
    obtain ⟨freed, hfreed, -, -⟩ :=
      freeAcked_spec (fun seg => Between ackno seg.next v.sndNxt) v.unsent v.sndQueuelen
    refine ⟨h.lbb, h.nxt, fun seg hseg => h.queued seg ?_, h.sent, h.unclosed, h.shut⟩
    rw [hfreed]
    obtain hseg | hseg := List.mem_append.mp hseg
    · exact List.mem_append_left _ (List.mem_append_right _ hseg)
    · exact List.mem_append_right _ hseg
  | write copy more hopen hcut _ _ _ hjoin =>
    have hunclosed := h.unclosed hopen
    obtain ⟨n, hn, hnxt⟩ := h.nxt
    refine ⟨?_, ⟨n, hn.trans hgrows.tcpLen_le, hnxt⟩, List.forall_mem_append.mpr
      ⟨h.write hlen hunclosed hcut hjoin copy more _, fun seg hseg =>
        (h.queued seg (List.mem_append_right _ hseg)).mono hgrows⟩,
      fun p hp => ⟨(h.sent p hp).1, (h.sent p hp).2.mono hgrows⟩, h.unclosed, h.shut⟩
    dsimp only
    rw [h.lbb, pos_add, hunclosed, tcpLen_false, tcpLen_false, List.length_append]
  | close hstate hcut =>
    have hunclosed := h.unclosed (hstate.imp And.left And.left)
    obtain ⟨n, hn, hnxt⟩ := h.nxt
    refine ⟨?_, ⟨n, hn.trans hgrows.tcpLen_le, hnxt⟩, List.forall_mem_append.mpr
      ⟨h.close hunclosed hcut false, fun seg hseg =>
        (h.queued seg (List.mem_append_right _ hseg)).mono hgrows⟩,
      fun p hp => ⟨(h.sent p hp).1, (h.sent p hp).2.mono hgrows⟩, fun hs => ?_, fun _ => rfl⟩
    · dsimp only
      rw [h.lbb, pos_succ, hunclosed, tcpLen_false, tcpLen_true]
    · obtain ⟨-, rfl⟩ | ⟨-, rfl⟩ := hstate <;> simp [TcpState.Open] at hs
  | enter hopen _ hshut =>
    exact h.setState (fun hs => h.unclosed (hopen hs)) fun hs => h.shut (hshut hs)
  | purge => exact h.sub_queues (by simp)

/-- What any number of steps keep. -/
theorem sends (h : SendInv o v) (hA : Numbers o A v) (hsends : Sends A B v v')
    (hlen : v'.written.length < 2 ^ 31) :
    SendInv o v' ∧ Grows v.written v.finQueued v'.written v'.finQueued := by
  induction hsends with
  | refl => exact ⟨h, .refl _ _⟩
  | tail _ hstep ih =>
    obtain ⟨hmid, hgrows⟩ := ih (hstep.written.length_le.trans_lt hlen)
    have hAmid : Numbers o A _ := fun ackno hack => by
      obtain ⟨m, hm, hackno⟩ := hA ackno hack
      exact ⟨m, hm.trans hgrows.tcpLen_le, hackno⟩
    exact ⟨hmid.step hAmid (hstep.written.length_le.trans_lt hlen) hstep,
      hgrows.trans (hmid.grows hstep)⟩

end SendInv

end Steps

end EthMange.Tcp
