import EthMange.Tcp.Stream

/-!
# Nothing is lost

What a host has written and its peer has not acknowledged is on the queues, and the peer
acknowledges only what it has handed on. The accounts of the queues are exact.
-/

namespace EthMange.Tcp

open Serial Run

/-- A segment has the number of the place `k`. -/
def Covers (o : SeqNo) (seg : TcpSeg) (k : ℕ) : Prop :=
  ∃ m ≤ k, seg.seqno = pos o m ∧ k < m + seg.tcpLen

/-- The places of a sender: `a` is acknowledged, `n` is the next one to send, and `d` is what
the peer has got. Its queues hold what lies behind `a`, and what lies behind `n` is on
`unsent`. -/
structure QueueInv (o : SeqNo) (d : ℕ) (v : SendState) (a n : ℕ) : Prop where
  lastack : v.lastack = pos o a
  next : v.sndNxt = pos o n
  acked : a ≤ d
  le_next : a ≤ n
  within : n ≤ tcpLen v.written v.finQueued
  bufLt : v.sndBuf < 2 ^ 16
  buf : (v.sndBuf + (tcpLen v.written v.finQueued - a)) % 2 ^ 16 = tcpSndBuf
  room : v.written.length ≤ a + tcpSndBuf
  full : ∀ seg ∈ v.unsent ++ v.unacked, 0 < seg.tcpLen ∧ 1 ≤ seg.clen
  queuelen : v.state.Active → v.sndQueuelen = clens v.unsent + clens v.unacked
  short : v.sndQueuelen ≤ tcpSndQueuelen
  queued : v.state.Active → ∀ k, a ≤ k → k < tcpLen v.written v.finQueued →
    ∃ seg ∈ v.unsent ++ v.unacked, Covers o seg k
  ahead : v.state.Active → ∀ k, n ≤ k → k < tcpLen v.written v.finQueued →
    ∃ seg ∈ v.unsent, Covers o seg k

section Covers

variable {o : SeqNo} {seg useg q : TcpSeg} {queue : List TcpSeg} {k m n : ℕ}

theorem Covers.lt_next (h : Covers o seg k) (hnext : seg.next = pos o m)
    (hk : k + 1 < 2 ^ 31) (hm : m < 2 ^ 31) (hlen : seg.tcpLen < 2 ^ 31) : k < m := by
  obtain ⟨i, hi, hseqno, hlt⟩ := h
  rw [TcpSeg.next, hseqno, pos_add, pos_inj o (by omega) (by omega)] at hnext
  omega

/-- Segments that follow each other have all the numbers from the first one on. -/
theorem Laid.covers (hlaid : Laid (pos o n) queue) (hn : n ≤ k)
    (hk : k < n + (queue.map TcpSeg.tcpLen).sum) : ∃ seg ∈ queue, Covers o seg k := by
  induction queue generalizing n with
  | nil =>
    rw [List.map_nil, List.sum_nil] at hk
    omega
  | cons seg queue ih =>
    obtain ⟨hseqno, hlaid⟩ := hlaid
    rw [TcpSeg.next, hseqno, pos_add] at hlaid
    rw [List.map_cons, List.sum_cons] at hk
    by_cases hseg : k < n + seg.tcpLen
    · exact ⟨seg, List.mem_cons_self, n, hn, hseqno, hseg⟩
    · obtain ⟨s, hs, hcovers⟩ := ih hlaid (by omega) (by omega)
      exact ⟨s, List.mem_cons_of_mem _ hs, hcovers⟩

theorem CutOf.sum_tcpLen {seqno : SeqNo} {mss : ℕ} {data : Bytes}
    (hcut : CutOf seqno mss false data queue) : (queue.map TcpSeg.tcpLen).sum = data.length := by
  obtain rfl := hcut.data
  have hfins := hcut.fins
  clear hcut
  induction queue with
  | nil => rfl
  | cons seg queue ih =>
    obtain ⟨hfin, hfins⟩ := List.forall_mem_cons.mp hfins
    rw [List.map_cons, List.sum_cons, queueData_cons, List.length_append, ih hfins,
      TcpSeg.tcpLen_of_fin hfin, TcpSeg.len]

theorem CutOf.sum_tcpLen_fin {seqno : SeqNo} {mss : ℕ}
    (hcut : CutOf seqno mss true [] queue) : (queue.map TcpSeg.tcpLen).sum = 1 := by
  obtain ⟨seg, rfl⟩ := List.length_eq_one_iff.mp (hcut.single rfl)
  have hdata : seg.data = [] := by simpa using hcut.data
  simp [TcpSeg.tcpLen, tcpLen, hdata, hcut.fins seg List.mem_cons_self]

theorem tcpLen_chain (copy : Bool) (hfin : useg.fin = false) (hfin' : q.fin = false) :
    (chain copy useg q).tcpLen = useg.tcpLen + q.tcpLen := by
  simp [chain, TcpSeg.tcpLen, tcpLen, hfin, hfin']

end Covers

namespace QueueInv

variable {o : SeqNo} {d a n : ℕ} {A B : SeqNo → Prop} {v v' : SendState}

theorem setSent (h : QueueInv o d v a n) (sent : List Packet) :
    QueueInv o d { v with sent := sent } a n :=
  ⟨h.lastack, h.next, h.acked, h.le_next, h.within, h.bufLt, h.buf, h.room, h.full, h.queuelen,
    h.short, h.queued, h.ahead⟩

theorem setState (h : QueueInv o d v a n) {s : TcpState} (hs : s.Active → v.state.Active) :
    QueueInv o d { v with state := s } a n :=
  ⟨h.lastack, h.next, h.acked, h.le_next, h.within, h.bufLt, h.buf, h.room, h.full,
    fun hact => h.queuelen (hs hact), h.short, fun hact => h.queued (hs hact),
    fun hact => h.ahead (hs hact)⟩

/-- Segments change their places on the queues. -/
theorem setQueues (h : QueueInv o d v a n) {unsent unacked : List TcpSeg}
    (hsame : ∀ seg, seg ∈ unsent ++ unacked ↔ seg ∈ v.unsent ++ v.unacked)
    (hunsent : ∀ seg ∈ v.unsent, seg ∈ unsent)
    (hclens : clens unsent + clens unacked = clens v.unsent + clens v.unacked) :
    QueueInv o d { v with unsent := unsent, unacked := unacked } a n := by
  refine ⟨h.lastack, h.next, h.acked, h.le_next, h.within, h.bufLt, h.buf, h.room,
    fun seg hseg => h.full seg ((hsame seg).mp hseg),
    fun hact => (h.queuelen hact).trans hclens.symm, h.short, fun hact k hk hlt => ?_,
    fun hact k hk hlt => ?_⟩
  · obtain ⟨seg, hseg, hcovers⟩ := h.queued hact k hk hlt
    exact ⟨seg, (hsame seg).mpr hseg, hcovers⟩
  · obtain ⟨seg, hseg, hcovers⟩ := h.ahead hact k hk hlt
    exact ⟨seg, hunsent seg hseg, hcovers⟩

/-- The first segment of `unsent` is sent; `snd_nxt` may move on. -/
theorem first (h : QueueInv o d v a n) (hinv : SendInv o v)
    (hbound : tcpLen v.written v.finQueued < 2 ^ 31) {seg : TcpSeg} {unsent : List TcpSeg}
    (hunsent : v.unsent = seg :: unsent) :
    ∃ n', QueueInv o d
      { v with
        unsent := unsent
        sndNxt := if lt v.sndNxt seg.next then seg.next else v.sndNxt
        unacked := if 0 < seg.tcpLen then putUnacked seg v.unacked else v.unacked } a n' := by
  have hmem : seg ∈ v.unsent ++ v.unacked := by
    rw [hunsent]
    exact List.mem_append_left _ List.mem_cons_self
  obtain ⟨hpos, -⟩ := h.full seg hmem
  have hwithin := h.within
  obtain ⟨m, hm, hnext⟩ := hinv.next_pos hmem
  have hlt : lt v.sndNxt seg.next ↔ n < m := by
    rw [h.next, hnext, lt_pos_iff o (by omega) (by omega)]
  have hsame (s : TcpSeg) :
      s ∈ unsent ++ putUnacked seg v.unacked ↔ s ∈ v.unsent ++ v.unacked := by
    rw [hunsent, List.mem_append, mem_putUnacked, List.mem_append, List.mem_cons]
    tauto
  have hclens : clens unsent + clens (putUnacked seg v.unacked) =
      clens v.unsent + clens v.unacked := by
    rw [hunsent, clens_putUnacked, clens_cons]
    omega
  obtain ⟨-, hlen⟩ : 0 < seg.tcpLen ∧ seg.tcpLen < 2 ^ 31 := by
    obtain ⟨i, -, hle, -, -⟩ := hinv.queued seg hmem
    have : seg.tcpLen ≤ tcpLen v.written v.finQueued := (Nat.le_add_left _ i).trans hle
    omega
  rw [if_pos hpos]
  refine ⟨max n m, h.lastack, ?_, h.acked, h.le_next.trans (le_max_left _ _),
    max_le hwithin hm, h.bufLt, h.buf, h.room, fun s hs => h.full s ((hsame s).mp hs),
    fun hact => (h.queuelen hact).trans hclens.symm, h.short, fun hact k hk hkt => ?_,
    fun hact k hk hkt => ?_⟩
  · dsimp only
    split_ifs with hmove
    · rw [max_eq_right (hlt.mp hmove).le, hnext]
    · rw [max_eq_left (not_lt.mp (mt hlt.mpr hmove)), h.next]
  · obtain ⟨s, hs, hcovers⟩ := h.queued hact k hk hkt
    exact ⟨s, (hsame s).mpr hs, hcovers⟩
  · obtain ⟨s, hs, hcovers⟩ := h.ahead hact k ((le_max_left _ _).trans hk) hkt
    dsimp only at hkt
    obtain rfl | hs := List.mem_cons.mp (hunsent ▸ hs)
    · -- what this segment has lies in front of the new `snd_nxt`
      have := hcovers.lt_next hnext (by omega) (by omega) hlen
      have := (le_max_right n m).trans hk
      omega
    · exact ⟨s, hs, hcovers⟩

/-- A segment with a number behind `m` is not freed by an ACK up to `m`. -/
theorem not_done (hinv : SendInv o v) (hbound : tcpLen v.written v.finQueued < 2 ^ 31) {m k : ℕ}
    {seg : TcpSeg} (hseg : seg ∈ v.unsent ++ v.unacked) (hk : m ≤ k)
    (hkt : k < tcpLen v.written v.finQueued) (hcovers : Covers o seg k) :
    ¬ le seg.next (pos o m) := by
  obtain ⟨j, hj, hnext⟩ := hinv.next_pos hseg
  obtain ⟨i, -, hle, -, -⟩ := hinv.queued seg hseg
  have hlen : seg.tcpLen ≤ tcpLen v.written v.finQueued := (Nat.le_add_left _ i).trans hle
  have hlt := hcovers.lt_next hnext (by omega) (by omega) (by omega)
  rw [hnext, le_pos_iff o (by omega) (by omega)]
  omega

theorem newAck (h : QueueInv o d v a n) (hinv : SendInv o v)
    (hbound : tcpLen v.written v.finQueued < 2 ^ 31) {m : ℕ} (hm : m ≤ d)
    (hmt : m ≤ tcpLen v.written v.finQueued)
    (hnew : Between (pos o m) (v.lastack + 1) v.sndNxt) :
    QueueInv o d
      { v with
        lastack := pos o m
        sndBuf := (v.sndBuf + (pos o m - v.lastack).toNat % 2 ^ 16) % 2 ^ 16
        unacked := (freeAcked (fun seg => le seg.next (pos o m)) v.unacked v.sndQueuelen).1
        sndQueuelen := (freeAcked (fun seg => le seg.next (pos o m)) v.unacked v.sndQueuelen).2 }
      m n := by
  have hwithin := h.within
  have hle := h.le_next
  rw [h.lastack, h.next, pos_succ, between_pos_iff o (by omega) (by omega) (by omega) (by omega)]
    at hnew
  have hacked : (pos o m - v.lastack).toNat = m - a := by
    rw [h.lastack, toNat_pos_sub o (by omega) (by omega)]
  obtain ⟨freed, hqueue, hdone, hlen⟩ :=
    freeAcked_spec (fun seg => le seg.next (pos o m)) v.unacked v.sndQueuelen
  rw [hlen, hacked]
  generalize (freeAcked (fun seg => le seg.next (pos o m)) v.unacked v.sndQueuelen).1 = rest
    at hqueue ⊢
  have hrest (seg : TcpSeg) (hseg : seg ∈ v.unsent ++ rest) : seg ∈ v.unsent ++ v.unacked := by
    rw [hqueue]
    obtain hseg | hseg := List.mem_append.mp hseg
    · exact List.mem_append_left _ hseg
    · exact List.mem_append_right _ (List.mem_append_right _ hseg)
  refine ⟨rfl, h.next, hm, hnew.2, hwithin, Nat.mod_lt _ (by norm_num), ?_, ?_,
    fun seg hseg => h.full seg (hrest seg hseg), fun hact => ?_, ?_, fun hact k hk hkt => ?_,
    h.ahead⟩
  · have hbuf := h.buf
    dsimp only
    omega
  · have hroom := h.room
    dsimp only
    omega
  · have hqueuelen := h.queuelen hact
    rw [hqueue, clens_append] at hqueuelen
    dsimp only
    omega
  · exact (Nat.sub_le _ _).trans h.short
  · dsimp only at hkt
    obtain ⟨seg, hseg, hcovers⟩ := h.queued hact k (by omega) hkt
    refine ⟨seg, ?_, hcovers⟩
    have hkept := not_done hinv hbound hseg hk hkt hcovers
    rw [hqueue] at hseg
    obtain hseg | hseg := List.mem_append.mp hseg
    · exact List.mem_append_left _ hseg
    · obtain hseg | hseg := List.mem_append.mp hseg
      · exact absurd (by simpa using hdone seg hseg) hkept
      · exact List.mem_append_right _ hseg

theorem freeUnsent (h : QueueInv o d v a n) (hinv : SendInv o v)
    (hbound : tcpLen v.written v.finQueued < 2 ^ 31) {m : ℕ}
    (hmt : m ≤ tcpLen v.written v.finQueued)
    (hold : ¬ Between (pos o m) (v.lastack + 1) v.sndNxt ∨ v.lastack = pos o m) :
    QueueInv o d
      { v with
        unsent := (freeAcked (fun seg => Between (pos o m) seg.next v.sndNxt) v.unsent
          v.sndQueuelen).1
        sndQueuelen := (freeAcked (fun seg => Between (pos o m) seg.next v.sndNxt) v.unsent
          v.sndQueuelen).2 } a n := by
  have hwithin := h.within
  have hle := h.le_next
  obtain ⟨freed, hqueue, hdone, hlen⟩ :=
    freeAcked_spec (fun seg => Between (pos o m) seg.next v.sndNxt) v.unsent v.sndQueuelen
  rw [hlen]
  generalize (freeAcked (fun seg => Between (pos o m) seg.next v.sndNxt) v.unsent
    v.sndQueuelen).1 = rest at hqueue ⊢
  -- what is freed here was acknowledged before
  have hma : m ≤ n → m ≤ a := fun hmn => by
    rw [h.lastack, h.next, pos_succ, between_pos_iff o (by omega) (by omega) (by omega) (by omega),
      pos_inj o (by omega) (by omega)] at hold
    omega
  have hfreed (seg : TcpSeg) (hseg : seg ∈ freed) (k : ℕ) (hk : a ≤ k)
      (hkt : k < tcpLen v.written v.finQueued) : ¬ Covers o seg k := fun hcovers => by
    have hmem : seg ∈ v.unsent ++ v.unacked := by
      rw [hqueue]
      exact List.mem_append_left _ (List.mem_append_left _ hseg)
    have hbetween : Between (pos o m) seg.next v.sndNxt := by simpa using hdone seg hseg
    obtain ⟨j, hj, hnext⟩ := hinv.next_pos hmem
    rw [hnext, h.next, between_pos_iff o (by omega) (by omega) (by omega) (by omega)] at hbetween
    have hle' : le seg.next (pos o m) := by
      rw [hnext, le_pos_iff o (by omega) (by omega)]
      exact hbetween.1
    exact not_done hinv hbound hmem ((hma hbetween.2).trans hk) hkt hcovers hle'
  have hrest (seg : TcpSeg) (hseg : seg ∈ rest ++ v.unacked) : seg ∈ v.unsent ++ v.unacked := by
    rw [hqueue]
    obtain hseg | hseg := List.mem_append.mp hseg
    · exact List.mem_append_left _ (List.mem_append_right _ hseg)
    · exact List.mem_append_right _ hseg
  refine ⟨h.lastack, h.next, h.acked, hle, hwithin, h.bufLt, h.buf, h.room,
    fun seg hseg => h.full seg (hrest seg hseg), fun hact => ?_, ?_, fun hact k hk hkt => ?_,
    fun hact k hk hkt => ?_⟩
  · have hqueuelen := h.queuelen hact
    rw [hqueue, clens_append] at hqueuelen
    dsimp only
    omega
  · exact (Nat.sub_le _ _).trans h.short
  · obtain ⟨seg, hseg, hcovers⟩ := h.queued hact k hk hkt
    refine ⟨seg, ?_, hcovers⟩
    rw [hqueue, List.append_assoc] at hseg
    exact (List.mem_append.mp hseg).resolve_left fun hseg => hfreed seg hseg k hk hkt hcovers
  · obtain ⟨seg, hseg, hcovers⟩ := h.ahead hact k hk hkt
    refine ⟨seg, ?_, hcovers⟩
    rw [hqueue] at hseg
    exact (List.mem_append.mp hseg).resolve_left fun hseg =>
      hfreed seg hseg k (hle.trans hk) hkt hcovers

/-- The numbers that the new segments and those in front of them have are all there, also where
two of them are one. -/
theorem appended (hinv : SendInv o v) (hopen : v.finQueued = false) {mss : ℕ} {data : Bytes}
    {queue : List TcpSeg} (hcut : CutOf v.sndLbb mss false data queue)
    (hjoin : JoinsAtEnd v.unsent v.sndLbb mss data)
    (hbound : v.written.length + data.length < 2 ^ 31) (copy : Bool) (m k : ℕ) :
    (v.written.length ≤ k → k < v.written.length + data.length →
        ∃ seg ∈ (appendQueue mss copy false v.unsent queue m).1, Covers o seg k) ∧
      ∀ seg ∈ v.unsent, Covers o seg k →
        ∃ seg' ∈ (appendQueue mss copy false v.unsent queue m).1, Covers o seg' k := by
  have hlbb : v.sndLbb = pos o v.written.length := by
    rw [hinv.lbb, hopen, tcpLen_false]
  have hsum := hcut.sum_tcpLen
  have hlaid : Laid (pos o v.written.length) queue := hlbb ▸ hcut.laid
  obtain heq | ⟨init, useg, q, rest, hunsent, rfl, hchains, heq⟩ :=
    appendQueue_cases mss copy false v.unsent queue m
  · rw [heq]
    refine ⟨fun hk hlt => ?_, fun seg hseg hcovers => ⟨seg, List.mem_append_left _ hseg, hcovers⟩⟩
    obtain ⟨seg, hseg, hcovers⟩ := hlaid.covers hk (hsum.symm ▸ hlt)
    exact ⟨seg, List.mem_append_right _ hseg, hcovers⟩
  · obtain ⟨-, hfin, -, hfits⟩ := hchains
    have hlast : useg ∈ v.unsent.getLast? := by rw [hunsent]; simp
    have hnext : useg.next = v.sndLbb := by
      rw [hcut.head q rfl] at hfits
      exact hjoin useg hlast hfin hfits
    have hmem : useg ∈ v.unsent ++ v.unacked :=
      List.mem_append_left _ (List.mem_of_getLast? hlast)
    obtain ⟨i, hi, hle, -, -⟩ := hinv.queued useg hmem
    rw [hopen, tcpLen_false] at hle
    change i + useg.tcpLen ≤ _ at hle
    have hend : i + useg.tcpLen = v.written.length := by
      rw [TcpSeg.next, hi, pos_add, hlbb, pos_inj o (by omega) (by omega)] at hnext
      exact hnext
    have hqfin : q.fin = false := hcut.fins q List.mem_cons_self
    have hlen : (chain copy useg q).tcpLen = useg.tcpLen + q.tcpLen :=
      tcpLen_chain copy hfin hqfin
    have hchain : chain copy useg q ∈ init ++ chain copy useg q :: rest :=
      List.mem_append_right _ List.mem_cons_self
    obtain ⟨hq, hlaid⟩ := hlaid
    rw [TcpSeg.next, hq, pos_add] at hlaid
    rw [List.map_cons, List.sum_cons] at hsum
    rw [heq]
    refine ⟨fun hk hlt => ?_, fun seg hseg hcovers => ?_⟩
    · by_cases hin : k < v.written.length + q.tcpLen
      · exact ⟨_, hchain, i, by omega, hi, by rw [hlen]; omega⟩
      · obtain ⟨seg, hseg, hcovers⟩ := hlaid.covers (by omega) (by omega : k < _)
        exact ⟨seg, List.mem_append_right _ (List.mem_cons_of_mem _ hseg), hcovers⟩
    · rw [hunsent, List.mem_append, List.mem_singleton] at hseg
      obtain hseg | rfl := hseg
      · exact ⟨seg, List.mem_append_left _ hseg, hcovers⟩
      · obtain ⟨j, hj, hseqno, hlt⟩ := hcovers
        exact ⟨_, hchain, j, hj, hseqno, by rw [hlen]; omega⟩

theorem appended_clens (mss : ℕ) (copy : Bool) {unsent queue : List TcpSeg} {m : ℕ}
    (hpbufs : ∀ seg ∈ queue, 1 ≤ seg.clen) (hm : m = clens unsent + clens queue + n) :
    (appendQueue mss copy false unsent queue m).2 =
        clens (appendQueue mss copy false unsent queue m).1 + n ∧
      (appendQueue mss copy false unsent queue m).2 ≤ m := by
  obtain heq | ⟨init, useg, q, rest, rfl, rfl, -, heq⟩ :=
    appendQueue_cases mss copy false unsent queue m
  · rw [heq, clens_append]
    exact ⟨by omega, le_rfl⟩
  · have hone := Bool.toNat_le (!copy)
    have hq := hpbufs q List.mem_cons_self
    simp only [clens_append, clens_cons, clens_nil] at hm
    rw [heq]
    simp only [clens_append, clens_cons, chain]
    omega

theorem appended_full {mss : ℕ} {copy : Bool} {unsent queue : List TcpSeg} {m : ℕ}
    (hunsent : ∀ seg ∈ unsent, 0 < seg.tcpLen ∧ 1 ≤ seg.clen)
    (hqueue : ∀ seg ∈ queue, 0 < seg.tcpLen ∧ 1 ≤ seg.clen) :
    ∀ seg ∈ (appendQueue mss copy false unsent queue m).1, 0 < seg.tcpLen ∧ 1 ≤ seg.clen := by
  obtain heq | ⟨init, useg, q, rest, rfl, rfl, -, heq⟩ :=
    appendQueue_cases mss copy false unsent queue m
  · rw [heq]
    exact List.forall_mem_append.mpr ⟨hunsent, hqueue⟩
  · rw [List.forall_mem_append, List.forall_mem_singleton] at hunsent
    rw [List.forall_mem_cons] at hqueue
    obtain ⟨hinit, hlen, hclen⟩ := hunsent
    have hjoined : useg.tcpLen ≤ (chain copy useg q).tcpLen := by
      simp only [chain, TcpSeg.tcpLen, tcpLen, List.length_append]
      omega
    have hchained : useg.clen ≤ (chain copy useg q).clen := Nat.le_add_right _ _
    rw [heq]
    exact List.forall_mem_append.mpr ⟨hinit, List.forall_mem_cons.mpr
      ⟨⟨hlen.trans_le hjoined, hclen.trans hchained⟩, hqueue.2⟩⟩

theorem write (h : QueueInv o d v a n) (hinv : SendInv o v) (hopen : v.finQueued = false)
    (hactive : v.state.Active) {mss : ℕ} {data : Bytes} {queue : List TcpSeg} (copy more : Bool)
    (hcut : CutOf v.sndLbb mss false data queue) (hbuf : data.length ≤ v.sndBuf)
    (hlen : v.sndQueuelen + clens queue ≤ tcpSndQueuelen) (hdata : data ≠ [])
    (hjoin : JoinsAtEnd v.unsent v.sndLbb mss data)
    (hbound : v.written.length + data.length < 2 ^ 31) :
    QueueInv o d
      { v with
        written := v.written ++ data
        unsent := setPush more
          (appendQueue mss copy false v.unsent queue (v.sndQueuelen + clens queue)).1
        sndLbb := v.sndLbb + BitVec.ofNat 32 data.length
        sndBuf := (v.sndBuf + 2 ^ 16 - data.length) % 2 ^ 16
        sndQueuelen :=
          (appendQueue mss copy false v.unsent queue (v.sndQueuelen + clens queue)).2 } a n := by
  have htotal : tcpLen v.written v.finQueued = v.written.length := by rw [hopen, tcpLen_false]
  have htotal' : tcpLen (v.written ++ data) v.finQueued = v.written.length + data.length := by
    rw [hopen, tcpLen_false, List.length_append]
  have happended := appended hinv hopen hcut hjoin hbound copy (v.sndQueuelen + clens queue)
  have hpushed (k : ℕ) (hcovers : ∃ seg ∈ (appendQueue mss copy false v.unsent queue
      (v.sndQueuelen + clens queue)).1, Covers o seg k) :
      ∃ seg ∈ setPush more (appendQueue mss copy false v.unsent queue
        (v.sndQueuelen + clens queue)).1, Covers o seg k :=
    exists_mem_setPush (fun seg hseg => hseg) hcovers
  have hqueuelen := h.queuelen hactive
  have hclens := appended_clens mss copy hcut.pbufs
    (by omega : v.sndQueuelen + clens queue = clens v.unsent + clens queue + clens v.unacked)
  have hwithin := h.within
  have hle := h.le_next
  have hlt := h.bufLt
  have hfree := h.buf
  have hroom := h.room
  have hsnd : tcpSndBuf = 2920 := rfl
  rw [htotal] at hwithin hfree
  refine ⟨h.lastack, h.next, h.acked, hle, ?_, Nat.mod_lt _ (by norm_num), ?_, ?_, ?_,
    fun hact => ?_, ?_, fun hact k hk hkt => ?_, fun hact k hk hkt => ?_⟩
  · exact htotal' ▸ (by omega)
  · dsimp only
    rw [htotal']
    omega
  · dsimp only
    rw [List.length_append]
    omega
  · refine List.forall_mem_append.mpr ⟨forall_mem_setPush (fun seg hseg => hseg) ?_,
      fun seg hseg => h.full seg (List.mem_append_right _ hseg)⟩
    exact appended_full (fun seg hseg => h.full seg (List.mem_append_left _ hseg))
      fun seg hseg => ⟨hcut.full (.inl hdata) seg hseg, hcut.pbufs seg hseg⟩
  · dsimp only
    rw [clens_setPush]
    exact hclens.1
  · exact hclens.2.trans hlen
  · dsimp only at hkt
    rw [htotal'] at hkt
    by_cases hnew : v.written.length ≤ k
    · obtain ⟨seg, hseg, hcovers⟩ := hpushed k ((happended k).1 hnew hkt)
      exact ⟨seg, List.mem_append_left _ hseg, hcovers⟩
    · obtain ⟨seg, hseg, hcovers⟩ := h.queued hact k hk (htotal ▸ not_le.mp hnew)
      obtain hseg | hseg := List.mem_append.mp hseg
      · obtain ⟨seg, hseg, hcovers⟩ := hpushed k ((happended k).2 seg hseg hcovers)
        exact ⟨seg, List.mem_append_left _ hseg, hcovers⟩
      · exact ⟨seg, List.mem_append_right _ hseg, hcovers⟩
  · dsimp only at hkt
    rw [htotal'] at hkt
    by_cases hnew : v.written.length ≤ k
    · exact hpushed k ((happended k).1 hnew hkt)
    · obtain ⟨seg, hseg, hcovers⟩ := h.ahead hact k hk (htotal ▸ not_le.mp hnew)
      exact hpushed k ((happended k).2 seg hseg hcovers)

theorem close (h : QueueInv o d v a n) (hinv : SendInv o v) (hopen : v.finQueued = false)
    (hactive : v.state.Active) {mss : ℕ} {queue : List TcpSeg} (s : TcpState)
    (hcut : CutOf v.sndLbb mss true [] queue)
    (hlen : v.sndQueuelen + clens queue ≤ tcpSndQueuelen) :
    QueueInv o d
      { v with
        state := s
        finQueued := true
        unsent := setPush false (v.unsent ++ queue)
        sndLbb := v.sndLbb + 1
        sndBuf := (v.sndBuf + 2 ^ 16 - 1) % 2 ^ 16
        sndQueuelen := v.sndQueuelen + clens queue } a n := by
  have htotal : tcpLen v.written v.finQueued = v.written.length := by rw [hopen, tcpLen_false]
  have hlbb : v.sndLbb = pos o v.written.length := by
    rw [hinv.lbb, htotal]
  have hlaid : Laid (pos o v.written.length) queue := hlbb ▸ hcut.laid
  have hpushed {k : ℕ} (hcovers : ∃ seg ∈ v.unsent ++ queue, Covers o seg k) :
      ∃ seg ∈ setPush false (v.unsent ++ queue), Covers o seg k :=
    exists_mem_setPush (fun seg hseg => hseg) hcovers
  have hfin {k : ℕ} (hk : v.written.length ≤ k) (hkt : k < v.written.length + 1) :
      ∃ seg ∈ setPush false (v.unsent ++ queue), Covers o seg k := by
    obtain ⟨seg, hseg, hcovers⟩ := hlaid.covers hk (hcut.sum_tcpLen_fin.symm ▸ hkt)
    exact hpushed ⟨seg, List.mem_append_right _ hseg, hcovers⟩
  have hwithin := h.within
  have hle := h.le_next
  have hlt := h.bufLt
  have hfree := h.buf
  have hqueuelen := h.queuelen hactive
  rw [htotal] at hwithin hfree
  refine ⟨h.lastack, h.next, h.acked, hle, ?_, Nat.mod_lt _ (by norm_num), ?_, h.room, ?_,
    fun _ => ?_, hlen, fun _ k hk hkt => ?_, fun _ k hk hkt => ?_⟩
  · exact hwithin.trans (Nat.le_succ _)
  · dsimp only
    rw [tcpLen_true]
    omega
  · refine List.forall_mem_append.mpr ⟨forall_mem_setPush (fun seg hseg => hseg) ?_,
      fun seg hseg => h.full seg (List.mem_append_right _ hseg)⟩
    exact List.forall_mem_append.mpr ⟨fun seg hseg => h.full seg (List.mem_append_left _ hseg),
      fun seg hseg => ⟨hcut.full (.inr rfl) seg hseg, hcut.pbufs seg hseg⟩⟩
  · dsimp only
    rw [clens_setPush, clens_append]
    omega
  · dsimp only at hkt
    rw [tcpLen_true] at hkt
    by_cases hnew : v.written.length ≤ k
    · obtain ⟨seg, hseg, hcovers⟩ := hfin hnew hkt
      exact ⟨seg, List.mem_append_left _ hseg, hcovers⟩
    · obtain ⟨seg, hseg, hcovers⟩ := h.queued hactive k hk (htotal ▸ not_le.mp hnew)
      obtain hseg | hseg := List.mem_append.mp hseg
      · obtain ⟨seg, hseg, hcovers⟩ := hpushed ⟨seg, List.mem_append_left _ hseg, hcovers⟩
        exact ⟨seg, List.mem_append_left _ hseg, hcovers⟩
      · exact ⟨seg, List.mem_append_right _ hseg, hcovers⟩
  · dsimp only at hkt
    rw [tcpLen_true] at hkt
    by_cases hnew : v.written.length ≤ k
    · exact hfin hnew hkt
    · obtain ⟨seg, hseg, hcovers⟩ := h.ahead hactive k hk (htotal ▸ not_le.mp hnew)
      exact hpushed ⟨seg, List.mem_append_left _ hseg, hcovers⟩

/-- What one step keeps. -/
theorem step (h : QueueInv o d v a n) (hinv : SendInv o v)
    (hA : ∀ ackno, A ackno → ∃ m ≤ d, ackno = pos o m)
    (hd : d ≤ tcpLen v.written v.finQueued)
    (hbound : tcpLen v'.written v'.finQueued < 2 ^ 31) (hstep : SendStep A B v v') :
    ∃ a' n', QueueInv o d v' a' n' := by
  have hbefore : tcpLen v.written v.finQueued < 2 ^ 31 :=
    (hinv.grows hstep).tcpLen_le.trans_lt hbound
  cases hstep with
  | first hunsent =>
    obtain ⟨n', hfirst⟩ := h.first hinv hbefore hunsent
    exact ⟨a, n', hfirst.setSent _⟩
  | ackAlone => exact ⟨a, n, h.setSent _⟩
  | probe => exact ⟨a, n, h.setSent _⟩
  | reset => exact ⟨a, n, h.setSent _⟩
  | rto =>
    refine ⟨a, n, h.setQueues (fun seg => ?_) (fun seg => List.mem_append_right _) ?_⟩
    · rw [List.append_nil, List.mem_append, List.mem_append, or_comm]
    · rw [clens_append, clens_nil]
      omega
  | rexmit hunacked =>
    refine ⟨a, n, h.setQueues (fun seg => ?_) (fun seg hseg => mem_insertSeg.mpr (.inr hseg)) ?_⟩
    · rw [hunacked, List.mem_append, mem_insertSeg, List.mem_append, List.mem_cons]
      tauto
    · rw [hunacked, clens_insertSeg, clens_cons]
      omega
  | newAck hack hnew =>
    obtain ⟨m, hm, rfl⟩ := hA _ hack
    exact ⟨m, n, h.newAck hinv hbefore hm (hm.trans hd) hnew⟩
  | freeUnsent hack hold =>
    obtain ⟨m, hm, rfl⟩ := hA _ hack
    exact ⟨a, n, h.freeUnsent hinv hbefore (hm.trans hd) hold⟩
  | write copy more hopen hcut hbuf hlen hdata hjoin =>
    have hunclosed := hinv.unclosed hopen
    have hactive : v.state.Active := by
      obtain hs | hs := hopen <;> simp [TcpState.Active, hs]
    dsimp only at hbound
    rw [hunclosed, tcpLen_false, List.length_append] at hbound
    exact ⟨a, n, h.write hinv hunclosed hactive copy more hcut hbuf hlen hdata hjoin hbound⟩
  | close hstate hcut hlen =>
    have hunclosed := hinv.unclosed (hstate.imp And.left And.left)
    have hactive : v.state.Active := by
      obtain ⟨hs, -⟩ | ⟨hs, -⟩ := hstate <;> simp [TcpState.Active, hs]
    exact ⟨a, n, h.close hinv hunclosed hactive _ hcut hlen⟩
  | enter _ hactive _ => exact ⟨a, n, h.setState hactive⟩
  | purge hstate =>
    have hdead : ¬ v.state.Active := by
      obtain hs | hs := hstate <;> simp [TcpState.Active, hs]
    exact ⟨a, n, h.lastack, h.next, h.acked, h.le_next, h.within, h.bufLt, h.buf, h.room, by simp,
      fun hact => absurd hact hdead, h.short, fun hact => absurd hact hdead,
      fun hact => absurd hact hdead⟩

/-- What any number of steps keep. -/
theorem sends (h : QueueInv o d v a n) (hinv : SendInv o v)
    (hA : ∀ ackno, A ackno → ∃ m ≤ d, ackno = pos o m)
    (hd : d ≤ tcpLen v.written v.finQueued)
    (hbound : v'.written.length + 1 < 2 ^ 31) (hsends : Sends A B v v') :
    ∃ a' n', QueueInv o d v' a' n' := by
  induction hsends with
  | refl => exact ⟨a, n, h⟩
  | tail hbefore hstep ih =>
    have hlen := hstep.written.length_le
    obtain ⟨a', n', hmid⟩ := ih (by omega)
    have hnumbers : Numbers o A v := fun ackno hack => by
      obtain ⟨m, hm, hackno⟩ := hA ackno hack
      exact ⟨m, hm.trans hd, hackno⟩
    obtain ⟨hinv', hgrows⟩ := hinv.sends hnumbers hbefore (by omega)
    have hone := Bool.toNat_le
    refine hmid.step hinv' hA (hd.trans hgrows.tcpLen_le) ?_ hstep
    exact (Nat.add_le_add_left (Bool.toNat_le _) _).trans_lt hbound

theorem mono (h : QueueInv o d v a n) {d' : ℕ} (hd : d ≤ d') : QueueInv o d' v a n :=
  ⟨h.lastack, h.next, h.acked.trans hd, h.le_next, h.within, h.bufLt, h.buf, h.room, h.full,
    h.queuelen, h.short, h.queued, h.ahead⟩

end QueueInv

/-- The queues of both hosts. -/
def QueuesInv (o : Bool → SeqNo) (net : Net) : Prop :=
  ∀ s, ∃ a n, QueueInv (o s) (tcpLen (net !s).offered (net !s).eof) (net s).sender a n

section Net

variable {o : Bool → SeqNo} {net net' : Net} {e : Bool × HostEvent} {es : List (Bool × HostEvent)}

theorem QueuesInv.of_established (h : net.Established o) : QueuesInv o net := by
  intro s
  have hs := h s
  obtain ⟨hunsent, hunacked⟩ := hs.queues
  have hwritten := hs.app.1
  have hfin := hs.flags.1
  have htotal : tcpLen (net s).written (net s).pcb.finQueued = 0 := by
    rw [hwritten, hfin]
    rfl
  refine ⟨0, 0, ?_, ?_, Nat.zero_le _, le_rfl, Nat.zero_le _, ?_, ?_, ?_, ?_, fun _ => ?_, ?_,
    fun _ k _ hk => ?_, fun _ k _ hk => ?_⟩
  · exact hs.lastack.trans (pos_zero _).symm
  · exact hs.sndNxt.trans (pos_zero _).symm
  · change (net s).pcb.sndBuf < _
    rw [hs.sndBuf]
    decide
  · change ((net s).pcb.sndBuf + (tcpLen (net s).written (net s).pcb.finQueued - 0)) % _ = _
    rw [hs.sndBuf, htotal]
    rfl
  · change (net s).written.length ≤ _
    rw [hwritten]
    exact Nat.zero_le _
  · change ∀ seg ∈ (net s).pcb.unsent ++ (net s).pcb.unacked, _
    rw [hunsent, hunacked]
    simp
  · change (net s).pcb.sndQueuelen = clens (net s).pcb.unsent + clens (net s).pcb.unacked
    rw [hs.sndQueuelen, hunsent, hunacked]
    rfl
  · change (net s).pcb.sndQueuelen ≤ _
    rw [hs.sndQueuelen]
    exact Nat.zero_le _
  all_goals
    change k < tcpLen (net s).written (net s).pcb.finQueued at hk
    omega

theorem QueuesInv.step (h : QueuesInv o net) (hinv : StreamInv o net) (hsane : net.Sane e)
    (hstep : net.step e = some net') : QueuesInv o net' := by
  obtain ⟨host, hevent, rfl⟩ := Option.map_eq_some_iff.mp hstep
  have hfollows := hinv.follows hsane hevent
  set t := e.1
  have hne : ¬ (!t) = t := by cases t <;> simp
  have hshort := hfollows.short (hinv.short t)
  have hd :
      tcpLen (net !t).offered (net !t).eof ≤ tcpLen (net t).written (net t).pcb.finQueued := by
    have hwithin := (hinv.gets !t).within
    rwa [Bool.not_not] at hwithin
  refine forall_side t ?_ ?_
  all_goals simp only [Function.update_self, Function.update_of_ne hne, Bool.not_not]
  · obtain ⟨a, n, hqueue⟩ := h t
    exact hqueue.sends (hinv.sends t) (fun _ hack => hack) hd hshort hfollows.sends
  · obtain ⟨a, n, hqueue⟩ := h !t
    rw [Bool.not_not] at hqueue
    exact ⟨a, n, hqueue.mono (tcpLen_le hfollows.offered hfollows.eof)⟩

theorem invariant_run (hstart : net.Established o) (hsane : Along Net.step Net.Sane net es)
    (hrun : run Net.step net es = some net') : StreamInv o net' ∧ QueuesInv o net' :=
  Along.invariant (I := fun net => StreamInv o net ∧ QueuesInv o net)
    (fun _ _ _ h hsane hstep => ⟨h.1.step hsane hstep, h.2.step h.1 hsane hstep⟩)
    ⟨StreamInv.of_established hstart, QueuesInv.of_established hstart⟩ hsane hrun

/-- A byte on a queue is one that was written, and is at its place. -/
theorem Carries.getElem? {o : SeqNo} {w data : Bytes} {c fin : Bool} {m k : ℕ} {seqno : SeqNo}
    (h : Carries o w c seqno data fin) (hbound : tcpLen w c < 2 ^ 31) (hseqno : seqno = pos o m)
    (hm : m ≤ k) (hk : k < m + tcpLen data fin) (hkw : k < w.length) :
    data[k - m]? = w[k]? := by
  obtain ⟨i, hi, hwithin, ⟨rest, hrest⟩, hlast⟩ := h
  have hwc : w.length ≤ tcpLen w c := Nat.le_add_right _ _
  have hmi : m = i := by
    rw [hseqno, pos_inj o (by omega) (by omega)] at hi
    exact hi
  subst hmi
  have hlt : k - m < data.length := by
    cases fin with
    | false =>
      rw [tcpLen_false] at hk
      omega
    | true =>
      have := hlast rfl
      omega
  rw [← List.getElem?_append_left hlt, hrest, List.getElem?_drop, Nat.add_sub_cancel' hm]

/-- Every byte that is written is handed on to the peer, or is still on a queue, at its place in
the sequence space. -/
theorem nothing_lost (hstart : net.Established o) (hsane : Along Net.step Net.Sane net es)
    (hrun : run Net.step net es = some net') (s : Bool) (hactive : (net' s).pcb.state.Active)
    {k : ℕ} {b : UInt8} (hb : (net' s).written[k]? = some b) :
    (net' !s).offered[k]? = some b ∨
      ∃ seg ∈ (net' s).pcb.unsent ++ (net' s).pcb.unacked, ∃ i : ℕ,
        seg.data[i]? = some b ∧ seg.seqno + BitVec.ofNat 32 i = o s + BitVec.ofNat 32 k := by
  obtain ⟨hinv, hqueues⟩ := invariant_run hstart hsane hrun
  obtain ⟨a, n, hqueue⟩ := hqueues s
  have hgets := hinv.gets !s
  rw [Bool.not_not] at hgets
  have hkw : k < (net' s).written.length := (List.getElem?_eq_some_iff.mp hb).1
  by_cases hgot : k < (net' !s).offered.length
  · obtain ⟨rest, hrest⟩ := hgets.offered
    left
    rw [← hb, ← hrest, List.getElem?_append_left hgot]
  · -- what is not handed on is not acknowledged
    have hoffered : (net' !s).eof = false := by
      by_contra heof
      have hall := (hgets.eof (by simpa using heof)).2
      rw [hall] at hgot
      exact hgot hkw
    have hack := hqueue.acked
    rw [hoffered, tcpLen_false] at hack
    have hkt : k < tcpLen (net' s).written (net' s).pcb.finQueued :=
      hkw.trans_le (Nat.le_add_right _ _)
    obtain ⟨seg, hseg, m, hm, hseqno, hlt⟩ := hqueue.queued hactive k (by omega) hkt
    have hcarries := (hinv.sends s).queued seg hseg
    refine .inr ⟨seg, hseg, k - m, ?_, ?_⟩
    · rw [hcarries.getElem? (hinv.bound s _) hseqno hm hlt hkw]
      exact hb
    · rw [hseqno, pos_add, Nat.add_sub_cancel' hm]
      rfl

theorem nothing_lost_lossyRun :
    ∃ net, run Net.step startNet (lossyRun.take 6) = some net ∧
      ((net false).offered[3]? = some 4 ∨
        ∃ seg ∈ (net true).pcb.unsent ++ (net true).pcb.unacked, ∃ i : ℕ,
          seg.data[i]? = some 4 ∧
            seg.seqno + BitVec.ofNat 32 i = startNumbers true + BitVec.ofNat 32 3) := by
  have hall : ((run Net.step startNet (lossyRun.take 6)).map fun net =>
      ((net true).written[3]?, (net true).pcb.state)) = some (some 4, .established) := by
    decide +kernel
  obtain ⟨net, hrun, hnet⟩ := Option.map_eq_some_iff.mp hall
  obtain ⟨hb, hstate⟩ := Prod.mk.inj hnet
  exact ⟨net, hrun, nothing_lost established_startNet (by decide +kernel) hrun true
    (by simp [TcpState.Active, hstate]) hb⟩

/-- The accounts of a sender: `snd_queuelen` counts the pbufs on its queues and is 0 when there
is nothing on them, what `snd_buf` does not have is not acknowledged, and what is acknowledged
was handed on. -/
theorem send_account (hstart : net.Established o) (hsane : Along Net.step Net.Sane net es)
    (hrun : run Net.step net es = some net') (s : Bool) (hactive : (net' s).pcb.state.Active) :
    (net' s).pcb.sndQueuelen = clens (net' s).pcb.unsent + clens (net' s).pcb.unacked ∧
      ((net' s).pcb.sndQueuelen = 0 ↔ (net' s).pcb.unsent = [] ∧ (net' s).pcb.unacked = []) ∧
      (net' s).pcb.sndQueuelen ≤ tcpSndQueuelen ∧
      ((net' s).pcb.state.Open → (net' s).pcb.sndBuf +
        ((net' s).pcb.sndLbb - (net' s).pcb.lastack).toNat = tcpSndBuf) ∧
      ((net' s).pcb.lastack - o s).toNat ≤ tcpLen (net' !s).offered (net' !s).eof := by
  obtain ⟨hinv, hqueues⟩ := invariant_run hstart hsane hrun
  obtain ⟨a, n, hqueue⟩ := hqueues s
  have hbound := hinv.bound s (net' s).pcb.finQueued
  have hlast : (net' s).pcb.lastack = pos (o s) a := hqueue.lastack
  have hlbb : (net' s).pcb.sndLbb =
      pos (o s) (tcpLen (net' s).written (net' s).pcb.finQueued) := (hinv.sends s).lbb
  have hlt : (net' s).pcb.sndBuf < 2 ^ 16 := hqueue.bufLt
  have hbuf : ((net' s).pcb.sndBuf +
      (tcpLen (net' s).written (net' s).pcb.finQueued - a)) % 2 ^ 16 = tcpSndBuf := hqueue.buf
  have hroom : (net' s).written.length ≤ a + tcpSndBuf := hqueue.room
  have hwithin : a ≤ tcpLen (net' s).written (net' s).pcb.finQueued :=
    hqueue.le_next.trans hqueue.within
  have hsnd : tcpSndBuf = 2920 := rfl
  have hqueuelen : (net' s).pcb.sndQueuelen =
      clens (net' s).pcb.unsent + clens (net' s).pcb.unacked := hqueue.queuelen hactive
  have hfull (seg : TcpSeg) (hseg : seg ∈ (net' s).pcb.unsent ++ (net' s).pcb.unacked) :
      1 ≤ seg.clen := (hqueue.full seg hseg).2
  refine ⟨hqueuelen, ?_, hqueue.short, fun hopen => ?_, ?_⟩
  · rw [hqueuelen, Nat.add_eq_zero_iff,
      clens_eq_zero_iff fun seg hseg => hfull seg (List.mem_append_left _ hseg),
      clens_eq_zero_iff fun seg hseg => hfull seg (List.mem_append_right _ hseg)]
  · have hfin : (net' s).pcb.finQueued = false := (hinv.sends s).unclosed hopen
    rw [hlbb, hlast, toNat_pos_sub (o s) hwithin (by omega)]
    rw [hfin, tcpLen_false] at hbuf ⊢
    omega
  · have hzero : (pos (o s) a - pos (o s) 0).toNat = a - 0 :=
      toNat_pos_sub (o s) (Nat.zero_le a) (by omega)
    rw [pos_zero] at hzero
    rw [hlast, hzero]
    exact hqueue.acked

theorem send_account_lossyRun :
    ∃ net, run Net.step startNet (lossyRun.take 6) = some net ∧
      (net true).pcb.sndQueuelen = clens (net true).pcb.unsent + clens (net true).pcb.unacked ∧
      ((net true).pcb.sndQueuelen = 0 ↔
        (net true).pcb.unsent = [] ∧ (net true).pcb.unacked = []) ∧
      (net true).pcb.sndQueuelen ≤ tcpSndQueuelen ∧
      ((net true).pcb.state.Open → (net true).pcb.sndBuf +
        ((net true).pcb.sndLbb - (net true).pcb.lastack).toNat = tcpSndBuf) ∧
      ((net true).pcb.lastack - startNumbers true).toNat ≤
        tcpLen (net false).offered (net false).eof := by
  have hall : ((run Net.step startNet (lossyRun.take 6)).map fun net => (net true).pcb.state) =
      some .established := by decide +kernel
  obtain ⟨net, hrun, hstate⟩ := Option.map_eq_some_iff.mp hall
  exact ⟨net, hrun, send_account established_startNet (by decide +kernel) hrun true
    (by simp [TcpState.Active, hstate])⟩

end Net

end EthMange.Tcp
