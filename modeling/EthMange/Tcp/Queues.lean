import EthMange.Tcp.Network

/-!
# The queues of segments

What `tcp_enqueue` puts on the `unsent` queue: segments that follow each other in the
sequence space and have the data between them. The other functions only move segments from
one queue to the other or free them. Every segment carries a piece of the stream that the
application has written.
-/

namespace EthMange.Tcp

open Serial

/-- The pbufs of a queue. -/
def clens (queue : List TcpSeg) : ℕ := (queue.map TcpSeg.clen).sum

/-- The data of a queue. -/
def queueData (queue : List TcpSeg) : Bytes := queue.flatMap TcpSeg.data

/-- The segments follow each other from a sequence number on. -/
def Laid : SeqNo → List TcpSeg → Prop
  | _, [] => True
  | seqno, seg :: queue => seg.seqno = seqno ∧ Laid seg.next queue

@[simp] theorem clens_nil : clens [] = 0 := rfl

@[simp] theorem clens_cons (seg : TcpSeg) (queue : List TcpSeg) :
    clens (seg :: queue) = seg.clen + clens queue := by
  simp [clens]

theorem clens_eq_zero_iff {queue : List TcpSeg} (h : ∀ seg ∈ queue, 1 ≤ seg.clen) :
    clens queue = 0 ↔ queue = [] := by
  cases queue with
  | nil => simp
  | cons seg queue =>
    have hseg := h seg List.mem_cons_self
    rw [clens_cons]
    exact iff_of_false (by omega) (List.cons_ne_nil _ _)

@[simp] theorem clens_append (q r : List TcpSeg) : clens (q ++ r) = clens q + clens r := by
  simp [clens]

@[simp] theorem queueData_nil : queueData [] = [] := rfl

@[simp] theorem queueData_cons (seg : TcpSeg) (queue : List TcpSeg) :
    queueData (seg :: queue) = seg.data ++ queueData queue := rfl

theorem tcpLen_false (data : Bytes) : tcpLen data false = data.length := rfl

theorem tcpLen_true (data : Bytes) : tcpLen data true = data.length + 1 := rfl

theorem TcpSeg.tcpLen_of_fin {seg : TcpSeg} (h : seg.fin = false) : seg.tcpLen = seg.len := by
  simp [TcpSeg.tcpLen, Tcp.tcpLen, h, TcpSeg.len]

section Cut

variable {mss : ℕ} {copy fin : Bool} {mem : SegMem}

/-- What the loop of `tcp_enqueue` makes of data, or of a FIN without any. -/
structure CutOf (seqno : SeqNo) (mss : ℕ) (fin : Bool) (left : Bytes) (queue : List TcpSeg) :
    Prop where
  laid : Laid seqno queue
  data : queueData queue = left
  fins : ∀ seg ∈ queue, seg.fin = fin
  pbufs : ∀ seg ∈ queue, 1 ≤ seg.clen
  full : left ≠ [] ∨ fin = true → ∀ seg ∈ queue, 0 < seg.tcpLen
  head : ∀ seg ∈ queue.head?, seg.len = min left.length mss
  single : left = [] → queue.length = 1

theorem one_le_segClen (copy : Bool) (left : Bytes) : 1 ≤ segClen copy left := by
  rw [segClen]
  split_ifs <;> omega

/-- Without any room in the segments the loop ends for want of memory. -/
theorem cutSegments_zero {fuel i queuelen : ℕ} {seqno : SeqNo} {left : Bytes} (hleft : left ≠ []) :
    cutSegments 0 copy fin mem fuel i seqno left queuelen = none := by
  induction fuel generalizing i seqno queuelen with
  | zero => rfl
  | succ fuel ih =>
    have hpos : 0 < left.length := List.length_pos_of_ne_nil hleft
    rw [cutSegments, if_pos hpos]
    simp [hleft, ih]

theorem cutSegments_cutOf {fuel i queuelen m : ℕ} {seqno : SeqNo} {left : Bytes}
    {queue : List TcpSeg} (hfin : fin = true → left = [])
    (h : cutSegments mss copy fin mem fuel i seqno left queuelen = some (queue, m)) :
    CutOf seqno mss fin left queue ∧ m = queuelen + clens queue ∧ m ≤ tcpSndQueuelen := by
  induction fuel generalizing i seqno left queuelen queue m with
  | zero => simp [cutSegments] at h
  | succ fuel ih =>
    have hmss : left ≠ [] → 0 < mss := fun hleft => Nat.pos_of_ne_zero fun hzero => by
      rw [hzero, cutSegments_zero hleft] at h
      exact absurd h (by simp)
    rw [cutSegments] at h
    dsimp only at h
    set seglen := if mss < left.length then mss else left.length with hseglen
    have hmin : min seglen left.length = min left.length mss := by
      rw [hseglen]
      split_ifs <;> omega
    have hle : seglen ≤ left.length := by rw [hseglen]; split_ifs <;> omega
    have hclen := one_le_segClen copy left
    have hfull : left ≠ [] ∨ fin = true → 0 < (TcpSeg.mk seqno (left.take seglen) fin false
        (segClen copy left)).tcpLen := by
      rintro (hleft | rfl)
      · have hpos := List.length_pos_of_ne_nil hleft
        have := hmss hleft
        simp only [TcpSeg.tcpLen, tcpLen, List.length_take]
        omega
      · exact Nat.succ_pos _
    split_ifs at h with hmem hlong hdone
    · obtain ⟨rfl, rfl⟩ : [_] = queue ∧ _ = m := by simpa using h
      refine ⟨⟨⟨rfl, trivial⟩, ?_, by simp, by simpa using hclen, by simpa using hfull, ?_,
        fun _ => rfl⟩, by simp, by omega⟩
      · have htake : left.take seglen = left :=
          List.take_of_length_le (List.drop_eq_nil_iff.mp hdone)
        simpa using htake
      · simpa [TcpSeg.len] using hmin
    · obtain ⟨⟨queue', m'⟩, hrec, hcons⟩ := Option.map_eq_some_iff.mp h
      obtain ⟨rfl, rfl⟩ : _ :: queue' = queue ∧ m' = m := by simpa using hcons
      have hnofin : fin = false := by
        by_contra hf
        have hnil := hfin (by simpa using hf)
        simp [hnil] at hdone
      obtain ⟨hcut, hm, hmle⟩ := ih (fun hf => absurd hf (by simp [hnofin])) hrec
      have hlen : (TcpSeg.mk seqno (left.take seglen) fin false (segClen copy left)).tcpLen
          = seglen := by
        rw [TcpSeg.tcpLen_of_fin hnofin, TcpSeg.len, List.length_take, min_eq_left hle]
      refine ⟨⟨⟨rfl, ?_⟩, ?_, ?_, ?_, ?_, ?_, ?_⟩, ?_, hmle⟩
      · rw [TcpSeg.next, hlen]
        exact hcut.laid
      · rw [queueData_cons, hcut.data]
        exact List.take_append_drop _ _
      · exact List.forall_mem_cons.mpr ⟨rfl, hcut.fins⟩
      · exact List.forall_mem_cons.mpr ⟨hclen, hcut.pbufs⟩
      · exact fun hne => List.forall_mem_cons.mpr ⟨hfull hne, hcut.full (.inl hdone)⟩
      · simpa [TcpSeg.len] using hmin
      · rintro rfl
        simp at hdone
      · rw [clens_cons, hm, Nat.add_assoc]

theorem appendQueue_cases (mss : ℕ) (copy fin : Bool) (unsent queue : List TcpSeg) (n : ℕ) :
    appendQueue mss copy fin unsent queue n = (unsent ++ queue, n) ∨
      ∃ init useg q rest, unsent = init ++ [useg] ∧ queue = q :: rest ∧
        Chains mss fin useg q ∧
        appendQueue mss copy fin unsent queue n =
          (init ++ chain copy useg q :: rest, n - (!copy).toNat) := by
  fun_induction appendQueue mss copy fin unsent queue n with
  | case1 queue n => exact .inl rfl
  | case2 useg q queue n hchains => exact .inr ⟨[], useg, q, queue, rfl, rfl, hchains, rfl⟩
  | case3 useg q queue n hchains => exact .inl rfl
  | case4 useg n => exact .inl rfl
  | case5 seg useg unsent queue n queue' n' heq ih =>
    rw [heq] at ih
    obtain hplain | ⟨init, last, q, rest, hunsent, hqueue, hchains, hjoin⟩ := ih
    · obtain ⟨rfl, rfl⟩ := Prod.mk.inj hplain
      exact .inl rfl
    · obtain ⟨rfl, rfl⟩ := Prod.mk.inj hjoin
      exact .inr ⟨seg :: init, last, q, rest, by rw [hunsent, List.cons_append], hqueue,
        hchains, rfl⟩

/-- A FIN joins no segment. -/
theorem appendQueue_fin (mss : ℕ) (copy : Bool) (unsent queue : List TcpSeg) (n : ℕ) :
    appendQueue mss copy true unsent queue n = (unsent ++ queue, n) := by
  obtain heq | ⟨_, _, _, _, -, -, hchains, -⟩ :=
    appendQueue_cases mss copy true unsent queue n
  · exact heq
  · exact absurd hchains.2.2.1 (by simp)

theorem forall_mem_setPush {P : TcpSeg → Prop} {more : Bool} {queue : List TcpSeg}
    (hpush : ∀ seg, P seg → P { seg with psh := true }) (h : ∀ seg ∈ queue, P seg) :
    ∀ seg ∈ setPush more queue, P seg := by
  fun_induction setPush more queue with
  | case1 => exact h
  | case2 seg =>
    rw [List.forall_mem_singleton] at h ⊢
    split_ifs
    · exact hpush seg h
    · exact h
  | case3 seg useg queue ih =>
    rw [List.forall_mem_cons] at h ⊢
    exact ⟨h.1, ih h.2⟩

theorem exists_mem_setPush {P : TcpSeg → Prop} {more : Bool} {queue : List TcpSeg}
    (hpush : ∀ seg, P seg → P { seg with psh := true }) (h : ∃ seg ∈ queue, P seg) :
    ∃ seg ∈ setPush more queue, P seg := by
  by_contra hnone
  push Not at hnone
  obtain ⟨seg, hseg, hP⟩ := h
  fun_induction setPush more queue with
  | case1 => simp at hseg
  | case2 s =>
    obtain rfl := List.mem_singleton.mp hseg
    split_ifs at hnone
    · exact hnone _ List.mem_cons_self (hpush seg hP)
    · exact hnone _ List.mem_cons_self hP
  | case3 s useg queue ih =>
    rw [List.forall_mem_cons] at hnone
    obtain rfl | hseg := List.mem_cons.mp hseg
    · exact hnone.1 hP
    · exact ih hnone.2 hseg

@[simp] theorem clens_setPush (more : Bool) (queue : List TcpSeg) :
    clens (setPush more queue) = clens queue := by
  fun_induction setPush more queue with
  | case1 => rfl
  | case2 seg => split_ifs <;> simp
  | case3 seg useg queue ih => rw [clens_cons, ih, ← clens_cons]

end Cut

section Enqueue

variable {pcb : Pcb} {data : Bytes} {fin : Bool}

/-- `tcp_enqueue` fails and leaves the queues alone, or it puts all of the data on the
`unsent` queue. -/
theorem tcpEnqueue_cases (hfin : fin = true → data = []) (copy more : Bool) (mem : SegMem) :
    (∃ b err, err ≠ .ok ∧
      pcb.tcpEnqueue data fin copy more mem = (pcb.setNagleMemerr b, err)) ∨
    ∃ queue, CutOf pcb.sndLbb pcb.mss fin data queue ∧ data.length ≤ pcb.sndBuf ∧
      (data ≠ [] ∨ fin = true) ∧ pcb.sndQueuelen + clens queue ≤ tcpSndQueuelen ∧
      pcb.tcpEnqueue data fin copy more mem =
        let new := appendQueue pcb.mss copy fin pcb.unsent queue (pcb.sndQueuelen + clens queue)
        (pcb.enqueued (setPush more new.1) new.2 (tcpLen data fin) fin, .ok) := by
  rw [Pcb.tcpEnqueue]
  split_ifs with harg hbuf hlong
  · exact .inl ⟨pcb.nagleMemerr, .arg, by simp, rfl⟩
  · exact .inl ⟨true, .mem, by simp, rfl⟩
  · exact .inl ⟨true, .mem, by simp, rfl⟩
  · cases hcut : cutSegments pcb.mss copy fin mem (data.length + 1) 0 pcb.sndLbb data
      pcb.sndQueuelen with
    | none => exact .inl ⟨true, .mem, by simp, rfl⟩
    | some q =>
      obtain ⟨queue, m⟩ := q
      obtain ⟨hcutOf, rfl, hm⟩ := cutSegments_cutOf hfin hcut
      have hsome : data ≠ [] ∨ fin = true := by
        rw [not_and_or] at harg
        exact harg.imp_right fun hf => by simpa using hf
      exact .inr ⟨queue, hcutOf, not_lt.mp hbuf, hsome, hm, rfl⟩

end Enqueue

section Move

@[simp] theorem mem_insertSeg {seg s : TcpSeg} {queue : List TcpSeg} :
    s ∈ insertSeg seg queue ↔ s = seg ∨ s ∈ queue := by
  induction queue with
  | nil => simp [insertSeg]
  | cons t queue ih =>
    rw [insertSeg]
    split_ifs
    · rw [List.mem_cons, ih, List.mem_cons]
      tauto
    · rw [List.mem_cons]

@[simp] theorem mem_putUnacked {seg s : TcpSeg} {unacked : List TcpSeg} :
    s ∈ putUnacked seg unacked ↔ s = seg ∨ s ∈ unacked := by
  rw [putUnacked]
  cases h : unacked.getLast? with
  | none =>
    rw [List.getLast?_eq_none_iff] at h
    simp [h]
  | some useg =>
    dsimp only
    split_ifs
    · exact mem_insertSeg
    · rw [List.mem_append, List.mem_singleton, or_comm]

@[simp] theorem clens_insertSeg (seg : TcpSeg) (queue : List TcpSeg) :
    clens (insertSeg seg queue) = seg.clen + clens queue := by
  induction queue with
  | nil => rfl
  | cons t queue ih =>
    rw [insertSeg]
    split_ifs
    · rw [clens_cons, ih, clens_cons]
      omega
    · rw [clens_cons]

@[simp] theorem clens_putUnacked (seg : TcpSeg) (unacked : List TcpSeg) :
    clens (putUnacked seg unacked) = seg.clen + clens unacked := by
  rw [putUnacked]
  cases h : unacked.getLast? with
  | none =>
    rw [List.getLast?_eq_none_iff] at h
    simp [h]
  | some useg =>
    dsimp only
    split_ifs
    · exact clens_insertSeg seg unacked
    · simp [Nat.add_comm]

theorem freeAcked_spec (done : TcpSeg → Bool) (queue : List TcpSeg) (n : ℕ) :
    ∃ freed, queue = freed ++ (freeAcked done queue n).1 ∧ (∀ seg ∈ freed, done seg = true) ∧
      (freeAcked done queue n).2 = n - clens freed := by
  induction queue generalizing n with
  | nil => exact ⟨[], rfl, by simp, rfl⟩
  | cons seg queue ih =>
    rw [freeAcked]
    split_ifs with hdone
    · obtain ⟨freed, hqueue, hall, hn⟩ := ih (n - seg.clen)
      refine ⟨seg :: freed, congrArg (seg :: ·) hqueue, ?_, ?_⟩
      · exact List.forall_mem_cons.mpr ⟨hdone, hall⟩
      · rw [hn, clens_cons, Nat.sub_sub]
    · exact ⟨[], rfl, by simp, rfl⟩

end Move

/-- A segment carries a piece of the stream `w`, which takes the numbers from `o` on; `c`
says whether the stream has its end. -/
def Carries (o : SeqNo) (w : Bytes) (c : Bool) (seqno : SeqNo) (data : Bytes) (fin : Bool) :
    Prop :=
  ∃ n, seqno = pos o n ∧ n + tcpLen data fin ≤ tcpLen w c ∧ data <+: w.drop n ∧
    (fin = true → n + data.length = w.length)

/-- One state of a stream and a later one. -/
def Grows (w : Bytes) (c : Bool) (w' : Bytes) (c' : Bool) : Prop :=
  w <+: w' ∧ (c = true → w' = w ∧ c' = true)

theorem Grows.refl (w : Bytes) (c : Bool) : Grows w c w c :=
  ⟨List.prefix_rfl, fun hc => ⟨rfl, hc⟩⟩

theorem Grows.trans {w w' w'' : Bytes} {c c' c'' : Bool} (h : Grows w c w' c')
    (h' : Grows w' c' w'' c'') : Grows w c w'' c'' := by
  refine ⟨h.1.trans h'.1, fun hc => ?_⟩
  obtain ⟨rfl, hc'⟩ := h.2 hc
  exact h'.2 hc'

theorem tcpLen_le {w w' : Bytes} {c c' : Bool} (hw : w <+: w') (hc : c = true → c' = true) :
    tcpLen w c ≤ tcpLen w' c' := by
  have hlen := hw.length_le
  cases c
  · exact hlen.trans (Nat.le_add_right _ _)
  · rw [hc rfl]
    exact Nat.succ_le_succ hlen

theorem Grows.tcpLen_le {w w' : Bytes} {c c' : Bool} (h : Grows w c w' c') :
    tcpLen w c ≤ tcpLen w' c' :=
  Tcp.tcpLen_le h.1 fun hc => (h.2 hc).2

section Carries

variable {o : SeqNo} {w w' : Bytes} {c c' : Bool} {seqno : SeqNo} {data : Bytes} {fin : Bool}

theorem Carries.mono (h : Carries o w c seqno data fin) (hgrows : Grows w c w' c') :
    Carries o w' c' seqno data fin := by
  cases c with
  | true =>
    obtain ⟨rfl, rfl⟩ := hgrows.2 rfl
    exact h
  | false =>
    obtain ⟨n, hseqno, hle, hdata, hfin⟩ := h
    obtain ⟨⟨more, rfl⟩, -⟩ := hgrows
    rw [tcpLen_false] at hle
    have hn : n ≤ w.length := (Nat.le_add_right n _).trans hle
    have hnofin : fin = false := by
      by_contra hf
      have hf : fin = true := by simpa using hf
      have hend := hfin hf
      rw [hf, tcpLen_true] at hle
      omega
    refine ⟨n, hseqno, ?_, ?_, fun hf => absurd hf (by simp [hnofin])⟩
    · calc n + tcpLen data fin ≤ w.length := hle
        _ ≤ (w ++ more).length := by rw [List.length_append]; exact Nat.le_add_right _ _
        _ ≤ tcpLen (w ++ more) c' := Nat.le_add_right _ _
    · rw [List.drop_append_of_le_length hn]
      exact hdata.trans (List.prefix_append _ _)

/-- A packet that takes no number of its own. -/
theorem Carries.empty {n : ℕ} (hn : n ≤ tcpLen w c) : Carries o w c (pos o n) [] false :=
  ⟨n, rfl, hn, List.nil_prefix, fun hf => absurd hf (by simp)⟩

theorem Carries.cutTo (h : Carries o w c seqno data fin) {d : Bytes} (hd : d <+: data) :
    Carries o w c seqno d false := by
  obtain ⟨n, hseqno, hle, hdata, -⟩ := h
  refine ⟨n, hseqno, ?_, hd.trans hdata, fun hf => absurd hf (by simp)⟩
  have hlen := hd.length_le
  have : d.length ≤ tcpLen data fin := hlen.trans (Nat.le_add_right _ _)
  rw [tcpLen_false]
  omega

end Carries

theorem Laid.carries {o : SeqNo} {w : Bytes} {c : Bool} {n : ℕ} {queue : List TcpSeg}
    (hlaid : Laid (pos o n) queue) (hdata : queueData queue <+: w.drop n) (hn : n ≤ w.length)
    (hfins : ∀ seg ∈ queue, seg.fin = false) :
    ∀ seg ∈ queue, Carries o w c seg.seqno seg.data seg.fin := by
  induction queue generalizing n with
  | nil => simp
  | cons seg queue ih =>
    obtain ⟨hseqno, hlaid⟩ := hlaid
    obtain ⟨hfin, hfins⟩ := List.forall_mem_cons.mp hfins
    rw [queueData_cons] at hdata
    have hseg : seg.data <+: w.drop n := (List.prefix_append _ _).trans hdata
    have hlen : n + seg.data.length ≤ w.length := by
      have := hseg.length_le
      rw [List.length_drop] at this
      omega
    rw [TcpSeg.next, hseqno, pos_add, TcpSeg.tcpLen_of_fin hfin, TcpSeg.len] at hlaid
    refine List.forall_mem_cons.mpr ⟨⟨n, hseqno, ?_, hseg, ?_⟩, ih hlaid ?_ hlen hfins⟩
    · rw [hfin, tcpLen_false]
      exact hlen.trans (Nat.le_add_right _ _)
    · exact fun hf => absurd (hf.symm.trans hfin) (by simp)
    · obtain ⟨rest, hrest⟩ := hdata
      refine ⟨rest, ?_⟩
      rw [← List.drop_drop, ← hrest, List.append_assoc, List.drop_left]

end EthMange.Tcp
