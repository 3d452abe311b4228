import EthMange.Lib.Ownership
import EthMange.Tftp.Transfer

/-!
# The resources of a transfer

A transfer owns its `tftp_connection_args` block, its PCB and, for the time of a
call, the received pbuf. A call that cleans up in the middle goes on to use what
it has given back, and one that returns early gives the pbuf back to nobody.
-/

namespace EthMange.Tftp

open Ownership

/-- All actions of a transfer. -/
def TransferState.history (s : TransferState) : List TftpAction := s.turns.flatMap Turn.log

def TouchesArgs (a : TftpAction) : Prop := a = .readArgs ∨ a = .writeArgs ∨ a = .freeArgs

instance : DecidablePred TouchesArgs := fun _ => inferInstanceAs (Decidable (_ ∨ _))

def UsesPcb : TftpAction → Prop
  | .send _ _ | .remove => True
  | _ => False

instance : DecidablePred UsesPcb
  | .send _ _ | .remove => .isTrue trivial
  | .readArgs | .writeArgs | .freeArgs | .newPcb | .disconnect | .pbufFree | .store _ _ =>
    .isFalse id

/-- The block is freed at most once and not touched afterwards, the PCB is
removed at most once and not used afterwards, and every call for a datagram
frees its pbuf exactly once. -/
structure ResourcesSafe (s : TransferState) : Prop where
  args_freed : s.history.countP (· = .freeArgs) ≤ 1
  args_unused : NoUseAfter (· = .freeArgs) TouchesArgs s.history
  pcb_removed : s.history.countP (· = .remove) ≤ 1
  pcb_unused : NoUseAfter (· = .remove) UsesPcb s.history
  pbuf_freed : ∀ turn ∈ s.turns.tail, turn.log.count .pbufFree = 1

/-- A read transfer gets the datagram after a full block. A write transfer gets
it in one pbuf, and stores some of its data if it has to store any. -/
def Orderly : TransferKind → TransferState → Datagram → Prop
  | .read, s, _ => tftpDataLenMax ≤ s.args.dataLen
  | .write, s, d => d.p.len = d.p.totLen ∧ (tftpDataPktHdrLen < d.p.len → isNextBlock s.args d.p →
      d.io.write.count (d.p.len - tftpDataPktHdrLen) ≠ 0)

instance : (k : TransferKind) → (s : TransferState) → (d : Datagram) → Decidable (Orderly k s d)
  | .read, s, _ => inferInstanceAs (Decidable (tftpDataLenMax ≤ s.args.dataLen))
  | .write, _, _ => inferInstanceAs (Decidable (_ ∧ (_ → _ → _)))

/-! ### The log of one call -/

-- actions that give nothing back
def Harmless (l : List TftpAction) : Prop :=
  ∀ a ∈ l, a ≠ .freeArgs ∧ a ≠ .remove ∧ a ≠ .pbufFree

/-- A call that gives back what it should, at its end. -/
def OrderlyLog (log : List TftpAction) : Prop :=
  ∃ l c, Harmless l ∧ (c = [] ∨ c = cleanupLog) ∧ log = l ++ c ++ [.pbufFree]

theorem rrqLog_orderly {args : TftpConnectionArgs} {d : Datagram} {w : TftpWorld}
    (hfull : tftpDataLenMax ≤ args.dataLen) : OrderlyLog (rrqLog args d w) := by
  refine ⟨[.readArgs] ++ (if tftpIsCorrectAck d.p.payload args.block then [.writeArgs] else []) ++
    [.writeArgs, .readArgs, .send d.src (dataPacket (ackedBlock args d.p) (nextBytes args d w))],
    [], ?_, .inl rfl, ?_⟩
  · intro a ha
    split at ha <;> simp at ha <;> rcases ha with rfl | rfl | rfl | rfl <;> simp
  · simp [rrqLog, not_lt.mpr hfull]

theorem rrqLog_count_pbufFree {args : TftpConnectionArgs} {d : Datagram} {w : TftpWorld}
    (hshort : args.dataLen < tftpDataLenMax) : (rrqLog args d w).count .pbufFree = 2 := by
  unfold rrqLog cleanupLog
  rw [if_pos hshort]
  split <;> simp

section Wrq

variable {args : TftpConnectionArgs} {d : Datagram} {w : TftpWorld}

theorem finishWrite_orderly (hl : Harmless w.log) : OrderlyLog (finishWrite args d w).log := by
  rw [finishWrite_log]
  refine ⟨w.log, _, hl, ?_, rfl⟩
  split
  · exact .inr rfl
  · exact .inl rfl

theorem writeFileCR_count (hopen : w.fileCR.isOpen = true) (hwrite : w.fileCR.isWrite = true) :
    (writeFileCR (dataOf d.p) d.io.write (w.act [.readArgs])).1 =
      d.io.write.count (d.p.len - tftpDataPktHdrLen) := by
  rw [(writeFileCR_of_open (w := w.act [.readArgs]) hopen hwrite _ _).1, dataOf_length]

end Wrq

/-- While a write transfer is open so is its file. -/
def WriteOpen (s : TransferState) : Prop :=
  s.isOpen = true → s.world.fileCR.isOpen = true ∧ s.world.fileCR.isWrite = true

section Receive

variable {s : TransferState} {d : Datagram}

theorem turnOf_write_orderly (hfile : WriteOpen s) (hopen : s.isOpen = true)
    (hord : Orderly .write s d) : OrderlyLog (turnOf .write s d).log := by
  obtain ⟨hlen, hstore⟩ := hord
  simp only [turnOf, TransferState.receive, recvCallback]
  by_cases hnext : isNextBlock s.args d.p
  · by_cases hdata : tftpDataPktHdrLen < d.p.len
    · have hn := writeFileCR_count (d := d) (w := s.world.clearLog) (hfile hopen).1
        (hfile hopen).2
      have hpos := Nat.pos_of_ne_zero (hn ▸ hstore hdata hnext)
      rw [wrqRecvCallback_of_data hlen hnext hdata hpos]
      refine finishWrite_orderly fun a ha => ?_
      simp [writeFileCR] at ha
      rcases ha with rfl | rfl | rfl | rfl | rfl <;> simp
    · rw [wrqRecvCallback_of_empty hlen hnext hdata]
      refine finishWrite_orderly fun a ha => ?_
      simp at ha
      rcases ha with rfl | rfl | rfl | rfl <;> simp
  · rw [wrqRecvCallback_of_other hlen hnext]
    refine finishWrite_orderly fun a ha => ?_
    simp at ha
    rcases ha with rfl | rfl <;> simp

/-- After a failed write the callback still counts the block. -/
theorem turnOf_write_failed (hfile : WriteOpen s) (hopen : s.isOpen = true)
    (hlen : d.p.len = d.p.totLen) (hdata : tftpDataPktHdrLen < d.p.len)
    (hnext : isNextBlock s.args d.p)
    (hcount : d.io.write.count (d.p.len - tftpDataPktHdrLen) = 0) :
    ¬ NoUseAfter (· = .freeArgs) TouchesArgs (turnOf .write s d).log := by
  have hn := writeFileCR_count (d := d) (w := s.world.clearLog) (hfile hopen).1
    (hfile hopen).2
  simp only [turnOf, TransferState.receive, recvCallback]
  rw [wrqRecvCallback_of_failed hlen hnext hdata (hn.trans hcount), finishWrite_log]
  intro h
  simp only [TftpWorld.act_log, tftpCleanupWr_some_log, cleanupLog, List.append_assoc,
    List.cons_append] at h
  have htail := (noUseAfter_append.mp h).2.1
  exact NoUseAfter.not_use (l := [_]) htail rfl (by simp) (.inr (.inl rfl))

theorem writeOpen_receive (hfile : WriteOpen s) (hopen : s.isOpen = true) :
    WriteOpen (s.receive .write d) := by
  intro hstill
  have hlog : TftpAction.remove ∉ (s.receive .write d).world.log := by
    simpa [TransferState.receive] using hstill
  simp only [TransferState.receive, recvCallback] at hlog ⊢
  by_cases hlen : d.p.len = d.p.totLen
  · by_cases hnext : isNextBlock s.args d.p
    · by_cases hdata : tftpDataPktHdrLen < d.p.len
      · by_cases hn : (writeFileCR (dataOf d.p) d.io.write
            (s.world.clearLog.act [.readArgs])).1 = 0
        · rw [wrqRecvCallback_of_failed hlen hnext hdata hn, finishWrite_log] at hlog
          simp [cleanupLog] at hlog
        · rw [wrqRecvCallback_of_data hlen hnext hdata (Nat.pos_of_ne_zero hn)] at hlog ⊢
          rw [finishWrite_fileCR_of_open hlog]
          simp only [writeFileCR, TftpWorld.act_fileCR, TftpWorld.clearLog_fileCR,
            (fileWrite_of_open (hfile hopen).1 (hfile hopen).2 _ _ _).2]
          exact hfile hopen
      · rw [wrqRecvCallback_of_empty hlen hnext hdata] at hlog ⊢
        rw [finishWrite_fileCR_of_open hlog]
        exact hfile hopen
    · rw [wrqRecvCallback_of_other hlen hnext] at hlog ⊢
      rw [finishWrite_fileCR_of_open hlog]
      exact hfile hopen
  · rw [wrqRecvCallback_of_chained hlen]
    exact hfile hopen

end Receive

/-! ### Whole transfers -/

/-- What a transfer keeps as long as every call is orderly. -/
structure LifeInv (k : TransferKind) (s : TransferState) : Prop where
  started : s.turns ≠ []
  safe : ResourcesSafe s
  kept : s.isOpen = true → ∀ a ∈ s.history, a ≠ .freeArgs ∧ a ≠ .remove
  file : k = .write → WriteOpen s

theorem OrderlyLog.count_pbufFree {log : List TftpAction} (h : OrderlyLog log) :
    log.count .pbufFree = 1 := by
  obtain ⟨l, c, hl, hc, rfl⟩ := h
  have hzero : l.count .pbufFree = 0 := List.count_eq_zero.mpr fun hmem => (hl _ hmem).2.2 rfl
  rcases hc with rfl | rfl <;> simp [List.count_append, hzero, cleanupLog]

/-- An orderly call adds at most one release of the block and of the PCB, at the
end of the history. -/
theorem OrderlyLog.noUseAfter {release use : TftpAction → Prop} {past log : List TftpAction}
    (h : OrderlyLog log) (hpast : ∀ a ∈ past, ¬ release a)
    (hharmless : ∀ a, a ≠ .freeArgs ∧ a ≠ .remove ∧ a ≠ .pbufFree → ¬ release a)
    (hend : NoUseAfter release use [.pbufFree] ∧
      NoUseAfter release use (cleanupLog ++ [.pbufFree])) :
    NoUseAfter release use (past ++ log) := by
  obtain ⟨l, c, hl, hc, rfl⟩ := h
  rw [noUseAfter_append_of_unreleased hpast, List.append_assoc,
    noUseAfter_append_of_unreleased fun a ha => hharmless a (hl a ha)]
  obtain rfl | rfl := hc
  · exact hend.1
  · exact hend.2

theorem history_receive (k : TransferKind) (s : TransferState) (d : Datagram) :
    (s.receive k d).history = s.history ++ (turnOf k s d).log := by
  simp [TransferState.history, receive_turns]

theorem lifeInv_receive {k : TransferKind} {s : TransferState} {d : Datagram}
    (h : LifeInv k s) (hopen : s.isOpen = true) (hord : Orderly k s d) :
    LifeInv k (s.receive k d) := by
  have hlog : OrderlyLog (turnOf k s d).log := by
    cases k with
    | read =>
      rw [turnOf_read]
      exact rrqLog_orderly hord
    | write => exact turnOf_write_orderly (h.file rfl) hopen hord
  have hargs : NoUseAfter (· = .freeArgs) TouchesArgs (s.receive k d).history := by
    rw [history_receive]
    exact hlog.noUseAfter (fun a ha => (h.kept hopen a ha).1) (fun a ha => ha.1) (by decide)
  have hpcb : NoUseAfter (· = .remove) UsesPcb (s.receive k d).history := by
    rw [history_receive]
    exact hlog.noUseAfter (fun a ha => (h.kept hopen a ha).2) (fun a ha => ha.2.1) (by decide)
  refine ⟨by simp [receive_turns], ⟨?_, hargs, ?_, hpcb, fun turn hturn => ?_⟩, ?_, ?_⟩
  · exact hargs.countP_le_one fun a ha => .inr (.inr ha)
  · exact hpcb.countP_le_one fun a ha => ha ▸ trivial
  · rw [receive_turns, List.tail_append_of_ne_nil h.started, List.mem_append,
      List.mem_singleton] at hturn
    obtain hold | rfl := hturn
    · exact h.safe.pbuf_freed turn hold
    · exact hlog.count_pbufFree
  · intro hstill a ha
    rw [history_receive, List.mem_append] at ha
    obtain hold | hnew := ha
    · exact h.kept hopen a hold
    · obtain ⟨l, c, hl, hc, heq⟩ := hlog
      have hremove : .remove ∉ (turnOf k s d).log := by simpa [receive_isOpen] using hstill
      rw [heq] at hnew hremove
      obtain rfl | rfl := hc
      · rw [List.append_nil, List.mem_append, List.mem_singleton] at hnew
        obtain hnew | rfl := hnew
        · exact ⟨(hl a hnew).1, (hl a hnew).2.1⟩
        · simp
      · simp [cleanupLog] at hremove
  · rintro rfl
    exact writeOpen_receive (h.file rfl) hopen

theorem lifeInv_step {k : TransferKind} {s t : TransferState} {d : Datagram} (h : LifeInv k s)
    (hord : Orderly k s d) (hstep : transferStep k s d = some t) : LifeInv k t := by
  obtain ⟨hopen, rfl⟩ := transferStep_eq_some.mp hstep
  exact lifeInv_receive h hopen hord

/-- A state in which `tftp_process_read` or `tftp_process_write` leaves a
transfer. -/
def Started : TransferKind → TransferState → Prop
  | .read, s => ∃ dest fileName malloc readLimit w,
      readStart dest fileName malloc readLimit w = some s
  | .write, s => ∃ dest fileName malloc create w,
      writeStart dest fileName malloc create w = some s

theorem Started.log {k : TransferKind} {s : TransferState} (h : Started k s) :
    ∃ turn, s.turns = [turn] ∧ (∀ a ∈ turn.log, a ≠ .freeArgs ∧ a ≠ .remove) ∧
      (k = .write → WriteOpen s) := by
  cases k with
  | read =>
    obtain ⟨dest, fileName, malloc, limit, w, hstart⟩ := h
    obtain ⟨args, hargs, rfl⟩ := TransferState.start_eq_some.mp hstart
    refine ⟨_, rfl, ?_, by simp⟩
    rcases tftpProcessRead_cases dest fileName malloc limit w.clearLog with
      ⟨args₀, content, -, -, heq⟩ | ⟨f, err, -, heq⟩
    · rw [heq]
      simp [tftpSendNextBlock_eq]
    · rw [heq] at hargs
      simp at hargs
  | write =>
    obtain ⟨dest, fileName, malloc, create, w, hstart⟩ := h
    obtain ⟨args, hargs, rfl⟩ := TransferState.start_eq_some.mp hstart
    rcases tftpProcessWrite_cases dest fileName malloc create w.clearLog with
      ⟨args₀, -, -, heq⟩ | ⟨f, card, err, -, heq⟩
    · rw [heq]
      exact ⟨_, rfl, by simp, fun _ _ => ⟨rfl, rfl⟩⟩
    · rw [heq] at hargs
      simp at hargs

theorem Started.lifeInv {k : TransferKind} {s : TransferState} (h : Started k s) :
    LifeInv k s := by
  obtain ⟨turn, hturns, hkept, hfile⟩ := h.log
  have hhistory : s.history = turn.log := by simp [TransferState.history, hturns]
  have hargs : NoUseAfter (· = .freeArgs) TouchesArgs s.history :=
    noUseAfter_of_unreleased fun a ha => (hkept a (hhistory ▸ ha)).1
  have hpcb : NoUseAfter (· = .remove) UsesPcb s.history :=
    noUseAfter_of_unreleased fun a ha => (hkept a (hhistory ▸ ha)).2
  refine ⟨by simp [hturns], ⟨?_, hargs, ?_, hpcb, by simp [hturns]⟩, fun _ a ha => ?_, hfile⟩
  · exact hargs.countP_le_one fun a ha => .inr (.inr ha)
  · exact hpcb.countP_le_one fun a ha => ha ▸ trivial
  · exact hkept a (hhistory ▸ ha)

theorem run_turns {k : TransferKind} {s t : TransferState} {ds : List Datagram}
    (hrun : Run.run (transferStep k) s ds = some t) : ∃ new, t.turns = s.turns ++ new := by
  induction ds generalizing s with
  | nil =>
    rw [Run.run_nil, Option.some.injEq] at hrun
    exact ⟨[], by rw [hrun, List.append_nil]⟩
  | cons d ds ih =>
    rw [Run.run_cons, Option.bind_eq_some_iff] at hrun
    obtain ⟨u, hu, hrun⟩ := hrun
    obtain ⟨-, rfl⟩ := transferStep_eq_some.mp hu
    obtain ⟨new, hnew⟩ := ih hrun
    exact ⟨turnOf k s d :: new, by rw [hnew, receive_turns, List.append_assoc]; rfl⟩

/-- What every call of a run did is kept to its end. -/
theorem along_turns {k : TransferKind} {s t : TransferState} {ds : List Datagram}
    (hne : s.turns ≠ []) (hrun : Run.run (transferStep k) s ds = some t) :
    Run.Along (transferStep k)
      (fun u d => u.isOpen = true ∧ turnOf k u d ∈ t.turns.tail) s ds := by
  induction ds generalizing s with
  | nil => trivial
  | cons d ds ih =>
    rw [Run.run_cons, Option.bind_eq_some_iff] at hrun
    obtain ⟨u, hu, hrun⟩ := hrun
    obtain ⟨hopen, hrecv⟩ := transferStep_eq_some.mp hu
    obtain ⟨new, hnew⟩ := run_turns hrun
    have hune : u.turns ≠ [] := by simp [← hrecv, receive_turns]
    rw [Run.along_cons]
    refine ⟨⟨hopen, ?_⟩, fun v hv => ?_⟩
    · rw [hnew, ← hrecv, receive_turns, List.append_assoc, List.tail_append_of_ne_nil hne]
      simp
    · obtain rfl : u = v := Option.some.inj (hu.symm.trans hv)
      exact ih hune hrun

/-- A call that is not orderly leaves a log that shows it. -/
theorem orderly_of_turn {k : TransferKind} {s : TransferState} {d : Datagram}
    (hfile : k = .write → WriteOpen s) (hopen : s.isOpen = true)
    (hpbuf : (turnOf k s d).log.count .pbufFree = 1)
    (hargs : NoUseAfter (· = .freeArgs) TouchesArgs (turnOf k s d).log) : Orderly k s d := by
  cases k with
  | read =>
    refine not_lt.mp fun hshort => ?_
    rw [turnOf_read, rrqLog_count_pbufFree hshort] at hpbuf
    omega
  | write =>
    have hlen : d.p.len = d.p.totLen := by
      by_contra hlen
      simp [turnOf, TransferState.receive, recvCallback, wrqRecvCallback_of_chained hlen] at hpbuf
    exact ⟨hlen, fun hdata hnext hcount =>
      turnOf_write_failed (hfile rfl) hopen hlen hdata hnext hcount hargs⟩

/-- The resources of a transfer are handled as they should be if and only if
every call is orderly. -/
theorem resources_safe_iff (k : TransferKind) (ds : List Datagram) (s₀ s : TransferState)
    (hstart : Started k s₀) (hrun : Run.run (transferStep k) s₀ ds = some s) :
    ResourcesSafe s ↔ Run.Along (transferStep k) (Orderly k) s₀ ds := by
  have hinv := hstart.lifeInv
  constructor
  · intro hsafe
    refine Run.Along.of_invariant (I := fun s => k = .write → WriteOpen s) ?_ ?_ hinv.file
      (along_turns hinv.started hrun)
    · rintro u d v hfile ⟨hopen, -⟩ hstep rfl
      obtain ⟨-, rfl⟩ := transferStep_eq_some.mp hstep
      exact writeOpen_receive (hfile rfl) hopen
    · rintro u d hfile ⟨hopen, hturn⟩
      have hsub : (turnOf k u d).log.Sublist s.history :=
        List.sublist_flatten_of_mem (List.mem_map_of_mem (List.mem_of_mem_tail hturn))
      exact orderly_of_turn hfile hopen (hsafe.pbuf_freed _ hturn)
        (hsafe.args_unused.of_sublist hsub)
  · intro horderly
    exact (horderly.invariant (fun s d t h hg hst => lifeInv_step h hg hst) hinv hrun).safe

theorem resources_safe_one_block :
    ∃ s₀ s, Started .write s₀ ∧
      Run.run (transferStep .write) s₀ [message [0, 3, 0, 1, 7] (by decide)] = some s ∧
      s.isOpen = false ∧ ResourcesSafe s :=
  ⟨_, _, ⟨client, [65], some zeroArgs, .free, idleWorld (oneFile [66] []), rfl⟩, rfl, by decide,
    (resources_safe_iff .write [message [0, 3, 0, 1, 7] (by decide)] _ _
      ⟨client, [65], some zeroArgs, .free, idleWorld (oneFile [66] []), rfl⟩ rfl).mpr (by decide)⟩

/-- The ACK of the last block ends a read transfer with a block that is used
after `mem_free`, a PCB that is used after `udp_remove` and a pbuf that is freed
twice. -/
theorem last_ack_unsafe :
    ∃ s₀ s, Started .read s₀ ∧
      Run.run (transferStep .read) s₀ [message [0, 4, 0, 1] (by decide)] = some s ∧
      ¬ NoUseAfter (· = .freeArgs) TouchesArgs s.history ∧
      ¬ NoUseAfter (· = .remove) UsesPcb s.history ∧
      s.turns.tail.map (fun turn => turn.log.count .pbufFree) = [2] ∧ ¬ ResourcesSafe s := by
  refine ⟨_, _, ⟨client, [65], some zeroArgs, 512, idleWorld (oneFile [65] [7]), rfl⟩, rfl,
    by decide, by decide, by decide, fun h => ?_⟩
  exact absurd h.args_unused (by decide)

end EthMange.Tftp
