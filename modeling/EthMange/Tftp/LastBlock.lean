import EthMange.Tftp.Transfer

/-!
# Where a write transfer ends

`wrq_recv_callback` looks at the length of a datagram and at its block field, and
never at its opcode. It ends the transfer at every unchained datagram that is shorter
than a full block, and counts every one that has the next number.
-/

namespace EthMange.Tftp

open Run

/-- A DATA packet of the block after `block`, in one pbuf or in several. -/
def IsNextData (block : ℕ) (p : Pbuf) : Prop :=
  block + 1 < 2 ^ 16 ∧ p.bytes.take tftpDataPktHdrLen = dataPacket (block + 1) []

/-- The last DATA packet: the next one, with fewer than 512 data bytes. -/
def IsLastData (block : ℕ) (p : Pbuf) : Prop :=
  IsNextData block p ∧ p.totLen - tftpDataPktHdrLen < tftpDataLenMax

/-- A full DATA packet: the next one, with 512 data bytes. -/
def IsFullData (block : ℕ) (p : Pbuf) : Prop :=
  IsNextData block p ∧ p.totLen - tftpDataPktHdrLen = tftpDataLenMax

instance (block : ℕ) (p : Pbuf) : Decidable (IsNextData block p) :=
  inferInstanceAs (Decidable (_ ∧ _))

instance (block : ℕ) (p : Pbuf) : Decidable (IsLastData block p) :=
  inferInstanceAs (Decidable (_ ∧ _))

instance (block : ℕ) (p : Pbuf) : Decidable (IsFullData block p) :=
  inferInstanceAs (Decidable (_ ∧ _))

/-- The transfer ends at the last DATA packet, with its file closed. Any other datagram
leaves both open, and the block number as it is unless it is a full DATA packet. -/
structure EndsWithLast (s : TransferState) (d : Datagram) : Prop where
  ends : IsLastData s.args.block d.p →
    (s.receive .write d).isOpen = false ∧ (s.receive .write d).world.fileCR.isOpen = false
  stays : ¬ IsLastData s.args.block d.p →
    (s.receive .write d).isOpen = true ∧ (s.receive .write d).world.fileCR.isOpen = true
  counts : ¬ IsLastData s.args.block d.p → ¬ IsFullData s.args.block d.p →
    (s.receive .write d).args.block = s.args.block

/-- What the card stores of the data that the callback writes is not nothing. -/
def NoWriteError (s : TransferState) (d : Datagram) : Prop :=
  d.p.len = d.p.totLen → isNextBlock s.args d.p → tftpDataPktHdrLen < d.p.len →
    0 < d.io.write.count (d.p.len - tftpDataPktHdrLen)

instance (s : TransferState) (d : Datagram) : Decidable (NoWriteError s d) :=
  inferInstanceAs (Decidable (_ → _))

/-- A short unchained datagram is the last DATA packet, one with the next number that is
not short is a full DATA packet, and a chained one is not the last DATA packet. -/
def InTurn (s : TransferState) (d : Datagram) : Prop :=
  (d.p.len = d.p.totLen → d.p.len < tftpDataPktLenMax → IsLastData s.args.block d.p) ∧
  (d.p.len = d.p.totLen → ¬ d.p.len < tftpDataPktLenMax → isNextBlock s.args d.p →
    IsFullData s.args.block d.p) ∧
  (d.p.len ≠ d.p.totLen → ¬ IsLastData s.args.block d.p)

/-- As long as the transfer is open its file is open for writing. -/
structure FileOpen (s : TransferState) : Prop where
  isOpen : s.isOpen = true → s.world.fileCR.isOpen = true
  isWrite : s.isOpen = true → s.world.fileCR.isWrite = true

section Receive

variable {s : TransferState} {d : Datagram}

theorem receive_chained (h : d.p.len ≠ d.p.totLen) :
    (s.receive .write d).args = s.args ∧
      (s.receive .write d).world.fileCR = s.world.fileCR ∧
      (s.receive .write d).isOpen = true := by
  rw [TransferState.receive, recvCallback, wrqRecvCallback_of_chained h]
  exact ⟨rfl, rfl, rfl⟩

/-- An unchained datagram is acknowledged and the call finished. -/
theorem receive_unchained (h : d.p.len = d.p.totLen) (hopen : s.world.fileCR.isOpen = true)
    (hwrite : s.world.fileCR.isWrite = true) : ∃ w,
    (s.receive .write d).world = finishWrite s.args d w ∧
    (s.receive .write d).args.block =
      (if isNextBlock s.args d.p then s.args.block + 1 else s.args.block) ∧
    (NoWriteError s d → .remove ∉ w.log) ∧
    (.remove ∉ w.log → w.fileCR.isOpen = true ∧ w.fileCR.isWrite = true) := by
  rw [TransferState.receive, recvCallback]
  by_cases hnext : isNextBlock s.args d.p
  · rw [if_pos hnext]
    by_cases hdata : tftpDataPktHdrLen < d.p.len
    · obtain ⟨hcount, hfile⟩ := writeFileCR_of_open (w := s.world.clearLog.act [.readArgs]) hopen
        hwrite (dataOf d.p) d.io.write
      rw [dataOf_length] at hcount
      obtain hn | hn := Nat.eq_zero_or_pos
        (writeFileCR (dataOf d.p) d.io.write (s.world.clearLog.act [.readArgs])).1
      · rw [wrqRecvCallback_of_failed h hnext hdata hn]
        refine ⟨_, rfl, rfl, fun hno => ?_, fun hlog => ?_⟩
        · exact absurd (hno h hnext hdata) (by rw [← hcount, hn]; exact lt_irrefl 0)
        · simp [cleanupLog] at hlog
      · rw [wrqRecvCallback_of_data h hnext hdata hn]
        refine ⟨_, rfl, rfl, fun _ => ?_, fun _ => ?_⟩
        · simp [writeFileCR]
        · rw [TftpWorld.act_fileCR, hfile]
          exact ⟨hopen, hwrite⟩
    · rw [wrqRecvCallback_of_empty h hnext hdata]
      exact ⟨_, rfl, rfl, fun _ => by simp, fun _ => ⟨hopen, hwrite⟩⟩
  · rw [wrqRecvCallback_of_other h hnext, if_neg hnext]
    exact ⟨_, rfl, rfl, fun _ => by simp, fun _ => ⟨hopen, hwrite⟩⟩

/-- A short datagram is the end. -/
theorem finishWrite_isOpen (args : TftpConnectionArgs) (d : Datagram) {w : TftpWorld}
    (hlog : .remove ∉ w.log) (hopen : w.fileCR.isOpen = true) :
    (.remove ∉ (finishWrite args d w).log ↔ ¬ d.p.len < tftpDataPktLenMax) ∧
      ((finishWrite args d w).fileCR.isOpen = true ↔ ¬ d.p.len < tftpDataPktLenMax) := by
  rw [finishWrite_log, finishWrite_fileCR]
  split_ifs with hshort
  · simp [cleanupLog, EmbeddedFile.cleared, hshort]
  · simp [hlog, hopen, hshort]

theorem fileOpen_step (s : TransferState) (d : Datagram) (t : TransferState) (h : FileOpen s)
    (hstep : transferStep .write s d = some t) : FileOpen t := by
  obtain ⟨hopen, rfl⟩ := transferStep_eq_some.mp hstep
  by_cases hlen : d.p.len = d.p.totLen
  · obtain ⟨w, hworld, _, _, hfile⟩ := receive_unchained hlen (h.isOpen hopen) (h.isWrite hopen)
    have hkept : (s.receive .write d).isOpen = true →
        (s.receive .write d).world.fileCR = w.fileCR ∧ .remove ∉ w.log := by
      intro hstill
      rw [receive_isOpen, turnOf, decide_eq_true_eq, hworld] at hstill
      refine ⟨by rw [hworld, finishWrite_fileCR_of_open hstill], fun hmem => hstill ?_⟩
      rw [finishWrite_log]
      exact List.mem_append_left _ (List.mem_append_left _ hmem)
    constructor
    · intro hstill
      rw [(hkept hstill).1]
      exact (hfile (hkept hstill).2).1
    · intro hstill
      rw [(hkept hstill).1]
      exact (hfile (hkept hstill).2).2
  · obtain ⟨_, hfile, _⟩ := receive_chained (s := s) hlen
    exact ⟨fun _ => hfile ▸ h.isOpen hopen, fun _ => hfile ▸ h.isWrite hopen⟩

end Receive

theorem fileOpen_start {dest : Endpoint} {fileName : Bytes} {malloc : Option TftpConnectionArgs}
    {create : CreateResult} {w : TftpWorld} {s : TransferState}
    (hstart : writeStart dest fileName malloc create w = some s) : FileOpen s := by
  obtain ⟨args, hargs, rfl⟩ := TransferState.start_eq_some.mp hstart
  obtain ⟨args₀, -, -, heq⟩ | ⟨f, card, err, -, heq⟩ :=
    tftpProcessWrite_cases dest fileName malloc create w.clearLog
  · rw [heq]
    exact ⟨fun _ => rfl, fun _ => rfl⟩
  · rw [heq] at hargs
    exact absurd hargs nofun

/-- In every state of a write transfer, a datagram that is stored without an error ends
the transfer as it should and leaves it open as it should if and only if it is in turn. -/
theorem ends_with_last_iff {dest : Endpoint} {fileName : Bytes}
    {malloc : Option TftpConnectionArgs} {create : CreateResult} {w : TftpWorld}
    {s₀ s : TransferState} {ds : List Datagram} {d : Datagram}
    (hstart : writeStart dest fileName malloc create w = some s₀)
    (hrun : run (transferStep .write) s₀ ds = some s) (hopen : s.isOpen = true)
    (hno : NoWriteError s d) : EndsWithLast s d ↔ InTurn s d := by
  have hfile : FileOpen s := run_invariant fileOpen_step (fileOpen_start hstart) hrun
  by_cases hlen : d.p.len = d.p.totLen
  · obtain ⟨w, hworld, hblock, hlog, hkeep⟩ :=
      receive_unchained hlen (hfile.isOpen hopen) (hfile.isWrite hopen)
    obtain ⟨hleft, hclosed⟩ := finishWrite_isOpen s.args d (hlog hno)
      (hkeep (hlog hno)).1
    have hisOpen : (s.receive .write d).isOpen = true ↔ ¬ d.p.len < tftpDataPktLenMax := by
      rw [receive_isOpen, decide_eq_true_eq, turnOf, hworld]
      exact hleft
    rw [← hworld] at hclosed
    have hlong : ¬ d.p.len < tftpDataPktLenMax → ¬ IsLastData s.args.block d.p := by
      rintro hlong ⟨-, hdata⟩
      have hhdr : tftpDataPktLenMax = tftpDataPktHdrLen + tftpDataLenMax := rfl
      omega
    constructor
    · intro h
      refine ⟨fun _ hshort => ?_, fun _ hlong' hnext => ?_, fun hne => absurd hlen hne⟩
      · by_contra hlast
        exact hisOpen.mp (h.stays hlast).1 hshort
      · by_contra hfull
        have hcount := h.counts (hlong hlong') hfull
        rw [hblock, if_pos hnext] at hcount
        omega
    · intro h
      by_cases hshort : d.p.len < tftpDataPktLenMax
      · have hlast := h.1 hlen hshort
        refine ⟨fun _ => ⟨?_, ?_⟩, fun hn => absurd hlast hn, fun hn => absurd hlast hn⟩
        · exact Bool.eq_false_iff.mpr fun hstill => hisOpen.mp hstill hshort
        · exact Bool.eq_false_iff.mpr fun hstill => hclosed.mp hstill hshort
      · refine ⟨fun hlast => absurd hlast (hlong hshort),
          fun _ => ⟨hisOpen.mpr hshort, hclosed.mpr hshort⟩, fun _ hfull => ?_⟩
        rw [hblock, if_neg fun hnext => hfull (h.2.1 hlen hshort hnext)]
  · obtain ⟨hargs, hfileCR, hstill⟩ := receive_chained (s := s) hlen
    constructor
    · intro h
      refine ⟨fun heq => absurd heq hlen, fun heq => absurd heq hlen, fun _ hlast => ?_⟩
      exact absurd (hstill.symm.trans (h.ends hlast).1) Bool.false_ne_true.symm
    · intro h
      refine ⟨fun hlast => absurd hlast (h.2.2 hlen), fun _ => ⟨hstill, ?_⟩, fun _ _ => ?_⟩
      · rw [hfileCR]
        exact hfile.isOpen hopen
      · rw [hargs]

/-- The only block of a file of one byte. -/
theorem ends_with_last_one_byte :
    ∃ s₀, writeStart client [65] (some zeroArgs) .free (idleWorld (oneFile [66] [])) = some s₀ ∧
      EndsWithLast s₀ (message [0, 3, 0, 1, 7] (by decide)) :=
  ⟨_, rfl, (@ends_with_last_iff client [65] (some zeroArgs) .free
    (idleWorld (oneFile [66] [])) _ _ [] _ rfl rfl rfl (by decide)).mpr
      ⟨fun _ _ => by decide, by decide, by decide⟩⟩

/-- An ACK packet that strays to the port of an upload ends it. -/
theorem stray_ack_ends_transfer :
    ∃ s₀, writeStart client [65] (some zeroArgs) .free (idleWorld (oneFile [66] [])) = some s₀ ∧
      NoWriteError s₀ (message [0, 4, 0, 0] (by decide)) ∧
      (s₀.receive .write (message [0, 4, 0, 0] (by decide))).isOpen = false ∧
      ¬ EndsWithLast s₀ (message [0, 4, 0, 0] (by decide)) :=
  ⟨_, rfl, by decide, by decide,
    fun h => absurd (h.stays (by decide)).1 (by decide)⟩

end EthMange.Tftp
