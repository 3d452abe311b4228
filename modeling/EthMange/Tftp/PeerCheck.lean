import EthMange.Tftp.Lifecycle
import EthMange.Tftp.ReadTransfer

/-!
# Nobody asks who sent a datagram

A transfer records its client in `to_ip` and `to_port` and never looks at them
again: what the callbacks do depends on the datagram only, and they answer its
sender. A datagram of a third party changes nothing in one case, a chain of pbufs
that `wrq_recv_callback` does not look at.
-/

namespace EthMange.Tftp

/-- The file of a transfer. -/
def TftpWorld.fileOf (w : TftpWorld) : TransferKind → EmbeddedFile
  | .read => w.fileSD
  | .write => w.fileCR

/-- A DATA packet with data in it, or an ACK. -/
def ServesTransfer (packet : Bytes) : Prop :=
  (∃ number bs, bs ≠ [] ∧ packet = dataPacket number bs) ∨ ∃ number, packet = ackPacket number

/-- The datagram does not come from the client that the transfer has recorded. -/
def Foreign (s : TransferState) (d : Datagram) : Prop := d.src ≠ s.args.dest

instance (s : TransferState) (d : Datagram) : Decidable (Foreign s d) :=
  inferInstanceAs (Decidable (_ ≠ _))

/-- The call changes nothing of the transfer and serves the sender nothing. -/
structure LeavesTransfer (k : TransferKind) (s : TransferState) (d : Datagram) : Prop where
  block : (s.receive k d).args.block = s.args.block
  dataLen : (s.receive k d).args.dataLen = s.args.dataLen
  isOpen : (s.receive k d).isOpen = s.isOpen
  file_isOpen : ((s.receive k d).world.fileOf k).isOpen = (s.world.fileOf k).isOpen
  content : ((s.receive k d).world.fileOf k).content = (s.world.fileOf k).content
  filePtr : ((s.receive k d).world.fileOf k).filePtr = (s.world.fileOf k).filePtr
  unserved : ∀ packet, .send d.src packet ∈ (turnOf k s d).log → ¬ ServesTransfer packet

/-- While the transfer is open a datagram of a third party leaves it alone. -/
def ChecksPeer (k : TransferKind) (s : TransferState) (d : Datagram) : Prop :=
  s.isOpen = true → Foreign s d → LeavesTransfer k s d

/-- While the transfer is open a datagram of a third party is a chain of pbufs
for a write transfer. -/
def OnlyChains (k : TransferKind) (s : TransferState) (d : Datagram) : Prop :=
  s.isOpen = true → Foreign s d → k = .write ∧ d.p.len ≠ d.p.totLen

instance (k : TransferKind) (s : TransferState) (d : Datagram) : Decidable (OnlyChains k s d) :=
  inferInstanceAs (Decidable (_ → _ → _ ∧ _))

section Receive

variable {s : TransferState} {d : Datagram}

/-- A read transfer sends the next bytes to whoever sent the datagram, or ends. -/
theorem not_leavesTransfer_read (hopen : s.isOpen = true) : ¬ LeavesTransfer .read s d := by
  intro h
  have hfull : tftpDataLenMax ≤ s.args.dataLen := by
    have hstill := h.isOpen
    rw [receive_read_isOpen, hopen] at hstill
    exact of_decide_eq_true hstill
  have hlen : (nextBytes s.args d s.world.clearLog).length = s.args.dataLen := by
    have hdata := h.dataLen
    rwa [TransferState.receive, recvCallback, rrqRecvCallback_dataLen] at hdata
  have hbytes : nextBytes s.args d s.world.clearLog ≠ [] := by
    intro hnil
    rw [hnil, List.length_nil] at hlen
    rw [← hlen] at hfull
    exact absurd hfull (by decide)
  refine h.unserved _ ?_ (.inl ⟨ackedBlock s.args d.p, _, hbytes, rfl⟩)
  rw [turnOf_read]
  simp [rrqLog]

/-- A write transfer acknowledges whatever it looks at. -/
theorem not_leavesTransfer_write (hlen : d.p.len = d.p.totLen) : ¬ LeavesTransfer .write s d := by
  intro h
  have hack : ∃ number, .send d.src (ackPacket number) ∈ (turnOf .write s d).log := by
    simp only [turnOf, TransferState.receive, recvCallback]
    by_cases hnext : isNextBlock s.args d.p
    · by_cases hdata : tftpDataPktHdrLen < d.p.len
      · obtain hn | hn := Nat.eq_zero_or_pos
          (writeFileCR (dataOf d.p) d.io.write (s.world.clearLog.act [.readArgs])).1
        · rw [wrqRecvCallback_of_failed hlen hnext hdata hn, finishWrite_log]
          exact ⟨s.args.block + 1, by simp⟩
        · rw [wrqRecvCallback_of_data hlen hnext hdata hn, finishWrite_log]
          exact ⟨s.args.block + 1, by simp⟩
      · rw [wrqRecvCallback_of_empty hlen hnext hdata, finishWrite_log]
        exact ⟨s.args.block + 1, by simp⟩
    · rw [wrqRecvCallback_of_other hlen hnext, finishWrite_log]
      exact ⟨s.args.block, by simp⟩
  obtain ⟨number, hmem⟩ := hack
  exact h.unserved _ hmem (.inr ⟨number, rfl⟩)

theorem leavesTransfer_write_chain (hopen : s.isOpen = true) (hlen : d.p.len ≠ d.p.totLen) :
    LeavesTransfer .write s d := by
  have hsame : recvCallback .write s.args d s.world.clearLog = (s.args, s.world.clearLog) :=
    wrqRecvCallback_of_chained hlen
  have hlog : (turnOf .write s d).log = [] := by
    rw [turnOf, TransferState.receive, hsame]
    rfl
  refine ⟨?_, ?_, ?_, ?_, ?_, ?_, fun packet hmem => ?_⟩
  · rw [TransferState.receive, hsame]
  · rw [TransferState.receive, hsame]
  · rw [receive_isOpen, hlog, hopen]
    rfl
  · rw [TransferState.receive, hsame]
    rfl
  · rw [TransferState.receive, hsame]
    rfl
  · rw [TransferState.receive, hsame]
    rfl
  · rw [hlog] at hmem
    exact absurd hmem List.not_mem_nil

end Receive

theorem leavesTransfer_iff (k : TransferKind) {s : TransferState} (hopen : s.isOpen = true)
    (d : Datagram) : LeavesTransfer k s d ↔ k = .write ∧ d.p.len ≠ d.p.totLen := by
  cases k with
  | read => exact iff_of_false (not_leavesTransfer_read hopen) (by simp)
  | write =>
    by_cases hlen : d.p.len = d.p.totLen
    · exact iff_of_false (not_leavesTransfer_write hlen) (by simp [hlen])
    · exact iff_of_true (leavesTransfer_write_chain hopen hlen) ⟨rfl, hlen⟩

/-- In a run of any transfer the datagrams of third parties leave it alone if and
only if each is a chain of pbufs for a write transfer. -/
theorem peer_checked_iff (k : TransferKind) (s₀ : TransferState) (ds : List Datagram) :
    Run.Along (transferStep k) (ChecksPeer k) s₀ ds ↔
      Run.Along (transferStep k) (OnlyChains k) s₀ ds := by
  have hstep (s : TransferState) (d : Datagram) : ChecksPeer k s d ↔ OnlyChains k s d := by
    refine forall_congr' fun hopen => forall_congr' fun _ => ?_
    exact leavesTransfer_iff k hopen d
  exact ⟨fun h => h.mono fun s d => (hstep s d).mp, fun h => h.mono fun s d => (hstep s d).mpr⟩

/-- Neither the address nor the port of the client that asked for the file. -/
def thirdParty : Endpoint := ⟨0xc0a80063, 4000⟩

/-- An ACK for block 1 from a third party, to which the next bytes of the file
are sent; the client's own ACK is then the wrong one. -/
theorem third_party_served :
    ∃ s₀ s, Started .read s₀ ∧ s₀.args.dest = client ∧
      transferStep .read s₀ ⟨.single [0, 4, 0, 1] (by decide), thirdParty, ⟨512, .stored⟩⟩ =
        some s ∧
      s₀.args.block = 1 ∧ s.args.block = 2 ∧
      .send thirdParty (dataPacket 2 [1]) ∈ s.world.log ∧
      ¬ Run.Along (transferStep .read) (ChecksPeer .read) s₀
        [⟨.single [0, 4, 0, 1] (by decide), thirdParty, ⟨512, .stored⟩⟩] := by
  refine ⟨_, _, ⟨client, [65], some zeroArgs, 512, idleWorld (oneFile [65] longFile), rfl⟩, rfl,
    rfl, rfl, by decide +kernel, by decide +kernel, fun h => ?_⟩
  exact not_leavesTransfer_read rfl (((Run.along_cons _ _ _).mp h).1 rfl (by decide +kernel))

end EthMange.Tftp
