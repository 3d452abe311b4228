import EthMange.Tftp.Transfer

/-!
# A block number always carries the same bytes

The block number and the position of the file move in step as long as every
datagram is the ACK that the transfer waits for. A datagram that is not makes
the callback send the next bytes of the file under the number of the last ones,
or, after the last block, send on a PCB that it has removed.
-/

namespace EthMange.Tftp

open Run

/-- Bytes `512 * (b - 1)` to `512 * b` of a file, as far as it has them. -/
def fileBlock (content : Bytes) (b : ℕ) : Bytes :=
  (content.drop (tftpDataLenMax * (b - 1))).take tftpDataLenMax

theorem fileBlock_length (content : Bytes) (b : ℕ) :
    (fileBlock content b).length = min 512 (content.length - 512 * (b - 1)) := by
  simp [fileBlock, tftpDataLenMax]

/-- Behind a short block there is nothing. -/
theorem fileBlock_succ_of_short {content : Bytes} {b : ℕ} (hb : 1 ≤ b)
    (hshort : (fileBlock content b).length < tftpDataLenMax) : fileBlock content (b + 1) = [] := by
  rw [fileBlock_length] at hshort
  have hlen : (fileBlock content (b + 1)).length = 0 := by
    rw [fileBlock_length]
    simp only [tftpDataLenMax] at hshort
    omega
  exact List.eq_nil_of_length_eq_zero hlen

/-- Every message of a call is the DATA packet of the block at which the call
ends. -/
def SendsOwnBlock (content : Bytes) (turn : Turn) : Prop :=
  ∀ dest packet, .send dest packet ∈ turn.log →
    packet = dataPacket turn.block (fileBlock content turn.block)

/-- The ACK of a block. -/
def IsAck (block : ℕ) (p : Pbuf) : Prop :=
  block < 2 ^ 16 ∧ p.bytes.take tftpAckPktLen = ackPacket block

instance (block : ℕ) (p : Pbuf) : Decidable (IsAck block p) := inferInstanceAs (Decidable (_ ∧ _))

/-- The datagram is the ACK that the transfer waits for, with its bytes in the
first pbuf. -/
def ExpectedAck (s : TransferState) (d : Datagram) : Prop :=
  IsAck s.args.block d.p ∧ tftpAckPktLen ≤ d.p.len

instance (s : TransferState) (d : Datagram) : Decidable (ExpectedAck s d) :=
  inferInstanceAs (Decidable (_ ∧ _))

/-- The call sends the current block once more, on a PCB that is still there. -/
def ResendsBlock (content : Bytes) (s : TransferState) (d : Datagram) : Prop :=
  (turnOf .read s d).block = s.args.block ∧ ∃ dest before after,
    (turnOf .read s d).log = before ++
      .send dest (dataPacket s.args.block (fileBlock content s.args.block)) :: after ∧
    .remove ∉ before

/-- A call sends the bytes of its block only, and a datagram that is not the ACK
of the current block has that block sent once more. -/
structure AnswersFaithfully (content : Bytes) (s : TransferState) (d : Datagram) : Prop where
  own : SendsOwnBlock content (turnOf .read s d)
  resends : ¬ IsAck s.args.block d.p → ResendsBlock content s d

/-- No full block of the file is followed by one with the same bytes. -/
def NeighboursDiffer (content : Bytes) : Prop :=
  ∀ b, 1 ≤ b → (fileBlock content b).length = tftpDataLenMax →
    fileBlock content (b + 1) ≠ fileBlock content b

-- `file_read` delivers what is asked for
def ReadsBlocks (d : Datagram) : Prop := tftpDataLenMax ≤ d.io.readLimit

instance (d : Datagram) : Decidable (ReadsBlocks d) := inferInstanceAs (Decidable (_ ≤ _))

/-- While the PCB exists the file stands behind the block that was sent last. -/
structure ReadInv (content : Bytes) (s : TransferState) : Prop where
  block_pos : 1 ≤ s.args.block
  dataLen_eq : s.isOpen = true → s.args.dataLen = (fileBlock content s.args.block).length
  file_open : s.isOpen = true → s.world.fileSD.isOpen = true
  file_content : s.isOpen = true → s.world.fileSD.content = content
  file_ptr : s.isOpen = true →
    s.world.fileSD.filePtr = tftpDataLenMax * (s.args.block - 1) + s.args.dataLen
  sends : ∀ turn ∈ s.turns, SendsOwnBlock content turn

theorem tftpIsCorrectAck_of_expected {s : TransferState} {d : Datagram} (h : ExpectedAck s d) :
    tftpIsCorrectAck d.p.payload s.args.block = true := by
  obtain ⟨⟨hlt, hbytes⟩, hlen⟩ := h
  rw [d.p.take_bytes hlen] at hbytes
  rw [tftpIsCorrectAck_of_read hbytes, Nat.mod_eq_of_lt hlt]

section Receive

variable {content : Bytes} {s : TransferState} {d : Datagram}

/-- A call of `rrq_recv_callback` sends one packet. -/
theorem send_mem_turnOf {dest : Endpoint} {packet : Bytes} :
    .send dest packet ∈ (turnOf .read s d).log ↔ dest = d.src ∧
      packet = dataPacket (ackedBlock s.args d.p) (nextBytes s.args d s.world.clearLog) := by
  rw [turnOf_read]
  simp only [rrqLog, cleanupLog]
  split_ifs <;> simp

theorem sendsOwnBlock_turnOf : SendsOwnBlock content (turnOf .read s d) ↔
    nextBytes s.args d s.world.clearLog = fileBlock content (ackedBlock s.args d.p) := by
  have hblock : (turnOf .read s d).block = ackedBlock s.args d.p := by rw [turnOf_read]
  rw [SendsOwnBlock, hblock]
  constructor
  · intro h
    exact List.append_cancel_left (h d.src _ (send_mem_turnOf.mpr ⟨rfl, rfl⟩))
  · intro h dest packet hmem
    rw [(send_mem_turnOf.mp hmem).2, h]

theorem ResendsBlock.own (h : ResendsBlock content s d) :
    SendsOwnBlock content (turnOf .read s d) := by
  obtain ⟨hblock, dest, before, after, hlog, -⟩ := h
  rw [turnOf_read] at hblock
  have hmem : .send dest (dataPacket s.args.block (fileBlock content s.args.block)) ∈
      (turnOf .read s d).log := by
    rw [hlog]
    exact List.mem_append_right _ List.mem_cons_self
  have hpacket := (send_mem_turnOf.mp hmem).2
  rw [← hblock] at hpacket
  exact sendsOwnBlock_turnOf.mpr (List.append_cancel_left hpacket).symm

/-- The callback leaves the transfer open exactly if the last block was full. -/
theorem receive_read_isOpen (s : TransferState) (d : Datagram) :
    (s.receive .read d).isOpen = decide (tftpDataLenMax ≤ s.args.dataLen) := by
  simp only [receive_isOpen, turnOf_read, rrqLog, cleanupLog]
  split_ifs <;> simp <;> omega

/-- After a full block the callback sends what the file has next. -/
theorem receive_read_full {i : ℕ} (hopen : s.world.fileSD.isOpen = true)
    (hcontent : s.world.fileSD.content = content)
    (hptr : s.world.fileSD.filePtr = tftpDataLenMax * i) (hfull : s.args.dataLen = tftpDataLenMax)
    (hread : ReadsBlocks d) :
    nextBytes s.args d s.world.clearLog = fileBlock content (i + 1) ∧
      (s.receive .read d).world.fileSD = s.world.fileSD.advance tftpDataLenMax := by
  have hsrc : readSource s.args s.world.clearLog = s.world.fileSD := by
    simp [readSource, hfull]
  have hmin : min tftpDataLenMax d.io.readLimit = tftpDataLenMax := min_eq_left hread
  refine ⟨?_, ?_⟩
  · rw [nextBytes, hsrc, fileRead_of_open hopen, hmin]
    simp only [EmbeddedFile.ahead, hcontent, hptr, fileBlock, Nat.add_sub_cancel]
  · simp only [TransferState.receive, recvCallback, rrqRecvCallback_fileSD]
    rw [hsrc, fileRead_of_open hopen, hmin]

theorem advance_filePtr {f : EmbeddedFile} {i : ℕ} (hcontent : f.content = content)
    (hptr : f.filePtr = tftpDataLenMax * i) :
    (f.advance tftpDataLenMax).filePtr =
      tftpDataLenMax * i + (fileBlock content (i + 1)).length := by
  simp only [EmbeddedFile.advance, EmbeddedFile.ahead, hcontent, hptr, fileBlock,
    Nat.add_sub_cancel]

namespace ReadInv

theorem dataLen_full (h : ReadInv content s) (hopen : s.isOpen = true)
    (hfull : ¬ s.args.dataLen < tftpDataLenMax) : s.args.dataLen = tftpDataLenMax := by
  have hlen := h.dataLen_eq hopen
  rw [fileBlock_length] at hlen
  simp only [tftpDataLenMax] at hfull ⊢
  omega

/-- After a full block the file stands where the next one begins. -/
theorem filePtr_full (h : ReadInv content s) (hopen : s.isOpen = true)
    (hfull : s.args.dataLen = tftpDataLenMax) :
    s.world.fileSD.filePtr = tftpDataLenMax * s.args.block := by
  have hb := h.block_pos
  rw [h.file_ptr hopen, hfull]
  simp only [tftpDataLenMax]
  omega

/-- After a full block the next one is sent, whatever the datagram is. -/
theorem nextBytes_full (h : ReadInv content s) (hopen : s.isOpen = true)
    (hfull : s.args.dataLen = tftpDataLenMax) (hread : ReadsBlocks d) :
    nextBytes s.args d s.world.clearLog = fileBlock content (s.args.block + 1) :=
  (receive_read_full (h.file_open hopen) (h.file_content hopen) (h.filePtr_full hopen hfull) hfull
    hread).1

/-- The expected ACK has the next block sent under its number. -/
theorem sendsOwnBlock (h : ReadInv content s) (hopen : s.isOpen = true) (hread : ReadsBlocks d)
    (hack : tftpIsCorrectAck d.p.payload s.args.block = true) :
    SendsOwnBlock content (turnOf .read s d) := by
  have hblock : ackedBlock s.args d.p = s.args.block + 1 := by simp [ackedBlock, hack]
  rw [sendsOwnBlock_turnOf, hblock]
  by_cases hshort : s.args.dataLen < tftpDataLenMax
  · rw [nextBytes, readSource, if_pos hshort, fileRead_of_closed rfl]
    rw [h.dataLen_eq hopen] at hshort
    exact (fileBlock_succ_of_short h.block_pos hshort).symm
  · exact h.nextBytes_full hopen (h.dataLen_full hopen hshort) hread

theorem sends_receive (h : ReadInv content s) (hown : SendsOwnBlock content (turnOf .read s d)) :
    ∀ turn ∈ (s.receive .read d).turns, SendsOwnBlock content turn := by
  intro turn hturn
  rw [receive_turns, List.mem_append, List.mem_singleton] at hturn
  obtain hold | rfl := hturn
  · exact h.sends turn hold
  · exact hown

/-- After a full block the expected ACK makes the callback send the next block. -/
theorem receive_full (h : ReadInv content s) (hopen : s.isOpen = true)
    (hfull : s.args.dataLen = tftpDataLenMax)
    (hack : tftpIsCorrectAck d.p.payload s.args.block = true) (hread : ReadsBlocks d) :
    ReadInv content (s.receive .read d) := by
  have hblock : ackedBlock s.args d.p = s.args.block + 1 := by simp [ackedBlock, hack]
  have hptr := h.filePtr_full hopen hfull
  obtain ⟨hnext, hfile⟩ :=
    receive_read_full (h.file_open hopen) (h.file_content hopen) hptr hfull hread
  have hargs : (s.receive .read d).args.block = s.args.block + 1 := by
    simp only [TransferState.receive, recvCallback, rrqRecvCallback_block, hblock]
  have hdata : (s.receive .read d).args.dataLen =
      (fileBlock content (s.args.block + 1)).length := by
    simp only [TransferState.receive, recvCallback, rrqRecvCallback_dataLen, hnext]
  refine ⟨?_, fun _ => ?_, fun _ => ?_, fun _ => ?_, fun _ => ?_, ?_⟩
  · rw [hargs]
    exact Nat.succ_pos _
  · rw [hargs, hdata]
  · rw [hfile]
    exact h.file_open hopen
  · rw [hfile]
    exact h.file_content hopen
  · rw [hfile, hargs, hdata, advance_filePtr (h.file_content hopen) hptr, Nat.add_sub_cancel]
  · exact h.sends_receive (h.sendsOwnBlock hopen hread hack)

/-- After a short block the transfer ends. -/
theorem receive_short (h : ReadInv content s) (hshort : s.args.dataLen < tftpDataLenMax)
    (hown : SendsOwnBlock content (turnOf .read s d)) : ReadInv content (s.receive .read d) := by
  have hb := h.block_pos
  have hclosed : (s.receive .read d).isOpen = false := by
    rw [receive_read_isOpen]
    simpa using hshort
  have hargs : (s.receive .read d).args.block = ackedBlock s.args d.p := by
    simp only [TransferState.receive, recvCallback, rrqRecvCallback_block]
  refine ⟨?_, by simp [hclosed], by simp [hclosed], by simp [hclosed], by simp [hclosed],
    h.sends_receive hown⟩
  rw [hargs, ackedBlock]
  split_ifs <;> omega

/-- A call that sends its own block keeps the invariant, unless it has sent the
next block under the number of a full one. -/
theorem step {t : TransferState} (h : ReadInv content s) (hread : ReadsBlocks d)
    (hown : SendsOwnBlock content (turnOf .read s d))
    (hack : s.args.dataLen = tftpDataLenMax → tftpIsCorrectAck d.p.payload s.args.block = true)
    (hstep : transferStep .read s d = some t) : ReadInv content t := by
  obtain ⟨hopen, rfl⟩ := transferStep_eq_some.mp hstep
  by_cases hshort : s.args.dataLen < tftpDataLenMax
  · exact h.receive_short hshort hown
  · have hfull := h.dataLen_full hopen hshort
    exact h.receive_full hopen hfull (hack hfull) hread

end ReadInv

/-! ### Datagrams that are not the expected ACK -/

/-- A full block is followed by the next one, so that a call that does not count
the datagram sends other bytes under the same number. -/
theorem AnswersFaithfully.correctAck (hans : AnswersFaithfully content s d)
    (h : ReadInv content s) (hopen : s.isOpen = true) (hread : ReadsBlocks d)
    (hdiffer : NeighboursDiffer content) (hfull : s.args.dataLen = tftpDataLenMax) :
    tftpIsCorrectAck d.p.payload s.args.block = true := by
  by_contra hack
  have hown := sendsOwnBlock_turnOf.mp hans.own
  rw [h.nextBytes_full hopen hfull hread, ackedBlock, if_neg hack] at hown
  exact hdiffer _ h.block_pos ((h.dataLen_eq hopen).symm.trans hfull) hown

/-- After a short block the PCB is removed before anything is sent. -/
theorem not_resendsBlock_of_short (hshort : s.args.dataLen < tftpDataLenMax) :
    ¬ ResendsBlock content s d := by
  rintro ⟨-, dest, before, after, hlog, hremove⟩
  obtain ⟨front, hfront, hnoSend, hremoves⟩ : ∃ front, front <+: (turnOf .read s d).log ∧
      (∀ dest packet, .send dest packet ∉ front) ∧ .remove ∈ front := by
    refine ⟨[.readArgs] ++ (if tftpIsCorrectAck d.p.payload s.args.block then [.writeArgs] else [])
      ++ cleanupLog, ?_, fun dest packet => ?_, by simp [cleanupLog]⟩
    · rw [turnOf_read]
      simp only [rrqLog, hshort, if_true, List.append_assoc, List.prefix_append_right_inj,
        List.prefix_append]
    · split_ifs <;> simp [cleanupLog]
  have hbefore : before ++ [.send dest (dataPacket s.args.block
      (fileBlock content s.args.block))] <+: (turnOf .read s d).log :=
    ⟨after, by rw [hlog, List.append_assoc, List.singleton_append]⟩
  obtain hle | hle := List.prefix_or_prefix_of_prefix hfront hbefore
  · obtain heq | hle := List.prefix_concat_iff.mp hle
    · exact hnoSend _ _ (heq ▸ List.mem_append_right _ (List.mem_singleton_self _))
    · exact hremove (hle.subset hremoves)
  · exact hnoSend _ _ (hle.subset (List.mem_append_right _ (List.mem_singleton_self _)))

theorem AnswersFaithfully.isAck (hans : AnswersFaithfully content s d)
    (h : ReadInv content s) (hopen : s.isOpen = true) (hread : ReadsBlocks d)
    (hdiffer : NeighboursDiffer content) : IsAck s.args.block d.p := by
  by_contra hnot
  have hresends := hans.resends hnot
  by_cases hshort : s.args.dataLen < tftpDataLenMax
  · exact not_resendsBlock_of_short hshort hresends
  · have hack := hans.correctAck h hopen hread hdiffer (h.dataLen_full hopen hshort)
    have hblock := hresends.1
    rw [turnOf_read, ackedBlock, if_pos hack] at hblock
    exact absurd hblock (Nat.succ_ne_self _)

end Receive

/-- A read request that is accepted opens the file and sends block 1. -/
theorem readStart_eq {content fileName : Bytes} {dest : Endpoint}
    {malloc : Option TftpConnectionArgs} {readLimit : ℕ} {w : TftpWorld} {s : TransferState}
    (hfile : w.card.lookup fileName = some content) (hread : tftpDataLenMax ≤ readLimit)
    (hstart : readStart dest fileName malloc readLimit w = some s) :
    s.args.block = 1 ∧ s.args.dataLen = (fileBlock content 1).length ∧
      s.world.fileSD = (EmbeddedFile.openRead (w.card.locate fileName) content).advance
        tftpDataLenMax ∧
      s.turns = [⟨1, [.writeArgs, .writeArgs, .readArgs,
        .send dest (dataPacket 1 (fileBlock content 1))]⟩] := by
  have hmin : min tftpDataLenMax readLimit = tftpDataLenMax := min_eq_left hread
  obtain ⟨args, hargs, rfl⟩ := TransferState.start_eq_some.mp hstart
  obtain ⟨args₀, content', -, hfile', heq⟩ | ⟨f, err, -, heq⟩ :=
    tftpProcessRead_cases dest fileName malloc readLimit w.clearLog
  · obtain rfl : content = content' := Option.some.inj (hfile.symm.trans hfile')
    rw [heq] at hargs ⊢
    simp only [tftpSendNextBlock_eq, Prod.map_fst, Option.some.injEq] at hargs
    subst hargs
    simp only [tftpSendNextBlock_eq, Prod.map_snd, id_eq, TftpWorld.act_fileSD, TftpWorld.act_log,
      fileRead_of_open (EmbeddedFile.openRead_isOpen _ _), hmin]
    exact ⟨trivial, rfl, rfl, rfl⟩
  · rw [heq] at hargs
    simp at hargs

theorem readInv_start {content fileName : Bytes} {dest : Endpoint}
    {malloc : Option TftpConnectionArgs} {readLimit : ℕ} {w : TftpWorld} {s : TransferState}
    (hfile : w.card.lookup fileName = some content) (hread : tftpDataLenMax ≤ readLimit)
    (hstart : readStart dest fileName malloc readLimit w = some s) : ReadInv content s := by
  obtain ⟨hblock, hdata, hfileSD, hturns⟩ := readStart_eq hfile hread hstart
  refine ⟨hblock.ge, fun _ => ?_, fun _ => ?_, fun _ => ?_, fun _ => ?_, ?_⟩
  · rw [hdata, hblock]
  · rw [hfileSD]
    rfl
  · rw [hfileSD]
    rfl
  · rw [hfileSD, hblock, hdata]
    rfl
  · intro turn hturn dest' packet hmem
    rw [hturns, List.mem_singleton] at hturn
    subst hturn
    simp only [List.mem_cons, TftpAction.send.injEq, List.not_mem_nil, reduceCtorEq, false_or,
      or_false] at hmem
    exact hmem.2

theorem readStart_open {dest : Endpoint} {fileName : Bytes} {malloc : Option TftpConnectionArgs}
    {readLimit : ℕ} {w : TftpWorld} {s : TransferState}
    (hstart : readStart dest fileName malloc readLimit w = some s) :
    s.isOpen = true ∧ s.args.block = 1 := by
  obtain ⟨args, hargs, rfl⟩ := TransferState.start_eq_some.mp hstart
  refine ⟨rfl, ?_⟩
  rcases tftpProcessRead_cases dest fileName malloc readLimit w.clearLog with
    ⟨args₀, content, -, -, heq⟩ | ⟨f, err, -, heq⟩
  · rw [heq] at hargs
    simp only [tftpSendNextBlock_eq, Prod.map_fst, Option.some.injEq] at hargs
    rw [← hargs]
  · rw [heq] at hargs
    simp at hargs

/-- In a read transfer whose datagrams are the ACKs that it waits for, every packet
carries exactly the bytes of the block whose number it has. For a file without
two like blocks in a row the datagrams have to be these ACKs, since no other has
the current block sent once more. -/
theorem read_blocks_faithful (content fileName : Bytes) (dest : Endpoint)
    (malloc : Option TftpConnectionArgs) (readLimit : ℕ) (w : TftpWorld) (ds : List Datagram)
    (s₀ s : TransferState) (hfile : w.card.lookup fileName = some content)
    (hread₀ : tftpDataLenMax ≤ readLimit) (hread : ∀ d ∈ ds, ReadsBlocks d)
    (hstart : readStart dest fileName malloc readLimit w = some s₀)
    (hrun : run (transferStep .read) s₀ ds = some s) :
    (Along (transferStep .read) ExpectedAck s₀ ds →
      (∀ turn ∈ s.turns, SendsOwnBlock content turn) ∧
        Along (transferStep .read) (AnswersFaithfully content) s₀ ds) ∧
    (NeighboursDiffer content → Along (transferStep .read) (AnswersFaithfully content) s₀ ds →
      Along (transferStep .read) (fun s d => IsAck s.args.block d.p) s₀ ds) := by
  have hinit : ReadInv content s₀ := readInv_start hfile hread₀ hstart
  have henv := (Along.of_forall s₀ hread).and (along_of_run hrun)
  have hisOpen {s : TransferState} {d : Datagram} (h : (transferStep .read s d).isSome = true) :
      s.isOpen = true := by
    obtain ⟨t, ht⟩ := Option.isSome_iff_exists.mp h
    exact (transferStep_eq_some.mp ht).1
  refine ⟨fun hack => ?_, fun hdiffer hans => ?_⟩
  · have hown (s : TransferState) (d : Datagram) (h : ReadInv content s)
        (hg : (ReadsBlocks d ∧ (transferStep .read s d).isSome = true) ∧ ExpectedAck s d) :
        SendsOwnBlock content (turnOf .read s d) :=
      h.sendsOwnBlock (hisOpen hg.1.2) hg.1.1 (tftpIsCorrectAck_of_expected hg.2)
    have hstep (s : TransferState) (d : Datagram) (t : TransferState) (h : ReadInv content s)
        (hg : (ReadsBlocks d ∧ (transferStep .read s d).isSome = true) ∧ ExpectedAck s d)
        (hst : transferStep .read s d = some t) : ReadInv content t :=
      h.step hg.1.1 (hown s d h hg) (fun _ => tftpIsCorrectAck_of_expected hg.2) hst
    refine ⟨((henv.and hack).invariant hstep hinit hrun).sends, ?_⟩
    exact (henv.and hack).of_invariant hstep
      (fun s d h hg => ⟨hown s d h hg, fun hnot => absurd hg.2.1 hnot⟩) hinit
  · refine (henv.and hans).of_invariant (I := ReadInv content) (fun s d t h hg hst => ?_)
      (fun s d h hg => hg.2.isAck h (hisOpen hg.1.2) hg.1.1 hdiffer) hinit
    exact h.step hg.1.1 hg.2.own (hg.2.correctAck h (hisOpen hg.1.2) hg.1.1 hdiffer) hst

/-- A file of one full block and one more byte. -/
def longFile : Bytes := List.replicate 512 0 ++ [1]

theorem longFile_length : longFile.length = 513 := by
  rw [longFile, List.length_append, List.length_replicate]
  rfl

theorem longFile_neighboursDiffer : NeighboursDiffer longFile := by
  intro b hb hfull heq
  have hlen := congrArg List.length heq
  rw [hfull, fileBlock_length, longFile_length] at hlen
  simp only [tftpDataLenMax] at hlen
  omega

/-- Both blocks of the file are acknowledged in turn. -/
theorem read_blocks_faithful_two_blocks :
    ∃ s₀ s, readStart client [65] (some zeroArgs) 512 (idleWorld (oneFile [65] longFile)) =
        some s₀ ∧
      run (transferStep .read) s₀
        [message [0, 4, 0, 1] (by decide), message [0, 4, 0, 2] (by decide)] = some s ∧
      s.turns.length = 3 ∧ (∀ turn ∈ s.turns, SendsOwnBlock longFile turn) ∧
      Along (transferStep .read) (fun s d => IsAck s.args.block d.p) s₀
        [message [0, 4, 0, 1] (by decide), message [0, 4, 0, 2] (by decide)] := by
  obtain ⟨s₀, hs₀⟩ : ∃ s₀, readStart client [65] (some zeroArgs) 512
      (idleWorld (oneFile [65] longFile)) = some s₀ := ⟨_, rfl⟩
  have hended : (readStart client [65] (some zeroArgs) 512
      (idleWorld (oneFile [65] longFile))).elim True fun s₀ =>
        Along (transferStep .read) ExpectedAck s₀
            [message [0, 4, 0, 1] (by decide), message [0, 4, 0, 2] (by decide)] ∧
          (run (transferStep .read) s₀ [message [0, 4, 0, 1] (by decide),
            message [0, 4, 0, 2] (by decide)]).map (·.turns.length) = some 3 := by
    decide +kernel
  rw [hs₀] at hended
  obtain ⟨hack, hrun⟩ := hended
  obtain ⟨s, hs, hlength⟩ := Option.map_eq_some_iff.mp hrun
  obtain ⟨hfaithful, honly⟩ := read_blocks_faithful longFile [65] client (some zeroArgs) 512
    (idleWorld (oneFile [65] longFile)) _ s₀ s rfl (by decide) (by decide) hs₀ hs
  obtain ⟨hsends, hanswers⟩ := hfaithful hack
  exact ⟨s₀, s, hs₀, hs, hlength, hsends, honly longFile_neighboursDiffer hanswers⟩

/-- The ACK for block 0 comes a second time, and the last byte of the file goes
out as block 1. -/
theorem duplicate_ack_corrupts :
    ∃ s₀ s, (oneFile [65] longFile).lookup [65] = some longFile ∧
      readStart client [65] (some zeroArgs) 512 (idleWorld (oneFile [65] longFile)) = some s₀ ∧
      ReadsBlocks (message [0, 4, 0, 0] (by decide)) ∧
      ¬ IsAck s₀.args.block (message [0, 4, 0, 0] (by decide)).p ∧
      run (transferStep .read) s₀ [message [0, 4, 0, 0] (by decide)] = some s ∧
      (¬ ∀ turn ∈ s.turns, SendsOwnBlock longFile turn) ∧
      ¬ ResendsBlock longFile s₀ (message [0, 4, 0, 0] (by decide)) := by
  obtain ⟨s₀, hs₀⟩ : ∃ s₀, readStart client [65] (some zeroArgs) 512
      (idleWorld (oneFile [65] longFile)) = some s₀ := ⟨_, rfl⟩
  have hinv : ReadInv longFile s₀ := readInv_start rfl le_rfl hs₀
  obtain ⟨hopen, hblock⟩ := readStart_open hs₀
  have hfull : s₀.args.dataLen = tftpDataLenMax := by
    rw [hinv.dataLen_eq hopen, fileBlock_length, hblock, longFile_length]
    rfl
  set d := message [0, 4, 0, 0] (by decide)
  have hnot : ¬ IsAck s₀.args.block d.p := by
    rw [hblock]
    decide
  have hwrong : ackedBlock s₀.args d.p = 1 := by
    rw [ackedBlock, hblock]
    rfl
  have hsent : ¬ SendsOwnBlock longFile (turnOf .read s₀ d) := by
    rw [sendsOwnBlock_turnOf, hinv.nextBytes_full hopen hfull (by decide), hwrong, hblock]
    intro heq
    have hlen := congrArg List.length heq
    simp [fileBlock_length, longFile_length] at hlen
  refine ⟨s₀, s₀.receive .read d, rfl, hs₀, by decide, hnot, ?_, fun hall => ?_,
    fun hresends => hsent hresends.own⟩
  · simp [transferStep, hopen]
  · exact hsent (hall _ (List.mem_append_right _ (List.mem_singleton_self _)))

end EthMange.Tftp
