import EthMange.Tftp.Transfer

/-!
# What a write transfer has stored

The bytes in the file are those of the DATA blocks that the transfer has
counted, one after the other. This needs that a datagram with the next number in
its block field is a DATA packet, and that the card stores all of its data.
-/

namespace EthMange.Tftp

/-- A whole DATA packet of the block `k`. -/
def IsDataBlock (k : ℕ) (d : Datagram) : Prop :=
  d.p.len = d.p.totLen ∧ tftpDataPktHdrLen ≤ d.p.len ∧ HasOpcode d.p tftpData ∧
    tftpExtractBlock d.p.payload = k

/-- `content` is the data of the blocks `1` to `k`, each taken once and in order
from the datagrams `ds`. -/
def HoldsBlocks (ds : List Datagram) (k : ℕ) (content : Bytes) : Prop :=
  ∃ acc : List Datagram, acc.Sublist ds ∧ acc.length = k ∧
    (∀ i (hi : i < acc.length), IsDataBlock (i + 1) (acc.get ⟨i, hi⟩)) ∧
    content = acc.flatMap fun d => dataOf d.p

theorem HoldsBlocks.zero : HoldsBlocks [] 0 [] :=
  ⟨[], List.Sublist.slnil, rfl, fun _ hi => absurd hi (Nat.not_lt_zero _), rfl⟩

theorem HoldsBlocks.mono {ds es : List Datagram} {k : ℕ} {content : Bytes}
    (h : HoldsBlocks ds k content) (hsub : ds.Sublist es) : HoldsBlocks es k content := by
  obtain ⟨acc, hacc, hlen, hdata, hcontent⟩ := h
  exact ⟨acc, hacc.trans hsub, hlen, hdata, hcontent⟩

/-- A DATA packet of the next block adds its data. -/
theorem HoldsBlocks.snoc {ds : List Datagram} {k : ℕ} {content : Bytes} {d : Datagram}
    (h : HoldsBlocks ds k content) (hd : IsDataBlock (k + 1) d) :
    HoldsBlocks (ds ++ [d]) (k + 1) (content ++ dataOf d.p) := by
  obtain ⟨acc, hacc, hlen, hdata, hcontent⟩ := h
  refine ⟨acc ++ [d], hacc.append (List.Sublist.refl [d]), by simp [hlen], fun i hi => ?_, ?_⟩
  · by_cases hlt : i < acc.length
    · have hget : (acc ++ [d]).get ⟨i, hi⟩ = acc.get ⟨i, hlt⟩ := by
        simp [List.getElem_append_left hlt]
      rw [hget]
      exact hdata i hlt
    · have hi' : i = acc.length := by
        rw [List.length_append, List.length_singleton] at hi
        omega
      subst hi'
      simpa [hlen] using hd
  · rw [List.flatMap_append, ← hcontent]
    simp

/-- The bytes of the file of a write transfer: those behind `file_CR` while it is
open, then those of the directory entry. -/
def writtenIn (location : Bytes) (w : TftpWorld) : Bytes :=
  if w.fileCR.isOpen then w.fileCR.content else (w.card.files location).getD []

/-- Whenever the last call has sent an ACK for a block, the file holds exactly
the data of the blocks up to it. -/
def AcksStored (location : Bytes) (s : TransferState) : Prop :=
  ∀ turn ∈ s.turns.getLast?, ∀ dest k, k < 2 ^ 16 → .send dest (ackPacket k) ∈ turn.log →
    HoldsBlocks s.delivered k (writtenIn location s.world)

/-- A datagram that is no DATA packet changes neither the file nor the block
number. -/
def NonDataIgnored (location : Bytes) (s : TransferState) (d : Datagram) : Prop :=
  ¬ HasOpcode d.p tftpData →
    (s.receive .write d).args.block = s.args.block ∧
      writtenIn location (s.receive .write d).world = writtenIn location s.world

/-- If the block field of an unchained datagram has the next number, then it is
a DATA packet and the card stores all of its data. -/
def SafeDatagram (s : TransferState) (d : Datagram) : Prop :=
  d.p.len = d.p.totLen → isNextBlock s.args d.p →
    tftpDataPktHdrLen ≤ d.p.len ∧ HasOpcode d.p tftpData ∧
      d.io.write.count (d.p.len - tftpDataPktHdrLen) = d.p.len - tftpDataPktHdrLen

instance (s : TransferState) (d : Datagram) : Decidable (SafeDatagram s d) :=
  inferInstanceAs (Decidable (_ → _))

theorem ackPacket_injective {j k : ℕ} (hj : j < 2 ^ 16) (hk : k < 2 ^ 16)
    (h : ackPacket j = ackPacket k) : j = k := by
  have hblock := be16_injective (List.append_cancel_left h)
  rwa [Nat.mod_eq_of_lt hj, Nat.mod_eq_of_lt hk] at hblock

structure WriteInv (location : Bytes) (s : TransferState) : Prop where
  file_open : s.isOpen = true → s.world.fileCR.isOpen = true
  file_write : s.isOpen = true → s.world.fileCR.isWrite = true
  file_location : s.isOpen = true → s.world.fileCR.location = location
  block_lt : s.args.block < 2 ^ 16
  stored : HoldsBlocks s.delivered s.args.block (writtenIn location s.world)
  acks : ∀ turn ∈ s.turns.getLast?, ∀ dest packet, .send dest packet ∈ turn.log →
    packet = ackPacket s.args.block

theorem WriteInv.acksStored {location : Bytes} {s : TransferState} (h : WriteInv location s) :
    AcksStored location s := by
  intro turn hturn dest k hk hmem
  have heq := ackPacket_injective hk h.block_lt (h.acks turn hturn dest _ hmem)
  rw [heq]
  exact h.stored

/-! ### The end of a call -/

/-- Closing the file leaves its bytes on the card. -/
theorem writtenIn_finishWrite {args : TftpConnectionArgs} {d : Datagram} {w : TftpWorld}
    (hopen : w.fileCR.isOpen = true) (hwrite : w.fileCR.isWrite = true) :
    writtenIn w.fileCR.location (finishWrite args d w) = w.fileCR.content := by
  rw [finishWrite]
  split
  · simp [writtenIn, EmbeddedFile.cleared, fileFclose, hwrite]
  · simp [writtenIn, hopen]

/-- A call that ends with an ACK for its block and whose file holds the blocks up
to it keeps the invariant. -/
theorem writeInv_finish {location : Bytes} {args a : TftpConnectionArgs} {d : Datagram}
    {w : TftpWorld} {ds : List Datagram} {turns : List Turn} (hopen : w.fileCR.isOpen = true)
    (hwrite : w.fileCR.isWrite = true) (hloc : w.fileCR.location = location)
    (hlt : args.block < 2 ^ 16) (hholds : HoldsBlocks ds args.block w.fileCR.content)
    (hacks : ∀ dest packet, .send dest packet ∈ w.log → packet = ackPacket args.block) :
    WriteInv location ⟨args, finishWrite a d w, decide (.remove ∉ (finishWrite a d w).log), ds,
      turns ++ [⟨args.block, (finishWrite a d w).log⟩]⟩ := by
  have hfile : decide (.remove ∉ (finishWrite a d w).log) = true →
      (finishWrite a d w).fileCR = w.fileCR :=
    fun h => finishWrite_fileCR_of_open (of_decide_eq_true h)
  refine ⟨fun h => ?_, fun h => ?_, fun h => ?_, hlt, ?_, ?_⟩
  · exact (congrArg _ (hfile h)).trans hopen
  · exact (congrArg _ (hfile h)).trans hwrite
  · exact (congrArg _ (hfile h)).trans hloc
  · subst hloc
    rwa [writtenIn_finishWrite hopen hwrite]
  · intro turn hturn dest packet hmem
    simp only [List.getLast?_concat, Option.mem_some_iff] at hturn
    subst hturn
    rw [finishWrite_log] at hmem
    split at hmem <;> simp [cleanupLog] at hmem <;> exact hacks dest packet hmem

/-! ### One datagram -/

section Receive

variable {location : Bytes} {s : TransferState} {d : Datagram}

theorem writeInv_receive_chained (h : WriteInv location s) (hopen : s.isOpen = true)
    (hlen : d.p.len ≠ d.p.totLen) : WriteInv location (s.receive .write d) := by
  simp only [TransferState.receive, recvCallback, wrqRecvCallback_of_chained hlen]
  refine ⟨fun _ => h.file_open hopen, fun _ => h.file_write hopen, fun _ => h.file_location hopen,
    h.block_lt, h.stored.mono (List.sublist_append_left _ _), ?_⟩
  intro turn hturn dest packet hmem
  simp only [List.getLast?_concat, Option.mem_some_iff] at hturn
  subst hturn
  simp at hmem

theorem WriteInv.holds_content (h : WriteInv location s) (hopen : s.isOpen = true) :
    HoldsBlocks s.delivered s.args.block s.world.fileCR.content := by
  have hstored := h.stored
  rwa [writtenIn, if_pos (h.file_open hopen)] at hstored

theorem writeInv_receive_other (h : WriteInv location s) (hopen : s.isOpen = true)
    (hlen : d.p.len = d.p.totLen) (hnext : ¬ isNextBlock s.args d.p) :
    WriteInv location (s.receive .write d) := by
  simp only [TransferState.receive, recvCallback, wrqRecvCallback_of_other hlen hnext]
  refine writeInv_finish (h.file_open hopen) (h.file_write hopen) (h.file_location hopen)
    h.block_lt ((h.holds_content hopen).mono (List.sublist_append_left _ _)) ?_
  intro dest packet hmem
  simp only [TftpWorld.act_log, TftpWorld.clearLog_log, List.nil_append, List.mem_cons,
    TftpAction.send.injEq, List.not_mem_nil, reduceCtorEq, false_or, or_false] at hmem
  exact hmem.2

/-- A DATA packet of the next block, all of whose data is stored. -/
theorem writeInv_receive_next (h : WriteInv location s) (hopen : s.isOpen = true)
    (hlen : d.p.len = d.p.totLen) (hnext : isNextBlock s.args d.p) (hsafe : SafeDatagram s d) :
    WriteInv location (s.receive .write d) := by
  obtain ⟨hhdr, hop, hcount⟩ := hsafe hlen hnext
  have hlt : s.args.block + 1 < 2 ^ 16 := by
    have hfield := tftpExtractBlock_lt d.p.payload
    rwa [hnext] at hfield
  have hholds := (h.holds_content hopen).snoc (d := d) ⟨hlen, hhdr, hop, hnext⟩
  by_cases hdata : tftpDataPktHdrLen < d.p.len
  · obtain ⟨hn, hfile⟩ := writeFileCR_of_open (w := s.world.clearLog.act [.readArgs])
      (h.file_open hopen) (h.file_write hopen) (dataOf d.p) d.io.write
    rw [dataOf_length, hcount] at hn
    rw [dataOf_length, hcount, ← dataOf_length, List.take_length] at hfile
    simp only [TransferState.receive, recvCallback,
      wrqRecvCallback_of_data hlen hnext hdata (hn ▸ Nat.sub_pos_of_lt hdata)]
    refine writeInv_finish ?_ ?_ ?_ hlt ?_ ?_
    · rw [TftpWorld.act_fileCR, hfile]
      exact h.file_open hopen
    · rw [TftpWorld.act_fileCR, hfile]
      exact h.file_write hopen
    · rw [TftpWorld.act_fileCR, hfile]
      exact h.file_location hopen
    · rw [TftpWorld.act_fileCR, hfile]
      exact hholds
    · intro dest packet hmem
      simp [writeFileCR] at hmem
      exact hmem.2
  · have hempty : dataOf d.p = [] := by
      apply List.eq_nil_of_length_eq_zero
      rw [dataOf_length]
      omega
    rw [hempty, List.append_nil] at hholds
    simp only [TransferState.receive, recvCallback, wrqRecvCallback_of_empty hlen hnext hdata]
    refine writeInv_finish (h.file_open hopen) (h.file_write hopen) (h.file_location hopen)
      hlt hholds ?_
    intro dest packet hmem
    simp only [TftpWorld.act_log, TftpWorld.clearLog_log, List.nil_append, List.mem_cons,
      TftpAction.send.injEq, List.not_mem_nil, reduceCtorEq, false_or, or_false] at hmem
    exact hmem.2

theorem nonDataIgnored_of_safe (h : WriteInv location s) (hopen : s.isOpen = true)
    (hsafe : SafeDatagram s d) : NonDataIgnored location s d := by
  intro hop
  by_cases hlen : d.p.len = d.p.totLen
  · have hnext : ¬ isNextBlock s.args d.p := fun hnext => hop (hsafe hlen hnext).2.1
    have hrecv := wrqRecvCallback_of_other (w := s.world.clearLog) hlen hnext
    have hwritten : writtenIn location s.world = s.world.fileCR.content := by
      rw [writtenIn, if_pos (h.file_open hopen)]
    rw [TransferState.receive, recvCallback, hrecv, hwritten, ← h.file_location hopen]
    exact ⟨rfl, writtenIn_finishWrite (h.file_open hopen) (h.file_write hopen)⟩
  · rw [TransferState.receive, recvCallback, wrqRecvCallback_of_chained hlen]
    exact ⟨rfl, rfl⟩

end Receive

theorem writeInv_step {location : Bytes} {s t : TransferState} {d : Datagram}
    (h : WriteInv location s) (hsafe : SafeDatagram s d)
    (hstep : transferStep .write s d = some t) : WriteInv location t := by
  obtain ⟨hopen, rfl⟩ := transferStep_eq_some.mp hstep
  by_cases hlen : d.p.len = d.p.totLen
  · by_cases hnext : isNextBlock s.args d.p
    · exact writeInv_receive_next h hopen hlen hnext hsafe
    · exact writeInv_receive_other h hopen hlen hnext
  · exact writeInv_receive_chained h hopen hlen

theorem writeInv_start {dest : Endpoint} {fileName : Bytes} {malloc : Option TftpConnectionArgs}
    {create : CreateResult} {w : TftpWorld} {s : TransferState}
    (hstart : writeStart dest fileName malloc create w = some s) :
    WriteInv (w.card.locate fileName) s := by
  obtain ⟨args, hargs, rfl⟩ := TransferState.start_eq_some.mp hstart
  rcases tftpProcessWrite_cases dest fileName malloc create w.clearLog with
    ⟨args₀, -, -, heq⟩ | ⟨f, card, err, -, heq⟩
  · rw [heq] at hargs ⊢
    rw [Option.some.injEq] at hargs
    subst hargs
    refine ⟨fun _ => rfl, fun _ => rfl, fun _ => rfl, Nat.two_pow_pos 16,
      HoldsBlocks.zero, ?_⟩
    intro turn hturn dest' packet hmem
    simp only [List.getLast?_singleton, Option.mem_some_iff] at hturn
    subst hturn
    simp only [TftpWorld.act_log, TftpWorld.clearLog_log, List.nil_append, List.mem_cons,
      TftpAction.send.injEq, List.not_mem_nil, reduceCtorEq, false_or, or_false] at hmem
    exact hmem.2
  · rw [heq] at hargs
    simp at hargs

/-- In every write transfer in which the datagrams with the next block number are
DATA packets that the card stores, each ACK says what the file holds, and
nothing but DATA packets has an effect. -/
theorem write_blocks_faithful (dest : Endpoint) (fileName : Bytes)
    (malloc : Option TftpConnectionArgs) (create : CreateResult) (w : TftpWorld)
    (ds : List Datagram) (s₀ s : TransferState)
    (hstart : writeStart dest fileName malloc create w = some s₀)
    (hsafe : Run.Along (transferStep .write) SafeDatagram s₀ ds)
    (hrun : Run.run (transferStep .write) s₀ ds = some s) :
    AcksStored (w.card.locate fileName) s ∧
      Run.Along (transferStep .write)
        (fun s d => s.isOpen = true → NonDataIgnored (w.card.locate fileName) s d) s₀ ds := by
  have hstep : ∀ s d t, WriteInv (w.card.locate fileName) s → SafeDatagram s d →
      transferStep .write s d = some t → WriteInv (w.card.locate fileName) t :=
    fun s d t h hg hst => writeInv_step h hg hst
  have hinit := writeInv_start hstart
  exact ⟨(hsafe.invariant hstep hinit hrun).acksStored,
    hsafe.of_invariant hstep (fun s d h hg hopen => nonDataIgnored_of_safe h hopen hg) hinit⟩

theorem write_blocks_faithful_one_block :
    ∃ s₀ s, writeStart client [65] (some zeroArgs) .free (idleWorld (oneFile [66] [])) = some s₀ ∧
      Run.run (transferStep .write) s₀ [message [0, 3, 0, 1, 7] (by decide)] = some s ∧
      s.world.card.lookup [65] = some [7] ∧ AcksStored [65] s ∧
      Run.Along (transferStep .write) (fun s d => s.isOpen = true → NonDataIgnored [65] s d) s₀
        [message [0, 3, 0, 1, 7] (by decide)] :=
  ⟨_, _, rfl, rfl, by decide,
    write_blocks_faithful client [65] (some zeroArgs) .free (idleWorld (oneFile [66] []))
      [message [0, 3, 0, 1, 7] (by decide)] _ _ rfl (by decide) rfl⟩

/-- An ACK packet with the next number in its block field is counted, and the
server acknowledges a block that it has not received. -/
theorem ack_packet_counted :
    ∃ s₀ s, writeStart client [65] (some zeroArgs) .free (idleWorld (oneFile [66] [])) = some s₀ ∧
      Run.run (transferStep .write) s₀ [message [0, 4, 0, 1] (by decide)] = some s ∧
      ¬ AcksStored [65] s ∧ ¬ NonDataIgnored [65] s₀ (message [0, 4, 0, 1] (by decide)) := by
  refine ⟨_, _, rfl, rfl, fun hstored => ?_, fun hignored => ?_⟩
  · have hmem : TftpAction.send client (ackPacket 1) ∈
        [.readArgs, .writeArgs, .readArgs, .send client (ackPacket 1), .freeArgs, .disconnect,
          .remove, .pbufFree] := by decide
    obtain ⟨acc, hsub, hlen, hdata, -⟩ := hstored _ rfl client 1 (by decide) hmem
    have hacc : acc = [message [0, 4, 0, 1] (by decide)] := hsub.eq_of_length hlen
    subst hacc
    have hop := (hdata 0 (by decide)).2.2.1
    exact absurd hop (by decide)
  · exact absurd (hignored (by decide)).1 (by decide)

end EthMange.Tftp
