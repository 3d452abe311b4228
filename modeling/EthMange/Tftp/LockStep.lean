import EthMange.Lib.Blocks
import EthMange.Tftp.ReadTransfer

/-!
# Reading a file in lock-step

A client that answers every DATA packet with its ACK gets the blocks of the file
in order. The block counter of the server is an `int` and is compared with the
16-bit field of the ACK: once it is 65536 no ACK is the one it waits for, and
all later packets are sent under the same number.
-/

namespace EthMange.Tftp

open Blocks (block)

/-- The message that an action hands to `udp_sendto`. -/
def TftpAction.packet : TftpAction → Option Bytes
  | .send _ packet => some packet
  | _ => none

/-- The packets sent in a transfer, in order. -/
def TransferState.packets (s : TransferState) : List Bytes :=
  s.turns.flatMap fun turn => turn.log.filterMap TftpAction.packet

/-- The datagram is an ACK that carries the block field of the packet. -/
def Acknowledges (packet : Bytes) (d : Datagram) : Prop :=
  4 ≤ d.p.len ∧ d.p.payload.read 0 4 = [0, tftpAck] ++ (packet.drop 2).take 2

/-- A client that answers the packet with an index by its ACK. The card delivers
what is asked for. -/
structure LockStepClient where
  answer : ℕ → Bytes → Datagram
  acknowledges : ∀ i packet, 4 ≤ packet.length → Acknowledges packet (answer i packet)
  reads : ∀ i packet, ReadsBlocks (answer i packet)

/-- The transfer after so many answers, each to the packet sent last. -/
def lockStep (c : LockStepClient) (s : TransferState) : ℕ → Option TransferState
  | 0 => some s
  | n + 1 => (lockStep c s n).bind fun s =>
    transferStep .read s (c.answer n (s.packets.getLastD []))

/-- Packet `i + 1` has the number `i + 1` modulo 65536 and the bytes of its
block, the first packet that is not full is the last, and the bytes are those of
the file. -/
structure DeliversInOrder (content : Bytes) (s : TransferState) : Prop where
  packets : s.packets = (List.range (content.length / tftpDataLenMax + 1)).map fun i =>
    dataPacket ((i + 1) % 2 ^ 16) (fileBlock content (i + 1))
  short : ∀ i packet, s.packets[i]? = some packet →
    (packet.length < tftpDataPktLenMax ↔ i = content.length / tftpDataLenMax)
  payload : s.packets.flatMap (List.drop tftpDataPktHdrLen) = content

/-- The client receives the whole file in lock-step. -/
def LockStepRead (content : Bytes) (c : LockStepClient) (s₀ : TransferState) : Prop :=
  ∃ s, lockStep c s₀ (content.length / tftpDataLenMax) = some s ∧ DeliversInOrder content s

/-! ### The block field -/

/-- The ACK of a packet carries its block number, as far as 16 bits go. -/
theorem tftpIsCorrectAck_of_acknowledges {number : ℕ} {bs : Bytes} {d : Datagram}
    (h : Acknowledges (dataPacket number bs) d) (count : ℕ) :
    tftpIsCorrectAck d.p.payload count = true ↔ count = number % 2 ^ 16 :=
  tftpIsCorrectAck_of_read h.2 count

/-! ### The run -/

/-- The block counter stops at 65536: the field of an ACK is never that large. -/
def counter (n : ℕ) : ℕ := min n (2 ^ 16)

/-- The packets that the server sends in lock-step. -/
def lockStepPackets (content : Bytes) (n : ℕ) : List Bytes :=
  (List.range n).map fun i => dataPacket (counter (i + 1)) (fileBlock content (i + 1))

/-- The transfer after `n` answers: the file stands behind block `n + 1`. -/
structure LockStepInv (content : Bytes) (n : ℕ) (s : TransferState) : Prop where
  is_open : s.isOpen = true
  block_eq : s.args.block = counter (n + 1)
  dataLen_eq : s.args.dataLen = (fileBlock content (n + 1)).length
  file_open : s.world.fileSD.isOpen = true
  file_content : s.world.fileSD.content = content
  file_ptr : s.world.fileSD.filePtr = tftpDataLenMax * n + s.args.dataLen
  packets_eq : s.packets = lockStepPackets content (n + 1)

section Step

variable {content : Bytes} {n : ℕ} {s : TransferState} {d : Datagram}

theorem fileBlock_succ (content : Bytes) (i : ℕ) :
    fileBlock content (i + 1) = block tftpDataLenMax content i := by
  rw [fileBlock, block, Nat.add_sub_cancel]

theorem lockStepPackets_succ (content : Bytes) (n : ℕ) :
    lockStepPackets content (n + 1) = lockStepPackets content n ++
      [dataPacket (counter (n + 1)) (fileBlock content (n + 1))] := by
  simp [lockStepPackets, List.range_succ]

theorem receive_packets (s : TransferState) (d : Datagram) :
    (s.receive .read d).packets = s.packets ++
      [dataPacket (ackedBlock s.args d.p) (nextBytes s.args d s.world.clearLog)] := by
  rw [TransferState.packets, receive_turns, List.flatMap_append, turnOf_read]
  apply congrArg (s.packets ++ ·)
  simp only [List.flatMap_cons, List.flatMap_nil, List.append_nil, rrqLog, cleanupLog]
  split_ifs <;> rfl

/-- The answer to packet `n + 1` moves the counter unless it has stopped. -/
theorem ackedBlock_lockStep (h : LockStepInv content n s)
    (hack : Acknowledges (dataPacket (counter (n + 1)) (fileBlock content (n + 1))) d) :
    ackedBlock s.args d.p = counter (n + 2) := by
  have hcorrect := tftpIsCorrectAck_of_acknowledges hack (counter (n + 1))
  rw [ackedBlock, h.block_eq]
  split_ifs with hok
  · have heq := hcorrect.mp hok
    simp only [counter] at heq ⊢
    omega
  · have hne := hcorrect.not.mp hok
    simp only [counter] at hne ⊢
    omega

theorem lockStepInv_receive (h : LockStepInv content n s)
    (hfull : n < content.length / tftpDataLenMax)
    (hack : Acknowledges (dataPacket (counter (n + 1)) (fileBlock content (n + 1))) d)
    (hread : ReadsBlocks d) : LockStepInv content (n + 1) (s.receive .read d) := by
  have hlen : s.args.dataLen = tftpDataLenMax := by
    rw [h.dataLen_eq, fileBlock_succ]
    exact (Blocks.block_full_iff (by decide) content n).mpr hfull
  have hptr : s.world.fileSD.filePtr = tftpDataLenMax * (n + 1) := by
    rw [h.file_ptr, hlen, Nat.mul_succ]
  obtain ⟨hnext, hfile⟩ := receive_read_full h.file_open h.file_content hptr hlen hread
  have hblock := ackedBlock_lockStep h hack
  have hdata : (s.receive .read d).args.dataLen = (fileBlock content (n + 2)).length := by
    simp only [TransferState.receive, recvCallback, rrqRecvCallback_dataLen, hnext]
  refine ⟨?_, ?_, hdata, ?_, ?_, ?_, ?_⟩
  · rw [receive_read_isOpen, hlen]
    exact decide_eq_true le_rfl
  · simp only [TransferState.receive, recvCallback, rrqRecvCallback_block, hblock]
  · rw [hfile]
    exact h.file_open
  · rw [hfile]
    exact h.file_content
  · rw [hfile, hdata, advance_filePtr h.file_content hptr]
  · rw [receive_packets, h.packets_eq, hblock, hnext, ← lockStepPackets_succ]

end Step

theorem dataPacket_length (number : ℕ) (bs : Bytes) :
    (dataPacket number bs).length = 4 + bs.length := by
  simp [dataPacket, be16]
  omega

/-- The transfer goes on for as long as the blocks are full. -/
theorem lockStepInv_run {content : Bytes} {s₀ : TransferState} (c : LockStepClient)
    (h : LockStepInv content 0 s₀) (n : ℕ) (hn : n ≤ content.length / tftpDataLenMax) :
    ∃ s, lockStep c s₀ n = some s ∧ LockStepInv content n s := by
  induction n with
  | zero => exact ⟨s₀, rfl, h⟩
  | succ n ih =>
    obtain ⟨s, hs, hinv⟩ := ih (Nat.le_of_succ_le hn)
    have hlast : s.packets.getLastD [] =
        dataPacket (counter (n + 1)) (fileBlock content (n + 1)) := by
      rw [hinv.packets_eq, lockStepPackets_succ]
      simp
    have hack := c.acknowledges n (s.packets.getLastD []) (by rw [hlast, dataPacket_length]; omega)
    refine ⟨s.receive .read (c.answer n (s.packets.getLastD [])), ?_, ?_⟩
    · rw [lockStep, hs, Option.bind_some, transferStep, if_pos hinv.is_open]
    · exact lockStepInv_receive hinv hn (hlast ▸ hack) (c.reads _ _)

theorem lockStepInv_start {content fileName : Bytes} {dest : Endpoint}
    {malloc : Option TftpConnectionArgs} {readLimit : ℕ} {w : TftpWorld} {s : TransferState}
    (hfile : w.card.lookup fileName = some content) (hread : tftpDataLenMax ≤ readLimit)
    (hstart : readStart dest fileName malloc readLimit w = some s) :
    LockStepInv content 0 s := by
  have hinv := readInv_start hfile hread hstart
  obtain ⟨hopen, hblock⟩ := readStart_open hstart
  have hdata := hinv.dataLen_eq hopen
  have hptr := hinv.file_ptr hopen
  rw [hblock] at hdata hptr
  refine ⟨hopen, hblock, hdata, hinv.file_open hopen, hinv.file_content hopen, hptr, ?_⟩
  obtain ⟨-, -, -, hturns⟩ := readStart_eq hfile hread hstart
  rw [TransferState.packets, hturns]
  rfl

/-- The packets up to the first that is not full have the lengths and the bytes
of the blocks of the file, whatever their numbers. -/
theorem lockStepPackets_short (content : Bytes) {i : ℕ} {packet : Bytes}
    (h : (lockStepPackets content (content.length / tftpDataLenMax + 1))[i]? = some packet) :
    packet.length < tftpDataPktLenMax ↔ i = content.length / tftpDataLenMax := by
  obtain ⟨hi, hget⟩ := List.getElem?_eq_some_iff.mp h
  simp only [lockStepPackets, List.length_map, List.length_range] at hi
  simp only [lockStepPackets, List.getElem_map, List.getElem_range] at hget
  subst hget
  have hfull : _ = tftpDataLenMax ↔ _ := Blocks.block_full_iff (by decide) content i
  have hle : (fileBlock content (i + 1)).length ≤ tftpDataLenMax := List.length_take_le _ _
  rw [← fileBlock_succ] at hfull
  rw [dataPacket_length]
  simp only [tftpDataPktLenMax, tftpDataPktHdrLen]
  omega

theorem lockStepPackets_payload (content : Bytes) :
    (lockStepPackets content (content.length / tftpDataLenMax + 1)).flatMap
      (List.drop tftpDataPktHdrLen) = content := by
  have hdrop : List.drop tftpDataPktHdrLen ∘ (fun i =>
      dataPacket (counter (i + 1)) (fileBlock content (i + 1))) = block tftpDataLenMax content := by
    funext i
    rw [Function.comp_apply, ← fileBlock_succ]
    rfl
  rw [lockStepPackets, List.flatMap_map]
  exact (congrArg (List.flatMap · _) hdrop).trans (Blocks.flatMap_block_all (by decide) content)

theorem dataPacket_mod (n : ℕ) (bs : Bytes) : dataPacket (n % 2 ^ 16) bs = dataPacket n bs := by
  rw [dataPacket, dataPacket, be16_mod]

/-- The counter numbers the packets as it should up to number 65536. -/
theorem lockStepPackets_numbered_iff (content : Bytes) (n : ℕ) :
    lockStepPackets content n =
        (List.range n).map (fun i => dataPacket ((i + 1) % 2 ^ 16) (fileBlock content (i + 1))) ↔
      n ≤ 2 ^ 16 := by
  rw [lockStepPackets, List.map_inj_left]
  constructor
  · intro h
    by_contra hn
    have hpacket := h (2 ^ 16) (List.mem_range.mpr (not_le.mp hn))
    have hnumber : be16 (counter (2 ^ 16 + 1)) = be16 ((2 ^ 16 + 1) % 2 ^ 16) := by
      simpa [dataPacket, be16] using hpacket
    exact absurd (be16_injective hnumber) (by decide)
  · intro hn i hi
    have hi := List.mem_range.mp hi
    have hcounter : counter (i + 1) = i + 1 := min_eq_left (by omega)
    rw [hcounter, dataPacket_mod]

theorem lockStepRead_iff {content : Bytes} {s₀ : TransferState} (c : LockStepClient)
    (h : LockStepInv content 0 s₀) : LockStepRead content c s₀ ↔ content.length < 2 ^ 25 := by
  obtain ⟨s, hs, hinv⟩ := lockStepInv_run c h (content.length / tftpDataLenMax) le_rfl
  have hnumbered := lockStepPackets_numbered_iff content (content.length / tftpDataLenMax + 1)
  have hbound : content.length / tftpDataLenMax + 1 ≤ 2 ^ 16 ↔ content.length < 2 ^ 25 := by
    simp only [tftpDataLenMax]
    omega
  rw [← hbound, ← hnumbered]
  constructor
  · rintro ⟨t, ht, hdelivers⟩
    obtain rfl : s = t := Option.some.inj (hs.symm.trans ht)
    rw [← hinv.packets_eq, hdelivers.packets]
  · intro hpackets
    refine ⟨s, hs, ?_, fun i packet hpacket => ?_, ?_⟩
    · rw [hinv.packets_eq, hpackets]
    · exact lockStepPackets_short content (hinv.packets_eq ▸ hpacket)
    · rw [hinv.packets_eq, lockStepPackets_payload]

/-- A file is received in lock-step as it should be if and only if it is shorter
than 65536 blocks. -/
theorem lock_step_read_iff (content fileName : Bytes) (dest : Endpoint)
    (malloc : Option TftpConnectionArgs) (readLimit : ℕ) (w : TftpWorld) (c : LockStepClient)
    (s₀ : TransferState) (hfile : w.card.lookup fileName = some content)
    (hread : tftpDataLenMax ≤ readLimit)
    (hstart : readStart dest fileName malloc readLimit w = some s₀) :
    LockStepRead content c s₀ ↔ content.length < 2 ^ 25 :=
  lockStepRead_iff c (lockStepInv_start hfile hread hstart)

/-- The ACK of a packet in four bytes. -/
def ackOf (packet : Bytes) : Datagram :=
  message ([0, tftpAck] ++ (packet.drop 2).take 2) (by
    rw [List.length_append, List.length_take]
    exact lt_of_le_of_lt (Nat.add_le_add_left (min_le_left _ _) _) (by decide))

theorem acknowledges_ackOf {packet : Bytes} (h : 4 ≤ packet.length) :
    Acknowledges packet (ackOf packet) := by
  have hlen : ([0, tftpAck] ++ (packet.drop 2).take 2).length = 4 := by
    rw [List.length_append, List.length_take, List.length_drop, min_eq_left (by omega)]
    rfl
  have hread := Memory.read_ofBytes ([0, tftpAck] ++ (packet.drop 2).take 2)
  rw [hlen] at hread
  exact ⟨hlen.ge, hread⟩

def ackClient : LockStepClient where
  answer _ := ackOf
  acknowledges _ _ := acknowledges_ackOf
  reads _ _ := le_rfl

/-- Two full blocks and a third of 76 bytes. -/
theorem lock_step_read_three_blocks :
    ∃ s₀, readStart client [65] (some zeroArgs) 512
        (idleWorld (oneFile [65] (List.replicate 1100 7))) = some s₀ ∧
      LockStepRead (List.replicate 1100 7) ackClient s₀ := by
  have hlength : (List.replicate 1100 (7 : UInt8)).length = 1100 := List.length_replicate
  exact ⟨_, rfl, (lock_step_read_iff (List.replicate 1100 7) [65] client (some zeroArgs) 512
    (idleWorld (oneFile [65] (List.replicate 1100 7))) ackClient _ rfl (by decide) rfl).mpr
      (by rw [hlength]; decide)⟩

/-- A file of 65536 full blocks: its last packet, which has no data, should have
the number 1 and has the number 0. -/
theorem lock_step_read_wraps :
    ∃ s₀ s, readStart client [65] (some zeroArgs) 512
        (idleWorld (oneFile [65] (List.replicate (2 ^ 25) 0))) = some s₀ ∧
      lockStep ackClient s₀ (2 ^ 16) = some s ∧ s.packets[2 ^ 16]? = some [0, tftpData, 0, 0] ∧
      ¬ LockStepRead (List.replicate (2 ^ 25) 0) ackClient s₀ := by
  have hlength : (List.replicate (2 ^ 25) (0 : UInt8)).length = 2 ^ 25 := List.length_replicate
  generalize hcontent : List.replicate (2 ^ 25) (0 : UInt8) = content at hlength ⊢
  obtain ⟨s₀, hs₀⟩ : ∃ s₀, readStart client [65] (some zeroArgs) 512
      (idleWorld (oneFile [65] content)) = some s₀ := ⟨_, rfl⟩
  have hinv : LockStepInv content 0 s₀ := lockStepInv_start rfl le_rfl hs₀
  have hblocks : content.length / tftpDataLenMax = 2 ^ 16 := by
    rw [hlength]
    rfl
  obtain ⟨s, hs, hrun⟩ := lockStepInv_run ackClient hinv (2 ^ 16) hblocks.ge
  have hlast : fileBlock content (2 ^ 16 + 1) = [] := by
    apply List.eq_nil_of_length_eq_zero
    rw [fileBlock_length, hlength]
    rfl
  refine ⟨s₀, s, hs₀, hs, ?_, ?_⟩
  · rw [hrun.packets_eq, lockStepPackets_succ, hlast]
    simp [lockStepPackets, dataPacket, counter, be16]
  · rw [lockStepRead_iff ackClient hinv, hlength]
    exact lt_irrefl _

end EthMange.Tftp
