import EthMange.Lib.Run
import EthMange.Tftp.Server

/-!
# One transfer

What each callback of a transfer returns and does, and the machine of a single
transfer: it takes datagrams for as long as its PCB exists.
-/

namespace EthMange.Tftp

/-! ### What the functions do -/

@[simp] theorem tftpSendDataPacket_eq (dest : Endpoint) (block : ℕ) (buf : Memory) (buflen : ℕ)
    (w : TftpWorld) : tftpSendDataPacket dest block buf buflen w =
      w.act [.send dest (dataPacket block (buf.read 0 buflen))] := by
  simp only [tftpSendDataPacket, tftpSendMessage, read_tftpSetDataMessage]

@[simp] theorem tftpSendAckPacket_eq (dest : Endpoint) (block : ℕ) (w : TftpWorld) :
    tftpSendAckPacket dest block w = w.act [.send dest (ackPacket block)] := by
  simp only [tftpSendAckPacket, tftpSendMessage, read_tftpSetBlock_ack]

@[simp] theorem tftpSendErrorMessage_eq (dest : Endpoint) (err : TftpErrorcode) (w : TftpWorld) :
    tftpSendErrorMessage dest err w = w.act [.send dest (errorPacket err)] := rfl

/-- The resources that the clean-up of a transfer gives back. -/
def cleanupLog : List TftpAction := [.freeArgs, .disconnect, .remove]

section Cleanup

variable (args : Option TftpConnectionArgs) (a : TftpConnectionArgs) (w : TftpWorld)

@[simp] theorem memFree_fileSD : (memFree args w).fileSD = w.fileSD := by cases args <;> rfl

@[simp] theorem memFree_fileCR : (memFree args w).fileCR = w.fileCR := by cases args <;> rfl

@[simp] theorem memFree_card : (memFree args w).card = w.card := by cases args <;> rfl

@[simp] theorem tftpCleanupRd_fileSD : (tftpCleanupRd args w).fileSD = .cleared := by
  simp [tftpCleanupRd, tftpCleanup, fileFclose]

@[simp] theorem tftpCleanupRd_fileCR : (tftpCleanupRd args w).fileCR = w.fileCR := by
  simp [tftpCleanupRd, tftpCleanup]

@[simp] theorem tftpCleanupRd_card :
    (tftpCleanupRd args w).card = (fileFclose w.fileSD w.card).2 := by
  simp [tftpCleanupRd, tftpCleanup]

@[simp] theorem tftpCleanupRd_some_log : (tftpCleanupRd (some a) w).log = w.log ++ cleanupLog := by
  simp [tftpCleanupRd, tftpCleanup, memFree, cleanupLog]

@[simp] theorem tftpCleanupWr_fileCR : (tftpCleanupWr args w).fileCR = .cleared := by
  simp [tftpCleanupWr, tftpCleanup, fileFclose]

@[simp] theorem tftpCleanupWr_fileSD : (tftpCleanupWr args w).fileSD = w.fileSD := by
  simp [tftpCleanupWr, tftpCleanup]

@[simp] theorem tftpCleanupWr_card :
    (tftpCleanupWr args w).card = (fileFclose w.fileCR w.card).2 := by
  simp [tftpCleanupWr, tftpCleanup]

@[simp] theorem tftpCleanupWr_some_log : (tftpCleanupWr (some a) w).log = w.log ++ cleanupLog := by
  simp [tftpCleanupWr, tftpCleanup, memFree, cleanupLog]

end Cleanup

/-- The next block is what the file delivers at its position, and is sent under
the block number of the transfer. -/
theorem tftpSendNextBlock_eq (args : TftpConnectionArgs) (dest : Endpoint) (limit : ℕ)
    (w : TftpWorld) : tftpSendNextBlock args dest limit w =
      let r := fileRead w.fileSD tftpDataLenMax limit
      ({ args with
          data := args.data.memcpy 0 (.ofBytes r.1) r.1.length
          dataLen := r.1.length },
        { w with fileSD := r.2 }.act
          [.writeArgs, .readArgs, .send dest (dataPacket args.block r.1)]) := by
  simp only [tftpSendNextBlock, tftpSendDataPacket_eq, Memory.read_memcpy, Memory.read_ofBytes]
  simp [TftpWorld.act]

/-- A read request opens the file and sends block 1, or closes what is open and
sends an error. -/
theorem tftpProcessRead_cases (dest : Endpoint) (fileName : Bytes)
    (malloc : Option TftpConnectionArgs) (limit : ℕ) (w : TftpWorld) :
    (∃ args content, malloc = some args ∧ w.card.lookup fileName = some content ∧
        tftpProcessRead dest fileName malloc limit w =
          ((tftpSendNextBlock { args with op := tftpRrq, dest := dest, block := 1, totBytes := 0 }
              dest limit ({ w with fileSD := .openRead (w.card.locate fileName) content }.act
                [.writeArgs])).map some id)) ∨
      ∃ f err, (f.isWrite = false ∨ f = w.fileSD) ∧ tftpProcessRead dest fileName malloc limit w =
        (none, tftpCleanupRd none ({ w with fileSD := f }.act [.send dest (errorPacket err)])) := by
  cases hfile : w.card.lookup fileName with
  | none =>
    refine .inr ⟨w.fileSD, .fileNotFound, .inr rfl, ?_⟩
    simp [tftpProcessRead, fileFopenRead_of_missing hfile]
  | some content =>
    cases malloc with
    | none =>
      refine .inr ⟨.openRead (w.card.locate fileName) content, .notDefined, .inl rfl, ?_⟩
      simp [tftpProcessRead, fileFopenRead_of_lookup hfile]
    | some args =>
      refine .inl ⟨args, content, rfl, rfl, ?_⟩
      simp [tftpProcessRead, fileFopenRead_of_lookup hfile, Prod.map]

/-- A write request creates the file and sends the ACK for block 0, or closes
what is open and sends an error. -/
theorem tftpProcessWrite_cases (dest : Endpoint) (fileName : Bytes)
    (malloc : Option TftpConnectionArgs) (create : CreateResult) (w : TftpWorld) :
    (∃ args, malloc = some args ∧ w.card.lookup fileName = none ∧
        tftpProcessWrite dest fileName malloc create w =
          (some { args with op := tftpWrq, dest := dest, block := 0, totBytes := 0 },
            { w with
              fileCR := .openWrite (w.card.locate fileName)
              card := w.card.setFile (w.card.locate fileName) [] }.act
                [.writeArgs, .readArgs, .send dest (ackPacket 0)])) ∨
      ∃ f card err, (f = w.fileCR ∧ card = w.card ∨
          w.card.lookup fileName = none ∧ f = .openWrite (w.card.locate fileName) ∧
            card = w.card.setFile (w.card.locate fileName) []) ∧
        tftpProcessWrite dest fileName malloc create w =
          (none, tftpCleanupWr none
            ({ w with fileCR := f, card := card }.act [.send dest (errorPacket err)])) := by
  obtain ⟨hfile, hopen⟩ | ⟨r, hr, hopen⟩ := fileFopenWrite_cases w.fileCR w.card fileName create
  · cases malloc with
    | none =>
      refine .inr ⟨.openWrite (w.card.locate fileName),
        w.card.setFile (w.card.locate fileName) [], .notDefined, .inr ⟨hfile, rfl, rfl⟩, ?_⟩
      simp [tftpProcessWrite, hopen]
    | some args =>
      refine .inl ⟨args, rfl, hfile, ?_⟩
      simp [tftpProcessWrite, hopen, TftpWorld.act]
  · refine .inr ⟨w.fileCR, w.card, .fileAlreadyExists, .inl ⟨rfl, rfl⟩, ?_⟩
    simp [tftpProcessWrite, hopen, hr]

/-- The block number of a read transfer once it has looked at a datagram. -/
def ackedBlock (args : TftpConnectionArgs) (p : Pbuf) : ℕ :=
  if tftpIsCorrectAck p.payload args.block then args.block + 1 else args.block

/-- The file that `rrq_recv_callback` reads from: after the last block it has
been closed. -/
def readSource (args : TftpConnectionArgs) (w : TftpWorld) : EmbeddedFile :=
  if args.dataLen < tftpDataLenMax then .cleared else w.fileSD

/-- The bytes that a call of `rrq_recv_callback` sends. -/
def nextBytes (args : TftpConnectionArgs) (d : Datagram) (w : TftpWorld) : Bytes :=
  (fileRead (readSource args w) tftpDataLenMax d.io.readLimit).1

def rrqLog (args : TftpConnectionArgs) (d : Datagram) (w : TftpWorld) : List TftpAction :=
  [.readArgs] ++ (if tftpIsCorrectAck d.p.payload args.block then [.writeArgs] else []) ++
    (if args.dataLen < tftpDataLenMax then cleanupLog ++ [.pbufFree] else []) ++
    [.writeArgs, .readArgs,
      .send d.src (dataPacket (ackedBlock args d.p) (nextBytes args d w)), .pbufFree]

section Rrq

variable (args : TftpConnectionArgs) (d : Datagram) (w : TftpWorld)

theorem rrqRecvCallback_block : (rrqRecvCallback args d w).1.block = ackedBlock args d.p := by
  unfold rrqRecvCallback ackedBlock
  split <;> simp [tftpSendNextBlock_eq]

theorem rrqRecvCallback_dataLen :
    (rrqRecvCallback args d w).1.dataLen = (nextBytes args d w).length := by
  unfold rrqRecvCallback nextBytes readSource
  split <;> simp only [tftpSendNextBlock_eq] <;> split <;> simp

theorem rrqRecvCallback_fileSD : (rrqRecvCallback args d w).2.fileSD =
    (fileRead (readSource args w) tftpDataLenMax d.io.readLimit).2 := by
  unfold rrqRecvCallback readSource
  split <;> simp only [tftpSendNextBlock_eq] <;> split <;> simp

theorem rrqRecvCallback_fileCR : (rrqRecvCallback args d w).2.fileCR = w.fileCR := by
  simp only [rrqRecvCallback]
  split <;> simp only [tftpSendNextBlock_eq] <;> split <;> simp

theorem rrqRecvCallback_card (h : w.fileSD.isWrite = false) :
    (rrqRecvCallback args d w).2.card = w.card := by
  simp only [rrqRecvCallback]
  split <;> simp only [tftpSendNextBlock_eq] <;> split <;> simp [fileFclose, h]

theorem rrqRecvCallback_log :
    (rrqRecvCallback args d w).2.log = w.log ++ rrqLog args d w := by
  unfold rrqRecvCallback rrqLog nextBytes readSource ackedBlock
  split <;> simp only [tftpSendNextBlock_eq] <;> split <;> simp

end Rrq

/-- What `wrq_recv_callback` does once it has sent its ACK. -/
def finishWrite (args : TftpConnectionArgs) (d : Datagram) (w : TftpWorld) : TftpWorld :=
  if d.p.len < tftpDataPktLenMax then (tftpCleanupWr (some args) w).act [.pbufFree]
  else w.act [.pbufFree]

/-- A write to the open file appends what gets to the card. -/
theorem writeFileCR_of_open {w : TftpWorld} (hopen : w.fileCR.isOpen = true)
    (hwrite : w.fileCR.isWrite = true) (bs : Bytes) (r : WriteResult) :
    (writeFileCR bs r w).1 = r.count bs.length ∧
      (writeFileCR bs r w).2.fileCR = w.fileCR.append (bs.take (r.count bs.length)) :=
  fileWrite_of_open hopen hwrite w.card bs r

theorem dataOf_length (p : Pbuf) : (dataOf p).length = p.len - tftpDataPktHdrLen := by
  simp [dataOf]

theorem finishWrite_log (args : TftpConnectionArgs) (d : Datagram) (w : TftpWorld) :
    (finishWrite args d w).log =
      w.log ++ (if d.p.len < tftpDataPktLenMax then cleanupLog else []) ++ [.pbufFree] := by
  rw [finishWrite]
  split <;> simp

theorem finishWrite_fileCR (args : TftpConnectionArgs) (d : Datagram) (w : TftpWorld) :
    (finishWrite args d w).fileCR =
      if d.p.len < tftpDataPktLenMax then .cleared else w.fileCR := by
  rw [finishWrite]
  split <;> simp

/-- As long as the PCB is not removed the file stays as it is. -/
theorem finishWrite_fileCR_of_open {args : TftpConnectionArgs} {d : Datagram} {w : TftpWorld}
    (h : .remove ∉ (finishWrite args d w).log) : (finishWrite args d w).fileCR = w.fileCR := by
  rw [finishWrite_log] at h
  rw [finishWrite_fileCR]
  split at h
  · simp [cleanupLog] at h
  · rw [if_neg ‹_›]

section Wrq

variable {args : TftpConnectionArgs} {d : Datagram} {w : TftpWorld}

/-- A chain of pbufs is not looked at. -/
theorem wrqRecvCallback_of_chained (h : d.p.len ≠ d.p.totLen) :
    wrqRecvCallback args d w = (args, w) := by
  rw [wrqRecvCallback, if_pos h]

theorem wrqRecvCallback_of_other (hlen : d.p.len = d.p.totLen) (hnext : ¬ isNextBlock args d.p) :
    wrqRecvCallback args d w =
      (args, finishWrite args d
        (w.act [.readArgs, .readArgs, .send d.src (ackPacket args.block)])) := by
  simp only [wrqRecvCallback, hlen, hnext, finishWrite, ne_eq, not_true_eq_false, if_false,
    and_false, tftpSendAckPacket_eq]
  split <;> simp [TftpWorld.act]

/-- The next block without data is only counted. -/
theorem wrqRecvCallback_of_empty (hlen : d.p.len = d.p.totLen) (hnext : isNextBlock args d.p)
    (hempty : ¬ tftpDataPktHdrLen < d.p.len) :
    wrqRecvCallback args d w =
      ({ args with block := args.block + 1 },
        finishWrite args d (w.act [.readArgs, .writeArgs, .readArgs,
          .send d.src (ackPacket (args.block + 1))])) := by
  rw [hlen] at hempty
  simp only [wrqRecvCallback, hlen, hnext, hempty, finishWrite, ne_eq, not_true_eq_false,
    if_false, if_true, false_and, tftpSendAckPacket_eq]
  split <;> simp [TftpWorld.act, tftpCleanupWr, tftpCleanup, memFree]

/-- The arguments after the next block with data. -/
def countData (args : TftpConnectionArgs) (p : Pbuf) : TftpConnectionArgs :=
  { args with
    block := args.block + 1
    totBytes := args.totBytes + (p.len - tftpDataPktHdrLen) }

theorem wrqRecvCallback_of_data (hlen : d.p.len = d.p.totLen) (hnext : isNextBlock args d.p)
    (hdata : tftpDataPktHdrLen < d.p.len)
    (hn : 0 < (writeFileCR (dataOf d.p) d.io.write (w.act [.readArgs])).1) :
    wrqRecvCallback args d w =
      (countData args d.p,
        finishWrite args d ((writeFileCR (dataOf d.p) d.io.write (w.act [.readArgs])).2.act
          [.writeArgs, .readArgs, .send d.src (ackPacket (args.block + 1))])) := by
  have hn' : ¬ (writeFileCR (dataOf d.p) d.io.write (w.act [.readArgs])).1 ≤ 0 := not_le.mpr hn
  rw [hlen] at hdata
  simp only [wrqRecvCallback, hlen, hnext, hdata, hn', finishWrite, countData, ne_eq,
    not_true_eq_false, if_false, if_true, true_and, tftpSendAckPacket_eq]
  split <;> simp [TftpWorld.act, tftpCleanupWr, tftpCleanup, memFree]

/-- When nothing can be stored the transfer is cleaned up and goes on all the
same. -/
theorem wrqRecvCallback_of_failed (hlen : d.p.len = d.p.totLen) (hnext : isNextBlock args d.p)
    (hdata : tftpDataPktHdrLen < d.p.len)
    (hn : (writeFileCR (dataOf d.p) d.io.write (w.act [.readArgs])).1 = 0) :
    wrqRecvCallback args d w =
      (countData args d.p,
        finishWrite args d ((tftpCleanupWr (some args)
          ((writeFileCR (dataOf d.p) d.io.write (w.act [.readArgs])).2.act
            [.send d.src (errorPacket .fileNotFound)])).act
          [.writeArgs, .readArgs, .send d.src (ackPacket (args.block + 1))])) := by
  rw [hlen] at hdata
  simp only [wrqRecvCallback, hlen, hnext, hdata, hn, finishWrite, countData, ne_eq, le_refl,
    not_true_eq_false, if_false, if_true, true_and, tftpSendAckPacket_eq,
    tftpSendErrorMessage_eq]
  split <;> simp [TftpWorld.act, tftpCleanupWr, tftpCleanup, memFree]

end Wrq

/-! ### The machine of one transfer -/

/-- What one call did: `args->block` at its end and its actions. -/
structure Turn where
  block : ℕ
  log : List TftpAction

structure TransferState where
  args : TftpConnectionArgs
  world : TftpWorld
  isOpen : Bool
  delivered : List Datagram
  turns : List Turn

/-- The state that `tftp_process_read` or `tftp_process_write` leaves, if it
leaves a transfer. -/
def TransferState.start (r : Option TftpConnectionArgs × TftpWorld) : Option TransferState :=
  r.1.map fun args => ⟨args, r.2, true, [], [⟨args.block, r.2.log⟩]⟩

/-- The transfer of `tftp_process_read`, from an empty log. -/
def readStart (dest : Endpoint) (fileName : Bytes) (malloc : Option TftpConnectionArgs)
    (readLimit : ℕ) (w : TftpWorld) : Option TransferState :=
  TransferState.start (tftpProcessRead dest fileName malloc readLimit w.clearLog)

/-- The transfer of `tftp_process_write`, from an empty log. -/
def writeStart (dest : Endpoint) (fileName : Bytes) (malloc : Option TftpConnectionArgs)
    (create : CreateResult) (w : TftpWorld) : Option TransferState :=
  TransferState.start (tftpProcessWrite dest fileName malloc create w.clearLog)

def TransferState.receive (k : TransferKind) (s : TransferState) (d : Datagram) :
    TransferState :=
  let (args, w) := recvCallback k s.args d s.world.clearLog
  ⟨args, w, decide (.remove ∉ w.log), s.delivered ++ [d], s.turns ++ [⟨args.block, w.log⟩]⟩

/-- Once the PCB is removed no datagram comes to the callback. -/
def transferStep (k : TransferKind) (s : TransferState) (d : Datagram) : Option TransferState :=
  if s.isOpen then some (s.receive k d) else none

theorem transferStep_eq_some {k : TransferKind} {s t : TransferState} {d : Datagram} :
    transferStep k s d = some t ↔ s.isOpen = true ∧ s.receive k d = t := by
  rw [transferStep]
  split <;> simp [*]

/-- What the callback does on a datagram. -/
def turnOf (k : TransferKind) (s : TransferState) (d : Datagram) : Turn :=
  ⟨(s.receive k d).args.block, (s.receive k d).world.log⟩

theorem receive_turns (k : TransferKind) (s : TransferState) (d : Datagram) :
    (s.receive k d).turns = s.turns ++ [turnOf k s d] := rfl

theorem receive_isOpen (k : TransferKind) (s : TransferState) (d : Datagram) :
    (s.receive k d).isOpen = decide (.remove ∉ (turnOf k s d).log) := rfl

theorem turnOf_read (s : TransferState) (d : Datagram) : turnOf .read s d =
    ⟨ackedBlock s.args d.p, rrqLog s.args d s.world.clearLog⟩ := by
  simp only [turnOf, TransferState.receive, recvCallback, rrqRecvCallback_block,
    rrqRecvCallback_log, TftpWorld.clearLog_log, List.nil_append]

theorem TransferState.start_eq_some {r : Option TftpConnectionArgs × TftpWorld}
    {s : TransferState} :
    TransferState.start r = some s ↔
      ∃ args, r.1 = some args ∧ s = ⟨args, r.2, true, [], [⟨args.block, r.2.log⟩]⟩ := by
  rw [TransferState.start, Option.map_eq_some_iff]
  exact exists_congr fun args => and_congr_right fun _ => eq_comm

/-! ### A client, a card with one file, and messages to the server -/

def client : Endpoint := ⟨0xc0a80002, 1024⟩

/-- A card on which every name is its own entry. -/
def oneFile (fileName content : Bytes) : Card where
  locate := id
  files := fun location => if location = fileName then some content else none

def idleWorld (card : Card) : TftpWorld := ⟨card, .cleared, .cleared, []⟩

def zeroArgs : TftpConnectionArgs := ⟨0, fun _ => 0, 0, ⟨0, 0⟩, 0, 0⟩

/-- A message in one pbuf; the card does all that it is asked for. -/
def message (bs : Bytes) (h : bs.length < 2 ^ 16) : Datagram :=
  ⟨.single bs h, client, ⟨tftpDataLenMax, .stored⟩⟩

end EthMange.Tftp
