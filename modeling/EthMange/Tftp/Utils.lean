import EthMange.Lwip.Pbuf

/-!
# TFTP messages

The functions of `tftputils.c` that take messages apart and put them together in
memory, and the byte strings that they make.
-/

namespace EthMange.Tftp

-- `tftp_opcode`; the opcode of a received message may be any byte
def tftpRrq : UInt8 := 1
def tftpWrq : UInt8 := 2
def tftpData : UInt8 := 3
def tftpAck : UInt8 := 4
def tftpError : UInt8 := 5

-- `tftp_errorcode`
inductive TftpErrorcode
  | notDefined | fileNotFound | accessViolation | diskFull | illegalOp | unknownTransferId
  | fileAlreadyExists | noSuchUser
  deriving DecidableEq, Repr

def TftpErrorcode.toByte : TftpErrorcode → UInt8
  | notDefined => 0
  | fileNotFound => 1
  | accessViolation => 2
  | diskFull => 3
  | illegalOp => 4
  | unknownTransferId => 5
  | fileAlreadyExists => 6
  | noSuchUser => 7

def tftpErrorcodeString : TftpErrorcode → String
  | .notDefined => "not defined"
  | .fileNotFound => "file not found"
  | .accessViolation => "access violation"
  | .diskFull => "disk full"
  | .illegalOp => "illegal operation"
  | .unknownTransferId => "unknown transfer id"
  | .fileAlreadyExists => "file already exists"
  | .noSuchUser => "no such user"

-- the sizes of `tftpserver.c`
def tftpDataLenMax : ℕ := 512
def tftpDataPktHdrLen : ℕ := 4
def tftpAckPktLen : ℕ := 4
def tftpDataPktLenMax : ℕ := tftpDataPktHdrLen + tftpDataLenMax

def tftpDecodeOp (buf : Memory) : UInt8 := buf 1

def tftpExtractBlock (buf : Memory) : ℕ := 256 * (buf 2).toNat + (buf 3).toNat

/-- The bytes of a C string up to its NUL, looked for in `fuel` bytes. -/
def cString (m : Memory) : (fuel off : ℕ) → Option Bytes
  | 0, _ => none
  | fuel + 1, off => if m off = 0 then some [] else (cString m fuel (off + 1)).map (m off :: ·)

/-- `tftp_extract_filename`. The `strcpy` has no bound but the address space. -/
def tftpExtractFilename (buf : Memory) : Option Bytes := cString buf (2 ^ 32) 2

def tftpSetOpcode (buffer : Memory) (opcode : UInt8) : Memory :=
  Function.update (Function.update buffer 0 0) 1 opcode

def tftpSetErrorcode (buffer : Memory) (errCode : TftpErrorcode) : Memory :=
  Function.update (Function.update buffer 2 0) 3 errCode.toByte

def tftpSetErrormsg (buffer : Memory) (errormsg : String) : Memory :=
  buffer.memcpy 4 (.ofBytes (stringBytes errormsg)) (errormsg.length + 1)

/-- `tftp_set_block`; its argument is cut to 16 bits. -/
def tftpSetBlock (packet : Memory) (block : ℕ) : Memory :=
  Function.update (Function.update packet 2 (UInt8.ofNat (block / 256))) 3 (UInt8.ofNat block)

def tftpSetDataMessage (packet buf : Memory) (buflen : ℕ) : Memory := packet.memcpy 4 buf buflen

def tftpIsCorrectAck (buf : Memory) (block : ℕ) : Bool :=
  if tftpDecodeOp buf ≠ tftpAck then false
  else if block ≠ tftpExtractBlock buf then false
  else true

/-! ### The messages as bytes -/

def be16 (n : ℕ) : Bytes := [UInt8.ofNat (n / 256), UInt8.ofNat n]

def dataPacket (block : ℕ) (bs : Bytes) : Bytes := [0, tftpData] ++ be16 block ++ bs

def ackPacket (block : ℕ) : Bytes := [0, tftpAck] ++ be16 block

/-- The datagram begins with the two bytes of an opcode. -/
def HasOpcode (p : Pbuf) (opcode : UInt8) : Prop := p.bytes.take 2 = [0, opcode]

instance (p : Pbuf) (opcode : UInt8) : Decidable (HasOpcode p opcode) :=
  inferInstanceAs (Decidable (_ = _))

theorem be16_mod (n : ℕ) : be16 (n % 2 ^ 16) = be16 n := by
  simp only [be16, List.cons.injEq, and_true]
  refine ⟨?_, ?_⟩
  · apply UInt8.toNat_inj.mp
    simp only [UInt8.toNat_ofNat']
    omega
  · apply UInt8.toNat_inj.mp
    simp only [UInt8.toNat_ofNat']
    omega

theorem be16_injective {m n : ℕ} (h : be16 m = be16 n) : m % 2 ^ 16 = n % 2 ^ 16 := by
  simp only [be16, List.cons.injEq, and_true] at h
  have hhigh := congrArg UInt8.toNat h.1
  have hlow := congrArg UInt8.toNat h.2
  simp only [UInt8.toNat_ofNat'] at hhigh hlow
  omega

/-- Memory that ends with `tail` behind a header of an opcode and a block number. -/
theorem read_header (packet : Memory) (opcode : UInt8) (block n : ℕ) (tail : Memory)
    (h : ∀ a < 4, tail a = tftpSetBlock (tftpSetOpcode packet opcode) block a) :
    tail.read 0 (4 + n) = [0, opcode] ++ be16 block ++ tail.read 4 n := by
  rw [Memory.read_add]
  have hhdr : tail.read 0 4 = (tftpSetBlock (tftpSetOpcode packet opcode) block).read 0 4 :=
    Memory.read_congr fun a _ ha => h a (by omega)
  rw [hhdr]
  rfl

theorem read_tftpSetDataMessage (packet buf : Memory) (block buflen : ℕ) :
    (tftpSetDataMessage (tftpSetBlock (tftpSetOpcode packet tftpData) block) buf buflen).read 0
      (buflen + 4) = dataPacket block (buf.read 0 buflen) := by
  rw [Nat.add_comm, read_header packet tftpData block]
  · simp only [tftpSetDataMessage, Memory.read_memcpy, dataPacket]
  · intro a ha
    rw [tftpSetDataMessage, Memory.memcpy_outside _ _ (.inl ha)]

theorem read_tftpSetBlock_ack (packet : Memory) (block : ℕ) :
    (tftpSetBlock (tftpSetOpcode packet tftpAck) block).read 0 tftpAckPktLen =
      ackPacket block := by
  have h := read_header packet tftpAck block 0
    (tftpSetBlock (tftpSetOpcode packet tftpAck) block) fun _ _ => rfl
  simpa [ackPacket, tftpAckPktLen] using h

theorem tftpIsCorrectAck_iff (buf : Memory) (block : ℕ) :
    tftpIsCorrectAck buf block = true ↔
      tftpDecodeOp buf = tftpAck ∧ tftpExtractBlock buf = block := by
  rw [tftpIsCorrectAck]
  split_ifs with hop hblock
  · simp [hop]
  · simp only [false_iff]
    exact fun h => hblock h.2.symm
  · simp only [not_not] at hop hblock
    simp [hop, hblock]

/-- The field of the ACK of a block is what 16 bits hold of its number. -/
theorem tftpIsCorrectAck_of_read {buf : Memory} {number : ℕ}
    (h : buf.read 0 tftpAckPktLen = ackPacket number) (block : ℕ) :
    tftpIsCorrectAck buf block = true ↔ block = number % 2 ^ 16 := by
  simp only [Memory.read, ackPacket, be16, tftpAckPktLen, List.range_succ, List.range_zero,
    List.nil_append, List.map_cons, List.map_nil, List.cons_append, Nat.zero_add,
    List.cons.injEq, and_true] at h
  obtain ⟨-, hop, hhigh, hlow⟩ := h
  rw [tftpIsCorrectAck_iff, tftpDecodeOp, hop, tftpExtractBlock, hhigh, hlow]
  simp only [UInt8.toNat_ofNat', true_and]
  omega

theorem tftpExtractBlock_lt (buf : Memory) : tftpExtractBlock buf < 2 ^ 16 := by
  have h2 := (buf 2).toNat_lt
  have h3 := (buf 3).toNat_lt
  rw [tftpExtractBlock]
  omega

end EthMange.Tftp
