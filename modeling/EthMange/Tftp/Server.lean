import EthMange.Efsl.File
import EthMange.Tftp.Utils

/-!
# The TFTP server

The functions of `tftpserver.c` as state passing over the globals of that file.
What they do to the resources of a transfer (its `tftp_connection_args` block,
its PCB, the received pbuf) and what they send is kept in a log.
-/

namespace EthMange.Tftp

/-- An IP address and a UDP port. -/
structure Endpoint where
  addr : UInt32
  port : UInt16
  deriving DecidableEq, Repr

/-- Without `last_time`, which nothing reads. -/
structure TftpConnectionArgs where
  op : UInt8
  data : Memory
  dataLen : ℕ
  -- `to_ip` and `to_port`
  dest : Endpoint
  block : ℕ
  totBytes : ℕ

inductive TftpAction
  -- a message handed to `udp_sendto`
  | send (dest : Endpoint) (packet : Bytes)
  -- the `tftp_connection_args` block is read, written, given to `mem_free`
  | readArgs
  | writeArgs
  | freeArgs
  -- `udp_new`, `udp_disconnect`, `udp_remove`
  | newPcb
  | disconnect
  | remove
  -- `pbuf_free` of the received pbuf
  | pbufFree
  -- bytes that `file_write` has put behind the end of a file
  | store (location stored : Bytes)
  deriving DecidableEq, Repr

/-- The globals `file_SD` and `file_CR`, the card under them, and the log. -/
structure TftpWorld where
  card : Card
  fileSD : EmbeddedFile
  fileCR : EmbeddedFile
  log : List TftpAction

namespace TftpWorld

def act (w : TftpWorld) (as : List TftpAction) : TftpWorld := { w with log := w.log ++ as }

/-- The globals at the start of a call, with nothing logged yet. -/
def clearLog (w : TftpWorld) : TftpWorld := { w with log := [] }

@[simp] theorem clearLog_card (w : TftpWorld) : w.clearLog.card = w.card := rfl

@[simp] theorem clearLog_fileSD (w : TftpWorld) : w.clearLog.fileSD = w.fileSD := rfl

@[simp] theorem clearLog_fileCR (w : TftpWorld) : w.clearLog.fileCR = w.fileCR := rfl

@[simp] theorem clearLog_log (w : TftpWorld) : w.clearLog.log = [] := rfl

@[simp] theorem act_card (w : TftpWorld) (as : List TftpAction) : (w.act as).card = w.card := rfl

@[simp] theorem act_fileSD (w : TftpWorld) (as : List TftpAction) :
    (w.act as).fileSD = w.fileSD := rfl

@[simp] theorem act_fileCR (w : TftpWorld) (as : List TftpAction) :
    (w.act as).fileCR = w.fileCR := rfl

@[simp] theorem act_log (w : TftpWorld) (as : List TftpAction) :
    (w.act as).log = w.log ++ as := rfl

end TftpWorld

/-! ### Sending -/

/-- `tftp_send_message`. No caller looks at the result, so a message for which
there is no pbuf or no route is one that the network loses. -/
def tftpSendMessage (dest : Endpoint) (buf : Memory) (buflen : ℕ) (w : TftpWorld) : TftpWorld :=
  w.act [.send dest (buf.read 0 buflen)]

def tftpConstructErrorMessage (buf : Memory) (err : TftpErrorcode) : ℕ × Memory :=
  let buf := tftpSetOpcode buf tftpError
  let buf := tftpSetErrorcode buf err
  let buf := tftpSetErrormsg buf (tftpErrorcodeString err)
  (4 + (tftpErrorcodeString err).length + 1, buf)

-- the packet of these three is an uninitialised local; all bytes that are sent are set
def tftpSendErrorMessage (dest : Endpoint) (err : TftpErrorcode) (w : TftpWorld) : TftpWorld :=
  let (errorLen, buf) := tftpConstructErrorMessage (fun _ => 0) err
  tftpSendMessage dest buf errorLen w

def tftpSendDataPacket (dest : Endpoint) (block : ℕ) (buf : Memory) (buflen : ℕ)
    (w : TftpWorld) : TftpWorld :=
  let packet := tftpSetOpcode (fun _ => 0) tftpData
  let packet := tftpSetBlock packet block
  let packet := tftpSetDataMessage packet buf buflen
  tftpSendMessage dest packet (buflen + 4) w

def tftpSendAckPacket (dest : Endpoint) (block : ℕ) (w : TftpWorld) : TftpWorld :=
  let packet := tftpSetOpcode (fun _ => 0) tftpAck
  let packet := tftpSetBlock packet block
  tftpSendMessage dest packet tftpAckPktLen w

/-- The bytes of an ERROR message. -/
def errorPacket (err : TftpErrorcode) : Bytes :=
  (tftpConstructErrorMessage (fun _ => 0) err).2.read 0
    (tftpConstructErrorMessage (fun _ => 0) err).1

/-! ### Cleaning up -/

/-- `mem_free(args)`; without a block it does nothing. -/
def memFree (args : Option TftpConnectionArgs) (w : TftpWorld) : TftpWorld :=
  if args.isSome then w.act [.freeArgs] else w

/-- What both clean-up functions do once the file is closed. `fs_umount` only
flushes, and the callback of `UDPpcb` is set to the one that it has. -/
def tftpCleanup (args : Option TftpConnectionArgs) (w : TftpWorld) : TftpWorld :=
  (memFree args w).act [.disconnect, .remove]

def tftpCleanupRd (args : Option TftpConnectionArgs) (w : TftpWorld) : TftpWorld :=
  let (f, card) := fileFclose w.fileSD w.card
  tftpCleanup args { w with fileSD := f, card := card }

def tftpCleanupWr (args : Option TftpConnectionArgs) (w : TftpWorld) : TftpWorld :=
  let (f, card) := fileFclose w.fileCR w.card
  tftpCleanup args { w with fileCR := f, card := card }

/-! ### The callbacks of the transfers -/

/-- What the card does during a callback. -/
structure Io where
  readLimit : ℕ
  write : WriteResult
  deriving DecidableEq, Repr

/-- A call of a receive callback. -/
structure Datagram where
  p : Pbuf
  src : Endpoint
  io : Io

def tftpSendNextBlock (args : TftpConnectionArgs) (dest : Endpoint) (readLimit : ℕ)
    (w : TftpWorld) : TftpConnectionArgs × TftpWorld :=
  let (bs, f) := fileRead w.fileSD tftpDataLenMax readLimit
  let args := { args with
    data := args.data.memcpy 0 (.ofBytes bs) bs.length
    dataLen := bs.length }
  let w := { w with fileSD := f }.act [.writeArgs, .readArgs]
  (args, tftpSendDataPacket dest args.block args.data args.dataLen w)

def rrqRecvCallback (args : TftpConnectionArgs) (d : Datagram) (w : TftpWorld) :
    TftpConnectionArgs × TftpWorld :=
  let w := w.act [.readArgs]
  let (args, w) :=
    if tftpIsCorrectAck d.p.payload args.block then
      ({ args with block := args.block + 1 }, w.act [.writeArgs])
    else (args, w)
  -- the clean-up does not return: the next block is sent in any case
  let w :=
    if args.dataLen < tftpDataLenMax then (tftpCleanupRd (some args) w).act [.pbufFree] else w
  let (args, w) := tftpSendNextBlock args d.src d.io.readLimit w
  (args, w.act [.pbufFree])

/-- `file_write(&file_CR, ..)` -/
def writeFileCR (bs : Bytes) (r : WriteResult) (w : TftpWorld) : ℕ × TftpWorld :=
  let (n, f, card) := fileWrite w.fileCR w.card bs r
  (n, { w with fileCR := f, card := card }.act [.store w.fileCR.location (bs.take n)])

/-- The test that `wrq_recv_callback` makes of the block field. -/
def isNextBlock (args : TftpConnectionArgs) (p : Pbuf) : Prop :=
  tftpExtractBlock p.payload = args.block + 1

instance (args : TftpConnectionArgs) (p : Pbuf) : Decidable (isNextBlock args p) :=
  inferInstanceAs (Decidable (_ = _))

/-- The data bytes of a message. -/
def dataOf (p : Pbuf) : Bytes := p.payload.read tftpDataPktHdrLen (p.len - tftpDataPktHdrLen)

def wrqRecvCallback (args : TftpConnectionArgs) (d : Datagram) (w : TftpWorld) :
    TftpConnectionArgs × TftpWorld :=
  if d.p.len ≠ d.p.totLen then (args, w)
  else
    let w := w.act [.readArgs]
    let (args, w) :=
      if tftpDataPktHdrLen < d.p.len ∧ isNextBlock args d.p then
        let (n, w) := writeFileCR (dataOf d.p) d.io.write w
        -- nor does this clean-up return
        let w :=
          if n ≤ 0 then tftpCleanupWr (some args) (tftpSendErrorMessage d.src .fileNotFound w)
          else w
        ({ args with
            block := args.block + 1
            totBytes := args.totBytes + (d.p.len - tftpDataPktHdrLen) },
          w.act [.writeArgs])
      else if isNextBlock args d.p then
        ({ args with block := args.block + 1 }, w.act [.writeArgs])
      else (args, w)
    let w := tftpSendAckPacket d.src args.block (w.act [.readArgs])
    if d.p.len < tftpDataPktLenMax then (args, (tftpCleanupWr (some args) w).act [.pbufFree])
    else (args, w.act [.pbufFree])

/-! ### Requests -/

inductive TransferKind
  | read
  | write
  deriving DecidableEq, Repr

/-- The callback that `udp_recv` has set for a transfer. -/
def recvCallback : TransferKind → TftpConnectionArgs → Datagram → TftpWorld →
    TftpConnectionArgs × TftpWorld
  | .read => rrqRecvCallback
  | .write => wrqRecvCallback

/-- `tftp_process_read`, with the block that `mem_malloc` returns. The result is
the argument of the callback, if one is set. -/
def tftpProcessRead (dest : Endpoint) (fileName : Bytes) (malloc : Option TftpConnectionArgs)
    (readLimit : ℕ) (w : TftpWorld) : Option TftpConnectionArgs × TftpWorld :=
  let (r, f) := fileFopenRead w.fileSD w.card fileName
  let w := { w with fileSD := f }
  if r ≠ 0 then (none, tftpCleanupRd none (tftpSendErrorMessage dest .fileNotFound w))
  else
    match malloc with
    | none => (none, tftpCleanupRd none (tftpSendErrorMessage dest .notDefined w))
    | some args =>
      let args := { args with op := tftpRrq, dest := dest, block := 1, totBytes := 0 }
      let (args, w) := tftpSendNextBlock args dest readLimit (w.act [.writeArgs])
      (some args, w)

def tftpProcessWrite (dest : Endpoint) (fileName : Bytes) (malloc : Option TftpConnectionArgs)
    (create : CreateResult) (w : TftpWorld) : Option TftpConnectionArgs × TftpWorld :=
  let (r, f, card) := fileFopenWrite w.fileCR w.card fileName create
  let w := { w with fileCR := f, card := card }
  if r ≠ 0 then (none, tftpCleanupWr none (tftpSendErrorMessage dest .fileAlreadyExists w))
  else
    match malloc with
    | none => (none, tftpCleanupWr none (tftpSendErrorMessage dest .notDefined w))
    | some args =>
      let args := { args with op := tftpWrq, dest := dest, block := 0, totBytes := 0 }
      (some args, tftpSendAckPacket dest args.block (w.act [.writeArgs, .readArgs]))

/-- What the calls made for a request return. -/
structure RequestEnv where
  udpNew : Bool
  udpBind : Err
  efsInit : ℤ
  lsOpenDir : ℤ
  create : CreateResult
  malloc : Option TftpConnectionArgs
  readLimit : ℕ

/-- The size of `FileName` in `process_tftp_request`. -/
def fileNameSize : ℕ := 30

/-- The file name once it is in `FileName`. A longer one overwrites what lies behind
the array on the stack. -/
def copyFileName (p : Pbuf) : Option Bytes :=
  (tftpExtractFilename p.payload).filter fun fileName => fileName.length < fileNameSize

/-- `process_tftp_request`, without its output on the display. The result is the
transfer that it leaves open, if any; it does not return when the search for
the end of the file name does not, or when `FileName` cannot hold the name. -/
def processTftpRequest (p : Pbuf) (src : Endpoint) (env : RequestEnv) (w : TftpWorld) :
    Option (Option (TransferKind × TftpConnectionArgs) × TftpWorld) :=
  let op := tftpDecodeOp p.payload
  if ¬ env.udpNew then some (none, w)
  else
    let w := w.act [.newPcb]
    if env.udpBind ≠ .ok then some (none, w)
    else if op = tftpRrq then
      (copyFileName p).map fun fileName =>
        if env.efsInit ≠ 0 ∨ env.lsOpenDir ≠ 0 then (none, w)
        else
          let (args, w) := tftpProcessRead src fileName env.malloc env.readLimit w
          (args.map fun args => (.read, args), w)
    else if op = tftpWrq then
      (copyFileName p).map fun fileName =>
        if env.efsInit ≠ 0 ∨ env.lsOpenDir ≠ 0 then (none, w)
        else
          let (args, w) := tftpProcessWrite src fileName env.malloc env.create w
          (args.map fun args => (.write, args), w)
    else some (none, (tftpSendErrorMessage src .accessViolation w).act [.remove])

def recvCallbackTftp (p : Pbuf) (src : Endpoint) (env : RequestEnv) (w : TftpWorld) :
    Option (Option (TransferKind × TftpConnectionArgs) × TftpWorld) :=
  (processTftpRequest p src env w).map fun (t, w) => (t, w.act [.pbufFree])

end EthMange.Tftp
