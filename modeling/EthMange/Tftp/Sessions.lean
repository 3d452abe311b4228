import EthMange.Tftp.Transfer

/-!
# The server with all its transfers

Requests and datagrams of any number of clients, in any order. Each request that
leaves a transfer open has a PCB of its own; the files are the two globals that
all transfers share.
-/

namespace EthMange.Tftp

/-- A transfer with what it was asked for: the name, and, for a read, the content
of that file at the request. `passed` is the file data that it has passed on,
to its client or to its file. -/
structure Transfer where
  kind : TransferKind
  isOpen : Bool
  args : TftpConnectionArgs
  fileName : Bytes
  content : Bytes
  passed : Bytes

/-- The data in the DATA packets of a log. -/
def sentData (log : List TftpAction) : Bytes :=
  log.flatMap fun
    | .send _ packet => if packet.getD 1 0 = tftpData then packet.drop tftpDataPktHdrLen else []
    | _ => []

/-- The data that `wrq_recv_callback` takes from a datagram for the file. -/
def acceptedData (args : TftpConnectionArgs) (p : Pbuf) : Bytes :=
  if p.len = p.totLen ∧ tftpDataPktHdrLen < p.len ∧ isNextBlock args p then dataOf p else []

/-- The file data that a call of the callback passes on. -/
def Transfer.passes (t : Transfer) (d : Datagram) (log : List TftpAction) : Bytes :=
  match t.kind with
  | .read => sentData log
  | .write => acceptedData t.args d.p

/-- The server. `transfers` has all transfers so far, in the order of their
requests. -/
structure Server where
  world : TftpWorld
  transfers : List Transfer

inductive ServerEvent
  -- a datagram on port 69
  | request (p : Pbuf) (src : Endpoint) (env : RequestEnv)
  -- a datagram on the port of a transfer
  | datagram (i : ℕ) (d : Datagram)

/-- The transfer that a request leaves open in `w`. -/
def Transfer.new (card : Card) (p : Pbuf) (w : TftpWorld) (k : TransferKind)
    (args : TftpConnectionArgs) : Transfer :=
  let fileName := (copyFileName p).getD []
  { kind := k
    isOpen := true
    args := args
    fileName := fileName
    content := (card.lookup fileName).getD []
    passed := sentData w.log }

def Server.serve (s : Server) (i : ℕ) (t : Transfer) (d : Datagram) : Server :=
  let (args, w) := recvCallback t.kind t.args d s.world.clearLog
  { world := w
    transfers := s.transfers.set i { t with
      isOpen := decide (.remove ∉ w.log)
      args := args
      passed := t.passed ++ t.passes d w.log } }

def serverStep (s : Server) : ServerEvent → Option Server
  | .request p src env =>
    (recvCallbackTftp p src env s.world.clearLog).map fun (r, w) =>
      { world := w
        transfers := s.transfers ++
          r.toList.map fun (k, args) => .new s.world.card p w k args }
  | .datagram i d =>
    match s.transfers[i]? with
    | some t => if t.isOpen then some (s.serve i t d) else none
    | none => none

/-- The server after start-up. -/
def serverInit (card : Card) : Server := ⟨idleWorld card, []⟩

/-- The global file that a transfer uses. -/
def TransferKind.file : TransferKind → TftpWorld → EmbeddedFile
  | .read, w => w.fileSD
  | .write, w => w.fileCR

/-! ### The two kinds of step -/

theorem sentData_append (l k : List TftpAction) : sentData (l ++ k) = sentData l ++ sentData k := by
  simp [sentData]

@[simp] theorem sentData_data (dest : Endpoint) (block : ℕ) (bs : Bytes) :
    sentData [.send dest (dataPacket block bs)] = bs := by
  simp [sentData, dataPacket, be16, tftpDataPktHdrLen]

theorem sentData_rrqLog (args : TftpConnectionArgs) (d : Datagram) (w : TftpWorld) :
    sentData (rrqLog args d w) = nextBytes args d w := by
  have hsend := sentData_data d.src (ackedBlock args d.p) (nextBytes args d w)
  unfold rrqLog cleanupLog
  simp only [sentData_append]
  split <;> split <;> simpa [sentData] using hsend

/-- What a request can do: nothing, or what `tftp_process_read` or
`tftp_process_write` does for the name in it. -/
theorem recvCallbackTftp_cases {p : Pbuf} {src : Endpoint} {env : RequestEnv} {w w' : TftpWorld}
    {r : Option (TransferKind × TftpConnectionArgs)}
    (h : recvCallbackTftp p src env w = some (r, w')) :
    (r = none ∧ w'.card = w.card ∧ w'.fileSD = w.fileSD ∧ w'.fileCR = w.fileCR) ∨
      (env.udpNew = true ∧ env.udpBind = .ok ∧ tftpDecodeOp p.payload = tftpRrq ∧
        ∃ fileName, copyFileName p = some fileName ∧ ∃ args w₁,
          tftpProcessRead src fileName env.malloc env.readLimit (w.act [.newPcb]) = (args, w₁) ∧
          r = args.map (fun a => (.read, a)) ∧ w' = w₁.act [.pbufFree]) ∨
      (env.udpNew = true ∧ env.udpBind = .ok ∧ tftpDecodeOp p.payload = tftpWrq ∧
        ∃ fileName, copyFileName p = some fileName ∧ ∃ args w₁,
          tftpProcessWrite src fileName env.malloc env.create (w.act [.newPcb]) = (args, w₁) ∧
          r = args.map (fun a => (.write, a)) ∧ w' = w₁.act [.pbufFree]) := by
  simp only [recvCallbackTftp, Option.map_eq_some_iff, Prod.mk.injEq] at h
  obtain ⟨⟨r₁, w₁⟩, h, rfl, rfl⟩ := h
  have hnone {w₂ : TftpWorld} (heq : (none, w₂) = (r₁, w₁)) (hcard : w₂.card = w.card)
      (hSD : w₂.fileSD = w.fileSD) (hCR : w₂.fileCR = w.fileCR) :
      r₁ = none ∧ w₁.card = w.card ∧ w₁.fileSD = w.fileSD ∧ w₁.fileCR = w.fileCR := by
    obtain ⟨rfl, rfl⟩ := Prod.mk.inj heq
    exact ⟨rfl, hcard, hSD, hCR⟩
  by_cases hnew : env.udpNew = true
  · by_cases hbind : env.udpBind = .ok
    · by_cases hrrq : tftpDecodeOp p.payload = tftpRrq
      · simp only [processTftpRequest, hnew, hbind, hrrq, not_true_eq_false, ne_eq, if_false,
          if_true, Option.map_eq_some_iff] at h
        obtain ⟨fileName, hname, h⟩ := h
        split at h
        · exact .inl (hnone h rfl rfl rfl)
        · obtain ⟨rfl, rfl⟩ := Prod.mk.inj h
          exact .inr (.inl ⟨hnew, hbind, hrrq, fileName, hname, _, _, rfl, rfl, rfl⟩)
      · by_cases hwrq : tftpDecodeOp p.payload = tftpWrq
        · have hne : tftpWrq ≠ tftpRrq := by decide
          simp only [processTftpRequest, hnew, hbind, hwrq, hne, not_true_eq_false, ne_eq,
            if_false, if_true, Option.map_eq_some_iff] at h
          obtain ⟨fileName, hname, h⟩ := h
          split at h
          · exact .inl (hnone h rfl rfl rfl)
          · obtain ⟨rfl, rfl⟩ := Prod.mk.inj h
            exact .inr (.inr ⟨hnew, hbind, hwrq, fileName, hname, _, _, rfl, rfl, rfl⟩)
        · simp only [processTftpRequest, hnew, hbind, hrrq, hwrq, not_true_eq_false, ne_eq,
            if_false, Option.some.injEq] at h
          exact .inl (hnone h rfl rfl rfl)
    · simp only [processTftpRequest, hnew, hbind, not_true_eq_false, not_false_eq_true, ne_eq,
        if_false, if_true, Option.some.injEq] at h
      exact .inl (hnone h rfl rfl rfl)
  · simp only [processTftpRequest, hnew, not_false_eq_true, if_true, Option.some.injEq,
      Bool.false_eq_true] at h
    exact .inl (hnone h rfl rfl rfl)

end EthMange.Tftp
