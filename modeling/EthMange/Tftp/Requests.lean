import EthMange.Lib.Run
import EthMange.Lwip.Udp
import EthMange.Tftp.Transfer

/-!
# Requests on port 69

What `process_tftp_request` takes from the pool of UDP control blocks when it leaves
no transfer behind, and which bytes of the datagram and of its `FileName` it uses.
-/

namespace EthMange.Tftp

open Run Lwip

/-! ### The control block of a failing request -/

/-- A datagram on port 69 with what the calls made for it return; whether there is a
control block depends on the pool. -/
structure Request where
  p : Pbuf
  src : Endpoint
  env : RequestEnv

/-- The UDP control blocks in use, and the globals of the server. -/
structure PcbState where
  inUse : ℕ
  world : TftpWorld

def Request.envAt (r : Request) (inUse : ℕ) : RequestEnv :=
  { r.env with udpNew := decide (inUse < mempNumUdpPcb) }

/-- The control blocks in use after a call. -/
def pcbsAfter (inUse : ℕ) (log : List TftpAction) : ℕ :=
  inUse + log.count .newPcb - log.count .remove

/-- A request that leaves no transfer open. -/
def failStep (s : PcbState) (r : Request) : Option PcbState :=
  match processTftpRequest r.p r.src (r.envAt s.inUse) s.world.clearLog with
  | some (none, w) => some ⟨pcbsAfter s.inUse w.log, w⟩
  | _ => none

/-- The control block can be bound, and the card be opened for what the client asks. -/
def OpensCard (p : Pbuf) (env : RequestEnv) : Prop :=
  env.udpBind = .ok ∧
    (tftpDecodeOp p.payload = tftpRrq ∨ tftpDecodeOp p.payload = tftpWrq →
      env.efsInit = 0 ∧ env.lsOpenDir = 0)

/-- There is no control block for the request, or the card can be opened with it. -/
def Releases (s : PcbState) (r : Request) : Prop :=
  s.inUse < mempNumUdpPcb → OpensCard r.p r.env

instance (p : Pbuf) (env : RequestEnv) : Decidable (OpensCard p env) :=
  inferInstanceAs (Decidable (_ ∧ (_ → _)))

instance (s : PcbState) (r : Request) : Decidable (Releases s r) :=
  inferInstanceAs (Decidable (_ → _))

section Process

variable {src : Endpoint} {fileName : Bytes} {malloc : Option TftpConnectionArgs} {limit : ℕ}
  {create : CreateResult} {w w' : TftpWorld}

/-- A request for a file that fails gives its control block back. -/
theorem tftpProcessRead_none (h : tftpProcessRead src fileName malloc limit w = (none, w')) :
    w'.log.count .newPcb = w.log.count .newPcb ∧
      w'.log.count .remove = w.log.count .remove + 1 := by
  obtain ⟨args, content, -, -, heq⟩ | ⟨f, err, -, heq⟩ :=
    tftpProcessRead_cases src fileName malloc limit w
  · rw [heq] at h
    exact absurd (congrArg Prod.fst h) nofun
  · rw [heq] at h
    obtain rfl := (Prod.mk.inj h).2
    simp [tftpCleanupRd, tftpCleanup, memFree]

theorem tftpProcessWrite_none (h : tftpProcessWrite src fileName malloc create w = (none, w')) :
    w'.log.count .newPcb = w.log.count .newPcb ∧
      w'.log.count .remove = w.log.count .remove + 1 := by
  obtain ⟨args, -, -, heq⟩ | ⟨f, card, err, -, heq⟩ :=
    tftpProcessWrite_cases src fileName malloc create w
  · rw [heq] at h
    exact absurd (congrArg Prod.fst h) nofun
  · rw [heq] at h
    obtain rfl := (Prod.mk.inj h).2
    simp [tftpCleanupWr, tftpCleanup, memFree]

/-- The control block that a failing request has taken is given back if the card could
be opened. -/
theorem processTftpRequest_none {p : Pbuf} {env : RequestEnv} (hnew : env.udpNew = true)
    (h : processTftpRequest p src env w = some (none, w')) :
    w'.log.count .newPcb = w.log.count .newPcb + 1 ∧
      w'.log.count .remove = w.log.count .remove + if OpensCard p env then 1 else 0 := by
  have hkept : w'= w.act [.newPcb] → ¬ OpensCard p env →
      w'.log.count .newPcb = w.log.count .newPcb + 1 ∧
        w'.log.count .remove = w.log.count .remove + if OpensCard p env then 1 else 0 := by
    rintro rfl hcard
    rw [if_neg hcard]
    simp
  by_cases hbind : env.udpBind = .ok
  · by_cases hop : tftpDecodeOp p.payload = tftpRrq ∨ tftpDecodeOp p.payload = tftpWrq
    · by_cases hcard : env.efsInit = 0 ∧ env.lsOpenDir = 0
      · have hopens : OpensCard p env := ⟨hbind, fun _ => hcard⟩
        rw [if_pos hopens]
        have hcard' : ¬ (env.efsInit ≠ 0 ∨ env.lsOpenDir ≠ 0) := by simpa using hcard
        obtain hrrq | hwrq := hop
        · simp only [processTftpRequest, hnew, hbind, hrrq, hcard', not_true_eq_false, ne_eq,
            if_false, if_true, Option.map_eq_some_iff, Prod.mk.injEq, Option.map_eq_none_iff] at h
          obtain ⟨fileName, -, hnone, rfl⟩ := h
          simpa using tftpProcessRead_none (Prod.ext hnone rfl)
        · have hne : tftpWrq ≠ tftpRrq := by decide
          simp only [processTftpRequest, hnew, hbind, hwrq, hne, hcard', not_true_eq_false, ne_eq,
            if_false, if_true, Option.map_eq_some_iff, Prod.mk.injEq, Option.map_eq_none_iff] at h
          obtain ⟨fileName, -, hnone, rfl⟩ := h
          simpa using tftpProcessWrite_none (Prod.ext hnone rfl)
      · have hcard' : env.efsInit ≠ 0 ∨ env.lsOpenDir ≠ 0 := not_and_or.mp hcard
        refine hkept ?_ fun hopens => hcard (hopens.2 hop)
        obtain hrrq | hwrq := hop
        · simp only [processTftpRequest, hnew, hbind, hrrq, hcard', not_true_eq_false, ne_eq,
            if_false, if_true, Option.map_eq_some_iff, Prod.mk.injEq, true_and] at h
          exact h.choose_spec.2.symm
        · have hne : tftpWrq ≠ tftpRrq := by decide
          simp only [processTftpRequest, hnew, hbind, hwrq, hne, hcard', not_true_eq_false, ne_eq,
            if_false, if_true, Option.map_eq_some_iff, Prod.mk.injEq, true_and] at h
          exact h.choose_spec.2.symm
    · have hopens : OpensCard p env := ⟨hbind, fun hc => absurd hc hop⟩
      obtain ⟨hrrq, hwrq⟩ := not_or.mp hop
      simp only [processTftpRequest, hnew, hbind, hrrq, hwrq, not_true_eq_false, ne_eq, if_false,
        Option.some.injEq, Prod.mk.injEq, true_and] at h
      rw [if_pos hopens, ← h]
      simp
  · refine hkept ?_ fun hopens => hbind hopens.1
    simp only [processTftpRequest, hnew, hbind, not_true_eq_false, not_false_eq_true, ne_eq,
      if_false, if_true, Option.some.injEq, Prod.mk.injEq, true_and] at h
    exact h.symm

end Process

/-- A failing request keeps its control block if and only if it got one and could not
bind it or open the card. -/
theorem failStep_inUse {s t : PcbState} {r : Request} (h : failStep s r = some t) :
    t.inUse = if Releases s r then s.inUse else s.inUse + 1 := by
  have hcall : processTftpRequest r.p r.src (r.envAt s.inUse) s.world.clearLog =
      some (none, t.world) ∧ t.inUse = pcbsAfter s.inUse t.world.log := by
    rw [failStep] at h
    split at h
    · next w hw =>
      obtain rfl := Option.some.inj h
      exact ⟨hw, rfl⟩
    · exact absurd h nofun
  obtain ⟨hcall, hinUse⟩ := hcall
  by_cases hroom : s.inUse < mempNumUdpPcb
  · obtain ⟨hnew, hremove⟩ := processTftpRequest_none (decide_eq_true hroom) hcall
    have hcard : OpensCard r.p (r.envAt s.inUse) ↔ Releases s r :=
      ⟨fun hopens _ => hopens, fun hrel => hrel hroom⟩
    rw [TftpWorld.clearLog_log, List.count_nil, Nat.zero_add] at hnew hremove
    rw [hinUse, pcbsAfter, hnew, hremove, if_congr hcard rfl rfl]
    split_ifs
    · rfl
    · rfl
  · have hnone : (r.envAt s.inUse).udpNew = false := decide_eq_false hroom
    simp only [processTftpRequest, hnone, Bool.false_eq_true, not_false_eq_true, if_true,
      Option.some.injEq, Prod.mk.injEq, true_and] at hcall
    have hrel : Releases s r := fun hc => absurd hc hroom
    rw [hinUse, if_pos hrel, ← hcall]
    rfl

/-- However many requests fail, they leave as many control blocks in use as there were
if and only if for each of them there was none, or the card could be opened with it. -/
theorem failing_requests_keep_pcbs_iff {s t : PcbState} {rs : List Request}
    (hrun : run failStep s rs = some t) : t.inUse = s.inUse ↔ Along failStep Releases s rs := by
  have hgrows (u : PcbState) (r : Request) (v : PcbState) (h : failStep u r = some v) :
      u.inUse ≤ v.inUse := by
    rw [failStep_inUse h]
    split_ifs
    · exact le_rfl
    · exact Nat.le_succ _
  obtain ⟨hrel, ht⟩ | ⟨hleak, ht⟩ := invariant_or_lost
    (I := fun u => u.inUse = s.inUse) (L := fun u => s.inUse < u.inUse)
    (fun u r v hu hrel h => by rw [failStep_inUse h, if_pos hrel, hu])
    (fun u r v hu hleak h => by rw [failStep_inUse h, if_neg hleak, hu]; exact Nat.lt_succ_self _)
    (fun u r v hu h => hu.trans_le (hgrows u r v h)) rfl hrun
  · exact iff_of_true ht hrel
  · exact iff_of_false ht.ne' hleak

/-- A request for the file "A", and what opening the card returns. -/
def readRequest (efsInit : ℤ) : Request where
  p := .single [0, 1, 65, 0] (by decide)
  src := client
  env := ⟨true, .ok, efsInit, 0, .free, some zeroArgs, tftpDataLenMax⟩

theorem failing_requests_keep_pcbs_missing_file :
    ∃ t, run failStep ⟨1, idleWorld (oneFile [66] [])⟩ (List.replicate 9 (readRequest 0)) =
      some t ∧ t.inUse = 1 := by
  have hended : (run failStep ⟨1, idleWorld (oneFile [66] [])⟩
      (List.replicate 9 (readRequest 0))).isSome = true := by decide +kernel
  obtain ⟨t, hrun⟩ := Option.isSome_iff_exists.mp hended
  exact ⟨t, hrun, (failing_requests_keep_pcbs_iff hrun).mpr (by decide +kernel)⟩

/-- Five requests without a card take all control blocks that port 69 has left. -/
theorem missing_card_exhausts_pool :
    ∃ t, run failStep ⟨1, idleWorld (oneFile [65] [])⟩ (List.replicate 5 (readRequest (-1))) =
      some t ∧ t.inUse = mempNumUdpPcb := by
  have hended : (run failStep ⟨1, idleWorld (oneFile [65] [])⟩
      (List.replicate 5 (readRequest (-1)))).map (·.inUse) = some 6 := by decide +kernel
  exact Option.map_eq_some_iff.mp hended

/-! ### The bytes of a request -/

/-- The places that `strcpy` reads, up to the NUL. -/
def strcpyReads (m : Memory) : (fuel off : ℕ) → List ℕ
  | 0, _ => []
  | fuel + 1, off => off :: if m off = 0 then [] else strcpyReads m fuel (off + 1)

/-- There is a control block for the request, and it has a file name. -/
def Parses (p : Pbuf) (env : RequestEnv) : Prop :=
  env.udpNew = true ∧ env.udpBind = .ok ∧
    (tftpDecodeOp p.payload = tftpRrq ∨ tftpDecodeOp p.payload = tftpWrq)

instance (p : Pbuf) (env : RequestEnv) : Decidable (Parses p env) :=
  inferInstanceAs (Decidable (_ ∧ _ ∧ _))

/-- The places of the payload that `tftp_extract_filename` copies, each to the place of
`FileName` that is two before it. -/
def copied (p : Pbuf) (env : RequestEnv) : List ℕ :=
  if Parses p env then strcpyReads p.payload (2 ^ 32) 2 else []

/-- The places of the payload that `process_tftp_request` reads. -/
def requestReads (p : Pbuf) (env : RequestEnv) : List ℕ := 1 :: copied p env

/-- The places of `FileName` that it writes. -/
def requestWrites (p : Pbuf) (env : RequestEnv) : List ℕ := (copied p env).map (· - 2)

/-- A read or write request with a name that `FileName` can hold. -/
def IsRequest (bs : Bytes) : Prop :=
  ∃ op name rest, (op = tftpRrq ∨ op = tftpWrq) ∧ bs = 0 :: op :: (name ++ 0 :: rest) ∧
    name ≠ [] ∧ 0 ∉ name ∧ name.length < fileNameSize

/-- Only bytes of the datagram are read and only bytes of `FileName` are written, and a
transfer is started for requests only. -/
structure RequestSafe (p : Pbuf) (src : Endpoint) (env : RequestEnv) (w : TftpWorld) : Prop where
  reads : ∀ i ∈ requestReads p env, i < p.len
  writes : ∀ i ∈ requestWrites p env, i < fileNameSize
  starts : ∀ t w', recvCallbackTftp p src env w = some (some t, w') → IsRequest p.bytes

/-- `file_fopen` and the calls around it succeed. -/
def Starts (p : Pbuf) (env : RequestEnv) (w : TftpWorld) (fileName : Bytes) : Prop :=
  env.efsInit = 0 ∧ env.lsOpenDir = 0 ∧ env.malloc.isSome = true ∧
    if tftpDecodeOp p.payload = tftpRrq then (fileFopenRead w.fileSD w.card fileName).1 = 0
    else (fileFopenWrite w.fileCR w.card fileName env.create).1 = 0

/-- There is an opcode, and where a name is looked for a NUL ends it inside the first
pbuf and inside `FileName`. A transfer that can start has a first byte 0 and a name. -/
def RequestFits (p : Pbuf) (env : RequestEnv) (w : TftpWorld) : Prop :=
  1 < p.len ∧ (Parses p env → ∃ name : Bytes, 0 ∉ name ∧ name.length < fileNameSize ∧
    name.length + 2 < p.len ∧ p.payload.read 2 (name.length + 1) = name ++ [0] ∧
    (Starts p env w name → p.payload 0 = 0 ∧ name ≠ []))

section Strcpy

variable {m m' : Memory} {fuel off : ℕ} {name : Bytes}

theorem cString_of_read (h : m.read off (name.length + 1) = name ++ [0]) (hname : 0 ∉ name)
    (hfuel : name.length < fuel) :
    cString m fuel off = some name ∧
      strcpyReads m fuel off = List.range' off (name.length + 1) := by
  induction name generalizing fuel off with
  | nil =>
    obtain ⟨fuel, rfl⟩ := Nat.exists_eq_succ_of_ne_zero hfuel.ne'
    have hzero : m off = 0 := by simpa [Memory.read] using h
    simp [cString, strcpyReads, hzero]
  | cons c name ih =>
    obtain ⟨fuel, rfl⟩ := Nat.exists_eq_succ_of_ne_zero (Nat.ne_zero_of_lt hfuel)
    rw [List.mem_cons, not_or] at hname
    obtain ⟨hc, hname⟩ := hname
    rw [List.length_cons, Nat.add_comm (name.length + 1) 1, Memory.read_add] at h
    have hfirst : m off = c := by
      have hget := congrArg List.head? h
      simpa [Memory.read] using hget
    have hrest : m.read (off + 1) (name.length + 1) = name ++ [0] := by
      have htail := congrArg (List.drop 1) h
      simpa [Memory.read] using htail
    obtain ⟨hstring, hreads⟩ := ih hrest hname (Nat.lt_of_succ_lt_succ hfuel)
    have hne : m off ≠ 0 := by rw [hfirst]; exact fun hc' => hc hc'.symm
    refine ⟨?_, ?_⟩
    · rw [cString, if_neg hne, hstring, hfirst]
      rfl
    · rw [strcpyReads, if_neg hne, hreads]
      rfl

/-- `strcpy` comes to a NUL or goes on. -/
theorem strcpyReads_cases (m : Memory) (fuel off : ℕ) :
    (∃ name : Bytes, 0 ∉ name ∧ name.length < fuel ∧
      m.read off (name.length + 1) = name ++ [0]) ∨
    strcpyReads m fuel off = List.range' off fuel := by
  induction fuel generalizing off with
  | zero => exact .inr rfl
  | succ fuel ih =>
    by_cases hzero : m off = 0
    · exact .inl ⟨[], by simp, Nat.succ_pos _, by simp [Memory.read, hzero]⟩
    · obtain ⟨name, hname, hlen, hread⟩ | hgoes := ih (off + 1)
      · refine .inl ⟨m off :: name, ?_, Nat.succ_lt_succ hlen, ?_⟩
        · rw [List.mem_cons, not_or]
          exact ⟨fun hc => hzero hc.symm, hname⟩
        · rw [List.length_cons, Nat.add_comm (name.length + 1) 1, Memory.read_add, hread]
          rfl
      · exact .inr (by rw [strcpyReads, if_neg hzero, hgoes, List.range'_succ])

/-- The name is made of the bytes that `strcpy` reads. -/
theorem cString_congr (h : ∀ i ∈ strcpyReads m fuel off, m i = m' i) :
    cString m fuel off = cString m' fuel off := by
  induction fuel generalizing off with
  | zero => rfl
  | succ fuel ih =>
    rw [strcpyReads, List.forall_mem_cons] at h
    rw [cString, cString, ← h.1]
    split_ifs with hzero
    · rfl
    · rw [if_neg hzero] at h
      rw [ih h.2]

end Strcpy

section Bytes

variable {p q : Pbuf} {src : Endpoint} {env : RequestEnv} {w : TftpWorld} {name : Bytes}

/-- Without a file name to look for, nothing is started and no further byte is read. -/
theorem processTftpRequest_of_not_parses (h : ¬ Parses p env) :
    processTftpRequest p src env w =
      if env.udpNew = false then some (none, w)
      else if env.udpBind ≠ .ok then some (none, w.act [.newPcb])
      else some (none,
        (tftpSendErrorMessage src .accessViolation (w.act [.newPcb])).act [.remove]) := by
  rw [processTftpRequest]
  by_cases hnew : env.udpNew = true
  · by_cases hbind : env.udpBind = .ok
    · have hop : ¬ (tftpDecodeOp p.payload = tftpRrq ∨ tftpDecodeOp p.payload = tftpWrq) :=
        fun hop => h ⟨hnew, hbind, hop⟩
      obtain ⟨hrrq, hwrq⟩ := not_or.mp hop
      simp [hnew, hbind, hrrq, hwrq]
    · simp [hnew, hbind]
  · simp [hnew]

/-- A request is answered by the bytes that are read, whatever the others are. -/
theorem processTftpRequest_congr
    (h : ∀ i ∈ requestReads p env, p.payload i = q.payload i) :
    processTftpRequest p src env w = processTftpRequest q src env w := by
  rw [requestReads, List.forall_mem_cons] at h
  have hop : tftpDecodeOp p.payload = tftpDecodeOp q.payload := h.1
  by_cases hparses : Parses p env
  · have hname : copyFileName p = copyFileName q :=
      congrArg (Option.filter _) (cString_congr fun i hi => h.2 i (by
        rw [copied, if_pos hparses]
        exact hi))
    rw [processTftpRequest, processTftpRequest, hop, hname]
  · have hparses' : ¬ Parses q env := by rwa [Parses, ← hop]
    rw [processTftpRequest_of_not_parses hparses, processTftpRequest_of_not_parses hparses']

theorem copyFileName_of_cString (h : cString p.payload (2 ^ 32) 2 = some name)
    (hlen : name.length < fileNameSize) : copyFileName p = some name := by
  rw [copyFileName, tftpExtractFilename, h]
  exact Option.filter_eq_some_iff.mpr ⟨rfl, decide_eq_true hlen⟩

theorem not_starts (hparses : ¬ Parses p env) (t : TransferKind × TftpConnectionArgs)
    (w' : TftpWorld) : recvCallbackTftp p src env w ≠ some (some t, w') := by
  rw [recvCallbackTftp, processTftpRequest_of_not_parses hparses]
  split_ifs <;> exact fun h => absurd (Prod.mk.inj (Option.some.inj h)).1 nofun

theorem tftpProcessRead_isSome {malloc : Option TftpConnectionArgs} {limit : ℕ} :
    (tftpProcessRead src name malloc limit w).1.isSome = true ↔
      malloc.isSome = true ∧ (fileFopenRead w.fileSD w.card name).1 = 0 := by
  rw [tftpProcessRead]
  by_cases hopen : (fileFopenRead w.fileSD w.card name).1 = 0
  · cases malloc <;> simp [hopen]
  · simp [hopen]

theorem tftpProcessWrite_isSome {malloc : Option TftpConnectionArgs} {create : CreateResult} :
    (tftpProcessWrite src name malloc create w).1.isSome = true ↔
      malloc.isSome = true ∧ (fileFopenWrite w.fileCR w.card name create).1 = 0 := by
  rw [tftpProcessWrite]
  by_cases hopen : (fileFopenWrite w.fileCR w.card name create).1 = 0
  · cases malloc <;> simp [hopen]
  · simp [hopen]

theorem exists_started {o : Option (TransferKind × TftpConnectionArgs)} {w₁ : TftpWorld}
    (h : recvCallbackTftp p src env w = some (o, w₁)) :
    (∃ t w', recvCallbackTftp p src env w = some (some t, w')) ↔ o.isSome = true := by
  rw [h, Option.isSome_iff_exists]
  constructor
  · rintro ⟨t, w', heq⟩
    exact ⟨t, (Prod.mk.inj (Option.some.inj heq)).1⟩
  · rintro ⟨t, rfl⟩
    exact ⟨t, w₁, rfl⟩

/-- A transfer is started when everything that its request needs is there. -/
theorem recvCallbackTftp_starts (hparses : Parses p env) (hname : copyFileName p = some name) :
    (∃ t w', recvCallbackTftp p src env w = some (some t, w')) ↔ Starts p env w name := by
  obtain ⟨hnew, hbind, hop⟩ := hparses
  by_cases hcard : env.efsInit = 0 ∧ env.lsOpenDir = 0
  · have hcard' : ¬ (env.efsInit ≠ 0 ∨ env.lsOpenDir ≠ 0) := by simpa using hcard
    obtain hrrq | hwrq := hop
    · have hcall : recvCallbackTftp p src env w =
          some ((tftpProcessRead src name env.malloc env.readLimit (w.act [.newPcb])).1.map
              fun args => (.read, args),
            (tftpProcessRead src name env.malloc env.readLimit (w.act [.newPcb])).2.act
              [.pbufFree]) := by
        simp only [recvCallbackTftp, processTftpRequest, hnew, hbind, hrrq, hname, hcard',
          not_true_eq_false, ne_eq, if_false, if_true, Option.map_some]
      rw [exists_started hcall, Option.isSome_map, tftpProcessRead_isSome, Starts, if_pos hrrq]
      exact ⟨fun h => ⟨hcard.1, hcard.2, h⟩, fun h => h.2.2⟩
    · have hne : tftpWrq ≠ tftpRrq := by decide
      have hcall : recvCallbackTftp p src env w =
          some ((tftpProcessWrite src name env.malloc env.create (w.act [.newPcb])).1.map
              fun args => (.write, args),
            (tftpProcessWrite src name env.malloc env.create (w.act [.newPcb])).2.act
              [.pbufFree]) := by
        simp only [recvCallbackTftp, processTftpRequest, hnew, hbind, hwrq, hne, hname, hcard',
          not_true_eq_false, ne_eq, if_false, if_true, Option.map_some]
      rw [exists_started hcall, Option.isSome_map, tftpProcessWrite_isSome, Starts,
        if_neg (by rw [hwrq]; exact hne)]
      exact ⟨fun h => ⟨hcard.1, hcard.2, h⟩, fun h => h.2.2⟩
  · have hcard' : env.efsInit ≠ 0 ∨ env.lsOpenDir ≠ 0 := not_and_or.mp hcard
    have hcall : recvCallbackTftp p src env w = some (none, (w.act [.newPcb]).act [.pbufFree]) := by
      have hne : tftpWrq ≠ tftpRrq := by decide
      obtain hrrq | hwrq := hop
      · simp only [recvCallbackTftp, processTftpRequest, hnew, hbind, hrrq, hname, hcard',
          not_true_eq_false, ne_eq, if_false, if_true, Option.map_some]
      · simp only [recvCallbackTftp, processTftpRequest, hnew, hbind, hwrq, hne, hname, hcard',
          not_true_eq_false, ne_eq, if_false, if_true, Option.map_some]
    rw [exists_started hcall]
    exact iff_of_false Bool.false_ne_true fun h => hcard ⟨h.1, h.2.1⟩

/-- A name inside the first pbuf makes the datagram a request or not. -/
theorem isRequest_iff (hname : 0 ∉ name) (hlen : name.length < fileNameSize)
    (hin : name.length + 2 < p.len) (hread : p.payload.read 2 (name.length + 1) = name ++ [0])
    (hop : tftpDecodeOp p.payload = tftpRrq ∨ tftpDecodeOp p.payload = tftpWrq) :
    IsRequest p.bytes ↔ p.payload 0 = 0 ∧ name ≠ [] := by
  obtain ⟨rest, hbytes⟩ := p.bytes_eq_read (n := 2 + (name.length + 1)) (by omega)
  have hfirst : p.payload.read 0 2 = [p.payload 0, tftpDecodeOp p.payload] := rfl
  rw [Memory.read_add, hfirst, Nat.zero_add, hread] at hbytes
  have hdatagram : p.bytes = p.payload 0 :: tftpDecodeOp p.payload :: (name ++ 0 :: rest) := by
    rw [hbytes]
    simp
  constructor
  · rintro ⟨op, name', rest', -, heq, hne, hzero, -⟩
    rw [hdatagram] at heq
    obtain ⟨h0, heq⟩ := List.cons.inj heq
    refine ⟨h0, ?_⟩
    rintro rfl
    obtain ⟨c, cs, rfl⟩ := List.exists_cons_of_ne_nil hne
    have hc : (0 : UInt8) = c := (List.cons.inj (List.cons.inj heq).2).1
    exact hzero (hc ▸ List.mem_cons_self)
  · rintro ⟨h0, hne⟩
    exact ⟨_, name, rest, hop, by rw [hdatagram, h0], hne, hname, hlen⟩

/-- A datagram on port 69 is read and copied inside its bounds, and starts a transfer
for a request only, if and only if it fits. -/
theorem request_safe_iff (p : Pbuf) (src : Endpoint) (env : RequestEnv) (w : TftpWorld) :
    RequestSafe p src env w ↔ RequestFits p env w := by
  by_cases hparses : Parses p env
  · have hcopied : copied p env = strcpyReads p.payload (2 ^ 32) 2 := if_pos hparses
    have hlen32 : p.len < 2 ^ 32 := p.len_lt.trans (by decide)
    constructor
    · intro h
      refine ⟨h.reads 1 List.mem_cons_self, fun _ => ?_⟩
      obtain ⟨name, hname, hfuel, hread⟩ | hgoes := strcpyReads_cases p.payload (2 ^ 32) 2
      · obtain ⟨hstring, hreads⟩ := cString_of_read hread hname hfuel
        have hlast : 2 + name.length ∈ copied p env := by
          rw [hcopied, hreads, List.mem_range'_1]
          omega
        have hin := h.reads _ (List.mem_cons_of_mem 1 hlast)
        have hfits := h.writes _ (List.mem_map.mpr ⟨_, hlast, Nat.add_sub_cancel_left 2 _⟩)
        refine ⟨name, hname, hfits, by omega, hread, fun hstarts => ?_⟩
        have hcopy := copyFileName_of_cString hstring hfits
        obtain ⟨t, w', hcall⟩ := (recvCallbackTftp_starts hparses hcopy).mpr hstarts
        exact (isRequest_iff hname hfits (by omega) hread hparses.2.2).mp (h.starts t w' hcall)
      · -- without a NUL it leaves the datagram
        have hmem : 2 ^ 32 ∈ copied p env := by
          rw [hcopied, hgoes, List.mem_range'_1]
          omega
        exact absurd (h.reads _ (List.mem_cons_of_mem 1 hmem)) hlen32.not_gt
    · rintro ⟨hop, hfits⟩
      obtain ⟨name, hname, hlen, hin, hread, hstarts⟩ := hfits hparses
      have hfuel : name.length < 2 ^ 32 := by omega
      obtain ⟨hstring, hreads⟩ := cString_of_read hread hname hfuel
      have hplace : ∀ i ∈ copied p env, i ≤ 2 + name.length := by
        intro i hi
        rw [hcopied, hreads, List.mem_range'_1] at hi
        omega
      refine ⟨List.forall_mem_cons.mpr ⟨hop, fun i hi => ?_⟩, ?_, fun t w' hcall => ?_⟩
      · have hle := hplace i hi
        omega
      · intro i hi
        obtain ⟨j, hj, rfl⟩ := List.mem_map.mp hi
        have hle := hplace j hj
        omega
      · have hcopy := copyFileName_of_cString hstring hlen
        have hstart := (recvCallbackTftp_starts hparses hcopy).mp ⟨t, w', hcall⟩
        exact (isRequest_iff hname hlen hin hread hparses.2.2).mpr (hstarts hstart)
  · have hcopied : copied p env = [] := if_neg hparses
    constructor
    · intro h
      exact ⟨h.reads 1 List.mem_cons_self, fun hc => absurd hc hparses⟩
    · intro h
      refine ⟨?_, ?_, fun t w' hc => absurd hc (not_starts hparses t w')⟩
      · rw [requestReads, hcopied]
        exact List.forall_mem_singleton.mpr h.1
      · rw [requestWrites, hcopied]
        exact fun i hi => absurd hi List.not_mem_nil

end Bytes

/-- A name of 40 bytes is copied over what follows `FileName` on the stack. -/
theorem long_name_not_safe :
    ¬ RequestSafe (.single ([0, 1] ++ List.replicate 40 97 ++ [0]) (by decide)) client
      ⟨true, .ok, 0, 0, .free, none, tftpDataLenMax⟩ (idleWorld (oneFile [66] [])) :=
  fun h => absurd (h.writes 40 (by decide +kernel)) (by decide)

end EthMange.Tftp
