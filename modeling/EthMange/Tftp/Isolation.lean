import EthMange.Lib.AtMostOne
import EthMange.Tftp.Sessions

/-!
# Transfers side by side

All reads share `file_SD` and all writes share `file_CR`. As long as no request
comes in while a transfer of its kind is open, each transfer has its file to
itself.
-/

namespace EthMange.Tftp

/-! ### What a call of `wrq_recv_callback` does to the globals -/

/-- The globals with `bs` more in the file for writing. -/
structure Extends (w w' : TftpWorld) (bs : Bytes) : Prop where
  fileSD : w'.fileSD = w.fileSD
  fileCR : w'.fileCR = w.fileCR.append bs
  card : SameBut w.fileCR.location w.card w'.card

/-- The globals after a call that has taken `bs` for the file: it is still open,
or it is on the card. -/
structure WriteEffect (w w' : TftpWorld) (bs : Bytes) : Prop where
  fileSD : w'.fileSD = w.fileSD
  card : SameBut w.fileCR.location w.card w'.card
  still_open : .remove ∉ w'.log → w'.fileCR = w.fileCR.append bs
  ended : .remove ∈ w'.log → w'.fileCR = .cleared ∧
    w'.card.files w.fileCR.location = some (w.fileCR.content ++ bs)

section Wrq

variable {args : TftpConnectionArgs} {d : Datagram} {w w₁ : TftpWorld} {bs : Bytes}

theorem finishWrite_effect (h : Extends w w₁ bs) (hwrite : w.fileCR.isWrite = true)
    (hlog : .remove ∉ w₁.log) : WriteEffect w (finishWrite args d w₁) bs := by
  have hloc : w₁.fileCR.location = w.fileCR.location := by
    rw [h.fileCR]
    rfl
  have hwrite₁ : w₁.fileCR.isWrite = true := by
    rw [h.fileCR]
    exact hwrite
  rw [finishWrite]
  split
  · refine ⟨by simp [h.fileSD], ?_, by simp [cleanupLog], fun _ => ⟨by simp, ?_⟩⟩
    · have hclose := fileFclose_card w₁.fileCR w₁.card
      rw [hloc] at hclose
      simpa using h.card.trans hclose
    · have hcontent : w₁.fileCR.content = w.fileCR.content ++ bs := by
        rw [h.fileCR]
        rfl
      simp only [TftpWorld.act_card, tftpCleanupWr_card, fileFclose, hwrite₁, if_true, ← hloc,
        ← hcontent, Card.setFile_files_self]
  · exact ⟨h.fileSD, h.card, fun _ => h.fileCR, fun hmem => absurd hmem (by simpa using hlog)⟩

theorem acceptedData_of_data (hlen : d.p.len = d.p.totLen) (hnext : isNextBlock args d.p)
    (hdata : tftpDataPktHdrLen < d.p.len) : acceptedData args d.p = dataOf d.p :=
  if_pos ⟨hlen, hdata, hnext⟩

/-- The data of the next block is appended if the card stores it. -/
theorem wrqRecvCallback_effect (hopen : w.fileCR.isOpen = true) (hwrite : w.fileCR.isWrite = true)
    (hlog : w.log = [])
    (hstore : acceptedData args d.p ≠ [] →
      d.io.write.count (d.p.len - tftpDataPktHdrLen) = d.p.len - tftpDataPktHdrLen) :
    WriteEffect w (wrqRecvCallback args d w).2 (acceptedData args d.p) := by
  have hsame : ∀ as : List TftpAction, Extends w (w.act as) [] := fun as =>
    ⟨rfl, (EmbeddedFile.append_nil _).symm, SameBut.refl _ _⟩
  by_cases hlen : d.p.len = d.p.totLen
  · by_cases hnext : isNextBlock args d.p
    · by_cases hdata : tftpDataPktHdrLen < d.p.len
      · have haccepted := acceptedData_of_data hlen hnext hdata
        have hcount := hstore (by
          rw [haccepted]
          apply List.ne_nil_of_length_pos
          rw [dataOf_length]
          omega)
        obtain ⟨hn, hfile⟩ := writeFileCR_of_open (w := w.act [.readArgs]) hopen hwrite
          (dataOf d.p) d.io.write
        rw [dataOf_length, hcount] at hn
        rw [dataOf_length, hcount, ← dataOf_length, List.take_length] at hfile
        rw [wrqRecvCallback_of_data hlen hnext hdata (hn ▸ Nat.sub_pos_of_lt hdata), haccepted]
        refine finishWrite_effect ⟨rfl, hfile, ?_⟩ hwrite (by simp [writeFileCR, hlog])
        exact fileWrite_card w.fileCR w.card (dataOf d.p) d.io.write
      · have haccepted : acceptedData args d.p = [] := if_neg fun h => hdata h.2.1
        rw [wrqRecvCallback_of_empty hlen hnext hdata, haccepted]
        exact finishWrite_effect (hsame _) hwrite (by simp [hlog])
    · have haccepted : acceptedData args d.p = [] := if_neg fun h => hnext h.2.2
      rw [wrqRecvCallback_of_other hlen hnext, haccepted]
      exact finishWrite_effect (hsame _) hwrite (by simp [hlog])
  · have haccepted : acceptedData args d.p = [] := if_neg fun h => hlen h.1
    rw [wrqRecvCallback_of_chained hlen, haccepted]
    exact ⟨rfl, SameBut.refl _ _, fun _ => (EmbeddedFile.append_nil _).symm,
      fun hmem => absurd hmem (by simp [hlog])⟩

end Wrq

/-! ### Each transfer and its file -/

def Transfer.OpenFor (k : TransferKind) (t : Transfer) : Prop := t.isOpen = true ∧ t.kind = k

/-- A read has passed on the first bytes of the file that was asked for. The
file of a write holds what the write has passed on, first behind `file_CR` and
in the end on the card. -/
def Transfer.Served (w : TftpWorld) (t : Transfer) : Prop :=
  match t.kind with
  | .read => t.passed <+: t.content
  | .write =>
    if t.isOpen then
      w.fileCR.isOpen = true ∧ w.fileCR.location = w.card.locate t.fileName ∧
        w.fileCR.content = t.passed
    else w.card.lookup t.fileName = some t.passed

/-- No request for a transfer comes in while a transfer of its kind is open, and
the card stores what a write takes from a datagram. -/
def Exclusive (s : Server) : ServerEvent → Prop
  | .request p _ env => env.udpNew = true → env.udpBind = .ok → ∀ t ∈ s.transfers,
      t.isOpen = true → (t.kind = .read → tftpDecodeOp p.payload ≠ tftpRrq) ∧
        (t.kind = .write → tftpDecodeOp p.payload ≠ tftpWrq)
  | .datagram i d => ∀ t ∈ s.transfers[i]?, t.kind = .write → acceptedData t.args d.p ≠ [] →
      d.io.write.count (d.p.len - tftpDataPktHdrLen) = d.p.len - tftpDataPktHdrLen

instance (s : Server) : (e : ServerEvent) → Decidable (Exclusive s e)
  | .request _ _ _ => inferInstanceAs (Decidable (_ → _ → ∀ _ ∈ _, _ → _ ∧ _))
  | .datagram i _ => inferInstanceAs (Decidable (∀ _ ∈ s.transfers[i]?, _ → _ → _))

/-- A step neither closes nor moves the file of an open transfer but the one
that it is for. -/
def OthersUntouched (s : Server) (e : ServerEvent) : Prop :=
  ∀ s', serverStep s e = some s' → ∀ i t, s.transfers[i]? = some t → t.isOpen = true →
    (∀ d, e ≠ .datagram i d) → t.kind.file s'.world = t.kind.file s.world

/-! ### The invariant -/

def Transfer.ClosedWrite (t : Transfer) : Prop := t.isOpen = false ∧ t.kind = .write

/-- At most one read is open; it has sent what is in front of the position of
`file_SD`. -/
structure ReadSide (w : TftpWorld) (ts : List Transfer) : Prop where
  unique : AtMostOne (Transfer.OpenFor .read) ts
  read_only : w.fileSD.isWrite = false
  content : ∀ t ∈ ts, t.OpenFor .read → w.fileSD.content = t.content
  passed : ∀ t ∈ ts, t.OpenFor .read → t.passed = t.content.take w.fileSD.filePtr
  served : ∀ t ∈ ts, t.kind = .read → t.passed <+: t.content

/-- At most one write is open; `file_CR` is its file and holds what it has
taken. Those that have ended have their files on the card, which are others. -/
structure WriteSide (w : TftpWorld) (ts : List Transfer) : Prop where
  unique : AtMostOne (Transfer.OpenFor .write) ts
  idle : (∀ t ∈ ts, ¬ t.OpenFor .write) → w.fileCR.isWrite = false
  file_open : ∀ t ∈ ts, t.OpenFor .write → w.fileCR.isOpen = true ∧ w.fileCR.isWrite = true
  location : ∀ t ∈ ts, t.OpenFor .write → w.fileCR.location = w.card.locate t.fileName
  content : ∀ t ∈ ts, t.OpenFor .write → w.fileCR.content = t.passed
  entry : ∀ t ∈ ts, t.OpenFor .write → w.card.lookup t.fileName ≠ none
  closed : ∀ t ∈ ts, t.ClosedWrite → w.card.lookup t.fileName = some t.passed
  apart : ∀ t ∈ ts, ∀ u ∈ ts, t.ClosedWrite → u.OpenFor .write →
    w.card.locate t.fileName ≠ w.card.locate u.fileName

structure ServerInv (s : Server) : Prop where
  reads : ReadSide s.world s.transfers
  writes : WriteSide s.world s.transfers

theorem ServerInv.served {s : Server} (h : ServerInv s) {t : Transfer} (ht : t ∈ s.transfers) :
    t.Served s.world := by
  rw [Transfer.Served]
  split
  · exact h.reads.served t ht ‹_›
  · split
    · exact ⟨(h.writes.file_open t ht ⟨‹_›, ‹_›⟩).1, h.writes.location t ht ⟨‹_›, ‹_›⟩,
        h.writes.content t ht ⟨‹_›, ‹_›⟩⟩
    · exact h.writes.closed t ht ⟨by simpa using ‹¬ t.isOpen = true›, ‹_›⟩

section Frame

variable {w w' : TftpWorld} {ts ts' : List Transfer}

/-- What the writes do does not matter to the reads. -/
theorem ReadSide.frame (h : ReadSide w ts) (hfile : w'.fileSD = w.fileSD)
    (hunique : AtMostOne (Transfer.OpenFor .read) ts')
    (hsub : ∀ t ∈ ts', t.kind = .read → t ∈ ts) : ReadSide w' ts' where
  unique := hunique
  read_only := hfile ▸ h.read_only
  content := fun t ht hopen => hfile ▸ h.content t (hsub t ht hopen.2) hopen
  passed := fun t ht hopen => hfile ▸ h.passed t (hsub t ht hopen.2) hopen
  served := fun t ht hread => h.served t (hsub t ht hread) hread

/-- What the reads do does not matter to the writes. -/
theorem WriteSide.frame (h : WriteSide w ts) (hfile : w'.fileCR = w.fileCR)
    (hcard : w'.card = w.card) (hunique : AtMostOne (Transfer.OpenFor .write) ts')
    (hsub : ∀ t ∈ ts', t.kind = .write → t ∈ ts) (hsup : ∀ t ∈ ts, t.kind = .write → t ∈ ts') :
    WriteSide w' ts' where
  unique := hunique
  idle := fun hidle => hfile ▸ h.idle fun t ht hopen => hidle t (hsup t ht hopen.2) hopen
  file_open := fun t ht hopen => hfile ▸ h.file_open t (hsub t ht hopen.2) hopen
  location := fun t ht hopen => hfile ▸ hcard ▸ h.location t (hsub t ht hopen.2) hopen
  content := fun t ht hopen => hfile ▸ h.content t (hsub t ht hopen.2) hopen
  entry := fun t ht hopen => hcard ▸ h.entry t (hsub t ht hopen.2) hopen
  closed := fun t ht hclosed => hcard ▸ h.closed t (hsub t ht hclosed.2) hclosed
  apart := fun t ht u hu hclosed hopen =>
    hcard ▸ h.apart t (hsub t ht hclosed.2) u (hsub u hu hopen.2) hclosed hopen

theorem ReadSide.concat_write (h : ReadSide w ts) {t : Transfer} (hfile : w'.fileSD = w.fileSD)
    (ht : t.kind = .write) : ReadSide w' (ts ++ [t]) := by
  have hnot : ¬ t.kind = .read := by simp [ht]
  exact h.frame hfile (h.unique.concat fun hr => absurd hr.2 hnot) fun u hu hr =>
    mem_of_mem_concat (p := fun t => t.kind = .read) hu hr hnot

theorem WriteSide.concat_read (h : WriteSide w ts) {t : Transfer} (hfile : w'.fileCR = w.fileCR)
    (hcard : w'.card = w.card) (ht : t.kind = .read) : WriteSide w' (ts ++ [t]) := by
  have hnot : ¬ t.kind = .write := by simp [ht]
  refine h.frame hfile hcard (h.unique.concat fun hw => absurd hw.2 hnot) (fun u hu hw => ?_)
    fun u hu _ => List.mem_append_left _ hu
  exact mem_of_mem_concat (p := fun t => t.kind = .write) hu hw hnot

/-- A new read, when no other is open. -/
theorem ReadSide.concat (h : ReadSide w ts) (hnone : ∀ t ∈ ts, ¬ t.OpenFor .read) {t : Transfer}
    (hro : w'.fileSD.isWrite = false) (hcontent : w'.fileSD.content = t.content)
    (hpassed : t.passed = t.content.take w'.fileSD.filePtr) : ReadSide w' (ts ++ [t]) := by
  have hself : ∀ u ∈ ts ++ [t], u.OpenFor .read → u = t := fun _ => eq_of_mem_concat hnone
  refine ⟨h.unique.concat fun _ => hnone, hro, fun u hu hopen => ?_, fun u hu hopen => ?_,
    fun u hu hread => ?_⟩
  · rw [hself u hu hopen, hcontent]
  · rw [hself u hu hopen, hpassed]
  · obtain hold | hnew := List.mem_append.mp hu
    · exact h.served u hold hread
    · rw [List.mem_singleton.mp hnew, hpassed]
      exact List.take_prefix _ _

/-- The writes that have ended keep their files if an entry without a file is
given one. -/
theorem WriteSide.closed_of_sameBut (h : WriteSide w ts) {location : Bytes}
    (hfresh : w.card.files location = none) {card : Card} (hcard : SameBut location w.card card)
    {t : Transfer} (ht : t ∈ ts) (hclosed : t.ClosedWrite) :
    card.lookup t.fileName = some t.passed ∧ card.locate t.fileName ≠ location := by
  have hlookup := h.closed t ht hclosed
  have hne : w.card.locate t.fileName ≠ location := by
    intro heq
    rw [Card.lookup, heq, hfresh] at hlookup
    simp at hlookup
  exact ⟨(hcard.lookup_of_ne hne).trans hlookup, by rwa [hcard.locate]⟩

/-- A new write, when no other is open. -/
theorem WriteSide.concat (h : WriteSide w ts) (hnone : ∀ t ∈ ts, ¬ t.OpenFor .write)
    {t : Transfer} (ht : t.OpenFor .write) (hfresh : w.card.lookup t.fileName = none)
    (hfile : w'.fileCR = .openWrite (w.card.locate t.fileName))
    (hcard : w'.card = w.card.setFile (w.card.locate t.fileName) []) (hpassed : t.passed = []) :
    WriteSide w' (ts ++ [t]) := by
  have hself : ∀ u ∈ ts ++ [t], u.OpenFor .write → u = t := fun _ => eq_of_mem_concat hnone
  have hlocate : w'.card.locate = w.card.locate := by
    rw [hcard]
    rfl
  have hclosed : ∀ u ∈ ts ++ [t], u.ClosedWrite → w'.card.lookup u.fileName = some u.passed ∧
      w'.card.locate u.fileName ≠ w.card.locate t.fileName := by
    intro u hu hclosed
    obtain hold | hnew := List.mem_append.mp hu
    · exact h.closed_of_sameBut hfresh (hcard ▸ SameBut.setFile _ _ _) hold hclosed
    · rw [List.mem_singleton.mp hnew] at hclosed
      exact absurd (hclosed.1.symm.trans ht.1) (by decide)
  refine ⟨h.unique.concat fun _ => hnone, fun hidle => ?_, fun u hu hopen => ?_,
    fun u hu hopen => ?_, fun u hu hopen => ?_, fun u hu hopen => ?_,
    fun u hu hc => (hclosed u hu hc).1, fun u hu v hv hc hopen => ?_⟩
  · exact absurd ht (hidle t (by simp))
  · rw [hfile]
    exact ⟨rfl, rfl⟩
  · rw [hself u hu hopen, hfile, hlocate]
    rfl
  · rw [hself u hu hopen, hfile, hpassed]
    rfl
  · rw [hself u hu hopen, Card.lookup, hlocate, hcard, Card.setFile_files_self]
    simp
  · rw [hself v hv hopen, hlocate, ← hlocate]
    exact hlocate ▸ (hclosed u hu hc).2

/-- A write request that fails, when no write is open. -/
theorem WriteSide.clear (h : WriteSide w ts) (hnone : ∀ t ∈ ts, ¬ t.OpenFor .write)
    (hfile : w'.fileCR = .cleared)
    (hclosed : ∀ t ∈ ts, t.ClosedWrite → w'.card.lookup t.fileName = some t.passed) :
    WriteSide w' ts where
  unique := h.unique
  idle := fun _ => by
    rw [hfile]
    rfl
  file_open := fun t ht hopen => absurd hopen (hnone t ht)
  location := fun t ht hopen => absurd hopen (hnone t ht)
  content := fun t ht hopen => absurd hopen (hnone t ht)
  entry := fun t ht hopen => absurd hopen (hnone t ht)
  closed := hclosed
  apart := fun _ _ u hu _ hopen => absurd hopen (hnone u hu)

/-- A call for the open write leaves the files of those that have ended alone. -/
theorem WriteSide.closed_of_effect (h : WriteSide w ts) {t u : Transfer} {bs : Bytes} (ht : t ∈ ts)
    (hopen : t.OpenFor .write) (heffect : WriteEffect w w' bs) (hu : u ∈ ts)
    (hclosed : u.ClosedWrite) :
    w'.card.lookup u.fileName = some u.passed ∧
      w'.card.locate u.fileName ≠ w'.card.locate t.fileName := by
  have hapart := h.apart u hu t ht hclosed hopen
  have hsame : w'.card.lookup u.fileName = w.card.lookup u.fileName :=
    heffect.card.lookup_of_ne (by rwa [h.location t ht hopen])
  exact ⟨hsame.trans (h.closed u hu hclosed), by rwa [heffect.card.locate]⟩

/-- The open write after one more call: it goes on, or it ends with its file on
the card. -/
theorem WriteSide.set (h : WriteSide w ts) {i : ℕ} {t t' : Transfer} {bs : Bytes}
    (ht : ts[i]? = some t) (hopen : t.OpenFor .write) (heffect : WriteEffect w w' bs)
    (hkind : t'.kind = .write) (hisOpen : t'.isOpen = decide (.remove ∉ w'.log))
    (hname : t'.fileName = t.fileName) (hpassed : t'.passed = t.passed ++ bs) :
    WriteSide w' (ts.set i t') := by
  have hmem := List.mem_of_getElem? ht
  have hloc := h.location t hmem hopen
  have hlocate : w'.card.locate = w.card.locate := heffect.card.locate
  -- an open write of the new list is the one that was served
  have hself : ∀ u ∈ ts.set i t', u.OpenFor .write → u = t' ∧ w'.fileCR = w.fileCR.append bs := by
    intro u hu huopen
    have heq := h.unique.eq_of_mem_set ht hopen hu huopen
    rw [heq, Transfer.OpenFor, hisOpen, decide_eq_true_eq] at huopen
    exact ⟨heq, heffect.still_open huopen.1⟩
  have hended : t'.isOpen = false → .remove ∈ w'.log := by
    intro hfalse
    simpa [hisOpen] using hfalse
  refine ⟨h.unique.set ht fun _ => hopen, fun hidle => ?_, ?_, ?_, ?_, ?_, ?_, ?_⟩
  · have hclosed : t'.isOpen = false := by
      rw [Bool.eq_false_iff]
      exact fun hopen' => hidle t' (List.mem_set (List.getElem?_eq_some_iff.mp ht).1 _)
        ⟨hopen', hkind⟩
    rw [(heffect.ended (hended hclosed)).1]
    rfl
  · intro u hu huopen
    rw [(hself u hu huopen).2]
    exact h.file_open t hmem hopen
  · intro u hu huopen
    obtain ⟨rfl, hCR⟩ := hself u hu huopen
    rw [hCR, hlocate, hname]
    exact hloc
  · intro u hu huopen
    obtain ⟨rfl, hCR⟩ := hself u hu huopen
    rw [hCR, hpassed, ← h.content t hmem hopen]
    rfl
  · intro u hu huopen
    obtain ⟨rfl, -⟩ := hself u hu huopen
    have hentry := heffect.card.entry
    rw [hloc] at hentry
    rw [Card.lookup, hlocate, hname]
    exact hentry (h.entry t hmem hopen)
  · intro u hu hclosed
    obtain hold | rfl := List.mem_or_eq_of_mem_set hu
    · exact (h.closed_of_effect hmem hopen heffect hold hclosed).1
    · have hcard := (heffect.ended (hended hclosed.1)).2
      rw [hloc, h.content t hmem hopen, ← hpassed] at hcard
      rw [Card.lookup, hlocate, hname]
      exact hcard
  · intro u hu v hv hclosed hvopen
    obtain ⟨rfl, -⟩ := hself v hv hvopen
    obtain hold | rfl := List.mem_or_eq_of_mem_set hu
    · rw [hname]
      exact (h.closed_of_effect hmem hopen heffect hold hclosed).2
    · exact absurd (hclosed.1.symm.trans hvopen.1) (by decide)

end Frame

/-! ### A datagram for a transfer -/

section Serve

variable {s : Server} {i : ℕ} {t : Transfer} {d : Datagram}

theorem serve_read (hkind : t.kind = .read) : s.serve i t d =
    { world := (rrqRecvCallback t.args d s.world.clearLog).2
      transfers := s.transfers.set i { t with
        isOpen := decide (.remove ∉ rrqLog t.args d s.world.clearLog)
        args := (rrqRecvCallback t.args d s.world.clearLog).1
        passed := t.passed ++ nextBytes t.args d s.world.clearLog } } := by
  simp only [Server.serve, hkind, recvCallback, rrqRecvCallback_log, TftpWorld.clearLog_log,
    List.nil_append, Transfer.passes, sentData_rrqLog]

theorem serve_write (hkind : t.kind = .write) : s.serve i t d =
    { world := (wrqRecvCallback t.args d s.world.clearLog).2
      transfers := s.transfers.set i { t with
        isOpen := decide (.remove ∉ (wrqRecvCallback t.args d s.world.clearLog).2.log)
        args := (wrqRecvCallback t.args d s.world.clearLog).1
        passed := t.passed ++ acceptedData t.args d.p } } := by
  simp only [Server.serve, hkind, recvCallback, Transfer.passes]

theorem readSource_isWrite {args : TftpConnectionArgs} {w : TftpWorld}
    (h : w.fileSD.isWrite = false) : (readSource args w).isWrite = false := by
  rw [readSource]
  split
  · rfl
  · exact h

/-- What a read has sent after one more call is still a first part of the file. -/
theorem passed_append_nextBytes (w : TftpWorld) (args : TftpConnectionArgs)
    (hcontent : w.fileSD.content = t.content)
    (hpassed : t.passed = t.content.take w.fileSD.filePtr) :
    t.passed ++ nextBytes args d w <+: t.content ∧
      (¬ args.dataLen < tftpDataLenMax → t.passed ++ nextBytes args d w =
        t.content.take (rrqRecvCallback args d w).2.fileSD.filePtr) := by
  by_cases hshort : args.dataLen < tftpDataLenMax
  · have hnext : nextBytes args d w = [] := by
      rw [nextBytes, readSource, if_pos hshort, fileRead_of_closed rfl]
    refine ⟨?_, fun hfull => absurd hshort hfull⟩
    rw [hnext, List.append_nil, hpassed]
    exact List.take_prefix _ _
  · have hsrc : readSource args w = w.fileSD := if_neg hshort
    obtain ⟨hstart, hptr, -⟩ := fileRead_spec w.fileSD tftpDataLenMax d.io.readLimit
    have hnext : nextBytes args d w = (t.content.drop w.fileSD.filePtr).take
        (nextBytes args d w).length := by
      rw [nextBytes, hsrc, ← hcontent]
      exact List.prefix_iff_eq_take.mp hstart
    have htake : t.passed ++ nextBytes args d w =
        t.content.take (rrqRecvCallback args d w).2.fileSD.filePtr := by
      rw [rrqRecvCallback_fileSD, hsrc, hptr, List.take_add, hpassed, hnext]
      simp only [nextBytes, hsrc]
    exact ⟨htake ▸ List.take_prefix _ _, fun _ => htake⟩

theorem serverInv_serve_read (h : ServerInv s) (ht : s.transfers[i]? = some t)
    (hopen : t.OpenFor .read) : ServerInv (s.serve i t d) := by
  have hmem := List.mem_of_getElem? ht
  obtain ⟨hstart, htake⟩ := passed_append_nextBytes (d := d) s.world.clearLog t.args
    (h.reads.content t hmem hopen) (h.reads.passed t hmem hopen)
  obtain ⟨-, -, hcontent, -, -, hwrite⟩ := fileRead_spec
    (readSource t.args s.world.clearLog) tftpDataLenMax d.io.readLimit
  have hfull : TftpAction.remove ∉ rrqLog t.args d s.world.clearLog →
      ¬ t.args.dataLen < tftpDataLenMax := by
    intro hlog hshort
    simp [rrqLog, hshort, cleanupLog] at hlog
  rw [serve_read hopen.2]
  refine ⟨⟨h.reads.unique.set ht fun _ => hopen, ?_, ?_, ?_, ?_⟩, ?_⟩
  · rw [rrqRecvCallback_fileSD, hwrite]
    exact readSource_isWrite h.reads.read_only
  · intro u hu huopen
    have heq := h.reads.unique.eq_of_mem_set ht hopen hu huopen
    subst heq
    have hnot := hfull (of_decide_eq_true huopen.1)
    rw [rrqRecvCallback_fileSD, hcontent, readSource, if_neg hnot]
    exact h.reads.content t hmem hopen
  · intro u hu huopen
    have heq := h.reads.unique.eq_of_mem_set ht hopen hu huopen
    subst heq
    exact htake (hfull (of_decide_eq_true huopen.1))
  · intro u hu huread
    obtain hold | rfl := List.mem_or_eq_of_mem_set hu
    · exact h.reads.served u hold huread
    · exact hstart
  · have hnot : ¬ t.kind = .write := by simp [hopen.2]
    refine h.writes.frame (rrqRecvCallback_fileCR _ _ _) (rrqRecvCallback_card _ _ _
      h.reads.read_only) (h.writes.unique.set ht fun hw => absurd hw.2 hnot) ?_ ?_
    · exact fun u hu hw => mem_of_mem_set (p := fun u => u.kind = .write) hu hw hnot
    · exact fun u hu hw => mem_set_of_mem (p := fun u => u.kind = .write) ht hnot hu hw

theorem serverInv_serve_write (h : ServerInv s) (ht : s.transfers[i]? = some t)
    (hopen : t.OpenFor .write) (hstore : acceptedData t.args d.p ≠ [] →
      d.io.write.count (d.p.len - tftpDataPktHdrLen) = d.p.len - tftpDataPktHdrLen) :
    ServerInv (s.serve i t d) := by
  have hfile := h.writes.file_open t (List.mem_of_getElem? ht) hopen
  have heffect := wrqRecvCallback_effect (w := s.world.clearLog) hfile.1 hfile.2 rfl hstore
  have hwrites : WriteSide s.world.clearLog s.transfers :=
    h.writes.frame rfl rfl h.writes.unique (fun _ hu _ => hu) fun _ hu _ => hu
  rw [serve_write hopen.2]
  have hnot : ¬ t.kind = .read := by simp [hopen.2]
  refine ⟨?_, hwrites.set ht hopen heffect hopen.2 rfl rfl rfl⟩
  exact h.reads.frame heffect.fileSD (h.reads.unique.set ht fun hr => absurd hr.2 hnot)
    fun u hu hr => mem_of_mem_set (p := fun u => u.kind = .read) hu hr hnot

end Serve

/-! ### A request -/

section Request

variable {s : Server} {p : Pbuf} {src : Endpoint} {env : RequestEnv} {w' : TftpWorld}

/-- A read request that finds no other read open. -/
theorem serverInv_read_request (h : ServerInv s) (hnone : ∀ t ∈ s.transfers, ¬ t.OpenFor .read)
    {fileName : Bytes} (hname : copyFileName p = some fileName)
    {args : Option TftpConnectionArgs} {w₁ : TftpWorld}
    (hproc : tftpProcessRead src fileName env.malloc env.readLimit
      (s.world.clearLog.act [.newPcb]) = (args, w₁)) :
    ServerInv ⟨w₁.act [.pbufFree], s.transfers ++ (args.map fun a => (.read, a)).toList.map
      fun (k, a) => .new s.world.card p (w₁.act [.pbufFree]) k a⟩ := by
  rcases tftpProcessRead_cases src fileName env.malloc env.readLimit
    (s.world.clearLog.act [.newPcb]) with
    ⟨args₀, content, -, hfile, heq⟩ | ⟨f, err, hf, heq⟩
  · rw [heq, tftpSendNextBlock_eq] at hproc
    obtain ⟨rfl, rfl⟩ := Prod.mk.inj hproc
    have hlookup : s.world.card.lookup fileName = some content := hfile
    set f := EmbeddedFile.openRead (s.world.card.locate fileName) content
    obtain ⟨hstart, hptr, hcontent, -, -, hwrite⟩ := fileRead_spec f tftpDataLenMax env.readLimit
    have hbytes := List.prefix_iff_eq_take.mp hstart
    refine ⟨h.reads.concat hnone hwrite ?_ ?_, h.writes.concat_read rfl rfl rfl⟩
    · simp only [Transfer.new, hname, Option.getD_some, hlookup]
      exact hcontent
    · have hsent : ∀ bs : Bytes, sentData ([] ++ [.newPcb] ++ [.writeArgs] ++
          [.writeArgs, .readArgs, .send src (dataPacket 1 bs)] ++ [.pbufFree]) = bs := by
        intro bs
        simp [sentData, dataPacket, be16, tftpDataPktHdrLen]
      simp only [Transfer.new, hname, Option.getD_some, hlookup]
      refine (hsent _).trans (hbytes.trans ?_)
      change List.take _ content = content.take (fileRead f tftpDataLenMax env.readLimit).2.filePtr
      rw [hptr]
      exact congrArg (List.take · content) (Nat.zero_add _).symm
  · rw [heq] at hproc
    obtain ⟨rfl, rfl⟩ := Prod.mk.inj hproc
    have hfw : f.isWrite = false := hf.elim id fun hf => hf ▸ h.reads.read_only
    have hcard : (tftpCleanupRd none (TftpWorld.act { s.world.clearLog.act [.newPcb] with
        fileSD := f } [.send src (errorPacket err)])).card = s.world.card := by
      simp [fileFclose, hfw]
    rw [Option.map_none, Option.toList_none, List.map_nil, List.append_nil]
    refine ⟨⟨h.reads.unique, ?_, ?_, ?_, h.reads.served⟩, h.writes.frame ?_ ?_ h.writes.unique
      (fun _ ht _ => ht) fun _ ht _ => ht⟩
    · simp [EmbeddedFile.cleared]
    · exact fun t ht hopen => absurd hopen (hnone t ht)
    · exact fun t ht hopen => absurd hopen (hnone t ht)
    · simp
    · exact hcard

/-- A write request that finds no other write open. -/
theorem serverInv_write_request (h : ServerInv s)
    (hnone : ∀ t ∈ s.transfers, ¬ t.OpenFor .write)
    {fileName : Bytes} (hname : copyFileName p = some fileName)
    {args : Option TftpConnectionArgs} {w₁ : TftpWorld}
    (hproc : tftpProcessWrite src fileName env.malloc env.create
      (s.world.clearLog.act [.newPcb]) = (args, w₁)) :
    ServerInv ⟨w₁.act [.pbufFree], s.transfers ++ (args.map fun a => (.write, a)).toList.map
      fun (k, a) => .new s.world.card p (w₁.act [.pbufFree]) k a⟩ := by
  rcases tftpProcessWrite_cases src fileName env.malloc env.create
    (s.world.clearLog.act [.newPcb]) with
    ⟨args₀, -, hfile, heq⟩ | ⟨f, card, err, hf, heq⟩
  · rw [heq] at hproc
    obtain ⟨rfl, rfl⟩ := Prod.mk.inj hproc
    refine ⟨h.reads.concat_write rfl rfl, h.writes.concat hnone ⟨rfl, rfl⟩ ?_ ?_ ?_ ?_⟩
    · simp only [Transfer.new, hname, Option.getD_some]
      exact hfile
    · simp only [Transfer.new, hname, Option.getD_some]
      rfl
    · simp only [Transfer.new, hname, Option.getD_some]
      rfl
    · rfl
  · rw [heq] at hproc
    obtain ⟨rfl, rfl⟩ := Prod.mk.inj hproc
    rw [Option.map_none, Option.toList_none, List.map_nil, List.append_nil]
    refine ⟨h.reads.frame rfl h.reads.unique fun _ ht _ => ht,
      h.writes.clear hnone (tftpCleanupWr_fileCR _ _) fun t ht hclosed => ?_⟩
    simp only [TftpWorld.act_card, tftpCleanupWr_card, TftpWorld.act_fileCR]
    obtain ⟨rfl, rfl⟩ | ⟨hfresh, rfl, rfl⟩ := hf
    · simp only [TftpWorld.act_fileCR, TftpWorld.clearLog_fileCR, fileFclose, h.writes.idle hnone]
      exact h.writes.closed t ht hclosed
    · have hcard := (SameBut.setFile (s.world.card.locate fileName) [] s.world.card).trans
        (fileFclose_card (.openWrite (s.world.card.locate fileName)) _)
      exact (h.writes.closed_of_sameBut hfresh hcard ht hclosed).1

end Request

theorem tftpProcessRead_fileCR (dest : Endpoint) (fileName : Bytes)
    (malloc : Option TftpConnectionArgs) (limit : ℕ) (w : TftpWorld) :
    (tftpProcessRead dest fileName malloc limit w).2.fileCR = w.fileCR := by
  rcases tftpProcessRead_cases dest fileName malloc limit w with
    ⟨args, content, -, -, heq⟩ | ⟨f, err, -, heq⟩ <;> rw [heq] <;> simp [tftpSendNextBlock_eq]

theorem tftpProcessWrite_fileSD (dest : Endpoint) (fileName : Bytes)
    (malloc : Option TftpConnectionArgs) (create : CreateResult) (w : TftpWorld) :
    (tftpProcessWrite dest fileName malloc create w).2.fileSD = w.fileSD := by
  rcases tftpProcessWrite_cases dest fileName malloc create w with
    ⟨args, -, -, heq⟩ | ⟨f, card, err, -, heq⟩ <;> rw [heq] <;> simp

/-! ### Runs -/

theorem serverStep_request {s s' : Server} {p : Pbuf} {src : Endpoint} {env : RequestEnv}
    (h : ServerInv s) (hexcl : Exclusive s (.request p src env))
    (hstep : serverStep s (.request p src env) = some s') :
    ServerInv s' ∧ OthersUntouched s (.request p src env) := by
  simp only [serverStep, Option.map_eq_some_iff] at hstep
  obtain ⟨⟨r, w'⟩, hrecv, rfl⟩ := hstep
  have hworld : ∀ s'', serverStep s (.request p src env) = some s'' → s''.world = w' := by
    intro s'' hs''
    simp only [serverStep, hrecv, Option.map_some, Option.some.injEq] at hs''
    rw [← hs'']
  rcases recvCallbackTftp_cases hrecv with ⟨rfl, hcard, hSD, hCR⟩ |
    ⟨hnew, hbind, hop, fileName, hname, args, w₁, hproc, rfl, rfl⟩ |
    ⟨hnew, hbind, hop, fileName, hname, args, w₁, hproc, rfl, rfl⟩
  · refine ⟨?_, fun s'' hs'' i t _ _ _ => ?_⟩
    · simp only [Option.toList_none, List.map_nil, List.append_nil]
      exact ⟨h.reads.frame hSD h.reads.unique fun _ ht _ => ht,
        h.writes.frame hCR hcard h.writes.unique (fun _ ht _ => ht) fun _ ht _ => ht⟩
    · rw [hworld s'' hs'']
      cases t.kind
      · exact hSD
      · exact hCR
  · have hnone : ∀ t ∈ s.transfers, ¬ t.OpenFor .read :=
      fun t ht hopen => (hexcl hnew hbind t ht hopen.1).1 hopen.2 hop
    refine ⟨serverInv_read_request h hnone hname hproc, fun s'' hs'' i t ht hopen _ => ?_⟩
    rw [hworld s'' hs'']
    cases hkind : t.kind with
    | read => exact absurd ⟨hopen, hkind⟩ (hnone t (List.mem_of_getElem? ht))
    | write =>
      have hCR := tftpProcessRead_fileCR src fileName env.malloc env.readLimit
        (s.world.clearLog.act [.newPcb])
      rw [hproc] at hCR
      exact hCR
  · have hnone : ∀ t ∈ s.transfers, ¬ t.OpenFor .write :=
      fun t ht hopen => (hexcl hnew hbind t ht hopen.1).2 hopen.2 hop
    refine ⟨serverInv_write_request h hnone hname hproc, fun s'' hs'' i t ht hopen _ => ?_⟩
    rw [hworld s'' hs'']
    cases hkind : t.kind with
    | read =>
      have hSD := tftpProcessWrite_fileSD src fileName env.malloc env.create
        (s.world.clearLog.act [.newPcb])
      rw [hproc] at hSD
      exact hSD
    | write => exact absurd ⟨hopen, hkind⟩ (hnone t (List.mem_of_getElem? ht))

theorem serverStep_datagram {s s' : Server} {i : ℕ} {d : Datagram} (h : ServerInv s)
    (hexcl : Exclusive s (.datagram i d)) (hstep : serverStep s (.datagram i d) = some s') :
    ServerInv s' ∧ OthersUntouched s (.datagram i d) := by
  cases ht : s.transfers[i]? with
  | none => simp [serverStep, ht] at hstep
  | some t =>
    simp only [serverStep, ht, Option.ite_none_right_eq_some, Option.some.injEq] at hstep
    obtain ⟨hopen, rfl⟩ := hstep
    have hworld : ∀ s'', serverStep s (.datagram i d) = some s'' →
        s''.world = (s.serve i t d).world := by
      intro s'' hs''
      simp only [serverStep, ht, hopen, if_true, Option.some.injEq] at hs''
      rw [← hs'']
    have hother : ∀ j u, s.transfers[j]? = some u → u.isOpen = true →
        (∀ e, ServerEvent.datagram i d ≠ .datagram j e) → u.kind = t.kind → False := by
      intro j u hu huopen hne hkind
      have hij : i ≠ j := fun hij => hne d (hij ▸ rfl)
      cases hk : t.kind with
      | read => exact h.reads.unique.not_of_ne ht hu ⟨hopen, hk⟩ hij ⟨huopen, hkind.trans hk⟩
      | write => exact h.writes.unique.not_of_ne ht hu ⟨hopen, hk⟩ hij ⟨huopen, hkind.trans hk⟩
    cases hk : t.kind with
    | read =>
      refine ⟨serverInv_serve_read h ht ⟨hopen, hk⟩, fun s'' hs'' j u hu huopen hne => ?_⟩
      rw [hworld s'' hs'', serve_read hk]
      cases hku : u.kind with
      | read => exact (hother j u hu huopen hne (hku.trans hk.symm)).elim
      | write => exact rrqRecvCallback_fileCR _ _ _
    | write =>
      have hstore := hexcl t ht hk
      have hfile := h.writes.file_open t (List.mem_of_getElem? ht) ⟨hopen, hk⟩
      refine ⟨serverInv_serve_write h ht ⟨hopen, hk⟩ hstore, fun s'' hs'' j u hu huopen hne => ?_⟩
      rw [hworld s'' hs'', serve_write hk]
      cases hku : u.kind with
      | read =>
        exact (wrqRecvCallback_effect (w := s.world.clearLog) hfile.1 hfile.2 rfl hstore).fileSD
      | write => exact (hother j u hu huopen hne (hku.trans hk.symm)).elim

theorem serverStep_spec {s s' : Server} {e : ServerEvent} (h : ServerInv s)
    (hexcl : Exclusive s e) (hstep : serverStep s e = some s') :
    ServerInv s' ∧ OthersUntouched s e := by
  cases e with
  | request p src env => exact serverStep_request h hexcl hstep
  | datagram i d => exact serverStep_datagram h hexcl hstep

theorem serverInv_init (card : Card) : ServerInv (serverInit card) where
  reads := ⟨AtMostOne.nil, rfl, by simp [serverInit], by simp [serverInit], by simp [serverInit]⟩
  writes := ⟨AtMostOne.nil, fun _ => rfl, by simp [serverInit], by simp [serverInit],
    by simp [serverInit], by simp [serverInit], by simp [serverInit], by simp [serverInit]⟩

/-- In every run of requests and datagrams in which no request comes in while a
transfer of its kind is open, each transfer is served from the file that it asked
for, and no step touches the file of another. -/
theorem transfers_isolated (card : Card) (es : List ServerEvent) (s : Server)
    (hexcl : Run.Along serverStep Exclusive (serverInit card) es)
    (hrun : Run.run serverStep (serverInit card) es = some s) :
    (∀ t ∈ s.transfers, t.Served s.world) ∧
      Run.Along serverStep OthersUntouched (serverInit card) es := by
  have hstep : ∀ s e s', ServerInv s → Exclusive s e → serverStep s e = some s' → ServerInv s' :=
    fun s e s' h hg hst => (serverStep_spec h hg hst).1
  refine ⟨fun t ht => (hexcl.invariant hstep (serverInv_init card) hrun).served ht, ?_⟩
  refine hexcl.of_invariant hstep (fun s e h hg s' hs' => ?_) (serverInv_init card)
  exact (serverStep_spec h hg hs').2 s' hs'

/-- A request in which every call succeeds. -/
def request (bs : Bytes) (h : bs.length < 2 ^ 16) : ServerEvent :=
  .request (.single bs h) client ⟨true, .ok, 0, 0, .free, some zeroArgs, tftpDataLenMax⟩

/-- A write of a new file and a read of another one, side by side. -/
def sideBySide : List ServerEvent :=
  [request [0, 2, 65, 0] (by decide), request [0, 1, 66, 0] (by decide),
    .datagram 0 (message [0, 3, 0, 1, 7] (by decide)),
    .datagram 1 (message [0, 4, 0, 1] (by decide))]

theorem transfers_isolated_side_by_side :
    ∃ s, Run.run serverStep (serverInit (oneFile [66] [9])) sideBySide = some s ∧
      s.world.card.lookup [65] = some [7] ∧ s.transfers.map Transfer.passed = [[7], [9]] ∧
      (∀ t ∈ s.transfers, t.Served s.world) ∧
      Run.Along serverStep OthersUntouched (serverInit (oneFile [66] [9])) sideBySide :=
  ⟨_, rfl, by decide, by decide,
    transfers_isolated (oneFile [66] [9]) sideBySide _ (by decide) rfl⟩

/-- A second request fails because the file exists already, and the clean-up
closes the file of the first one's transfer. Likewise a read of a missing file
closes the file of an open read. -/
theorem failed_request_closes_file :
    (∃ s, Run.run serverStep (serverInit (oneFile [66] [9]))
        [request [0, 2, 65, 0] (by decide), request [0, 2, 65, 0] (by decide)] = some s ∧
      s.transfers.map Transfer.isOpen = [true] ∧ ¬ ∀ t ∈ s.transfers, t.Served s.world) ∧
    ∃ s, Run.run serverStep (serverInit (oneFile [66] [9]))
        [request [0, 1, 66, 0] (by decide)] = some s ∧
      ¬ OthersUntouched s (request [0, 1, 67, 0] (by decide)) := by
  refine ⟨⟨_, rfl, by decide, fun hserved => ?_⟩, _, rfl, fun hothers => ?_⟩
  · exact absurd (hserved _ (List.mem_singleton_self _)).1 (by decide)
  · have hfile := hothers _ rfl 0 _ rfl rfl (by simp [request])
    exact absurd (congrArg EmbeddedFile.isOpen hfile) (by decide)

end EthMange.Tftp
