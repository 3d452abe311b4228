import EthMange.Lib.Ranges
import EthMange.Httpd.Connection

/-!
# The response stream

Once a request has chosen a page, the callbacks hand it to `tcp_write` piece by
piece, as the send buffer allows. Whatever the order of the events and the
outcome of the writes, the pieces accepted so far are the start of the page and
`left` counts the rest.
-/

namespace EthMange.Httpd

open Run Ranges

def acceptedStep (rs : List (ℕ × ℕ)) : HttpAction → List (ℕ × ℕ)
  | .select _ _ => []
  | .write data len .ok => rs ++ [(data, len.toNat)]
  | _ => rs

/-- The ranges that `tcp_write` has accepted since a page was put into the
block. -/
def acceptedOf (log : List HttpAction) : List (ℕ × ℕ) := log.foldl acceptedStep []

/-- The state of a connection that serves the page `f`. -/
structure Serving (f : ℕ × UInt32) (c : HttpConn) : Prop where
  selected : selectedOf c.log = [f]
  accepted : Consecutive f.1 (acceptedOf c.log)
  left : total (acceptedOf c.log) + c.hs.left.toNat = f.2.toNat
  file : c.hs.file = f.1 + total (acceptedOf c.log)

structure Unserved (c : HttpConn) : Prop where
  selected : selectedOf c.log = []
  sent : c.pcb.sent = false
  hs : c.pcb.callbackArg = true → c.hs = ⟨0, 0⟩

theorem acceptedOf_append (l k : List HttpAction) :
    acceptedOf (l ++ k) = k.foldl acceptedStep (acceptedOf l) :=
  List.foldl_append

theorem acceptedStep_silent (rs : List (ℕ × ℕ)) {a : HttpAction} (h : a.Silent) :
    acceptedStep rs a = rs := by
  cases a with
  | select => exact absurd h id
  | write data len err => cases err <;> first | rfl | exact absurd h id
  | _ => rfl

theorem acceptedOf_silent (l : List HttpAction) {k : List HttpAction} (h : ∀ a ∈ k, a.Silent) :
    acceptedOf (l ++ k) = acceptedOf l := by
  rw [acceptedOf_append]
  induction k with
  | nil => rfl
  | cons a k ih =>
    rw [List.forall_mem_cons] at h
    rw [List.foldl_cons, acceptedStep_silent _ h.1]
    exact ih h.2

/-! ### `send_data` -/

/-- The 16-bit length holds what it should. -/
theorem sendLen_toNat (sndbuf : UInt16) (left : UInt32) :
    (sendLen sndbuf left).toNat = min sndbuf.toNat left.toNat := by
  rw [sendLen]
  have hlt : sndbuf.toNat < 2 ^ 16 := sndbuf.toNat_lt
  split_ifs with h
  · have h' : sndbuf.toNat < left.toNat := by simpa [UInt32.lt_iff_toNat_lt] using h
    exact (min_eq_left h'.le).symm
  · have h' : left.toNat ≤ sndbuf.toNat := by simpa [UInt32.lt_iff_toNat_lt] using h
    rw [min_eq_right h', UInt32.toNat_toUInt16, Nat.mod_eq_of_lt (by omega)]

theorem sendData_hs_of_ok {env : HttpEnv} (c : HttpConn) (h : env.write = .ok) :
    (sendData env c).hs = ⟨c.hs.file + (sendLen env.sndbuf c.hs.left).toNat,
      c.hs.left - (sendLen env.sndbuf c.hs.left).toUInt32⟩ := by
  simp [sendData, h]

theorem sendData_hs_of_err {env : HttpEnv} (c : HttpConn) (h : env.write ≠ .ok) :
    (sendData env c).hs = c.hs := by
  simp [sendData, h]

/-- A rejected write changes nothing. -/
theorem sendData_log_silent {env : HttpEnv} (c : HttpConn) (h : env.write ≠ .ok) :
    ∃ as, (∀ a ∈ as, a.Silent) ∧ (sendData env c).log = c.log ++ as := by
  refine ⟨_, ?_, sendData_log env c⟩
  rw [if_neg h, List.append_nil]
  intro a ha
  simp only [List.mem_cons, List.not_mem_nil, or_false] at ha
  obtain rfl | rfl := ha
  · trivial
  · cases hw : env.write <;> trivial

theorem selectedOf_sendData (env : HttpEnv) (c : HttpConn) :
    selectedOf (sendData env c).log = selectedOf c.log := by
  rw [sendData_log, selectedOf_append]
  split_ifs <;> simp [selectedOf]

theorem acceptedOf_sendData {env : HttpEnv} (c : HttpConn) (h : env.write = .ok) :
    acceptedOf (sendData env c).log =
      acceptedOf c.log ++ [(c.hs.file, (sendLen env.sndbuf c.hs.left).toNat)] := by
  rw [sendData_log, h, acceptedOf_append]
  simp [acceptedStep]

theorem left_sub_sendLen (sndbuf : UInt16) (left : UInt32) :
    (left - (sendLen sndbuf left).toUInt32).toNat = left.toNat - (sendLen sndbuf left).toNat := by
  have hle : (sendLen sndbuf left).toNat ≤ left.toNat :=
    (sendLen_toNat sndbuf left).trans_le (min_le_right _ _)
  rw [UInt32.toNat_sub_of_le _ _ (by simpa [UInt32.le_iff_toNat_le] using hle)]
  simp

/-! ### What a callback keeps -/

section Callbacks

variable {f : ℕ × UInt32} {c c' : HttpConn} {as : List HttpAction} {env : HttpEnv}

theorem Serving.of_silent (h : Serving f c) (has : ∀ a ∈ as, a.Silent) (hhs : c'.hs = c.hs)
    (hlog : c'.log = c.log ++ as) : Serving f c' := by
  have hselected := selectedOf_silent c.log has
  have haccepted := acceptedOf_silent c.log has
  rw [← hlog] at hselected haccepted
  constructor
  · exact hselected.trans h.selected
  · rw [haccepted]
    exact h.accepted
  · rw [haccepted, hhs]
    exact h.left
  · rw [haccepted, hhs]
    exact h.file

theorem Serving.sendData (h : Serving f c) : Serving f (sendData env c) := by
  by_cases hw : env.write = .ok
  · have hle : (sendLen env.sndbuf c.hs.left).toNat ≤ c.hs.left.toNat :=
      (sendLen_toNat env.sndbuf c.hs.left).trans_le (min_le_right _ _)
    have hleft := h.left
    constructor
    · rw [selectedOf_sendData]
      exact h.selected
    · rw [acceptedOf_sendData c hw, h.file]
      exact h.accepted.concat _
    · rw [acceptedOf_sendData c hw, sendData_hs_of_ok c hw, left_sub_sendLen]
      simp only [total_append, total_cons, total_nil]
      omega
    · rw [acceptedOf_sendData c hw, sendData_hs_of_ok c hw, h.file]
      simp only [total_append, total_cons, total_nil]
      omega
  · obtain ⟨as, has, hlog⟩ := sendData_log_silent c hw
    exact h.of_silent has (sendData_hs_of_err c hw) hlog

/-- Without a page nothing is left to send. -/
theorem Unserved.sendData (h : Unserved c) (harg : c.pcb.callbackArg = true) :
    Unserved (sendData env c) := by
  have hhs := h.hs harg
  refine ⟨(selectedOf_sendData env c).trans h.selected, ?_, fun _ => ?_⟩
  · rw [sendData_pcb]
    exact h.sent
  · by_cases hw : env.write = .ok
    · have hlen : sendLen env.sndbuf 0 = 0 := by
        rw [← UInt16.toNat_inj, sendLen_toNat]
        simp
      rw [sendData_hs_of_ok c hw, hhs, hlen]
      rfl
    · exact (sendData_hs_of_err c hw).trans hhs

theorem Unserved.act (h : Unserved c) (has : ∀ a ∈ as, a.Silent) : Unserved (c.act as) :=
  ⟨(selectedOf_silent c.log has).trans h.selected, h.sent, h.hs⟩

theorem serving_sendPage (f : ℕ × UInt32) (h : selectedOf c.log = []) :
    Serving f (sendPage (some f) env c) := by
  have hstart : Serving f ({ c with hs := ⟨f.1, f.2⟩ }.act [.access, .select f.1 f.2]) := by
    constructor
    · rw [act_log, selectedOf_append, h]
      rfl
    · rw [act_log, acceptedOf_append]
      trivial
    · rw [act_log, acceptedOf_append]
      simp [acceptedStep]
    · rw [act_log, acceptedOf_append]
      simp [acceptedStep]
  have hsent : Serving f (Httpd.sendData env _) := hstart.sendData
  exact ⟨hsent.selected, hsent.accepted, hsent.left, hsent.file⟩

/-- No page yet, or one that is served. -/
def Streaming (c : HttpConn) : Prop := Unserved c ∨ ∃ f : ℕ × UInt32, f.1 ≠ 0 ∧ Serving f c

theorem Streaming.act (h : Streaming c) (has : ∀ a ∈ as, a.Silent) : Streaming (c.act as) := by
  obtain hun | ⟨f, hnull, hserve⟩ := h
  · exact .inl (hun.act has)
  · exact .inr ⟨f, hnull, hserve.of_silent has rfl rfl⟩

theorem Streaming.closeConn (h : Streaming c) : Streaming (closeConn true env c) := by
  have hsilent : ∀ a ∈ [HttpAction.free, .close env.close], a.Silent := by
    simp [HttpAction.Silent]
  obtain hun | ⟨f, hnull, hserve⟩ := h
  · refine .inl ⟨?_, rfl, fun harg => nomatch harg⟩
    rw [closeConn_log, selectedOf_silent _ hsilent]
    exact hun.selected
  · exact .inr ⟨f, hnull, hserve.of_silent hsilent rfl (closeConn_log c)⟩

theorem CallbackEffect.streaming (h : CallbackEffect c c') (harg : c.pcb.callbackArg = true)
    (hs : Streaming c) : Streaming c' := by
  cases h with
  | quiet as has => exact hs.act has.silent
  | send as env has =>
    obtain hun | ⟨f, hnull, hserve⟩ := hs.act has.silent
    · exact .inl (hun.sendData harg)
    · exact .inr ⟨f, hnull, hserve.sendData⟩
  | page as f env has hnull hfile =>
    obtain hun | ⟨g, hg, hserve⟩ := hs
    · exact .inr ⟨f, hnull, serving_sendPage f (hun.act has.silent).selected⟩
    · have hpos := hserve.file
      omega
  | close as env has => exact (hs.act has.silent).closeConn

end Callbacks

/-! ### Whole runs -/

structure StreamInv (s : HttpSystem) : Prop where
  linked : Linked s.conn
  pending : s.phase = .pending → selectedOf s.conn.log = []
  streaming : Streaming s.conn

theorem streamInv_init (hs : HttpState) : StreamInv (httpInit hs) where
  linked := ⟨nofun, nofun, nofun⟩
  pending := fun _ => rfl
  streaming := .inl ⟨rfl, rfl, nofun⟩

theorem StreamInv.step {s t : HttpSystem} (h : StreamInv s) (hstep : StepEffect s t) :
    StreamInv t := by
  refine ⟨hstep.linked h.linked, ?_, ?_⟩
  · intro hpending
    cases hstep with
    | ignored => exact h.pending hpending
    | _ => cases hpending
  · cases hstep with
    | accepted hphase =>
      have hnone := h.pending hphase
      obtain hun | ⟨f, -, hserve⟩ := h.streaming
      · refine .inl ⟨?_, hun.sent, fun _ => rfl⟩
        simp only [httpAccept, not_true_eq_false, if_false, act_log]
        exact (selectedOf_append _ _).trans (by rw [hnone]; rfl)
      · rw [hserve.selected] at hnone
        cases hnone
    | failed =>
      rw [errorEvent_eq]
      apply h.streaming.act
      split <;> simp [HttpAction.Silent]
    | callback c hphase harg hc => exact hc.streaming harg h.streaming
    | closeAgain err => exact h.streaming.act (by simp [HttpAction.Silent])
    | ignored => exact h.streaming
    | removed => exact h.streaming

theorem streamInv_step {fs : FsImage} (s : HttpSystem) (e : HttpEvent) (t : HttpSystem)
    (h : StreamInv s) (hstep : httpStep fs s e = some t) : StreamInv t :=
  h.step (httpStep_effect h.linked hstep)

/-- `http_sent` closes the connection only when the whole page has been
accepted. -/
def ClosesWhenDone (fs : FsImage) (s : HttpSystem) (e : HttpEvent) : Prop :=
  ∀ env t err, e = .sent env → httpStep fs s e = some t →
    .close err ∈ t.conn.log.drop s.conn.log.length →
    ∃ f, selectedOf s.conn.log = [f] ∧ total (acceptedOf s.conn.log) = f.2.toNat

theorem StreamInv.closesWhenDone {fs : FsImage} {s : HttpSystem} (h : StreamInv s)
    (e : HttpEvent) : ClosesWhenDone fs s e := by
  rintro env t err rfl hstep hclose
  simp only [httpStep] at hstep
  split_ifs at hstep with hphase hsent
  · rw [Option.some.injEq] at hstep
    subst hstep
    rw [h.linked.sent hsent] at hclose
    by_cases hleft : 0 < s.conn.hs.left
    · rw [httpSent_of_left hleft, sendData_log, act_log, List.append_assoc,
        List.drop_left] at hclose
      split_ifs at hclose <;> simp at hclose
    · obtain hun | ⟨f, -, hserve⟩ := h.streaming
      · rw [hun.sent] at hsent
        cases hsent
      · have hzero : s.conn.hs.left.toNat = 0 := by
          simpa [UInt32.lt_iff_toNat_lt] using hleft
        have htotal := hserve.left
        rw [hzero, Nat.add_zero] at htotal
        exact ⟨f, hserve.selected, htotal⟩
  · rw [Option.some.injEq] at hstep
    subst hstep
    simp at hclose

/-- Over any run, the bytes accepted since a page was chosen are consecutive
ranges from its start; `file` and `left` say what is still to come. No other page
is ever chosen, a length is the least of the send buffer and the rest, and
`http_sent` closes the connection only after the last byte. -/
theorem http_stream (fs : FsImage) (hs : HttpState) (es : List HttpEvent) {t : HttpSystem}
    (hrun : run (httpStep fs) (httpInit hs) es = some t) :
    (∀ f ∈ selectedOf t.conn.log, Serving f t.conn ∧
      (acceptedOf t.conn.log).Pairwise fun r q => r.1 + r.2 ≤ q.1) ∧
    (∀ (env : HttpEnv) (c : HttpConn), ∃ len : UInt16,
      len.toNat = min env.sndbuf.toNat c.hs.left.toNat ∧
      (sendData env c).log = c.log ++ ([.access, .write c.hs.file len env.write] ++
        if env.write = .ok then [.access] else [])) ∧
    Along (httpStep fs) (ClosesWhenDone fs) (httpInit hs) es := by
  have hinv := run_invariant streamInv_step (streamInv_init hs) hrun
  refine ⟨fun f hf => ?_, fun env c => ⟨_, sendLen_toNat _ _, sendData_log env c⟩, ?_⟩
  · obtain hun | ⟨g, -, hserve⟩ := hinv.streaming
    · rw [hun.selected] at hf
      cases hf
    · rw [hserve.selected, List.mem_singleton] at hf
      exact hf ▸ ⟨hserve, hserve.accepted.disjoint⟩
  · exact along_of_invariant streamInv_step (fun s e h => h.closesWhenDone e) (streamInv_init hs) es

/-- A page of 2707 bytes in two pieces, with a failed write and another request
between them. -/
theorem http_stream_two_pieces :
    ∃ t, run (httpStep sampleFs) (httpInit ⟨7, 9⟩)
        [.accept true, .recv (some gifRequest) .ok (idleEnv 1460), .sent ⟨1460, .mem, .ok, 0⟩,
          .recv (some gifRequest) .ok (idleEnv 1460), .poll (idleEnv 1460)] = some t ∧
      acceptedOf t.conn.log = [(0x11000, 1460), (0x11000 + 1460, 1247)] ∧
      ∀ f ∈ selectedOf t.conn.log, Serving f t.conn := by
  have haccepted : (run (httpStep sampleFs) (httpInit ⟨7, 9⟩)
      [.accept true, .recv (some gifRequest) .ok (idleEnv 1460), .sent ⟨1460, .mem, .ok, 0⟩,
        .recv (some gifRequest) .ok (idleEnv 1460), .poll (idleEnv 1460)]).map
      (fun t => acceptedOf t.conn.log) =
        some [(0x11000, 1460), (0x11000 + 1460, 1247)] := by
    decide +kernel
  obtain ⟨t, hrun, ht⟩ := Option.map_eq_some_iff.mp haccepted
  exact ⟨t, hrun, ht, fun f hf => ((http_stream sampleFs ⟨7, 9⟩ _ hrun).1 f hf).1⟩

end EthMange.Httpd
