import EthMange.Httpd.Connection
import EthMange.Lwip.Window

/-!
# The window of a web connection

`http_recv` gives back every segment before it looks at it, and no other part of
the callback calls `tcp_recved`. So the window of a connection is whole after
every callback that returns.
-/

namespace EthMange.Httpd

open Credit Run

def HttpAction.recvedLen : HttpAction → Option ℕ
  | .recved len => some len
  | _ => none

section Recv

variable {fs : FsImage} {env : HttpEnv} {c c' : HttpConn} {p : Pbuf}

theorem recveds_sendPage (f : Option (ℕ × UInt32)) :
    recveds HttpAction.recvedLen (sendPage f env c).log = recveds HttpAction.recvedLen c.log := by
  have hlog (hs : HttpState) (as : List HttpAction) :
      recveds HttpAction.recvedLen (sendData env ({ c with hs := hs }.act as)).log =
        recveds HttpAction.recvedLen (c.log ++ as) := by
    rw [sendData_log, recveds_append]
    simp only [act_log]
    split_ifs <;> simp [recveds, HttpAction.recvedLen]
  rw [sendPage]
  apply (hlog _ _).trans
  simp [recveds, HttpAction.recvedLen]

theorem recveds_ledOn (b : UInt8) : recveds HttpAction.recvedLen (ledOn b) = [] := by
  rw [ledOn]
  split_ifs <;> rfl

theorem recveds_ledScan {data : Memory} {fuel i : ℕ} {leds : List HttpAction}
    (h : ledScan data fuel i = some leds) : recveds HttpAction.recvedLen leds = [] := by
  induction fuel generalizing i leds with
  | zero => simp [ledScan] at h
  | succ fuel ih =>
    rw [ledScan] at h
    split_ifs at h with hspace hl he hd
    · rw [Option.some.injEq] at h
      exact h ▸ rfl
    · rw [Option.map_eq_some_iff] at h
      obtain ⟨rest, hrest, rfl⟩ := h
      rw [recveds_append, recveds_ledOn, ih hrest, List.append_nil]
    · exact ih h
    · exact ih h
    · exact ih h

theorem recveds_httpRequest (h : httpRequest fs true p env c = some c') :
    recveds HttpAction.recvedLen c'.log = recveds HttpAction.recvedLen c.log := by
  rw [httpRequest] at h
  simp only at h
  split_ifs at h
  · rw [Option.some.injEq] at h
    rw [← h, recveds_sendPage, act_log, recveds_append]
    simp [recveds, HttpAction.recvedLen, adcDigits]
  · rw [Option.map_eq_some_iff] at h
    obtain ⟨leds, hleds, rfl⟩ := h
    rw [recveds_sendPage]
    simp only [act_log, recveds_append, recveds_ledScan hleds]
    simp [recveds, HttpAction.recvedLen]
  · rw [Option.some.injEq] at h
    rw [← h, recveds_sendPage, act_log, recveds_append]
    simp [recveds, HttpAction.recvedLen]
  · rw [Option.some.injEq] at h
    rw [← h, closeConn_log, recveds_append]
    simp [recveds, HttpAction.recvedLen]

theorem recveds_httpRecv (h : httpRecv fs true (some p) .ok env c = some c') :
    recveds HttpAction.recvedLen c'.log = recveds HttpAction.recvedLen c.log ++ [p.totLen] := by
  have hstart : recveds HttpAction.recvedLen (c.act [.recved p.totLen, .access]).log =
      recveds HttpAction.recvedLen c.log ++ [p.totLen] := by
    rw [act_log, recveds_append]
    rfl
  rw [← hstart]
  simp only [httpRecv, ne_eq, not_true_eq_false, if_false, act_act, act_hs,
    List.cons_append, List.nil_append] at h
  split_ifs at h with hfile
  · exact recveds_httpRequest h
  · rw [Option.some.injEq] at h
    rw [← h, act_log, act_log, recveds_append, recveds_append]
    rfl

end Recv

/-- Over any segments, each given to a call of `http_recv` that returns, the
window is kept. -/
theorem http_window_kept {fs : FsImage} {recv : Pbuf → List ℕ}
    (hrecv : ∀ p, ∃ env c c', httpRecv fs true (some p) .ok env c = some c' ∧
      recveds HttpAction.recvedLen c'.log = recveds HttpAction.recvedLen c.log ++ recv p)
    {es : List Pbuf} {a : Account} (hrun : run (deliver recv) (.opened tcpWnd) es = some a) :
    WindowKept a := by
  refine windowKept_of_returns (fun p => ?_) hrun
  obtain ⟨env, c, c', hcall, hlog⟩ := hrecv p
  exact List.append_cancel_left (hlog.symm.trans (recveds_httpRecv hcall))

end EthMange.Httpd
