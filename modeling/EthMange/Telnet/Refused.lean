import EthMange.Lwip.Refused
import EthMange.Telnet.Reply

/-!
# Telnet segments without a block

When there was no memory at `accept` the receive callbacks free the segment, tell the
peer that it has been read, and return `ERR_ARG`: the stack keeps what is free.
-/

namespace EthMange.Telnet

/-- The receive callback as the stack sees it. -/
def recvResult (app : TelnetApp) (err : Err) (env : TelnetEnv) (c : TelnetConn) (p : Pbuf) :
    RecvResult TelnetConn :=
  let r := app.recv c.callbackArg (some p) err env c
  let as := r.2.log.drop c.log.length
  { err := r.1
    frees := as.count .pbufFree
    recved := as.filterMap fun
      | .recved len => some len
      | _ => none
    app := r.2 }

section Result

variable {c : TelnetConn}

theorem AccessOnly.count_pbufFree {as : List TelnetAction} (h : AccessOnly as) :
    as.count .pbufFree = 0 := by
  apply List.count_eq_zero.mpr
  intro hmem
  obtain hlen | ⟨i, hbyte⟩ := h _ hmem <;> contradiction

theorem count_pbufFree_replyLog (hello : Bytes) (env : TelnetEnv) (name : Name) :
    (replyLog hello env name).count .pbufFree = 0 := by
  rw [replyLog, List.count_append, (crLfLog_accessOnly name).count_pbufFree]
  rfl

/-- With a block the segment is freed once. -/
theorem recvResult_block (app : TelnetApp) (err : Err) (env : TelnetEnv) (p : Pbuf)
    (harg : c.callbackArg = true) :
    (recvResult app err env c p).err = .ok ∧ (recvResult app err env c p).frees = 1 ∧
      (recvResult app err env c p).app.callbackArg = true := by
  have hchain := (recvChain_accessOnly p c.name).count_pbufFree
  simp only [recvResult, app.recv_eq, harg]
  by_cases hend : ∃ b ∈ p.bytes, IsEol b
  · obtain ⟨v, t, rest, hp, hv, ht⟩ := Lines.exists_end_split hend
    rw [telnetRecv_end app.hello err env c hp hv ht]
    refine ⟨rfl, ?_, harg⟩
    simp [TelnetConn.act, hchain, count_pbufFree_replyLog]
  · have hopen : ∀ b ∈ p.bytes, ¬ IsEol b := fun b hb hc => hend ⟨b, hb, hc⟩
    rw [telnetRecv_open app.hello err env c hopen]
    refine ⟨rfl, ?_, harg⟩
    simp [TelnetConn.act, hchain]

/-- Without one it is freed and refused. -/
theorem recvResult_null (app : TelnetApp) (err : Err) (env : TelnetEnv) (p : Pbuf)
    (harg : c.callbackArg = false) :
    (recvResult app err env c p).err = .arg ∧ (recvResult app err env c p).frees = 1 ∧
      (recvResult app err env c p).app.callbackArg = false := by
  simp [recvResult, app.recv_eq, harg, telnetRecv, TelnetConn.act]

end Result

/-- The receive callbacks keep to the contract of the stack if and only if the
connection has its block. -/
theorem recv_respects_iff (app : TelnetApp) (err : Err) (env : TelnetEnv) (c : TelnetConn)
    (p : Pbuf) : (recvResult app err env c p).Respects ↔ c.callbackArg = true := by
  cases harg : c.callbackArg with
  | true =>
    obtain ⟨hok, hfrees, _⟩ := recvResult_block app err env p harg
    exact ⟨fun _ => rfl, fun _ => ⟨fun _ => hfrees, fun hne => absurd hok hne⟩⟩
  | false =>
    obtain ⟨herr, hfrees, _⟩ := recvResult_null app err env p harg
    refine ⟨fun h => ?_, fun h => absurd h Bool.false_ne_true⟩
    have hnone := (h.2 (by rw [herr]; decide)).1
    rw [hfrees] at hnone
    exact absurd hnone one_ne_zero

/-- A connection for which there was no memory. -/
theorem not_recv_respects :
    ¬ (recvResult .helloWorld .ok ⟨.ok, .ok, .ok⟩
      (telnetAccept false ⟨false, false, false, ⟨0, fun _ => 0⟩, []⟩).2
      (.single [104] (by decide))).Respects :=
  fun h => absurd (h.2 (by decide)).1 (by decide)

/-- Over all deliveries and redeliveries no segment is freed twice, and none that the
stack keeps is free, if and only if the connection has its block. -/
theorem freedOnce_iff (app : TelnetApp) (env : TelnetEnv) (c : TelnetConn) :
    (∀ es : List RecvEvent,
      FreedOnce (es.foldl (recvStep (recvResult app .ok env)) ⟨c, none, 0, []⟩)) ↔
      c.callbackArg = true := by
  constructor
  · intro h
    by_contra harg
    rw [Bool.not_eq_true] at harg
    obtain ⟨herr, hfrees, _⟩ := recvResult_null app .ok env (.single [104] (by decide)) harg
    have hkept := (h [.input (.single [104] (by decide))]).kept 0 (.single [104] (by decide))
    simp [recvStep, notifyKept, notify, herr, hfrees] at hkept
  · intro harg es
    have hstart : FreedOnce (⟨c, none, 0, []⟩ : RecvPcb TelnetConn) :=
      ⟨List.nodup_nil, by simp, by simp⟩
    refine hstart.run (I := fun c => c.callbackArg = true) harg (fun c p hc => ?_) es
    obtain ⟨hok, hfrees, hblock⟩ := recvResult_block app .ok env p hc
    exact ⟨⟨fun _ => hfrees, fun hne => absurd hok hne⟩, hblock⟩

end EthMange.Telnet
