import EthMange.LedControl.Window

/-!
# The peer of the LED connection closes

`tcp_input` signals the end of the peer's stream by a call of the receive
callback without a pbuf. Neither callback asks for that: both pass the `NULL` on
to `pbuf_free`, the server reads through it before, and nobody closes.
-/

namespace EthMange.LedControl

open Run

/-- What the peer of an LED connection does. -/
inductive PeerEvent
  | data (p : Pbuf)
  | fin

/-- What the receive callback has done so far, and what it did for the end of the
stream if that has come. -/
structure LedConnection where
  log : List LedAction
  atFin : Option (List LedAction)
  deriving DecidableEq

def LedConnection.opened : LedConnection := ⟨[], none⟩

/-- `TCP_EVENT_RECV`: with the data of a segment, or without a pbuf at the end of
the stream, after which nothing comes any more. -/
def peerStep (nullData : UInt8) (app : LedApp) (c : LedConnection) :
    PeerEvent → Option LedConnection
  | .data p =>
    if c.atFin.isSome then none
    else some { c with log := c.log ++ (app.recv nullData (some p)).2 }
  | .fin =>
    if c.atFin.isSome then none
    else
      let did := (app.recv nullData none).2
      some ⟨c.log ++ did, some did⟩

/-- No `NULL` is taken for a pbuf, the end of the stream toggles no LED, and it is
answered with `tcp_close`. -/
structure ClosesWithPeer (c : LedConnection) : Prop where
  no_deref : .payload true ∉ c.log
  no_free : .pbufFree true ∉ c.log
  no_toggle : ∀ did ∈ c.atFin, ∀ led, .toggle led ∉ did
  closed : c.atFin.isSome → .close ∈ c.log

section Step

variable {nullData : UInt8} {app : LedApp} {c d : LedConnection}

theorem null_not_mem_toggleLed (data : UInt8) :
    .payload true ∉ toggleLed data ∧ .pbufFree true ∉ toggleLed data := by
  rw [toggleLed]
  split_ifs <;> simp

/-- With a pbuf the callbacks touch no `NULL`. -/
theorem recv_some (nullData : UInt8) (app : LedApp) (p : Pbuf) :
    .payload true ∉ (app.recv nullData (some p)).2 ∧
      .pbufFree true ∉ (app.recv nullData (some p)).2 := by
  have htoggle := null_not_mem_toggleLed (p.payload 0)
  cases app with
  | server => simp [LedApp.recv, tcpServerRecv, htoggle]
  | client => simp [LedApp.recv, tcpClientRecv]

/-- Without one both of them free a `NULL`, and neither closes. -/
theorem recv_none (nullData : UInt8) (app : LedApp) :
    .pbufFree true ∈ (app.recv nullData none).2 ∧ .close ∉ (app.recv nullData none).2 := by
  cases app with
  | server =>
    have hclose : .close ∉ toggleLed nullData := by
      rw [toggleLed]
      split_ifs <;> simp
    simp [LedApp.recv, tcpServerRecv, hclose]
  | client => simp [LedApp.recv, tcpClientRecv]

/-- The server reads the byte at a wild address and takes it for a command. -/
theorem server_fin_toggles_iff (nullData : UInt8) (led : Led) :
    .toggle led ∈ (LedApp.server.recv nullData none).2 ↔ nullData = led.byte := by
  rw [← mem_toggleLed]
  simp [LedApp.recv, tcpServerRecv]

/-- Before the end of the stream. -/
structure Streaming (c : LedConnection) : Prop where
  before : c.atFin = none
  no_deref : .payload true ∉ c.log
  no_free : .pbufFree true ∉ c.log

theorem Streaming.closesWithPeer (h : Streaming c) : ClosesWithPeer c :=
  ⟨h.no_deref, h.no_free, by simp [h.before], by simp [h.before]⟩

theorem streaming_opened : Streaming .opened := ⟨rfl, List.not_mem_nil, List.not_mem_nil⟩

theorem Streaming.data (h : Streaming c) {p : Pbuf}
    (hstep : peerStep nullData app c (.data p) = some d) : Streaming d := by
  obtain ⟨hderef, hfree⟩ := recv_some nullData app p
  simp only [peerStep, h.before, Option.isSome_none, Bool.false_eq_true, if_false,
    Option.some.injEq] at hstep
  subst hstep
  refine ⟨rfl, ?_, ?_⟩
  · rw [List.mem_append, not_or]
    exact ⟨h.no_deref, hderef⟩
  · rw [List.mem_append, not_or]
    exact ⟨h.no_free, hfree⟩

theorem free_null_of_fin (hstep : peerStep nullData app c .fin = some d) :
    .pbufFree true ∈ d.log := by
  rw [peerStep] at hstep
  split_ifs at hstep
  simp only [Option.some.injEq] at hstep
  subst hstep
  exact List.mem_append_right _ (recv_none nullData app).1

theorem log_subset (e : PeerEvent) (hstep : peerStep nullData app c e = some d) :
    c.log ⊆ d.log := by
  cases e <;>
    · simp only [peerStep, Option.ite_none_left_eq_some, Option.some.injEq] at hstep
      rw [← hstep.2]
      exact List.subset_append_left _ _

end Step

/-- An LED connection goes as it should if and only if its peer never closes. -/
theorem closes_with_peer_iff (nullData : UInt8) (app : LedApp) {es : List PeerEvent}
    {c : LedConnection} (hrun : run (peerStep nullData app) .opened es = some c) :
    ClosesWithPeer c ↔ .fin ∉ es := by
  constructor
  · intro h hfin
    obtain ⟨before, after, rfl⟩ := List.append_of_mem hfin
    rw [run, List.foldlM_append, Option.bind_eq_bind, Option.bind_eq_some_iff] at hrun
    obtain ⟨b, -, hrun⟩ := hrun
    obtain ⟨d, hstep, hrest⟩ := Option.bind_eq_some_iff.mp ((run_cons b _ after).symm.trans hrun)
    exact h.no_free (run_invariant (I := fun c => .pbufFree true ∈ c.log)
      (fun _ e _ hmem hstep => log_subset e hstep hmem) (free_null_of_fin hstep) hrest)
  · intro hfin
    have hdata : ∀ e ∈ es, e ≠ .fin := fun e he h => hfin (h ▸ he)
    refine (Along.invariant (G := fun _ e => e ≠ .fin) ?_ streaming_opened
      (Along.of_forall _ hdata) hrun).closesWithPeer
    intro _ e _ h hne hstep
    cases e with
    | data p => exact h.data hstep
    | fin => exact absurd rfl hne

/-- A command from a peer that stays. -/
theorem closes_with_peer_one_command :
    ClosesWithPeer ⟨[.payload false, .toggle .led3, .pbufFree false], none⟩ ↔
      PeerEvent.fin ∉ [.data (.single [2] (by decide))] :=
  closes_with_peer_iff 0 .server (by decide)

/-- A command and the end of the stream: the server toggles LED1 for a byte that
nobody sent, both ends free a `NULL`, and no end closes. -/
theorem peer_close_mishandled :
    (∃ c, run (peerStep 0 .server) .opened [.data (.single [2] (by decide)), .fin] = some c ∧
      c.atFin = some [.payload true, .toggle .led1, .pbufFree true] ∧ ¬ ClosesWithPeer c) ∧
    ∃ c, run (peerStep 0 .client) .opened [.fin] = some c ∧
      c.atFin = some [.printf, .pbufFree true] ∧ ¬ ClosesWithPeer c :=
  ⟨⟨_, rfl, by decide, fun h => absurd h.no_free (by decide)⟩,
    ⟨_, rfl, by decide, fun h => absurd h.no_free (by decide)⟩⟩

end EthMange.LedControl
