import EthMange.LedControl.Apps
import EthMange.Lwip.Window

/-!
# The window of the LED connection

Neither `tcp_server_recv` nor `tcp_client_recv` calls `tcp_recved`. The bytes of
a connection are taken from its window and never come back, while `http_recv`
returns every segment it is given.
-/

namespace EthMange.LedControl

open Credit Run

/-- The two ends of an LED connection. -/
inductive LedApp
  | server
  | client
  deriving DecidableEq, Repr

/-- The receive callback of an end. -/
def LedApp.recv (nullData : UInt8) : LedApp → Option Pbuf → Err × List LedAction
  | .server => tcpServerRecv nullData
  | .client => tcpClientRecv

def LedAction.recvedLen : LedAction → Option ℕ
  | .recved len => some len
  | _ => none

/-- The calls of `tcp_recved` when a segment is delivered. -/
def LedApp.recveds (nullData : UInt8) (app : LedApp) (p : Pbuf) : List ℕ :=
  EthMange.recveds LedAction.recvedLen (app.recv nullData (some p)).2

theorem recveds_toggleLed (data : UInt8) : recveds LedAction.recvedLen (toggleLed data) = [] := by
  rw [toggleLed]
  split_ifs <;> rfl

theorem LedApp.recveds_eq_nil (nullData : UInt8) (app : LedApp) (p : Pbuf) :
    app.recveds nullData p = [] := by
  cases app with
  | server =>
    change EthMange.recveds LedAction.recvedLen
      ([.payload false] ++ toggleLed (p.payload 0) ++ [.pbufFree false]) = []
    rw [recveds_append, recveds_append, recveds_toggleLed]
    rfl
  | client => rfl

/-- The window of an LED connection is kept up to its first segment. -/
theorem led_window_kept_iff (nullData : UInt8) (app : LedApp) {es : List Pbuf} {a : Account}
    (hrun : run (deliver (app.recveds nullData)) (.opened tcpWnd) es = some a) :
    WindowKept a ↔ es = [] :=
  windowKept_iff_of_silent (app.recveds_eq_nil nullData) hrun

theorem led_window_kept_one_command :
    WindowKept ⟨2919, 1, 0⟩ ↔ [Pbuf.single [2] (by decide)] = [] :=
  led_window_kept_iff 0 .server (by decide)

/-- A segment of `TCP_MSS` bytes that are all LED numbers. -/
def fullSegment : Pbuf := ⟨⟨fun _ => 1, 1460⟩, [], by decide⟩

/-- After two full segments the window is closed for good. -/
theorem led_window_closes :
    run (deliver (LedApp.server.recveds 0)) (.opened tcpWnd) [fullSegment, fullSegment] =
        some ⟨0, 2920, 0⟩ ∧
      ¬ WindowKept ⟨0, 2920, 0⟩ ∧
      ∀ p, deliver (LedApp.server.recveds 0) ⟨0, 2920, 0⟩ p = none :=
  ⟨by decide, fun h => absurd h.not_blocked (lt_irrefl 0), fun _ => deliver_of_closed rfl⟩

end EthMange.LedControl
