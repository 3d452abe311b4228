import EthMange.Lwip.Pbuf

/-!
# The LED server and its client

The receive callbacks of `server.c` and `client.c`, and the bytes that the
client writes. What a callback does is kept in a log.
-/

namespace EthMange.LedControl

/-- `Led_TypeDef` -/
inductive Led
  | led1 | led2 | led3 | led4
  deriving DecidableEq, Repr

/-- The value of the enumeration constant. -/
def Led.byte : Led → UInt8
  | .led1 => 0
  | .led2 => 1
  | .led3 => 2
  | .led4 => 3

inductive LedAction
  -- `p->payload` is read, of a NULL pointer or not
  | payload (null : Bool)
  | toggle (led : Led)
  | printf
  | recved (len : ℕ)
  | pbufFree (null : Bool)
  | close
  deriving DecidableEq, Repr

/-- The `switch` of `tcp_server_recv`. -/
def toggleLed (data : UInt8) : List LedAction :=
  if data = Led.led1.byte then [.toggle .led1]
  else if data = Led.led2.byte then [.toggle .led2]
  else if data = Led.led3.byte then [.toggle .led3]
  else if data = Led.led4.byte then [.toggle .led4]
  else []

/-- `tcp_server_recv`. Without a pbuf, `nullData` is the byte to which the word
at the place of the `payload` field in address zero points. -/
def tcpServerRecv (nullData : UInt8) (p : Option Pbuf) : Err × List LedAction :=
  let data := match p with
    | some p => p.payload 0
    | none => nullData
  (.ok, [.payload p.isNone] ++ toggleLed data ++ [.pbufFree p.isNone])

/-- `tcp_client_recv` -/
def tcpClientRecv (p : Option Pbuf) : Err × List LedAction :=
  (.ok, [.printf, .pbufFree p.isNone])

/-- `Sent`, with its NUL. -/
def sent : Bytes := stringBytes "fanqh test udp client\r\n"

theorem toggleLed_byte (led : Led) : toggleLed led.byte = [.toggle led] := by
  cases led <;> rfl

theorem mem_toggleLed {data : UInt8} {led : Led} :
    .toggle led ∈ toggleLed data ↔ data = led.byte := by
  rw [toggleLed]
  split_ifs with h1 h2 h3 h4
  · subst h1
    cases led <;> decide
  · subst h2
    cases led <;> decide
  · subst h3
    cases led <;> decide
  · subst h4
    cases led <;> decide
  · cases led <;> simp_all

/-- One callback toggles at most one LED, the one with the number of its byte. -/
theorem count_toggleLed (data : UInt8) (led : Led) :
    (toggleLed data).count (.toggle led) = if data = led.byte then 1 else 0 := by
  split_ifs with h
  · rw [h, toggleLed_byte, List.count_singleton_self]
  · exact List.count_eq_zero.mpr fun hmem => h (mem_toggleLed.mp hmem)

end EthMange.LedControl
