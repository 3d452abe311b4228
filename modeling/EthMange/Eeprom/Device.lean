import EthMange.Lib.Paged

/-!
# The EEPROM and its bus

The AT24C02 stores 256 bytes in pages of 8. A write transaction wraps in its
page, a read goes on over the pages. After a write the device is busy with it and
does not answer to its address for a time that nobody knows.
-/

namespace EthMange.Eeprom

open Paged

-- `I2C_PageSize`
def i2cPageSize : ℕ := 8

inductive EepromMode
  | idle
  -- selected for writing: a byte is the address in the memory
  | wordAddress
  -- a byte is stored; `written` says that there was one
  | data (written : Bool)
  | read
  deriving DecidableEq, Repr

structure At24c02 where
  mem : ℕ → UInt8
  pointer : ℕ
  mode : EepromMode
  -- how often the device will not answer, in this write cycle and the ones to come
  cycle : ℕ
  cycles : ℕ → ℕ

/-- The bus is busy between a START and a STOP. `ack` says whether the master
acknowledges what it receives. -/
structure I2c where
  eeprom : At24c02
  busy : Bool
  ack : Bool

inductive Direction
  | transmitter | receiver
  deriving DecidableEq, Repr

def Direction.mode : Direction → EepromMode
  | .transmitter => .wordAddress
  | .receiver => .read

namespace I2c

def generateStart (s : I2c) : I2c :=
  { s with
    busy := true
    eeprom := { s.eeprom with mode := .idle } }

/-- The device acknowledges its address unless it is in a write cycle. -/
def send7bitAddress (dir : Direction) (s : I2c) : Bool × I2c :=
  if 0 < s.eeprom.cycle then
    (false, { s with eeprom := { s.eeprom with cycle := s.eeprom.cycle - 1 } })
  else (true, { s with eeprom := { s.eeprom with mode := dir.mode } })

/-- The address, and the wait for the event that comes only with an
acknowledge. -/
def select (dir : Direction) (s : I2c) : Option I2c :=
  match s.send7bitAddress dir with
  | (true, s) => some s
  | (false, _) => none

def sendData (b : UInt8) (s : I2c) : I2c :=
  match s.eeprom.mode with
  | .wordAddress =>
    { s with eeprom := { s.eeprom with pointer := b.toNat, mode := .data false } }
  | .data _ =>
    { s with
      eeprom := { s.eeprom with
        mem := Function.update s.eeprom.mem s.eeprom.pointer b
        pointer := next i2cPageSize s.eeprom.pointer
        mode := .data true } }
  | _ => s

def receiveData (s : I2c) : UInt8 × I2c :=
  (s.eeprom.mem s.eeprom.pointer,
    { s with eeprom := { s.eeprom with pointer := (s.eeprom.pointer + 1) % 256 } })

/-- A STOP after written bytes starts a write cycle. -/
def generateStop (s : I2c) : I2c :=
  let eeprom :=
    if s.eeprom.mode = .data true then
      { s.eeprom with cycle := s.eeprom.cycles 0, cycles := advance s.eeprom.cycles 1 }
    else s.eeprom
  { s with
    busy := false
    eeprom := { eeprom with mode := .idle } }

/-- The bus is free and no write cycle is under way. -/
structure Standby (s : I2c) : Prop where
  busy : s.busy = false
  cycle : s.eeprom.cycle = 0

section Select

variable {s : I2c}

theorem select_of_standby (dir : Direction) (h : s.eeprom.cycle = 0) :
    s.select dir = some { s with eeprom := { s.eeprom with mode := dir.mode } } := by
  simp [select, send7bitAddress, h]

@[simp] theorem generateStop_busy : s.generateStop.busy = false := rfl

@[simp] theorem generateStop_mem : s.generateStop.eeprom.mem = s.eeprom.mem := by
  rw [generateStop]
  split_ifs <;> rfl

@[simp] theorem generateStop_pointer : s.generateStop.eeprom.pointer = s.eeprom.pointer := by
  rw [generateStop]
  split_ifs <;> rfl

theorem generateStop_cycle (h : s.eeprom.mode ≠ .data true) :
    s.generateStop.eeprom.cycle = s.eeprom.cycle := by
  rw [generateStop]
  rw [if_neg h]

end Select

end I2c

end EthMange.Eeprom
