import EthMange.Lib.Paint

/-!
# The controller of the display

The driver reaches the controller through four operations: it writes a register,
selects the memory, writes a pixel, and takes the chip select back. A pixel goes where
the cursor stands, in the colour that the driver has for it at that moment, and the
cursor moves one column on. Two registers hold the cursor; which, and how, depends on
the controller.
-/

namespace EthMange.Lcd

open Paint (paint)

/-- A pixel: its row and its column. -/
abbrev Cell := ℕ × ℕ

/-- The colour of a pixel, by the variable it is read from. -/
inductive Ink
  | text
  | back
deriving DecidableEq

inductive LcdOp
  | writeReg (reg : UInt8) (value : UInt16)
  | writeRamPrepare
  | writeRam (ink : Ink)
  | setCs
deriving DecidableEq

/-- The controller, with the two colours of the driver. -/
structure Display where
  row : ℕ
  col : ℕ
  selected : UInt8
  chipSelected : Bool
  memory : Cell → UInt16
  textColor : UInt16
  backColor : UInt16

/-- The colours that the driver starts with, and a dark screen. -/
def displayInit : Display := ⟨0, 0, 0, false, fun _ => 0, 0x0000, 0xFFFF⟩

def lcdReg34 : UInt8 := 0x22

def Display.color (d : Display) : Ink → UInt16
  | .text => d.textColor
  | .back => d.backColor

/-- The registers of the cursor, for the `DeviceIdCode` that the controller has. -/
def Display.setReg (deviceIdCode : UInt16) (d : Display) (reg : UInt8) (value : UInt16) :
    Display :=
  if deviceIdCode = 0x8989 ∨ deviceIdCode = 0x9919 then
    if reg = 0x4e then { d with row := value.toNat }
    else if reg = 0x4f then { d with col := value.toNat }
    else d
  else if deviceIdCode = 0x9320 ∨ deviceIdCode = 0x1505 then
    if reg = 0x20 then { d with row := value.toNat }
    else if reg = 0x21 then { d with col := (0x13f - value).toNat }
    else d
  else
    if reg = 0x20 then { d with col := value.toNat }
    else if reg = 0x21 then { d with row := (0x13f - value).toNat }
    else d

/-- Without the chip select a write is not seen. -/
def Display.exec (deviceIdCode : UInt16) (d : Display) : LcdOp → Display
  | .writeReg reg value =>
    { d.setReg deviceIdCode reg value with selected := reg, chipSelected := false }
  | .writeRamPrepare => { d with selected := lcdReg34, chipSelected := true }
  | .writeRam ink =>
    if d.chipSelected then
      if d.selected = lcdReg34 then
        { d with
          memory := Function.update d.memory (d.row, d.col) (d.color ink)
          col := d.col + 1 }
      else d.setReg deviceIdCode d.selected (d.color ink)
    else d
  | .setCs => { d with chipSelected := false }

def Display.run (deviceIdCode : UInt16) (d : Display) (ops : List LcdOp) : Display :=
  ops.foldl (Display.exec deviceIdCode) d

/-- `LCD_SetCursor`. -/
def lcdSetCursor (deviceIdCode : UInt16) (xpos : UInt8) (ypos : UInt16) : List LcdOp :=
  if deviceIdCode = 0x8989 then [.writeReg 0x4e xpos.toUInt16, .writeReg 0x4f ypos]
  else if deviceIdCode = 0x9320 then
    [.writeReg 0x20 xpos.toUInt16, .writeReg 0x21 (0x13f - ypos)]
  else if deviceIdCode = 0x9919 then [.writeReg 0x4e xpos.toUInt16, .writeReg 0x4f ypos]
  else if deviceIdCode = 0x1505 then
    [.writeReg 0x20 xpos.toUInt16, .writeReg 0x21 (0x13f - ypos)]
  else [.writeReg 0x20 ypos, .writeReg 0x21 (0x13f - xpos.toUInt16)]

/-- What an operation writes to the memory. -/
def Display.written (d : Display) : LcdOp → List (Cell × UInt16)
  | .writeRam ink =>
    if d.chipSelected ∧ d.selected = lcdReg34 then [((d.row, d.col), d.color ink)] else []
  | _ => []

/-- What a list of operations writes to the memory. -/
def Display.writes (deviceIdCode : UInt16) (d : Display) : List LcdOp → List (Cell × UInt16)
  | [] => []
  | op :: ops => d.written op ++ Display.writes deviceIdCode (d.exec deviceIdCode op) ops

section Controller

variable {deviceIdCode : UInt16} {d : Display}

@[simp] theorem run_nil : d.run deviceIdCode [] = d := rfl

@[simp] theorem run_cons (op : LcdOp) (ops : List LcdOp) :
    d.run deviceIdCode (op :: ops) = (d.exec deviceIdCode op).run deviceIdCode ops := rfl

theorem run_append (ops ops' : List LcdOp) :
    d.run deviceIdCode (ops ++ ops') = (d.run deviceIdCode ops).run deviceIdCode ops' :=
  List.foldl_append

@[simp] theorem writes_nil : d.writes deviceIdCode [] = [] := rfl

@[simp] theorem writes_cons (op : LcdOp) (ops : List LcdOp) :
    d.writes deviceIdCode (op :: ops) =
      d.written op ++ (d.exec deviceIdCode op).writes deviceIdCode ops := rfl

theorem writes_append (ops ops' : List LcdOp) :
    d.writes deviceIdCode (ops ++ ops') =
      d.writes deviceIdCode ops ++ (d.run deviceIdCode ops).writes deviceIdCode ops' := by
  induction ops generalizing d with
  | nil => rfl
  | cons op ops ih => rw [List.cons_append, writes_cons, ih, writes_cons, run_cons,
      List.append_assoc]

@[simp] theorem setReg_memory (reg : UInt8) (value : UInt16) :
    (d.setReg deviceIdCode reg value).memory = d.memory := by
  rw [Display.setReg]
  split_ifs <;> rfl

@[simp] theorem setReg_color (reg : UInt8) (value : UInt16) (ink : Ink) :
    (d.setReg deviceIdCode reg value).color ink = d.color ink := by
  rw [Display.setReg]
  cases ink <;> split_ifs <;> rfl

/-- The memory is what the writes make of it. -/
theorem exec_memory (op : LcdOp) :
    (d.exec deviceIdCode op).memory = paint d.memory (d.written op) := by
  cases op with
  | writeReg reg value => exact setReg_memory reg value
  | writeRamPrepare => rfl
  | setCs => rfl
  | writeRam ink =>
    rw [Display.exec, Display.written]
    by_cases hcs : d.chipSelected = true
    · by_cases hreg : d.selected = lcdReg34
      · simp [hcs, hreg]
      · simp [hcs, hreg]
    · simp [hcs]

theorem run_memory (ops : List LcdOp) :
    (d.run deviceIdCode ops).memory = paint d.memory (d.writes deviceIdCode ops) := by
  induction ops generalizing d with
  | nil => rfl
  | cons op ops ih => rw [run_cons, ih, exec_memory, writes_cons, Paint.paint_append]

/-- No operation changes the colours. -/
theorem exec_color (op : LcdOp) (ink : Ink) :
    (d.exec deviceIdCode op).color ink = d.color ink := by
  cases op with
  | writeReg reg value => exact setReg_color reg value ink
  | writeRamPrepare => cases ink <;> rfl
  | setCs => cases ink <;> rfl
  | writeRam ink' =>
    rw [Display.exec]
    split_ifs
    · cases ink <;> rfl
    · exact setReg_color _ _ ink
    · rfl

theorem run_color (ops : List LcdOp) (ink : Ink) :
    (d.run deviceIdCode ops).color ink = d.color ink := by
  induction ops generalizing d with
  | nil => rfl
  | cons op ops ih => rw [run_cons, ih, exec_color]

/-- What is written is a colour of the driver. -/
theorem exists_color_of_mem_writes {ops : List LcdOp} {w : Cell × UInt16}
    (h : w ∈ d.writes deviceIdCode ops) : ∃ ink, w.2 = d.color ink := by
  induction ops generalizing d with
  | nil => exact absurd h List.not_mem_nil
  | cons op ops ih =>
    rw [writes_cons] at h
    obtain hhere | hrest := List.mem_append.mp h
    · cases op with
      | writeRam ink =>
        rw [Display.written] at hhere
        split_ifs at hhere
        · exact ⟨ink, congrArg Prod.snd (List.mem_singleton.mp hhere)⟩
        · exact absurd hhere List.not_mem_nil
      | writeReg reg value => exact absurd hhere List.not_mem_nil
      | writeRamPrepare => exact absurd hhere List.not_mem_nil
      | setCs => exact absurd hhere List.not_mem_nil
    · obtain ⟨ink, hink⟩ := ih hrest
      exact ⟨ink, hink.trans (exec_color op ink)⟩

/-- The register that is left selected. -/
def lastReg (deviceIdCode : UInt16) : UInt8 :=
  if deviceIdCode = 0x8989 ∨ deviceIdCode = 0x9919 then 0x4f else 0x21

@[simp] theorem mirror_mirror (v : UInt16) : 0x13f - (0x13f - v) = v := by
  grind

/-- Whatever the controller, the cursor is where the driver means it to be. -/
theorem run_lcdSetCursor (xpos : UInt8) (ypos : UInt16) :
    d.run deviceIdCode (lcdSetCursor deviceIdCode xpos ypos) =
      { d with
        row := xpos.toNat
        col := ypos.toNat
        selected := lastReg deviceIdCode
        chipSelected := false } := by
  rw [lcdSetCursor, lastReg]
  split_ifs <;> simp_all [Display.exec, Display.setReg]

theorem writes_lcdSetCursor (xpos : UInt8) (ypos : UInt16) :
    d.writes deviceIdCode (lcdSetCursor deviceIdCode xpos ypos) = [] := by
  rw [lcdSetCursor]
  split_ifs <;> rfl

end Controller

end EthMange.Lcd
