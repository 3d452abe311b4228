import EthMange.Lcd.Controller
import EthMange.Lwip.Pbuf

/-!
# Characters and lines of text

`LCD_DrawChar` puts the cursor at the start of every row of a glyph and writes the
row from left to right. `LCD_DisplayStringLine` walks the columns upwards from 0 and
`LCD_ClearLine` downwards from 319.
-/

namespace EthMange.Lcd

/-- A font. The first glyph of its table, that of the space, is blank. -/
structure Font where
  table : ℕ → UInt16
  width : UInt16
  height : UInt16
  width_pos : 0 < width.toNat
  space : ∀ i < height.toNat, table i = 0

def lcdPixelWidth : ℕ := 320

/-- The variable that the colour of a pixel of a glyph is read from. -/
def inkOf (bits : UInt16) (i : ℕ) : Ink := if bits.toNat.testBit i then .text else .back

section Drawing

variable (deviceIdCode : UInt16) (font : Font)

/-- The inner loop of `LCD_DrawChar`. -/
def glyphRow (bits : UInt16) : List LcdOp :=
  (List.range font.width.toNat).map fun i => .writeRam (inkOf bits i)

/-- The outer loop of `LCD_DrawChar`, with the rows that are left. -/
def drawRows (ypos : UInt16) (c : ℕ → UInt16) : ℕ → ℕ → UInt8 → List LcdOp
  | _, 0, _ => []
  | index, left + 1, xaddress =>
    .writeRamPrepare :: glyphRow font (c index) ++ .setCs ::
      lcdSetCursor deviceIdCode (xaddress + 1) ypos ++
        drawRows ypos c (index + 1) left (xaddress + 1)

/-- A row that starts by putting the cursor in its place. -/
def rowOps (xpos : UInt8) (ypos bits : UInt16) : List LcdOp :=
  lcdSetCursor deviceIdCode xpos ypos ++ .writeRamPrepare :: (glyphRow font bits ++ [.setCs])

def lcdDrawChar (xpos : UInt8) (ypos : UInt16) (c : ℕ → UInt16) : List LcdOp :=
  lcdSetCursor deviceIdCode xpos ypos ++
    drawRows deviceIdCode font ypos c 0 font.height.toNat xpos

def lcdDisplayChar (line : UInt8) (column : UInt16) (ascii : UInt8) : List LcdOp :=
  lcdDrawChar deviceIdCode font line column fun index =>
    font.table ((ascii - 32).toNat * font.height.toNat + index)

/-- The loop of `LCD_DisplayStringLine`. -/
def stringLoop (line : UInt8) : UInt16 → Bytes → List LcdOp
  | _, [] => []
  | refcolumn, ch :: ptr =>
    if ch = 0 then []
    else
      lcdDisplayChar deviceIdCode font line refcolumn ch ++
        if (refcolumn + font.width).toNat + font.width.toNat > lcdPixelWidth then []
        else stringLoop line (refcolumn + font.width) ptr

/-- The string ends at its first zero. -/
def lcdDisplayStringLine (line : UInt8) (ptr : Bytes) : List LcdOp :=
  stringLoop deviceIdCode font line 0 ptr

/-- The loop of `LCD_ClearLine`. -/
def clearLoop (line : UInt8) (refcolumn : UInt16) : List LcdOp :=
  if (refcolumn.toNat + 1) % 65536 ≥ font.width.toNat then
    lcdDisplayChar deviceIdCode font line refcolumn 32 ++ clearLoop line (refcolumn - font.width)
  else []
termination_by (refcolumn.toNat + 1) % 65536
decreasing_by
  have hpos := font.width_pos
  rw [UInt16.toNat_sub]
  omega

def lcdClearLine (line : UInt8) : List LcdOp :=
  clearLoop deviceIdCode font line (UInt16.ofNat (lcdPixelWidth - 1))

end Drawing

/-! ### What is written -/

/-- The pixels of one row of a glyph. -/
def rowWrites (color : Ink → UInt16) (font : Font) (row col : ℕ) (bits : UInt16) :
    List (Cell × UInt16) :=
  (List.range font.width.toNat).map fun i => ((row, col + i), color (inkOf bits i))

/-- The pixels of a glyph. -/
def glyphWrites (color : Ink → UInt16) (font : Font) (xpos : UInt8) (ypos : UInt16)
    (c : ℕ → UInt16) : List (Cell × UInt16) :=
  (List.range font.height.toNat).flatMap fun j =>
    rowWrites color font (xpos + UInt8.ofNat j).toNat ypos.toNat (c j)

section Writes

variable {deviceIdCode : UInt16} {font : Font} {d : Display}

/-- The controller takes pixels. -/
structure Prepared (d : Display) : Prop where
  chipSelected : d.chipSelected = true
  selected : d.selected = lcdReg34

theorem exec_pixel (h : Prepared d) (ink : Ink) :
    d.exec deviceIdCode (.writeRam ink) =
      { d with
        memory := Function.update d.memory (d.row, d.col) (d.color ink)
        col := d.col + 1 } := by
  rw [Display.exec, if_pos h.chipSelected, if_pos h.selected]

theorem written_pixel (h : Prepared d) (ink : Ink) :
    d.written (.writeRam ink) = [((d.row, d.col), d.color ink)] :=
  if_pos ⟨h.chipSelected, h.selected⟩

/-- Where the cursor is after pixels of one row. -/
structure After (d d' : Display) (n : ℕ) : Prop where
  row : d'.row = d.row
  col : d'.col = d.col + n
  prepared : Prepared d'

/-- Pixels are written one beside the other. -/
theorem writes_pixels (h : Prepared d) (ink : ℕ → Ink) (n : ℕ) :
    After d (d.run deviceIdCode ((List.range n).map fun i => .writeRam (ink i))) n ∧
    d.writes deviceIdCode ((List.range n).map fun i => .writeRam (ink i)) =
      (List.range n).map fun i => ((d.row, d.col + i), d.color (ink i)) := by
  induction n with
  | zero => exact ⟨⟨rfl, rfl, h⟩, rfl⟩
  | succ n ih =>
    obtain ⟨hafter, hwrites⟩ := ih
    rw [List.range_succ, List.map_append, List.map_append, writes_append, run_append, hwrites]
    constructor
    · rw [List.map_cons, List.map_nil, run_cons, exec_pixel hafter.prepared]
      refine ⟨hafter.row, ?_, hafter.prepared.chipSelected, hafter.prepared.selected⟩
      show Display.col _ + 1 = _
      rw [hafter.col, Nat.add_assoc]
    · rw [List.map_cons, List.map_nil, writes_cons, written_pixel hafter.prepared, hafter.row,
        hafter.col, run_color]
      rfl

theorem nextRow (x : UInt8) (j : ℕ) : x + UInt8.ofNat (j + 1) = x + 1 + UInt8.ofNat j := by
  rw [UInt8.ofNat_add, UInt8.add_assoc, UInt8.add_comm 1]
  rfl

/-- A glyph is its rows, one below the other, and a last move of the cursor. -/
theorem drawRows_eq (ypos : UInt16) (c : ℕ → UInt16) (left index : ℕ) (xaddress : UInt8) :
    lcdSetCursor deviceIdCode xaddress ypos ++
      drawRows deviceIdCode font ypos c index left xaddress =
    ((List.range left).flatMap fun j =>
      rowOps deviceIdCode font (xaddress + UInt8.ofNat j) ypos (c (index + j))) ++
      lcdSetCursor deviceIdCode (xaddress + UInt8.ofNat left) ypos := by
  induction left generalizing index xaddress with
  | zero => simp [drawRows]
  | succ left ih =>
    have htail : ((List.range left).flatMap fun j => rowOps deviceIdCode font
        (xaddress + UInt8.ofNat (j + 1)) ypos (c (index + (j + 1)))) ++
        lcdSetCursor deviceIdCode (xaddress + UInt8.ofNat (left + 1)) ypos =
        lcdSetCursor deviceIdCode (xaddress + 1) ypos ++
          drawRows deviceIdCode font ypos c (index + 1) left (xaddress + 1) := by
      rw [ih (index + 1) (xaddress + 1), nextRow]
      congr 1
      refine List.flatMap_congr fun j _ => ?_
      rw [nextRow, Nat.add_assoc, Nat.add_comm 1]
    have hfirst : xaddress + UInt8.ofNat 0 = xaddress := by simp
    rw [List.range_succ_eq_map, List.flatMap_cons, List.flatMap_map, List.append_assoc, htail,
      hfirst, drawRows, rowOps]
    simp only [List.append_assoc, List.cons_append, List.nil_append, Nat.add_zero]

theorem lcdDrawChar_eq (xpos : UInt8) (ypos : UInt16) (c : ℕ → UInt16) :
    lcdDrawChar deviceIdCode font xpos ypos c =
      ((List.range font.height.toNat).flatMap fun j =>
        rowOps deviceIdCode font (xpos + UInt8.ofNat j) ypos (c j)) ++
      lcdSetCursor deviceIdCode (xpos + UInt8.ofNat font.height.toNat) ypos := by
  rw [lcdDrawChar, drawRows_eq]
  simp only [Nat.zero_add]

theorem color_run (ops : List LcdOp) : (d.run deviceIdCode ops).color = d.color :=
  funext fun ink => run_color ops ink

theorem writes_prepared (bits : UInt16) :
    d.writes deviceIdCode (.writeRamPrepare :: (glyphRow font bits ++ [.setCs])) =
      rowWrites d.color font d.row d.col bits := by
  have hprepared : Prepared (d.exec deviceIdCode .writeRamPrepare) := ⟨rfl, rfl⟩
  have hcolor : (d.exec deviceIdCode .writeRamPrepare).color = d.color :=
    funext fun ink => exec_color _ ink
  rw [writes_cons, writes_append, glyphRow, (writes_pixels hprepared _ _).2, hcolor]
  exact List.append_nil _

theorem writes_rowOps (xpos : UInt8) (ypos bits : UInt16) :
    d.writes deviceIdCode (rowOps deviceIdCode font xpos ypos bits) =
      rowWrites d.color font xpos.toNat ypos.toNat bits := by
  rw [rowOps, writes_append, writes_lcdSetCursor, List.nil_append, writes_prepared, color_run,
    run_lcdSetCursor]

theorem writes_lcdDrawChar (xpos : UInt8) (ypos : UInt16) (c : ℕ → UInt16) :
    d.writes deviceIdCode (lcdDrawChar deviceIdCode font xpos ypos c) =
      glyphWrites d.color font xpos ypos c := by
  have hrows : ∀ n, d.writes deviceIdCode ((List.range n).flatMap fun j =>
      rowOps deviceIdCode font (xpos + UInt8.ofNat j) ypos (c j)) =
      (List.range n).flatMap fun j =>
        rowWrites d.color font (xpos + UInt8.ofNat j).toNat ypos.toNat (c j) := by
    intro n
    induction n with
    | zero => rfl
    | succ n ih =>
      rw [List.range_succ, List.flatMap_append, List.flatMap_append, List.flatMap_singleton,
        List.flatMap_singleton, writes_append, ih, writes_rowOps, color_run]
  rw [lcdDrawChar_eq, writes_append, hrows, writes_lcdSetCursor, List.append_nil, glyphWrites]

theorem writes_lcdDisplayChar (line : UInt8) (column : UInt16) (ascii : UInt8) :
    d.writes deviceIdCode (lcdDisplayChar deviceIdCode font line column ascii) =
      glyphWrites d.color font line column fun index =>
        font.table ((ascii - 32).toNat * font.height.toNat + index) :=
  writes_lcdDrawChar line column _

/-- A row of the band of a line. -/
def BandRow (font : Font) (line : UInt8) (row : ℕ) : Prop :=
  ∃ j < font.height.toNat, row = (line + UInt8.ofNat j).toNat

theorem mem_rowWrites {color : Ink → UInt16} {row col : ℕ} {bits : UInt16}
    {w : Cell × UInt16} (h : w ∈ rowWrites color font row col bits) :
    w.1.1 = row ∧ col ≤ w.1.2 ∧ w.1.2 < col + font.width.toNat := by
  obtain ⟨i, hi, rfl⟩ := List.mem_map.mp h
  exact ⟨rfl, Nat.le_add_right _ _, Nat.add_lt_add_left (List.mem_range.mp hi) _⟩

theorem mem_glyphWrites {color : Ink → UInt16} {xpos : UInt8} {ypos : UInt16} {c : ℕ → UInt16}
    {w : Cell × UInt16} (h : w ∈ glyphWrites color font xpos ypos c) :
    BandRow font xpos w.1.1 ∧ ypos.toNat ≤ w.1.2 ∧ w.1.2 < ypos.toNat + font.width.toNat := by
  obtain ⟨j, hj, hw⟩ := List.mem_flatMap.mp h
  obtain ⟨hrow, hcol⟩ := mem_rowWrites hw
  exact ⟨⟨j, List.mem_range.mp hj, hrow⟩, hcol⟩

/-- Every cell of the block is written. -/
theorem exists_glyphWrites {color : Ink → UInt16} {xpos : UInt8} {ypos : UInt16}
    {c : ℕ → UInt16} {cell : Cell} (hrow : BandRow font xpos cell.1)
    (hle : ypos.toNat ≤ cell.2) (hlt : cell.2 < ypos.toNat + font.width.toNat) :
    ∃ w ∈ glyphWrites color font xpos ypos c, w.1 = cell := by
  obtain ⟨j, hj, hj'⟩ := hrow
  refine ⟨(cell, color (inkOf (c j) (cell.2 - ypos.toNat))), ?_, rfl⟩
  refine List.mem_flatMap.mpr ⟨j, List.mem_range.mpr hj, List.mem_map.mpr
    ⟨cell.2 - ypos.toNat, List.mem_range.mpr (by omega), ?_⟩⟩
  rw [← hj', Nat.add_sub_cancel' hle]

end Writes

end EthMange.Lcd
