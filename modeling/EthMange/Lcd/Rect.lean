import EthMange.Lcd.Draw
import EthMange.Lib.Outline

/-!
# Lines and rectangles

`LCD_DrawLine` draws to the right or downwards from where it is told. `LCD_DrawRect` puts
four lines together, of which the last should be the right side; but its column is that of
a rectangle that is drawn to the left.
-/

namespace EthMange.Lcd

open Outline (outline rowSide colSide openSides)

def lcdPixelHeight : ℕ := 240

def lcdDirHorizontal : UInt8 := 0

def lcdDirVertical : UInt8 := 1

section Drawing

variable (deviceIdCode : UInt16)

/-- `LCD_WriteRAMWord`. -/
def lcdWriteRamWord (ink : Ink) : List LcdOp := [.writeRamPrepare, .writeRam ink, .setCs]

/-- The loop of `LCD_DrawLine` for a horizontal line. -/
def horizontalLoop (length : ℕ) : List LcdOp := (List.range length).map fun _ => .writeRam .text

/-- The loop for any other line, with the pixels that are left. -/
def verticalLoop (ypos : UInt16) : ℕ → UInt8 → List LcdOp
  | 0, _ => []
  | left + 1, xpos =>
    lcdWriteRamWord .text ++
      (lcdSetCursor deviceIdCode (xpos + 1) ypos ++ verticalLoop ypos left (xpos + 1))

def lcdDrawLine (xpos : UInt8) (ypos length : UInt16) (direction : UInt8) : List LcdOp :=
  lcdSetCursor deviceIdCode xpos ypos ++
    (if direction = lcdDirHorizontal then .writeRamPrepare :: horizontalLoop length.toNat
      else verticalLoop deviceIdCode ypos length.toNat xpos) ++ [.setCs]

def lcdDrawRect (xpos : UInt8) (ypos : UInt16) (height : UInt8) (width : UInt16) : List LcdOp :=
  lcdDrawLine deviceIdCode xpos ypos width lcdDirHorizontal ++
    lcdDrawLine deviceIdCode (xpos + height) ypos width lcdDirHorizontal ++
    lcdDrawLine deviceIdCode xpos ypos height.toUInt16 lcdDirVertical ++
    lcdDrawLine deviceIdCode xpos (ypos - width + 1) height.toUInt16 lcdDirVertical

end Drawing

/-- The pixels that are written. -/
def Display.painted (deviceIdCode : UInt16) (d : Display) (ops : List LcdOp) : Set Cell :=
  {cell | ∃ w ∈ d.writes deviceIdCode ops, w.1 = cell}

def screen : Set Cell := {cell | cell.1 < lcdPixelHeight ∧ cell.2 < lcdPixelWidth}

section Lines

variable {deviceIdCode : UInt16} {d : Display} {ops ops' : List LcdOp}

theorem painted_append : d.painted deviceIdCode (ops ++ ops') =
    d.painted deviceIdCode ops ∪ (d.run deviceIdCode ops).painted deviceIdCode ops' := by
  ext cell
  show (∃ w ∈ Display.writes _ _ _, w.1 = cell) ↔
    (∃ w ∈ Display.writes _ _ _, w.1 = cell) ∨ ∃ w ∈ Display.writes _ _ _, w.1 = cell
  simp only [writes_append, List.mem_append, or_and_right, exists_or]

/-- What is not painted stays as it was. -/
theorem memory_of_not_painted {cell : Cell} (h : cell ∉ d.painted deviceIdCode ops) :
    (d.run deviceIdCode ops).memory cell = d.memory cell := by
  rw [run_memory]
  exact Paint.paint_of_forall_ne fun w hw heq => h ⟨w, hw, heq⟩

theorem writes_lcdDrawLine_horizontal (xpos : UInt8) (ypos length : UInt16) :
    d.writes deviceIdCode (lcdDrawLine deviceIdCode xpos ypos length lcdDirHorizontal) =
      (List.range length.toNat).map fun i => ((xpos.toNat, ypos.toNat + i), d.textColor) := by
  have hprepared : Prepared ((d.run deviceIdCode (lcdSetCursor deviceIdCode xpos ypos)).exec
      deviceIdCode .writeRamPrepare) := ⟨rfl, rfl⟩
  have hpixels := (@writes_pixels deviceIdCode _ hprepared (fun _ => .text) length.toNat).2
  rw [lcdDrawLine, if_pos rfl, horizontalLoop, List.append_assoc, List.cons_append, writes_append,
    writes_lcdSetCursor, writes_cons, writes_append, hpixels, run_lcdSetCursor]
  exact List.append_nil _

/-- A word of the memory, at the cursor. -/
theorem writes_lcdWriteRamWord (ink : Ink) :
    d.writes deviceIdCode (lcdWriteRamWord ink) = [((d.row, d.col), d.color ink)] := by
  have hprepared : Prepared (d.exec deviceIdCode .writeRamPrepare) := ⟨rfl, rfl⟩
  rw [lcdWriteRamWord, writes_cons, writes_cons, written_pixel hprepared, exec_color]
  rfl

theorem writes_verticalLoop (ypos : UInt16) (left : ℕ) (xpos : UInt8) :
    d.writes deviceIdCode
      (lcdSetCursor deviceIdCode xpos ypos ++ verticalLoop deviceIdCode ypos left xpos) =
      (List.range left).map fun j =>
        (((xpos + UInt8.ofNat j).toNat, ypos.toNat), d.textColor) := by
  induction left generalizing d xpos with
  | zero => rw [verticalLoop, List.append_nil, writes_lcdSetCursor]; rfl
  | succ left ih =>
    have hfirst : xpos + UInt8.ofNat 0 = xpos := by simp
    have hcolor : ∀ ops, (d.run deviceIdCode ops).textColor = d.textColor := fun ops =>
      run_color ops .text
    rw [verticalLoop, writes_append, writes_lcdSetCursor, writes_append, writes_lcdWriteRamWord, ih,
      ← run_append, hcolor, run_lcdSetCursor, List.range_succ_eq_map, List.map_cons, List.map_map,
      hfirst]
    simp only [Function.comp_def, nextRow, Nat.succ_eq_add_one]
    rfl

theorem writes_lcdDrawLine_vertical (xpos : UInt8) (ypos length : UInt16) :
    d.writes deviceIdCode (lcdDrawLine deviceIdCode xpos ypos length lcdDirVertical) =
      (List.range length.toNat).map fun j =>
        (((xpos + UInt8.ofNat j).toNat, ypos.toNat), d.textColor) := by
  rw [lcdDrawLine, if_neg (by decide), writes_append, writes_verticalLoop]
  exact List.append_nil _

/-- A horizontal line goes to the right. -/
theorem painted_horizontal (xpos : UInt8) (ypos : UInt16) {length : UInt16}
    (hlength : 1 ≤ length.toNat) :
    d.painted deviceIdCode (lcdDrawLine deviceIdCode xpos ypos length lcdDirHorizontal) =
      rowSide xpos.toNat ypos.toNat (ypos.toNat + length.toNat - 1) := by
  ext ⟨row, col⟩
  show (∃ w ∈ Display.writes _ _ _, w.1 = _) ↔ row = _ ∧ _ ≤ col ∧ col ≤ _
  rw [writes_lcdDrawLine_horizontal]
  constructor
  · rintro ⟨w, hw, hcell⟩
    obtain ⟨i, hi, rfl⟩ := List.mem_map.mp hw
    obtain ⟨rfl, rfl⟩ := Prod.mk.inj hcell
    have hi' := List.mem_range.mp hi
    exact ⟨rfl, by omega, by omega⟩
  · rintro ⟨rfl, hle, hlt⟩
    refine ⟨_, List.mem_map.mpr ⟨col - ypos.toNat, List.mem_range.mpr (by omega), rfl⟩, ?_⟩
    exact Prod.ext rfl (Nat.add_sub_cancel' hle)

/-- Any other line goes downwards. -/
theorem painted_vertical {xpos : UInt8} (ypos : UInt16) {length : UInt16}
    (hlength : xpos.toNat + length.toNat ≤ 256) :
    d.painted deviceIdCode (lcdDrawLine deviceIdCode xpos ypos length lcdDirVertical) =
      colSide xpos.toNat (xpos.toNat + length.toNat) ypos.toNat := by
  have hrow : ∀ j < length.toNat, (xpos + UInt8.ofNat j).toNat = xpos.toNat + j := by
    intro j hj
    rw [UInt8.toNat_add, UInt8.toNat_ofNat']
    omega
  ext ⟨row, col⟩
  show (∃ w ∈ Display.writes _ _ _, w.1 = _) ↔ (_ ≤ row ∧ row < _) ∧ col = _
  rw [writes_lcdDrawLine_vertical]
  constructor
  · rintro ⟨w, hw, hcell⟩
    obtain ⟨j, hj, rfl⟩ := List.mem_map.mp hw
    obtain ⟨rfl, rfl⟩ := Prod.mk.inj hcell
    have hj' := List.mem_range.mp hj
    rw [hrow j hj']
    exact ⟨⟨by omega, by omega⟩, rfl⟩
  · rintro ⟨⟨hle, hlt⟩, rfl⟩
    have hj : row - xpos.toNat < length.toNat := by omega
    refine ⟨_, List.mem_map.mpr ⟨row - xpos.toNat, List.mem_range.mpr hj, rfl⟩, ?_⟩
    exact Prod.ext ((hrow _ hj).trans (Nat.add_sub_cancel' hle)) rfl

end Lines

section Rect

variable {deviceIdCode : UInt16} {d : Display} {xpos : UInt8} {ypos : UInt16} {height : UInt8}
  {width : UInt16}

/-- Three sides of the rectangle, and a fourth in the column that the code has for it. -/
theorem painted_lcdDrawRect (hwidth : 1 ≤ width.toNat)
    (hrows : xpos.toNat + height.toNat < lcdPixelHeight) :
    d.painted deviceIdCode (lcdDrawRect deviceIdCode xpos ypos height width) =
      openSides xpos.toNat (xpos.toNat + height.toNat) ypos.toNat
          (ypos.toNat + width.toNat - 1) ∪
        colSide xpos.toNat (xpos.toNat + height.toNat) (ypos - width + 1).toNat := by
  rw [lcdPixelHeight] at hrows
  have hbottom : (xpos + height).toNat = xpos.toNat + height.toNat := by
    rw [UInt8.toNat_add]
    omega
  have hlength : height.toUInt16.toNat = height.toNat := UInt8.toNat_toUInt16 height
  have hside : xpos.toNat + height.toUInt16.toNat ≤ 256 := by omega
  rw [lcdDrawRect, painted_append, painted_append, painted_append, painted_horizontal _ _ hwidth,
    painted_horizontal _ _ hwidth, painted_vertical _ hside, painted_vertical _ hside, hbottom,
    hlength]
  rfl

/-- Everything is painted in the colour of the text. -/
theorem memory_of_painted {cell : Cell}
    (h : cell ∈ d.painted deviceIdCode (lcdDrawRect deviceIdCode xpos ypos height width)) :
    (d.run deviceIdCode (lcdDrawRect deviceIdCode xpos ypos height width)).memory cell =
      d.textColor := by
  have hcolor : ∀ ops, (d.run deviceIdCode ops).textColor = d.textColor := fun ops =>
    run_color ops .text
  have htext : ∀ w ∈ d.writes deviceIdCode (lcdDrawRect deviceIdCode xpos ypos height width),
      w.2 = d.textColor := by
    rw [lcdDrawRect]
    simp only [writes_append, writes_lcdDrawLine_horizontal, writes_lcdDrawLine_vertical, hcolor,
      List.mem_append, List.mem_map]
    rintro w (((⟨i, -, rfl⟩ | ⟨i, -, rfl⟩) | ⟨i, -, rfl⟩) | ⟨i, -, rfl⟩) <;> rfl
  rw [run_memory]
  exact Paint.paint_of_forall_eq htext h

end Rect

/-- The outline of the rectangle is painted, and nothing else. -/
def ClosedOutline (deviceIdCode : UInt16) (d : Display) (xpos : UInt8) (ypos : UInt16)
    (height : UInt8) (width : UInt16) : Prop :=
  d.painted deviceIdCode (lcdDrawRect deviceIdCode xpos ypos height width) =
    outline xpos.toNat (xpos.toNat + height.toNat) ypos.toNat (ypos.toNat + width.toNat - 1)

/-- Of the screen the outline of the rectangle is painted, and nothing else. -/
def ClosedOnScreen (deviceIdCode : UInt16) (d : Display) (xpos : UInt8) (ypos : UInt16)
    (height : UInt8) (width : UInt16) : Prop :=
  d.painted deviceIdCode (lcdDrawRect deviceIdCode xpos ypos height width) ∩ screen =
    outline xpos.toNat (xpos.toNat + height.toNat) ypos.toNat (ypos.toNat + width.toNat - 1)

section Closed

variable {deviceIdCode : UInt16} {d : Display} {xpos : UInt8} {ypos : UInt16} {height : UInt8}
  {width : UInt16}

/-- The column of the fourth side is the right one only if it is the left one too. -/
theorem fourth_column (hwidth : 1 ≤ width.toNat)
    (hcols : ypos.toNat + width.toNat ≤ lcdPixelWidth) :
    ((ypos - width + 1).toNat = ypos.toNat + width.toNat - 1 ↔ width.toNat = 1) ∧
      ((ypos - width + 1).toNat ∈ Set.Icc ypos.toNat (ypos.toNat + width.toNat - 1) →
        width.toNat = 1) ∧
      ((ypos - width + 1).toNat < lcdPixelWidth ↔ width.toNat ≤ ypos.toNat + 1) := by
  rw [lcdPixelWidth] at hcols ⊢
  rw [Set.mem_Icc, UInt16.toNat_add, UInt16.toNat_sub, UInt16.toNat_one]
  refine ⟨?_, ?_, ?_⟩ <;> omega

/-- The outline lies on the screen. -/
theorem outline_subset_screen (hwidth : 1 ≤ width.toNat)
    (hrows : xpos.toNat + height.toNat < lcdPixelHeight)
    (hcols : ypos.toNat + width.toNat ≤ lcdPixelWidth) :
    outline xpos.toNat (xpos.toNat + height.toNat) ypos.toNat
      (ypos.toNat + width.toNat - 1) ⊆ screen := by
  intro cell hcell
  obtain ⟨⟨-, hrow⟩, ⟨-, hcol⟩, -⟩ := Outline.mem_outline.mp hcell
  exact ⟨by omega, by omega⟩

/-- With four sides the outline is closed for a single column only. -/
theorem sides_closed_iff (hheight : 1 ≤ height.toNat) (hwidth : 1 ≤ width.toNat)
    (hcols : ypos.toNat + width.toNat ≤ lcdPixelWidth) :
    openSides xpos.toNat (xpos.toNat + height.toNat) ypos.toNat
          (ypos.toNat + width.toNat - 1) ∪
        colSide xpos.toNat (xpos.toNat + height.toNat) (ypos - width + 1).toNat =
      outline xpos.toNat (xpos.toNat + height.toNat) ypos.toNat
        (ypos.toNat + width.toNat - 1) ↔ width.toNat = 1 := by
  obtain ⟨hright, hinside, -⟩ := fourth_column hwidth hcols
  rw [Outline.sides_eq_outline_iff (by omega) (by omega), hright]
  constructor
  · rintro (hone | ⟨-, hcol⟩)
    · exact hone
    · exact hinside hcol
  · exact .inl

end Closed

/-- The outline of a rectangle is closed only if it is a single column. If it lies at the
left edge of the screen, so that the fourth side is off the screen, then on the screen it is
closed as well if it has no interior row. -/
theorem rect_closed_iff (deviceIdCode : UInt16) (d : Display) {xpos : UInt8} {ypos : UInt16}
    {height : UInt8} {width : UInt16} (hheight : 1 ≤ height.toNat) (hwidth : 1 ≤ width.toNat)
    (hrows : xpos.toNat + height.toNat < lcdPixelHeight)
    (hcols : ypos.toNat + width.toNat ≤ lcdPixelWidth) :
    (ClosedOutline deviceIdCode d xpos ypos height width ↔ width.toNat = 1) ∧
      (ClosedOnScreen deviceIdCode d xpos ypos height width ↔
        width.toNat = 1 ∨ height.toNat = 1 ∧ ypos.toNat + 1 < width.toNat) := by
  have hsides := @sides_closed_iff xpos ypos height width hheight hwidth hcols
  have hscreen := outline_subset_screen hwidth hrows hcols
  have hopen := (Outline.openSides_subset (by omega) (by omega)).trans hscreen
  obtain ⟨-, -, hcolumn⟩ := fourth_column hwidth hcols
  rw [ClosedOutline, ClosedOnScreen, painted_lcdDrawRect hwidth hrows]
  refine ⟨hsides, ?_⟩
  rw [Set.union_inter_distrib_right, Set.inter_eq_left.mpr hopen]
  by_cases hon : width.toNat ≤ ypos.toNat + 1
  · -- the fourth side is on the screen
    have hside : colSide xpos.toNat (xpos.toNat + height.toNat) (ypos - width + 1).toNat ⊆
        screen := by
      rintro ⟨row, col⟩ ⟨hrow, rfl⟩
      exact ⟨hrow.2.trans hrows, hcolumn.mpr hon⟩
    rw [Set.inter_eq_left.mpr hside, hsides]
    omega
  · have hside : colSide xpos.toNat (xpos.toNat + height.toNat) (ypos - width + 1).toNat ∩
        screen = ∅ := by
      rw [Set.eq_empty_iff_forall_notMem]
      rintro ⟨row, col⟩ ⟨⟨-, rfl⟩, -, hcol⟩
      exact hon (hcolumn.mp hcol)
    rw [hside, Set.union_empty, Outline.openSides_eq_outline_iff (by omega) (by omega),
      Nat.covBy_iff_add_one_eq]
    omega

theorem rect_closed_column : ClosedOutline 0x9320 displayInit 20 5 7 1 :=
  (rect_closed_iff 0x9320 displayInit (by decide) (by decide) (by decide) (by decide)).1.mpr rfl

/-- The last of the blocks that `tcp_client_connected` draws: its right side is drawn at
column 11 and not at 129. -/
theorem rect_left_open : ¬ ClosedOutline 0x9320 displayInit 180 70 40 60 := by
  intro h
  have hmem : ((200, 129) : Cell) ∈ outline 180 220 70 129 :=
    Outline.right_mem_outline ⟨by decide, by decide⟩ (by decide)
  rw [ClosedOutline, painted_lcdDrawRect (by decide) (by decide)] at h
  obtain hopen | hside := h.ge hmem
  · have hleft := Outline.eq_left_of_mem_openSides ⟨by decide, by decide⟩ hopen
    exact absurd hleft (by decide)
  · exact absurd hside.2 (by decide)

end EthMange.Lcd
