import EthMange.Lcd.Layout
import EthMange.Keys.Debounce

/-!
# A line of text under the tick interrupt

`SysTick_Handler` runs `Key_315M_Wireless_Display`, which may draw a line of its own
between any two operations of a line that the main loop draws. It puts the two colours
back, but not the cursor and the selected register of the controller.
-/

namespace EthMange.Lcd

open Paint (paint)
open Keys (Pins Debounce Report key315MWirelessDisplay)

def lcdColorYellow : UInt16 := 0xFFE0

def lcdColorRed : UInt16 := 0xF800

/-- `LINE(x)`. -/
def lineOf (font : Font) (x : ℕ) : UInt8 := UInt8.ofNat (x * font.height.toNat)

section Interrupt

variable (deviceIdCode : UInt16) (font : Font)

def showReport (d : Display) : Option Report → Display
  | some r => d.run deviceIdCode (lcdDisplayStringLine deviceIdCode font (lineOf font 3) r.message)
  | none => d

/-- `Key_315M_Wireless_Display`, as far as the display goes. -/
def keyDisplay (pins : Pins) (s : Debounce) (d : Display) : Display :=
  let colored : Display := { d with textColor := lcdColorYellow, backColor := lcdColorRed }
  let shown := showReport deviceIdCode font colored (key315MWirelessDisplay pins s).2
  { shown with textColor := d.textColor, backColor := d.backColor }

/-- The line with the interrupt after `n` of its operations. -/
def interrupted (line : UInt8) (ptr : Bytes) (n : ℕ) (pins : Pins) (s : Debounce) (d : Display) :
    Display :=
  let ops := lcdDisplayStringLine deviceIdCode font line ptr
  (keyDisplay deviceIdCode font pins s (d.run deviceIdCode (ops.take n))).run deviceIdCode
    (ops.drop n)

/-- The line is as without the interrupt, and what the interrupt shows as without the
line. -/
structure Undisturbed (line : UInt8) (ptr : Bytes) (n : ℕ) (pins : Pins) (s : Debounce)
    (d : Display) : Prop where
  outside : ∀ cell, ¬ InBand font (lineOf font 3) cell →
    (interrupted deviceIdCode font line ptr n pins s d).memory cell =
      (d.run deviceIdCode (lcdDisplayStringLine deviceIdCode font line ptr)).memory cell
  textColor : (interrupted deviceIdCode font line ptr n pins s d).textColor = d.textColor
  backColor : (interrupted deviceIdCode font line ptr n pins s d).backColor = d.backColor
  band : ∀ cell, InBand font (lineOf font 3) cell →
    (interrupted deviceIdCode font line ptr n pins s d).memory cell =
      (keyDisplay deviceIdCode font pins s d).memory cell

end Interrupt

/-- The controllers of which the row is set first. -/
def RowFirst (deviceIdCode : UInt16) : Prop :=
  deviceIdCode = 0x8989 ∨ deviceIdCode = 0x9320 ∨ deviceIdCode = 0x9919 ∨ deviceIdCode = 0x1505

instance (deviceIdCode : UInt16) : Decidable (RowFirst deviceIdCode) :=
  inferInstanceAs (Decidable (_ ∨ _))

/-- The operations of a row: two for the cursor, one to select the memory, sixteen
pixels, and one to give the chip select back. -/
def rowLength : ℕ := 20

/-- Twenty-four rows and a last move of the cursor. -/
def charLength : ℕ := 24 * rowLength + 2

/-- After `m` operations of a row, what is left of it needs what the interrupt takes
away: the part of the cursor that is set already, or the memory selected. The interrupt
leaves the cursor at row 96 and column 304. -/
def Caught (deviceIdCode : UInt16) (row col m : ℕ) : Prop :=
  (m = 1 ∧ if RowFirst deviceIdCode then row ≠ 96 else col ≠ 304) ∨
    (m = 2 ∧ (row, col) ≠ (96, 304)) ∨ (3 ≤ m ∧ m < 19)

instance (deviceIdCode : UInt16) (row col m : ℕ) : Decidable (Caught deviceIdCode row col m) :=
  inferInstanceAs (Decidable ((m = 1 ∧ if RowFirst deviceIdCode then row ≠ 96 else col ≠ 304) ∨
    (m = 2 ∧ (row, col) ≠ (96, 304)) ∨ (3 ≤ m ∧ m < 19)))

/-- The interrupt comes after `n` operations within a row of the characters that are
drawn of the string, and the row is caught by it. -/
def Exposed (deviceIdCode : UInt16) (x count n : ℕ) : Prop :=
  n < charLength * count ∧ n % charLength < 24 * rowLength ∧
    Caught deviceIdCode (24 * x + n % charLength / rowLength) (16 * (n / charLength))
      (n % charLength % rowLength)

instance (deviceIdCode : UInt16) (x count n : ℕ) : Decidable (Exposed deviceIdCode x count n) :=
  inferInstanceAs (Decidable (_ ∧ _ ∧ _))

/-! ### What the interrupt leaves -/

section Left

variable {deviceIdCode : UInt16} {font : Font} {d : Display} {pins : Pins} {s : Debounce}

/-- What the interrupt writes. -/
def reportWrites (deviceIdCode : UInt16) (font : Font) (pins : Pins) (s : Debounce) :
    List (Cell × UInt16) :=
  match (key315MWirelessDisplay pins s).2 with
  | some r => Display.writes deviceIdCode
      { displayInit with textColor := lcdColorYellow, backColor := lcdColorRed }
      (lcdDisplayStringLine deviceIdCode font (lineOf font 3) r.message)
  | none => []

theorem closed_stringLoop (line : UInt8) (refcolumn : UInt16) (ptr : Bytes) :
    Closed deviceIdCode (stringLoop deviceIdCode font line refcolumn ptr) := by
  induction ptr generalizing refcolumn with
  | nil => exact fun _ _ _ => rfl
  | cons ch ptr ih =>
    rw [stringLoop]
    split_ifs
    · exact fun _ _ _ => rfl
    · exact (closed_lcdDisplayChar line refcolumn ch).append fun _ _ _ => rfl
    · exact (closed_lcdDisplayChar line refcolumn ch).append (ih _)

theorem keyDisplay_memory : (keyDisplay deviceIdCode font pins s d).memory =
    paint d.memory (reportWrites deviceIdCode font pins s) := by
  rw [keyDisplay, reportWrites]
  cases (key315MWirelessDisplay pins s).2 with
  | none => rfl
  | some r =>
    have hclosed := @closed_stringLoop deviceIdCode font
      (lineOf font 3) 0 r.message
      { d with textColor := lcdColorYellow, backColor := lcdColorRed }
      { displayInit with textColor := lcdColorYellow, backColor := lcdColorRed }
      (funext fun ink => by cases ink <;> rfl)
    show (Display.run _ _ _).memory = _
    rw [run_memory]
    exact congrArg (paint d.memory) hclosed

@[simp] theorem keyDisplay_color : (keyDisplay deviceIdCode font pins s d).color = d.color :=
  funext fun ink => by cases ink <;> rfl

end Left

/-! ### Two ways to go on -/

section Resume

variable {deviceIdCode : UInt16} {font : Font} {line : UInt8} {ptr : Bytes} {n : ℕ}
  {pins : Pins} {s : Debounce}

theorem reportWrites_inBand (hwidth : font.width.toNat ∣ lcdPixelWidth) :
    ∀ w ∈ reportWrites deviceIdCode font pins s, InBand font (lineOf font 3) w.1 := by
  intro w hw
  rw [reportWrites] at hw
  split at hw
  · exact drawn_inBand hwidth w hw
  · exact absurd hw List.not_mem_nil

section Memory

variable (deviceIdCode font line ptr n)

/-- The display after the first `n` operations. -/
def before (d : Display) : Display :=
  d.run deviceIdCode ((lcdDisplayStringLine deviceIdCode font line ptr).take n)

/-- What the other operations write from a state on. -/
def later (e : Display) : List (Cell × UInt16) :=
  e.writes deviceIdCode ((lcdDisplayStringLine deviceIdCode font line ptr).drop n)

theorem writes_cut (d : Display) :
    d.writes deviceIdCode (lcdDisplayStringLine deviceIdCode font line ptr) =
      d.writes deviceIdCode ((lcdDisplayStringLine deviceIdCode font line ptr).take n) ++
        later deviceIdCode font line ptr n (before deviceIdCode font line ptr n d) := by
  rw [later, before, ← writes_append, List.take_append_drop]

theorem interrupted_memory (d : Display) :
    (interrupted deviceIdCode font line ptr n pins s d).memory =
      paint (paint (before deviceIdCode font line ptr n d).memory
        (reportWrites deviceIdCode font pins s)) (later deviceIdCode font line ptr n
          (keyDisplay deviceIdCode font pins s (before deviceIdCode font line ptr n d))) := by
  rw [interrupted, run_memory, keyDisplay_memory]
  rfl

theorem line_memory (d : Display) :
    (d.run deviceIdCode (lcdDisplayStringLine deviceIdCode font line ptr)).memory =
      paint (before deviceIdCode font line ptr n d).memory (later deviceIdCode font line ptr n
        (before deviceIdCode font line ptr n d)) := by
  rw [later, ← run_memory, before, ← run_append, List.take_append_drop]

end Memory

/-- What is left of the line writes the same after the interrupt as without it. -/
theorem undisturbed_of_same (hwidth : font.width.toNat ∣ lcdPixelWidth)
    (hline : ∀ cell, InBand font line cell → ¬ InBand font (lineOf font 3) cell) {d : Display}
    (hsame : later deviceIdCode font line ptr n
        (keyDisplay deviceIdCode font pins s (before deviceIdCode font line ptr n d)) =
      later deviceIdCode font line ptr n (before deviceIdCode font line ptr n d)) :
    Undisturbed deviceIdCode font line ptr n pins s d := by
  have hdrawn := @drawn_inBand deviceIdCode font d line ptr hwidth
  rw [writes_cut deviceIdCode font line ptr n, List.forall_mem_append] at hdrawn
  obtain ⟨hfirst, hrest⟩ := hdrawn
  have hcolor : (interrupted deviceIdCode font line ptr n pins s d).color = d.color := by
    rw [interrupted, color_run, keyDisplay_color, color_run]
  refine ⟨fun cell hcell => ?_, congrFun hcolor .text, congrFun hcolor .back,
    fun cell hcell => ?_⟩
  · rw [interrupted_memory, line_memory deviceIdCode font line ptr n, hsame]
    refine Paint.paint_congr (Paint.paint_of_forall_ne fun w hw heq => hcell ?_) _
    exact heq ▸ reportWrites_inBand hwidth w hw
  · have hoff : ∀ w : Cell × UInt16, InBand font line w.1 → w.1 ≠ cell := fun w hw heq =>
      hline w.1 hw (heq ▸ hcell)
    rw [interrupted_memory, hsame, keyDisplay_memory,
      Paint.paint_of_forall_ne fun w hw => hoff w (hrest w hw)]
    refine Paint.paint_congr ?_ _
    rw [before, run_memory]
    exact Paint.paint_of_forall_ne fun w hw => hoff w (hfirst w hw)

/-- A pixel that is still to be written, and is not written after the interrupt, shows
it. -/
theorem disturbed_of_missed (hwidth : font.width.toNat ∣ lcdPixelWidth) {p : Cell}
    (hp : ¬ InBand font (lineOf font 3) p)
    (hmissed : ∀ d : Display,
      (∀ w ∈ d.writes deviceIdCode ((lcdDisplayStringLine deviceIdCode font line ptr).take n),
        w.1 ≠ p) ∧
      (∃ w ∈ later deviceIdCode font line ptr n (before deviceIdCode font line ptr n d),
        w.1 = p) ∧
      ∀ w ∈ later deviceIdCode font line ptr n
        (keyDisplay deviceIdCode font pins s (before deviceIdCode font line ptr n d)), w.1 ≠ p) :
    ¬ ∀ d, Undisturbed deviceIdCode font line ptr n pins s d := by
  intro h
  -- everything is drawn in a colour that the screen does not have yet
  let d : Display := { displayInit with memory := fun _ => 1, textColor := 0, backColor := 0 }
  obtain ⟨hfirst, hwritten, hlost⟩ := hmissed d
  have hcolor : ∀ w ∈ later deviceIdCode font line ptr n
      (before deviceIdCode font line ptr n d), w.2 = 0 := by
    intro w hw
    obtain ⟨ink, hink⟩ := exists_color_of_mem_writes hw
    rw [before, color_run] at hink
    rw [hink]
    cases ink <;> rfl
  have hshown : (d.run deviceIdCode
      (lcdDisplayStringLine deviceIdCode font line ptr)).memory p = 0 := by
    rw [line_memory deviceIdCode font line ptr n]
    exact Paint.paint_of_forall_eq hcolor hwritten
  have hreport : ∀ w ∈ reportWrites deviceIdCode font pins s, w.1 ≠ p := fun w hw heq =>
    hp (heq ▸ reportWrites_inBand hwidth w hw)
  have hnot : (interrupted deviceIdCode font line ptr n pins s d).memory p = 1 := by
    rw [interrupted_memory, Paint.paint_of_forall_ne hlost, Paint.paint_of_forall_ne hreport,
      before, run_memory, Paint.paint_of_forall_ne hfirst]
  have hsame := (h d).outside p hp
  rw [hshown, hnot] at hsame
  exact absurd hsame (by decide)

end Resume

/-! ### One row -/

/-- Where a report leaves the controller. -/
structure LeftBy (d : Display) : Prop where
  row : d.row = 96
  col : d.col = 304
  chipSelected : d.chipSelected = false

section Row

variable {deviceIdCode : UInt16} {font : Font} {xpos : UInt8} {ypos bits : UInt16}
  {d e l : Display}

/-- The cursor is set in two steps. After the second one, what the first set is still
where it was. -/
theorem lcdSetCursor_pair (deviceIdCode : UInt16) (xpos : UInt8) (ypos : UInt16) :
    ∃ op op', lcdSetCursor deviceIdCode xpos ypos = [op, op'] ∧ ∀ d : Display,
      d.written op = [] ∧ d.written op' = [] ∧
      (d.exec deviceIdCode op').row =
        (if RowFirst deviceIdCode then d.row else xpos.toNat) ∧
      (d.exec deviceIdCode op').col =
        if RowFirst deviceIdCode then ypos.toNat else d.col := by
  rw [lcdSetCursor]
  split_ifs with h1 h2 h3 h4 <;>
    refine ⟨_, _, rfl, fun d => ⟨rfl, rfl, ?_, ?_⟩⟩ <;>
      simp_all [RowFirst, Display.exec, Display.setReg]

/-- Without the chip select no pixel is written. -/
theorem writes_unselected (h : d.chipSelected = false) (inks : List Ink) :
    d.writes deviceIdCode (inks.map .writeRam ++ [.setCs]) = [] := by
  induction inks with
  | nil => rfl
  | cons ink inks ih =>
    have hexec : d.exec deviceIdCode (.writeRam ink) = d := by
      rw [Display.exec, if_neg (by simp [h])]
    have hwritten : d.written (.writeRam ink) = [] := by
      rw [Display.written, if_neg (by simp [h])]
    rw [List.map_cons, List.cons_append, writes_cons, hexec, hwritten, ih, List.append_nil]

theorem take_glyphRow {q : ℕ} (hq : q ≤ font.width.toNat) :
    (glyphRow font bits).take q = (List.range q).map fun i => .writeRam (inkOf bits i) := by
  rw [glyphRow, ← List.map_take, List.take_range, Nat.min_eq_left hq]

theorem drop_glyphRow {q : ℕ} (hq : q < font.width.toNat) :
    (glyphRow font bits).drop q =
      .writeRam (inkOf bits q) :: (glyphRow font bits).drop (q + 1) := by
  have hlength : q < (glyphRow font bits).length := by simpa [glyphRow] using hq
  rw [List.drop_eq_getElem_cons hlength]
  simp [glyphRow]

/-- The state in a row, after the cursor, the selection and some pixels. -/
theorem after_pixels (d : Display) {q : ℕ} (hq : q ≤ font.width.toNat) :
    let taken := lcdSetCursor deviceIdCode xpos ypos ++
      .writeRamPrepare :: (glyphRow font bits).take q
    (d.run deviceIdCode taken).row = xpos.toNat ∧
      (d.run deviceIdCode taken).col = ypos.toNat + q ∧ Prepared (d.run deviceIdCode taken) ∧
      ∀ w ∈ d.writes deviceIdCode taken, w.1.2 < ypos.toNat + q := by
  have hprepared : Prepared ((d.run deviceIdCode (lcdSetCursor deviceIdCode xpos ypos)).exec
      deviceIdCode .writeRamPrepare) := ⟨rfl, rfl⟩
  obtain ⟨hafter, hwrites⟩ := @writes_pixels deviceIdCode _ hprepared (inkOf bits) q
  rw [← take_glyphRow hq] at hafter hwrites
  dsimp only
  rw [run_append, run_cons]
  refine ⟨?_, ?_, hafter.prepared, fun w hw => ?_⟩
  · rw [hafter.row, run_lcdSetCursor]
    rfl
  · rw [hafter.col, run_lcdSetCursor]
    rfl
  · rw [writes_append, writes_lcdSetCursor, writes_cons, hwrites] at hw
    obtain ⟨i, hi, rfl⟩ := List.mem_map.mp hw
    rw [run_lcdSetCursor]
    exact Nat.add_lt_add_left (List.mem_range.mp hi) _

theorem rowOps_cut {q : ℕ} (hq : q ≤ font.width.toNat) :
    (rowOps deviceIdCode font xpos ypos bits).take (3 + q) =
      lcdSetCursor deviceIdCode xpos ypos ++ .writeRamPrepare :: (glyphRow font bits).take q ∧
    (rowOps deviceIdCode font xpos ypos bits).drop (3 + q) =
      (glyphRow font bits).drop q ++ [.setCs] := by
  obtain ⟨op, op', hpair, -⟩ := lcdSetCursor_pair deviceIdCode xpos ypos
  have hlength : q ≤ (glyphRow font bits).length := by simpa [glyphRow] using hq
  rw [rowOps, hpair, Nat.add_comm 3]
  simp [List.take_append_of_le_length hlength, List.drop_append_of_le_length hlength]

/-- The rest of a row after the first step of the cursor, from any state. -/
theorem writes_second (d : Display) :
    d.writes deviceIdCode ((rowOps deviceIdCode font xpos ypos bits).drop 1) =
      rowWrites d.color font (if RowFirst deviceIdCode then d.row else xpos.toNat)
        (if RowFirst deviceIdCode then ypos.toNat else d.col) bits := by
  obtain ⟨op, op', hpair, hexec⟩ := lcdSetCursor_pair deviceIdCode xpos ypos
  have hcolor : (d.exec deviceIdCode op').color = d.color := funext fun ink => exec_color op' ink
  obtain ⟨-, hwritten, hrow, hcol⟩ := hexec d
  rw [rowOps, hpair]
  show d.writes deviceIdCode (op' :: .writeRamPrepare :: (glyphRow font bits ++ [.setCs])) = _
  rw [writes_cons, hwritten, List.nil_append, writes_prepared, hrow, hcol, hcolor]

theorem writes_third (d : Display) :
    d.writes deviceIdCode ((rowOps deviceIdCode font xpos ypos bits).drop 2) =
      rowWrites d.color font d.row d.col bits := by
  obtain ⟨op, op', hpair, -⟩ := lcdSetCursor_pair deviceIdCode xpos ypos
  rw [rowOps, hpair]
  exact writes_prepared bits

/-- Nothing is written before the pixels. -/
theorem writes_before_pixels (d : Display) {m : ℕ} (hm : m ≤ 2) :
    d.writes deviceIdCode ((rowOps deviceIdCode font xpos ypos bits).take m) = [] ∧
      (d.run deviceIdCode ((rowOps deviceIdCode font xpos ypos bits).take m)).writes deviceIdCode
        ((rowOps deviceIdCode font xpos ypos bits).drop m) =
      rowWrites d.color font xpos.toNat ypos.toNat bits := by
  have hall := @writes_rowOps deviceIdCode font d xpos ypos bits
  rw [← List.take_append_drop m (rowOps deviceIdCode font xpos ypos bits), writes_append] at hall
  have hnone : d.writes deviceIdCode ((rowOps deviceIdCode font xpos ypos bits).take m) = [] := by
    obtain ⟨op, op', hpair, hexec⟩ := lcdSetCursor_pair deviceIdCode xpos ypos
    rw [rowOps, hpair]
    obtain rfl | rfl | rfl : m = 0 ∨ m = 1 ∨ m = 2 := by omega
    · rfl
    · simp [(hexec d).1]
    · simp [(hexec d).1, (hexec (d.exec deviceIdCode op)).2.1]
  rw [hnone, List.nil_append] at hall
  exact ⟨hnone, hall⟩

/-- What is left of the pixels is lost. -/
theorem writes_lost (hl : LeftBy l) (q : ℕ) :
    l.writes deviceIdCode ((glyphRow font bits).drop q ++ [.setCs]) = [] := by
  have hinks : (glyphRow font bits).drop q =
      (((List.range font.width.toNat).map (inkOf bits)).drop q).map .writeRam := by
    rw [List.map_drop, List.map_map]
    rfl
  rw [hinks]
  exact writes_unselected hl.chipSelected _

/-- A row that is not caught goes on as if there had been no interrupt. -/
theorem row_of_not_caught (hl : LeftBy l) (hcolor : l.color = d.color) {m : ℕ}
    (hwidth : font.width.toNat = 16) (hm : m < rowLength)
    (hcaught : ¬ Caught deviceIdCode xpos.toNat ypos.toNat m) :
    l.writes deviceIdCode ((rowOps deviceIdCode font xpos ypos bits).drop m) =
      (d.run deviceIdCode ((rowOps deviceIdCode font xpos ypos bits).take m)).writes deviceIdCode
        ((rowOps deviceIdCode font xpos ypos bits).drop m) := by
  rw [rowLength] at hm
  rw [Caught, not_or, not_or] at hcaught
  obtain ⟨hfirst, hsecond, hpixels⟩ := hcaught
  obtain rfl | rfl | rfl | rfl : m = 0 ∨ m = 1 ∨ m = 2 ∨ m = 3 + 16 := by omega
  · rw [(writes_before_pixels d (by omega)).2, ← hcolor]
    exact writes_rowOps xpos ypos bits
  · rw [(writes_before_pixels d (by omega)).2, writes_second, hcolor, hl.row, hl.col]
    have hkept : ¬ if RowFirst deviceIdCode then xpos.toNat ≠ 96 else ypos.toNat ≠ 304 :=
      fun h => hfirst ⟨rfl, h⟩
    by_cases hrow : RowFirst deviceIdCode
    · rw [if_pos hrow, not_not] at hkept
      rw [if_pos hrow, if_pos hrow, hkept]
    · rw [if_neg hrow, not_not] at hkept
      rw [if_neg hrow, if_neg hrow, hkept]
  · rw [(writes_before_pixels d (by omega)).2, writes_third, hcolor, hl.row, hl.col]
    have hplace : (xpos.toNat, ypos.toNat) = (96, 304) := by
      by_contra hplace
      exact hsecond ⟨rfl, hplace⟩
    obtain ⟨hrow, hcol⟩ := Prod.mk.inj hplace
    rw [hrow, hcol]
  · have hdrop : (glyphRow font bits).drop 16 = [] := by
      rw [List.drop_eq_nil_iff]
      simp [glyphRow, hwidth]
    rw [(rowOps_cut hwidth.ge).2, hdrop]
    rfl

/-- The pixel is not drawn before the cut, it is drawn after it, and from what the
interrupt leaves it is not. -/
structure Missed (deviceIdCode : UInt16) (cell : Cell) (first last : List LcdOp)
    (d l : Display) : Prop where
  before : ∀ w ∈ d.writes deviceIdCode first, w.1 ≠ cell
  drawn : ∃ w ∈ (d.run deviceIdCode first).writes deviceIdCode last, w.1 = cell
  lost : ∀ w ∈ l.writes deviceIdCode last, w.1 ≠ cell

/-- Of a row that is cut in its cursor the first pixel is missed if it is not the first
of what is drawn. -/
theorem missed_first {m : ℕ} (hm : m ≤ 2)
    (hlost : ∀ w ∈ l.writes deviceIdCode ((rowOps deviceIdCode font xpos ypos bits).drop m),
      w.1 ≠ (xpos.toNat, ypos.toNat)) :
    Missed deviceIdCode (xpos.toNat, ypos.toNat)
      ((rowOps deviceIdCode font xpos ypos bits).take m)
      ((rowOps deviceIdCode font xpos ypos bits).drop m) d l := by
  obtain ⟨hnone, hwrites⟩ := @writes_before_pixels deviceIdCode font xpos ypos bits d _ hm
  refine ⟨?_, ?_, hlost⟩
  · rw [hnone]
    exact fun w hw => absurd hw List.not_mem_nil
  · rw [hwrites]
    exact ⟨_, List.mem_map.mpr ⟨0, List.mem_range.mpr font.width_pos, rfl⟩, rfl⟩

/-- Of a row that is cut in its pixels the next one is missed. -/
theorem missed_pixel (d : Display) (hl : LeftBy l) {q : ℕ} (hq : q < font.width.toNat) :
    Missed deviceIdCode (xpos.toNat, ypos.toNat + q)
      ((rowOps deviceIdCode font xpos ypos bits).take (3 + q))
      ((rowOps deviceIdCode font xpos ypos bits).drop (3 + q)) d l := by
  obtain ⟨hrow, hcol, hprepared, hbefore⟩ := @after_pixels deviceIdCode font xpos ypos bits d q
    hq.le
  rw [(rowOps_cut hq.le).1, (rowOps_cut hq.le).2]
  refine ⟨fun w hw heq => ?_, ?_, fun w hw => ?_⟩
  · have hlt := hbefore w hw
    rw [heq] at hlt
    exact Nat.lt_irrefl _ hlt
  · rw [drop_glyphRow hq, List.cons_append, writes_cons, written_pixel hprepared, hrow, hcol]
    exact ⟨_, List.mem_cons_self, rfl⟩
  · rw [writes_lost hl] at hw
    exact absurd hw List.not_mem_nil

/-- Of a row that is caught some pixel is missed. -/
theorem missed_of_caught (bits : UInt16) {m : ℕ} (hwidth : font.width.toNat = 16)
    (hy : ypos.toNat ≤ 304) (hcaught : Caught deviceIdCode xpos.toNat ypos.toNat m) :
    ∃ q < 16, ∀ d l : Display, LeftBy l → Missed deviceIdCode (xpos.toNat, ypos.toNat + q)
      ((rowOps deviceIdCode font xpos ypos bits).take m)
      ((rowOps deviceIdCode font xpos ypos bits).drop m) d l := by
  obtain ⟨rfl, hlost⟩ | ⟨rfl, hlost⟩ | ⟨hle, hlt⟩ := hcaught
  · refine ⟨0, by omega, fun d l hl => missed_first (by omega) fun w hw heq => ?_⟩
    rw [writes_second, hl.row, hl.col] at hw
    obtain ⟨hrow, hcol, -⟩ := mem_rowWrites hw
    rw [heq] at hrow hcol
    by_cases hrows : RowFirst deviceIdCode
    · rw [if_pos hrows] at hlost hrow
      exact hlost hrow
    · rw [if_neg hrows] at hlost hcol
      exact hlost (le_antisymm hy hcol)
  · refine ⟨0, by omega, fun d l hl => missed_first le_rfl fun w hw heq => ?_⟩
    rw [writes_third, hl.row, hl.col] at hw
    obtain ⟨hrow, hcol, -⟩ := mem_rowWrites hw
    rw [heq] at hrow hcol
    exact hlost (Prod.ext hrow (le_antisymm hy hcol))
  · obtain ⟨q, rfl⟩ := Nat.exists_eq_add_of_le hle
    exact ⟨q, by omega, fun d l hl => missed_pixel d hl (by omega)⟩

end Row

/-! ### The whole line -/

/-- What `LCD_DEFAULT_FONT` is, but for the shape of its glyphs. -/
structure DefaultSize (font : Font) : Prop where
  width : font.width.toNat = 16
  height : font.height.toNat = 24

section Line

variable {deviceIdCode : UInt16} {font : Font} {x : ℕ} {cs ptr : Bytes} {d : Display}

theorem DefaultSize.dvd (h : DefaultSize font) : font.width.toNat ∣ lcdPixelWidth := by
  rw [h.width]
  decide

theorem DefaultSize.row (h : DefaultSize font) (hx : x < 10) {j : ℕ} (hj : j ≤ 24) :
    (lineOf font x + UInt8.ofNat j).toNat = 24 * x + j := by
  rw [lineOf, h.height, ← UInt8.ofNat_add, UInt8.toNat_ofNat']
  omega

theorem DefaultSize.column (h : DefaultSize font) {k : ℕ} (hk : k < 20) :
    (UInt16.ofNat (font.width.toNat * k)).toNat = 16 * k := by
  rw [h.width, UInt16.toNat_ofNat']
  omega

theorem DefaultSize.bandRow (h : DefaultSize font) (hx : x < 10) {row : ℕ}
    (hrow : BandRow font (lineOf font x) row) : 24 * x ≤ row ∧ row < 24 * x + 24 := by
  obtain ⟨j, hj, rfl⟩ := hrow
  rw [h.height] at hj
  rw [h.row hx hj.le]
  omega

theorem DefaultSize.count_le (h : DefaultSize font) (ptr : Bytes) :
    (drawnChars font ptr).length ≤ 20 := by
  have hle := @length_drawnChars_le font ptr
  rwa [h.width] at hle

/-- Different lines have no pixel in common. -/
theorem DefaultSize.disjoint (h : DefaultSize font) (hx : x < 10) (hx3 : x ≠ 3) {cell : Cell}
    (hcell : BandRow font (lineOf font x) cell.1) : ¬ InBand font (lineOf font 3) cell := by
  intro hband
  have hrow := h.bandRow hx hcell
  have hrow3 := h.bandRow (by omega) hband.1
  omega

/-- A line ends with the last move of its last character. -/
theorem run_line (deviceIdCode : UInt16) (d : Display) (h : DefaultSize font) {N : ℕ}
    (hN : (drawnChars font ptr).length = N + 1) (hx : x < 10) :
    (d.run deviceIdCode (lcdDisplayStringLine deviceIdCode font (lineOf font x) ptr)).row =
        24 * x + 24 ∧
      (d.run deviceIdCode (lcdDisplayStringLine deviceIdCode font (lineOf font x) ptr)).col =
        16 * N ∧
      (d.run deviceIdCode
        (lcdDisplayStringLine deviceIdCode font (lineOf font x) ptr)).chipSelected = false := by
  have hle := h.count_le ptr
  rw [lcdDisplayStringLine_eq h.dvd, hN, List.range_succ, List.flatMap_append,
    List.flatMap_singleton, charAt, ← List.append_assoc, run_append, moveAt, run_lcdSetCursor,
    h.height]
  exact ⟨h.row hx le_rfl, h.column (by omega), rfl⟩

theorem length_message (h : DefaultSize font) (r : Report) :
    (drawnChars font r.message).length = 19 + 1 := by
  rw [drawnChars, h.width]
  obtain ⟨source, key⟩ := r
  cases source <;> cases key <;> decide

theorem leftBy_keyDisplay (h : DefaultSize font) {pins : Pins} {s : Debounce} {r : Report}
    (hr : (key315MWirelessDisplay pins s).2 = some r) :
    LeftBy (keyDisplay deviceIdCode font pins s d) := by
  rw [keyDisplay, hr]
  obtain ⟨hrow, hcol, hcs⟩ := run_line deviceIdCode
    { d with textColor := lcdColorYellow, backColor := lcdColorRed } h (length_message h r)
    (show 3 < 10 by omega)
  exact ⟨hrow, hcol, hcs⟩

theorem keyDisplay_none {pins : Pins} {s : Debounce}
    (hr : (key315MWirelessDisplay pins s).2 = none) :
    keyDisplay deviceIdCode font pins s d = d := by
  rw [keyDisplay, hr]
  rfl

theorem writesIn_charAt (h : DefaultSize font) {P : Cell → Prop} {k : ℕ} (hk : k < 20)
    (hP : ∀ cell : Cell, 16 * k ≤ cell.2 → cell.2 < 16 * k + 16 → P cell) :
    WritesIn deviceIdCode P (charAt deviceIdCode font (lineOf font x) cs k) := by
  intro d w hw
  rw [charAt_eq, writes_lcdDisplayChar] at hw
  obtain ⟨-, hle, hlt⟩ := mem_glyphWrites hw
  rw [h.column hk] at hle hlt
  rw [h.width] at hlt
  exact hP w.1 hle hlt

theorem writesIn_rowAt (h : DefaultSize font) {P : Cell → Prop} {k j : ℕ} (hx : x < 10)
    (hj : j < 24) (hP : ∀ cell : Cell, cell.1 = 24 * x + j → P cell) :
    WritesIn deviceIdCode P (rowAt deviceIdCode font (lineOf font x) cs k j) := by
  refine writesIn_rowOps fun i _ => hP _ ?_
  exact h.row hx hj.le

/-- The line, cut at a row of a character. -/
structure CutAt (deviceIdCode : UInt16) (font : Font) (x : ℕ) (ptr : Bytes) (k j : ℕ)
    (first last : List LcdOp) : Prop where
  ops : lcdDisplayStringLine deviceIdCode font (lineOf font x) ptr = first ++
    (rowAt deviceIdCode font (lineOf font x) (drawnChars font ptr) k j ++ last)
  length : first.length = charLength * k + rowLength * j
  closed : Closed deviceIdCode last
  elsewhere : ∀ q < 16, WritesIn deviceIdCode (· ≠ (24 * x + j, 16 * k + q)) first ∧
    WritesIn deviceIdCode (· ≠ (24 * x + j, 16 * k + q)) last

section Elsewhere

variable {k j q : ℕ}

/-- Another character leaves the pixel alone. -/
theorem writesIn_other_charAt (h : DefaultSize font) {i : ℕ} (hik : i ≠ k) (hi : i < 20)
    (hq : q < 16) : WritesIn deviceIdCode (· ≠ (24 * x + j, 16 * k + q))
      (charAt deviceIdCode font (lineOf font x) cs i) := by
  refine writesIn_charAt h hi fun cell hle hlt heq => ?_
  subst heq
  dsimp only at hle hlt
  omega

/-- Another row of the character leaves it alone. -/
theorem writesIn_other_rowAt (h : DefaultSize font) (hx : x < 10) {i : ℕ} (hij : i ≠ j)
    (hi : i < 24) : WritesIn deviceIdCode (· ≠ (24 * x + j, 16 * k + q))
      (rowAt deviceIdCode font (lineOf font x) cs k i) := by
  refine writesIn_rowAt h hx hi fun cell hcell heq => ?_
  subst heq
  dsimp only at hcell
  omega

end Elsewhere

theorem exists_cutAt (deviceIdCode : UInt16) (h : DefaultSize font) (hx : x < 10) {k j : ℕ}
    (hk : k < (drawnChars font ptr).length) (hj : j < 24) :
    ∃ first last, CutAt deviceIdCode font x ptr k j first last := by
  have hcount := h.count_le ptr
  refine ⟨(List.range k).flatMap (charAt deviceIdCode font (lineOf font x) (drawnChars font ptr)) ++
      (List.range j).flatMap (rowAt deviceIdCode font (lineOf font x) (drawnChars font ptr) k),
    (List.range' (j + 1) (font.height.toNat - (j + 1))).flatMap
        (rowAt deviceIdCode font (lineOf font x) (drawnChars font ptr) k) ++
      moveAt deviceIdCode font (lineOf font x) k ++
      (List.range' (k + 1) ((drawnChars font ptr).length - (k + 1))).flatMap
        (charAt deviceIdCode font (lineOf font x) (drawnChars font ptr)),
    ⟨?_, ?_, ?_, fun q hq => ⟨?_, ?_⟩⟩⟩
  · rw [line_split h.dvd hk, char_split _ k (by rw [h.height]; exact hj)]
    simp only [List.append_assoc]
  · rw [List.length_append, length_flatMap_of_const (length_charAt _),
      length_flatMap_of_const (length_rowAt _ k), h.width, h.height]
    rfl
  · exact (((closed_flatMap fun i _ => closed_rowAt _ k i).append
      (closed_lcdSetCursor _ _)).append (closed_flatMap fun i _ => closed_charAt _ i))
  · refine (writesIn_flatMap fun i hi => ?_).append (writesIn_flatMap fun i hi => ?_)
    · have hik := List.mem_range.mp hi
      exact writesIn_other_charAt h (by omega) (by omega) hq
    · have hij := List.mem_range.mp hi
      exact writesIn_other_rowAt h hx (by omega) (by omega)
  · refine ((writesIn_flatMap fun i hi => ?_).append (writesIn_lcdSetCursor _ _)).append
      (writesIn_flatMap fun i hi => ?_)
    · rw [List.mem_range'_1, h.height] at hi
      exact writesIn_other_rowAt h hx (by omega) (by omega)
    · rw [List.mem_range'_1] at hi
      exact writesIn_other_charAt h (by omega) (by omega) hq

theorem CutAt.take_drop (h : DefaultSize font) {k j m n : ℕ} {first last : List LcdOp}
    (hcut : CutAt deviceIdCode font x ptr k j first last) (hm : m ≤ rowLength)
    (hn : n = charLength * k + rowLength * j + m) :
    (lcdDisplayStringLine deviceIdCode font (lineOf font x) ptr).take n =
      first ++ (rowAt deviceIdCode font (lineOf font x) (drawnChars font ptr) k j).take m ∧
    (lcdDisplayStringLine deviceIdCode font (lineOf font x) ptr).drop n =
      (rowAt deviceIdCode font (lineOf font x) (drawnChars font ptr) k j).drop m ++ last := by
  have hlength :
      m ≤ (rowAt deviceIdCode font (lineOf font x) (drawnChars font ptr) k j).length := by
    rw [length_rowAt, h.width]
    exact hm
  rw [hcut.ops, hn, ← hcut.length, List.take_length_add_append, List.drop_length_add_append,
    List.take_append_of_le_length hlength, List.drop_append_of_le_length hlength]
  exact ⟨rfl, rfl⟩

theorem Closed.resume {ops last : List LcdOp} (h : Closed deviceIdCode last) {l e : Display}
    (hcolor : l.color = e.color) (hops : l.writes deviceIdCode ops = e.writes deviceIdCode ops) :
    l.writes deviceIdCode (ops ++ last) = e.writes deviceIdCode (ops ++ last) := by
  rw [writes_append, writes_append, hops]
  congr 1
  apply h
  rw [color_run, color_run, hcolor]

variable {pins : Pins} {s : Debounce} {r : Report}

/-- Within a row. -/
theorem same_in_row (h : DefaultSize font) (hx : x < 10) {k j m n : ℕ}
    (hr : (key315MWirelessDisplay pins s).2 = some r) (hk : k < (drawnChars font ptr).length)
    (hj : j < 24) (hm : m < rowLength) (hn : n = charLength * k + rowLength * j + m)
    (hcaught : ¬ Caught deviceIdCode (24 * x + j) (16 * k) m) :
    later deviceIdCode font (lineOf font x) ptr n (keyDisplay deviceIdCode font pins s
        (before deviceIdCode font (lineOf font x) ptr n d)) =
      later deviceIdCode font (lineOf font x) ptr n
        (before deviceIdCode font (lineOf font x) ptr n d) := by
  obtain ⟨first, last, hcut⟩ := exists_cutAt deviceIdCode h hx hk hj
  obtain ⟨htake, hdrop⟩ := hcut.take_drop h hm.le hn
  have hcount := h.count_le ptr
  rw [later, later, before, htake, hdrop, run_append]
  apply hcut.closed.resume keyDisplay_color
  apply row_of_not_caught (leftBy_keyDisplay h hr) _ h.width hm
  · rwa [h.row hx hj.le, h.column (by omega)]
  · rw [keyDisplay_color, color_run]

theorem disturbed_in_row (h : DefaultSize font) (hx : x < 10) (hx3 : x ≠ 3) {k j m n : ℕ}
    (hr : (key315MWirelessDisplay pins s).2 = some r) (hk : k < (drawnChars font ptr).length)
    (hj : j < 24) (hm : m < rowLength) (hn : n = charLength * k + rowLength * j + m)
    (hcaught : Caught deviceIdCode (24 * x + j) (16 * k) m) :
    ¬ ∀ d, Undisturbed deviceIdCode font (lineOf font x) ptr n pins s d := by
  obtain ⟨first, last, hcut⟩ := exists_cutAt deviceIdCode h hx hk hj
  obtain ⟨htake, hdrop⟩ := hcut.take_drop h hm.le hn
  have hcount := h.count_le ptr
  have hrow := h.row hx hj.le
  have hcol := h.column (show k < 20 by omega)
  rw [← hrow, ← hcol] at hcaught
  obtain ⟨q, hq, hmissed⟩ := missed_of_caught (font.table
    (((drawnChars font ptr).getD k 0 - 32).toNat * font.height.toNat + j)) h.width
    (by rw [hcol]; omega) hcaught
  rw [hrow, hcol] at hmissed
  obtain ⟨hfirst, hlast⟩ := hcut.elsewhere q hq
  have hband : BandRow font (lineOf font x) (24 * x + j) :=
    ⟨j, by rw [h.height]; exact hj, hrow.symm⟩
  refine disturbed_of_missed (p := (24 * x + j, 16 * k + q)) h.dvd (h.disjoint hx hx3 hband)
    fun d => ?_
  obtain ⟨hbefore, ⟨w, hw, hcell⟩, hafter⟩ := hmissed (d.run deviceIdCode first)
    (keyDisplay deviceIdCode font pins s (before deviceIdCode font (lineOf font x) ptr n d))
    (leftBy_keyDisplay h hr)
  rw [later, later, hdrop, htake]
  refine ⟨fun w hw => ?_, ⟨w, ?_, hcell⟩, fun w hw => ?_⟩
  · rw [writes_append] at hw
    obtain hw | hw := List.mem_append.mp hw
    · exact hfirst d w hw
    · exact hbefore w hw
  · rw [before, htake, run_append, writes_append]
    exact List.mem_append_left _ hw
  · rw [writes_append] at hw
    obtain hw | hw := List.mem_append.mp hw
    · exact hafter w hw
    · exact hlast _ w hw

theorem writes_drop_lcdSetCursor (xpos : UInt8) (ypos : UInt16) (m : ℕ) :
    d.writes deviceIdCode ((lcdSetCursor deviceIdCode xpos ypos).drop m) = [] := by
  obtain ⟨op, op', hpair, hexec⟩ := lcdSetCursor_pair deviceIdCode xpos ypos
  rw [hpair]
  match m with
  | 0 => simp [(hexec d).1, (hexec (d.exec deviceIdCode op)).2.1]
  | 1 => simp [(hexec d).2.1]
  | m + 2 => simp

/-- In the last move of a character. -/
theorem same_in_move (h : DefaultSize font) {k m n : ℕ}
    (hk : k < (drawnChars font ptr).length) (hm : m ≤ 2)
    (hn : n = charLength * k + 24 * rowLength + m) :
    later deviceIdCode font (lineOf font x) ptr n (keyDisplay deviceIdCode font pins s
        (before deviceIdCode font (lineOf font x) ptr n d)) =
      later deviceIdCode font (lineOf font x) ptr n
        (before deviceIdCode font (lineOf font x) ptr n d) := by
  have hsplit : lcdDisplayStringLine deviceIdCode font (lineOf font x) ptr =
      ((List.range k).flatMap (charAt deviceIdCode font (lineOf font x) (drawnChars font ptr)) ++
        (List.range font.height.toNat).flatMap
          (rowAt deviceIdCode font (lineOf font x) (drawnChars font ptr) k)) ++
      (moveAt deviceIdCode font (lineOf font x) k ++
        (List.range' (k + 1) ((drawnChars font ptr).length - (k + 1))).flatMap
          (charAt deviceIdCode font (lineOf font x) (drawnChars font ptr))) := by
    rw [line_split h.dvd hk, charAt]
    simp only [List.append_assoc]
  have hlength : ((List.range k).flatMap
        (charAt deviceIdCode font (lineOf font x) (drawnChars font ptr)) ++
      (List.range font.height.toNat).flatMap
        (rowAt deviceIdCode font (lineOf font x) (drawnChars font ptr) k)).length =
      charLength * k + 24 * rowLength := by
    rw [List.length_append, length_flatMap_of_const (length_charAt _),
      length_flatMap_of_const (length_rowAt _ k), h.width, h.height]
    rfl
  have hmove : m ≤ (moveAt deviceIdCode font (lineOf font x) k).length := by
    rw [moveAt, length_lcdSetCursor]
    exact hm
  rw [later, later, hsplit, hn, ← hlength, List.drop_length_add_append,
    List.drop_append_of_le_length hmove]
  refine (closed_flatMap fun i _ => closed_charAt _ i).resume keyDisplay_color ?_
  rw [moveAt, writes_drop_lcdSetCursor, writes_drop_lcdSetCursor]

/-- After the line. -/
theorem same_at_end (h : DefaultSize font) {n : ℕ}
    (hn : charLength * (drawnChars font ptr).length ≤ n) :
    later deviceIdCode font (lineOf font x) ptr n (keyDisplay deviceIdCode font pins s
        (before deviceIdCode font (lineOf font x) ptr n d)) =
      later deviceIdCode font (lineOf font x) ptr n
        (before deviceIdCode font (lineOf font x) ptr n d) := by
  have hdrop : (lcdDisplayStringLine deviceIdCode font (lineOf font x) ptr).drop n = [] := by
    rw [List.drop_eq_nil_iff, lcdDisplayStringLine_eq h.dvd,
      length_flatMap_of_const (length_charAt _), h.width, h.height]
    exact hn
  rw [later, later, hdrop]
  rfl

end Line

/-- A line that the main loop draws comes to no harm from the interrupt, and does none,
exactly when the interrupt has nothing to report or does not catch a row. -/
theorem undisturbed_iff (deviceIdCode : UInt16) {font : Font} (hfont : DefaultSize font)
    {x : ℕ} (hx : x < 10) (hx3 : x ≠ 3) (ptr : Bytes) (n : ℕ) (pins : Pins) (s : Debounce) :
    (∀ d, Undisturbed deviceIdCode font (lineOf font x) ptr n pins s d) ↔
      (key315MWirelessDisplay pins s).2 = none ∨
        ¬ Exposed deviceIdCode x (drawnChars font ptr).length n := by
  have hline : ∀ cell, InBand font (lineOf font x) cell → ¬ InBand font (lineOf font 3) cell :=
    fun cell hcell => hfont.disjoint hx hx3 hcell.1
  cases hr : (key315MWirelessDisplay pins s).2 with
  | none =>
    refine iff_of_true (fun d => undisturbed_of_same hfont.dvd hline ?_) (.inl rfl)
    rw [keyDisplay_none hr]
  | some r =>
    rw [or_iff_right (by simp)]
    by_cases hend : n < charLength * (drawnChars font ptr).length
    · have hk : n / charLength < (drawnChars font ptr).length :=
        Nat.div_lt_of_lt_mul hend
      have hsplit := Nat.div_add_mod n charLength
      have hmod : n % charLength < charLength := Nat.mod_lt _ (by decide)
      by_cases hrows : n % charLength < 24 * rowLength
      · have hsplit' := Nat.div_add_mod (n % charLength) rowLength
        have hj : n % charLength / rowLength < 24 := Nat.div_lt_of_lt_mul (by omega)
        have hm : n % charLength % rowLength < rowLength := Nat.mod_lt _ (by decide)
        have hn : n = charLength * (n / charLength) + rowLength * (n % charLength / rowLength) +
            n % charLength % rowLength := by omega
        by_cases hcaught : Caught deviceIdCode (24 * x + n % charLength / rowLength)
            (16 * (n / charLength)) (n % charLength % rowLength)
        · apply iff_of_false (disturbed_in_row hfont hx hx3 hr hk hj hm hn hcaught)
          exact not_not.mpr ⟨hend, hrows, hcaught⟩
        · refine iff_of_true (fun d => undisturbed_of_same hfont.dvd hline
            (same_in_row hfont hx hr hk hj hm hn hcaught)) ?_
          exact fun hexposed => hcaught hexposed.2.2
      · refine iff_of_true (fun d => undisturbed_of_same hfont.dvd hline ?_) ?_
        · rw [charLength] at hmod
          exact same_in_move (m := n % charLength - 24 * rowLength) hfont hk
            (by rw [charLength]; omega) (by omega)
        · exact fun hexposed => hrows hexposed.2.1
    · refine iff_of_true (fun d => undisturbed_of_same hfont.dvd hline
        (same_at_end hfont (Nat.le_of_not_lt hend))) ?_
      exact fun hexposed => hend hexposed.1

/-- Between two rows of an exclamation mark. -/
theorem undisturbed_between_rows : Undisturbed 0x9320 font16x24 (lineOf font16x24 5)
    (stringBytes "!") 40 ⟨false, false, true, true, true⟩ ⟨1, 0⟩ displayInit :=
  (undisturbed_iff 0x9320 ⟨rfl, rfl⟩ (by decide) (by decide) (stringBytes "!") 40
    ⟨false, false, true, true, true⟩ ⟨1, 0⟩).mpr (.inr (by decide)) displayInit

/-- Within one, its other pixels are not drawn. -/
theorem disturbed_within_row : ¬ ∀ d, Undisturbed 0x9320 font16x24 (lineOf font16x24 5)
    (stringBytes "!") 30 ⟨false, false, true, true, true⟩ ⟨1, 0⟩ d :=
  disturbed_in_row (k := 0) (j := 1) (m := 10) (r := ⟨.wireless, .key1⟩) ⟨rfl, rfl⟩ (by decide)
    (by decide) rfl (by decide) (by decide) (by decide) rfl (by decide)

end EthMange.Lcd
