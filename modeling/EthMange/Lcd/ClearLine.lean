import EthMange.Lcd.Draw

/-!
# Clearing a line

A string is drawn from column 0 upwards. Its line is cleared from column 319
downwards, but a glyph is drawn to the right of its column in both. What is cleared
are the columns from `Width - 1` on, and `Width - 1` columns beyond the screen.
-/

namespace EthMange.Lcd

section ClearLine

variable {deviceIdCode : UInt16} {font : Font} {d : Display} {line : UInt8}

theorem column_add {refcolumn : UInt16} (h : refcolumn.toNat + font.width.toNat ≤ 320) :
    (refcolumn + font.width).toNat = refcolumn.toNat + font.width.toNat := by
  rw [UInt16.toNat_add]
  omega

/-- A string stays in its columns. -/
theorem mem_writes_stringLoop (ptr : Bytes) {refcolumn : UInt16}
    (h : refcolumn.toNat + font.width.toNat ≤ 320) {w : Cell × UInt16}
    (hw : w ∈ d.writes deviceIdCode (stringLoop deviceIdCode font line refcolumn ptr)) :
    BandRow font line w.1.1 ∧ w.1.2 < 320 := by
  induction ptr generalizing d refcolumn with
  | nil => simp [stringLoop] at hw
  | cons ch ptr ih =>
    rw [stringLoop] at hw
    split_ifs at hw with hzero hlast
    · simp at hw
    · rw [List.append_nil, writes_lcdDisplayChar] at hw
      obtain ⟨hrow, -, hlt⟩ := mem_glyphWrites hw
      exact ⟨hrow, by omega⟩
    · rw [writes_append, writes_lcdDisplayChar] at hw
      obtain hhere | hrest := List.mem_append.mp hw
      · obtain ⟨hrow, -, hlt⟩ := mem_glyphWrites hhere
        exact ⟨hrow, by omega⟩
      · exact ih (Nat.le_of_not_lt hlast) hrest

/-- The characters that do not fit are ignored, and what follows the zero. -/
theorem stringLoop_take (ptr : Bytes) {refcolumn : UInt16} {n : ℕ}
    (h : refcolumn.toNat + font.width.toNat * (n + 1) = 320) :
    stringLoop deviceIdCode font line refcolumn ptr =
      stringLoop deviceIdCode font line refcolumn ((ptr.takeWhile (· ≠ 0)).take (n + 1)) := by
  induction ptr generalizing refcolumn n with
  | nil => rfl
  | cons ch ptr ih =>
    by_cases hzero : ch = 0
    · simp [stringLoop, hzero]
    · have hadd : (refcolumn + font.width).toNat = refcolumn.toNat + font.width.toNat :=
        column_add (by rw [Nat.mul_add] at h; omega)
      have hpos := font.width_pos
      rw [List.takeWhile_cons_of_pos (by simpa using hzero), List.take_succ_cons, stringLoop,
        stringLoop, if_neg hzero, if_neg hzero, hadd]
      congr 1
      cases n with
      | zero => rw [if_pos, if_pos] <;> rw [lcdPixelWidth] <;> omega
      | succ n =>
        have hnext : refcolumn.toNat + font.width.toNat + font.width.toNat * (n + 1) = 320 := by
          rw [← h]
          ring
        have hle : ¬ refcolumn.toNat + font.width.toNat + font.width.toNat > lcdPixelWidth := by
          rw [Nat.mul_add] at hnext
          rw [lcdPixelWidth]
          omega
        rw [if_neg hle, if_neg hle]
        exact ih (by rw [hadd]; exact hnext)

/-- The glyph of a space has the background colour only. -/
theorem blank_of_mem {color : Ink → UInt16} {xpos : UInt8} {ypos : UInt16} {w : Cell × UInt16}
    (h : w ∈ glyphWrites color font xpos ypos fun index =>
      font.table (((32 : UInt8) - 32).toNat * font.height.toNat + index)) : w.2 = color .back := by
  obtain ⟨j, hj, hw⟩ := List.mem_flatMap.mp h
  obtain ⟨i, -, rfl⟩ := List.mem_map.mp hw
  have hspace : font.table (((32 : UInt8) - 32).toNat * font.height.toNat + j) = 0 := by
    rw [show ((32 : UInt8) - 32).toNat = 0 from rfl, Nat.zero_mul, Nat.zero_add]
    exact font.space j (List.mem_range.mp hj)
  show color (inkOf (font.table (((32 : UInt8) - 32).toNat * font.height.toNat + j)) i) = _
  rw [hspace]
  simp [inkOf]

/-- What is cleared: `n` glyphs, of which the last starts at column `Width - 1`. -/
theorem writes_clearLoop {n : ℕ} {refcolumn : UInt16}
    (h : (refcolumn.toNat + 1) % 65536 = font.width.toNat * n) :
    (∀ w ∈ d.writes deviceIdCode (clearLoop deviceIdCode font line refcolumn),
      w.2 = d.backColor) ∧
    ∀ cell : Cell, (∃ w ∈ d.writes deviceIdCode (clearLoop deviceIdCode font line refcolumn),
      w.1 = cell) ↔ BandRow font line cell.1 ∧ font.width.toNat ≤ cell.2 + 1 ∧
        cell.2 + 1 < font.width.toNat * (n + 1) := by
  have hpos := font.width_pos
  induction n generalizing d refcolumn with
  | zero =>
    rw [Nat.mul_zero] at h
    rw [clearLoop, if_neg (by omega), writes_nil]
    refine ⟨by simp, fun cell => ⟨by simp, fun hcell => ?_⟩⟩
    omega
  | succ n ih =>
    have hmul : font.width.toNat * (n + 1) = font.width.toNat * n + font.width.toNat :=
      Nat.mul_succ _ _
    have hmul' : font.width.toNat * (n + 1 + 1) =
        font.width.toNat * (n + 1) + font.width.toNat := Nat.mul_succ _ _
    have hlt := refcolumn.toNat_lt
    have hwidth := font.width.toNat_lt
    have hcolumn : refcolumn.toNat + 1 = font.width.toNat * (n + 1) := by omega
    have hnext : ((refcolumn - font.width).toNat + 1) % 65536 = font.width.toNat * n := by
      rw [UInt16.toNat_sub]
      omega
    rw [clearLoop, if_pos (by omega), writes_append, writes_lcdDisplayChar]
    obtain ⟨hback, hcells⟩ := ih (d := d.run deviceIdCode
      (lcdDisplayChar deviceIdCode font line refcolumn 32)) hnext
    constructor
    · intro w hw
      obtain hhere | hrest := List.mem_append.mp hw
      · exact blank_of_mem hhere
      · exact (hback w hrest).trans (run_color _ .back)
    · intro cell
      simp only [List.mem_append, or_and_right, exists_or, hcells]
      constructor
      · rintro (⟨w, hw, rfl⟩ | ⟨hrow, hle, hlt'⟩)
        · obtain ⟨hrow, hle, hlt'⟩ := mem_glyphWrites hw
          exact ⟨hrow, by omega, by omega⟩
        · exact ⟨hrow, hle, by omega⟩
      · rintro ⟨hrow, hle, hlt'⟩
        by_cases hhere : refcolumn.toNat ≤ cell.2
        · exact .inl (exists_glyphWrites hrow hhere (by omega))
        · exact .inr ⟨hrow, hle, by omega⟩

/-- Clearing writes the background from column `Width - 1` to column `318 + Width`. -/
theorem writes_lcdClearLine (hwidth : font.width.toNat ∣ lcdPixelWidth) :
    (∀ w ∈ d.writes deviceIdCode (lcdClearLine deviceIdCode font line), w.2 = d.backColor) ∧
    ∀ cell : Cell, (∃ w ∈ d.writes deviceIdCode (lcdClearLine deviceIdCode font line),
      w.1 = cell) ↔ BandRow font line cell.1 ∧ font.width.toNat ≤ cell.2 + 1 ∧
        cell.2 + 1 < lcdPixelWidth + font.width.toNat := by
  obtain ⟨n, hn⟩ := hwidth
  have hmul : font.width.toNat * (n + 1) = lcdPixelWidth + font.width.toNat := by
    rw [hn, Nat.mul_succ]
  rw [lcdClearLine, ← hmul]
  apply writes_clearLoop
  rw [← hn]
  rfl

end ClearLine

/-- A pixel of the band of a line, on the screen. -/
def InBand (font : Font) (line : UInt8) (cell : Cell) : Prop :=
  BandRow font line cell.1 ∧ cell.2 < lcdPixelWidth

/-- A string is drawn in the band of its line, of its characters so many as fit, and
clearing the line afterwards sets what was drawn to the background and stays in the
band. -/
structure ClearsLine (deviceIdCode : UInt16) (font : Font) (line : UInt8) (ptr : Bytes)
    (d : Display) : Prop where
  drawn : ∀ w ∈ d.writes deviceIdCode (lcdDisplayStringLine deviceIdCode font line ptr),
    InBand font line w.1
  ignored : lcdDisplayStringLine deviceIdCode font line ptr =
    lcdDisplayStringLine deviceIdCode font line
      ((ptr.takeWhile (· ≠ 0)).take (lcdPixelWidth / font.width.toNat))
  cleared : ∀ w ∈ d.writes deviceIdCode (lcdDisplayStringLine deviceIdCode font line ptr),
    ((d.run deviceIdCode (lcdDisplayStringLine deviceIdCode font line ptr)).run deviceIdCode
      (lcdClearLine deviceIdCode font line)).memory w.1 = d.backColor
  inside : ∀ w ∈ (d.run deviceIdCode (lcdDisplayStringLine deviceIdCode font line ptr)).writes
    deviceIdCode (lcdClearLine deviceIdCode font line), InBand font line w.1

section Always

variable {deviceIdCode : UInt16} {font : Font} {d : Display} {line : UInt8} {ptr : Bytes}

/-- Drawing is right for every font that fits. -/
theorem drawn_inBand (hwidth : font.width.toNat ∣ lcdPixelWidth) :
    ∀ w ∈ d.writes deviceIdCode (lcdDisplayStringLine deviceIdCode font line ptr),
      InBand font line w.1 := by
  intro w hw
  have hle : font.width.toNat ≤ lcdPixelWidth := Nat.le_of_dvd (by decide) hwidth
  refine mem_writes_stringLoop ptr ?_ hw
  rwa [UInt16.toNat_zero, Nat.zero_add]

theorem lcdDisplayStringLine_ignores (hwidth : font.width.toNat ∣ lcdPixelWidth) :
    lcdDisplayStringLine deviceIdCode font line ptr =
      lcdDisplayStringLine deviceIdCode font line
        ((ptr.takeWhile (· ≠ 0)).take (lcdPixelWidth / font.width.toNat)) := by
  have hpos : 0 < lcdPixelWidth / font.width.toNat :=
    Nat.div_pos (Nat.le_of_dvd (by decide) hwidth) font.width_pos
  obtain ⟨n, hn⟩ := Nat.exists_eq_succ_of_ne_zero hpos.ne'
  rw [hn]
  apply stringLoop_take
  rw [UInt16.toNat_zero, Nat.zero_add, ← Nat.succ_eq_add_one, ← hn]
  exact Nat.mul_div_cancel' hwidth

/-- What is cleared of a band, if the glyphs reach its first column. -/
theorem cleared_of_reached (hwidth : font.width.toNat ∣ lcdPixelWidth) {cell : Cell}
    (hcell : InBand font line cell) (hreached : font.width.toNat ≤ cell.2 + 1) :
    (d.run deviceIdCode (lcdClearLine deviceIdCode font line)).memory cell = d.backColor := by
  obtain ⟨hback, hcells⟩ := @writes_lcdClearLine deviceIdCode font d line hwidth
  have hpos := font.width_pos
  have hlt : cell.2 + 1 < lcdPixelWidth + font.width.toNat := by
    have := hcell.2
    omega
  rw [run_memory]
  exact Paint.paint_of_forall_eq hback ((hcells cell).mpr ⟨hcell.1, hreached, hlt⟩)

end Always

/-- A string is drawn and its line cleared as it should be exactly when the glyphs are
one pixel wide, or have no rows. -/
theorem line_clears_iff (deviceIdCode : UInt16) {font : Font}
    (hwidth : font.width.toNat ∣ lcdPixelWidth) (line : UInt8) (ptr : Bytes) (d : Display) :
    ClearsLine deviceIdCode font line ptr d ↔
      font.width.toNat = 1 ∨ font.height.toNat = 0 := by
  have hpos := font.width_pos
  have hle : font.width.toNat ≤ lcdPixelWidth := Nat.le_of_dvd (by decide) hwidth
  constructor
  · intro h
    by_contra hfont
    obtain ⟨hone, hheight⟩ := not_or.mp hfont
    -- the pixel to the right of the first row of the band
    have hrow : BandRow font line line.toNat := ⟨0, by omega, by simp⟩
    obtain ⟨w, hw, hcell⟩ := ((writes_lcdClearLine hwidth).2 (line.toNat, lcdPixelWidth)).mpr
      ⟨hrow, by show _ ≤ lcdPixelWidth + 1; omega, by show lcdPixelWidth + 1 < _; omega⟩
    have hinside := (h.inside w hw).2
    rw [hcell] at hinside
    exact Nat.lt_irrefl _ hinside
  · intro hfont
    have hone : ∀ cell : Cell, BandRow font line cell.1 → font.width.toNat = 1 := by
      rintro cell ⟨j, hj, -⟩
      obtain hone | hheight := hfont
      · exact hone
      · omega
    refine ⟨drawn_inBand hwidth, lcdDisplayStringLine_ignores hwidth, fun w hw => ?_,
      fun w hw => ?_⟩
    · have hcell := drawn_inBand hwidth w hw
      rw [cleared_of_reached hwidth hcell (by rw [hone w.1 hcell.1]; omega)]
      exact run_color _ .back
    · obtain ⟨hrow, -, hlt⟩ := ((writes_lcdClearLine hwidth).2 w.1).mp ⟨w, hw, rfl⟩
      rw [hone w.1 hrow] at hlt
      exact ⟨hrow, Nat.lt_of_succ_lt_succ hlt⟩

/-- A font of single columns. -/
def fontColumn : Font := ⟨fun _ => 0, 1, 8, by decide, fun _ _ => rfl⟩

theorem line_clears_column :
    ClearsLine 0x9320 fontColumn 8 (stringBytes " a") displayInit :=
  (line_clears_iff 0x9320 (by decide) 8 (stringBytes " a") displayInit).mpr (.inl rfl)

/-- The first two glyphs of `ASCII16x24_Table`, those of the space and of `!`. -/
def ascii16x24Table : List UInt16 :=
  [0x0000, 0x0000, 0x0000, 0x0000, 0x0000, 0x0000, 0x0000, 0x0000,
    0x0000, 0x0000, 0x0000, 0x0000, 0x0000, 0x0000, 0x0000, 0x0000,
    0x0000, 0x0000, 0x0000, 0x0000, 0x0000, 0x0000, 0x0000, 0x0000,
    0x0000, 0x0180, 0x0180, 0x0180, 0x0180, 0x0180, 0x0180, 0x0180,
    0x0180, 0x0180, 0x0180, 0x0180, 0x0180, 0x0180, 0x0000, 0x0000,
    0x0180, 0x0180, 0x0000, 0x0000, 0x0000, 0x0000, 0x0000, 0x0000]

/-- `Font16x24`, with so much of its table. -/
def font16x24 : Font :=
  ⟨fun i => ascii16x24Table.getD i 0, 16, 24, by decide, by decide⟩

/-- Clearing the line after one character writes beyond column 319. -/
theorem clear_overruns :
    ¬ ClearsLine 0x9320 font16x24 24 (stringBytes "!") displayInit := by
  intro h
  have hrow : BandRow font16x24 24 24 := ⟨0, by decide, rfl⟩
  obtain ⟨w, hw, hcell⟩ := ((writes_lcdClearLine (by decide)).2 (24, lcdPixelWidth)).mpr
    ⟨hrow, by decide, by decide⟩
  have hinside := (h.inside w hw).2
  rw [hcell] at hinside
  exact Nat.lt_irrefl _ hinside

end EthMange.Lcd
