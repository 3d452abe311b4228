import EthMange.Lcd.ClearLine

/-!
# The operations of a line of text, in order

A line is a sequence of characters, a character a sequence of rows and a last move of
the cursor. A row starts by putting the cursor in its place, so that what it writes
does not depend on where the controller was left.
-/

namespace EthMange.Lcd

/-- What is written does not depend on the controller, but for the colours. -/
def Closed (deviceIdCode : UInt16) (ops : List LcdOp) : Prop :=
  ∀ d d' : Display, d.color = d'.color → d.writes deviceIdCode ops = d'.writes deviceIdCode ops

/-- What is written is written to such cells. -/
def WritesIn (deviceIdCode : UInt16) (P : Cell → Prop) (ops : List LcdOp) : Prop :=
  ∀ d : Display, ∀ w ∈ d.writes deviceIdCode ops, P w.1

section Pieces

variable {deviceIdCode : UInt16} {font : Font} {d : Display} {P : Cell → Prop}
  {ops ops' : List LcdOp}

theorem Closed.append (h : Closed deviceIdCode ops) (h' : Closed deviceIdCode ops') :
    Closed deviceIdCode (ops ++ ops') := by
  intro d d' hcolor
  rw [writes_append, writes_append, h d d' hcolor]
  congr 1
  apply h'
  rw [color_run, color_run, hcolor]

theorem closed_flatMap {l : List ℕ} {f : ℕ → List LcdOp}
    (h : ∀ i ∈ l, Closed deviceIdCode (f i)) : Closed deviceIdCode (l.flatMap f) := by
  induction l with
  | nil => exact fun _ _ _ => rfl
  | cons i l ih =>
    rw [List.forall_mem_cons] at h
    rw [List.flatMap_cons]
    exact h.1.append (ih h.2)

theorem WritesIn.append (h : WritesIn deviceIdCode P ops) (h' : WritesIn deviceIdCode P ops') :
    WritesIn deviceIdCode P (ops ++ ops') := by
  intro d w hw
  rw [writes_append] at hw
  obtain hw | hw := List.mem_append.mp hw
  · exact h d w hw
  · exact h' _ w hw

theorem writesIn_flatMap {l : List ℕ} {f : ℕ → List LcdOp}
    (h : ∀ i ∈ l, WritesIn deviceIdCode P (f i)) : WritesIn deviceIdCode P (l.flatMap f) := by
  induction l with
  | nil => exact fun _ _ hw => absurd hw List.not_mem_nil
  | cons i l ih =>
    rw [List.forall_mem_cons] at h
    rw [List.flatMap_cons]
    exact h.1.append (ih h.2)

theorem writesIn_lcdSetCursor (xpos : UInt8) (ypos : UInt16) :
    WritesIn deviceIdCode P (lcdSetCursor deviceIdCode xpos ypos) := by
  intro d w hw
  rw [writes_lcdSetCursor] at hw
  exact absurd hw List.not_mem_nil

theorem closed_lcdSetCursor (xpos : UInt8) (ypos : UInt16) :
    Closed deviceIdCode (lcdSetCursor deviceIdCode xpos ypos) := by
  intro d d' _
  rw [writes_lcdSetCursor, writes_lcdSetCursor]

theorem closed_rowOps (xpos : UInt8) (ypos bits : UInt16) :
    Closed deviceIdCode (rowOps deviceIdCode font xpos ypos bits) := by
  intro d d' hcolor
  rw [writes_rowOps, writes_rowOps, hcolor]

theorem closed_lcdDisplayChar (line : UInt8) (column : UInt16) (ascii : UInt8) :
    Closed deviceIdCode (lcdDisplayChar deviceIdCode font line column ascii) := by
  intro d d' hcolor
  rw [writes_lcdDisplayChar, writes_lcdDisplayChar, hcolor]

theorem writesIn_rowOps {xpos : UInt8} {ypos bits : UInt16}
    (h : ∀ i < font.width.toNat, P (xpos.toNat, ypos.toNat + i)) :
    WritesIn deviceIdCode P (rowOps deviceIdCode font xpos ypos bits) := by
  intro d w hw
  rw [writes_rowOps] at hw
  obtain ⟨i, hi, rfl⟩ := List.mem_map.mp hw
  exact h i (List.mem_range.mp hi)

end Pieces

/-! ### The characters of a line -/

theorem range_split {N k : ℕ} (h : k < N) :
    List.range N = List.range k ++ k :: List.range' (k + 1) (N - (k + 1)) := by
  have hN : k + ((N - (k + 1)) + 1) = N := by omega
  have hcut := List.range'_append_1 (s := 0) (m := k) (n := N - (k + 1) + 1)
  rw [hN, Nat.zero_add, List.range'_succ] at hcut
  rw [List.range_eq_range', List.range_eq_range', hcut]

section Line

variable (deviceIdCode : UInt16) (font : Font) (line : UInt8)

/-- The characters of a string that are drawn. -/
def drawnChars (ptr : Bytes) : Bytes :=
  (ptr.takeWhile (· ≠ 0)).take (lcdPixelWidth / font.width.toNat)

variable (cs : Bytes)

/-- The row `j` of the character `k`. -/
def rowAt (k j : ℕ) : List LcdOp :=
  rowOps deviceIdCode font (line + UInt8.ofNat j) (UInt16.ofNat (font.width.toNat * k))
    (font.table ((cs.getD k 0 - 32).toNat * font.height.toNat + j))

/-- The last move of the cursor for the character `k`. -/
def moveAt (k : ℕ) : List LcdOp :=
  lcdSetCursor deviceIdCode (line + UInt8.ofNat font.height.toNat)
    (UInt16.ofNat (font.width.toNat * k))

def charAt (k : ℕ) : List LcdOp :=
  (List.range font.height.toNat).flatMap (rowAt deviceIdCode font line cs k) ++
    moveAt deviceIdCode font line k

theorem charAt_eq (k : ℕ) : charAt deviceIdCode font line cs k =
    lcdDisplayChar deviceIdCode font line (UInt16.ofNat (font.width.toNat * k)) (cs.getD k 0) := by
  rw [lcdDisplayChar, lcdDrawChar_eq]
  rfl

end Line

section Line

variable {deviceIdCode : UInt16} {font : Font} {line : UInt8}

theorem stringLoop_eq (cs : Bytes) (k : ℕ) (hcs : ∀ c ∈ cs, c ≠ 0)
    (hfit : font.width.toNat * (k + cs.length) ≤ lcdPixelWidth) :
    stringLoop deviceIdCode font line (UInt16.ofNat (font.width.toNat * k)) cs =
      (List.range cs.length).flatMap fun i => lcdDisplayChar deviceIdCode font line
        (UInt16.ofNat (font.width.toNat * (k + i))) (cs.getD i 0) := by
  induction cs generalizing k with
  | nil => rfl
  | cons c cs ih =>
    rw [List.forall_mem_cons] at hcs
    rw [List.length_cons] at hfit
    have hnext : UInt16.ofNat (font.width.toNat * k) + font.width =
        UInt16.ofNat (font.width.toNat * (k + 1)) := by
      rw [Nat.mul_succ, UInt16.ofNat_add, UInt16.ofNat_toNat]
    have hcolumn : (UInt16.ofNat (font.width.toNat * (k + 1))).toNat =
        font.width.toNat * (k + 1) := by
      have hle : font.width.toNat * (k + 1) ≤ font.width.toNat * (k + (cs.length + 1)) :=
        Nat.mul_le_mul_left _ (by omega)
      rw [lcdPixelWidth] at hfit
      rw [UInt16.toNat_ofNat']
      omega
    have hrest : (if (UInt16.ofNat (font.width.toNat * (k + 1))).toNat + font.width.toNat >
        lcdPixelWidth then [] else stringLoop deviceIdCode font line
          (UInt16.ofNat (font.width.toNat * (k + 1))) cs) =
        stringLoop deviceIdCode font line (UInt16.ofNat (font.width.toNat * (k + 1))) cs := by
      cases cs with
      | nil => simp [stringLoop]
      | cons c' cs =>
        -- there is room for one more
        have hle : font.width.toNat * (k + 1 + 1) ≤
            font.width.toNat * (k + ((c' :: cs).length + 1)) :=
          Nat.mul_le_mul_left _ (by rw [List.length_cons]; omega)
        rw [Nat.mul_succ] at hle
        rw [hcolumn, if_neg (by omega)]
    have htail := ih (k + 1) hcs.2 (by rwa [Nat.add_assoc, Nat.add_comm 1])
    rw [stringLoop, if_neg hcs.1, hnext, hrest, htail, List.length_cons, List.range_succ_eq_map,
      List.flatMap_cons, List.flatMap_map]
    congr 1
    refine List.flatMap_congr fun i _ => ?_
    rw [Nat.add_assoc, Nat.add_comm 1]
    rfl

theorem drawnChars_ne_zero (ptr : Bytes) : ∀ c ∈ drawnChars font ptr, c ≠ 0 := by
  intro c hc
  simpa using List.all_eq_true.mp List.all_takeWhile c (List.mem_of_mem_take hc)

theorem length_drawnChars_le (ptr : Bytes) :
    (drawnChars font ptr).length ≤ lcdPixelWidth / font.width.toNat :=
  List.length_take_le _ _

/-- A line is its characters, one beside the other. -/
theorem lcdDisplayStringLine_eq (hwidth : font.width.toNat ∣ lcdPixelWidth) (ptr : Bytes) :
    lcdDisplayStringLine deviceIdCode font line ptr =
      (List.range (drawnChars font ptr).length).flatMap
        (charAt deviceIdCode font line (drawnChars font ptr)) := by
  have hfit : font.width.toNat * (0 + (drawnChars font ptr).length) ≤ lcdPixelWidth := by
    rw [Nat.zero_add]
    exact (Nat.mul_le_mul_left _ (length_drawnChars_le ptr)).trans (Nat.mul_div_le _ _)
  have hloop : stringLoop deviceIdCode font line (UInt16.ofNat (font.width.toNat * 0)) _ = _ :=
    stringLoop_eq _ 0 (drawnChars_ne_zero ptr) hfit
  rw [lcdDisplayStringLine_ignores hwidth, lcdDisplayStringLine]
  rw [Nat.mul_zero] at hloop
  refine hloop.trans (List.flatMap_congr fun k _ => ?_)
  rw [charAt_eq, Nat.zero_add]

theorem line_split (hwidth : font.width.toNat ∣ lcdPixelWidth) {ptr : Bytes} {k : ℕ}
    (hk : k < (drawnChars font ptr).length) :
    lcdDisplayStringLine deviceIdCode font line ptr =
      (List.range k).flatMap (charAt deviceIdCode font line (drawnChars font ptr)) ++
        (charAt deviceIdCode font line (drawnChars font ptr) k ++
          (List.range' (k + 1) ((drawnChars font ptr).length - (k + 1))).flatMap
            (charAt deviceIdCode font line (drawnChars font ptr))) := by
  rw [lcdDisplayStringLine_eq hwidth, range_split hk, List.flatMap_append, List.flatMap_cons]

theorem char_split (cs : Bytes) (k : ℕ) {j : ℕ} (hj : j < font.height.toNat) :
    charAt deviceIdCode font line cs k =
      (List.range j).flatMap (rowAt deviceIdCode font line cs k) ++
        (rowAt deviceIdCode font line cs k j ++
          ((List.range' (j + 1) (font.height.toNat - (j + 1))).flatMap
            (rowAt deviceIdCode font line cs k) ++ moveAt deviceIdCode font line k)) := by
  rw [charAt, range_split hj, List.flatMap_append, List.flatMap_cons, List.append_assoc,
    List.append_assoc]

theorem closed_charAt (cs : Bytes) (k : ℕ) :
    Closed deviceIdCode (charAt deviceIdCode font line cs k) := by
  rw [charAt_eq]
  exact closed_lcdDisplayChar line _ _

theorem closed_rowAt (cs : Bytes) (k j : ℕ) :
    Closed deviceIdCode (rowAt deviceIdCode font line cs k j) :=
  closed_rowOps _ _ _

theorem length_lcdSetCursor (xpos : UInt8) (ypos : UInt16) :
    (lcdSetCursor deviceIdCode xpos ypos).length = 2 := by
  rw [lcdSetCursor]
  split_ifs <;> rfl

theorem length_rowAt (cs : Bytes) (k j : ℕ) :
    (rowAt deviceIdCode font line cs k j).length = font.width.toNat + 4 := by
  rw [rowAt, rowOps, List.length_append, length_lcdSetCursor, List.length_cons,
    List.length_append, glyphRow, List.length_map, List.length_range, List.length_singleton]
  omega

theorem length_flatMap_of_const {f : ℕ → List LcdOp} {L : ℕ} (h : ∀ i, (f i).length = L)
    (k : ℕ) : ((List.range k).flatMap f).length = L * k := by
  induction k with
  | zero => rfl
  | succ k ih =>
    rw [List.range_succ, List.flatMap_append, List.length_append, ih, List.flatMap_singleton, h,
      Nat.mul_succ]

theorem length_charAt (cs : Bytes) (k : ℕ) : (charAt deviceIdCode font line cs k).length =
    (font.width.toNat + 4) * font.height.toNat + 2 := by
  rw [charAt, List.length_append, length_flatMap_of_const (length_rowAt cs k), moveAt,
    length_lcdSetCursor]

end Line

end EthMange.Lcd
