import EthMange.Lib.Format
import EthMange.Lwip.Pbuf

/-!
# The texts made for the display

Twelve calls of `sprintf` print an address or the run time into a local array. How
long an address gets depends on its octets only, so every array has room for the
addresses with so many digits and no more. A thirteenth, in `Time_Display`, prints
the time of the RTC and always has room.
-/

namespace EthMange.Lcd

open Format

/-- The calls, by the function and what they print. -/
inductive TextCall
  -- the three of `Display_Periodic_Handle`
  | displayAddress | displayIp | displayGw
  | processTftpRequest | httpAccept | udpServerCallback | udpClientCallback
  -- the line on the display and the one for the peer
  | helloWorldAccept | helloWorldLogin | helloarmjishuAccept | helloarmjishuLogin
  | lcdTimeUpdate
  deriving DecidableEq, Repr

/-- `iptab`, from its last element to its first: the octets as they are written. -/
def octets (ip : UInt32) : List UInt8 :=
  [ip.toUInt8, (ip >>> 8).toUInt8, (ip >>> 16).toUInt8, (ip >>> 24).toUInt8]

-- `THH`, `TMM` and `TSS` of a time in seconds
def hoursMinutesSeconds (timeVar : UInt32) : List UInt32 :=
  [timeVar / 3600 % 24, timeVar % 3600 / 60, timeVar % 3600 % 60]

/-- The fields that `LCD_Time_Update` prints. -/
def clockFields (localtime : UInt32) : List UInt32 := hoursMinutesSeconds (localtime / 1000)

-- a greeting in GBK, with the words for the address
def loginText : Bytes :=
  [0xC4, 0xFA, 0x54, 0x65, 0x6C, 0x6E, 0x65, 0x74, 0xB5, 0xC7, 0xC2, 0xBC, 0xB5, 0xC4, 0xB5,
    0xE7, 0xC4, 0xD4, 0x49, 0x50, 0xB5, 0xD8, 0xD6, 0xB7, 0xCE, 0xAA]

namespace TextCall

def format : TextCall → Bytes
  | displayAddress => stringBytes "   %d.%d.%d.%d    "
  | displayIp => stringBytes "ip: %d.%d.%d.%d "
  | displayGw => stringBytes "gw: %d.%d.%d.%d  "
  | processTftpRequest => stringBytes "TFTP: %d.%d.%d.%d   "
  | httpAccept => stringBytes "Http: %d.%d.%d.%d   "
  | udpServerCallback | udpClientCallback => stringBytes "is: %d.%d.%d.%d     "
  | helloWorldAccept | helloarmjishuAccept => stringBytes "Telnet:%d.%d.%d.%d   "
  | helloWorldLogin | helloarmjishuLogin => loginText ++ stringBytes ": %d.%d.%d.%d\n"
  | lcdTimeUpdate => stringBytes " Run Time: %0.2d:%0.2d:%0.2d "

/-- The size of `iptxt` or `TimeStr`. -/
def size : TextCall → ℕ
  | helloWorldAccept | helloWorldLogin | helloarmjishuAccept | helloarmjishuLogin => 50
  | _ => 20

/-- The arguments, made from an address or from the time. All of them are below
`2^31`. -/
def args : TextCall → UInt32 → List ℤ
  | lcdTimeUpdate, localtime => (clockFields localtime).map fun field => field.toNat
  | _, ip => (octets ip).map fun octet => octet.toNat

/-- What the call writes. -/
def written (call : TextCall) (v : UInt32) : Bytes := sprintf call.format (call.args v)

/-- The text and its NUL stay in the array. -/
def Fits (call : TextCall) (v : UInt32) : Prop := (call.written v).length ≤ call.size

/-- For how many digits of an address the array has room. -/
def room : TextCall → ℕ
  | displayAddress => 9
  | displayIp => 11
  | displayGw => 10
  | processTftpRequest | httpAccept | udpServerCallback | udpClientCallback => 7
  | helloWorldAccept | helloarmjishuAccept => 36
  | helloWorldLogin | helloarmjishuLogin => 17
  | lcdTimeUpdate => 0

end TextCall

/-- The decimal digits of an octet. -/
def octetDigits (octet : UInt8) : ℕ := if octet < 10 then 1 else if octet < 100 then 2 else 3

/-- The digits of an address, without the dots. -/
def addressDigits (ip : UInt32) : ℕ := ((octets ip).map octetDigits).sum

/-- An octet is printed in its own digits. -/
theorem width_octet (octet : UInt8) : width 1 octet.toNat = octetDigits octet := by
  have hlt := octet.toNat_lt
  rw [octetDigits]
  split_ifs with h1 h2
  · have hsmall : octet.toNat < 10 := UInt8.lt_iff_toNat_lt.mp h1
    rcases Nat.eq_zero_or_pos octet.toNat with hzero | hpos
    · simp [hzero, width]
    · exact width_of_lt (k := 0) hpos hsmall
  · have hlow : ¬ octet.toNat < 10 := fun h => h1 (UInt8.lt_iff_toNat_lt.mpr h)
    exact width_of_lt (k := 1) (by omega) (UInt8.lt_iff_toNat_lt.mp h2)
  · have hlow : ¬ octet.toNat < 100 := fun h => h2 (UInt8.lt_iff_toNat_lt.mpr h)
    exact width_of_lt (k := 2) (by omega) (by omega)

/-- A field of the clock has two digits. -/
theorem width_clock {field : UInt32} (h : field.toNat < 60) : width 2 field.toNat = 2 := by
  have hlen : (Nat.digits 10 field.toNat).length ≤ 2 :=
    Nat.digits_length_le_iff (by decide) field.toNat |>.mpr (by omega)
  simp [width, hlen]

theorem hoursMinutesSeconds_lt (timeVar : UInt32) :
    ∀ field ∈ hoursMinutesSeconds timeVar, field.toNat < 60 := by
  intro field hfield
  simp only [hoursMinutesSeconds, List.mem_cons, List.not_mem_nil, or_false] at hfield
  obtain rfl | rfl | rfl := hfield
  · rw [UInt32.toNat_mod]
    exact (Nat.mod_lt _ (by decide)).trans (by decide)
  · rw [UInt32.toNat_div, UInt32.toNat_mod]
    exact Nat.div_lt_of_lt_mul (Nat.mod_lt _ (by decide))
  · rw [UInt32.toNat_mod]
    exact Nat.mod_lt _ (by decide)

/-- A text with the time is as long as the characters around it and six digits. -/
theorem sprintf_clock_length {fmt : Bytes} (hprecisions : precisions (parse fmt) = [2, 2, 2])
    (timeVar : UInt32) :
    (sprintf fmt ((hoursMinutesSeconds timeVar).map fun field => field.toNat)).length =
      (parse fmt).countP Directive.isText + 7 := by
  have hlt := hoursMinutesSeconds_lt timeVar
  simp only [hoursMinutesSeconds, List.forall_mem_cons] at hlt
  obtain ⟨hhour, hminute, hsecond, -⟩ := hlt
  rw [sprintf_length, hprecisions]
  simp only [hoursMinutesSeconds, List.map_cons, List.map_nil, List.zipWith_cons_cons,
    List.zipWith_nil_left, width_clock hhour, width_clock hminute, width_clock hsecond]
  rfl

/-- The length of a text with an address, by the characters around it. -/
theorem written_length_of_address {call : TextCall} (hcall : call ≠ .lcdTimeUpdate)
    (hprecisions : precisions (parse call.format) = [1, 1, 1, 1]) (ip : UInt32) :
    (call.written ip).length =
      (parse call.format).countP Directive.isText + addressDigits ip + 1 := by
  have hargs : call.args ip = (octets ip).map fun octet => (octet.toNat : ℤ) := by
    cases call <;> first | rfl | exact absurd rfl hcall
  rw [TextCall.written, sprintf_length, hprecisions, hargs]
  simp only [octets, addressDigits, List.map_cons, List.map_nil, List.zipWith_cons_cons,
    List.zipWith_nil_left, width_octet]

theorem written_length_lcdTimeUpdate (localtime : UInt32) :
    (TextCall.lcdTimeUpdate.written localtime).length = 21 :=
  sprintf_clock_length (by decide) (localtime / 1000)

/-- A text fits its array if and only if it is an address with no more digits
than the array has room for. The clock never fits. -/
theorem text_fits_iff (call : TextCall) (v : UInt32) :
    call.Fits v ↔ call ≠ .lcdTimeUpdate ∧ addressDigits v ≤ call.room := by
  by_cases hclock : call = .lcdTimeUpdate
  · subst hclock
    rw [TextCall.Fits, written_length_lcdTimeUpdate]
    simp [TextCall.size]
  · have hprecisions : precisions (parse call.format) = [1, 1, 1, 1] := by
      cases call <;> first | decide | exact absurd rfl hclock
    have hroom : (parse call.format).countP Directive.isText + call.room + 1 = call.size := by
      cases call <;> first | decide | exact absurd rfl hclock
    rw [TextCall.Fits, written_length_of_address hclock hprecisions]
    constructor
    · intro hfits
      exact ⟨hclock, by omega⟩
    · rintro ⟨-, hdigits⟩
      omega

/-- A hello from 192.168.1.101 overruns `iptxt` by three bytes, and the clock its
`TimeStr` by the NUL. -/
theorem text_overruns :
    (TextCall.udpServerCallback.written 0x6501A8C0).length = 23 ∧
      ¬ TextCall.udpServerCallback.Fits 0x6501A8C0 ∧
      TextCall.lcdTimeUpdate.written 21000 = stringBytes " Run Time: 00:00:21 " ∧
      ¬ TextCall.lcdTimeUpdate.Fits 21000 :=
  ⟨by decide, Nat.not_le.mpr (by decide), by decide, Nat.not_le.mpr (by decide)⟩

/-! ### The clock of the RTC -/

/-- The array of `Time_Display`: twenty blanks and their NUL. -/
def timeDisplaySize : ℕ := 21

def timeDisplayWritten (timeVar : UInt32) : Bytes :=
  sprintf (stringBytes "  Time:  %0.2d:%0.2d:%0.2d  ")
    ((hoursMinutesSeconds timeVar).map fun field => field.toNat)

theorem timeDisplay_fits (timeVar : UInt32) :
    (timeDisplayWritten timeVar).length ≤ timeDisplaySize := by
  have htexts : (parse (stringBytes "  Time:  %0.2d:%0.2d:%0.2d  ")).countP
      Directive.isText = 13 := by decide
  rw [timeDisplayWritten, sprintf_clock_length (by decide), htexts]
  decide

end EthMange.Lcd
