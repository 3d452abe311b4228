import EthMange.Lcd.Text
import EthMange.Lib.Clock

/-!
# The run time on the display

`LCD_Time_Update` compares `LocalTime` with the sum of its timer and a second,
where the other timers compare a difference. The sum wraps before the counter
does, and after that the counter no longer says how long the board has been up.
-/

namespace EthMange.Lcd

open Clock (lastFire GapsWithin)
open Format (sprintf)

/-- `LcdDisplayTimer` at the start. -/
def lcdDisplayTimerInit : ℕ := 20000

/-- `LCD_Time_Update`: the timer after it, and the line it shows. -/
def lcdTimeUpdate (localtime lcdDisplayTimer : UInt32) : UInt32 × Option Bytes :=
  if localtime ≥ lcdDisplayTimer + 1000 then
    (localtime, some (TextCall.lcdTimeUpdate.written localtime))
  else (lcdDisplayTimer, none)

/-- What the polls show. -/
def shown : UInt32 → List UInt32 → List (Option Bytes)
  | _, [] => []
  | timer, now :: later =>
    (lcdTimeUpdate now timer).2 :: shown (lcdTimeUpdate now timer).1 later

/-- Hours, minutes and seconds of an uptime, modulo a day. -/
def uptimeText (seconds : ℕ) : Bytes :=
  sprintf TextCall.lcdTimeUpdate.format
    [(seconds / 3600 % 24 : ℕ), (seconds % 3600 / 60 : ℕ), (seconds % 3600 % 60 : ℕ)]

/-- What a display shows that keeps the true times and is refreshed when a second
has passed. -/
def shownTrue : ℕ → List ℕ → List (Option Bytes)
  | _, [] => []
  | last, now :: later =>
    (if last + 1000 ≤ now then some (uptimeText (now / 1000)) else none) ::
      shownTrue (lastFire 1000 last now) later

/-- Every poll before the counter wraps finds the last refresh more than a second
before the wrap, and every poll after it finds no refresh due. -/
def BeforeWrap : ℕ → List ℕ → Prop
  | _, [] => True
  | last, now :: later =>
    (if now < 2 ^ 32 then last + 1000 < 2 ^ 32 else now < last + 1000) ∧
      BeforeWrap (lastFire 1000 last now) later

instance decidableBeforeWrap : (last : ℕ) → (times : List ℕ) → Decidable (BeforeWrap last times)
  | _, [] => .isTrue trivial
  | last, now :: later =>
    have := decidableBeforeWrap (lastFire 1000 last now) later
    inferInstanceAs (Decidable ((if now < 2 ^ 32 then last + 1000 < 2 ^ 32
      else now < last + 1000) ∧ BeforeWrap (lastFire 1000 last now) later))

section Poll

variable {last prev now : ℕ}

/-- Before the wrap the text is the uptime. -/
theorem written_ofNat (h : now < 2 ^ 32) :
    TextCall.lcdTimeUpdate.written (UInt32.ofNat now) = uptimeText (now / 1000) := by
  have hnow : (UInt32.ofNat now).toNat = now := UInt32.toNat_ofNat_of_lt' h
  simp only [TextCall.written, TextCall.args, clockFields, hoursMinutesSeconds, uptimeText,
    List.map_cons, List.map_nil, UInt32.toNat_mod, UInt32.toNat_div, hnow]
  rfl

/-- What the comparison of a poll comes to. -/
theorem due_iff (last now : ℕ) :
    UInt32.ofNat now ≥ UInt32.ofNat last + 1000 ↔
      (last + 1000) % 2 ^ 32 ≤ now % 2 ^ 32 := by
  rw [ge_iff_le, UInt32.le_iff_toNat_le, UInt32.toNat_add, UInt32.toNat_ofNat',
    UInt32.toNat_ofNat', UInt32.toNat_ofNat, Nat.mod_add_mod]

/-- A poll in time does what it should. -/
theorem lcdTimeUpdate_of_inTime
    (htime : if now < 2 ^ 32 then last + 1000 < 2 ^ 32 else now < last + 1000)
    (hlast : last < 2 ^ 32) :
    lcdTimeUpdate (UInt32.ofNat now) (UInt32.ofNat last) =
      (UInt32.ofNat (lastFire 1000 last now),
        if last + 1000 ≤ now then some (uptimeText (now / 1000)) else none) := by
  have hdue : (last + 1000) % 2 ^ 32 ≤ now % 2 ^ 32 ↔ last + 1000 ≤ now := by
    split_ifs at htime <;> omega
  have hfire : 1000 ≤ now - last ↔ last + 1000 ≤ now := by omega
  rw [lcdTimeUpdate, lastFire]
  simp only [due_iff, hdue, hfire]
  split_ifs with h
  · have hnow : now < 2 ^ 32 := by
      by_contra hwrap
      rw [if_neg hwrap] at htime
      omega
    rw [written_ofNat hnow]
  · rfl

/-- The last refresh is before the wrap, and the poll before came less than a
second after it. -/
structure Recent (last prev : ℕ) : Prop where
  last_lt : last < 2 ^ 32
  prev_lt : prev < last + 1000
  last_le : last ≤ prev ∨ last + 1000 < 2 ^ 32

theorem Recent.lastFire
    (htime : if now < 2 ^ 32 then last + 1000 < 2 ^ 32 else now < last + 1000)
    (h : last < 2 ^ 32) : Recent (lastFire 1000 last now) now := by
  rw [Clock.lastFire]
  split_ifs at htime ⊢ <;> constructor <;> omega

/-- After the wrap a clock that starts at zero again differs from the uptime. -/
theorem uptimeText_ne_of_wrap (hlow : 2 ^ 32 ≤ now) (hhigh : now < 2 ^ 32 + 2000) :
    uptimeText ((now - 2 ^ 32) / 1000) ≠ uptimeText (now / 1000) := by
  have hcode : (now - 2 ^ 32) / 1000 = 0 ∨ (now - 2 ^ 32) / 1000 = 1 := by omega
  have htrue : now / 1000 = 4294967 ∨ now / 1000 = 4294968 ∨ now / 1000 = 4294969 := by omega
  obtain hcode | hcode := hcode <;> obtain htrue | htrue | htrue := htrue <;>
    · rw [hcode, htrue]
      decide

/-- A poll that is not in time shows something else than it should. -/
theorem lcdTimeUpdate_of_late (h : Recent last prev) (hnext : prev ≤ now ∧ now - prev ≤ 999)
    (hlate : ¬ if now < 2 ^ 32 then last + 1000 < 2 ^ 32 else now < last + 1000) :
    (lcdTimeUpdate (UInt32.ofNat now) (UInt32.ofNat last)).2 ≠
      if last + 1000 ≤ now then some (uptimeText (now / 1000)) else none := by
  obtain ⟨hlast, hprev, hle⟩ := h
  rw [lcdTimeUpdate]
  simp only [due_iff]
  by_cases hwrap : now < 2 ^ 32
  · -- refreshed too early
    rw [if_pos hwrap] at hlate
    have hearly : (last + 1000) % 2 ^ 32 ≤ now % 2 ^ 32 := by omega
    rw [if_pos hearly, if_neg (by omega)]
    exact Option.some_ne_none _
  · rw [if_neg hwrap] at hlate
    rw [if_pos (Nat.not_lt.mp hlate)]
    split_ifs with hdue
    · -- refreshed in time, with the wrong clock
      have hmod : UInt32.ofNat now = UInt32.ofNat (now - 2 ^ 32) := by
        rw [← UInt32.toNat_inj, UInt32.toNat_ofNat', UInt32.toNat_ofNat']
        omega
      simp only [hmod]
      rw [written_ofNat (by omega)]
      intro heq
      exact uptimeText_ne_of_wrap (by omega) (by omega) (Option.some.inj heq)
    · -- not refreshed
      exact (Option.some_ne_none _).symm

end Poll

theorem shown_eq_of_beforeWrap {last : ℕ} {times : List ℕ} (hlast : last < 2 ^ 32)
    (htimes : BeforeWrap last times) :
    shown (UInt32.ofNat last) (times.map UInt32.ofNat) = shownTrue last times := by
  induction times generalizing last with
  | nil => rfl
  | cons now later ih =>
    obtain ⟨htime, hlater⟩ := htimes
    rw [List.map_cons, shown, shownTrue, lcdTimeUpdate_of_inTime htime hlast,
      ih (Recent.lastFire htime hlast).last_lt hlater]

theorem beforeWrap_of_shown_eq {last prev : ℕ} {times : List ℕ} (h : Recent last prev)
    (hgaps : GapsWithin 999 (prev :: times))
    (heq : shown (UInt32.ofNat last) (times.map UInt32.ofNat) = shownTrue last times) :
    BeforeWrap last times := by
  induction times generalizing last prev with
  | nil => trivial
  | cons now later ih =>
    obtain ⟨hnext, hrest⟩ := List.isChain_cons_cons.mp hgaps
    rw [List.map_cons, shown, shownTrue, List.cons.injEq] at heq
    have htime : if now < 2 ^ 32 then last + 1000 < 2 ^ 32 else now < last + 1000 := by
      by_contra hlate
      exact lcdTimeUpdate_of_late h hnext hlate heq.1
    rw [lcdTimeUpdate_of_inTime htime h.last_lt] at heq
    exact ⟨htime, ih (Recent.lastFire htime h.last_lt) hrest heq.2⟩

/-- The run time is shown as it should be if and only if the polls end before the
first refresh after the wrap, and none comes between the wrap and a refresh in the
second before it. -/
theorem run_time_shown_iff {times : List ℕ} (hgaps : GapsWithin 999 times)
    (hfirst : ∀ now ∈ times.head?, now < 2 ^ 32) :
    shown (UInt32.ofNat lcdDisplayTimerInit) (times.map UInt32.ofNat) =
        shownTrue lcdDisplayTimerInit times ↔
      BeforeWrap lcdDisplayTimerInit times := by
  have hinit : lcdDisplayTimerInit + 1000 < 2 ^ 32 := by decide
  refine ⟨fun heq => ?_, shown_eq_of_beforeWrap (by decide)⟩
  cases times with
  | nil => trivial
  | cons now later =>
    have htime : if now < 2 ^ 32 then lcdDisplayTimerInit + 1000 < 2 ^ 32
        else now < lcdDisplayTimerInit + 1000 := by
      rw [if_pos (hfirst now rfl)]
      exact hinit
    rw [List.map_cons, shown, shownTrue, List.cons.injEq,
      lcdTimeUpdate_of_inTime htime (by decide)] at heq
    exact ⟨htime, beforeWrap_of_shown_eq (Recent.lastFire htime (by decide)) hgaps heq.2⟩

theorem run_time_shown_two_seconds :
    shown 20000 [20500, 21000, 21999, 22000] =
      [none, some (stringBytes " Run Time: 00:00:21 "), none,
        some (stringBytes " Run Time: 00:00:22 ")] ∧
    (shown (UInt32.ofNat lcdDisplayTimerInit)
        ([20500, 21000, 21999, 22000].map UInt32.ofNat) =
      shownTrue lcdDisplayTimerInit [20500, 21000, 21999, 22000] ↔
      BeforeWrap lcdDisplayTimerInit [20500, 21000, 21999, 22000]) :=
  ⟨by decide, run_time_shown_iff (by decide) (by decide)⟩

/-- A refresh half a second before the wrap is followed by another at the next
poll; and a refresh that is due before the wrap, with no poll left before it, is
not made. -/
theorem run_time_lost_at_wrap :
    shown 20000 ([4294966796, 4294966806].map UInt32.ofNat) ≠
        shownTrue 20000 [4294966796, 4294966806] ∧
      shown 20000 ([4294965796, 4294966696, 4294967396, 4294968296].map UInt32.ofNat) ≠
        shownTrue 20000 [4294965796, 4294966696, 4294967396, 4294968296] :=
  ⟨by decide, by decide⟩

end EthMange.Lcd
