import EthMange.Lib.Streak
import EthMange.Lwip.Pbuf

/-!
# The keys and the wireless receiver

`Key_315M_Wireless_Display` runs at every tick and reports a key on its second tick.
The branch of the wired keys guards both counts of its counter, 0 and 1. That of the
wireless keys sets its counter back to 1 whenever it is not 1, so that it reports every
second tick of a long press; and it leaves the counter of the wired keys where it was.
-/

namespace EthMange.Keys

open Streak (At LastFalse)

/-- The levels of the pins at one tick. A pin is low when its key is down. -/
structure Pins where
  wireless315M : Bool
  key1 : Bool
  key2 : Bool
  key3 : Bool
  key4 : Bool
deriving DecidableEq

inductive Key
  | key1
  | key2
  | key3
  | key4
deriving DecidableEq

def check315MWireless (p : Pins) : Bool := !p.wireless315M

/-- `ReadKeyDown`; `none` is `NOKEY`. -/
def readKeyDown (p : Pins) : Option Key :=
  if !p.key1 then some .key1
  else if !p.key2 then some .key2
  else if !p.key3 then some .key3
  else if !p.key4 then some .key4
  else none

inductive Source
  | wireless
  | wired
deriving DecidableEq

/-- A line that is put on the display. -/
structure Report where
  source : Source
  key : Key
deriving DecidableEq

def Report.message : Report → Bytes
  | ⟨.wireless, .key1⟩ => stringBytes " 315M Wireless Key1 "
  | ⟨.wireless, .key2⟩ => stringBytes " 315M Wireless Key2 "
  | ⟨.wireless, .key3⟩ => stringBytes " 315M Wireless Key3 "
  | ⟨.wireless, .key4⟩ => stringBytes " 315M Wireless Key4 "
  | ⟨.wired, .key1⟩ => stringBytes " Key1               "
  | ⟨.wired, .key2⟩ => stringBytes "      Key2          "
  | ⟨.wired, .key3⟩ => stringBytes "           Key3     "
  | ⟨.wired, .key4⟩ => stringBytes "               Key4 "

/-- The static variables. -/
structure Debounce where
  wirelessDebounce : UInt16
  keyDebounce : UInt16
deriving DecidableEq

def debounceInit : Debounce := ⟨0, 0⟩

/-- What `Key_315M_Wireless_Display` does with its counters, and what it reports. -/
def key315MWirelessDisplay (p : Pins) (s : Debounce) : Debounce × Option Report :=
  if check315MWireless p then
    if s.wirelessDebounce = 1 then
      match readKeyDown p with
      | some key =>
        ({ s with wirelessDebounce := s.wirelessDebounce + 1 }, some ⟨.wireless, key⟩)
      | none => ({ s with wirelessDebounce := 0 }, none)
    else ({ s with wirelessDebounce := 1 }, none)
  else
    let s : Debounce := { s with wirelessDebounce := 0 }
    if readKeyDown p ≠ none then
      if s.keyDebounce = 0 then ({ s with keyDebounce := 1 }, none)
      else if s.keyDebounce = 1 then
        match readKeyDown p with
        | some key => ({ s with keyDebounce := s.keyDebounce + 1 }, some ⟨.wired, key⟩)
        | none => ({ s with keyDebounce := 0 }, none)
      else (s, none)
    else ({ s with keyDebounce := 0 }, none)

section Ticks

variable (pins : ℕ → Pins)

/-- The counters before a tick. -/
def stateAt : ℕ → Debounce
  | 0 => debounceInit
  | t + 1 => (key315MWirelessDisplay (pins t) (stateAt t)).1

def reportAt (t : ℕ) : Option Report := (key315MWirelessDisplay (pins t) (stateAt pins t)).2

/-- The key that a source sees: the wired keys are those of the ticks at which the
wireless line is inactive. -/
def Source.key (source : Source) (p : Pins) : Option Key :=
  match source with
  | .wireless => if check315MWireless p then readKeyDown p else none
  | .wired => if check315MWireless p then none else readKeyDown p

def signal (source : Source) : ℕ → Bool := fun t => (source.key (pins t)).isSome

def active : ℕ → Bool := fun t => check315MWireless (pins t)

/-- Of every maximal run of a source the second tick is reported, and no other. -/
def ReportedOnce : Prop :=
  ∀ source a i, At (signal pins source) a i →
    reportAt pins (a + i) =
      if i = 1 then (source.key (pins (a + i))).map (Report.mk source) else none

/-- What a source reports. -/
def reportsOf (source : Source) (t : ℕ) : Option Report :=
  (reportAt pins t).filter fun r => r.source = source

/-- A wireless press starts an even number of ticks after the line became active and
lasts three ticks at most. A wired press is not seen where the last tick before it with
the line inactive had a key down, unless it lasts one tick and the one before that had
a key down too. -/
structure Apart : Prop where
  wireless : ∀ s d i, At (active pins) s d → At (signal pins .wireless) (s + d) i →
    Even d ∧ i ≤ 2
  wired : ∀ a i b, At (signal pins .wired) a i → LastFalse (active pins) a b →
    readKeyDown (pins b) ≠ none →
    i = 0 ∧ ∃ b', LastFalse (active pins) b b' ∧ readKeyDown (pins b') ≠ none

/-! ### One tick -/

theorem stateAt_succ (t : ℕ) :
    stateAt pins (t + 1) = (key315MWirelessDisplay (pins t) (stateAt pins t)).1 := rfl

variable {pins} {p : Pins} {s : Debounce} {t : ℕ}

theorem display_active (h : check315MWireless p = true) :
    (key315MWirelessDisplay p s).1.keyDebounce = s.keyDebounce ∧
    ((key315MWirelessDisplay p s).1.wirelessDebounce = 1 ↔ s.wirelessDebounce ≠ 1) ∧
    (key315MWirelessDisplay p s).2 =
      if s.wirelessDebounce = 1 then (readKeyDown p).map (Report.mk .wireless) else none := by
  rw [key315MWirelessDisplay, if_pos h]
  split_ifs with hone
  · cases readKeyDown p with
    | some key => simp [hone]
    | none => simp [hone]
  · simp [hone]

theorem display_inactive (h : check315MWireless p = false) :
    (key315MWirelessDisplay p s).1.wirelessDebounce = 0 ∧
    ((key315MWirelessDisplay p s).1.keyDebounce = 0 ↔ readKeyDown p = none) ∧
    ((key315MWirelessDisplay p s).1.keyDebounce = 1 ↔
      readKeyDown p ≠ none ∧ s.keyDebounce = 0) ∧
    (key315MWirelessDisplay p s).2 =
      if s.keyDebounce = 1 then (readKeyDown p).map (Report.mk .wired) else none := by
  rw [key315MWirelessDisplay, if_neg (by simp [h])]
  cases hkey : readKeyDown p with
  | none => simp
  | some key =>
    by_cases hzero : s.keyDebounce = 0
    · simp [hzero]
    · by_cases hone : s.keyDebounce = 1
      · simp [hone]
      · simp [hzero, hone]

/-! ### The counters -/

/-- The counter of a source. A report is made when it is 1. -/
def Source.count : Source → Debounce → UInt16
  | .wireless, s => s.wirelessDebounce
  | .wired, s => s.keyDebounce

theorem reportAt_of_signal {source : Source} (h : signal pins source t = true) :
    reportAt pins t = if source.count (stateAt pins t) = 1 then
      (source.key (pins t)).map (Report.mk source) else none := by
  rw [reportAt]
  cases hactive : check315MWireless (pins t) with
  | true =>
    cases source with
    | wireless => simpa [Source.key, Source.count, hactive] using (display_active hactive).2.2
    | wired => simp [signal, Source.key, hactive] at h
  | false =>
    cases source with
    | wireless => simp [signal, Source.key, hactive] at h
    | wired => simpa [Source.key, Source.count, hactive] using (display_inactive hactive).2.2.2

theorem ite_some_eq_iff {α : Type*} {x : α} {P Q : Prop} [Decidable P] [Decidable Q] :
    ((if P then some x else none) = if Q then some x else none) ↔ (P ↔ Q) := by
  by_cases hP : P
  · by_cases hQ : Q <;> simp [hP, hQ]
  · by_cases hQ : Q <;> simp [hP, hQ]

theorem reportedOnce_iff_count : ReportedOnce pins ↔
    ∀ source a i, At (signal pins source) a i →
      (source.count (stateAt pins (a + i)) = 1 ↔ i = 1) := by
  refine forall_congr' fun source => forall_congr' fun a => forall_congr' fun i =>
    imp_congr_right fun hat => ?_
  have hsignal := hat.holds i le_rfl
  obtain ⟨key, hkey⟩ := Option.isSome_iff_exists.mp hsignal
  rw [reportAt_of_signal hsignal, hkey]
  exact ite_some_eq_iff

/-- While the line is active, the counter is 1 at every second tick. -/
theorem wirelessDebounce_at {a d : ℕ} (h : At (active pins) a d) :
    (stateAt pins (a + d)).wirelessDebounce = 1 ↔ Odd d := by
  induction d with
  | zero =>
    have hzero : (stateAt pins a).wirelessDebounce = 0 := by
      cases a with
      | zero => rfl
      | succ b => exact (display_inactive (h.start b rfl)).1
    simp [hzero]
  | succ d ih =>
    have hprev := h.mono (Nat.le_succ d)
    rw [← Nat.add_assoc, stateAt_succ, (display_active (hprev.holds d le_rfl)).2.1,
      ne_eq, ih hprev, Nat.odd_add_one]

theorem keyDebounce_last {b : ℕ} (h : LastFalse (active pins) t b) :
    (stateAt pins t).keyDebounce =
      (key315MWirelessDisplay (pins b) (stateAt pins b)).1.keyDebounce :=
  h.frozen (q := fun t => (stateAt pins t).keyDebounce) fun _ ht => (display_active ht).1

theorem keyDebounce_of_none (h : ∀ b, ¬ LastFalse (active pins) t b) :
    (stateAt pins t).keyDebounce = 0 :=
  Streak.frozen_of_none (q := fun t => (stateAt pins t).keyDebounce)
    (fun _ ht => (display_active ht).1) h

/-- The counter is 0 unless a key was down at the last tick with the line inactive. -/
theorem keyDebounce_ne_zero_iff : (stateAt pins t).keyDebounce ≠ 0 ↔
    ∃ b, LastFalse (active pins) t b ∧ readKeyDown (pins b) ≠ none := by
  constructor
  · intro hcount
    by_contra hnone
    apply hcount
    by_cases hlast : ∃ b, LastFalse (active pins) t b
    · obtain ⟨b, hb⟩ := hlast
      rw [keyDebounce_last hb, (display_inactive hb.low).2.1]
      by_contra hkey
      exact hnone ⟨b, hb, hkey⟩
    · exact keyDebounce_of_none (not_exists.mp hlast)
  · rintro ⟨b, hb, hkey⟩ hzero
    rw [keyDebounce_last hb, (display_inactive hb.low).2.1] at hzero
    exact hkey hzero

/-- It is 1 if at that tick it was 0. -/
theorem keyDebounce_eq_one_iff {b : ℕ} (h : LastFalse (active pins) t b) :
    (stateAt pins t).keyDebounce = 1 ↔
      readKeyDown (pins b) ≠ none ∧ (stateAt pins b).keyDebounce = 0 := by
  rw [keyDebounce_last h, (display_inactive h.low).2.2.1]

/-! ### Both sources -/

theorem active_of_signal (h : signal pins .wireless t = true) : active pins t = true := by
  cases hactive : check315MWireless (pins t) with
  | true => exact hactive
  | false => simp [signal, Source.key, hactive] at h

theorem inactive_of_signal (h : signal pins .wired t = true) :
    active pins t = false ∧ readKeyDown (pins t) ≠ none := by
  cases hactive : check315MWireless (pins t) with
  | true => simp [signal, Source.key, hactive] at h
  | false =>
    refine ⟨hactive, Option.isSome_iff_ne_none.mp ?_⟩
    simpa [signal, Source.key, hactive] using h

/-- A press lies in one stretch of the line being active. -/
theorem active_of_press {a d i : ℕ} (h : At (active pins) a d)
    (hpress : At (signal pins .wireless) (a + d) i) : At (active pins) a (d + i) := by
  refine ⟨h.start, fun j hj => ?_⟩
  by_cases hjd : j ≤ d
  · exact h.holds j hjd
  · have hlater := active_of_signal (hpress.holds (j - d) (by omega))
    rwa [show a + d + (j - d) = a + j by omega] at hlater

theorem wireless_count_iff :
    (∀ a i, At (signal pins .wireless) a i →
      (Source.wireless.count (stateAt pins (a + i)) = 1 ↔ i = 1)) ↔
    ∀ s d i, At (active pins) s d → At (signal pins .wireless) (s + d) i → Even d ∧ i ≤ 2 := by
  constructor
  · intro h s d i hactive hpress
    have hodd : ∀ j ≤ i, (Odd (d + j) ↔ j = 1) := fun j hj => by
      have hpress' := hpress.mono hj
      rw [← wirelessDebounce_at (active_of_press hactive hpress'), ← Nat.add_assoc]
      exact h (s + d) j hpress'
    have heven : Even d := by
      have hzero := hodd 0 (Nat.zero_le i)
      rw [Nat.add_zero] at hzero
      exact Nat.not_odd_iff_even.mp fun hd => absurd (hzero.mp hd) (by omega)
    refine ⟨heven, ?_⟩
    by_contra hi
    have hthree := (hodd 3 (by omega)).mp (heven.add_odd (by decide))
    omega
  · intro h a i hpress
    obtain ⟨s, d, rfl, hactive⟩ :=
      Streak.exists_at (active_of_signal (hpress.holds 0 (Nat.zero_le i)))
    obtain ⟨heven, hi⟩ := h s d i hactive hpress
    have hcount := wirelessDebounce_at (active_of_press hactive hpress)
    rw [← Nat.add_assoc] at hcount
    show (stateAt pins (s + d + i)).wirelessDebounce = 1 ↔ i = 1
    rw [hcount]
    obtain ⟨k, rfl⟩ := heven
    rw [Nat.odd_iff]
    omega

/-- A wired press that keeps apart from the one before is reported on its second tick. -/
theorem keyDebounce_of_apart {a i : ℕ} (hpress : At (signal pins .wired) a i)
    (h : ∀ b, LastFalse (active pins) a b → readKeyDown (pins b) ≠ none →
      i = 0 ∧ ∃ b', LastFalse (active pins) b b' ∧ readKeyDown (pins b') ≠ none) :
    (stateAt pins (a + i)).keyDebounce = 1 ↔ i = 1 := by
  cases i with
  | zero =>
    refine iff_of_false (fun hone => ?_) (by omega)
    have hne : (stateAt pins a).keyDebounce ≠ 0 := by
      rw [show (stateAt pins a).keyDebounce = 1 from hone]
      decide
    obtain ⟨b, hlast, hkey⟩ := keyDebounce_ne_zero_iff.mp hne
    obtain ⟨-, hprev⟩ := h b hlast hkey
    exact keyDebounce_ne_zero_iff.mpr hprev ((keyDebounce_eq_one_iff hlast).mp hone).2
  | succ i =>
    have hprev := inactive_of_signal (hpress.holds i (Nat.le_succ i))
    rw [← Nat.add_assoc, keyDebounce_eq_one_iff (Streak.lastFalse_succ hprev.1)]
    cases i with
    | zero =>
      refine iff_of_true ⟨hprev.2, ?_⟩ rfl
      by_contra hne
      obtain ⟨b, hlast, hkey⟩ := keyDebounce_ne_zero_iff.mp hne
      exact absurd (h b hlast hkey).1 (by omega)
    | succ i =>
      have hbefore := inactive_of_signal (hpress.holds i (by omega))
      refine iff_of_false (fun hone => ?_) (by omega)
      exact keyDebounce_ne_zero_iff.mpr ⟨a + i, Streak.lastFalse_succ hbefore.1, hbefore.2⟩ hone.2

/-- Two wired presses in a row, with nothing but an active line between them, share
the counter. -/
theorem wired_count_iff :
    (∀ a i, At (signal pins .wired) a i →
      (Source.wired.count (stateAt pins (a + i)) = 1 ↔ i = 1)) ↔
    ∀ a i b, At (signal pins .wired) a i → LastFalse (active pins) a b →
      readKeyDown (pins b) ≠ none →
      i = 0 ∧ ∃ b', LastFalse (active pins) b b' ∧ readKeyDown (pins b') ≠ none := by
  constructor
  · intro h a i b hpress hlast hkey
    have hne : (stateAt pins a).keyDebounce ≠ 0 := keyDebounce_ne_zero_iff.mpr ⟨b, hlast, hkey⟩
    constructor
    · by_contra hi
      -- the second tick is reported only when the counter was 0 before the first
      have hsecond : (stateAt pins (a + 1)).keyDebounce = 1 :=
        (h a 1 (hpress.mono (by omega))).mpr rfl
      have hfirst := inactive_of_signal (hpress.holds 0 (Nat.zero_le i))
      rw [keyDebounce_eq_one_iff (Streak.lastFalse_succ hfirst.1)] at hsecond
      exact hne hsecond.2
    · have hone : (stateAt pins a).keyDebounce ≠ 1 := fun hone =>
        absurd ((h a 0 (hpress.mono (Nat.zero_le i))).mp hone) (by omega)
      rw [ne_eq, keyDebounce_eq_one_iff hlast] at hone
      exact keyDebounce_ne_zero_iff.mp fun hzero => hone ⟨hkey, hzero⟩
  · intro h a i hpress
    exact keyDebounce_of_apart hpress fun b => h a i b hpress

theorem reportedOnce_iff : ReportedOnce pins ↔ Apart pins := by
  rw [reportedOnce_iff_count]
  constructor
  · intro h
    exact ⟨wireless_count_iff.mp (h .wireless), wired_count_iff.mp (h .wired)⟩
  · intro h source
    cases source with
    | wireless => exact wireless_count_iff.mpr h.wireless
    | wired => exact wired_count_iff.mpr h.wired

/-- What is reported is a key that the source of the report sees. -/
theorem key_of_report {r : Report} (h : reportAt pins t = some r) :
    r.source.key (pins t) = some r.key := by
  rw [reportAt] at h
  cases hactive : check315MWireless (pins t) with
  | true =>
    rw [(display_active hactive).2.2] at h
    split_ifs at h
    obtain ⟨key, hkey, rfl⟩ := Option.map_eq_some_iff.mp h
    simp [Source.key, hactive, hkey]
  | false =>
    rw [(display_inactive hactive).2.2.2] at h
    split_ifs at h
    obtain ⟨key, hkey, rfl⟩ := Option.map_eq_some_iff.mp h
    simp [Source.key, hactive, hkey]

theorem reportsOf_none {source : Source} (h : source.key (pins t) = none) :
    reportsOf pins source t = none := by
  rw [reportsOf, Option.filter_eq_none_iff]
  intro r hr hsource
  have hkey := key_of_report hr
  rw [of_decide_eq_true hsource, h] at hkey
  simp at hkey

/-- What a source should report is settled by what it sees itself. -/
theorem reportsOf_congr {source : Source} {pins' : ℕ → Pins}
    (hpins : ReportedOnce pins) (hpins' : ReportedOnce pins')
    (h : ∀ t, source.key (pins t) = source.key (pins' t)) (t : ℕ) :
    reportsOf pins source t = reportsOf pins' source t := by
  have hsignal : signal pins source = signal pins' source := funext fun t => by
    rw [signal, signal, h t]
  cases hkey : source.key (pins t) with
  | none => rw [reportsOf_none hkey, reportsOf_none ((h t).symm.trans hkey)]
  | some key =>
    have ht : signal pins source t = true := by rw [signal, hkey]; rfl
    obtain ⟨a, i, rfl, hat⟩ := Streak.exists_at ht
    rw [reportsOf, reportsOf, hpins source a i hat, hpins' source a i (hsignal ▸ hat), h]

/-- Every press is reported once, on its second tick, and what a source reports depends
on that source alone, when the presses keep apart as `Apart` says. -/
theorem reported_once_iff (pins : ℕ → Pins) :
    (ReportedOnce pins ↔ Apart pins) ∧
    ∀ pins' source, Apart pins → Apart pins' →
      (∀ t, source.key (pins t) = source.key (pins' t)) →
      ∀ t, reportsOf pins source t = reportsOf pins' source t :=
  ⟨reportedOnce_iff, fun _ _ h h' hkeys t =>
    reportsOf_congr (reportedOnce_iff.mpr h) (reportedOnce_iff.mpr h') hkeys t⟩

/-- A wireless press of three ticks, two ticks after the line became active, and a long
wired press later on keep apart. -/
example : Apart fun t => if t < 5 then ⟨false, decide (t < 2), true, true, true⟩ else
    ⟨true, true, decide (t < 7 ∨ 20 ≤ t), true, true⟩ := by
  set pins : ℕ → Pins := fun t => if t < 5 then ⟨false, decide (t < 2), true, true, true⟩ else
    ⟨true, true, decide (t < 7 ∨ 20 ≤ t), true, true⟩ with hpins
  have hactive : ∀ t, active pins t = true ↔ 0 ≤ t ∧ t < 5 := fun t => by
    by_cases h : t < 5 <;> simp [active, check315MWireless, hpins, h]
  have hwireless : ∀ t, signal pins .wireless t = true ↔ 2 ≤ t ∧ t < 5 := fun t => by
    by_cases h : t < 5 <;> simp [signal, Source.key, check315MWireless, readKeyDown, hpins, h]
    omega
  have hwired : ∀ t, signal pins .wired t = true ↔ 7 ≤ t ∧ t < 20 := fun t => by
    by_cases h : t < 5 <;> simp [signal, Source.key, check315MWireless, readKeyDown, hpins, h]
    omega
  constructor
  · intro s d i hline hpress
    obtain ⟨rfl, -⟩ := hline.of_interval hactive
    obtain ⟨hd, hi⟩ := hpress.of_interval hwireless
    obtain rfl : d = 2 := by omega
    exact ⟨even_two, by omega⟩
  · intro a i b hpress hlast hkey
    exfalso
    obtain ⟨rfl, -⟩ := hpress.of_interval hwired
    -- the last tick before it with the line inactive has no key down
    obtain rfl : b = 6 := by
      by_contra hne
      have hbefore := hlast.before
      have hsince := (hactive 6).mp (hlast.since 6 (by omega) (by omega))
      omega
    exact hkey (by decide)

/-- The first wireless key held down is reported at its fourth tick again. -/
theorem long_press_reported_twice :
    ¬ ReportedOnce fun _ => ⟨false, false, true, true, true⟩ := by
  intro h
  have hfourth := h .wireless 0 3 ⟨fun b hb => by omega, fun _ _ => rfl⟩
  exact absurd hfourth (by decide)

end Ticks

end EthMange.Keys
