import Mathlib.Tactic

/-!
# Timers on a clock that wraps

A timer fires at a poll once its interval has passed since it fired last. A
machine keeps that time as a reading of a counter which wraps. As long as the
polls come often enough, the two fire at the same polls for ever.
-/

namespace EthMange.Clock

/-- A counter: what it shows at a true time, and the distance of two readings,
which is the true one as long as that is below the period. -/
structure WrappingClock (τ : Type*) where
  period : ℕ
  reading : ℕ → τ
  since : τ → τ → ℕ
  since_reading : ∀ {now last : ℕ}, last ≤ now → now - last < period →
    since (reading now) (reading last) = now - last

/-- When a timer that fired last at `last` has fired last after a poll at `now`. -/
def lastFire (interval last now : ℕ) : ℕ :=
  if interval ≤ now - last then now else last

/-- At which polls a timer fires that keeps unbounded true times. -/
def firings (interval : ℕ) : ℕ → List ℕ → List Bool
  | _, [] => []
  | last, now :: later =>
    decide (interval ≤ now - last) :: firings interval (lastFire interval last now) later

/-- The polls come in order and no two neighbours are more than `gap` apart. -/
def GapsWithin (gap : ℕ) (times : List ℕ) : Prop :=
  times.IsChain fun now next => now ≤ next ∧ next - now ≤ gap

instance (gap : ℕ) (times : List ℕ) : Decidable (GapsWithin gap times) :=
  inferInstanceAs (Decidable (times.IsChain _))

namespace WrappingClock

variable {τ : Type*}

/-- The reading that a timer keeps after a poll. -/
def stamp (c : WrappingClock τ) (interval : ℕ) (last now : τ) : τ :=
  if interval ≤ c.since now last then now else last

/-- At which polls a timer fires that keeps the reading of its last firing. -/
def firings (c : WrappingClock τ) (interval : ℕ) : τ → List τ → List Bool
  | _, [] => []
  | last, now :: later =>
    decide (interval ≤ c.since now last) :: firings c interval (c.stamp interval last now) later

variable (c : WrappingClock τ)

@[simp] theorem firings_nil (interval : ℕ) (last : τ) : c.firings interval last [] = [] := rfl

theorem stamp_reading {interval last now : ℕ} (hle : last ≤ now) (hlt : now - last < c.period) :
    c.stamp interval (c.reading last) (c.reading now) = c.reading (lastFire interval last now) := by
  rw [stamp, c.since_reading hle hlt, lastFire]
  split_ifs <;> rfl

/-- The true time since the last firing stays below the period until the next
poll. -/
theorem elapsed_lt_period {interval gap last now next : ℕ} (hpos : 0 < interval)
    (hgap : interval + gap ≤ c.period) (hle : last ≤ now) (hnext : now ≤ next ∧ next - now ≤ gap) :
    lastFire interval last now ≤ next ∧ next - lastFire interval last now < c.period := by
  rw [lastFire]
  split_ifs <;> omega

/-- A timer on the counter fires at the polls at which a timer on the true time
fires. -/
theorem firings_eq {interval gap last : ℕ} {times : List ℕ} (hpos : 0 < interval)
    (hgap : interval + gap ≤ c.period)
    (hfirst : ∀ now ∈ times.head?, last ≤ now ∧ now - last < c.period)
    (htimes : GapsWithin gap times) :
    c.firings interval (c.reading last) (times.map c.reading) =
      Clock.firings interval last times := by
  induction times generalizing last with
  | nil => rfl
  | cons now later ih =>
    obtain ⟨hle, hlt⟩ := hfirst now rfl
    rw [GapsWithin, List.isChain_cons] at htimes
    have hrest : ∀ next ∈ later.head?, lastFire interval last now ≤ next ∧
        next - lastFire interval last now < c.period :=
      fun next hnext => c.elapsed_lt_period hpos hgap hle (htimes.1 next hnext)
    rw [List.map_cons, firings, Clock.firings, c.since_reading hle hlt, c.stamp_reading hle hlt,
      ih hrest htimes.2]

end WrappingClock

/-- A 32-bit counter with the subtraction of the machine. -/
def clock32 : WrappingClock UInt32 where
  period := 2 ^ 32
  reading := UInt32.ofNat
  since now last := (now - last).toNat
  since_reading {now last} hle hlt := by
    rw [← UInt32.ofNat_sub hle]
    exact UInt32.toNat_ofNat_of_lt' hlt

end EthMange.Clock
