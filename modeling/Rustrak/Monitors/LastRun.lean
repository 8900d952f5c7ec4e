import Rustrak.Monitors.Recounting
import Rustrak.Monitors.Store

/-!
# The last run and the next

`prev_before` estimates how many intervals fit, and then goes up or down from there.  The runs
are counted on the wall clock, and they are not in order where the clocks go forward: a wall
time that is skipped is read with the offset before the jump, so the runs counted for the
skipped hour fall in the hour after it, among those counted for that hour itself.  Where the
reference is in that hour, the search may stop at a run of the first kind with one of the
second kind still before the reference.

`next_after` looks no further than one interval.  That is always later, as long as the clocks
change seldom and keep whole minutes.
-/

namespace Rustrak.Monitors

open Rustrak.Calendar

/-! ### The last run -/

/-- How many intervals of nominal length fit, as a `u32`. -/
def estimateSteps (start reference : Int) (value : Nat) (unit : IntervalUnit) : Nat :=
  (max ((reference - start) / second / approxSeconds value unit) 0).toNat % 2 ^ 32

/-- The loops of `prev_before`, which count in a `u32`; `none` where `k + 1` overflows. -/
def countSteps (zone : TimeZone) (start reference : Int) (value : Nat) (unit : IntervalUnit) :
    Option Nat :=
  searchBelow (step zone start value unit) reference (2 ^ 32)
    (estimateSteps start reference value unit)

section Last

variable {zone : TimeZone} {start reference : Int} {value k : Nat} {unit : IntervalUnit}

/-- Runs that are counted further than this are not before the reference. -/
theorem le_of_step_lt (hvalue : 0 < value) (h : step zone start value unit k < reference) :
    k ≤ ((reference - start) / minute).toNat + 2 * 1440 + 1 := by
  have hwall : zone.wall start + k * minute ≤ shift (zone.wall start) value unit k :=
    le_shift hvalue
  have hstep := step_near zone start value unit k
  have hzone := zone.wall_near start
  unfold day hour minute second at *
  omega

theorem lastStep_eq_search :
    lastStep zone start reference value unit =
      search (step zone start value unit) reference
        (((reference - start) / minute).toNat + 2 * 1440 + 1)
        (estimateSteps start reference value unit) := rfl

/-- Where the count does not overflow, it is the one without a limit. -/
theorem lastStep_eq_of_countSteps (hvalue : 0 < value)
    (h : countSteps zone start reference value unit = some k) :
    lastStep zone start reference value unit = k := by
  have hbound : ∀ k, step zone start value unit k < reference →
      k ≤ ((reference - start) / minute).toNat + 2 * 1440 + 1 := fun _ => le_of_step_lt hvalue
  rw [lastStep_eq_search, search]
  rw [countSteps, searchBelow] at h
  generalize ((reference - start) / minute).toNat + 2 * 1440 + 1 = fuel at hbound ⊢
  generalize estimateSteps start reference value unit = estimate at h ⊢
  generalize (2 : Nat) ^ 32 = limit at h
  obtain ⟨climbed, hclimb, rfl⟩ := Option.map_eq_some_iff.mp h
  obtain ⟨hle, -, hall, -⟩ := (climbBelow_eq_some_iff (Nat.le_add_left ..)).mp hclimb
  -- The count went up through runs before the reference only, and these are within the fuel.
  have henough : climbed ≤ estimate + fuel := by
    rcases Nat.eq_or_lt_of_le hle with heq | hlt
    · omega
    · have := hbound climbed (hall climbed hlt le_rfl)
      omega
  rw [climb_eq_of_climbBelow (Nat.le_add_left ..) hclimb henough]

/-- There the last run is the one of the schedule, whose count has no limit. -/
theorem prevBefore_of_countSteps {croner : Croner} (hvalue : 0 < value) (hstart : start < reference)
    (h : countSteps zone start reference value unit = some k) :
    (Schedule.interval value unit).prevBefore croner start reference zone =
      truncateToMinute (step zone start value unit k) := by
  rw [prevBefore_interval hstart, lastStep_eq_of_countSteps hvalue h]

end Last

/-! ### The next run -/

/-- What the clocks show is ahead of the instant by this much. -/
def TimeZone.offset (zone : TimeZone) (t : Int) : Int := zone.wall t - t

/-- The clocks change at most once in three days. -/
def TimeZone.Settled (zone : TimeZone) : Prop :=
  ∀ a b, a ≤ b → b ≤ a + 3 * day → ∃ change, ∀ t, a ≤ t → t ≤ b →
    zone.offset t = if t < change then zone.offset a else zone.offset b

section Next

variable {croner : Croner} {zone : TimeZone} {reference t u w : Int} {value k : Nat}
  {unit : IntervalUnit}

end Next

end Rustrak.Monitors
