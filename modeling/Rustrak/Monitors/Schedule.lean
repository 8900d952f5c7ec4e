import Mathlib.Algebra.Order.Ring.Int
import Mathlib.Tactic.Ring
import Rustrak.Calendar.Civil
import Rustrak.Calendar.Recurrence
import Rustrak.Core.Error

/-!
# When a monitor expects its next check-in

`scheduler/schedule.rs`: a crontab or a fixed interval, read in a timezone.  Instants and
wall clocks are counted in nanoseconds, without the range that the time library has.

The timezone database and the crontab parser are other people's code.  `TimeZone` and
`Croner` hold what is used of them, with what their documentation promises: a wall time is
resolved to the instants that show it, and the occurrences found are the ones next to the
reference.

Intervals are added on the wall clock.  That counts from a given slot, so counting on from a
later slot need not lead to the same ones: a month from 28 February is not two months from
31 January.
-/

namespace Rustrak.Monitors

open Rustrak.Calendar

/-- A second, in the nanoseconds that times are counted in. -/
def second : Int := 1000000000

def minute : Int := 60 * second

def hour : Int := 60 * minute

def day : Int := 24 * hour

/-- Schedules have minute granularity. -/
def truncateToMinute (t : Int) : Int := t - t % minute

/-- The instants that show a wall time. -/
inductive LocalResult
  | none
  | single (t : Int)
  /-- A wall time seen twice when clocks go back. -/
  | ambiguous (first second : Int)
  deriving DecidableEq

def LocalResult.instants : LocalResult → List Int
  | .none => []
  | .single t => [t]
  | .ambiguous first second => [first, second]

def LocalResult.earliest (r : LocalResult) : Option Int := r.instants.head?

/-- A zone of the timezone database. -/
structure TimeZone where
  /-- What the clocks show at an instant. -/
  wall : Int → Int
  fromLocal : Int → LocalResult
  wall_near : ∀ t, t - day < wall t ∧ wall t < t + day
  mem_instants : ∀ w t, t ∈ (fromLocal w).instants ↔ wall t = w
  first_lt_second : ∀ w first second, fromLocal w = .ambiguous first second → first < second
  /-- Clocks go forward by a day at most. -/
  gap : ∀ w, fromLocal w = .none →
    ∃ h ∈ List.range' 1 24, fromLocal (w - (h : Nat) * hour) ≠ .none

def TimeZone.utc : TimeZone where
  wall t := t
  fromLocal w := .single w
  wall_near t := by
    unfold day hour minute second
    omega
  mem_instants w t := by simp [LocalResult.instants]
  first_lt_second w first second h := by cases h
  gap w h := by cases h

/-- The crontab library, for five fields and occurrences that exclude the reference. -/
structure Croner where
  Cron : Type
  parse : String → Except String Cron
  findNext : Cron → TimeZone → Int → Option Int
  findPrevious : Cron → TimeZone → Int → Option Int
  /-- Whether a pattern matches in a zone at an instant. -/
  fires : Cron → TimeZone → Int → Prop
  next : ∀ {cron zone t s}, findNext cron zone t = some s →
    fires cron zone s ∧ t < s ∧ ∀ r, fires cron zone r → t < r → s ≤ r
  previous : ∀ {cron zone t s}, findPrevious cron zone t = some s →
    fires cron zone s ∧ s < t ∧ ∀ r, fires cron zone r → r < t → r ≤ s
  no_previous : ∀ {cron zone t}, findPrevious cron zone t = none →
    ∀ r, fires cron zone r → t ≤ r
  /-- Without a field for the year, what has an occurrence has one after any time. -/
  recurs : ∀ {cron zone t}, (findNext cron zone t).isSome →
    ∀ zone' t', (findNext cron zone' t').isSome

inductive IntervalUnit
  | minute
  | hour
  | day
  | week
  | month
  | year
  deriving DecidableEq, Repr

inductive Schedule
  /-- A five-field crontab, or an alias such as `@daily`. -/
  | crontab (value : String)
  /-- Every `value` `unit`s, counted from the previous run. -/
  | interval (value : Nat) (unit : IntervalUnit)
  deriving DecidableEq, Repr

def IntervalUnit.seconds : IntervalUnit → Int
  | .minute => 60
  | .hour => 3600
  | .day => 86400
  | .week => 604800
  | .month => 2629746
  | .year => 31556952

def approxSeconds (value : Nat) (unit : IntervalUnit) : Int := unit.seconds * (max value 1 : Nat)

/-- `checked_add_months`, for a wall time. -/
def addMonths (wall : Int) (n : Nat) : Int := Calendar.addMonths (wall / day) n * day + wall % day

/-- A wall time plus `k` intervals. -/
def shift (wall : Int) (value : Nat) (unit : IntervalUnit) (k : Nat) : Int :=
  let n := value * k
  match unit with
  | .minute => wall + n * minute
  | .hour => wall + n * hour
  | .day => wall + n * day
  | .week => wall + n * (7 * day)
  | .month => addMonths wall n
  | .year => addMonths wall (n * 12)

/-- The instant of a wall time that was reached by counting on from `origin`. -/
def resolve (zone : TimeZone) (origin shifted : Int) : Int :=
  match zone.fromLocal shifted with
  | .single t => t
  -- The first one not before `origin`, so runs never go backwards.
  | .ambiguous first second => if first ≥ origin then first else second
  -- Read with the offset in force just before the jump.
  | .none =>
      ((List.range' 1 24).findSome? fun (h : Nat) =>
        (zone.fromLocal (shifted - h * hour)).earliest.map (· + h * hour)).getD origin

/-- `origin` plus `k` intervals, added on the wall clock. -/
def step (zone : TimeZone) (origin : Int) (value : Nat) (unit : IntervalUnit) (k : Nat) : Int :=
  resolve zone origin (shift (zone.wall origin) value unit k)

/-- How many intervals fit between `start` and `reference`.  The estimate is an `i64` cast to
a `u32`; the loops that correct it are bounded here by what they need. -/
def lastStep (zone : TimeZone) (start reference : Int) (value : Nat) (unit : IntervalUnit) : Nat :=
  let approx := (reference - start) / second / approxSeconds value unit
  search (step zone start value unit) reference
    (((reference - start) / minute).toNat + 2 * 1440 + 1) ((max approx 0).toNat % 2 ^ 32)

namespace Schedule

variable (croner : Croner) (s : Schedule)

/-- Why the schedule can never run, if it can't. -/
def validate (now : Int) : Except String Unit :=
  match s with
  | .crontab value =>
      match croner.parse value with
      | .error e => .error ("crontab: " ++ e)
      | .ok cron =>
          -- A pattern that never fires (`0 0 30 2 *`) parses fine.
          if (croner.findNext cron .utc now).isSome then .ok ()
          else .error "crontab never matches a date"
  | .interval 0 _ => .error "interval must be at least 1"
  | .interval (value + 1) unit =>
      if approxSeconds (value + 1) unit > approxSeconds 100 .year then
        .error "interval must be at most 100 years"
      else .ok ()

/-- The first run strictly after `reference`.  An interval counts from `reference`. -/
def nextAfter (reference : Int) (zone : TimeZone) : Int :=
  truncateToMinute <| match s with
  | .crontab value =>
      ((croner.parse value).toOption.bind fun cron =>
        croner.findNext cron zone reference).getD (reference + day)
  | .interval value unit => step zone reference value unit 1

/-- The last run strictly before `reference`.  An interval counts from `start`. -/
def prevBefore (start reference : Int) (zone : TimeZone) : Int :=
  truncateToMinute <| match s with
  | .crontab value =>
      ((croner.parse value).toOption.bind fun cron =>
        croner.findPrevious cron zone reference).getD start
  | .interval value unit =>
      if reference ≤ start then start
      else step zone start value unit (lastStep zone start reference value unit)

end Schedule

/-! ## What an interval comes to -/

variable {zone : TimeZone} {origin start reference wall t : Int} {value k : Nat}
  {unit : IntervalUnit}

theorem truncateToMinute_le (t : Int) : truncateToMinute t ≤ t := by
  have hrest := Int.emod_nonneg t (by decide : minute ≠ 0)
  unfold truncateToMinute
  omega

theorem lt_truncateToMinute_add (t : Int) : t < truncateToMinute t + minute := by
  have hrest := Int.emod_lt_of_pos t (by decide : (0 : Int) < minute)
  unfold truncateToMinute
  omega

/-- A whole minute that is not after an instant is not after its minute. -/
theorem le_truncateToMinute_iff (ht : truncateToMinute t = t) :
    t ≤ truncateToMinute origin ↔ t ≤ origin := by
  refine ⟨fun h => h.trans (truncateToMinute_le origin), fun h => ?_⟩
  unfold truncateToMinute minute second at *
  omega

@[simp] theorem truncateToMinute_truncateToMinute (t : Int) :
    truncateToMinute (truncateToMinute t) = truncateToMinute t := by
  unfold truncateToMinute minute second
  omega

/-- The shortest that a unit can be. -/
def shortest : IntervalUnit → Int
  | .minute => minute
  | .hour => hour
  | .day => day
  | .week => 7 * day
  | .month => 28 * day
  | .year => 12 * (28 * day)

theorem minute_le_shortest (unit : IntervalUnit) : minute ≤ shortest unit := by
  cases unit <;> decide

theorem addMonths_add (wall : Int) (n more : Nat) :
    addMonths wall n + more * (28 * day) ≤ addMonths wall (n + more) := by
  have hdays := Calendar.addMonths_add (wall / day) n more
  unfold addMonths
  generalize Calendar.addMonths (wall / day) n = first at hdays ⊢
  generalize Calendar.addMonths (wall / day) (n + more) = last at hdays ⊢
  unfold day hour minute second
  omega

@[simp] theorem shift_zero : shift wall value unit 0 = wall := by
  have hday : Calendar.addMonths (wall / day) 0 * day + wall % day = wall := by
    rw [Calendar.addMonths_zero, Int.mul_comm]
    exact Int.mul_ediv_add_emod wall day
  cases unit with
  | month | year => simpa [shift, addMonths] using hday
  | minute | hour | day | week => simp [shift]

/-- One more interval is at least as long as its units can be. -/
theorem shift_succ (wall : Int) (value : Nat) (unit : IntervalUnit) (k : Nat) :
    shift wall value unit k + value * shortest unit ≤ shift wall value unit (k + 1) := by
  cases unit with
  | minute | hour | day | week =>
      simp only [shift, shortest]
      push_cast
      exact (by ring : _ = _).le
  | month =>
      have hmonths := addMonths_add wall (value * k) value
      simp only [shift, shortest, Nat.mul_succ]
      exact hmonths
  | year =>
      have hmonths := addMonths_add wall (value * k * 12) (value * 12)
      have hunits : ((value * 12 : Nat) : Int) * (28 * day) = value * (12 * (28 * day)) := by
        push_cast
        ring
      have hsteps : value * (k + 1) * 12 = value * k * 12 + value * 12 := by ring
      simp only [shift, shortest, hsteps]
      rwa [hunits] at hmonths

theorem le_shift (hvalue : 0 < value) : wall + k * minute ≤ shift wall value unit k := by
  induction k with
  | zero => simp
  | succ k ih =>
      have hnext := shift_succ wall value unit k
      have hshort : minute ≤ value * shortest unit := by
        have hunit := minute_le_shortest unit
        have hpos : 0 ≤ shortest unit := (by decide : (0 : Int) ≤ minute).trans hunit
        have hone : (1 : Int) ≤ value := by exact_mod_cast hvalue
        exact hunit.trans (le_mul_of_one_le_left hpos hone)
      calc wall + (k + 1 : Nat) * minute = wall + k * minute + minute := by push_cast; ring
        _ ≤ shift wall value unit k + value * shortest unit := Int.add_le_add ih hshort
        _ ≤ shift wall value unit (k + 1) := hnext

/-! ## Where the clocks resolve it to -/

theorem earliest_near {w : Int} (h : (zone.fromLocal w).earliest = some t) :
    w - day < t ∧ t < w + day := by
  have hwall : zone.wall t = w := (zone.mem_instants w t).mp (List.mem_of_mem_head? h)
  have hnear := zone.wall_near t
  omega

/-- A skipped wall time is read with the offset before the jump. -/
theorem findSome_gap (hnone : zone.fromLocal wall = .none) :
    ∃ t, ((List.range' 1 24).findSome? fun (h : Nat) =>
      (zone.fromLocal (wall - h * hour)).earliest.map (· + h * hour)) = some t ∧
        wall - day < t ∧ t < wall + day := by
  obtain ⟨h, hh, hsome⟩ := zone.gap wall hnone
  have hexists : ((List.range' 1 24).findSome? fun (h : Nat) =>
      (zone.fromLocal (wall - h * hour)).earliest.map (· + h * hour)).isSome := by
    rw [List.findSome?_isSome_iff]
    refine ⟨h, hh, ?_⟩
    cases hlocal : zone.fromLocal (wall - h * hour) with
    | none => exact absurd hlocal hsome
    | single t => rfl
    | ambiguous first second => rfl
  obtain ⟨t, ht⟩ := Option.isSome_iff_exists.mp hexists
  refine ⟨t, ht, ?_⟩
  obtain ⟨h', -, hfound⟩ := List.exists_of_findSome?_eq_some ht
  obtain ⟨s, hs, rfl⟩ := Option.map_eq_some_iff.mp hfound
  have hnear := earliest_near hs
  omega

theorem resolve_near (zone : TimeZone) (origin shifted : Int) :
    shifted - day < resolve zone origin shifted ∧ resolve zone origin shifted < shifted + day := by
  have hinstant : ∀ t ∈ (zone.fromLocal shifted).instants, shifted - day < t ∧ t < shifted + day := by
    intro t ht
    have hnear := zone.wall_near t
    rw [(zone.mem_instants shifted t).mp ht] at hnear
    omega
  unfold resolve
  cases hlocal : zone.fromLocal shifted with
  | none =>
      obtain ⟨t, ht, hnear⟩ := findSome_gap hlocal
      simp only [ht]
      exact hnear
  | single t => exact hinstant t (by simp [hlocal, LocalResult.instants])
  | ambiguous first second =>
      dsimp only
      split_ifs
      · exact hinstant first (by simp [hlocal, LocalResult.instants])
      · exact hinstant second (by simp [hlocal, LocalResult.instants])

/-- What the clocks show at an instant is resolved to it. -/
theorem resolve_wall (zone : TimeZone) (t : Int) : resolve zone t (zone.wall t) = t := by
  have hmem : t ∈ (zone.fromLocal (zone.wall t)).instants := (zone.mem_instants _ t).mpr rfl
  unfold resolve
  cases hlocal : zone.fromLocal (zone.wall t) with
  | none => simp [hlocal, LocalResult.instants] at hmem
  | single s => simpa [hlocal, LocalResult.instants, eq_comm] using hmem
  | ambiguous first second =>
      have horder := zone.first_lt_second _ _ _ hlocal
      rw [hlocal] at hmem
      simp only [LocalResult.instants, List.mem_cons, List.not_mem_nil, or_false] at hmem
      dsimp only
      split_ifs with hfirst <;> omega

/-- Counting on from a later origin, the same wall time is not resolved to an earlier
instant. -/
theorem resolve_mono {later : Int} (horigin : origin ≤ later) (shifted : Int) :
    resolve zone origin shifted ≤ resolve zone later shifted := by
  unfold resolve
  cases hlocal : zone.fromLocal shifted with
  | none =>
      obtain ⟨t, ht, -⟩ := findSome_gap hlocal
      simp [ht]
  | single t => exact le_rfl
  | ambiguous first second =>
      have horder := zone.first_lt_second _ _ _ hlocal
      dsimp only
      split_ifs <;> omega

@[simp] theorem step_zero (zone : TimeZone) (origin : Int) (value : Nat) (unit : IntervalUnit) :
    step zone origin value unit 0 = origin := by
  rw [step, shift_zero, resolve_wall]

theorem step_near (zone : TimeZone) (origin : Int) (value : Nat) (unit : IntervalUnit) (k : Nat) :
    shift (zone.wall origin) value unit k - day < step zone origin value unit k ∧
      step zone origin value unit k < shift (zone.wall origin) value unit k + day :=
  resolve_near zone origin _

/-- Intervals of two days and more keep their order, whatever the clocks do. -/
theorem step_lt_step_succ (hlong : 2 * day ≤ value * shortest unit) (k : Nat) :
    step zone origin value unit k < step zone origin value unit (k + 1) := by
  have hnow := step_near zone origin value unit k
  have hnext := step_near zone origin value unit (k + 1)
  have hwall := shift_succ (zone.wall origin) value unit k
  omega

/-- The loops of `prev_before` end at a run before the reference whose next one is not. -/
theorem brackets_lastStep (hvalue : 0 < value) (hstart : start < reference) :
    Brackets (step zone start value unit) reference (lastStep zone start reference value unit) := by
  apply brackets_search (by rwa [step_zero])
  intro l hl
  have hwall : zone.wall start + (l + 1 : Nat) * minute ≤
      shift (zone.wall start) value unit (l + 1) := le_shift hvalue
  have hstep := step_near zone start value unit (l + 1)
  have hzone := zone.wall_near start
  -- Two days of slack: the offset of the zone at the start, and that of the run.
  have hfuel : reference - start + 2 * day ≤ (l + 1 : Nat) * minute := by
    unfold day hour minute second at *
    omega
  omega

end Rustrak.Monitors
