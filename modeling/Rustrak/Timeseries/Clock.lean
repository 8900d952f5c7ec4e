import Rustrak.Series.Grid
import Rustrak.Spans.AgentWindow

/-!
# Windows of time

What the time series share: the hours that a request asks for (`routes/period.rs`), and the
condition and the width of the buckets that follow from them (`services/scope.rs`).  The clock is
read once for a request.
-/

namespace Rustrak.Timeseries

open Rustrak.Calendar
open Rustrak.Series
open Rustrak.Spans (Backend second hour dayOf secondOfDay sqliteDatetime)

/-! ## Instants -/

/-- What is stored as an instant, in nanoseconds: a reading of the clock, or what
`timestamp_from_value` admits, of the years 1 to 9999. -/
structure Instant where
  nanos : ℤ
  year : 1 ≤ yearOfDay (dayOf nanos) ∧ yearOfDay (dayOf nanos) ≤ 9999
  deriving DecidableEq

def Instant.timestamp (instant : Instant) : ℤ := instant.nanos / second

/-- `DateTime::from_timestamp(secs, 0)`, in nanoseconds: `chrono` has the years from -262143 to
262142. -/
def fromTimestamp (secs : ℤ) : Option ℤ :=
  if -262143 ≤ yearOfDay (secs / 86400) ∧ yearOfDay (secs / 86400) ≤ 262142 then
    some (secs * second)
  else none

/-! ## The period of a request -/

def parseDigits (text : List Char) : Option ℤ :=
  if text ≠ [] ∧ text.all Char.isDigit then
    some (text.foldl (fun n c => 10 * n + (c.toNat - '0'.toNat : ℕ)) 0)
  else none

def inI64 (n : ℤ) : Bool := decide (-2 ^ 63 ≤ n ∧ n < 2 ^ 63)

/-- `str::parse::<i64>`. -/
def parseI64 : List Char → Option ℤ
  | '-' :: text => ((parseDigits text).map Neg.neg).filter inI64
  | '+' :: text => (parseDigits text).filter inI64
  | text => (parseDigits text).filter inI64

/-- `parse_period_hours`. -/
def parsePeriodHours (period : Option String) : Option ℤ :=
  (period.bind fun p =>
    if p.toList.getLast? = some 'h' then parseI64 p.toList.dropLast
    else if p.toList.getLast? = some 'd' then
      ((parseI64 p.toList.dropLast).map (· * 24)).filter inI64
    else parseI64 p.toList).map fun h => max 1 (min h (90 * 24))

/-- `bucket_hours`. -/
def bucketHours (periodHours : ℤ) : ℤ :=
  if periodHours ≤ 24 then 1
  else if periodHours ≤ 168 then 3
  else if periodHours ≤ 336 then 6
  else if periodHours ≤ 720 then 12
  else 24

/-- `column >= NOW() - INTERVAL`, to the microsecond, or a comparison of what `datetime` writes,
to the second. -/
def since (backend : Backend) (outside : ℤ → Option (List Char)) (now : Instant)
    (hours : Option ℤ) (column : Instant) : Bool :=
  match hours with
  | none => true
  | some hours =>
      match backend with
      | .postgres => decide (now.nanos / 1000 - hours * (3600 * 10 ^ 6) ≤ column.nanos / 1000)
      | .sqlite =>
          -- a comparison with NULL holds of no row
          (sqliteDatetime outside column.nanos).any fun text =>
            (sqliteDatetime outside (now.nanos - hours * hour)).any fun since =>
              decide ¬(text < since)

/-! ## What they come to -/

variable {backend : Backend} {outside : ℤ → Option (List Char)} {now column : Instant}
variable {period : Option String} {hours day secs : ℤ}

theorem parsePeriodHours_bounds (h : parsePeriodHours period = some hours) :
    1 ≤ hours ∧ hours ≤ 2160 := by
  obtain ⟨asked, -, rfl⟩ := Option.map_eq_some_iff.mp h
  omega

theorem bucketHours_bounds (hours : ℤ) : 1 ≤ bucketHours hours ∧ bucketHours hours ≤ 24 := by
  unfold bucketHours
  split_ifs <;> omega

theorem le_day (h : 1 ≤ yearOfDay day) : -719162 ≤ day := by
  by_contra hlt
  have hmono := yearOfDay_mono (show day ≤ -719163 by omega)
  have hyear : yearOfDay (-719163) = 0 := by decide
  omega

theorem day_le (h : yearOfDay day ≤ 9999) : day ≤ 2932896 := by
  by_contra hlt
  have hmono := yearOfDay_mono (show 2932897 ≤ day by omega)
  have hyear : yearOfDay 2932897 = 10000 := by decide
  omega

theorem year_nonneg (h : -719528 ≤ day) : 0 ≤ yearOfDay day := by
  have hmono := yearOfDay_mono h
  have hyear : yearOfDay (-719528) = 0 := by decide
  omega

theorem Instant.timestamp_bounds (instant : Instant) :
    -719162 * 86400 ≤ instant.timestamp ∧ instant.timestamp < 2932897 * 86400 := by
  have hlow := le_day instant.year.1
  have hhigh := day_le instant.year.2
  unfold dayOf second at hlow hhigh
  unfold timestamp second
  constructor <;> omega

/-- `chrono` has every second that is not before an instant by more than some years. -/
theorem fromTimestamp_eq (hlow : -719528 * 86400 ≤ secs) (hhigh : secs < 2932897 * 86400) :
    fromTimestamp secs = some (secs * second) := by
  have hyear := year_nonneg (show -719528 ≤ secs / 86400 by omega)
  have hmono := yearOfDay_mono (show secs / 86400 ≤ 2932896 by omega)
  have hlast : yearOfDay 2932896 = 9999 := by decide
  exact if_pos ⟨by omega, by omega⟩

/-- What `datetime` writes is in the order of the seconds. -/
theorem datetime_lt_iff {a b : ℤ} {text text' : List Char} (ha : FourDigits (dayOf a))
    (hb : FourDigits (dayOf b)) (htext : sqliteDatetime outside a = some text)
    (htext' : sqliteDatetime outside b = some text') :
    text < text' ↔ a / second < b / second := by
  rw [sqliteDatetime, if_pos ha, Option.some.injEq] at htext
  rw [sqliteDatetime, if_pos hb, Option.some.injEq] at htext'
  have hdays : ∀ t : ℤ, dayOf t = t / second / 86400 := by
    intro t
    rw [dayOf, mul_comm, Int.ediv_ediv_of_nonneg (by decide)]
  have hseconds : ∀ t : ℤ, (secondOfDay t : ℤ) = t / second % 86400 := by
    intro t
    rw [secondOfDay, Int.toNat_of_nonneg (Int.emod_nonneg _ (by decide))]
  have hday := hdays a
  have hday' := hdays b
  have hsecond := hseconds a
  have hsecond' := hseconds b
  rw [← htext, ← htext', dateText_append_lt_iff ha hb, cons_lt_cons_self_iff,
    timeText_lt_iff (by omega) (by omega)]
  omega

/-- A window of some hours begins in a year of four digits. -/
theorem fourDigits_window (hpos : 1 ≤ hours) (hle : hours ≤ 2160) :
    FourDigits (dayOf (now.nanos - hours * hour)) := by
  have hlow := le_day now.year.1
  have hhigh := day_le now.year.2
  have hdays : -719528 ≤ dayOf (now.nanos - hours * hour) := by
    unfold dayOf hour second at *
    omega
  have hmono : dayOf (now.nanos - hours * hour) ≤ dayOf now.nanos := by
    unfold dayOf hour second
    omega
  exact ⟨year_nonneg hdays, (yearOfDay_mono hmono).trans now.year.2⟩

/-- What the condition admits is not before the window, to the second. -/
theorem le_of_since (hpos : 1 ≤ hours) (hle : hours ≤ 2160)
    (h : since backend outside now (some hours) column = true) :
    now.timestamp - hours * 3600 ≤ column.timestamp := by
  cases backend with
  | postgres =>
      simp only [since, decide_eq_true_eq] at h
      unfold Instant.timestamp second
      omega
  | sqlite =>
      simp only [since, Option.any_eq_true] at h
      obtain ⟨text, htext, start, hstart, hlt⟩ := h
      have hyear : FourDigits (dayOf column.nanos) :=
        ⟨Int.le_trans (by decide) column.year.1, column.year.2⟩
      have horder := datetime_lt_iff hyear (fourDigits_window hpos hle) htext hstart
      have hseconds := not_lt.mp (horder.not.mp (of_decide_eq_true hlt))
      have hstart' : (now.nanos - hours * hour) / second = now.timestamp - hours * 3600 := by
        unfold Instant.timestamp hour second
        omega
      exact hstart' ▸ hseconds

end Rustrak.Timeseries
