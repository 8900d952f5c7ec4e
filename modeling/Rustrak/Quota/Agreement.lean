import Mathlib.Data.Int.Order.Basic
import Rustrak.Quota.Limits

/-!
# The check before the transaction

A digest asks `check_quota` for room before it writes, and `try_consume` counts the event in
the transaction.  The one is arithmetic on rows that were fetched, the other two updates, the
second of which can find its row full when the first has counted already; the digest rolls
back then.

`hasRoom` is what both decide (`secondsWhileFull_eq_none`).  A window that is full stays full
until its end, and the end is what `secondsWhileFull` counts the seconds to: from the second
`now` lies in, since `timestamp` drops what is left of it.
-/

namespace Rustrak.Quota

/-- The rows an event is counted in. -/
structure QuotaRows where
  installation : QuotaWindows
  project : QuotaWindows
  deriving DecidableEq, Repr

/-- Nanoseconds of a second.  An instant is a number of nanoseconds. -/
def second : Int := 1000000000

/-- `DateTime::timestamp`: the whole seconds of an instant. -/
def timestamp (now : Int) : Int := now / second

/-- `try_consume`: the rows as its statements leave them, and which of them was full. -/
def consumeRows (config : RateLimitConfig) (own : OwnLimits) (now : Int) (rows : QuotaRows) :
    QuotaRows × Option QuotaScope :=
  match consume rows.installation config.installation (timestamp now) with
  | none => (rows, some .installation)
  | some installation =>
      let rows := { rows with installation }
      match consume rows.project (projectLimits config own) (timestamp now) with
      | none => (rows, some .project)
      | some project => ({ rows with project }, none)

/-- The transaction around it, which rolls back where a row was full. -/
def consumeOrRollBack (config : RateLimitConfig) (own : OwnLimits) (now : Int) (rows : QuotaRows) :
    QuotaRows × Option QuotaScope :=
  match consumeRows config own now rows with
  | (after, none) => (after, none)
  | (_, some scope) => (rows, some scope)

/-- `check_quota` on fetched rows. -/
def checkRows (config : RateLimitConfig) (own : OwnLimits) (now : Int) (rows : QuotaRows) :
    Option QuotaExceeded :=
  checkQuota config rows.installation rows.project own (timestamp now)

variable {config : RateLimitConfig} {own : OwnLimits} {rows : QuotaRows} {quota : QuotaWindows}
  {limits : Limits} {now later : Int}

/-! ## Limits and rows -/

/-- The `CASE` of the statement is the minimum that `project_limits` takes. -/
theorem tighten_some (operator own : Int) : tighten operator (some own) = min own operator := by
  unfold tighten
  dsimp only
  split_ifs with h
  · exact (min_eq_left h.le).symm
  · exact (min_eq_right (not_lt.mp h)).symm

/-- A digest's rows after the transaction are those of its model. -/
theorem consumeOrRollBack_eq : consumeOrRollBack config own now rows =
    match tryConsume config rows.installation rows.project own (timestamp now) with
    | .ok (installation, project) => (⟨installation, project⟩, none)
    | .error scope => (rows, some scope) := by
  unfold consumeOrRollBack consumeRows tryConsume
  cases consume rows.installation config.installation (timestamp now) with
  | none => rfl
  | some installation =>
      dsimp only
      cases consume rows.project (projectLimits config own) (timestamp now) <;> rfl

theorem consumeRows_snd : (consumeRows config own now rows).2 =
    if hasRoom rows.installation config.installation (timestamp now) = false then
      some .installation
    else if hasRoom rows.project (projectLimits config own) (timestamp now) = false then
      some .project
    else none := by
  unfold consumeRows consume
  cases hasRoom rows.installation config.installation (timestamp now) with
  | false => rfl
  | true =>
      simp only [if_true]
      cases hasRoom rows.project (projectLimits config own) (timestamp now) <;> rfl

/-- Where either row is full the transaction leaves nothing. -/
theorem rows_of_full (h : (consumeRows config own now rows).2 ≠ none) :
    (consumeOrRollBack config own now rows).1 = rows := by
  unfold consumeOrRollBack
  split
  · next hcounted =>
      rw [hcounted] at h
      contradiction
  · rfl

/-! ## One row -/

/-- One window is full, or has room. -/
theorem hasRoom_iff {counter : FixedWindow Int} {w limit : Int} :
    counter.hasRoom w limit = true ↔ ¬(counter.window = w ∧ counter.count ≥ limit) := by
  unfold FixedWindow.hasRoom
  simp only [Bool.or_eq_true, decide_eq_true_eq, not_and_or, not_le, ge_iff_le, ne_eq]

theorem secondsWhileFull_eq_none :
    secondsWhileFull quota limits now = none ↔ hasRoom quota limits now = true := by
  unfold secondsWhileFull hasRoom
  dsimp only
  rw [Option.or_eq_none_iff, Bool.and_eq_true, hasRoom_iff, hasRoom_iff]
  unfold minuteOf hourOf
  simp only [ite_eq_right_iff, reduceCtorEq, imp_false]
  exact and_comm

/-- Until the end of its window no second lies in another. -/
theorem div_eq_of_lt {length : Int} (hlength : 0 < length) (hle : now ≤ later)
    (hlt : later < now + (length - now % length)) : later / length = now / length := by
  have hnow := Int.emod_add_mul_ediv now length
  have hnonneg := Int.emod_nonneg now hlength.ne'
  have hend : now + (length - now % length) = length * (now / length + 1) := by
    rw [Int.mul_add, Int.mul_one]
    omega
  apply le_antisymm
  · rw [← Int.lt_add_one_iff]
    refine Int.ediv_lt_of_lt_mul hlength ?_
    rw [Int.mul_comm]
    omega
  · exact Int.ediv_le_ediv hlength hle

/-- A full row stays full for the seconds that were reported. -/
theorem hasRoom_of_secondsWhileFull {seconds : Int}
    (h : secondsWhileFull quota limits now = some seconds) (hle : now ≤ later)
    (hlt : later < now + seconds) : hasRoom quota limits later = false := by
  rw [Bool.eq_false_iff, ne_eq, ← secondsWhileFull_eq_none]
  unfold secondsWhileFull at h ⊢
  dsimp only at h ⊢
  rw [Option.or_eq_none_iff, not_and_or]
  rcases Option.or_eq_some_iff.mp h with hhour | ⟨_, hminute⟩
  · left
    split_ifs at hhour with hfull
    obtain rfl := Option.some.inj hhour
    rw [div_eq_of_lt (by decide) hle hlt, if_pos hfull]
    simp
  · right
    split_ifs at hminute with hfull
    obtain rfl := Option.some.inj hminute
    rw [div_eq_of_lt (by decide) hle hlt, if_pos hfull]
    simp

/-! ## Both rows -/

theorem checkRows_eq_none : checkRows config own now rows = none ↔
    hasRoom rows.installation config.installation (timestamp now) = true ∧
      hasRoom rows.project (projectLimits config own) (timestamp now) = true := by
  rw [← secondsWhileFull_eq_none, ← secondsWhileFull_eq_none]
  unfold checkRows checkQuota
  split
  · next hfull => simp [hfull]
  · next hroom => split <;> simp_all

/-- The row that is reported to be full is the one that was. -/
theorem full_of_checkRows {exceeded : QuotaExceeded}
    (h : checkRows config own now rows = some exceeded) :
    secondsWhileFull rows.installation config.installation (timestamp now) =
        some exceeded.retryAfter ∧ exceeded.scope = .installation ∨
      hasRoom rows.installation config.installation (timestamp now) = true ∧
      secondsWhileFull rows.project (projectLimits config own) (timestamp now) =
        some exceeded.retryAfter ∧ exceeded.scope = .project := by
  unfold checkRows checkQuota at h
  split at h
  · next seconds hfull =>
      obtain rfl := Option.some.inj h
      exact .inl ⟨hfull, rfl⟩
  · next hroom =>
      split at h
      · next seconds hfull =>
          obtain rfl := Option.some.inj h
          exact .inr ⟨secondsWhileFull_eq_none.mp hroom, hfull, rfl⟩
      · contradiction

theorem timestamp_mono (h : now ≤ later) : timestamp now ≤ timestamp later :=
  Int.ediv_le_ediv (by decide) h

/-- Whichever row was reported is full at any second up to the one that was reported. -/
theorem consumeRows_of_checkRows {exceeded : QuotaExceeded}
    (h : checkRows config own now rows = some exceeded) (hle : now ≤ later)
    (hlt : timestamp later < timestamp now + exceeded.retryAfter) :
    (consumeRows config own later rows).2 ≠ none := by
  rw [consumeRows_snd]
  rcases full_of_checkRows h with ⟨hfull, _⟩ | ⟨_, hfull, _⟩
  · rw [if_pos (hasRoom_of_secondsWhileFull hfull (timestamp_mono hle) hlt)]
    exact Option.some_ne_none _
  · rw [if_pos (hasRoom_of_secondsWhileFull hfull (timestamp_mono hle) hlt)]
    split <;> exact Option.some_ne_none _

theorem secondsWhileFull_pos {seconds : Int} (h : secondsWhileFull quota limits now = some seconds) :
    0 < seconds := by
  unfold secondsWhileFull at h
  dsimp only at h
  have hminute := Int.emod_lt_of_pos now (show (0 : Int) < 60 by decide)
  have hhour := Int.emod_lt_of_pos now (show (0 : Int) < 3600 by decide)
  rcases Option.or_eq_some_iff.mp h with h | ⟨_, h⟩
  · split_ifs at h
    obtain rfl := Option.some.inj h
    omega
  · split_ifs at h
    obtain rfl := Option.some.inj h
    omega

theorem scope_of_checkRows {exceeded : QuotaExceeded}
    (h : checkRows config own now rows = some exceeded) :
    (consumeRows config own now rows).2 = some exceeded.scope := by
  have hfullNow : ∀ {quota : QuotaWindows} {limits : Limits},
      secondsWhileFull quota limits (timestamp now) = some exceeded.retryAfter →
      hasRoom quota limits (timestamp now) = false := by
    intro quota limits hfull
    have hpos := secondsWhileFull_pos hfull
    exact hasRoom_of_secondsWhileFull hfull le_rfl (by omega)
  rw [consumeRows_snd]
  rcases full_of_checkRows h with ⟨hfull, hscope⟩ | ⟨hroom, hfull, hscope⟩
  · rw [if_pos (hfullNow hfull), hscope]
  · rw [hroom, if_neg (by decide), if_pos (hfullNow hfull), hscope]

/-- `check_quota` lets through what `try_consume` counts.  Where it reports a row full, the
transaction leaves the rows as they were, and so does any later one until the seconds are over
that it reported, counted from the beginning of the second. -/
theorem check_agrees_with_consume (config : RateLimitConfig) (own : OwnLimits) (rows : QuotaRows)
    (now : Int) :
    (checkRows config own now rows = none ↔ (consumeRows config own now rows).2 = none) ∧
    ∀ exceeded, checkRows config own now rows = some exceeded →
      (consumeRows config own now rows).2 = some exceeded.scope ∧
      (consumeOrRollBack config own now rows).1 = rows ∧
      ∀ later, now ≤ later → timestamp later < timestamp now + exceeded.retryAfter →
        (consumeRows config own later rows).2 ≠ none ∧
        (consumeOrRollBack config own later rows).1 = rows := by
  constructor
  · rw [checkRows_eq_none, consumeRows_snd]
    cases hasRoom rows.installation config.installation (timestamp now) <;>
      cases hasRoom rows.project (projectLimits config own) (timestamp now) <;> simp
  · intro exceeded hcheck
    have hscope := scope_of_checkRows hcheck
    refine ⟨hscope, rows_of_full ?_, fun later hle hlt => ?_⟩
    · rw [hscope]
      exact Option.some_ne_none _
    · have hfull := consumeRows_of_checkRows hcheck hle hlt
      exact ⟨hfull, rows_of_full hfull⟩

/-- A tenth of a second before the end of the minute a second is reported, and six tenths of
one later the next minute has room. -/
theorem reported_second_overruns_window :
    checkRows ⟨⟨1000, 10000⟩, ⟨1, 10000⟩⟩ ⟨none, none⟩ 59900000000 ⟨.fresh, ⟨⟨0, 1⟩, ⟨0, 1⟩⟩⟩ =
        some ⟨1, .project⟩ ∧
      (60500000000 : Int) < 59900000000 + 1 * second ∧
      (consumeRows ⟨⟨1000, 10000⟩, ⟨1, 10000⟩⟩ ⟨none, none⟩ 60500000000
        ⟨.fresh, ⟨⟨0, 1⟩, ⟨0, 1⟩⟩⟩).2 = none := by
  decide

end Rustrak.Quota
