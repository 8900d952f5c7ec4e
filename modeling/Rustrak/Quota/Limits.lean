import Mathlib.Data.Int.Order.Basic
import Rustrak.Quota.FixedWindow

/-!
# Event quotas

The fixed-window quotas of `services/rate_limit.rs`: the installation and every
project count events per minute and per hour.  `consume` is the one `UPDATE` of
`consume_sql!` on one row; `tryConsume` runs it on the installation and then on
the project.  Both answer the rows after, so a caller that rolls back just keeps
the rows it had.
-/

namespace Rustrak.Quota

/-- The four quota columns of a row. -/
structure QuotaWindows where
  minute : FixedWindow Int
  hour : FixedWindow Int
  deriving DecidableEq, Repr

/-- The columns of a new row. -/
def QuotaWindows.fresh : QuotaWindows := ⟨⟨0, 0⟩, ⟨0, 0⟩⟩

/-- A limit per minute and one per hour. -/
structure Limits where
  perMinute : Int
  perHour : Int
  deriving DecidableEq, Repr

/-- Limits that let something through. -/
def Limits.Positive (limits : Limits) : Prop := 1 ≤ limits.perMinute ∧ 1 ≤ limits.perHour

/-- The operator's limits. -/
structure RateLimitConfig where
  installation : Limits
  project : Limits
  deriving DecidableEq, Repr

/-- A project's own limits, where it has one. -/
structure OwnLimits where
  perMinute : Option Int
  perHour : Option Int
  deriving DecidableEq, Repr

inductive QuotaScope
  | installation
  | project
  deriving DecidableEq, Repr

/-- `CASE WHEN own < operator THEN own ELSE operator END`: a missing own limit
compares false and leaves the operator's. -/
def tighten (operator : Int) (own : Option Int) : Int :=
  match own with
  | none => operator
  | some own => if own < operator then own else operator

/-- The limits a project's events count against. -/
def projectLimits (config : RateLimitConfig) (own : OwnLimits) : Limits where
  perMinute := tighten config.project.perMinute own.perMinute
  perHour := tighten config.project.perHour own.perHour

/-- The minute a timestamp in seconds lies in. -/
def minuteOf (now : Int) : Int := now / 60

/-- The hour a timestamp in seconds lies in. -/
def hourOf (now : Int) : Int := now / 3600

/-- Both windows have room. -/
def hasRoom (quota : QuotaWindows) (limits : Limits) (now : Int) : Bool :=
  quota.minute.hasRoom (minuteOf now) limits.perMinute &&
    quota.hour.hasRoom (hourOf now) limits.perHour

/-- Counts one event in both windows. -/
def count (quota : QuotaWindows) (now : Int) : QuotaWindows where
  minute := quota.minute.bump (minuteOf now)
  hour := quota.hour.bump (hourOf now)

/-- `consume_sql!` on one row; `none` when no row was affected. -/
def consume (quota : QuotaWindows) (limits : Limits) (now : Int) : Option QuotaWindows :=
  if hasRoom quota limits now then some (count quota now) else none

/-- Counts one event against every quota window, or none of them: the windows of
the installation and of the project after it, or the scope that was full. -/
def tryConsume (config : RateLimitConfig) (installation project : QuotaWindows)
    (own : OwnLimits) (now : Int) : Except QuotaScope (QuotaWindows × QuotaWindows) :=
  match consume installation config.installation now with
  | none => .error .installation
  | some installation =>
      match consume project (projectLimits config own) now with
      | none => .error .project
      | some project => .ok (installation, project)

/-- Seconds until a full window rolls over, or `none` while both the current
minute and the current hour still have room. -/
def secondsWhileFull (quota : QuotaWindows) (limits : Limits) (now : Int) : Option Int :=
  let full (counter : FixedWindow Int) (limit length : Int) : Option Int :=
    if counter.window = now / length ∧ counter.count ≥ limit then some (length - now % length)
    else none
  (full quota.hour limits.perHour 3600).or (full quota.minute limits.perMinute 60)

/-- Result when a quota is exceeded. -/
structure QuotaExceeded where
  retryAfter : Int
  scope : QuotaScope
  deriving DecidableEq, Repr

def checkQuota (config : RateLimitConfig) (installation project : QuotaWindows)
    (own : OwnLimits) (now : Int) : Option QuotaExceeded :=
  match secondsWhileFull installation config.installation now with
  | some retryAfter => some ⟨retryAfter, .installation⟩
  | none =>
      match secondsWhileFull project (projectLimits config own) now with
      | some retryAfter => some ⟨retryAfter, .project⟩
      | none => none

/-! ## What the two statements do -/

theorem consume_eq_some {quota quota' : QuotaWindows} {limits : Limits} {now : Int}
    (h : consume quota limits now = some quota') :
    hasRoom quota limits now = true ∧ quota' = count quota now := by
  unfold consume at h
  split_ifs at h with hroom
  exact ⟨hroom, (Option.some.inj h).symm⟩

theorem tryConsume_eq_ok {config : RateLimitConfig} {installation project : QuotaWindows}
    {own : OwnLimits} {now : Int} {after : QuotaWindows × QuotaWindows}
    (h : tryConsume config installation project own now = .ok after) :
    hasRoom installation config.installation now = true ∧
      hasRoom project (projectLimits config own) now = true ∧
      after = (count installation now, count project now) := by
  unfold tryConsume at h
  split at h
  · cases h
  · next hinstallation =>
      split at h
      · cases h
      · next hproject =>
          obtain ⟨hroom, rfl⟩ := consume_eq_some hinstallation
          obtain ⟨hroom', rfl⟩ := consume_eq_some hproject
          exact ⟨hroom, hroom', (Except.ok.inj h).symm⟩

theorem tryConsume_of_room {config : RateLimitConfig} {installation project : QuotaWindows}
    {own : OwnLimits} {now : Int} (hroom : hasRoom installation config.installation now = true)
    (hroom' : hasRoom project (projectLimits config own) now = true) :
    tryConsume config installation project own now =
      .ok (count installation now, count project now) := by
  simp [tryConsume, consume, hroom, hroom']

end Rustrak.Quota
