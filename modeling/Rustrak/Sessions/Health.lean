import Mathlib.Algebra.Order.BigOperators.Group.List
import Mathlib.Algebra.Order.Field.Basic
import Mathlib.Algebra.Order.Field.Rat
import Mathlib.Data.List.Sort
import Mathlib.Order.Monotone.Defs
import Rustrak.Sessions.Conservation

/-!
# Session health

`services/session.rs`: what the session service reports from the two tables, for each
release, for a project, and over time.  A crash-free rate is computed from the sums
of the rows a query selects.

A `f64` is the rational it stands for, and what an operation yields is the rounding
of the exact result.  Which rounding it is does not matter here; `Rounding` has the
three facts that do.

## Strategy

If no selected row has more crashed sessions than sessions, their sums do not either,
and then the quotient stays between zero and one through every rounding.
-/

namespace Rustrak.Sessions

open Rustrak.Relational

/-! ## Rates -/

/-- The rounding of `f64`: it keeps the order, and zero and one are numbers of it. -/
structure Rounding where
  round : ℚ → ℚ
  mono : Monotone round
  zero : round 0 = 0
  one : round 1 = 1

/-- `1.0 - crashed as f64 / total as f64`, if there is anything to divide by. -/
def crashFreeRate (f64 : Rounding) (total crashed : Int) : Option ℚ :=
  if total > 0 then some (f64.round (1 - f64.round (f64.round crashed / f64.round total)))
  else none

/-- A rate, if there is one, is between zero and one. -/
def IsRate (rate : Option ℚ) : Prop := ∀ r ∈ rate, 0 ≤ r ∧ r ≤ 1

/-- What lies between zero and one does so after it was rounded. -/
theorem Rounding.within (f64 : Rounding) {q : ℚ} (hq : 0 ≤ q) (hq' : q ≤ 1) :
    0 ≤ f64.round q ∧ f64.round q ≤ 1 := by
  have hlow := f64.mono hq
  have hhigh := f64.mono hq'
  rw [f64.zero] at hlow
  rw [f64.one] at hhigh
  exact ⟨hlow, hhigh⟩

theorem isRate_crashFreeRate (f64 : Rounding) {total crashed : Int} (hcrashed : 0 ≤ crashed)
    (hle : crashed ≤ total) : IsRate (crashFreeRate f64 total crashed) := by
  intro r hr
  unfold crashFreeRate at hr
  split_ifs at hr with htotal
  · obtain rfl := Option.some.inj hr
    have hone : (1 : ℚ) ≤ f64.round total := by
      have h : (1 : ℚ) ≤ total := by exact_mod_cast htotal
      calc (1 : ℚ) = f64.round 1 := f64.one.symm
        _ ≤ f64.round total := f64.mono h
    have hnonneg : 0 ≤ f64.round crashed := by
      have h : (0 : ℚ) ≤ crashed := by exact_mod_cast hcrashed
      calc (0 : ℚ) = f64.round 0 := f64.zero.symm
        _ ≤ f64.round crashed := f64.mono h
    have hround : f64.round crashed ≤ f64.round total := f64.mono (by exact_mod_cast hle)
    have hpos : 0 < f64.round total := lt_of_lt_of_le zero_lt_one hone
    obtain ⟨hlow, hhigh⟩ :=
      f64.within (div_nonneg hnonneg hpos.le) ((div_le_one hpos).mpr hround)
    exact f64.within (sub_nonneg.mpr hhigh) (sub_le_self 1 hlow)
  · cases hr

/-! ## What a query reads -/

/-- What a page's filters narrow a read to. -/
structure Scope where
  environment : Option String
  release : Option String

/-- `$n IS NULL OR column = $n`. -/
def matchesFilter (wanted : Option String) (column : String) : Bool :=
  wanted.all fun w => w = column

/-- `bucket >= now - hours`, for a window; `since` is where it begins. -/
def inPeriod (since : Option Int) (bucket : Int) : Bool := since.all fun t => t ≤ bucket

/-- The rows of `session_counts` a query selects. -/
def countRows (db : AggregatorState) (selected : BucketKey → Bool) : List Counters :=
  (db.counts.entries.filter fun e => selected e.1).map fun e => e.2

/-- `SUM(column)` as a 64-bit integer; the query fails if it is none. -/
def sumColumn (rows : List Counters) (c : Counter) : Option Int :=
  let sum := (rows.map fun n => n.get c).sum
  if -i64Max - 1 ≤ sum ∧ sum ≤ i64Max then some sum else none

/-- `COUNT(DISTINCT did)`. -/
def countUsers (db : AggregatorState) (selected : UserKey → Bool → Bool) : Int :=
  ((db.users.entries.filter fun e => selected e.1 e.2).map fun e => e.1.did).toFinset.card

/-- The rate of the users a query selects. -/
def crashFreeUsersRate (f64 : Rounding) (db : AggregatorState) (selected : UserKey → Bool) :
    Option ℚ :=
  crashFreeRate f64 (countUsers db fun u _ => selected u)
    (countUsers db fun u crashed => selected u && crashed)

/-! ## The service -/

structure ReleaseHealthRow where
  release : String
  environment : String
  total : Int
  errored : Int
  crashed : Int
  abnormal : Int
  healthy : Int
  crashFreeSessionsRate : Option ℚ
  crashFreeUsersRate : Option ℚ
  deriving DecidableEq

structure SessionSummary where
  total : Int
  errored : Int
  crashed : Int
  abnormal : Int
  crashFreeSessionsRate : Option ℚ
  crashFreeUsersRate : Option ℚ
  activeReleases : Nat
  deriving DecidableEq

structure SessionTimeseriesPoint where
  bucket : Int
  total : Int
  crashed : Int
  crashFreeSessionsRate : Option ℚ
  deriving DecidableEq

/-- The group of a release and an environment. -/
def releaseHealthRow (f64 : Rounding) (db : AggregatorState) (projectId : Int)
    (since : Option Int) (release environment : String) : Option ReleaseHealthRow := do
  let rows := countRows db fun k =>
    k.projectId = projectId && inPeriod since k.bucket && k.release = release &&
      k.environment = environment
  let total ← sumColumn rows .total
  let errored ← sumColumn rows .errored
  let crashed ← sumColumn rows .crashed
  let abnormal ← sumColumn rows .abnormal
  return {
    release
    environment
    total
    errored
    crashed
    abnormal
    -- Sentry clamps healthy, so an SDK that resends a terminal update cannot drive
    -- it negative.  The rate it leaves as it is.
    healthy := max (total - errored - crashed - abnormal) 0
    crashFreeSessionsRate := crashFreeRate f64 total crashed
    crashFreeUsersRate := Sessions.crashFreeUsersRate f64 db fun u =>
      u.projectId = projectId && inPeriod (since.map dateNaive) u.day && u.release = release &&
        u.environment = environment }

/-- `ORDER BY total DESC, release ASC, environment ASC`. -/
def ReleaseHealthRow.before (collate : String → String → Ordering) (a b : ReleaseHealthRow) :
    Bool :=
  (compare b.total a.total |>.then (collate a.release b.release)
    |>.then (collate a.environment b.environment)).isLE

/-- The rows before a 1-indexed page. -/
def offset (page perPage : Int) : Nat := ((max page 1 - 1) * max perPage 0).toNat

/-- `query_release_health`: a page of the rows of a project, of one release if it is
given, with the number of groups.  `collate` is how the database orders texts. -/
def queryReleaseHealth (f64 : Rounding) (collate : String → String → Ordering)
    (db : AggregatorState) (projectId : Int) (since : Option Int) (release : Option String)
    (page perPage : Int) : Option (List ReleaseHealthRow × Nat) := do
  let perPage := max perPage 1
  let groups := ((db.counts.keys.filter fun k =>
    k.projectId = projectId && inPeriod since k.bucket && matchesFilter release k.release).map
      fun k => (k.release, k.environment)).dedup
  let rows ← groups.mapM fun (release, environment) =>
    releaseHealthRow f64 db projectId since release environment
  let sorted := rows.insertionSort fun a b => a.before collate b
  return ((sorted.drop (offset page perPage)).take perPage.toNat, groups.length)

/-- The rows of a project in a scope. -/
def scopedRow (projectId : Int) (since : Option Int) (scope : Scope) (k : BucketKey) : Bool :=
  k.projectId = projectId && matchesFilter scope.environment k.environment &&
    matchesFilter scope.release k.release && inPeriod since k.bucket

/-- `query_project_summary`. -/
def queryProjectSummary (f64 : Rounding) (db : AggregatorState) (projectId : Int)
    (since : Option Int) (scope : Scope) : Option SessionSummary := do
  let rows := countRows db (scopedRow projectId since scope)
  let total ← sumColumn rows .total
  let errored ← sumColumn rows .errored
  let crashed ← sumColumn rows .crashed
  let abnormal ← sumColumn rows .abnormal
  let active := db.counts.entries.filter fun e =>
    scopedRow projectId since scope e.1 && decide (e.2.total > 0)
  return {
    total
    errored
    crashed
    abnormal
    crashFreeSessionsRate := crashFreeRate f64 total crashed
    crashFreeUsersRate := crashFreeUsersRate f64 db fun u =>
      u.projectId = projectId && matchesFilter scope.environment u.environment &&
        matchesFilter scope.release u.release && inPeriod (since.map dateNaive) u.day
    activeReleases := (active.map fun e => e.1.release).toFinset.card }

/-- The point of a time series a bucket belongs to.  PostgreSQL rounds down, SQLite
towards zero. -/
def slotOf (postgres : Bool) (intervalSeconds bucket : Int) : Int :=
  (if postgres then bucket.fdiv intervalSeconds else bucket.tdiv intervalSeconds) *
    intervalSeconds

/-- `query_session_timeseries`. -/
def querySessionTimeseries (f64 : Rounding) (postgres : Bool) (db : AggregatorState)
    (projectId : Int) (since : Option Int) (intervalHours : Int) (scope : Scope) :
    Option (List SessionTimeseriesPoint) :=
  let slot := slotOf postgres (max intervalHours 1 * 3600)
  let slots := (((db.counts.keys.filter (scopedRow projectId since scope)).map fun k =>
    slot k.bucket).dedup).insertionSort fun a b => a ≤ b
  slots.mapM fun bucket => do
    let rows := countRows db fun k => scopedRow projectId since scope k && slot k.bucket = bucket
    let total ← sumColumn rows .total
    let crashed ← sumColumn rows .crashed
    return {
      bucket
      total
      crashed
      crashFreeSessionsRate := crashFreeRate f64 total crashed }

/-- A crash-free session rate the service reports. -/
inductive ReportedRate (f64 : Rounding) (db : AggregatorState) : Option ℚ → Prop
  | release {collate : String → String → Ordering} {projectId page perPage : Int}
      {since : Option Int} {release : Option String} {rows : List ReleaseHealthRow} {n : Nat}
      {row : ReleaseHealthRow} :
      queryReleaseHealth f64 collate db projectId since release page perPage = some (rows, n) →
      row ∈ rows → ReportedRate f64 db row.crashFreeSessionsRate
  | summary {projectId : Int} {since : Option Int} {scope : Scope} {summary : SessionSummary} :
      queryProjectSummary f64 db projectId since scope = some summary →
      ReportedRate f64 db summary.crashFreeSessionsRate
  | point {postgres : Bool} {projectId intervalHours : Int} {since : Option Int} {scope : Scope}
      {points : List SessionTimeseriesPoint} {point : SessionTimeseriesPoint} :
      querySessionTimeseries f64 postgres db projectId since intervalHours scope = some points →
      point ∈ points → ReportedRate f64 db point.crashFreeSessionsRate

/-! ## Rates of balanced rows -/

namespace AggregatorState

variable (s : AggregatorState)

/-- The sessions of a bucket that ended badly. -/
def unhealthy (k : BucketKey) : Int :=
  s.value k .errored + s.value k .crashed + s.value k .abnormal

/-- No bucket has more sessions that ended badly than sessions. -/
def Balanced : Prop := ∀ k, s.unhealthy k ≤ s.value k .total

end AggregatorState

variable {f64 : Rounding} {db : AggregatorState}

private theorem le_of_mem_countRows {selected : BucketKey → Bool} (hnonneg : db.Nonneg)
    (hbalanced : db.Balanced) {n : Counters} (hn : n ∈ countRows db selected) :
    0 ≤ n.crashed ∧ n.crashed ≤ n.total := by
  obtain ⟨⟨key, row⟩, hentry, rfl⟩ := List.mem_map.mp hn
  have hlookup : db.counts.lookup key = some row :=
    AList.mem_lookup_iff.mpr (List.mem_filter.mp hentry).1
  have hvalue : ∀ c, db.value key c = row.get c := by
    intro c
    unfold AggregatorState.value
    rw [hlookup]
    rfl
  have hcrashed := hnonneg key .crashed
  have herrored := hnonneg key .errored
  have habnormal := hnonneg key .abnormal
  have hbad := hbalanced key
  unfold AggregatorState.unhealthy at hbad
  simp only [hvalue, Counters.get] at hcrashed herrored habnormal hbad
  constructor
  · exact hcrashed
  · show row.crashed ≤ row.total
    omega

/-- The sums of a query are those of its rows. -/
private theorem sumColumn_eq {rows : List Counters} {c : Counter} {n : Int}
    (h : sumColumn rows c = some n) : n = (rows.map fun r => r.get c).sum := by
  unfold sumColumn at h
  dsimp only at h
  split_ifs at h
  exact (Option.some.inj h).symm

private theorem isRate_of_sums {selected : BucketKey → Bool} (hnonneg : db.Nonneg)
    (hbalanced : db.Balanced) {total crashed : Int}
    (htotal : sumColumn (countRows db selected) .total = some total)
    (hcrashed : sumColumn (countRows db selected) .crashed = some crashed) :
    IsRate (crashFreeRate f64 total crashed) := by
  have hrow := fun n (hn : n ∈ countRows db selected) =>
    le_of_mem_countRows hnonneg hbalanced hn
  rw [sumColumn_eq htotal, sumColumn_eq hcrashed]
  apply isRate_crashFreeRate
  · apply List.sum_nonneg
    intro x hx
    obtain ⟨n, hn, rfl⟩ := List.mem_map.mp hx
    exact (hrow n hn).1
  · apply List.sum_le_sum
    intro n hn
    exact (hrow n hn).2

private theorem mem_of_mapM {α β : Type*} {f : α → Option β} {l : List α} {bs : List β}
    (h : l.mapM f = some bs) {b : β} (hb : b ∈ bs) : ∃ a ∈ l, f a = some b := by
  induction l generalizing bs with
  | nil =>
      obtain rfl := Option.some.inj h
      cases hb
  | cons a rest ih =>
      rw [List.mapM_cons] at h
      obtain ⟨first, hfirst, h⟩ := Option.bind_eq_some_iff.mp h
      obtain ⟨others, hothers, h⟩ := Option.bind_eq_some_iff.mp h
      obtain rfl := Option.some.inj h
      rcases List.mem_cons.mp hb with rfl | hb
      · exact ⟨a, List.mem_cons_self, hfirst⟩
      · obtain ⟨a', ha', hb'⟩ := ih hothers hb
        exact ⟨a', List.mem_cons_of_mem a ha', hb'⟩

private theorem isRate_releaseHealthRow (hnonneg : db.Nonneg) (hbalanced : db.Balanced)
    {projectId : Int} {since : Option Int} {release environment : String} {row : ReleaseHealthRow}
    (h : releaseHealthRow f64 db projectId since release environment = some row) :
    IsRate row.crashFreeSessionsRate := by
  obtain ⟨total, htotal, h⟩ := Option.bind_eq_some_iff.mp h
  obtain ⟨errored, -, h⟩ := Option.bind_eq_some_iff.mp h
  obtain ⟨crashed, hcrashed, h⟩ := Option.bind_eq_some_iff.mp h
  obtain ⟨abnormal, -, h⟩ := Option.bind_eq_some_iff.mp h
  obtain rfl := Option.some.inj h
  exact isRate_of_sums hnonneg hbalanced htotal hcrashed

/-- From balanced rows the service reports rates. -/
theorem isRate_of_balanced (hnonneg : db.Nonneg) (hbalanced : db.Balanced) {rate : Option ℚ}
    (h : ReportedRate f64 db rate) : IsRate rate := by
  cases h with
  | release hquery hrow =>
      obtain ⟨rows, hrows, h⟩ := Option.bind_eq_some_iff.mp hquery
      obtain rfl := (Prod.mk.inj (Option.some.inj h)).1
      have hsorted := List.mem_of_mem_drop (List.mem_of_mem_take hrow)
      obtain ⟨group, -, hgroup⟩ := mem_of_mapM hrows (List.mem_insertionSort _ |>.mp hsorted)
      exact isRate_releaseHealthRow hnonneg hbalanced hgroup
  | summary hquery =>
      obtain ⟨total, htotal, h⟩ := Option.bind_eq_some_iff.mp hquery
      obtain ⟨errored, -, h⟩ := Option.bind_eq_some_iff.mp h
      obtain ⟨crashed, hcrashed, h⟩ := Option.bind_eq_some_iff.mp h
      obtain ⟨abnormal, -, h⟩ := Option.bind_eq_some_iff.mp h
      obtain rfl := Option.some.inj h
      exact isRate_of_sums hnonneg hbalanced htotal hcrashed
  | point hquery hpoint =>
      obtain ⟨bucket, -, h⟩ := mem_of_mapM hquery hpoint
      obtain ⟨total, htotal, h⟩ := Option.bind_eq_some_iff.mp h
      obtain ⟨crashed, hcrashed, h⟩ := Option.bind_eq_some_iff.mp h
      obtain rfl := Option.some.inj h
      exact isRate_of_sums hnonneg hbalanced htotal hcrashed

/-- Of users it reports rates in any case: a user who had a crash is one of them. -/
theorem isRate_crashFreeUsersRate (f64 : Rounding) (db : AggregatorState)
    (selected : UserKey → Bool) : IsRate (crashFreeUsersRate f64 db selected) := by
  apply isRate_crashFreeRate
  · exact Int.natCast_nonneg _
  · apply Int.ofNat_le.mpr
    apply Finset.card_le_card
    intro did hdid
    obtain ⟨e, he, hid⟩ := List.mem_map.mp (List.mem_toFinset.mp hdid)
    obtain ⟨hentry, hselected⟩ := List.mem_filter.mp he
    have hselected' := (Bool.and_eq_true_iff.mp hselected).1
    exact List.mem_toFinset.mpr
      (List.mem_map.mpr ⟨e, List.mem_filter.mpr ⟨hentry, hselected'⟩, hid⟩)

end Rustrak.Sessions
