import Rustrak.Relational.Groups
import Rustrak.Timeseries.Clock

/-!
# The figures of an endpoint

`stats_for_group` and `group_timeseries` of `services/transaction.rs` answer two requests with the
same query: the one sums up the samples of an endpoint in a window, and the other spreads them
over buckets.  A sample whose bucket is not there would be dropped without an error; the grid is
laid so that this never happens (`group_series_exact`).
-/

namespace Rustrak.Timeseries

open Rustrak.Relational
open Rustrak.Series
open Rustrak.Spans (Backend second hour dayOf)

variable {Double : Type}

/-- The columns of `transactions` that are read. -/
structure TransactionRow (Double : Type) where
  projectId : ℤ
  transactionName : String
  op : Option String
  status : Option String
  environment : String
  timestamp : Instant
  durationMs : Option Double

inductive StatsSort
  | timeSpent
  | count
  | avg
  | failureRate
  deriving DecidableEq, Repr

structure StatsFilter where
  environment : Option String
  periodHours : Option ℤ
  query : Option String
  sort : StatsSort
  deriving DecidableEq, Repr

/-- A row of the query of `grouped`. -/
structure GroupRow (Double : Type) where
  transactionName : String
  op : Option String
  cnt : ℤ
  fails : ℤ
  total : Double
  avg : Double
  lastSeen : Option ℤ
  p50 : Double
  p95 : Double
  p99 : Double

structure TransactionStatsResponse (Double : Type) where
  transactionName : String
  op : Option String
  count : ℤ
  p50Ms : Double
  p95Ms : Double
  p99Ms : Double
  failureRate : Double
  avgMs : Double
  totalMs : Double
  timeShare : Double
  lastSeen : Option ℤ

structure TransactionTimeseriesPoint (Double : Type) where
  bucket : ℤ
  count : ℤ
  failures : ℤ
  p50Ms : Double
  p95Ms : Double

/-- What is done with doubles. -/
structure Doubles (Double : Type) where
  zero : Double
  sum : List Double → Double
  mean : List Double → Double
  /-- Of two whole numbers. -/
  rate : ℤ → ℤ → Double
  /-- A part of a whole, if that is more than nothing. -/
  share : Double → Double → Double
  sort : List Double → List Double
  sort_perm : ∀ durations, (sort durations).Perm durations
  percentileCont : List Double → ℕ → Double

/-- The database.  What its `LIKE` finds by a search, the order in which it ranks groups and the
one in which it returns rows are not fixed. -/
structure Database (Double : Type) where
  backend : Backend
  outside : ℤ → Option (List Char)
  finds : String → String → Bool
  orderBy : StatsSort → List (GroupRow Double) → List (GroupRow Double)
  orderBy_perm : ∀ sort groups, (orderBy sort groups).Perm groups
  unordered : Unordered

/-! ## The code -/

/-- A trace status other than `ok`. -/
def isFailure (status : Option String) : Bool := status.any (· != "ok")

/-- `StatsFilter::condition`. -/
def StatsFilter.condition (filter : StatsFilter) (db : Database Double) (now : Instant)
    (row : TransactionRow Double) : Bool :=
  row.durationMs.isSome && filter.environment.all (row.environment == ·) &&
    filter.query.all (db.finds row.transactionName) &&
    since db.backend db.outside now filter.periodHours row.timestamp

/-- The rows that the queries of the statistics count. -/
def samples (db : Database Double) (now : Instant) (rows : List (TransactionRow Double))
    (projectId : ℤ) (filter : StatsFilter) (group : Option (String × Option String)) :
    List (TransactionRow Double) :=
  rows.filter fun row =>
    row.projectId == projectId && filter.condition db now row &&
      group.all fun group => row.transactionName == group.1 && row.op == group.2

section Code

variable (doubles : Doubles Double) (db : Database Double) (now : Instant)
  (rows : List (TransactionRow Double)) (projectId : ℤ)

/-- How many endpoints there are and the time they take in all. -/
def totals (filter : StatsFilter) : ℕ × Double :=
  let groups := groupBy (fun row => (row.transactionName, row.op))
    (samples db now rows projectId filter none)
  (groups.length, doubles.sum (groups.map fun g => doubles.sum (g.2.filterMap (·.durationMs))))

/-- On SQLite the durations are read once more, by a query with the same conditions. -/
def groupRow (g : (String × Option String) × List (TransactionRow Double)) : GroupRow Double :=
  let durations := g.2.filterMap (·.durationMs)
  { transactionName := g.1.1
    op := g.1.2
    cnt := g.2.length
    fails := g.2.countP fun row => isFailure row.status
    total := doubles.sum durations
    avg := doubles.mean durations
    lastSeen := (g.2.map (·.timestamp.nanos)).max?
    p50 := doubles.percentileCont (doubles.sort durations) 50
    p95 := doubles.percentileCont (doubles.sort durations) 95
    p99 := doubles.percentileCont (doubles.sort durations) 99 }

def groupResponse (time : Double) (row : GroupRow Double) : TransactionStatsResponse Double where
  transactionName := row.transactionName
  op := row.op
  count := row.cnt
  p50Ms := row.p50
  p95Ms := row.p95
  p99Ms := row.p99
  failureRate := if row.cnt > 0 then doubles.rate row.fails row.cnt else doubles.zero
  avgMs := row.avg
  totalMs := row.total
  timeShare := doubles.share row.total time
  lastSeen := row.lastSeen

def grouped (filter : StatsFilter) (group : Option (String × Option String)) (limit offset : ℕ)
    (time : Double) : List (TransactionStatsResponse Double) :=
  let groups := groupBy (fun row => (row.transactionName, row.op))
    (samples db now rows projectId filter group)
  (((db.orderBy filter.sort (groups.map (groupRow doubles))).drop offset).take limit).map
    (groupResponse doubles time)

def statsForGroup (name : String) (op : Option String) (filter : StatsFilter) :
    Option (TransactionStatsResponse Double) :=
  let time := (totals doubles db now rows projectId filter).2
  (grouped doubles db now rows projectId filter (some (name, op)) 1 0 time).getLast?

/-- The rows that `group_timeseries` reads. -/
def timeseriesRows (name : String) (op environment : Option String) (periodHours : Option ℤ) :
    List (Instant × Double × Option String) :=
  db.unordered.arrange ((rows.filter fun row =>
      row.projectId == projectId && row.transactionName == name && row.op == op &&
        row.durationMs.isSome && environment.all (row.environment == ·) &&
        since db.backend db.outside now periodHours row.timestamp).filterMap fun row =>
    row.durationMs.map fun duration => (row.timestamp, duration, row.status))

/-- All time: back to the oldest call, and never under a day. -/
def periodOf (now : ℤ) (found : List (Instant × Double × Option String))
    (periodHours : Option ℤ) : ℤ :=
  periodHours.getD <|
    match (found.map (·.1.timestamp)).min? with
    | none => 24
    | some ts => max ((now - ts).tdiv 3600 + 1) 24

/-- A sample is counted in its bucket; a clock running ahead counts in the current one. -/
def bucketOf (interval now : ℤ) (row : Instant × Double × Option String) : ℤ :=
  align interval (min row.1.timestamp now)

def addSample (bucket : List Double × ℤ) (row : Instant × Double × Option String) :
    List Double × ℤ :=
  (bucket.1 ++ [row.2.1], bucket.2 + if isFailure row.2.2 then 1 else 0)

def timeseriesPoint (bucket : ℤ × List Double × ℤ) : TransactionTimeseriesPoint Double :=
  let durations := doubles.sort bucket.2.1
  { bucket := (fromTimestamp bucket.1).getD 0
    count := durations.length
    failures := bucket.2.2
    p50Ms := doubles.percentileCont durations 50
    p95Ms := doubles.percentileCont durations 95 }

def groupTimeseries (name : String) (op environment : Option String) (periodHours : Option ℤ) :
    List (TransactionTimeseriesPoint Double) :=
  let found := timeseriesRows db now rows projectId name op environment periodHours
  let now := now.timestamp
  let periodHours := periodOf now found periodHours
  let interval := bucketHours periodHours * 3600
  let grid := steps interval (align interval (now - periodHours * 3600)) (align interval now)
  let buckets := found.foldl (put (bucketOf interval now) addSample) (grid.map fun b => (b, [], 0))
  buckets.map (timeseriesPoint doubles)

structure TransactionStatGroupQuery where
  name : String
  op : Option String
  environment : Option String
  period : Option String
  deriving DecidableEq, Repr

def TransactionStatGroupQuery.filter (query : TransactionStatGroupQuery) : StatsFilter where
  environment := query.environment.filter (· ≠ "")
  periodHours := parsePeriodHours query.period
  query := none
  sort := .timeSpent

/-- `get_transaction_stat_group`, none for the answer that there is no such group. -/
def getTransactionStatGroup (query : TransactionStatGroupQuery) :
    Option (TransactionStatsResponse Double) :=
  statsForGroup doubles db now rows projectId query.name query.op query.filter

def getTransactionStatGroupTimeseries (query : TransactionStatGroupQuery) :
    List (TransactionTimeseriesPoint Double) :=
  groupTimeseries doubles db now rows projectId query.name query.op query.filter.environment
    query.filter.periodHours

end Code

/-! ## What the statistics count -/

variable {doubles : Doubles Double} {db : Database Double} {now : Instant}
  {rows : List (TransactionRow Double)} {projectId : ℤ} {query : TransactionStatGroupQuery}

/-- The samples of an endpoint that the statistics count. -/
def counted (db : Database Double) (now : Instant) (rows : List (TransactionRow Double))
    (projectId : ℤ) (query : TransactionStatGroupQuery) : List (TransactionRow Double) :=
  samples db now rows projectId query.filter (some (query.name, query.op))

theorem mem_counted {row : TransactionRow Double} (h : row ∈ counted db now rows projectId query) :
    row.transactionName = query.name ∧ row.op = query.op ∧ row.durationMs.isSome = true ∧
      since db.backend db.outside now query.filter.periodHours row.timestamp = true := by
  simp only [counted, samples, StatsFilter.condition, List.mem_filter, Bool.and_eq_true,
    Option.all_some, beq_iff_eq] at h
  tauto

/-- The answer for an endpoint, from the samples that it counts. -/
theorem getTransactionStatGroup_eq :
    getTransactionStatGroup doubles db now rows projectId query =
      if counted db now rows projectId query = [] then none
      else some (groupResponse doubles (totals doubles db now rows projectId query.filter).2
        (groupRow doubles ((query.name, query.op), counted db now rows projectId query))) := by
  have hsamples : samples db now rows projectId query.filter (some (query.name, query.op)) =
      counted db now rows projectId query := rfl
  rw [getTransactionStatGroup, statsForGroup, grouped, hsamples]
  split_ifs with hempty
  · have hnil := (db.orderBy_perm query.filter.sort []).eq_nil
    simp [hempty, groupBy, hnil]
  · have hkeys : ∀ row ∈ counted db now rows projectId query,
        (row.transactionName, row.op) = (query.name, query.op) := by
      intro row hrow
      rw [(mem_counted hrow).1, (mem_counted hrow).2.1]
    have hgroup := groupBy_of_forall hempty hkeys
    have hone := List.perm_singleton.mp (db.orderBy_perm query.filter.sort
      [groupRow doubles ((query.name, query.op), counted db now rows projectId query)])
    simp [hgroup, hone]

/-- What the series is drawn from. -/
def drawn (db : Database Double) (now : Instant) (rows : List (TransactionRow Double))
    (projectId : ℤ) (query : TransactionStatGroupQuery) :
    List (Instant × Double × Option String) :=
  timeseriesRows db now rows projectId query.name query.op query.filter.environment
    query.filter.periodHours

/-- These are the same samples. -/
theorem drawn_perm :
    (drawn db now rows projectId query).Perm
      ((counted db now rows projectId query).filterMap fun row =>
        row.durationMs.map fun duration => (row.timestamp, duration, row.status)) := by
  refine (db.unordered.perm _).trans (List.Perm.of_eq ?_)
  congr 1
  apply List.filter_congr
  intro row _
  simp only [StatsFilter.condition, TransactionStatGroupQuery.filter, Option.all_none,
    Option.all_some, Bool.and_true]
  ac_rfl

/-- A count of what is drawn is one of the samples. -/
theorem countP_drawn (p : Instant → Option String → Bool) :
    ((drawn db now rows projectId query).countP fun row => p row.1 row.2.2) =
      (counted db now rows projectId query).countP fun row => p row.timestamp row.status := by
  rw [drawn_perm.countP_eq, List.countP_filterMap]
  apply List.countP_congr
  intro row hrow
  obtain ⟨duration, hduration⟩ := Option.isSome_iff_exists.mp (mem_counted hrow).2.2.1
  simp [hduration]

/-! ## The grid -/

/-- The samples are within the period, and a clock running ahead is held back. -/
theorem period_le {found : List (Instant × Double × Option String)}
    {row : Instant × Double × Option String} {periodHours : Option ℤ} (hrow : row ∈ found)
    (hsince : ∀ hours, periodHours = some hours → 0 ≤ hours ∧
      now.timestamp - hours * 3600 ≤ row.1.timestamp) :
    now.timestamp - periodOf now.timestamp found periodHours * 3600 ≤
      min row.1.timestamp now.timestamp := by
  cases periodHours with
  | some hours =>
      obtain ⟨hnonneg, hle⟩ := hsince hours rfl
      simp only [periodOf, Option.getD_some]
      omega
  | none =>
      simp only [periodOf, Option.getD_none]
      cases hmin : (found.map (·.1.timestamp)).min? with
      | none =>
          rw [List.min?_eq_none_iff, List.map_eq_nil_iff] at hmin
          simp [hmin] at hrow
      | some oldest =>
          have hle := (List.min?_eq_some_iff.mp hmin).2 _ (List.mem_map_of_mem hrow)
          dsimp only
          by_cases hfuture : now.timestamp < oldest
          · omega
          · rw [Int.tdiv_eq_ediv_of_nonneg (by omega)]
            omega

/-- The buckets have a time of their own: `chrono` has it. -/
theorem grid_start_bounds {found : List (Instant × Double × Option String)}
    {periodHours : Option ℤ} (hperiod : ∀ hours, periodHours = some hours → hours ≤ 2160) :
    -719528 * 86400 ≤ now.timestamp - periodOf now.timestamp found periodHours * 3600 - 86400 := by
  have hnow := now.timestamp_bounds
  cases periodHours with
  | some hours =>
      have hle := hperiod hours rfl
      simp only [periodOf, Option.getD_some]
      omega
  | none =>
      simp only [periodOf, Option.getD_none]
      cases hmin : (found.map (·.1.timestamp)).min? with
      | none =>
          dsimp only
          omega
      | some oldest =>
          obtain ⟨row, -, hrow⟩ := List.mem_map.mp (List.min?_eq_some_iff.mp hmin).1
          have holdest := row.1.timestamp_bounds
          dsimp only at hrow ⊢
          by_cases hfuture : now.timestamp < oldest
          · have hneg : (now.timestamp - oldest).tdiv 3600 ≤ 0 := by
              rw [← neg_neg (now.timestamp - oldest), Int.neg_tdiv]
              have hnonneg := @Int.tdiv_nonneg (-(now.timestamp - oldest)) 3600 (by omega) (by decide)
              omega
            omega
          · rw [Int.tdiv_eq_ediv_of_nonneg (by omega)]
            omega

/-! ## The series -/

/-- Every sample is in one bucket of the series, in which it falls or which is the current one.
The buckets are in order and without gaps, and they add up to the answer for the endpoint. -/
structure SeriesExact (doubles : Doubles Double) (now : Instant) (width : ℤ)
    (place : TransactionRow Double → ℤ) (found : List (TransactionRow Double))
    (stats : Option (TransactionStatsResponse Double))
    (series : List (TransactionTimeseriesPoint Double)) : Prop where
  sorted : (series.map (·.bucket)).Pairwise (· < ·)
  contiguous : (series.map (·.bucket)).IsChain fun a c => c = a + width
  placed : ∀ row ∈ found, place row ∈ series.map (·.bucket) ∧
    place row ≤ min row.timestamp.nanos now.nanos ∧
      min row.timestamp.nanos now.nanos < place row + width
  counts : ∀ point ∈ series,
    point.count = found.countP (fun row => decide (place row = point.bucket)) ∧
      point.failures =
        found.countP fun row => decide (place row = point.bucket) && isFailure row.status
  none_iff : stats = none ↔ found = []
  endpoint : ∀ answer, stats = some answer →
    answer.count = (series.map (·.count)).sum ∧
      answer.failureRate =
        doubles.rate (series.map (·.failures)).sum (series.map (·.count)).sum
  count_sum : (series.map (·.count)).sum = found.length
  failures_sum : (series.map (·.failures)).sum = found.countP fun row => isFailure row.status

theorem foldl_addSample (found : List (Instant × Double × Option String))
    (bucket : List Double × ℤ) :
    found.foldl addSample bucket = (bucket.1 ++ found.map (·.2.1),
      bucket.2 + (found.countP fun row => isFailure row.2.2 : ℕ)) := by
  induction found generalizing bucket with
  | nil => simp
  | cons row found ih =>
      rw [List.foldl_cons, ih, addSample]
      apply Prod.ext
      · simp
      · by_cases hfail : isFailure row.2.2 = true
        · simp [hfail]
          ring
        · simp [hfail]

/-- The point of a bucket, from the samples that fall in it. -/
def pointOf (doubles : Doubles Double) (interval now : ℤ)
    (found : List (Instant × Double × Option String)) (b : ℤ) :
    TransactionTimeseriesPoint Double :=
  let here := found.filter fun row => decide (bucketOf interval now row = b)
  timeseriesPoint doubles
    (b, here.map (·.2.1), (here.countP fun row => isFailure row.2.2 : ℕ))

theorem series_eq {interval first last now : ℤ} {found : List (Instant × Double × Option String)} :
    (found.foldl (put (bucketOf interval now) addSample)
      ((steps interval first last).map fun b => (b, [], 0))).map (timeseriesPoint doubles) =
      (steps interval first last).map (pointOf doubles interval now found) := by
  rw [foldl_put, List.map_map, List.map_map]
  apply List.map_congr_left
  intro b _
  simp [pointOf, foldl_addSample]

/-- The buckets from a second to the clock. -/
def gridFrom (interval : ℤ) (now : Instant) (start : ℤ) : List ℤ :=
  steps interval (align interval start) (align interval now.timestamp)

def seriesFrom (doubles : Doubles Double) (db : Database Double) (now : Instant)
    (rows : List (TransactionRow Double)) (projectId : ℤ) (query : TransactionStatGroupQuery)
    (interval start : ℤ) : List (TransactionTimeseriesPoint Double) :=
  (gridFrom interval now start).map
    (pointOf doubles interval now.timestamp (drawn db now rows projectId query))

/-- The bucket of a sample, in seconds. -/
def homeOf (interval : ℤ) (now : Instant) (row : TransactionRow Double) : ℤ :=
  align interval (min row.timestamp.timestamp now.timestamp)

section Points

variable {interval b : ℤ}

theorem pointOf_count :
    (pointOf doubles interval now.timestamp (drawn db now rows projectId query) b).count =
      (counted db now rows projectId query).countP fun row =>
        decide (homeOf interval now row = b) := by
  have hcount := @countP_drawn _ db now rows projectId query fun ts _ =>
    decide (align interval (min ts.timestamp now.timestamp) = b)
  simp only [pointOf, timeseriesPoint, (doubles.sort_perm _).length_eq, List.length_map,
    ← List.countP_eq_length_filter]
  exact congrArg Nat.cast hcount

theorem pointOf_failures :
    (pointOf doubles interval now.timestamp (drawn db now rows projectId query) b).failures =
      (counted db now rows projectId query).countP fun row =>
        decide (homeOf interval now row = b) && isFailure row.status := by
  have hcount := @countP_drawn _ db now rows projectId query fun ts status =>
    isFailure status && decide (align interval (min ts.timestamp now.timestamp) = b)
  simp only [pointOf, timeseriesPoint, List.countP_filter]
  refine (congrArg Nat.cast hcount).trans (congrArg Nat.cast ?_)
  exact List.countP_congr fun row _ => by rw [Bool.and_comm]; rfl

end Points

/-! ### A grid from before the first sample to the clock -/

section Grid

variable {interval start : ℤ} (hpos : 0 < interval)
include hpos

theorem bucket_pointOf (hle : interval ≤ 86400) (hlow : -719528 * 86400 ≤ start - 86400) {b : ℤ}
    (hb : b ∈ gridFrom interval now start) (found : List (Instant × Double × Option String)) :
    (pointOf doubles interval now.timestamp found b).bucket = b * second := by
  obtain ⟨-, hfirst, hlast⟩ := (mem_grid hpos).mp hb
  have hnow := now.timestamp_bounds
  have halign := @lt_align_add _ start hpos
  have hlow' : -719528 * 86400 ≤ b := by linarith
  have hhigh : b < 2932897 * 86400 := by linarith
  simp only [pointOf, timeseriesPoint, fromTimestamp_eq hlow' hhigh, Option.getD_some]

theorem map_bucket_seriesFrom (hle : interval ≤ 86400) (hlow : -719528 * 86400 ≤ start - 86400) :
    (seriesFrom doubles db now rows projectId query interval start).map (·.bucket) =
      (gridFrom interval now start).map (· * second) := by
  rw [seriesFrom, List.map_map]
  exact List.map_congr_left fun b hb => bucket_pointOf hpos hle hlow hb _

variable (hstart : ∀ row ∈ counted db now rows projectId query,
  start ≤ min row.timestamp.timestamp now.timestamp)
include hstart

theorem homeOf_mem_gridFrom {row : TransactionRow Double}
    (hrow : row ∈ counted db now rows projectId query) :
    homeOf interval now row ∈ gridFrom interval now start :=
  align_mem_grid hpos (hstart row hrow) (min_le_right _ _)

/-- The samples of the buckets, taken together. -/
theorem sum_homeOf (p : TransactionRow Double → Bool) :
    ((gridFrom interval now start).map fun b =>
      ((counted db now rows projectId query).countP fun row =>
        decide (homeOf interval now row = b) && p row : ℤ)).sum =
      (counted db now rows projectId query).countP p := by
  rw [sum_countP_keys _ _ _ (show (gridFrom interval now start).Nodup from
    (pairwise_steps hpos).nodup)]
  refine congrArg Nat.cast (List.countP_congr fun row hrow => ?_)
  simp [homeOf_mem_gridFrom hpos hstart hrow]

theorem sum_count_seriesFrom :
    ((seriesFrom doubles db now rows projectId query interval start).map (·.count)).sum =
      (counted db now rows projectId query).length := by
  have hall := sum_homeOf hpos hstart fun _ => true
  simp only [Bool.and_true, List.countP_true] at hall
  rw [seriesFrom, List.map_map, ← hall]
  exact congrArg List.sum (List.map_congr_left fun b _ => pointOf_count)

theorem sum_failures_seriesFrom :
    ((seriesFrom doubles db now rows projectId query interval start).map (·.failures)).sum =
      (counted db now rows projectId query).countP fun row => isFailure row.status := by
  rw [seriesFrom, List.map_map, ← sum_homeOf hpos hstart]
  exact congrArg List.sum (List.map_congr_left fun b _ => pointOf_failures)

theorem seriesFrom_exact (hle : interval ≤ 86400) (hlow : -719528 * 86400 ≤ start - 86400) :
    SeriesExact doubles now (interval * second) (fun row => homeOf interval now row * second)
      (counted db now rows projectId query)
      (getTransactionStatGroup doubles db now rows projectId query)
      (seriesFrom doubles db now rows projectId query interval start) := by
  have hsecond : (0 : ℤ) < second := by decide
  have hbuckets := @map_bucket_seriesFrom _ doubles db now rows projectId query _ _ hpos hle hlow
  have hcounts := @sum_count_seriesFrom _ doubles db now rows projectId query _ _ hpos hstart
  have hfailures := @sum_failures_seriesFrom _ doubles db now rows projectId query _ _ hpos hstart
  refine ⟨?_, ?_, fun row hrow => ⟨?_, ?_, ?_⟩, fun point hpoint => ?_, ?_, ?_, hcounts, hfailures⟩
  · rw [hbuckets, List.pairwise_map]
    exact (pairwise_steps hpos).imp fun h => mul_lt_mul_of_pos_right h hsecond
  · rw [hbuckets, List.isChain_map]
    apply isChain_steps.imp
    rintro a _ rfl
    ring
  · rw [hbuckets]
    exact List.mem_map_of_mem (homeOf_mem_gridFrom hpos hstart hrow)
  · have hfirst := @align_le _ (min row.timestamp.timestamp now.timestamp) hpos
    unfold homeOf
    unfold Instant.timestamp second at *
    omega
  · have hlast := @lt_align_add _ (min row.timestamp.timestamp now.timestamp) hpos
    unfold homeOf
    unfold Instant.timestamp second at *
    omega
  · obtain ⟨b, hb, rfl⟩ := List.mem_map.mp hpoint
    have hcancel : ∀ a : ℤ, a * second = b * second ↔ a = b :=
      fun a => mul_left_inj' hsecond.ne'
    simp only [bucket_pointOf hpos hle hlow hb, hcancel]
    exact ⟨pointOf_count, pointOf_failures⟩
  · rw [getTransactionStatGroup_eq]
    split_ifs with hempty <;> simp [hempty]
  · intro answer hanswer
    rw [getTransactionStatGroup_eq] at hanswer
    split_ifs at hanswer with hempty
    obtain rfl := Option.some.inj hanswer
    have hlength := List.length_pos_iff.mpr hempty
    rw [hcounts, hfailures]
    exact ⟨rfl, if_pos (Int.natCast_pos.mpr hlength)⟩

end Grid

/-- The series of an endpoint loses nothing. -/
theorem group_series_exact (doubles : Doubles Double) (db : Database Double) (now : Instant)
    (rows : List (TransactionRow Double)) (projectId : ℤ) (query : TransactionStatGroupQuery) :
    ∃ width place, 0 < width ∧
      SeriesExact doubles now width place (counted db now rows projectId query)
        (getTransactionStatGroup doubles db now rows projectId query)
        (getTransactionStatGroupTimeseries doubles db now rows projectId query) := by
  let period := periodOf now.timestamp (drawn db now rows projectId query) query.filter.periodHours
  obtain ⟨hone, hday⟩ := bucketHours_bounds period
  have hpos : 0 < bucketHours period * 3600 := by omega
  have hstart : ∀ row ∈ counted db now rows projectId query,
      now.timestamp - period * 3600 ≤ min row.timestamp.timestamp now.timestamp := by
    intro row hrow
    obtain ⟨-, -, hduration, hsince⟩ := mem_counted hrow
    obtain ⟨duration, hduration⟩ := Option.isSome_iff_exists.mp hduration
    have hdrawn : (row.timestamp, duration, row.status) ∈ drawn db now rows projectId query :=
      drawn_perm.mem_iff.mpr (List.mem_filterMap.mpr ⟨row, hrow, by rw [hduration]; rfl⟩)
    refine period_le hdrawn fun hours hhours => ?_
    obtain ⟨hmin, hmax⟩ := parsePeriodHours_bounds hhours
    rw [hhours] at hsince
    exact ⟨by omega, le_of_since hmin hmax hsince⟩
  have hlow : -719528 * 86400 ≤ now.timestamp - period * 3600 - 86400 :=
    grid_start_bounds fun hours h => (parsePeriodHours_bounds h).2
  have hseries : getTransactionStatGroupTimeseries doubles db now rows projectId query =
      seriesFrom doubles db now rows projectId query (bucketHours period * 3600)
        (now.timestamp - period * 3600) := series_eq
  rw [hseries]
  exact ⟨_, _, mul_pos hpos (by decide), seriesFrom_exact hpos hstart (by omega) hlow⟩

end Rustrak.Timeseries
