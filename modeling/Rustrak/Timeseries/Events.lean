import Rustrak.Timeseries.Endpoint

/-!
# The volume of events

`event_timeseries` of `services/stats.rs`: the database groups the error events of a project into
buckets, of which it knows those that are not empty, and `zero_fill` adds the others up to the
clock.  Events ahead of the clock make points beyond the grid, which are kept.
-/

namespace Rustrak.Timeseries

open Rustrak.Relational
open Rustrak.Series
open Rustrak.Spans (Backend second hour dayOf)

/-- The columns of `events` that are read. -/
structure EventRow where
  projectId : ℤ
  eventType : String
  environment : String
  release : String
  level : Option String
  ingestedAt : Instant
  deriving DecidableEq

structure Scope where
  environment : Option String
  release : Option String
  deriving DecidableEq, Repr

structure EventTimeseriesPoint where
  bucket : ℤ
  total : ℤ
  fatal : ℤ
  error : ℤ
  warning : ℤ
  info : ℤ
  deriving DecidableEq, Repr

/-! ## The code -/

def namedLevels : List String := ["fatal", "error", "warning"]

/-- The beginning of the bucket of an event, in seconds: the quotient is rounded down, or cut off
if the division is of whole numbers. -/
def eventBucket (backend : Backend) (intervalSecs : ℤ) (instant : Instant) : ℤ :=
  match backend with
  | .postgres => instant.nanos / (intervalSecs * second) * intervalSecs
  | .sqlite => instant.timestamp.tdiv intervalSecs * intervalSecs

def levelCount (level : String) (rows : List EventRow) : ℤ :=
  rows.countP fun row => row.level.getD "" == level

def eventPoint (g : ℤ × List EventRow) : EventTimeseriesPoint where
  bucket := g.1 * second
  total := g.2.length
  fatal := levelCount "fatal" g.2
  error := levelCount "error" g.2
  warning := levelCount "warning" g.2
  info := g.2.countP fun row => !namedLevels.contains (row.level.getD "")

def sortByBucket (points : List EventTimeseriesPoint) : List EventTimeseriesPoint :=
  points.mergeSort fun p q => decide (p.bucket ≤ q.bucket)

def queryEventTimeseries (backend : Backend) (outside : ℤ → Option (List Char)) (now : Instant)
    (rows : List EventRow) (projectId : ℤ) (periodHours : Option ℤ) (intervalSecs : ℤ)
    (scope : Scope) : List EventTimeseriesPoint :=
  let found := rows.filter fun row =>
    row.projectId == projectId && row.eventType == "error" &&
      scope.environment.all (row.environment == ·) && scope.release.all (row.release == ·) &&
      since backend outside now periodHours row.ingestedAt
  sortByBucket
    ((groupBy (fun row => eventBucket backend intervalSecs row.ingestedAt) found).map eventPoint)

def EventTimeseriesPoint.timestamp (point : EventTimeseriesPoint) : ℤ := point.bucket / second

def zeroPoint (now : Instant) (ts : ℤ) : EventTimeseriesPoint where
  bucket := (fromTimestamp ts).getD now.nanos
  total := 0
  fatal := 0
  error := 0
  warning := 0
  info := 0

/-- Points that are left are put behind the others, in any order, and all are sorted. -/
def zeroFill (unordered : Unordered) (points : List EventTimeseriesPoint)
    (hours intervalSecs : ℤ) (now : Instant) : List EventTimeseriesPoint :=
  let last := align intervalSecs now.timestamp
  let first := align intervalSecs (now.timestamp - hours * 3600)
  let (filled, left) := fillFrom (·.timestamp) (zeroPoint now) (steps intervalSecs first last)
    (collect (·.timestamp) points)
  if left = [] then filled
  else sortByBucket (filled ++ unordered.arrange left)

def eventTimeseries (backend : Backend) (outside : ℤ → Option (List Char))
    (unordered : Unordered) (now : Instant) (rows : List EventRow) (projectId : ℤ)
    (periodHours : Option ℤ) (intervalHours : ℤ) (scope : Scope) : List EventTimeseriesPoint :=
  let intervalSecs := max intervalHours 1 * 3600
  let points := queryEventTimeseries backend outside now rows projectId periodHours intervalSecs
    scope
  let first := points.head?.map fun p => (now.nanos - p.bucket).tdiv hour
  match periodHours.or first with
  | none => points
  | some hours => zeroFill unordered points hours intervalSecs now

structure EventTimeseriesQuery where
  period : Option String
  interval : Option ℤ
  environment : Option String
  release : Option String
  deriving DecidableEq, Repr

def EventTimeseriesQuery.periodHours (query : EventTimeseriesQuery) : Option ℤ :=
  parsePeriodHours query.period

def EventTimeseriesQuery.intervalHours (query : EventTimeseriesQuery) : ℤ :=
  max 1 (min (query.interval.getD 1) 24)

def EventTimeseriesQuery.scope (query : EventTimeseriesQuery) : Scope where
  environment := query.environment
  release := query.release

/-- The points that the database gives for a request. -/
def pointsRead (backend : Backend) (outside : ℤ → Option (List Char)) (now : Instant)
    (rows : List EventRow) (projectId : ℤ) (query : EventTimeseriesQuery) :
    List EventTimeseriesPoint :=
  queryEventTimeseries backend outside now rows projectId query.periodHours
    (max query.intervalHours 1 * 3600) query.scope

def getEventTimeseries (backend : Backend) (outside : ℤ → Option (List Char))
    (unordered : Unordered) (now : Instant) (rows : List EventRow) (projectId : ℤ)
    (query : EventTimeseriesQuery) : List EventTimeseriesPoint :=
  eventTimeseries backend outside unordered now rows projectId query.periodHours
    query.intervalHours query.scope

/-! ## The points of the database -/

section Points

variable {backend : Backend} {outside : ℤ → Option (List Char)} {unordered : Unordered}
  {now : Instant} {rows : List EventRow} {projectId hours intervalSecs : ℤ}
  {periodHours : Option ℤ} {scope : Scope} {points : List EventTimeseriesPoint}
  {point : EventTimeseriesPoint}

theorem dvd_eventBucket (instant : Instant) :
    intervalSecs ∣ eventBucket backend intervalSecs instant := by
  cases backend with
  | postgres => exact Int.dvd_mul_left _ _
  | sqlite => exact Int.dvd_mul_left _ _

theorem lt_eventBucket (hpos : 0 < intervalSecs) (instant : Instant) :
    instant.timestamp - intervalSecs < eventBucket backend intervalSecs instant := by
  cases backend with
  | postgres =>
      have halign := @lt_align_add _ instant.timestamp hpos
      have hbucket : eventBucket .postgres intervalSecs instant =
          align intervalSecs instant.timestamp := by
        rw [eventBucket, align, Instant.timestamp, mul_comm intervalSecs,
          Int.ediv_ediv_of_nonneg (by decide)]
      linarith
  | sqlite =>
      have hdiv := Int.tmod_add_mul_tdiv instant.timestamp intervalSecs
      have hmod := Int.tmod_lt_of_pos instant.timestamp hpos
      rw [eventBucket, mul_comm]
      linarith

@[simp] theorem timestamp_eventPoint (g : ℤ × List EventRow) : (eventPoint g).timestamp = g.1 :=
  Int.mul_ediv_cancel _ (by decide)

theorem sortByBucket_perm (points : List EventTimeseriesPoint) :
    (sortByBucket points).Perm points :=
  List.mergeSort_perm _ _

theorem sorted_sortByBucket (points : List EventTimeseriesPoint) :
    ((sortByBucket points).map (·.bucket)).Pairwise (· ≤ ·) := by
  rw [List.pairwise_map]
  refine (List.pairwise_mergeSort ?_ ?_ points).imp of_decide_eq_true
  · intro p q r hpq hqr
    exact decide_eq_true ((of_decide_eq_true hpq).trans (of_decide_eq_true hqr))
  · intro p q
    simpa using le_total p.bucket q.bucket

theorem mem_queryEventTimeseries
    (h : point ∈ queryEventTimeseries backend outside now rows projectId periodHours intervalSecs
      scope) :
    ∃ instant, point.timestamp = eventBucket backend intervalSecs instant ∧
      point.bucket = eventBucket backend intervalSecs instant * second := by
  obtain ⟨g, hg, rfl⟩ := List.mem_map.mp ((sortByBucket_perm _).mem_iff.mp h)
  obtain ⟨k, hk, rfl⟩ := List.mem_map.mp hg
  obtain ⟨row, -, rfl⟩ := List.mem_map.mp (List.mem_dedup.mp hk)
  exact ⟨row.ingestedAt, timestamp_eventPoint _, rfl⟩

/-- The database groups by the bucket. -/
theorem nodup_queryEventTimeseries :
    ((queryEventTimeseries backend outside now rows projectId periodHours intervalSecs scope).map
      (·.timestamp)).Nodup := by
  refine (((sortByBucket_perm _).map _).nodup_iff).mpr ?_
  have hkeys : ∀ groups : List (ℤ × List EventRow),
      (groups.map eventPoint).map (·.timestamp) = groups.map Prod.fst := by
    intro groups
    rw [List.map_map]
    exact List.map_congr_left fun g _ => timestamp_eventPoint g
  rw [hkeys, map_fst_groupBy]
  exact List.nodup_dedup _

/-! ## The series -/

/-- Every point of the database is in the series once, and every bucket of the window has a point.
The buckets are in order, and the others are empty. -/
structure VolumeExact (now : Instant) (width : ℤ) (start : Option ℤ)
    (points series : List EventTimeseriesPoint) : Prop where
  sorted : (series.map (·.bucket)).Pairwise (· < ·)
  keeps : ∀ point ∈ points, series.count point = 1
  covers : ∀ first, start = some first → ∀ b, width ∣ b → first < b + width → b ≤ now.nanos →
    b ∈ series.map (·.bucket)
  adds : ∀ point ∈ series, point ∈ points ∨
    point = { bucket := point.bucket, total := 0, fatal := 0, error := 0, warning := 0, info := 0 }

/-- Points of whole seconds that are sorted by their buckets and differ in them. -/
theorem sorted_of_nodup {series : List EventTimeseriesPoint}
    (hsorted : (series.map (·.bucket)).Pairwise (· ≤ ·))
    (hwhole : ∀ point ∈ series, point.bucket = point.timestamp * second)
    (hnodup : (series.map (·.timestamp)).Nodup) :
    (series.map (·.bucket)).Pairwise (· < ·) := by
  rw [List.pairwise_map] at hsorted ⊢
  rw [List.Nodup, List.pairwise_map] at hnodup
  refine (hsorted.and hnodup).imp_of_mem fun {p q} hp hq h => lt_of_le_of_ne h.1 fun heq => h.2 ?_
  apply mul_right_cancel₀ (show second ≠ 0 by decide)
  rw [← hwhole p hp, ← hwhole q hq, heq]

/-- What `zero_fill` takes from the points, and what is left of them. -/
def fillOf (points : List EventTimeseriesPoint) (hours intervalSecs : ℤ) (now : Instant) :
    List EventTimeseriesPoint × List EventTimeseriesPoint :=
  fillFrom (·.timestamp) (zeroPoint now)
    (gridFrom intervalSecs now (now.timestamp - hours * 3600)) (collect (·.timestamp) points)

theorem zeroFill_eq : zeroFill unordered points hours intervalSecs now =
    if (fillOf points hours intervalSecs now).2 = [] then (fillOf points hours intervalSecs now).1
    else sortByBucket ((fillOf points hours intervalSecs now).1 ++
      unordered.arrange (fillOf points hours intervalSecs now).2) := rfl

theorem zeroFill_perm : (zeroFill unordered points hours intervalSecs now).Perm
    ((fillOf points hours intervalSecs now).1 ++ (fillOf points hours intervalSecs now).2) := by
  rw [zeroFill_eq]
  split_ifs with hleft
  · rw [hleft, List.append_nil]
  · exact (sortByBucket_perm _).trans ((unordered.perm _).append_left _)

/-- The points of the grid are at their own times, if `chrono` has these. -/
theorem zeroFill_exact (hpos : 0 < intervalSecs)
    (hwhole : ∀ point ∈ points, point.bucket = point.timestamp * second)
    (hnodup : (points.map (·.timestamp)).Nodup)
    (hchrono : ∀ b ∈ gridFrom intervalSecs now (now.timestamp - hours * 3600),
      fromTimestamp b = some (b * second)) :
    ((zeroFill unordered points hours intervalSecs now).map (·.bucket)).Pairwise (· < ·) ∧
      (∀ point ∈ zeroFill unordered points hours intervalSecs now,
        point.bucket = point.timestamp * second) ∧
      Filled (·.timestamp) (zeroPoint now)
        (gridFrom intervalSecs now (now.timestamp - hours * 3600)) points
        (zeroFill unordered points hours intervalSecs now) := by
  have hgrid : (gridFrom intervalSecs now (now.timestamp - hours * 3600)).Pairwise (· < ·) :=
    pairwise_steps hpos
  have hbucket : ∀ b ∈ gridFrom intervalSecs now (now.timestamp - hours * 3600),
      (zeroPoint now b).bucket = b * second := by
    intro b hb
    rw [zeroPoint, hchrono b hb, Option.getD_some]
  have hzero : ∀ b ∈ gridFrom intervalSecs now (now.timestamp - hours * 3600),
      (zeroPoint now b).timestamp = b := by
    intro b hb
    rw [EventTimeseriesPoint.timestamp, hbucket b hb]
    exact Int.mul_ediv_cancel _ (by decide)
  have hfilled := filled_of_perm hzero hgrid.nodup hnodup
    (@zeroFill_perm unordered now hours intervalSecs points)
  have hall : ∀ point ∈ zeroFill unordered points hours intervalSecs now,
      point.bucket = point.timestamp * second := by
    intro point hpoint
    rcases hfilled.adds point hpoint with hold | ⟨b, hb, -, rfl⟩
    · exact hwhole point hold
    · rw [hbucket b hb, hzero b hb]
  refine ⟨sorted_of_nodup ?_ hall hfilled.nodup, hall, hfilled⟩
  rw [zeroFill_eq] at hall ⊢
  split_ifs at hall ⊢ with hleft
  · have hkeys := map_key_fillFrom hzero hgrid.nodup (collect (·.timestamp) points)
    have htimes : (fillOf points hours intervalSecs now).1.map (·.bucket) =
        (gridFrom intervalSecs now (now.timestamp - hours * 3600)).map (· * second) := by
      rw [← hkeys, List.map_map]
      exact List.map_congr_left hall
    rw [htimes, List.pairwise_map]
    exact hgrid.imp fun h => (mul_lt_mul_of_pos_right h (by decide)).le
  · exact sorted_sortByBucket _

/-! ## The window -/

/-- The start of the window: some hours ago, or the oldest bucket. -/
def windowStart (now : Instant) (periodHours : Option ℤ) (points : List EventTimeseriesPoint) :
    Option ℤ :=
  match periodHours with
  | some hours => some (now.nanos - hours * hour)
  | none => (points.map (·.bucket)).min?

/-- The points come oldest first. -/
theorem head_eq_min (hsorted : (points.map (·.bucket)).Pairwise (· ≤ ·)) :
    points.head?.map (·.bucket) = (points.map (·.bucket)).min? := by
  cases points with
  | nil => rfl
  | cons p points =>
      rw [List.map_cons] at hsorted ⊢
      symm
      apply List.min?_eq_some_iff.mpr
      refine ⟨List.mem_cons_self, fun t ht => ?_⟩
      rcases List.mem_cons.mp ht with rfl | ht
      · exact le_rfl
      · exact (List.pairwise_cons.mp hsorted).1 t ht

/-- The hours that the grid goes back, unless there is nothing to go back to. -/
def hoursOf (now : Instant) (periodHours : Option ℤ) (points : List EventTimeseriesPoint) :
    Option ℤ :=
  periodHours.or (points.head?.map fun p => (now.nanos - p.bucket).tdiv hour)

/-- All time goes back to the hour of a point, or not at all if the point is ahead of the clock. -/
theorem tdiv_hour_bounds (t : ℤ) :
    (0 ≤ t → t.tdiv hour * hour ≤ t ∧ t < t.tdiv hour * hour + hour) ∧
      (t < 0 → t.tdiv hour ≤ 0) := by
  constructor
  · intro hnonneg
    rw [Int.tdiv_eq_ediv_of_nonneg hnonneg]
    exact ⟨Int.ediv_mul_le t (by decide), lt_align_add (by decide)⟩
  · intro hneg
    have hflip := @Int.tdiv_nonneg (-t) hour (by omega) (by decide)
    rw [Int.neg_tdiv] at hflip
    omega

/-- `chrono` has the buckets of the grid. -/
theorem fromTimestamp_grid (hpos : 0 < intervalSecs) (hle : intervalSecs ≤ 86400)
    (hhours : hoursOf now periodHours points = some hours)
    (hperiod : ∀ hours, periodHours = some hours → hours ≤ 2160)
    (hpoints : ∀ point ∈ points, -719163 * 86400 * second ≤ point.bucket) {b : ℤ}
    (hb : b ∈ gridFrom intervalSecs now (now.timestamp - hours * 3600)) :
    fromTimestamp b = some (b * second) := by
  obtain ⟨-, hfirst, hlast⟩ := (mem_grid hpos).mp hb
  have hnow := now.timestamp_bounds
  have halign := @lt_align_add _ (now.timestamp - hours * 3600) hpos
  have hstart : -719400 * 86400 ≤ now.timestamp - hours * 3600 := by
    cases periodHours with
    | some asked =>
        obtain rfl := Option.some.inj hhours
        have hasked := hperiod asked rfl
        omega
    | none =>
        obtain ⟨p, hp, rfl⟩ := Option.map_eq_some_iff.mp hhours
        have hp' := hpoints p (List.mem_of_mem_head? hp)
        obtain ⟨hback, hahead⟩ := tdiv_hour_bounds (now.nanos - p.bucket)
        by_cases hnonneg : 0 ≤ now.nanos - p.bucket
        · obtain ⟨hlow, -⟩ := hback hnonneg
          generalize (now.nanos - p.bucket).tdiv hour = back at hlow
          unfold Instant.timestamp hour second at *
          omega
        · have hlow := hahead (not_le.mp hnonneg)
          omega
  exact fromTimestamp_eq (by linarith) (by linarith)

/-- The grid begins with the bucket in which the window starts. -/
theorem start_lt (hwidth : 0 < intervalSecs) (hhour : 3600 ≤ intervalSecs)
    (hhours : hoursOf now periodHours points = some hours)
    (hsorted : (points.map (·.bucket)).Pairwise (· ≤ ·))
    (hgrid : ∀ point ∈ points, intervalSecs * second ∣ point.bucket) {first b : ℤ}
    (hfirst : windowStart now periodHours points = some first) (hdvd : intervalSecs * second ∣ b)
    (hlt : first < b + intervalSecs * second) (hnow : b ≤ now.nanos) :
    now.nanos - hours * hour < b + intervalSecs * second := by
  cases periodHours with
  | some asked =>
      obtain rfl := Option.some.inj hhours
      obtain rfl := Option.some.inj hfirst
      exact hlt
  | none =>
      obtain ⟨p, hp, rfl⟩ := Option.map_eq_some_iff.mp hhours
      have hmin : points.head?.map (·.bucket) = some first := (head_eq_min hsorted).trans hfirst
      rw [hp] at hmin
      obtain rfl : p.bucket = first := Option.some.inj hmin
      have hle : p.bucket ≤ b := by
        obtain ⟨j, hj⟩ := hgrid p (List.mem_of_mem_head? hp)
        obtain ⟨k, rfl⟩ := hdvd
        rw [hj] at hlt ⊢
        have hwide : 0 < intervalSecs * second := mul_pos hwidth (by decide)
        have hquot : j < k + 1 := by
          apply lt_of_mul_lt_mul_left _ hwide.le
          linarith
        exact mul_le_mul_of_nonneg_left (Int.lt_add_one_iff.mp hquot) hwide.le
      obtain ⟨hback, -⟩ := tdiv_hour_bounds (now.nanos - p.bucket)
      obtain ⟨-, hhigh⟩ := hback (by linarith)
      have hhour' : hour ≤ intervalSecs * second := by
        unfold hour
        exact mul_le_mul_of_nonneg_right hhour (by decide)
      linarith

end Points

/-- The series of the events loses nothing. -/
theorem event_series_exact (backend : Backend) (outside : ℤ → Option (List Char))
    (unordered : Unordered) (now : Instant) (rows : List EventRow) (projectId : ℤ)
    (query : EventTimeseriesQuery) :
    VolumeExact now (query.intervalHours * hour)
      (windowStart now query.periodHours (pointsRead backend outside now rows projectId query))
      (pointsRead backend outside now rows projectId query)
      (getEventTimeseries backend outside unordered now rows projectId query) := by
  have hinterval : 1 ≤ query.intervalHours ∧ query.intervalHours ≤ 24 := by
    unfold EventTimeseriesQuery.intervalHours
    omega
  have hmax : max query.intervalHours 1 = query.intervalHours := max_eq_left hinterval.1
  have hpos : 0 < query.intervalHours * 3600 := by omega
  have hwidth : query.intervalHours * hour = query.intervalHours * 3600 * second :=
    (mul_assoc _ _ _).symm
  have hseries : getEventTimeseries backend outside unordered now rows projectId query =
      match hoursOf now query.periodHours (pointsRead backend outside now rows projectId query) with
      | none => pointsRead backend outside now rows projectId query
      | some hours => zeroFill unordered (pointsRead backend outside now rows projectId query) hours
          (max query.intervalHours 1 * 3600) now := rfl
  rw [hmax] at hseries
  have hpoint : ∀ point ∈ pointsRead backend outside now rows projectId query,
      ∃ instant, point.timestamp = eventBucket backend (query.intervalHours * 3600) instant ∧
        point.bucket = eventBucket backend (query.intervalHours * 3600) instant * second := by
    intro point h
    rw [pointsRead, hmax] at h
    exact mem_queryEventTimeseries h
  have hsorted : ((pointsRead backend outside now rows projectId query).map
      (·.bucket)).Pairwise (· ≤ ·) := sorted_sortByBucket _
  have hnodup : ((pointsRead backend outside now rows projectId query).map
      (·.timestamp)).Nodup := nodup_queryEventTimeseries
  generalize pointsRead backend outside now rows projectId query = points at *
  rw [hseries, hwidth]
  cases hhours : hoursOf now query.periodHours points with
  | none =>
      obtain ⟨hperiod, hhead⟩ := Option.or_eq_none_iff.mp hhours
      obtain rfl := List.head?_eq_none_iff.mp (Option.map_eq_none_iff.mp hhead)
      rw [hperiod]
      exact ⟨.nil, nofun, nofun, nofun⟩
  | some hours =>
      dsimp only
      have hwhole : ∀ point ∈ points, point.bucket = point.timestamp * second := by
        intro point h
        obtain ⟨instant, htime, hbucket⟩ := hpoint point h
        rw [htime, hbucket]
      have hlow : ∀ point ∈ points, -719163 * 86400 * second ≤ point.bucket := by
        intro point h
        obtain ⟨instant, -, hbucket⟩ := hpoint point h
        have hinstant := instant.timestamp_bounds
        have hlt := @lt_eventBucket backend _ hpos instant
        rw [hbucket]
        exact mul_le_mul_of_nonneg_right (by omega) (by decide)
      have hdvd : ∀ point ∈ points, query.intervalHours * 3600 * second ∣ point.bucket := by
        intro point h
        obtain ⟨instant, -, hbucket⟩ := hpoint point h
        rw [hbucket]
        exact mul_dvd_mul_right (dvd_eventBucket instant) _
      have hchrono : ∀ b ∈ gridFrom (query.intervalHours * 3600) now
          (now.timestamp - hours * 3600), fromTimestamp b = some (b * second) := fun b hb =>
        fromTimestamp_grid hpos (by omega) hhours
          (fun asked h => (parsePeriodHours_bounds h).2) hlow hb
      obtain ⟨hordered, hall, hfilled⟩ :=
        @zeroFill_exact unordered _ _ _ _ hpos hwhole hnodup hchrono
      refine ⟨hordered, fun point h => ?_, fun first hfirst b hb hlt hnow => ?_, fun point h => ?_⟩
      · exact List.count_eq_one_of_mem (hfilled.nodup.of_map _) (hfilled.keeps point h)
      · have hstart := start_lt hpos (by omega) hhours hsorted hdvd hfirst hb hlt hnow
        obtain ⟨k, rfl⟩ := hb
        have hmem : query.intervalHours * 3600 * k ∈
            gridFrom (query.intervalHours * 3600) now (now.timestamp - hours * 3600) := by
          refine (mem_grid hpos).mpr ⟨Int.dvd_mul_right _ _, ?_, ?_⟩
          · apply align_le_of_lt hpos (Int.dvd_mul_right _ _)
            generalize query.intervalHours * 3600 = interval at *
            have hscale : interval * second * k = interval * k * second := by ring
            rw [hscale] at hstart
            generalize interval * k = bucket at *
            unfold Instant.timestamp hour second at *
            omega
          · have hscale : query.intervalHours * 3600 * second * k =
                query.intervalHours * 3600 * k * second := by ring
            rw [hscale] at hnow
            exact Int.le_ediv_of_mul_le (by decide) hnow
        obtain ⟨point, hmem', htime⟩ := List.mem_map.mp (hfilled.covers _ hmem)
        refine List.mem_map.mpr ⟨point, hmem', ?_⟩
        rw [hall point hmem', htime]
        ring
      · rcases hfilled.adds point h with hold | ⟨b, -, -, rfl⟩
        · exact .inl hold
        · exact .inr rfl

/-! ## Time series -/

/-- Time series lose nothing. -/
theorem timeseries_exact {Double : Type} :
    (∀ (doubles : Doubles Double) (db : Database Double) (now : Instant)
      (rows : List (TransactionRow Double)) (projectId : ℤ) (query : TransactionStatGroupQuery),
      ∃ width place, 0 < width ∧
        SeriesExact doubles now width place (counted db now rows projectId query)
          (getTransactionStatGroup doubles db now rows projectId query)
          (getTransactionStatGroupTimeseries doubles db now rows projectId query)) ∧
    ∀ (backend : Backend) (outside : ℤ → Option (List Char)) (unordered : Unordered)
      (now : Instant) (rows : List EventRow) (projectId : ℤ) (query : EventTimeseriesQuery),
      VolumeExact now (query.intervalHours * hour)
        (windowStart now query.periodHours (pointsRead backend outside now rows projectId query))
        (pointsRead backend outside now rows projectId query)
        (getEventTimeseries backend outside unordered now rows projectId query) :=
  ⟨group_series_exact, event_series_exact⟩

end Rustrak.Timeseries
