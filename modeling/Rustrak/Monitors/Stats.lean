import Rustrak.Monitors.Invariant
import Rustrak.Relational.Groups
import Rustrak.Relational.Keyset
import Mathlib.Algebra.BigOperators.Ring.Finset
import Mathlib.Data.Prod.Lex
import Mathlib.Data.String.Basic
import Mathlib.Tactic.Linarith
import Mathlib.Tactic.Ring

/-!
# The series of a monitor

`stats` of `services/monitor.rs` counts check-ins by status in 60 buckets for every
environment.  The buckets start with the first multiple of their length after the window
does, so that the last one reaches the clock's reading; what comes before them counts in the
first.

The statement has no upper bound: the last bucket takes in check-ins after the clock's reading
as well, up to where it ends, and only what lies beyond is left out.  The database truncates
towards 1970 where the code rounds down, which is the same for a clock that has passed it.

A mean is kept as the sum and the number it is made of.
-/

namespace Rustrak.Monitors

open Rustrak.Core Rustrak.Relational

inductive Database
  | postgres
  | sqlite
  deriving DecidableEq, Repr

/-- A date in whole seconds: cast, which rounds half away from zero, or cut. -/
def Database.epoch (db : Database) (t : Int) : Int :=
  match db with
  | .postgres => if 0 ≤ t then (t + second / 2) / second else -((-t + second / 2) / second)
  | .sqlite => t / second

structure MonitorStatsBucket where
  bucket : Int
  ok : Int
  error : Int
  missed : Int
  timeout : Int
  inProgress : Int
  /-- The sum of the durations and their number. -/
  avgDurationMs : Option (Int × Int)
  durationCount : Int
  deriving DecidableEq, Repr

namespace MonitorStatsBucket

def empty (start : Int) : MonitorStatsBucket where
  bucket := start
  ok := 0
  error := 0
  missed := 0
  timeout := 0
  inProgress := 0
  avgDurationMs := none
  durationCount := 0

/-- The `match` on a row's status. -/
def add (b : MonitorStatsBucket) (status : CheckInStatus) (count : Int) : MonitorStatsBucket :=
  match status with
  | .ok => { b with ok := b.ok + count }
  | .error | .unknown => { b with error := b.error + count }
  | .missed => { b with missed := b.missed + count }
  | .timeout => { b with timeout := b.timeout + count }
  | .inProgress => { b with inProgress := b.inProgress + count }

end MonitorStatsBucket

structure MonitorEnvironmentStats where
  monitorSlug : String
  monitorEnvironmentId : Uuid
  environment : String
  buckets : List MonitorStatsBucket
  deriving DecidableEq, Repr

/-- A group of check-ins. -/
structure StatsRow where
  environmentId : Uuid
  bucketStart : Int
  status : CheckInStatus
  count : Int
  durationSum : Option Int
  durations : Int
  deriving DecidableEq, Repr

/-! ## The code -/

def statsBuckets : Int := 60

/-- The monitors a request is about. -/
def Monitor.asked (m : Monitor) (projectId : Int) (slug : Option String) : Bool :=
  m.projectId == projectId && slug.all (· == m.slug)

/-- `monitor_environments e JOIN monitors m`, by slug and environment. -/
def askedEnvironments (t : Tables) (projectId : Int) (slug : Option String) :
    List (Uuid × String × String) :=
  orderBy (fun row => toLex (row.2.1, row.2.2)) <|
    t.environments.flatMap fun e =>
      (t.monitors.filter fun m => decide (m.id = e.monitorId) && m.asked projectId slug).map fun m =>
        (e.id, m.slug, e.environment)

/-- `monitor_checkins c JOIN monitors m`. -/
def askedCheckins (t : Tables) (projectId : Int) (slug : Option String) : List CheckInRow :=
  t.checkins.flatMap fun c =>
    (t.monitors.filter fun m => decide (m.id = c.monitorId) && m.asked projectId slug).map fun _ => c

/-- `(epoch / interval) * interval`; the division truncates. -/
def Database.bucketStart (db : Database) (interval : Int) (c : CheckInRow) : Int :=
  (db.epoch c.dateAdded).tdiv interval * interval

/-- The `GROUP BY` of the statement. -/
def statsKey (db : Database) (interval : Int) (c : CheckInRow) : Uuid × Int × CheckInStatus :=
  (c.environmentId, db.bucketStart interval c, c.status)

def queryStats (db : Database) (t : Tables) (projectId : Int) (slug : Option String)
    (interval start : Int) : List StatsRow :=
  (groupBy (statsKey db interval) ((askedCheckins t projectId slug).filter fun c =>
      decide (start ≤ db.epoch c.dateAdded))).map fun g =>
    { environmentId := g.1.1
      bucketStart := g.1.2.1
      status := g.1.2.2
      count := g.2.length
      durationSum := if (g.2.filterMap (·.durationMs)).isEmpty then none
        else some (g.2.filterMap (·.durationMs)).sum
      durations := (g.2.filterMap (·.durationMs)).length }

/-- `max(60)` of a part of the period. -/
def statsInterval (periodHours : Int) : Int :=
  max ((periodHours * 3600).tdiv statsBuckets) 60

/-- Where the first bucket starts; `div_euclid` rounds down. -/
def firstBucket (start interval : Int) : Int := start / interval * interval + interval

/-- An environment's series, with the sum and the number of the durations in each bucket. -/
abbrev Series := MonitorEnvironmentStats × List (Int × Int)

/-- The bucket of a row. -/
def StatsRow.index (row : StatsRow) (first interval : Int) : ℕ :=
  (max ((row.bucketStart - first).tdiv interval) 0).toNat

/-- What the loop over the rows does to the series of a row's environment. -/
def addRow (first interval : Int) (row : StatsRow) (series : Series) : Series :=
  let index := row.index first interval
  if index < series.1.buckets.length then
    ({ series.1 with buckets := series.1.buckets.modify index (·.add row.status row.count) },
      series.2.modify index fun sums =>
        (sums.1 + row.durationSum.getD 0, sums.2 + row.durations))
  else series

/-- `iter_mut().find(…)`: the first series of that environment, if there is one. -/
def addToFirst (first interval : Int) (row : StatsRow) (stats : List Series) : List Series :=
  stats.replaceF fun series =>
    if series.1.monitorEnvironmentId = row.environmentId then some (addRow first interval row series)
    else none

/-- The means, at the end. -/
def finish (series : Series) : MonitorEnvironmentStats :=
  { series.1 with
    buckets := List.zipWith (fun b sums =>
      { b with avgDurationMs := if 0 < sums.2 then some sums else none, durationCount := sums.2 })
      series.1.buckets series.2 }

def emptySeries (first interval : Int) (row : Uuid × String × String) : Series :=
  ({ monitorSlug := row.2.1
     monitorEnvironmentId := row.1
     environment := row.2.2
     buckets := (List.range statsBuckets.toNat).map fun i : ℕ => .empty (first + i * interval) },
    List.replicate statsBuckets.toNat (0, 0))

def stats (db : Database) (unordered : Unordered) (t : Tables) (projectId : Int)
    (slug : Option String) (periodHours now : Int) : List MonitorEnvironmentStats :=
  let interval := statsInterval periodHours
  let start := now - periodHours * 3600
  let first := firstBucket start interval
  let series := (askedEnvironments t projectId slug).map (emptySeries first interval)
  ((unordered.arrange (queryStats db t projectId slug interval start)).foldl
    (fun stats row => addToFirst first interval row stats) series).map finish

/-! ## Figures -/

/-- Unknown statuses count as errors. -/
def CheckInStatus.counted : CheckInStatus → CheckInStatus
  | .unknown => .error
  | status => status

namespace MonitorStatsBucket

/-- The figure that a status is counted in. -/
def figure (b : MonitorStatsBucket) : CheckInStatus → Int
  | .ok => b.ok
  | .error | .unknown => b.error
  | .missed => b.missed
  | .timeout => b.timeout
  | .inProgress => b.inProgress

/-- All figures of a bucket. -/
def sum (b : MonitorStatsBucket) : Int := b.ok + b.error + b.missed + b.timeout + b.inProgress

@[simp] theorem figure_empty (start : Int) (k : CheckInStatus) : (empty start).figure k = 0 := by
  cases k <;> rfl

theorem figure_add (b : MonitorStatsBucket) (status : CheckInStatus) (count : Int)
    (k : CheckInStatus) :
    (b.add status count).figure k =
      b.figure k + if status.counted = k.counted then count else 0 := by
  cases status <;> cases k <;> simp [add, figure, CheckInStatus.counted]

@[simp] theorem bucket_add (b : MonitorStatsBucket) (status : CheckInStatus) (count : Int) :
    (b.add status count).bucket = b.bucket := by
  cases status <;> rfl

end MonitorStatsBucket

/-! ## The fold -/

section Fold

variable {first interval : Int}

theorem addRow_environmentId (row : StatsRow) (series : Series) :
    (addRow first interval row series).1.monitorEnvironmentId =
      series.1.monitorEnvironmentId := by
  unfold addRow
  dsimp only
  split_ifs <;> rfl

theorem addToFirst_eq {stats : List Series}
    (hnodup : (stats.map (·.1.monitorEnvironmentId)).Nodup) (row : StatsRow) :
    addToFirst first interval row stats = stats.map fun series =>
      if series.1.monitorEnvironmentId = row.environmentId then addRow first interval row series
      else series := by
  induction stats with
  | nil => rfl
  | cons series stats ih =>
      obtain ⟨hfresh, hnodup⟩ := List.nodup_cons.mp hnodup
      by_cases hid : series.1.monitorEnvironmentId = row.environmentId
      · have hothers : stats.map (fun series : Series =>
            if series.1.monitorEnvironmentId = row.environmentId
            then addRow first interval row series else series) = stats := by
          have hother : ∀ other ∈ stats,
              other.1.monitorEnvironmentId ≠ row.environmentId := fun other hother heq =>
            hfresh (List.mem_map.mpr ⟨other, hother, heq.trans hid.symm⟩)
          exact (List.map_congr_left fun other h => if_neg (hother other h)).trans (List.map_id' _)
        rw [List.map_cons, hothers, if_pos hid, addToFirst, List.replaceF, if_pos hid]
      · rw [List.map_cons, ← ih hnodup, if_neg hid, addToFirst, List.replaceF, if_neg hid]
        rfl

theorem foldl_addToFirst {stats : List Series}
    (hnodup : (stats.map (·.1.monitorEnvironmentId)).Nodup) (rows : List StatsRow) :
    rows.foldl (fun stats row => addToFirst first interval row stats) stats =
      stats.map fun series =>
        (rows.filter fun row => series.1.monitorEnvironmentId = row.environmentId).foldl
          (fun series row => addRow first interval row series) series := by
  induction rows generalizing stats with
  | nil => simp
  | cons row rows ih =>
      have hids : (addToFirst first interval row stats).map (·.1.monitorEnvironmentId) =
          stats.map (·.1.monitorEnvironmentId) := by
        rw [addToFirst_eq hnodup, List.map_map]
        refine List.map_congr_left fun series _ => ?_
        rw [Function.comp_apply]
        split_ifs
        · exact addRow_environmentId row series
        · rfl
      rw [List.foldl_cons, ih (hids ▸ hnodup), addToFirst_eq hnodup, List.map_map]
      refine List.map_congr_left fun series _ => ?_
      rw [Function.comp_apply]
      by_cases hid : series.1.monitorEnvironmentId = row.environmentId
      · rw [if_pos hid, addRow_environmentId, List.filter_cons_of_pos (by simpa using hid),
          List.foldl_cons]
      · rw [if_neg hid, List.filter_cons_of_neg (by simpa using hid)]

theorem length_addRow (row : StatsRow) (series : Series) :
    (addRow first interval row series).1.buckets.length = series.1.buckets.length ∧
      (addRow first interval row series).2.length = series.2.length := by
  unfold addRow
  dsimp only
  split_ifs
  · exact ⟨List.length_modify .., List.length_modify ..⟩
  · exact ⟨rfl, rfl⟩

variable (first interval) in
theorem foldl_addRow_length (rows : List StatsRow) (series : Series) :
    (rows.foldl (fun series row => addRow first interval row series) series).1.buckets.length =
        series.1.buckets.length ∧
      (rows.foldl (fun series row => addRow first interval row series) series).2.length =
        series.2.length := by
  induction rows generalizing series with
  | nil => exact ⟨rfl, rfl⟩
  | cons row rows ih =>
      obtain ⟨hbuckets, hsums⟩ := length_addRow row series
      rw [List.foldl_cons, (ih _).1, (ih _).2]
      exact ⟨hbuckets, hsums⟩

/-- What is counted in a bucket, and where it starts. -/
theorem foldl_addRow_figure (rows : List StatsRow) (series : Series) {i : ℕ}
    {b : MonitorStatsBucket} (hb : series.1.buckets[i]? = some b) :
    ∃ b', (rows.foldl (fun series row => addRow first interval row series) series).1.buckets[i]? =
        some b' ∧ b'.bucket = b.bucket ∧
      ∀ k : CheckInStatus, b'.figure k = b.figure k + total (·.count)
        (fun row => row.index first interval == i && row.status.counted == k.counted) rows := by
  induction rows generalizing series b with
  | nil => exact ⟨b, hb, rfl, fun k => by rw [total_nil, add_zero]⟩
  | cons row rows ih =>
      have hi : i < series.1.buckets.length := (List.getElem?_eq_some_iff.mp hb).1
      have hrow : (addRow first interval row series).1.buckets[i]? =
          some (if row.index first interval = i then b.add row.status row.count else b) := by
        unfold addRow
        dsimp only
        split_ifs with hindex heq heq
        · simp [heq, hb]
        · simp [heq, hb]
        · exact absurd (heq ▸ hi) hindex
        · exact hb
      obtain ⟨b', hb', hstart, hfigure⟩ := ih _ hrow
      refine ⟨b', hb', ?_, fun k => ?_⟩
      · rw [hstart]
        split_ifs
        · exact b.bucket_add _ _
        · rfl
      · rw [hfigure k, total_cons, ← add_assoc]
        congr 1
        by_cases hindex : row.index first interval = i
        · simp [hindex, MonitorStatsBucket.figure_add]
        · simp [hindex]

theorem finish_figure {series : Series} (hlength : series.2.length = series.1.buckets.length)
    {i : ℕ} {b : MonitorStatsBucket} (hb : series.1.buckets[i]? = some b) :
    ∃ b', (finish series).buckets[i]? = some b' ∧ b'.bucket = b.bucket ∧
      ∀ k : CheckInStatus, b'.figure k = b.figure k := by
  have hi : i < series.2.length := hlength ▸ (List.getElem?_eq_some_iff.mp hb).1
  refine ⟨{ b with avgDurationMs := if 0 < series.2[i].2 then some series.2[i] else none,
                   durationCount := series.2[i].2 }, ?_, rfl, fun k => ?_⟩
  · rw [finish, List.getElem?_zipWith, hb, List.getElem?_eq_getElem hi]
  · cases k <;> rfl

end Fold

/-! ## The joins -/

/-- The keys of the tables, as far as the series rests on them. -/
structure Keyed (t : Tables) : Prop where
  monitorIds : (t.monitors.map Monitor.id).Nodup
  environmentIds : (t.environments.map Environment.id).Nodup
  checkinEnvironment : ∀ c ∈ t.checkins, (c.environmentId, c.monitorId) ∈
    t.environments.map fun e => (e.id, e.monitorId)

theorem Sound.keyed {p : Platform} {t : Tables} (h : Sound p t) : Keyed t where
  monitorIds := h.monitorIds
  environmentIds := h.environmentIds
  checkinEnvironment := h.checkinEnvironment

variable {t : Tables} {projectId : Int} {slug : Option String}

/-- The monitor with this id is one a request is about. -/
def Tables.isAsked (t : Tables) (projectId : Int) (slug : Option String) (monitorId : Uuid) :
    Bool :=
  t.monitors.any fun m => decide (m.id = monitorId) && m.asked projectId slug

theorem askedCheckins_eq (h : Keyed t) :
    askedCheckins t projectId slug =
      t.checkins.filter fun c => t.isAsked projectId slug c.monitorId := by
  have hjoin : askedCheckins t projectId slug =
      (t.checkins.filter fun c => t.isAsked projectId slug c.monitorId).map fun c => c :=
    flatMap_join h.monitorIds CheckInRow.monitorId (·.asked projectId slug) (fun c => c) t.checkins
  rw [hjoin, List.map_id']

theorem askedEnvironments_perm (h : Keyed t) (projectId : Int) (slug : Option String) :
    ((askedEnvironments t projectId slug).map Prod.fst).Perm
      ((t.environments.filter fun e => t.isAsked projectId slug e.monitorId).map
        Environment.id) := by
  have hjoin : (t.environments.flatMap fun e =>
        (t.monitors.filter fun m => decide (m.id = e.monitorId) && m.asked projectId slug).map
          fun _ => e.id) =
      (t.environments.filter fun e => t.isAsked projectId slug e.monitorId).map Environment.id :=
    flatMap_join h.monitorIds Environment.monitorId (·.asked projectId slug) Environment.id
      t.environments
  refine ((orderBy_perm _).map _).trans (List.Perm.of_eq ?_)
  rw [← hjoin, List.map_flatMap]
  exact List.flatMap_congr fun e _ => List.map_map ..

/-! ## Which bucket -/

/-- The bucket that counts a check-in. -/
def bucketOf (db : Database) (first interval : Int) (c : CheckInRow) : ℕ :=
  (max ((db.bucketStart interval c - first).tdiv interval) 0).toNat

/-- The check-ins from the start of the window on. -/
def selected (db : Database) (t : Tables) (projectId : Int) (slug : Option String)
    (start : Int) : List CheckInRow :=
  (askedCheckins t projectId slug).filter fun c => decide (start ≤ db.epoch c.dateAdded)

/-- Whole seconds keep to either side of a second. -/
theorem le_epoch {db : Database} {s t : Int} (h : s * second ≤ t) : s ≤ db.epoch t := by
  unfold second at h
  cases db <;> unfold Database.epoch second <;> dsimp only
  · split_ifs <;> omega
  · omega

theorem epoch_le {db : Database} {s t : Int} (h : t ≤ s * second) : db.epoch t ≤ s := by
  unfold second at h
  cases db <;> unfold Database.epoch second <;> dsimp only
  · split_ifs <;> omega
  · omega

section Window

variable {periodHours : Int} (hperiod : 1 ≤ periodHours) (now : Int)

/-- Where the last bucket ends. -/
def seriesEnd (periodHours now : Int) : Int :=
  firstBucket (now - periodHours * 3600) (statsInterval periodHours) +
    60 * statsInterval periodHours

include hperiod

theorem statsInterval_eq : statsInterval periodHours = periodHours * 60 := by
  rw [statsInterval, statsBuckets, Int.tdiv_eq_ediv_of_nonneg (by omega)]
  omega

/-- The last bucket reaches the clock's reading, and ends soon after it. -/
theorem seriesEnd_spec :
    now < seriesEnd periodHours now ∧
      seriesEnd periodHours now ≤ now + statsInterval periodHours := by
  have hinterval := statsInterval_eq hperiod
  have hpos : 0 < statsInterval periodHours := by omega
  have hlow := Int.ediv_mul_le (now - periodHours * 3600) hpos.ne'
  have hhigh := Int.lt_ediv_add_one_mul_self (now - periodHours * 3600) hpos
  rw [add_mul, one_mul] at hhigh
  unfold seriesEnd firstBucket
  omega

variable {now}

/-- Up to the end of the last bucket, and no further, there is a bucket. -/
theorem bucketOf_lt_iff (hnow : 0 ≤ now) (db : Database) (c : CheckInRow) :
    bucketOf db (firstBucket (now - periodHours * 3600) (statsInterval periodHours))
        (statsInterval periodHours) c < 60 ↔
      db.epoch c.dateAdded < seriesEnd periodHours now := by
  have hend := (seriesEnd_spec hperiod now).1
  have hinterval := statsInterval_eq hperiod
  unfold seriesEnd firstBucket bucketOf Database.bucketStart at *
  generalize statsInterval periodHours = interval at *
  generalize db.epoch c.dateAdded = s at *
  generalize hq : (now - periodHours * 3600) / interval = q at *
  have hpos : 0 < interval := by omega
  have hindex : (s.tdiv interval * interval - (q * interval + interval)).tdiv interval =
      s.tdiv interval - q - 1 := by
    rw [← Int.mul_tdiv_cancel (s.tdiv interval - q - 1) hpos.ne']
    congr 1
    ring
  have hlt : (max (s.tdiv interval - q - 1) 0).toNat < 60 ↔ s.tdiv interval < q + 61 := by omega
  have hbound : q * interval + interval + 60 * interval = (q + 61) * interval := by ring
  rw [hindex, hlt, hbound]
  rcases le_or_gt 0 s with hs | hs
  · rw [Int.tdiv_eq_ediv_of_nonneg hs]
    exact Int.ediv_lt_iff_lt_mul hpos
  · -- Before 1970 nothing is left out.
    have hquot : 0 ≤ (-s).tdiv interval := Int.tdiv_nonneg (by omega) hpos.le
    rw [Int.neg_tdiv] at hquot
    have hq : -60 ≤ q := by
      rw [← hq]
      exact (Int.le_ediv_iff_mul_le hpos).mpr (by omega)
    refine ⟨fun _ => ?_, fun _ => by omega⟩
    rw [hbound] at hend
    omega

end Window

/-! ## The series -/

/-- The check-in is counted in this bucket of this environment. -/
def isCountedIn (db : Database) (first interval : Int) (id : Uuid) (i : ℕ) (c : CheckInRow) :
    Bool :=
  decide (c.environmentId = id) && bucketOf db first interval c == i

/-- Every bucket's figures are the numbers of the check-ins counted in it, by status. -/
def Shows (db : Database) (first interval : Int) (found : List CheckInRow)
    (series : MonitorEnvironmentStats) : Prop :=
  series.buckets.length = 60 ∧
  ∀ (i : ℕ) (b : MonitorStatsBucket), series.buckets[i]? = some b →
    b.bucket = first + i * interval ∧
    ∀ k : CheckInStatus, b.figure k = found.countP fun c =>
      isCountedIn db first interval series.monitorEnvironmentId i c &&
        c.status.counted == k.counted

theorem finish_environmentId (series : Series) :
    (finish series).monitorEnvironmentId = series.1.monitorEnvironmentId := rfl

theorem foldl_addRow_environmentId {first interval : Int} (rows : List StatsRow)
    (series : Series) :
    (rows.foldl (fun series row => addRow first interval row series)
      series).1.monitorEnvironmentId = series.1.monitorEnvironmentId := by
  induction rows generalizing series with
  | nil => rfl
  | cons row rows ih => rw [List.foldl_cons, ih, addRow_environmentId]

theorem total_queryStats (db : Database) (t : Tables) (projectId : Int) (slug : Option String)
    (interval start first : Int) (id : Uuid) (i : ℕ) (k : CheckInStatus) :
    total (·.count)
        (fun row : StatsRow => decide (id = row.environmentId) &&
          (row.index first interval == i && row.status.counted == k.counted))
        (queryStats db t projectId slug interval start) =
      (selected db t projectId slug start).countP fun c =>
        isCountedIn db first interval id i c && c.status.counted == k.counted := by
  refine (total_count (p := fun g : Uuid × Int × CheckInStatus => decide (id = g.1) &&
    ((max ((g.2.1 - first).tdiv interval) 0).toNat == i && g.2.2.counted == k.counted))
    ?_ ?_).trans (congrArg Nat.cast (List.countP_congr fun c _ => ?_))
  · exact fun _ => rfl
  · exact fun _ => rfl
  · simp only [statsKey, isCountedIn, bucketOf, eq_comm (a := id), Bool.and_assoc]

/-- What comes back of one environment's series. -/
theorem shows_finish (db : Database) (unordered : Unordered) (t : Tables) (projectId : Int)
    (slug : Option String) (interval start first : Int) (row : Uuid × String × String) :
    Shows db first interval (selected db t projectId slug start)
      (finish (((unordered.arrange (queryStats db t projectId slug interval start)).filter
          fun found => decide (row.1 = found.environmentId)).foldl
        (fun series found => addRow first interval found series)
        (emptySeries first interval row))) := by
  generalize hfound : ((unordered.arrange (queryStats db t projectId slug interval start)).filter
    fun found => decide (row.1 = found.environmentId)) = found
  obtain ⟨hbuckets, hsums⟩ :=
    foldl_addRow_length first interval found (emptySeries first interval row)
  have hlength : ((found.foldl (fun series found => addRow first interval found series)
      (emptySeries first interval row)).2).length = ((found.foldl
        (fun series found => addRow first interval found series)
        (emptySeries first interval row)).1.buckets).length := by
    rw [hbuckets, hsums]
    rfl
  constructor
  · rw [finish, List.length_zipWith, hlength, min_self, hbuckets]
    rfl
  · intro i b hb
    have hi : i < 60 := by
      have hi := (List.getElem?_eq_some_iff.mp hb).1
      rw [finish, List.length_zipWith, hlength, min_self, hbuckets] at hi
      exact hi
    have hempty : (emptySeries first interval row).1.buckets[i]? =
        some (.empty (first + i * interval)) := by
      have hrange : (List.range statsBuckets.toNat)[i]? = some i := List.getElem?_range hi
      rw [emptySeries, List.getElem?_map, hrange]
      rfl
    obtain ⟨b', hb', hstart, hfigure⟩ := foldl_addRow_figure found _ hempty
    obtain ⟨b'', hb'', hstart', hfigure'⟩ := finish_figure hlength hb'
    obtain rfl : b'' = b := Option.some.inj (hb''.symm.trans hb)
    refine ⟨hstart'.trans hstart, fun k => ?_⟩
    rw [hfigure', hfigure, MonitorStatsBucket.figure_empty, zero_add, ← hfound, total_filter,
      total_perm (unordered.perm _), total_queryStats, finish_environmentId,
      foldl_addRow_environmentId]
    rfl

theorem stats_shows (db : Database) (unordered : Unordered) (h : Keyed t) (projectId : Int)
    (slug : Option String) (periodHours now : Int) :
    ((stats db unordered t projectId slug periodHours now).map (·.monitorEnvironmentId)).Perm
        ((t.environments.filter fun e => t.isAsked projectId slug e.monitorId).map
          Environment.id) ∧
      ∀ series ∈ stats db unordered t projectId slug periodHours now,
        Shows db (firstBucket (now - periodHours * 3600) (statsInterval periodHours))
          (statsInterval periodHours)
          (selected db t projectId slug (now - periodHours * 3600)) series := by
  have hasked := askedEnvironments_perm h projectId slug
  have hids : ((t.environments.filter fun e => t.isAsked projectId slug e.monitorId).map
      Environment.id).Nodup := h.environmentIds.sublist (List.filter_sublist.map _)
  have hstart : ((askedEnvironments t projectId slug).map (emptySeries
      (firstBucket (now - periodHours * 3600) (statsInterval periodHours))
      (statsInterval periodHours))).map (·.1.monitorEnvironmentId) =
      (askedEnvironments t projectId slug).map Prod.fst := by
    rw [List.map_map]
    rfl
  have hnodup := hstart ▸ hasked.nodup_iff.mpr hids
  rw [stats, foldl_addToFirst hnodup]
  constructor
  · rw [List.map_map, List.map_map, List.map_map]
    refine List.Perm.trans (List.Perm.of_eq (List.map_congr_left fun row _ => ?_)) hasked
    exact foldl_addRow_environmentId _ _
  · intro series hseries
    obtain ⟨filled, hfilled, rfl⟩ := List.mem_map.mp hseries
    obtain ⟨empty, hempty, rfl⟩ := List.mem_map.mp hfilled
    obtain ⟨row, -, rfl⟩ := List.mem_map.mp hempty
    exact shows_finish db unordered t projectId slug _ _ _ row

/-! ## Nothing is lost -/

/-- The check-ins a request is about. -/
def requested (t : Tables) (projectId : Int) (slug : Option String) : List CheckInRow :=
  t.checkins.filter fun c => t.isAsked projectId slug c.monitorId

theorem selected_eq (h : Keyed t) (db : Database) (start : Int) :
    selected db t projectId slug start =
      (requested t projectId slug).filter fun c => decide (start ≤ db.epoch c.dateAdded) := by
  rw [selected, askedCheckins_eq h, requested]

/-- Every status has its figure. -/
theorem countP_statuses (p : CheckInRow → Bool) (found : List CheckInRow) :
    (found.countP fun c => p c && c.status.counted == CheckInStatus.ok.counted) +
      (found.countP fun c => p c && c.status.counted == CheckInStatus.error.counted) +
      (found.countP fun c => p c && c.status.counted == CheckInStatus.missed.counted) +
      (found.countP fun c => p c && c.status.counted == CheckInStatus.timeout.counted) +
      (found.countP fun c => p c && c.status.counted == CheckInStatus.inProgress.counted) =
    found.countP p := by
  induction found with
  | nil => rfl
  | cons c found ih =>
      simp only [List.countP_cons, ← ih]
      cases hp : p c with
      | false => simp
      | true =>
          cases hstatus : c.status <;> simp [CheckInStatus.counted] <;> omega

theorem Shows.sum_bucket {db : Database} {first interval : Int} {found : List CheckInRow}
    {series : MonitorEnvironmentStats} (h : Shows db first interval found series) {i : ℕ}
    {b : MonitorStatsBucket} (hb : series.buckets[i]? = some b) :
    b.sum = found.countP (isCountedIn db first interval series.monitorEnvironmentId i) := by
  obtain ⟨-, hfigure⟩ := h.2 i b hb
  rw [← countP_statuses]
  push_cast
  rw [← hfigure, ← hfigure, ← hfigure, ← hfigure, ← hfigure]
  rfl

theorem Shows.sum_eq {db : Database} {first interval : Int} {found : List CheckInRow}
    {series : MonitorEnvironmentStats} (h : Shows db first interval found series) :
    (series.buckets.map (·.sum)).sum = found.countP fun c =>
      decide (c.environmentId = series.monitorEnvironmentId) &&
        decide (bucketOf db first interval c < 60) := by
  have hsums : series.buckets.map (·.sum) = (List.range 60).map fun i =>
      (found.countP (isCountedIn db first interval series.monitorEnvironmentId i) : Int) := by
    refine List.ext_getElem? fun i => ?_
    rw [List.getElem?_map, List.getElem?_map]
    by_cases hi : i < 60
    · rw [List.getElem?_range hi]
      obtain ⟨b, hb⟩ : ∃ b, series.buckets[i]? = some b :=
        ⟨_, List.getElem?_eq_getElem (h.1.symm ▸ hi)⟩
      rw [hb, Option.map_some, Option.map_some, h.sum_bucket hb]
    · rw [List.getElem?_eq_none (by rw [h.1]; omega), List.getElem?_eq_none (by simpa using hi)]
      rfl
  have hcount := sum_countP_keys (bucketOf db first interval)
    (fun c => decide (c.environmentId = series.monitorEnvironmentId)) found
    (List.nodup_range (n := 60))
  rw [hsums]
  refine Eq.trans (congrArg List.sum (List.map_congr_left fun i _ => ?_)) (hcount.trans ?_)
  · refine congrArg Nat.cast (List.countP_congr fun c _ => ?_)
    rw [isCountedIn, Bool.and_comm, beq_eq_decide]
  · exact congrArg Nat.cast (List.countP_congr fun c _ => by simp)

/-- From 1970 on, every check-in of the window is counted in one bucket of one environment, and
the figures add up to the check-ins from the start of the window to the end of the last
bucket, which is the first after the clock's reading. -/
theorem stats_lose_nothing (db : Database) (unordered : Unordered) (h : Keyed t)
    (projectId : Int) (slug : Option String) {periodHours now : Int} (hperiod : 1 ≤ periodHours)
    (hnow : 0 ≤ now) :
    (∀ series ∈ stats db unordered t projectId slug periodHours now,
      Shows db (firstBucket (now - periodHours * 3600) (statsInterval periodHours))
        (statsInterval periodHours) (selected db t projectId slug (now - periodHours * 3600))
        series) ∧
    (∀ c ∈ requested t projectId slug,
      (now - periodHours * 3600) * second ≤ c.dateAdded → c.dateAdded ≤ now * second →
        c ∈ selected db t projectId slug (now - periodHours * 3600) ∧
        ∃! place : Uuid × ℕ,
          place.1 ∈ (stats db unordered t projectId slug periodHours now).map
            (·.monitorEnvironmentId) ∧ place.2 < 60 ∧
          isCountedIn db (firstBucket (now - periodHours * 3600) (statsInterval periodHours))
            (statsInterval periodHours) place.1 place.2 c = true) ∧
    ((stats db unordered t projectId slug periodHours now).map fun series =>
        (series.buckets.map (·.sum)).sum).sum =
      ((requested t projectId slug).countP fun c =>
        decide (now - periodHours * 3600 ≤ db.epoch c.dateAdded) &&
          decide (db.epoch c.dateAdded < seriesEnd periodHours now)) ∧
    now < seriesEnd periodHours now ∧
    seriesEnd periodHours now ≤ now + statsInterval periodHours := by
  obtain ⟨hids, hshows⟩ := stats_shows db unordered h projectId slug periodHours now
  have hlt := bucketOf_lt_iff hperiod hnow db
  have hend := seriesEnd_spec hperiod now
  have henvironment : ∀ c ∈ requested t projectId slug, c.environmentId ∈
      (stats db unordered t projectId slug periodHours now).map (·.monitorEnvironmentId) := by
    intro c hc
    obtain ⟨hc, hasked⟩ := List.mem_filter.mp hc
    obtain ⟨e, he, heq⟩ := List.mem_map.mp (h.checkinEnvironment c hc)
    obtain ⟨hid, hmonitor⟩ := Prod.mk.inj heq
    rw [hids.mem_iff, ← hid]
    exact List.mem_map_of_mem (List.mem_filter.mpr ⟨he, by rwa [hmonitor]⟩)
  refine ⟨hshows, fun c hc hfrom hto => ⟨?_, ?_⟩, ?_, hend⟩
  · rw [selected_eq h]
    exact List.mem_filter.mpr ⟨hc, decide_eq_true (le_epoch hfrom)⟩
  · refine ⟨(c.environmentId, bucketOf db (firstBucket (now - periodHours * 3600)
      (statsInterval periodHours)) (statsInterval periodHours) c), ⟨henvironment c hc, ?_, ?_⟩, ?_⟩
    · exact (hlt c).mpr ((epoch_le hto).trans_lt hend.1)
    · simp [isCountedIn]
    · rintro ⟨id, i⟩ ⟨-, -, hplace⟩
      simp only [isCountedIn, Bool.and_eq_true, decide_eq_true_eq, beq_iff_eq] at hplace
      rw [hplace.1, hplace.2]
  · have hsums : (stats db unordered t projectId slug periodHours now).map
        (fun series => (series.buckets.map (·.sum)).sum) =
        ((stats db unordered t projectId slug periodHours now).map (·.monitorEnvironmentId)).map
          fun id => ((selected db t projectId slug (now - periodHours * 3600)).countP fun c =>
            decide (c.environmentId = id) && decide (bucketOf db
              (firstBucket (now - periodHours * 3600) (statsInterval periodHours))
              (statsInterval periodHours) c < 60) : Int) := by
      rw [List.map_map]
      exact List.map_congr_left fun series hseries => (hshows series hseries).sum_eq
    have hnodup : ((stats db unordered t projectId slug periodHours now).map
        (·.monitorEnvironmentId)).Nodup :=
      hids.nodup_iff.mpr (h.environmentIds.sublist (List.filter_sublist.map _))
    rw [hsums, sum_countP_keys CheckInRow.environmentId _ _ hnodup, selected_eq h,
      List.countP_filter]
    refine congrArg Nat.cast (List.countP_congr fun c hc => ?_)
    have hmem := henvironment c hc
    rw [← List.contains_iff_mem] at hmem
    simp only [hmem, Bool.and_true, Bool.and_eq_true, decide_eq_true_eq, hlt]
    exact and_comm

/-- A monitor with a single check-in. -/
def oneCheckin (dateAdded : Int) : Tables :=
  { Tables.empty with
    monitors := [⟨1, 1, "backup", "Backup", ⟨.crontab "* * * * *", 1, 30, "UTC", 1, 1⟩, false⟩]
    environments := [⟨2, 1, "production", .ok, none, none, none⟩]
    checkins := [⟨3, 4, 1, 1, 2, .ok, none, dateAdded, none, none⟩] }

theorem oneCheckin_keyed (dateAdded : Int) : Keyed (oneCheckin dateAdded) where
  monitorIds := List.nodup_singleton _
  environmentIds := List.nodup_singleton _
  checkinEnvironment c hc := by
    obtain rfl : c = _ := List.mem_singleton.mp hc
    exact List.mem_singleton_self _

theorem oneCheckin_counted :
    ((stats .sqlite .asFound (oneCheckin (1714564800 * second)) 1 none 24 1714564800).map
        fun series => (series.buckets.map (·.sum)).sum).sum =
      ((requested (oneCheckin (1714564800 * second)) 1 none).countP fun c =>
        decide (1714564800 - 24 * 3600 ≤ Database.sqlite.epoch c.dateAdded) &&
          decide (Database.sqlite.epoch c.dateAdded < seriesEnd 24 1714564800)) :=
  (stats_lose_nothing .sqlite .asFound (oneCheckin_keyed (1714564800 * second)) 1 none
    (by decide) (by decide)).2.2.1

/-- A check-in a second after the clock's reading is counted, and with a clock before 1970 one
of the window has no bucket. -/
theorem oneCheckin_miscounted :
    (¬ ∀ (db : Database) (unordered : Unordered) (t : Tables) (projectId : Int)
      (slug : Option String) (periodHours now : Int), Keyed t → 1 ≤ periodHours → 0 ≤ now →
      ((stats db unordered t projectId slug periodHours now).map fun series =>
          (series.buckets.map (·.sum)).sum).sum =
        ((requested t projectId slug).countP fun c =>
          decide ((now - periodHours * 3600) * second ≤ c.dateAdded) &&
            decide (c.dateAdded ≤ now * second) : Int)) ∧
    ¬ ∀ (db : Database) (unordered : Unordered) (t : Tables) (projectId : Int)
      (slug : Option String) (periodHours now : Int), Keyed t → 1 ≤ periodHours →
      ∀ c ∈ requested t projectId slug,
        (now - periodHours * 3600) * second ≤ c.dateAdded → c.dateAdded ≤ now * second →
        0 < ((stats db unordered t projectId slug periodHours now).map fun series =>
          (series.buckets.map (·.sum)).sum).sum := by
  constructor
  · intro h
    have hsum := h .sqlite .asFound (oneCheckin (1714564801 * second)) 1 none 1 1714564800
      (oneCheckin_keyed _) (by decide) (by decide)
    revert hsum
    decide +kernel
  · intro h
    have hmem : (⟨3, 4, 1, 1, 2, .ok, none, -30 * second, none, none⟩ : CheckInRow) ∈
        requested (oneCheckin (-30 * second)) 1 none := by decide +kernel
    have hsum := h .sqlite .asFound (oneCheckin (-30 * second)) 1 none 1 (-30)
      (oneCheckin_keyed _) (by decide) _ hmem (by decide) (by decide)
    revert hsum
    decide +kernel

end Rustrak.Monitors
