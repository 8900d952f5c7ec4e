import Rustrak.Relational.Groups
import Mathlib.Tactic.Linarith
import Mathlib.Tactic.Ring

/-!
# The figures of the project list

`list_stats` of `services/stats.rs` draws a sparkline and compares two windows for every
project of a page.  Both come from one grid of 48 buckets that ends at the clock's reading:
events are grouped by the bucket they fall in, and a group's number of events and of
different issues is added to what it belongs to.

Events after the clock's reading make groups of their own, which are added to the last bar.
Numbers of events may be added up, numbers of different issues may not: an issue with events
in two of these groups is counted twice.
-/

namespace Rustrak.Stats

open Rustrak.Relational

abbrev Uuid := String

inductive Backend
  | postgres
  | sqlite
  deriving DecidableEq, Repr

/-- The columns of `events` that are read; times are in microseconds. -/
structure EventRow where
  projectId : Int
  issueId : Option Uuid
  ingestedAt : Int
  eventType : String
  deriving DecidableEq, Repr

/-- The columns of `issues` that are read. -/
structure IssueRow where
  projectId : Int
  status : String
  level : Option String
  firstSeen : Int
  issueCategory : String
  deriving DecidableEq, Repr

structure Tables where
  events : List EventRow
  issues : List IssueRow
  deriving DecidableEq, Repr

structure MetricDelta where
  current : Int
  previous : Option Int
  deriving DecidableEq, Repr

structure ProjectListStats where
  trend : List Int
  events : MetricDelta
  newIssues : MetricDelta
  openIssues : Int
  fatalIssues : Int
  deriving DecidableEq, Repr

/-! ## The code -/

def listTrendBuckets : Int := 24

/-- A time is not before one in seconds: `to_timestamp` on the one side, `strftime('%s', …)`
on the other. -/
def Backend.since (db : Backend) (t seconds : Int) : Bool :=
  match db with
  | .postgres => decide (seconds * 1000000 ≤ t)
  | .sqlite => decide (seconds ≤ t / 1000000)

/-- `floor` of an exact quotient, or whole seconds and a division that truncates. -/
def Backend.bucketIdx (db : Backend) (first bucketSecs t : Int) : Int :=
  match db with
  | .postgres => (t - first * 1000000) / (bucketSecs * 1000000)
  | .sqlite => (t / 1000000 - first).tdiv bucketSecs

structure VolumeRow where
  projectId : Int
  bucketIdx : Int
  events : Int
  issues : Int
  deriving DecidableEq, Repr

/-- The rows that `query_list_volume` counts. -/
def scanned (db : Backend) (rows : List EventRow) (projectIds : List Int) (first : Int) :
    List EventRow :=
  rows.filter fun e =>
    projectIds.contains e.projectId && e.eventType == "error" && db.since e.ingestedAt first

/-- `GROUP BY 1, 2`. -/
def groupKey (db : Backend) (first bucketSecs : Int) (e : EventRow) : Int × Int :=
  (e.projectId, db.bucketIdx first bucketSecs e.ingestedAt)

def queryListVolume (db : Backend) (rows : List EventRow) (projectIds : List Int)
    (first bucketSecs : Int) : List VolumeRow :=
  (groupBy (groupKey db first bucketSecs) (scanned db rows projectIds first)).map fun g =>
      { projectId := g.1.1, bucketIdx := g.1.2, events := g.2.length,
        issues := distinct (·.issueId) g.2 }

structure IssueCountsRow where
  projectId : Int
  openIssues : Int
  fatalIssues : Int
  newCurrent : Int
  newPrevious : Int
  deriving DecidableEq, Repr

def queryListIssueCounts (db : Backend) (rows : List IssueRow) (projectIds : List Int)
    (first currentStart : Int) : List IssueCountsRow :=
  (groupBy (·.projectId) (rows.filter fun i =>
      projectIds.contains i.projectId && i.issueCategory == "error")).map fun g =>
    { projectId := g.1
      openIssues := g.2.countP (·.status == "unresolved")
      fatalIssues := g.2.countP fun i => i.status == "unresolved" && i.level.getD "" == "fatal"
      newCurrent := g.2.countP fun i => db.since i.firstSeen currentStart
      newPrevious := g.2.countP fun i =>
        db.since i.firstSeen first && !db.since i.firstSeen currentStart }

/-- A `HashMap` from projects. -/
abbrev StatsMap := Int → Option ProjectListStats

def StatsMap.getMut (out : StatsMap) (id : Int) (f : ProjectListStats → ProjectListStats) :
    StatsMap :=
  fun p => if p = id then (out p).map f else out p

/-- What a group adds to its project. -/
def addVolume (row : VolumeRow) (entry : ProjectListStats) : ProjectListStats :=
  if row.bucketIdx < 0 then entry
  else if row.bucketIdx < listTrendBuckets then
    { entry with
      events.previous := some (entry.events.previous.getD 0 + row.events) }
  else
    let slot := min (row.bucketIdx - listTrendBuckets).toNat (entry.trend.length - 1)
    { entry with
      events.current := entry.events.current + row.events
      trend := entry.trend.modify slot (· + row.issues) }

def addIssueCounts (row : IssueCountsRow) (entry : ProjectListStats) : ProjectListStats :=
  { entry with
    openIssues := row.openIssues
    fatalIssues := row.fatalIssues
    newIssues := { current := row.newCurrent, previous := some row.newPrevious } }

def zeroed : ProjectListStats where
  trend := List.replicate listTrendBuckets.toNat 0
  events := { current := 0, previous := some 0 }
  newIssues := { current := 0, previous := some 0 }
  openIssues := 0
  fatalIssues := 0

/-- `LIST_TREND_BUCKETS` buckets make the period. -/
def bucketSecs (periodHours : Int) : Int :=
  max ((periodHours * 3600).tdiv listTrendBuckets) 1

def listStats (db : Backend) (unordered : Unordered) (tables : Tables) (projectIds : List Int)
    (periodHours now : Int) : StatsMap :=
  let out : StatsMap := fun id => if projectIds.contains id then some zeroed else none
  if projectIds.isEmpty then out
  else
    let bucketSecs := bucketSecs periodHours
    let first := now - listTrendBuckets * 2 * bucketSecs
    let currentStart := now - listTrendBuckets * bucketSecs
    let out :=
      (unordered.arrange (queryListVolume db tables.events projectIds first bucketSecs)).foldl
        (fun out row => out.getMut row.projectId (addVolume row)) out
    (unordered.arrange
        (queryListIssueCounts db tables.issues projectIds first currentStart)).foldl
      (fun out row => out.getMut row.projectId (addIssueCounts row)) out

/-! ## What the figures say -/

def errorEvents (rows : List EventRow) (projectId : Int) : List EventRow :=
  rows.filter fun e => e.projectId == projectId && e.eventType == "error"

/-- Where a bar starts: the period, up to the clock's reading, in 24 equal parts. -/
def barStart (periodHours now bar : Int) : Int :=
  (now - periodHours * 3600 + bar * (periodHours * 3600 / 24)) * 1000000

/-- The time is in the bar's interval; the last takes every later one. -/
def inBar (periodHours now bar t : Int) : Bool :=
  decide (barStart periodHours now bar ≤ t) &&
    (bar == 23 || decide (t < barStart periodHours now (bar + 1)))

def inCurrentWindow (periodHours now t : Int) : Bool :=
  decide ((now - periodHours * 3600) * 1000000 ≤ t)

def inPreviousWindow (periodHours now t : Int) : Bool :=
  decide ((now - 2 * periodHours * 3600) * 1000000 ≤ t) &&
    decide (t < (now - periodHours * 3600) * 1000000)

/-- A row's figures are those of its project's error events. -/
structure CountsWhatItSays (events : List EventRow) (periodHours now : Int)
    (row : ProjectListStats) : Prop where
  current : row.events.current = events.countP fun e => inCurrentWindow periodHours now e.ingestedAt
  previous : row.events.previous =
    some ↑(events.countP fun e => inPreviousWindow periodHours now e.ingestedAt)
  trend : row.trend = (List.range 24).map fun bar : ℕ =>
    (distinct (·.issueId) (events.filter fun e => inBar periodHours now bar e.ingestedAt) : Int)

/-- From the start of the last bar on, which stretch of a bar's length a time is in. -/
def stretch (periodHours now t : Int) : Int :=
  (t - barStart periodHours now 23) / (periodHours * 3600 / 24 * 1000000)

/-- No issue has events in two of these stretches. -/
def OneStretch (events : List EventRow) (periodHours now : Int) : Prop :=
  ∀ e ∈ events, ∀ e' ∈ events,
    barStart periodHours now 23 ≤ e.ingestedAt → barStart periodHours now 23 ≤ e'.ingestedAt →
      e.issueId = e'.issueId → e.issueId.isSome = true →
        stretch periodHours now e.ingestedAt = stretch periodHours now e'.ingestedAt

/-! ## The fold -/

theorem foldl_getMut {α : Type} (rows : List α) (id : α → Int)
    (f : α → ProjectListStats → ProjectListStats) (out : StatsMap) (p : Int) :
    rows.foldl (fun out row => out.getMut (id row) (f row)) out p =
      (out p).map fun entry =>
        (rows.filter fun row => decide (id row = p)).foldl (fun entry row => f row entry) entry := by
  induction rows generalizing out with
  | nil => simp
  | cons row rows ih =>
      rw [List.foldl_cons, ih]
      by_cases hp : id row = p
      · rw [List.filter_cons_of_pos (by simpa using hp)]
        simp [StatsMap.getMut, hp, Function.comp_def]
      · rw [List.filter_cons_of_neg (by simpa using hp)]
        simp [StatsMap.getMut, Ne.symm hp]

theorem foldl_addIssueCounts (rows : List IssueCountsRow) (entry : ProjectListStats) :
    (rows.foldl (fun entry row => addIssueCounts row entry) entry).events = entry.events ∧
      (rows.foldl (fun entry row => addIssueCounts row entry) entry).trend = entry.trend := by
  induction rows generalizing entry with
  | nil => exact ⟨rfl, rfl⟩
  | cons row rows ih => exact ih (addIssueCounts row entry)

def isCurrent (idx : Int) : Bool := decide (24 ≤ idx)

def isPrevious (idx : Int) : Bool := decide (0 ≤ idx) && decide (idx < 24)

/-- The groups that are added to a bar. -/
def isBar (bar : ℕ) (idx : Int) : Bool :=
  decide (24 ≤ idx) && (min (idx - 24).toNat 23 == bar)

theorem addVolume_previous {row : VolumeRow} (hrow : isPrevious row.bucketIdx = true)
    (entry : ProjectListStats) :
    addVolume row entry =
      { entry with events.previous := some (entry.events.previous.getD 0 + row.events) } := by
  simp only [isPrevious, Bool.and_eq_true, decide_eq_true_eq] at hrow
  rw [addVolume, listTrendBuckets, if_neg (not_lt.mpr hrow.1), if_pos hrow.2]

theorem addVolume_current {row : VolumeRow} (hrow : isCurrent row.bucketIdx = true)
    (entry : ProjectListStats) :
    addVolume row entry =
      { entry with
        events.current := entry.events.current + row.events
        trend := entry.trend.modify
          (min (row.bucketIdx - 24).toNat (entry.trend.length - 1)) (· + row.issues) } := by
  simp only [isCurrent, decide_eq_true_eq] at hrow
  rw [addVolume, listTrendBuckets, if_neg (by omega), if_neg (not_lt.mpr hrow)]

theorem addVolume_neither {row : VolumeRow} (hprevious : isPrevious row.bucketIdx = false)
    (hcurrent : isCurrent row.bucketIdx = false) (entry : ProjectListStats) :
    addVolume row entry = entry := by
  simp only [isPrevious, isCurrent, Bool.and_eq_false_iff, decide_eq_false_iff_not] at *
  rw [addVolume, if_pos (by omega)]

theorem isPrevious_of_isCurrent {idx : Int} (h : isCurrent idx = true) : isPrevious idx = false := by
  simp only [isCurrent, isPrevious, decide_eq_true_eq, Bool.and_eq_false_iff,
    decide_eq_false_iff_not] at *
  omega

section Fold

variable (rows : List VolumeRow) (entry : ProjectListStats)

theorem foldl_current :
    (rows.foldl (fun entry row => addVolume row entry) entry).events.current =
      entry.events.current + total (·.events) (fun row => isCurrent row.bucketIdx) rows := by
  induction rows generalizing entry with
  | nil => simp [total]
  | cons row rows ih =>
      rw [List.foldl_cons, ih, total_cons]
      cases hcurrent : isCurrent row.bucketIdx with
      | true =>
          rw [addVolume_current hcurrent, if_pos rfl, add_assoc]
      | false =>
          rw [if_neg Bool.false_ne_true, zero_add]
          cases hprevious : isPrevious row.bucketIdx with
          | true => rw [addVolume_previous hprevious]
          | false => rw [addVolume_neither hprevious hcurrent]

theorem foldl_previous {x : Int} (hentry : entry.events.previous = some x) :
    (rows.foldl (fun entry row => addVolume row entry) entry).events.previous =
      some (x + total (·.events) (fun row => isPrevious row.bucketIdx) rows) := by
  induction rows generalizing entry x with
  | nil => simpa [total] using hentry
  | cons row rows ih =>
      rw [List.foldl_cons, total_cons]
      cases hcurrent : isCurrent row.bucketIdx with
      | true =>
          rw [addVolume_current hcurrent, isPrevious_of_isCurrent hcurrent,
            if_neg Bool.false_ne_true, zero_add]
          exact ih _ hentry
      | false =>
          cases hprevious : isPrevious row.bucketIdx with
          | true =>
              rw [addVolume_previous hprevious, if_pos rfl, ← add_assoc]
              exact ih _ (by rw [hentry]; rfl)
          | false =>
              rw [addVolume_neither hprevious hcurrent, if_neg Bool.false_ne_true, zero_add]
              exact ih _ hentry

theorem foldl_trend (hlength : entry.trend.length = 24) (bar : ℕ) :
    (rows.foldl (fun entry row => addVolume row entry) entry).trend[bar]? =
      entry.trend[bar]?.map (· + total (·.issues) (fun row => isBar bar row.bucketIdx) rows) := by
  induction rows generalizing entry with
  | nil => simp [total]
  | cons row rows ih =>
      rw [List.foldl_cons, total_cons]
      cases hcurrent : isCurrent row.bucketIdx with
      | true =>
          rw [addVolume_current hcurrent, ih _ (by simpa using hlength), hlength,
            List.getElem?_modify]
          have hidx : 24 ≤ row.bucketIdx := by simpa [isCurrent] using hcurrent
          by_cases hbar : min (row.bucketIdx - 24).toNat 23 = bar
          · simp [isBar, hbar, hidx, add_assoc, Function.comp_def]
          · simp [isBar, hbar]
      | false =>
          have hidx : ¬ 24 ≤ row.bucketIdx := by simpa [isCurrent] using hcurrent
          have hbar : isBar bar row.bucketIdx = false := by simp [isBar, hidx]
          rw [hbar, if_neg Bool.false_ne_true, zero_add]
          cases hprevious : isPrevious row.bucketIdx with
          | true =>
              rw [addVolume_previous hprevious]
              exact ih _ hlength
          | false =>
              rw [addVolume_neither hprevious hcurrent]
              exact ih _ hlength

end Fold

section Groups

variable (db : Backend) (rows : List EventRow) (projectIds : List Int) (first bucketSecs : Int)
  (p : Int) (q : Int → Bool)

/-- The groups of a project, as `query_list_volume` returns them. -/
def volumeOf : List VolumeRow :=
  (queryListVolume db rows projectIds first bucketSecs).filter fun row => decide (row.projectId = p)

/-- The events they are made of, where their indices qualify. -/
def eventsOf : List EventRow :=
  (scanned db rows projectIds first).filter fun e =>
    decide ((groupKey db first bucketSecs e).1 = p) && q (groupKey db first bucketSecs e).2

theorem total_events :
    total (·.events) (fun row => q row.bucketIdx) (volumeOf db rows projectIds first bucketSecs p) =
      (eventsOf db rows projectIds first bucketSecs p q).length := by
  rw [volumeOf, total_filter, eventsOf, ← List.countP_eq_length_filter]
  exact total_count (p := fun k : Int × Int => decide (k.1 = p) && q k.2) (fun _ => rfl) fun _ => rfl

theorem total_issues :
    total (·.issues) (fun row => q row.bucketIdx) (volumeOf db rows projectIds first bucketSecs p) =
      (keyed (groupKey db first bucketSecs) (·.issueId)
        (eventsOf db rows projectIds first bucketSecs p q)).card := by
  rw [volumeOf, total_filter, eventsOf]
  exact total_distinct (p := fun k : Int × Int => decide (k.1 = p) && q k.2) (fun _ => rfl) fun _ => rfl

end Groups

/-! ## The grid -/

theorem since_eq (db : Backend) (t seconds : Int) :
    db.since t seconds = decide (seconds * 1000000 ≤ t) := by
  cases db with
  | postgres => rfl
  | sqlite =>
      rw [Backend.since, decide_eq_decide]
      omega

/-- On the grid both databases divide alike. -/
theorem bucketIdx_eq {db : Backend} {first bucketSecs t : Int}
    (hsince : first * 1000000 ≤ t) :
    db.bucketIdx first bucketSecs t = (t - first * 1000000) / (bucketSecs * 1000000) := by
  cases db with
  | postgres => rfl
  | sqlite =>
      have hseconds : t / 1000000 - first = (t - first * 1000000) / 1000000 := by omega
      have hnonneg : 0 ≤ t / 1000000 - first := by omega
      rw [Backend.bucketIdx, Int.tdiv_eq_ediv_of_nonneg hnonneg, hseconds,
        Int.ediv_ediv_of_nonneg (by decide), mul_comm 1000000 bucketSecs]

theorem inCurrentWindow_iff (periodHours now t : Int) :
    inCurrentWindow periodHours now t = true ↔ barStart periodHours now 0 ≤ t := by
  rw [inCurrentWindow, decide_eq_true_eq, barStart, zero_mul, add_zero]

theorem inPreviousWindow_iff (periodHours now t : Int) :
    inPreviousWindow periodHours now t = true ↔
      barStart periodHours now (-24) ≤ t ∧ ¬ barStart periodHours now 0 ≤ t := by
  rw [inPreviousWindow, Bool.and_eq_true, decide_eq_true_eq, decide_eq_true_eq, barStart, barStart]
  omega

section Grid

variable {periodHours : Int} (hperiod : 1 ≤ periodHours) (now : Int)
include hperiod

theorem bucketSecs_eq : bucketSecs periodHours = periodHours * 150 := by
  rw [bucketSecs, listTrendBuckets, Int.tdiv_eq_ediv_of_nonneg (by omega)]
  omega

/-- Every bar starts where a bucket of the grid does. -/
theorem barStart_eq (bar : Int) :
    barStart periodHours now bar =
      (now - 24 * 2 * bucketSecs periodHours) * 1000000 +
        (24 + bar) * (bucketSecs periodHours * 1000000) := by
  have hlength : periodHours * 3600 / 24 = periodHours * 150 := by omega
  rw [barStart, bucketSecs_eq hperiod, hlength]
  ring

theorem width_pos : 0 < bucketSecs periodHours * 1000000 := by
  rw [bucketSecs_eq hperiod]
  omega

/-- The index in the grid, and the bars. -/
theorem le_idx_iff (bar t : Int) :
    24 + bar ≤ (t - (now - 24 * 2 * bucketSecs periodHours) * 1000000) /
        (bucketSecs periodHours * 1000000) ↔
      barStart periodHours now bar ≤ t := by
  rw [Int.le_ediv_iff_mul_le (width_pos hperiod), barStart_eq hperiod]
  omega

theorem first_le_iff (t : Int) :
    (now - 24 * 2 * bucketSecs periodHours) * 1000000 ≤ t ↔
      barStart periodHours now (-24) ≤ t := by
  rw [barStart_eq hperiod]
  omega

/-- Bars start one after the other. -/
theorem barStart_mono {bar bar' : Int} (h : bar ≤ bar') :
    barStart periodHours now bar ≤ barStart periodHours now bar' := by
  rw [barStart_eq hperiod, barStart_eq hperiod]
  have := mul_le_mul_of_nonneg_right (Int.add_le_add_left h 24) (width_pos hperiod).le
  omega

/-- The events of a project that are counted under some of the indices. -/
theorem eventsOf_eq (db : Backend) (rows : List EventRow) {projectIds : List Int} {p : Int}
    (hp : p ∈ projectIds) {q w : Int → Bool}
    (hw : ∀ t, w t = true ↔ barStart periodHours now (-24) ≤ t ∧
      q ((t - (now - 24 * 2 * bucketSecs periodHours) * 1000000) /
        (bucketSecs periodHours * 1000000)) = true) :
    eventsOf db rows projectIds (now - 24 * 2 * bucketSecs periodHours) (bucketSecs periodHours)
        p q =
      (errorEvents rows p).filter fun e => w e.ingestedAt := by
  rw [eventsOf, scanned, errorEvents, List.filter_filter, List.filter_filter]
  refine List.filter_congr fun e _ => ?_
  rw [Bool.eq_iff_iff]
  simp only [Bool.and_eq_true, hw, since_eq, groupKey, decide_eq_true_eq, beq_iff_eq,
    List.contains_eq_mem]
  constructor
  · rintro ⟨⟨hid, hq⟩, ⟨-, herror⟩, hsince⟩
    rw [bucketIdx_eq hsince] at hq
    exact ⟨⟨(first_le_iff hperiod now _).mp hsince, hq⟩, of_decide_eq_true hid, herror⟩
  · rintro ⟨⟨hstart, hq⟩, rfl, herror⟩
    have hsince := (first_le_iff hperiod now _).mpr hstart
    rw [← bucketIdx_eq hsince] at hq
    exact ⟨⟨decide_eq_true rfl, hq⟩, ⟨hp, herror⟩, hsince⟩

theorem currentWindow_grid (t : Int) :
    inCurrentWindow periodHours now t = true ↔ barStart periodHours now (-24) ≤ t ∧
      isCurrent ((t - (now - 24 * 2 * bucketSecs periodHours) * 1000000) /
        (bucketSecs periodHours * 1000000)) = true := by
  have hidx := le_idx_iff hperiod now 0 t
  have hmono := barStart_mono hperiod now (show (-24 : Int) ≤ 0 by decide)
  rw [inCurrentWindow_iff, isCurrent, decide_eq_true_eq]
  omega

theorem previousWindow_grid (t : Int) :
    inPreviousWindow periodHours now t = true ↔ barStart periodHours now (-24) ≤ t ∧
      isPrevious ((t - (now - 24 * 2 * bucketSecs periodHours) * 1000000) /
        (bucketSecs periodHours * 1000000)) = true := by
  have hidx := le_idx_iff hperiod now 0 t
  have hidx' := le_idx_iff hperiod now (-24) t
  rw [inPreviousWindow_iff, isPrevious, Bool.and_eq_true, decide_eq_true_eq, decide_eq_true_eq]
  omega

theorem bar_grid {bar : ℕ} (hbar : bar < 24) (t : Int) :
    inBar periodHours now bar t = true ↔ barStart periodHours now (-24) ≤ t ∧
      isBar bar ((t - (now - 24 * 2 * bucketSecs periodHours) * 1000000) /
        (bucketSecs periodHours * 1000000)) = true := by
  have hidx := le_idx_iff hperiod now bar t
  have hidx' := le_idx_iff hperiod now (bar + 1) t
  have hmono := barStart_mono hperiod now (show (-24 : Int) ≤ bar by omega)
  rw [inBar, isBar]
  simp only [Bool.and_eq_true, Bool.or_eq_true, decide_eq_true_eq, beq_iff_eq]
  generalize (t - _) / _ = idx at *
  omega

/-- What the row of a project holds. -/
theorem listStats_row (db : Backend) (unordered : Unordered) (tables : Tables)
    {projectIds : List Int} {p : Int} (hp : p ∈ projectIds) :
    ∃ row, listStats db unordered tables projectIds periodHours now p = some row ∧
      row.events.current = (errorEvents tables.events p).countP
        (fun e => inCurrentWindow periodHours now e.ingestedAt) ∧
      row.events.previous = some ↑((errorEvents tables.events p).countP
        fun e => inPreviousWindow periodHours now e.ingestedAt) ∧
      row.trend = (List.range 24).map fun bar : ℕ =>
        ((keyed (groupKey db (now - 24 * 2 * bucketSecs periodHours) (bucketSecs periodHours))
          (·.issueId) ((errorEvents tables.events p).filter
            fun e => inBar periodHours now bar e.ingestedAt)).card : Int) := by
  have hids : projectIds.isEmpty = false := by
    cases projectIds with
    | nil => cases hp
    | cons => rfl
  have hzeroed : projectIds.contains p = true := List.contains_iff_mem.mpr hp
  have hperm : ∀ rows : List VolumeRow,
      ((unordered.arrange rows).filter fun row => decide (row.projectId = p)).Perm
        (rows.filter fun row => decide (row.projectId = p)) :=
    fun rows => (unordered.perm rows).filter _
  simp only [listStats, hids, Bool.false_eq_true, if_false, foldl_getMut, hzeroed, if_true,
    Option.map_some, listTrendBuckets]
  refine ⟨_, rfl, ?_, ?_, ?_⟩
  · have hevents := eventsOf_eq hperiod now db tables.events hp (currentWindow_grid hperiod now)
    have htotal := total_events db tables.events projectIds
      (now - 24 * 2 * bucketSecs periodHours) (bucketSecs periodHours) p isCurrent
    rw [hevents, volumeOf, ← List.countP_eq_length_filter] at htotal
    rw [(foldl_addIssueCounts _ _).1, foldl_current, total_perm (hperm _), htotal]
    exact zero_add _
  · have hevents := eventsOf_eq hperiod now db tables.events hp (previousWindow_grid hperiod now)
    have htotal := total_events db tables.events projectIds
      (now - 24 * 2 * bucketSecs periodHours) (bucketSecs periodHours) p isPrevious
    rw [hevents, volumeOf, ← List.countP_eq_length_filter] at htotal
    rw [(foldl_addIssueCounts _ _).1, foldl_previous _ _ rfl, total_perm (hperm _), htotal,
      zero_add]
  · refine List.ext_getElem? fun bar => ?_
    rw [(foldl_addIssueCounts _ _).2, foldl_trend _ _ rfl, total_perm (hperm _), List.getElem?_map]
    by_cases hbar : bar < 24
    · have hevents := eventsOf_eq hperiod now db tables.events hp (bar_grid hperiod now hbar)
      have htotal := total_issues db tables.events projectIds
        (now - 24 * 2 * bucketSecs periodHours) (bucketSecs periodHours) p (isBar bar)
      rw [hevents, volumeOf] at htotal
      have hzero : zeroed.trend[bar]? = some 0 := List.getElem?_replicate_of_lt hbar
      rw [htotal, hzero, List.getElem?_range hbar, Option.map_some, Option.map_some, zero_add]
    · simp [zeroed, listTrendBuckets, hbar]

/-- From the last bar on, the index goes with the stretch. -/
theorem idx_eq_stretch (t : Int) :
    (t - (now - 24 * 2 * bucketSecs periodHours) * 1000000) / (bucketSecs periodHours * 1000000) =
      stretch periodHours now t + 47 := by
  have hlength : periodHours * 3600 / 24 = bucketSecs periodHours := by
    rw [bucketSecs_eq hperiod]
    omega
  rw [stretch, hlength, ← Int.add_mul_ediv_right _ _ (width_pos hperiod).ne', barStart_eq hperiod]
  congr 1
  omega

/-- The different issues of a bar add up just if no issue stands under two indices, which only
the last bar has. -/
theorem card_bar_iff (db : Backend) {events : List EventRow} {p : Int}
    (hevents : ∀ e ∈ events, e.projectId = p) {bar : ℕ} (hbar : bar < 24) :
    (keyed (groupKey db (now - 24 * 2 * bucketSecs periodHours) (bucketSecs periodHours))
        (·.issueId) (events.filter fun e => inBar periodHours now bar e.ingestedAt)).card =
      distinct (·.issueId) (events.filter fun e => inBar periodHours now bar e.ingestedAt) ↔
    (bar = 23 → OneStretch events periodHours now) := by
  have hidx : ∀ e ∈ events, inBar periodHours now bar e.ingestedAt = true →
      groupKey db (now - 24 * 2 * bucketSecs periodHours) (bucketSecs periodHours) e =
          (p, stretch periodHours now e.ingestedAt + 47) ∧
        isBar bar (stretch periodHours now e.ingestedAt + 47) = true := by
    intro e he hin
    obtain ⟨hstart, hin⟩ := (bar_grid hperiod now hbar e.ingestedAt).mp hin
    rw [idx_eq_stretch hperiod] at hin
    refine ⟨?_, hin⟩
    rw [groupKey, hevents e he, bucketIdx_eq ((first_le_iff hperiod now _).mpr hstart),
      idx_eq_stretch hperiod]
  rw [card_keyed_eq_iff]
  constructor
  · rintro h rfl e he e' he' hlast hlast' hissue hsome
    have hin : ∀ t, barStart periodHours now 23 ≤ t → inBar periodHours now (23 : ℕ) t = true :=
      fun t ht => by simpa [inBar] using ht
    have hkey := h e (List.mem_filter.mpr ⟨he, hin _ hlast⟩) e'
      (List.mem_filter.mpr ⟨he', hin _ hlast'⟩) hissue hsome
    rw [(hidx e he (hin _ hlast)).1, (hidx e' he' (hin _ hlast')).1, Prod.mk.injEq] at hkey
    exact add_right_cancel hkey.2
  · intro h e he e' he' hissue hsome
    obtain ⟨hmem, hin⟩ := List.mem_filter.mp he
    obtain ⟨hmem', hin'⟩ := List.mem_filter.mp he'
    obtain ⟨hkey, hslot⟩ := hidx e hmem hin
    obtain ⟨hkey', hslot'⟩ := hidx e' hmem' hin'
    rw [hkey, hkey']
    by_cases hlast : bar = 23
    · subst hlast
      have hstart : ∀ t, inBar periodHours now (23 : ℕ) t = true →
          barStart periodHours now 23 ≤ t := fun t ht => by simpa [inBar] using ht
      rw [h rfl e hmem e' hmem' (hstart _ hin) (hstart _ hin') hissue hsome]
    · simp only [isBar, Bool.and_eq_true, decide_eq_true_eq, beq_iff_eq] at hslot hslot'
      rw [Prod.mk.injEq]
      omega

/-- In the row of a requested project the two windows are counted as they should be, and so
are the bars just if no issue has events in two of the stretches the last bar takes in. -/
theorem listStats_counts_iff (db : Backend) (unordered : Unordered) (tables : Tables)
    {projectIds : List Int} {p : Int} (hp : p ∈ projectIds) :
    (∃ row, listStats db unordered tables projectIds periodHours now p = some row ∧
      CountsWhatItSays (errorEvents tables.events p) periodHours now row) ↔
    OneStretch (errorEvents tables.events p) periodHours now := by
  obtain ⟨row, hrow, hcurrent, hprevious, htrend⟩ :=
    listStats_row hperiod now db unordered tables hp
  have hevents : ∀ e ∈ errorEvents tables.events p, e.projectId = p := by
    intro e he
    have hcond := (List.mem_filter.mp he).2
    rw [Bool.and_eq_true, beq_iff_eq] at hcond
    exact hcond.1
  constructor
  · rintro ⟨row', hrow', hcounts⟩
    obtain rfl : row = row' := Option.some.inj (hrow.symm.trans hrow')
    have heq := htrend.symm.trans hcounts.trend
    have hlast := List.map_inj_left.mp heq 23 (by decide)
    exact (card_bar_iff hperiod now db hevents (by decide)).mp (Int.ofNat_inj.mp hlast) rfl
  · intro h
    refine ⟨row, hrow, hcurrent, hprevious, htrend.trans ?_⟩
    refine List.map_congr_left fun bar hbar => ?_
    have hbar := List.mem_range.mp hbar
    exact congrArg Nat.cast ((card_bar_iff hperiod now db hevents hbar).mpr fun _ => h)

end Grid

/-- An issue with an event a second before the clock's reading and one at it. -/
def busyIssue : Tables where
  events :=
    [⟨1, some "9d3c", 1714564799000000, "error"⟩, ⟨1, some "9d3c", 1714564800000000, "error"⟩]
  issues := [⟨1, "unresolved", some "error", 1714564799000000, "error"⟩]

theorem busyIssue_counted :
    (∃ row, listStats .sqlite .asFound busyIssue [1] 24 1714564800 1 = some row ∧
      CountsWhatItSays (errorEvents busyIssue.events 1) 24 1714564800 row) ↔
    OneStretch (errorEvents busyIssue.events 1) 24 1714564800 :=
  listStats_counts_iff (by decide) 1714564800 .sqlite .asFound busyIssue (by decide)

/-- The last bar counts that one issue twice. -/
theorem busyIssue_miscounted :
    ¬ ∀ (db : Backend) (unordered : Unordered) (tables : Tables) (projectIds : List Int)
      (p periodHours now : Int), p ∈ projectIds → 1 ≤ periodHours →
      ∃ row, listStats db unordered tables projectIds periodHours now p = some row ∧
        CountsWhatItSays (errorEvents tables.events p) periodHours now row := by
  intro h
  obtain ⟨row, hrow, hcounts⟩ :=
    h .sqlite .asFound busyIssue [1] 1 24 1714564800 (by decide) (by decide)
  have hshown : (listStats .sqlite .asFound busyIssue [1] 24 1714564800 1).bind
      (fun row => row.trend[23]?) = some 2 := by decide +kernel
  have hright : row.trend[23]? = some 1 := by
    rw [hcounts.trend]
    decide +kernel
  rw [hrow, Option.bind_some, hright] at hshown
  cases hshown

end Rustrak.Stats
