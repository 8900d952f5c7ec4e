import Rustrak.Digest.Write
import Rustrak.Transition.Run

/-!
# How many events a window lets through

Digests read the clock before they reach the rows, so the rows see the readings in
any order.  A row forgets its window as soon as it is given another one: an older
reading that arrives after a newer one resets the row to the older window, and the
next newer one starts over at one (`older_reading_exceeds_limit`).

While no reading is older than a window it finds stored, every window stays within
its limit: `Bounds` of the fixed-window counter, for the four counters an event
goes through.
-/

namespace Rustrak.Digest

open Rustrak.Quota Rustrak.Relational Rustrak.Transition

/-- One digest reaching the quota rows with its reading of the clock. -/
inductive Consumption
  /-- Both rows counted it and the transaction committed. -/
  | taken (projectId : Int) (now : Int)
  /-- A row was full, or the transaction rolled back. -/
  | refused (projectId : Int) (now : Int)
  deriving DecidableEq, Repr

inductive ConsumeStep (config : RateLimitConfig) : Db → Consumption → Db → Prop
  | taken {db db' : Db} {projectId now : Int} :
      consumeQuota config db projectId now = .ok db' →
      ConsumeStep config db (.taken projectId now) db'
  | refused (db : Db) (projectId now : Int) :
      ConsumeStep config db (.refused projectId now) db

/-- Neither window of the row is later than the reading. -/
def NotOlder (quota : QuotaWindows) (now : Int) : Prop :=
  quota.minute.window ≤ minuteOf now ∧ quota.hour.window ≤ hourOf now

/-- The reading is not older than the windows it finds stored. -/
def InOrder (db : Db) : Consumption → Prop
  | .taken projectId now =>
      NotOlder db.installation.quota now ∧
        ∀ row, db.project projectId = some row → NotOlder row.quota now
  | .refused _ _ => True

/-- The reading of an event that was let through, if it is one of these projects. -/
def Consumption.reading? (ofProject : Int → Bool) : Consumption → Option Int
  | .taken projectId now => if ofProject projectId then some now else none
  | .refused _ _ => none

/-- The readings of the events that were let through. -/
def readings (ofProject : Int → Bool) (labels : List Consumption) : List Int :=
  labels.filterMap (Consumption.reading? ofProject)

/-- How many of these readings lie in a window. -/
def inWindow (window : Int → Int) (w : Int) (readings : List Int) : Int :=
  ((readings.map window).count w : Nat)

/-! ## One row -/

/-- A row that let through these readings. -/
structure RowBounds (limits : Limits) (taken : List Int) (quota : QuotaWindows) : Prop where
  minute : quota.minute.Bounds limits.perMinute (taken.map minuteOf)
  hour : quota.hour.Bounds limits.perHour (taken.map hourOf)

theorem RowBounds.start {limits : Limits} (hlimits : limits.Positive) {quota : QuotaWindows}
    (hcount : 0 ≤ quota.minute.count ∧ 0 ≤ quota.hour.count) : RowBounds limits [] quota :=
  ⟨.start hlimits.1 hcount.1, .start hlimits.2 hcount.2⟩

theorem RowBounds.count {limits : Limits} (hlimits : limits.Positive) {taken : List Int}
    {quota : QuotaWindows} (h : RowBounds limits taken quota) {now : Int}
    (hroom : hasRoom quota limits now = true) (horder : NotOlder quota now) :
    RowBounds limits (taken ++ [now]) (count quota now) := by
  simp only [hasRoom, Bool.and_eq_true] at hroom
  refine ⟨?_, ?_⟩
  · rw [List.map_append]
    exact h.minute.bump hlimits.1 hroom.1 horder.1
  · rw [List.map_append]
    exact h.hour.bump hlimits.2 hroom.2 horder.2

theorem RowBounds.within {limits : Limits} {taken : List Int} {quota : QuotaWindows}
    (h : RowBounds limits taken quota) (w : Int) :
    inWindow minuteOf w taken ≤ limits.perMinute ∧ inWindow hourOf w taken ≤ limits.perHour :=
  ⟨h.minute.within w, h.hour.within w⟩

/-! ## All rows -/

variable {config : RateLimitConfig}

/-- Every limit in force lets something through, and no row starts with a debt. -/
structure Ready (config : RateLimitConfig) (db : Db) : Prop where
  installation : config.installation.Positive
  project : ∀ p row, db.project p = some row → (projectLimits config row.ownLimits).Positive
  installationCount : 0 ≤ db.installation.quota.minute.count ∧ 0 ≤ db.installation.quota.hour.count
  projectCount : ∀ p row, db.project p = some row →
    0 ≤ row.quota.minute.count ∧ 0 ≤ row.quota.hour.count

/-- What the rows know after these consumptions. -/
structure DbBounds (config : RateLimitConfig) (start : Db) (labels : List Consumption) (db : Db) :
    Prop where
  installation :
    RowBounds config.installation (readings (fun _ => true) labels) db.installation.quota
  project : ∀ p row, db.project p = some row →
    RowBounds (projectLimits config row.ownLimits) (readings (fun q => q = p) labels) row.quota
  ownLimits : ∀ p, (db.project p).map Project.ownLimits = (start.project p).map Project.ownLimits

theorem DbBounds.start {db : Db} (h : Ready config db) : DbBounds config db [] db where
  installation := .start h.installation h.installationCount
  project p row hrow := .start (h.project p row hrow) (h.projectCount p row hrow)
  ownLimits _ := rfl

/-- The limits in force are those of the start. -/
private theorem DbBounds.positive {start db : Db} {labels : List Consumption}
    (h : DbBounds config start labels db) (hready : Ready config start) {p : Int} {row : Project}
    (hrow : db.project p = some row) : (projectLimits config row.ownLimits).Positive := by
  have hown := h.ownLimits p
  rw [hrow] at hown
  cases hstart : start.project p with
  | none => simp [hstart] at hown
  | some row₀ =>
      rw [hstart] at hown
      rw [Option.some.inj hown]
      exact hready.project p row₀ hstart

/-- One event let through in order, counted on both rows. -/
private theorem DbBounds.taken {start db db' : Db} {labels : List Consumption}
    (hready : Ready config start) (h : DbBounds config start labels db) {projectId now : Int}
    (hconsume : consumeQuota config db projectId now = .ok db')
    (horder : InOrder db (.taken projectId now)) :
    DbBounds config start (labels ++ [.taken projectId now]) db' := by
  obtain ⟨hroom, row, hrow, hroom', rfl⟩ := consumeQuota_eq_ok hconsume
  have hkey : ∀ q : Project, ({ q with quota := count row.quota now } : Project).id = q.id :=
    fun _ => rfl
  have hproject : ∀ p, lookup Project.id p (modify Project.id projectId
      (fun q : Project => { q with quota := count row.quota now }) db.projects) =
        if p = projectId then some { row with quota := count row.quota now }
        else db.project p := by
    intro p
    rw [lookup_modify hkey]
    split_ifs with hp
    · subst hp
      change (db.project p).map _ = _
      rw [hrow]
      rfl
    · rfl
  refine ⟨?_, ?_, ?_⟩
  · have hreadings : readings (fun _ => true) (labels ++ [.taken projectId now]) =
        readings (fun _ => true) labels ++ [now] := by
      simp [readings, Consumption.reading?]
    rw [hreadings]
    exact h.installation.count hready.installation hroom horder.1
  · intro p other hother
    change lookup Project.id p _ = some other at hother
    rw [hproject] at hother
    split_ifs at hother with hp
    · subst hp
      obtain rfl := Option.some.inj hother
      have hreadings : readings (fun q => q = p) (labels ++ [.taken p now]) =
          readings (fun q => q = p) labels ++ [now] := by
        simp [readings, Consumption.reading?]
      rw [hreadings]
      exact (h.project p row hrow).count (h.positive hready hrow) hroom' (horder.2 row hrow)
    · have hreadings : readings (fun q => q = p) (labels ++ [.taken projectId now]) =
          readings (fun q => q = p) labels := by
        simp [readings, Consumption.reading?, Ne.symm hp]
      rw [hreadings]
      exact h.project p other hother
  · intro p
    rw [← h.ownLimits p]
    change (lookup Project.id p _).map _ = _
    rw [hproject]
    split_ifs with hp
    · rw [hp, hrow]
      rfl
    · rfl

theorem consumeStep_bounds {start db db' : Db} {labels : List Consumption} {label : Consumption}
    (hready : Ready config start) (h : DbBounds config start labels db)
    (hstep : ConsumeStep config db label db') (horder : InOrder db label) :
    DbBounds config start (labels ++ [label]) db' := by
  cases hstep with
  | taken hconsume => exact h.taken hready hconsume horder
  | refused projectId now =>
      have hreadings : ∀ ofProject, readings ofProject (labels ++ [.refused projectId now]) =
          readings ofProject labels := by
        intro ofProject
        simp [readings, Consumption.reading?]
      exact ⟨by rw [hreadings]; exact h.installation,
        fun p row hrow => by rw [hreadings]; exact h.project p row hrow, h.ownLimits⟩

theorem run_bounds {start db final : Db} {before labels : List Consumption}
    (hready : Ready config start) (h : DbBounds config start before db)
    (hrun : Run (fun db label db' => ConsumeStep config db label db' ∧ InOrder db label)
      db labels final) :
    DbBounds config start (before ++ labels) final := by
  induction hrun generalizing before with
  | nil => simpa using h
  | cons hstep _ ih =>
      have hnext := ih (consumeStep_bounds hready h hstep.1 hstep.2)
      simpa using hnext

/-- The number of events let through in a window, on the installation and on each
project, is at most the limit of that window. -/
def WithinLimits (config : RateLimitConfig) (start : Db) (labels : List Consumption) : Prop :=
  ∀ w,
    (inWindow minuteOf w (readings (fun _ => true) labels) ≤ config.installation.perMinute ∧
      inWindow hourOf w (readings (fun _ => true) labels) ≤ config.installation.perHour) ∧
    ∀ p row, start.project p = some row →
      inWindow minuteOf w (readings (fun q => q = p) labels) ≤
        (projectLimits config row.ownLimits).perMinute ∧
      inWindow hourOf w (readings (fun q => q = p) labels) ≤
        (projectLimits config row.ownLimits).perHour

/-- In a run whose readings arrive in the order of their windows, no window lets
more through than its limit. -/
theorem ordered_readings_within_limits {start final : Db} {labels : List Consumption}
    (hready : Ready config start)
    (hrun : Run (fun db label db' => ConsumeStep config db label db' ∧ InOrder db label)
      start labels final) :
    WithinLimits config start labels := by
  have hbounds := run_bounds hready (DbBounds.start hready) hrun
  rw [List.nil_append] at hbounds
  intro w
  refine ⟨hbounds.installation.within w, fun p row hrow => ?_⟩
  have hown := hbounds.ownLimits p
  rw [hrow] at hown
  cases hfinal : final.project p with
  | none => simp [hfinal] at hown
  | some row' =>
      rw [hfinal] at hown
      rw [← Option.some.inj hown]
      exact (hbounds.project p row' hfinal).within w

/-! ## One event a minute -/

def onePerMinute : RateLimitConfig := ⟨⟨1, 100⟩, ⟨1, 100⟩⟩

private theorem ready_onePerMinute : Ready onePerMinute (.fresh [1]) := by
  have hrow : ∀ p row, (Db.fresh [1]).project p = some row →
      row = ⟨1, 0, 0, .fresh, ⟨none, none⟩⟩ := by
    intro p row h
    have hmem := mem_of_lookup h
    simpa [Db.fresh] using hmem
  refine ⟨by unfold Limits.Positive; decide, ?_, by decide, ?_⟩
  · intro p row h
    rw [hrow p row h]
    unfold Limits.Positive
    decide
  · intro p row h
    rw [hrow p row h]
    decide

/-- Read in second 59, 60 and 59 again: the third reading finds the window of the
second stored and is let through, the second in minute 0. -/
theorem older_reading_exceeds_limit :
    Ready onePerMinute (.fresh [1]) ∧
      ∃ final, Run (ConsumeStep onePerMinute) (.fresh [1])
          [.taken 1 59, .taken 1 60, .taken 1 59] final ∧
        ¬WithinLimits onePerMinute (.fresh [1]) [.taken 1 59, .taken 1 60, .taken 1 59] := by
  refine ⟨ready_onePerMinute, _,
    .cons (.taken rfl) (.cons (.taken rfl) (Run.single (.taken rfl))), ?_⟩
  intro hwithin
  exact absurd (hwithin 0).1.1 (by decide)

/-- Read in order, one event of each minute is let through. -/
theorem ordered_readings_within_limits_onePerMinute :
    WithinLimits onePerMinute (.fresh [1]) [.taken 1 59, .refused 1 59, .taken 1 60] := by
  refine ordered_readings_within_limits ready_onePerMinute
    (.cons ⟨.taken rfl, ?_⟩ (.cons ⟨.refused _ 1 59, trivial⟩ (Run.single ⟨.taken rfl, ?_⟩)))
  · refine ⟨by unfold NotOlder; decide, fun row hrow => ?_⟩
    obtain rfl := Option.some.inj hrow
    unfold NotOlder
    decide
  · refine ⟨by unfold NotOlder; decide, fun row hrow => ?_⟩
    obtain rfl := Option.some.inj hrow
    unfold NotOlder
    decide

end Rustrak.Digest
