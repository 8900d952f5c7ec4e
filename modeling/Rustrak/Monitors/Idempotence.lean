import Rustrak.Monitors.Recounting
import Rustrak.Monitors.Statuses
import Rustrak.Monitors.SweepTurns

/-!
# Sweeping twice at one instant

The sweep moves every environment that is late on to the next check-in it expects, so a second
one at the same instant should find nothing.  All depends on that next check-in: it is late as
well when the schedule is `Overtaken`.

* `findsNothing_after_early`: an environment that is not late is not swept again;
* `findsNothing_after_late`: one that is, when what it expects then is late;
* `sweep_idempotent`: so exactly when the schedule is overtaken;
* `clipped_month_swept_twice`: a month that is counted from 28 February.
-/

namespace Rustrak.Monitors

open Rustrak.Core Rustrak.Relational Rustrak.Transition

variable {p : Platform} {t : Tables} {monitor : Monitor} {env : Environment} {id : Uuid}
  {now expected latest : Int}

/-- A sweep finds nothing to mark: the environment and its check-ins stay as they are, and
nothing is reported of it. -/
def FindsNothing (p : Platform) (t : Tables) (id : Uuid) (now : Int) : Prop :=
  let marked := markLate p t (truncateToMinute now)
  lookup Environment.id id marked.1.environments = lookup Environment.id id t.environments ∧
    marked.1.checkinsOf id = t.checkinsOf id ∧ Silent id marked.2

instance (p : Platform) (t : Tables) (id : Uuid) (now : Int) :
    Decidable (FindsNothing p t id now) :=
  inferInstanceAs (Decidable (_ ∧ _ ∧ ∀ failure ∈ _, MonitorFailure.monitorEnvironmentId failure ≠ id))

/-- An environment is late, and the check-in after the last slot is late as well.  With crons
off none is recorded, and a crontab is counted to that same slot again. -/
def SweptAgain (p : Platform) (t : Tables) (monitor : Monitor) (env : Environment) (now : Int) :
    Prop :=
  ∃ expected latest, env.nextCheckin = some expected ∧ env.nextCheckinLatest = some latest ∧
    latest ≤ truncateToMinute now ∧
    monitor.config.Overtaken p.clocks expected (truncateToMinute now) ∧
    (monitor.projectId ∈ t.cronsOff → monitor.config.schedule.isInterval)

theorem findsNothing_of_early (hsound : Sound p t) (hnone : NoneLate t (truncateToMinute now))
    (hfound : Found t monitor env)
    (hearly : ∀ expected latest, env.nextCheckin = some expected →
      env.nextCheckinLatest = some latest → truncateToMinute now < latest) :
    FindsNothing p t env.id now := by
  obtain ⟨hapart, hsilent⟩ := markMissed_apart_of_early hsound hfound hearly
  unfold FindsNothing
  rw [markLate_eq_of_noneLate hnone]
  exact ⟨hapart.environment, hapart.checkins, hsilent⟩

/-- A sweep finds an environment that is late, unless crons are off and it counts to the check-in
that was expected. -/
theorem findsNothing_iff_of_late (hsound : Sound p t) (hnone : NoneLate t (truncateToMinute now))
    (hready : Ready t monitor env) (hexpected : env.nextCheckin = some expected)
    (hlatest : env.nextCheckinLatest = some latest) (hlate : latest ≤ truncateToMinute now) :
    FindsNothing p t env.id now ↔ monitor.projectId ∈ t.cronsOff ∧
      env.rescheduled p monitor.config
        (monitor.config.prevCheckin p.clocks expected (truncateToMinute now)) = env := by
  obtain ⟨hmoved, hquiet⟩ := markMissed_moved hsound hready hexpected hlatest hlate
  have hlookup := (hready.found hsound).environment
  unfold FindsNothing
  rw [markLate_eq_of_noneLate hnone, hlookup]
  constructor
  · rintro ⟨hsame, hrows, -⟩
    by_cases hoff : monitor.projectId ∈ t.cronsOff
    · rw [(hmoved.off hoff).2] at hsame
      exact ⟨hoff, Option.some.inj hsame⟩
    · obtain ⟨row, hrow⟩ := hmoved.missed hoff
      rw [hrow] at hrows
      exact absurd hrows (by simp)
  · rintro ⟨hoff, hsame⟩
    obtain ⟨hrows, hmoved⟩ := hmoved.off hoff
    rw [hsame] at hmoved
    exact ⟨hmoved, hrows, hquiet hoff⟩

/-- What the first sweep leaves of an environment that is not late: its schedule. -/
theorem findsNothing_after_early (hsound : Sound p t) (hready : Ready t monitor env)
    (hearly : ∀ expected latest, env.nextCheckin = some expected →
      env.nextCheckinLatest = some latest → truncateToMinute now < latest) :
    FindsNothing p (sweep p t now).1 env.id now := by
  have hfound := hready.found hsound
  have hswept := hsound.swept env.id now
  have hapart := (markMissed_apart_of_early hsound hfound hearly).1
  have hrests := hapart.rests.trans hswept.rests
  obtain ⟨status, hstatus⟩ := hrests.environment env hfound.environment
  have hfound' : Found (sweep p t now).1 monitor { env with status } := by
    refine ⟨hstatus, ?_⟩
    rw [hrests.monitors]
    exact hfound.monitor
  have hnothing := findsNothing_of_early hswept.sound hswept.noneLate hfound' hearly
  exact hnothing

/-- What it leaves of one that is. -/
theorem sweep_late (hsound : Sound p t) (hready : Ready t monitor env)
    (hexpected : env.nextCheckin = some expected) (hlatest : env.nextCheckinLatest = some latest)
    (hlate : latest ≤ truncateToMinute now) :
    (sweep p t now).1.cronsOff = t.cronsOff ∧ ∃ status, Ready (sweep p t now).1 monitor
      { env.rescheduled p monitor.config
        (monitor.config.prevCheckin p.clocks expected (truncateToMinute now)) with status } := by
  have hswept := hsound.swept env.id now
  obtain ⟨hmoved, -⟩ := markMissed_moved hsound hready hexpected hlatest hlate
  obtain ⟨status₁, hmarked⟩ := hmoved.environment
  obtain ⟨status, hstatus⟩ := hswept.rests.environment _ hmarked
  refine ⟨hswept.rests.cronsOff.trans hmoved.cronsOff, status, ?_, mem_of_lookup hstatus,
    hready.monitorId⟩
  rw [hswept.rests.monitors, hmoved.monitors]
  exact hready.mem_monitors

/-- Of an environment that is late twice, a sweep finds nothing only when it counts to the same
check-in again, and records no other. -/
theorem findsNothing_after_late (hsound : Sound p t) (hready : Ready t monitor env)
    (hexpected : env.nextCheckin = some expected) (hlatest : env.nextCheckinLatest = some latest)
    (hlate : latest ≤ truncateToMinute now) {reference : Int}
    (hreference : monitor.config.prevCheckin p.clocks expected (truncateToMinute now) = reference) :
    FindsNothing p (sweep p t now).1 env.id now ↔
      truncateToMinute now < monitor.config.nextCheckinLatest p.clocks reference ∨
        monitor.projectId ∈ t.cronsOff ∧
          monitor.config.nextCheckin p.clocks (monitor.config.prevCheckin p.clocks
            (monitor.config.nextCheckin p.clocks reference) (truncateToMinute now)) =
              monitor.config.nextCheckin p.clocks reference := by
  have hswept := hsound.swept env.id now
  obtain ⟨hcrons, status, hready'⟩ := sweep_late hsound hready hexpected hlatest hlate
  rw [hreference] at hready'
  by_cases hover : monitor.config.nextCheckinLatest p.clocks reference ≤ truncateToMinute now
  · have hiff := findsNothing_iff_of_late hswept.sound hswept.noneLate hready' rfl rfl hover
    rw [hcrons] at hiff
    apply hiff.trans
    rw [or_iff_right (not_lt.mpr hover)]
    apply and_congr_right
    intro _
    constructor
    · intro hsame
      exact Option.some.inj (congrArg Environment.nextCheckin hsame)
    · intro hsame
      simp only [Environment.rescheduled, MonitorConfig.nextCheckinLatest, hsame]
  · have hnothing := findsNothing_of_early hswept.sound hswept.noneLate
      (hready'.found hswept.sound) fun expected' latest' _ hlatest' => by
        obtain rfl := Option.some.inj hlatest'
        exact not_le.mp hover
    exact iff_of_true hnothing (.inl (not_le.mp hover))

/-- Sweeping an environment once more at the same instant finds nothing, unless the schedule has
been overtaken. -/
theorem sweep_idempotent (hsound : Sound p t) (hready : Ready t monitor env) (now : Int) :
    (¬SweptAgain p t monitor env now → FindsNothing p (sweep p t now).1 env.id now) ∧
      (monitor.config.schedule.KeepsOrder →
        (FindsNothing p (sweep p t now).1 env.id now ↔ ¬SweptAgain p t monitor env now)) := by
  have hvalid := hsound.config monitor hready.mem_monitors
  by_cases hdue : ∃ expected latest, env.nextCheckin = some expected ∧
      env.nextCheckinLatest = some latest ∧ latest ≤ truncateToMinute now
  · obtain ⟨expected, latest, hexpected, hlatest, hlate⟩ := hdue
    have hbefore : expected < truncateToMinute now :=
      (hsound.margin env hready.mem_environments expected hexpected latest hlatest).trans_le hlate
    have hswept : SweptAgain p t monitor env now ↔
        monitor.config.Overtaken p.clocks expected (truncateToMinute now) ∧
          (monitor.projectId ∈ t.cronsOff → monitor.config.schedule.isInterval) := by
      constructor
      · rintro ⟨expected', latest', hexpected', -, -, hagain⟩
        obtain rfl := Option.some.inj (hexpected.symm.trans hexpected')
        exact hagain
      · exact fun hagain => ⟨expected, latest, hexpected, hlatest, hlate, hagain⟩
    rw [findsNothing_after_late hsound hready hexpected hlatest hlate rfl, hswept]
    have hnothing := settled_of_not_overtaken (monitor.projectId ∈ t.cronsOff) rfl hvalid
      hbefore (truncateToMinute_truncateToMinute now)
    refine ⟨hnothing, fun horder => ⟨fun hsettled hagain => ?_, hnothing⟩⟩
    exact not_settled_of_overtaken _ rfl hvalid hbefore horder hagain.1 hagain.2 hsettled
  · have hnot : ¬SweptAgain p t monitor env now := by
      rintro ⟨expected, latest, hexpected, hlatest, hlate, -⟩
      exact hdue ⟨expected, latest, hexpected, hlatest, hlate⟩
    have hnothing : FindsNothing p (sweep p t now).1 env.id now := by
      apply findsNothing_after_early hsound hready
      intro expected latest hexpected hlatest
      by_contra hlate
      exact hdue ⟨expected, latest, hexpected, hlatest, not_lt.mp hlate⟩
    exact ⟨fun _ => hnothing, fun _ => iff_of_true hnothing hnot⟩

/-- Of a monitor that runs every ten minutes, an hour without a run is swept once. -/
theorem sweep_idempotent_after_outage : ∃ w : World,
    (sweep .utc w.tables hour).1.checkins.map CheckInRow.status = [.ok, .missed] ∧
      FindsNothing .utc (sweep .utc w.tables hour).1 9 hour := by
  have hfirst : ∃ w, Step .utc .start (.checkIn 1 (tenMinutely 7 "ok") 0 0) w ∧
      (sweep .utc w.tables hour).1.checkins.map CheckInRow.status = [.ok, .missed] ∧
      ∃ monitor ∈ w.tables.monitors, ∃ env ∈ w.tables.environments,
        env.id = 9 ∧ env.monitorId = monitor.id ∧ env.nextCheckin = some (10 * minute) ∧
          monitor.config.schedule = .interval 10 .minute ∧ monitor.config.timezone = "UTC" := by
    refine ⟨_, rfl, ?_, ?_⟩
    · decide +kernel
    · decide +kernel
  obtain ⟨w, hstep, hstatuses, monitor, hmonitor, env, henv, hid, hof, hnext, hschedule, hzone⟩ :=
    hfirst
  have hsound := ((World.Sound.start .utc).step hstep).tables
  refine ⟨w, hstatuses, ?_⟩
  rw [← hid]
  refine (sweep_idempotent hsound ⟨hmonitor, henv, hof⟩ hour).1 ?_
  rintro ⟨expected, latest, hexpected, -, -, hover, -⟩
  obtain rfl := Option.some.inj (hnext.symm.trans hexpected)
  unfold MonitorConfig.Overtaken MonitorConfig.tz at hover
  rw [hschedule, hzone] at hover
  exact not_overtaken_of_steady (fun t => (Int.add_zero t).symm) (by decide) (by decide)
    (by decide) hover

/-- A monitor that runs every month. -/
def monthly : CheckInPayload where
  checkInId := some 7
  monitorSlug := "invoices"
  status := "ok"
  environment := none
  durationMs := none
  monitorConfig := some ⟨some (.interval 1 .month), none, none, none, none, none⟩

/-- A date at midnight. -/
def midnight (year month dayOfMonth : Int) : Int :=
  (Calendar.firstDay (Calendar.monthNumber year month) + dayOfMonth - 1) * day

/-- The check-in of 31 January is missed.  On 30 March the last slot is 28 February, and one
sweep after the other finds a check-in missed: that of 28 March as well. -/
theorem clipped_month_swept_twice :
    ¬∀ (p : Platform) (labels : List Label) (w : World), Run (Step p) .start labels w →
      ∀ monitor ∈ w.tables.monitors, ∀ env ∈ w.tables.environments, env.monitorId = monitor.id →
        ∀ now, FindsNothing p (sweep p w.tables now).1 env.id now := by
  intro hall
  have hrun : ∃ w, Run (Step .utc) .start
      [.checkIn 1 monthly (midnight 2025 12 31) (midnight 2025 12 31)] w ∧
      ∃ monitor ∈ w.tables.monitors, ∃ env ∈ w.tables.environments, env.monitorId = monitor.id ∧
        ¬FindsNothing .utc (sweep .utc w.tables (midnight 2026 3 30)).1 env.id
          (midnight 2026 3 30) := by
    refine ⟨_, .cons rfl <| .nil _, ?_⟩
    decide +kernel
  obtain ⟨w, hrun, monitor, hmonitor, env, henv, hof, hnot⟩ := hrun
  exact hnot (hall .utc _ w hrun monitor hmonitor env henv hof _)

end Rustrak.Monitors
