import Rustrak.Monitors.Turns

/-!
# When an incident opens

An environment in `error` has an incident.  It opens when a check-in fails and enough of the
newest ones have.  A run without a result counts as a failure as long as it is not `ok`
(`unfinished_run_counted`); without one among the newest check-ins, an incident opens on
failures alone (`incident_opens_on_failures`).
-/

namespace Rustrak.Monitors

open Rustrak.Core Rustrak.Relational Rustrak.Transition

variable {p : Platform} {t t' : Tables} {w w' : World} {label : Label} {labels : List Label}
  {monitor : Monitor} {env : Environment} {row failed : CheckInRow} {rows : List CheckInRow}
  {failures : List MonitorFailure} {checkIn : CheckIn} {received : Int} {n : Nat}

/-- An incident of an environment opens in a step. -/
def Opens (w w' : World) (id : Uuid) : Prop :=
  (∃ env ∈ w'.tables.environments, env.id = id ∧ env.status = .error) ∧
    ∀ old ∈ w.tables.environments, old.id = id → old.status ≠ .error

/-- An incident opens where a failure crosses the threshold. -/
theorem Step.opens (h : w.Sound p) (hstep : Step p w label w') {id : Uuid} (hopens : Opens w w' id) :
    ∃ t monitor env failed, Fails p w label t monitor env failed ∧ env.id = id ∧
      env.status ≠ .error ∧ crossesThreshold p t monitor env failed ∧ Beside t w'.tables := by
  obtain ⟨⟨env', henv', rfl, herror⟩, hnot⟩ := hopens
  cases hstep.turn h henv' with
  | kept hold hid hstatus => exact absurd (hstatus.trans herror) (hnot _ hold hid)
  | created hdrawn hactive => simp [hactive] at herror
  | @failed _ t monitor env _ failed hfails hid hopened hcross hbeside =>
      refine ⟨t, monitor, env, failed, hfails, hid, ?_, hcross, hbeside⟩
      rcases hfails.known_or_active h with hmem | hactive
      · exact hnot env hmem hid
      · simp [hactive]
  | recovered hparse hprepare hstore hstatus hresolved hid hok => simp [hok] at herror

/-- A step in which no failure is counted together with an unfinished run or against a newer
success. -/
def FailureStep (p : Platform) (w : World) (label : Label) (w' : World) : Prop :=
  Step p w label w' ∧ ∀ t monitor env failed, Fails p w label t monitor env failed →
    env.status ≠ .error →
    NoneOk monitor.config.failureIssueThreshold failed (t.checkinsOf env.id) →
    Decided monitor.config.failureIssueThreshold failed (t.checkinsOf env.id)

/-- In a run of such steps, whenever an incident opens the newest check-ins of its environment
are failures, as many as the threshold asks for. -/
theorem incident_opens_on_failures (hrun : Run (FailureStep p) .start labels w)
    (hstep : FailureStep p w label w') {id : Uuid} (hopens : Opens w w' id) :
    ∀ monitor ∈ w'.tables.monitors, ∀ env ∈ w'.tables.environments,
      env.id = id → env.monitorId = monitor.id →
      NewestFailed monitor.config.failureIssueThreshold (w'.tables.checkinsOf id) := by
  intro monitor hmonitor env henv hid hmonitorId
  have hsound : w.Sound p := hrun.invariant (World.Sound p)
    (fun _ _ _ hs hnext => hs.step hnext.1) (.start p)
  have hsound' := (hsound.step hstep.1).tables
  obtain ⟨t, monitor₀, env₀, failed, hfails, hid₀, hstatus, hcross, hbeside⟩ :=
    hstep.1.opens hsound hopens
  obtain ⟨hmem, hfailure⟩ := hfails.mem
  obtain ⟨hmonitor₀, hfailedMonitor⟩ := hfails.ofMonitor hsound
  obtain ⟨hrow, henvId⟩ := List.mem_filter.mp hmem
  have hsame : monitor₀ = monitor := by
    have hrow' : failed ∈ w'.tables.checkins := by
      rw [hbeside.checkins]
      exact hrow
    have hmonitor' : monitor₀ ∈ w'.tables.monitors := by
      rw [hbeside.monitors]
      exact hmonitor₀
    have henvId' : failed.environmentId = env.id := by
      rw [hid, ← hid₀]
      exact of_decide_eq_true henvId
    exact hsound'.monitor_unique hrow' hmonitor' hfailedMonitor henv henvId' hmonitor hmonitorId
  have hrows : w'.tables.checkinsOf id = t.checkinsOf env₀.id := by
    rw [Tables.checkinsOf, hbeside.checkins, hid₀]
    rfl
  rw [hrows, ← hsame]
  have hnone := noneOk_of_crossesThreshold hmem hfailure hcross
  exact newestFailed_of_crossesThreshold hmem hfailure hcross
    (hstep.2 t monitor₀ env₀ failed hfails hstatus hnone)

/-- The first check-in of a monitor is an error. -/
theorem incident_opens_on_failures_first : ∃ w' : World,
    w'.tables.environments.map Environment.status = [.error] ∧
      ∀ monitor ∈ w'.tables.monitors, ∀ env ∈ w'.tables.environments,
        env.id = 9 → env.monitorId = monitor.id →
        NewestFailed monitor.config.failureIssueThreshold (w'.tables.checkinsOf 9) := by
  have hstep : ∃ w', FailureStep .utc .start (.checkIn 1 (tenMinutely 7 "error") 0 0) w' ∧
      w'.tables.environments.map Environment.status = [.error] ∧
      ∃ env ∈ w'.tables.environments, env.id = 9 ∧ env.status = .error := by
    refine ⟨_, ⟨rfl, fun t monitor env failed hfails _ _ b hb hopen => ?_⟩, ?_, ?_⟩
    · -- The check-in that failed is the only one.
      have hprepared := Fails.before hfails (World.Sound.start .utc)
      have hsame : b = failed := by
        by_contra hne
        have hb := hprepared b (List.mem_of_mem_filter hb) hne
        simp [World.start, Tables.empty] at hb
      have hfailure := hfails.mem.2
      rw [← hsame] at hfailure
      rcases hopen with hopen | hopen | ⟨hopen, -⟩ <;> rw [hopen] at hfailure <;> cases hfailure
    · decide +kernel
    · decide +kernel
  obtain ⟨w', hstep, hstatus, henv⟩ := hstep
  exact ⟨w', hstatus, incident_opens_on_failures (.nil _) hstep
    ⟨henv, by simp [World.start, Tables.empty]⟩⟩

/-- Two runs overlap, and the later one fails first: with a threshold of two, the one that is
still in progress is counted. -/
theorem unfinished_run_counted :
    ¬∀ (p : Platform) (labels : List Label) (w : World) (label : Label) (w' : World) (id : Uuid),
      Run (Step p) .start labels w → Step p w label w' → Opens w w' id →
      ∀ monitor ∈ w'.tables.monitors, ∀ env ∈ w'.tables.environments,
        env.id = id → env.monitorId = monitor.id →
        NewestFailed monitor.config.failureIssueThreshold (w'.tables.checkinsOf id) := by
  intro hall
  have hopened : ∃ w w', Run (Step .utc) .start
      [.checkIn 1 { tenMinutely 7 "in_progress" with
          monitorConfig := some ⟨some (.interval 10 .minute), none, none, none, some 2, none⟩ } 0 0,
        .checkIn 1 (tenMinutely 8 "in_progress") 0 minute] w ∧
      Step .utc w (.checkIn 1 (tenMinutely 8 "error") 0 (2 * minute)) w' ∧
      ((∀ old ∈ w.tables.environments, old.status = .active) ∧
        ∃ env ∈ w'.tables.environments, env.id = 9 ∧ env.status = .error) ∧
      ∃ monitor ∈ w'.tables.monitors, ∃ env ∈ w'.tables.environments, env.id = 9 ∧
        env.monitorId = monitor.id ∧
        ¬NewestFailed monitor.config.failureIssueThreshold (w'.tables.checkinsOf 9) := by
    refine ⟨_, _, .cons rfl <| .cons rfl <| .nil _, rfl, ?_, ?_⟩
    · decide +kernel
    · decide +kernel
  obtain ⟨w, w', hrun, hstep, ⟨hactive, hopened⟩, monitor, hmonitor, env, henv, hid, hof, hnot⟩ :=
    hopened
  have hbefore : ∀ old ∈ w.tables.environments, old.id = 9 → old.status ≠ .error := by
    intro old hold _
    rw [hactive old hold]
    decide
  exact hnot (hall .utc _ w _ w' 9 hrun hstep ⟨hopened, hbefore⟩ monitor hmonitor env henv hid hof)

end Rustrak.Monitors
