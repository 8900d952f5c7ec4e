import Rustrak.Monitors.Turns

/-!
# When an incident closes

An incident closes when a check-in succeeds and enough of the newest ones have.  With a recovery
threshold of one, a run that is older than a missed check-in closes it as well
(`late_run_recovers`); without such a run an incident closes on successes alone
(`incident_closes_on_recovery`).
-/

namespace Rustrak.Monitors

open Rustrak.Core Rustrak.Relational Rustrak.Transition

variable {p : Platform} {t t' : Tables} {w w' : World} {label : Label} {labels : List Label}
  {monitor : Monitor} {env : Environment} {row failed : CheckInRow} {rows : List CheckInRow}
  {failures : List MonitorFailure} {checkIn : CheckIn} {received : Int} {n : Nat}

/-- An incident of an environment closes in a step: a check-in resolves it, or the environment
is in error no longer. -/
def Closes (p : Platform) (w : World) (label : Label) (w' : World) (id : Uuid) : Prop :=
  (∃ t monitor env row, Recovers p w label t monitor env row ∧ env.id = id) ∨
    (∃ old ∈ w.tables.environments, old.id = id ∧ old.status = .error) ∧
      ∃ env ∈ w'.tables.environments, env.id = id ∧ env.status ≠ .error

/-- An incident closes where a check-in resolves it. -/
theorem Step.closes (h : w.Sound p) (hstep : Step p w label w') {id : Uuid}
    (hcloses : Closes p w label w' id) :
    ∃ t monitor env row, Recovers p w label t monitor env row ∧ env.id = id := by
  rcases hcloses with hrecovers | ⟨⟨old, hold, rfl, herror⟩, env', henv', hid', hnot⟩
  · exact hrecovers
  · cases hstep.turn h henv' with
    | kept hother hid hstatus =>
        have hsame := h.tables.environment_unique hother hold (hid.trans hid')
        rw [← hstatus, hsame] at hnot
        exact absurd herror hnot
    | created hdrawn hactive =>
        have hbefore := h.tables.environmentDrawn old hold
        rw [← hid'] at hbefore
        exact absurd hbefore (not_lt.mpr hdrawn)
    | failed hfails hid hopened hcross hbeside => exact absurd hopened hnot
    | @recovered projectId now received item checkIn t t' monitor env _ row hparse hprepare hstore
        hstatus hresolved hid hok =>
        have hprepared := prepare_spec h.tables hprepare
        have herrorEnv : env.status = .error := by
          have hmem := hprepared.mem_environments
          rcases hprepared.environments with hkept | ⟨-, -, hdrawn⟩
          · rw [hkept] at hmem
            rw [h.tables.environment_unique hmem hold (hid.trans hid'), herror]
          · have hbefore := h.tables.environmentDrawn old hold
            rw [← hid', ← hid] at hbefore
            exact absurd hbefore (not_lt.mpr hdrawn)
        exact ⟨t', monitor, env, row,
          .intro hparse hprepare hstore herrorEnv hstatus hresolved, hid.trans hid'⟩

/-- A run that succeeds although a check-in of its environment has been missed or timed out
since it started, when one success is enough. -/
def LateRun (p : Platform) (t : Tables) (monitor : Monitor) (env : Environment) (checkIn : CheckIn)
    (received : Int) : Prop :=
  env.status = .error ∧ monitor.config.recoveryThreshold ≤ 1 ∧ checkIn.status = .ok ∧
    Unfinished p t monitor env checkIn ∧
    (∀ c ∈ t.checkinsOf env.id, c.status = .ok ∨ c.status = .error →
      c.dateAdded ≤ startOf p t monitor env checkIn received) ∧
    ∃ c ∈ t.checkinsOf env.id, (c.status = .missed ∨ c.status = .timeout) ∧
      startOf p t monitor env checkIn received < c.dateAdded

/-- A step in which no such run reports. -/
def RecoveryStep (p : Platform) (w : World) (label : Label) (w' : World) : Prop :=
  Step p w label w' ∧ OnCheckIn p w label fun t monitor env checkIn received =>
    ¬LateRun p t monitor env checkIn received

theorem hasNewerResult_eq_false_iff {id : Uuid} {date : Int} :
    t.hasNewerResult id date = false ↔
      ∀ c ∈ t.checkinsOf id, c.status = .ok ∨ c.status = .error → c.dateAdded ≤ date := by
  simp only [Tables.hasNewerResult, Tables.checkinsOf, List.any_eq_false, List.mem_filter,
    Bool.and_eq_true, Bool.or_eq_true, decide_eq_true_eq, not_and, not_or]
  constructor
  · rintro h c ⟨hc, hid⟩ hstatus
    by_contra hnewer
    obtain ⟨hok, herror⟩ := h c hc ⟨hid, not_le.mp hnewer⟩
    exact hstatus.elim hok herror
  · rintro h c hc ⟨hid, hnewer⟩
    exact ⟨fun hok => absurd hnewer (not_lt.mpr (h c ⟨hc, hid⟩ (.inl hok))),
      fun herror => absurd hnewer (not_lt.mpr (h c ⟨hc, hid⟩ (.inr herror)))⟩

/-- What a check-in has to be to resolve an incident. -/
theorem resolution_eq_true (herror : env.status = .error)
    (h : (resolution p t monitor env row).2 = true) :
    t.hasNewerResult env.id row.dateAdded = false ∧ row.status = .ok ∧
      (1 < monitor.config.recoveryThreshold →
        ∀ c ∈ p.newest.limit (t.checkinsOf env.id) monitor.config.recoveryThreshold,
          c.status = .ok) := by
  unfold resolution tryResolution recentStatuses at h
  dsimp only at h
  split_ifs at h with hnewer hstatus hthreshold
  refine ⟨by simpa using hnewer, not_not.mp hstatus, fun hmany c hc => ?_⟩
  have hmax : max monitor.config.recoveryThreshold 1 = monitor.config.recoveryThreshold :=
    max_eq_left hmany.le
  rw [hmax, herror] at hthreshold
  by_contra hbad
  refine hthreshold ⟨by simp, hmany, ?_⟩
  simp only [Option.all_none, List.any_map, List.any_eq_true]
  exact ⟨c, by simpa using hc, by simpa using hbad⟩

/-- The one result that a threshold of one asks for is the newest there is, if no run reports
that is older than a failure of the sweep. -/
theorem newestOk_of_recovered (hsound : Sound p t)
    (hstores : Stores p t monitor env checkIn received t' row) (herror : env.status = .error)
    (hresolved : (resolution p t' monitor env row).2 = true)
    (hlate : ¬LateRun p t monitor env checkIn received) :
    NewestOk monitor.config.recoveryThreshold (t'.checkinsOf env.id) := by
  obtain ⟨hnewer, hok, hrecent⟩ := resolution_eq_true herror hresolved
  rw [hasNewerResult_eq_false_iff] at hnewer
  intro b hb hresult hbOk
  rcases Nat.lt_or_ge 1 monitor.config.recoveryThreshold with hmany | hone
  · refine p.newest.le_countP (p := fun c => c.status = .ok)
      (fun c hc => by simpa using hrecent hmany c hc) hb fun hmem => hbOk (hrecent hmany b hmem)
  · have hstarted := hstores.dateAdded
    have hrow : row ∈ t'.checkinsOf env.id :=
      List.mem_filter.mpr ⟨hstores.mem, by simp [hstores.environmentId]⟩
    rcases le_or_gt b.dateAdded row.dateAdded with hle | hgt
    · refine hone.trans (List.countP_pos_iff.mpr ⟨row, hrow, ?_⟩)
      simp [hok, hle]
    · refine absurd ?_ hlate
      obtain ⟨hunfinished, hcheckIn⟩ : Unfinished p t monitor env checkIn ∧
          row.status = checkIn.status := by
        apply hstores.status.resolve_right
        rintro ⟨old, -, -, hstatus, hne⟩
        exact hne (hstatus.trans hok)
      obtain ⟨hbMem, hbEnv⟩ := List.mem_filter.mp hb
      have hbBefore : b ∈ t.checkins := hstores.mem_before hbMem (by rintro rfl; exact lt_irrefl _ hgt)
      refine ⟨herror, hone, hcheckIn.symm.trans hok, hunfinished, fun c hc hstatus => ?_, b,
        List.mem_filter.mpr ⟨hbBefore, hbEnv⟩, ?_, by rw [← hstarted]; exact hgt⟩
      · obtain ⟨hcMem, hcEnv⟩ := List.mem_filter.mp hc
        rw [← hstarted]
        rcases hstores.mem_after hsound hcMem with hcAfter | hsame
        · exact hnewer c (List.mem_filter.mpr ⟨hcAfter, hcEnv⟩) hstatus
        · exact hsame.le
      · have hbError : b.status ≠ .error := fun hbError =>
          absurd hgt (not_lt.mpr (hnewer b hb (.inr hbError)))
        cases hbStatus : b.status <;> simp_all [CheckInStatus.isResult, CheckInStatus.isFailure]

/-- The check-ins are as they were stored. -/
theorem Recovers.beside (h : Recovers p w label t monitor env row) (hstep : Step p w label w') :
    Beside t w'.tables := by
  cases h with
  | @intro projectId now received item checkIn t₁ _ _ _ _ hparse hprepare hstore herror hstatus
      hresolved =>
      have hok : transact p w (.checkIn projectId item now received) =
          .ok (markOk p t monitor env row received, []) := by
        simp only [transact, receive, hparse, processCheckIn, Bind.bind, Except.bind, hprepare, hstore,
          settleCheckin, if_neg hstatus]
      rw [hstep, hok]
      exact beside_markOk t monitor env row received

/-- What an incident that is resolved leaves to see. -/
theorem Recovers.newest (h : Recovers p w label t monitor env row) (hsound : w.Sound p)
    (hstep : RecoveryStep p w label w') :
    row ∈ t.checkins ∧ row.environmentId = env.id ∧ monitor ∈ t.monitors ∧
      row.monitorId = monitor.id ∧ t.hasNewerResult env.id row.dateAdded = false ∧
      NewestOk monitor.config.recoveryThreshold (t.checkinsOf env.id) := by
  cases h with
  | @intro projectId now received item checkIn t₁ _ _ _ _ hparse hprepare hstore herror hstatus
      hresolved =>
      have hprepared := prepare_spec hsound.tables hprepare
      have hstores := storeCheckin_spec hstore
      exact ⟨hstores.mem, hstores.environmentId, by rw [hstores.monitors]; exact hprepared.mem_monitors,
        hstores.monitorId hprepared.sound hprepared.toReady,
        (resolution_eq_true herror hresolved).1,
        newestOk_of_recovered hprepared.sound hstores herror hresolved
          (hstep.2 checkIn t₁ monitor env hparse hprepare)⟩

/-- With a positive threshold, the newest results are no older than a failure. -/
theorem NewestOk.failure_le (h : NewestOk n rows) (hn : 1 ≤ n) {b : CheckInRow} (hb : b ∈ rows)
    (hfailure : b.status.isFailure) : ∃ c ∈ rows, c.status = .ok ∧ b.dateAdded ≤ c.dateAdded := by
  have hresult : b.status.isResult := by simp [CheckInStatus.isResult, hfailure]
  have hok : b.status ≠ .ok := by
    intro hok
    rw [hok] at hfailure
    cases hfailure
  obtain ⟨c, hc, hcount⟩ := List.countP_pos_iff.mp (hn.trans (h b hb hresult hok))
  simp only [Bool.and_eq_true, decide_eq_true_eq] at hcount
  exact ⟨c, hc, hcount⟩

/-- In a run of such steps, whenever an incident closes the newest results of its environment
are ok, as many as the threshold asks for, and the run that has closed it is not older than a
check-in that was missed or timed out. -/
theorem incident_closes_on_recovery (hrun : Run (RecoveryStep p) .start labels w)
    (hstep : RecoveryStep p w label w') {id : Uuid} (hcloses : Closes p w label w' id) :
    (∀ monitor ∈ w'.tables.monitors, ∀ env ∈ w'.tables.environments,
      env.id = id → env.monitorId = monitor.id →
      NewestOk monitor.config.recoveryThreshold (w'.tables.checkinsOf id)) ∧
    ∀ t monitor env row, Recovers p w label t monitor env row →
      ∀ b ∈ w'.tables.checkinsOf env.id, b.status = .missed ∨ b.status = .timeout →
        b.dateAdded ≤ row.dateAdded := by
  have hsound : w.Sound p := hrun.invariant (World.Sound p)
    (fun _ _ _ hs hnext => hs.step hnext.1) (.start p)
  have hsound' := (hsound.step hstep.1).tables
  constructor
  · intro monitor hmonitor env henv hid hmonitorId
    obtain ⟨t, monitor₀, env₀, row, hrecovers, hid₀⟩ := hstep.1.closes hsound hcloses
    have hbeside := hrecovers.beside hstep.1
    obtain ⟨hrow, hrowEnv, hmonitor₀, hrowMonitor, -, hnewest⟩ := hrecovers.newest hsound hstep
    have hsame : monitor₀ = monitor := by
      have hrow' : row ∈ w'.tables.checkins := by
        rw [hbeside.checkins]
        exact hrow
      have hmonitor' : monitor₀ ∈ w'.tables.monitors := by
        rw [hbeside.monitors]
        exact hmonitor₀
      have hrowEnv' : row.environmentId = env.id := by
        rw [hid, ← hid₀]
        exact hrowEnv
      exact hsound'.monitor_unique hrow' hmonitor' hrowMonitor henv hrowEnv' hmonitor hmonitorId
    have hrows : w'.tables.checkinsOf id = t.checkinsOf env₀.id := by
      rw [Tables.checkinsOf, hbeside.checkins, hid₀]
      rfl
    rw [hrows, ← hsame]
    exact hnewest
  · intro t monitor env row hrecovers b hb hlate
    have hbeside := hrecovers.beside hstep.1
    obtain ⟨-, -, hmonitor, -, hnewer, hnewest⟩ := hrecovers.newest hsound hstep
    rw [← hbeside.monitors] at hmonitor
    have hthreshold := (hsound'.config monitor hmonitor).recoveryThreshold
    have hb : b ∈ t.checkinsOf env.id := by
      rw [Tables.checkinsOf, ← hbeside.checkins]
      exact hb
    have hfailure : b.status.isFailure := by
      rcases hlate with hlate | hlate <;> rw [hlate] <;> rfl
    obtain ⟨c, hc, hok, hle⟩ := hnewest.failure_le hthreshold hb hfailure
    exact hle.trans (hasNewerResult_eq_false_iff.mp hnewer c hc (.inl hok))

/-- A run fails and the next one succeeds. -/
theorem incident_closes_on_recovery_next : ∃ w' : World,
    w'.tables.environments.map Environment.status = [.ok] ∧
      ∀ monitor ∈ w'.tables.monitors, ∀ env ∈ w'.tables.environments,
        env.id = 9 → env.monitorId = monitor.id →
        NewestOk monitor.config.recoveryThreshold (w'.tables.checkinsOf 9) := by
  have hsteps : ∃ w w', Run (RecoveryStep .utc) .start [.checkIn 1 (tenMinutely 7 "error") 0 0] w ∧
      RecoveryStep .utc w (.checkIn 1 (tenMinutely 8 "ok") 0 minute) w' ∧
      w'.tables.environments.map Environment.status = [.ok] ∧
      (∃ old ∈ w.tables.environments, old.id = 9 ∧ old.status = .error) ∧
        ∃ env ∈ w'.tables.environments, env.id = 9 ∧ env.status ≠ .error := by
    refine ⟨_, _, .single ⟨rfl, ?failed⟩, ⟨rfl, ?succeeded⟩, ?_, ?_, ?_⟩
    case failed =>
      rintro checkIn t monitor env hparse - ⟨-, -, hok, -⟩
      rw [status_of_parse hparse] at hok
      revert hok
      decide
    case succeeded =>
      have hfirst : Step .utc .start (.checkIn 1 (tenMinutely 7 "error") 0 0) _ := rfl
      have hsound := (World.Sound.start .utc).step hfirst
      rintro checkIn t monitor env - hprepare ⟨-, -, -, -, -, c, hc, hlate, -⟩
      have hnone : ∀ c ∈ (commit .empty (transact .utc .start
          (.checkIn 1 (tenMinutely 7 "error") 0 0))).checkins,
          ¬(c.status = .missed ∨ c.status = .timeout) := by
        decide +kernel
      have hc := List.mem_of_mem_filter hc
      rw [(prepare_spec hsound.tables hprepare).checkins] at hc
      exact hnone c hc hlate
    · decide +kernel
    · decide +kernel
    · decide +kernel
  obtain ⟨w, w', hrun, hstep, hstatus, hcloses⟩ := hsteps
  exact ⟨w', hstatus, (incident_closes_on_recovery hrun hstep (.inr hcloses)).1⟩

/-- A run is in progress while the next one is missed, and succeeds after that. -/
theorem late_run_recovers :
    ¬∀ (p : Platform) (labels : List Label) (w : World) (label : Label) (w' : World) (id : Uuid),
      Run (Step p) .start labels w → Step p w label w' → Closes p w label w' id →
      ∀ monitor ∈ w'.tables.monitors, ∀ env ∈ w'.tables.environments,
        env.id = id → env.monitorId = monitor.id →
        NewestOk monitor.config.recoveryThreshold (w'.tables.checkinsOf id) := by
  intro hall
  have hclosed : ∃ w w', Run (Step .utc) .start
      [.checkIn 1 (tenMinutely 7 "in_progress") 0 0, .sweepMissed 9 (11 * minute)] w ∧
      Step .utc w (.checkIn 1 (tenMinutely 7 "ok") 0 (12 * minute)) w' ∧
      ((∃ old ∈ w.tables.environments, old.id = 9 ∧ old.status = .error) ∧
        ∃ env ∈ w'.tables.environments, env.id = 9 ∧ env.status ≠ .error) ∧
      ∃ monitor ∈ w'.tables.monitors, ∃ env ∈ w'.tables.environments, env.id = 9 ∧
        env.monitorId = monitor.id ∧
        ¬NewestOk monitor.config.recoveryThreshold (w'.tables.checkinsOf 9) := by
    refine ⟨_, _, .cons rfl <| .cons rfl <| .nil _, rfl, ?_, ?_⟩
    · decide +kernel
    · decide +kernel
  obtain ⟨w, w', hrun, hstep, hcloses, monitor, hmonitor, env, henv, hid, hof, hnot⟩ := hclosed
  exact hnot (hall .utc _ w _ w' 9 hrun hstep (.inr hcloses) monitor hmonitor env henv hid hof)

end Rustrak.Monitors
