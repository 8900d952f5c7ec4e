import Rustrak.Monitors.Statuses
import Rustrak.Monitors.Thresholds

/-!
# What changes the status of an environment

A check-in fails its environment (`Fails`) or resolves its incident (`Recovers`), and nothing
else sets its status: `Step.turn`.
-/

namespace Rustrak.Monitors

open Rustrak.Core Rustrak.Relational Rustrak.Transition

variable {p : Platform} {t t' : Tables} {w w' : World} {label : Label} {labels : List Label}
  {monitor : Monitor} {env : Environment} {row failed : CheckInRow} {rows : List CheckInRow}
  {failures : List MonitorFailure} {checkIn : CheckIn} {received : Int} {n : Nat}

/-! ## Where an incident opens and closes -/

/-- A step fails an environment with a check-in, which is in the tables `t` by then. -/
inductive Fails (p : Platform) (w : World) :
    Label → Tables → Monitor → Environment → CheckInRow → Prop
  | error {projectId now received : Int} {item : CheckInPayload} {checkIn : CheckIn}
      {t t' : Tables} {monitor : Monitor} {env : Environment} {row : CheckInRow} :
      CheckIn.parse item = .ok checkIn →
      prepare p w.tables now projectId checkIn = .ok (t, monitor, env) →
      storeCheckin p t monitor env checkIn received = .ok (some (t', row)) →
      row.status = .error → t'.hasNewerResult env.id row.dateAdded = false →
      Fails p w (.checkIn projectId item now received) t' monitor env row
  | missed {now expected latest : Int} {monitor : Monitor} {env : Environment} :
      Ready w.tables monitor env → env.nextCheckin = some expected →
      env.nextCheckinLatest = some latest → latest ≤ truncateToMinute now →
      Fails p w (.sweepMissed env.id now)
        (w.tables.insertCheckin (missedCheckin w.tables monitor env expected)
          (w.tables.drawn + 2)) monitor env (missedCheckin w.tables monitor env expected)
  | timeout {now timeoutAt : Int} {old : CheckInRow} {monitor : Monitor} {env : Environment} :
      old ∈ w.tables.checkins → old.status = .inProgress → old.timeoutAt = some timeoutAt →
      timeoutAt ≤ truncateToMinute now → monitor ∈ w.tables.monitors →
      monitor.id = old.monitorId → env ∈ w.tables.environments → env.id = old.environmentId →
      Fails p w (.sweepTimeout old.id now)
        (w.tables.updateCheckin { old with status := .timeout }) monitor env
        { old with status := .timeout }

/-- A check-in that is stored in the tables `t` resolves the incident of its environment. -/
inductive Recovers (p : Platform) (w : World) :
    Label → Tables → Monitor → Environment → CheckInRow → Prop
  | intro {projectId now received : Int} {item : CheckInPayload} {checkIn : CheckIn}
      {t t' : Tables} {monitor : Monitor} {env : Environment} {row : CheckInRow} :
      CheckIn.parse item = .ok checkIn →
      prepare p w.tables now projectId checkIn = .ok (t, monitor, env) →
      storeCheckin p t monitor env checkIn received = .ok (some (t', row)) →
      env.status = .error → row.status ≠ .error → (resolution p t' monitor env row).2 = true →
      Recovers p w (.checkIn projectId item now received) t' monitor env row

/-- The check-in that failed is in the tables, and it is one of its environment. -/
theorem Fails.mem (h : Fails p w label t monitor env failed) :
    failed ∈ t.checkinsOf env.id ∧ failed.status.isFailure := by
  cases h with
  | error hparse hprepare hstore hstatus hnewer =>
      have hstores := storeCheckin_spec hstore
      refine ⟨List.mem_filter.mpr ⟨?_, by simp [hstores.environmentId]⟩, by rw [hstatus]; rfl⟩
      exact hstores.mem
  | missed hready hexpected hlatest hdue =>
      exact ⟨List.mem_filter.mpr ⟨List.mem_append_right _ List.mem_cons_self, by simp [missedCheckin]⟩,
        rfl⟩
  | timeout hold hstatus htimeout hlate hmonitor hmonitorId henv henvId =>
      refine ⟨List.mem_filter.mpr ⟨?_, by simp [henvId]⟩, rfl⟩
      exact mem_modify.mpr ⟨_, hold, if_pos rfl⟩

/-- The other check-ins are as they were before the step. -/
theorem Fails.before (h : Fails p w label t monitor env failed) (hsound : w.Sound p) :
    ∀ b ∈ t.checkins, b ≠ failed → b ∈ w.tables.checkins := by
  intro b hb hne
  cases h with
  | error hparse hprepare hstore hstatus hnewer =>
      rw [← (prepare_spec hsound.tables hprepare).checkins]
      exact (storeCheckin_spec hstore).mem_before hb hne
  | missed hready hexpected hlatest hdue =>
      exact (List.mem_append.mp hb).resolve_right fun hnew => hne (List.mem_singleton.mp hnew)
  | timeout hold hstatus htimeout hlate hmonitor hmonitorId henv henvId =>
      exact ((mem_updateCheckin hb).resolve_left hne).1

/-- An environment that is rewritten is the one with the id. -/
theorem mem_setEnvironment {id : Uuid} {f : Environment → Environment}
    (h : env ∈ (t.setEnvironment id f).environments) :
    ∃ old ∈ t.environments, old.id = id ∧ env = f old ∨ old.id ≠ id ∧ env = old := by
  obtain ⟨old, hold, rfl⟩ := mem_modify.mp h
  refine ⟨old, hold, ?_⟩
  split_ifs with hid
  · exact .inl ⟨hid, rfl⟩
  · exact .inr ⟨hid, rfl⟩

theorem crossesThreshold_congr {env' : Environment} (hcheckins : t'.checkins = t.checkins)
    (hid : env'.id = env.id) :
    crossesThreshold p t' monitor env' failed = crossesThreshold p t monitor env failed := by
  unfold crossesThreshold recentStatuses Tables.checkinsOf
  rw [hcheckins, hid]

/-- What a move of the schedule does to an environment. -/
theorem mem_updateEnvironment {env' : Environment} {config : MonitorConfig}
    {lastCheckin : Option Int} {reference : Int} {status : Option MonitorEnvironmentStatus}
    (h : env' ∈ (updateEnvironment p t env config lastCheckin reference status).environments) :
    ∃ old ∈ t.environments, old.id = env'.id ∧
      (old.status = env'.status ∨ env'.id = env.id ∧ status = some env'.status) := by
  obtain ⟨old, hold, ⟨hid, rfl⟩ | ⟨-, rfl⟩⟩ := mem_setEnvironment h
  · refine ⟨old, hold, rfl, ?_⟩
    cases status with
    | none => exact .inl rfl
    | some s => exact .inr ⟨hid, rfl⟩
  · exact ⟨env', hold, rfl, .inl rfl⟩

theorem mem_markFailed {env' : Environment} {reason : FailureReason}
    (h : env' ∈ (markFailed p t monitor env failed reason).1.environments) :
    ∃ old ∈ t.environments, old.id = env'.id ∧ (old.status = env'.status ∨
      env'.id = env.id ∧ env'.status = .error ∧ crossesThreshold p t monitor env failed) := by
  rw [markFailed_tables] at h
  split_ifs at h with hopens
  · obtain ⟨old, hold, ⟨hid, rfl⟩ | ⟨-, rfl⟩⟩ := mem_setEnvironment h
    · exact ⟨old, hold, rfl, .inr ⟨hid, rfl, hopens.2⟩⟩
    · exact ⟨env', hold, rfl, .inl rfl⟩
  · exact ⟨env', h, rfl, .inl rfl⟩

theorem resolution_environments (t : Tables) (monitor : Monitor) (env : Environment)
    (checkin : CheckInRow) :
    (resolution p t monitor env checkin).1.environments = t.environments := by
  unfold resolution tryResolution
  dsimp only
  split_ifs <;> rfl

theorem mem_markOk {env' : Environment}
    (h : env' ∈ (markOk p t monitor env row received).environments) :
    ∃ old ∈ t.environments, old.id = env'.id ∧ (old.status = env'.status ∨
      env'.id = env.id ∧ env'.status = .ok ∧ (resolution p t monitor env row).2 = true) := by
  unfold markOk at h
  dsimp only at h
  by_cases hlast : env.lastCheckin.all (· ≤ received) = true
  · rw [if_pos hlast] at h
    obtain ⟨old, hold, hid, hstatus⟩ := mem_updateEnvironment h
    rw [resolution_environments] at hold
    refine ⟨old, hold, hid, hstatus.imp_right fun ⟨henv, hsome⟩ => ?_⟩
    split_ifs at hsome with hresolved
    exact ⟨henv, (Option.some.inj hsome).symm, hresolved⟩
  · rw [if_neg hlast, resolution_environments] at h
    exact ⟨env', h, rfl, .inl rfl⟩

/-- What a step has had to do with the status of an environment that is there after it. -/
inductive Turn (p : Platform) (w w' : World) : Label → Environment → Prop
  | kept {label : Label} {env old : Environment} : old ∈ w.tables.environments →
      old.id = env.id → old.status = env.status → Turn p w w' label env
  | created {label : Label} {env : Environment} : w.tables.drawn ≤ env.id → env.status = .active →
      Turn p w w' label env
  | failed {label : Label} {t : Tables} {monitor : Monitor} {env env' : Environment}
      {failed : CheckInRow} : Fails p w label t monitor env failed → env.id = env'.id →
      env'.status = .error → crossesThreshold p t monitor env failed → Beside t w'.tables →
      Turn p w w' label env'
  | recovered {projectId now received : Int} {item : CheckInPayload} {checkIn : CheckIn}
      {t t' : Tables} {monitor : Monitor} {env env' : Environment} {row : CheckInRow} :
      CheckIn.parse item = .ok checkIn →
      prepare p w.tables now projectId checkIn = .ok (t, monitor, env) →
      storeCheckin p t monitor env checkIn received = .ok (some (t', row)) →
      row.status ≠ .error → (resolution p t' monitor env row).2 = true → env.id = env'.id → env'.status = .ok →
      Turn p w w' (.checkIn projectId item now received) env'

/-- A check-in finds the environments as they were, apart from one it may add. -/
theorem Prepared.turn (hprepared : Prepared p w.tables t monitor env) {env' old : Environment}
    (hold : old ∈ t.environments) (hid : old.id = env'.id) (hstatus : old.status = env'.status) :
    Turn p w w' label env' := by
  rcases hprepared.environments with hsame | ⟨hnew, hactive, hdrawn⟩
  · rw [hsame] at hold
    exact .kept hold hid hstatus
  · rw [hnew] at hold
    rcases List.mem_append.mp hold with hmem | hmem
    · exact .kept hmem hid hstatus
    · rw [List.mem_singleton.mp hmem] at hid hstatus
      exact .created (by rw [← hid]; exact hdrawn) (by rw [← hstatus]; exact hactive)

theorem turn_receive (h : w.Sound p) {projectId now : Int} {item : CheckInPayload}
    (hok : receive p w.tables projectId item now received = .ok (w'.tables, failures))
    {env' : Environment} (henv : env' ∈ w'.tables.environments) :
    Turn p w w' (.checkIn projectId item now received) env' := by
  obtain ⟨checkIn, hparse, hprocess⟩ := bind_eq_ok hok
  obtain ⟨t₁, monitor, env, hprepare, hrest⟩ := processCheckIn_spec hprocess
  have hprepared := prepare_spec h.tables hprepare
  rcases hrest with ⟨hsame, -⟩ | ⟨t₂, row, hstore, hsettle⟩
  · rw [hsame] at henv
    exact hprepared.turn henv rfl rfl
  · have hsettles := settleCheckin_spec hsettle
    have hbeside := hsettles.beside
    have hstored : ∀ {old : Environment}, old ∈ t₂.environments → old.id = env'.id →
        old.status = env'.status → Turn p w w' (.checkIn projectId item now received) env' := by
      intro old hold hid hstatus
      rw [(storeCheckin_spec hstore).environments] at hold
      exact hprepared.turn hold hid hstatus
    generalize htables : w'.tables = t' at hsettles henv
    cases hsettles with
    | stale => exact hstored henv rfl rfl
    | @failed reloaded t₁ herror hnewer hmoved hreload =>
        obtain ⟨mid, hmid, hmidId, hmidStatus | ⟨hid, hopened, hcross⟩⟩ := mem_markFailed henv
        · rw [hmoved] at hmid
          obtain ⟨old, hold, holdId, holdStatus | ⟨-, hnone⟩⟩ := mem_updateEnvironment hmid
          · exact hstored hold (holdId.trans hmidId) (holdStatus.trans hmidStatus)
          · cases hnone
        · have hreloaded := (reloadEnvironment_eq_ok hreload).2
          have hcheckins : t₁.checkins = t₂.checkins := by
            rw [hmoved]
            rfl
          rw [crossesThreshold_congr hcheckins hreloaded] at hcross
          exact .failed (.error hparse hprepare hstore herror hnewer)
            (hreloaded.symm.trans hid.symm) hopened hcross hbeside
    | other hstatus =>
        obtain ⟨old, hold, holdId, holdStatus | ⟨hid, hclosed, hresolved⟩⟩ := mem_markOk henv
        · exact hstored hold holdId holdStatus
        · exact .recovered hparse hprepare hstore hstatus hresolved hid.symm hclosed

theorem turn_sweepMissed {environmentId : Uuid} {now : Int}
    (hok : sweepMissed p w.tables environmentId (truncateToMinute now) = .ok (w'.tables, failures))
    {env' : Environment} (henv : env' ∈ w'.tables.environments) :
    Turn p w w' (.sweepMissed environmentId now) env' := by
  generalize htables : w'.tables = t' at hok henv
  cases sweepMissed_spec hok with
  | idle => exact .kept henv rfl rfl
  | off hready hid hexpected hlatest hdue hoff =>
      obtain ⟨old, hold, holdId, hstatus | ⟨-, hnone⟩⟩ := mem_updateEnvironment henv
      · exact .kept hold holdId hstatus
      · cases hnone
  | @missed monitor env reloaded expected latest t₁ hready hid hexpected hlatest hdue hon hmoved
      hreload =>
      obtain ⟨mid, hmid, hmidId, hmidStatus | ⟨hopenedId, hopened, hcross⟩⟩ := mem_markFailed henv
      · rw [hmoved] at hmid
        obtain ⟨old, hold, holdId, holdStatus | ⟨-, hnone⟩⟩ := mem_updateEnvironment hmid
        · exact .kept hold (holdId.trans hmidId) (holdStatus.trans hmidStatus)
        · cases hnone
      · have hreloaded := (reloadEnvironment_eq_ok hreload).2
        have hcheckins : t₁.checkins = (w.tables.insertCheckin
            (missedCheckin w.tables monitor env expected) (w.tables.drawn + 2)).checkins := by
          rw [hmoved]
          rfl
        rw [crossesThreshold_congr hcheckins hreloaded] at hcross
        subst hid
        refine .failed (.missed hready hexpected hlatest hdue) (hreloaded.symm.trans hopenedId.symm)
          hopened hcross ?_
        rw [htables, hmoved]
        exact (beside_updateEnvironment _ env _ _ _ _).trans (beside_markFailed _ _ _ _ _)

theorem turn_sweepTimeout {checkinId : Uuid} {now : Int}
    (hok : sweepTimeout p w.tables checkinId (truncateToMinute now) = .ok (w'.tables, failures))
    {env' : Environment} (henv : env' ∈ w'.tables.environments) :
    Turn p w w' (.sweepTimeout checkinId now) env' := by
  generalize htables : w'.tables = t' at hok henv
  cases sweepTimeout_spec hok with
  | idle => exact .kept henv rfl rfl
  | silent hold hid hstatus htimeout hlate => exact .kept henv rfl rfl
  | failed hold hid hstatus htimeout hlate hnewer hmonitor hmonitorId henvironment henvId =>
      obtain ⟨old, holdEnv, holdId, holdStatus | ⟨hopenedId, hopened, hcross⟩⟩ := mem_markFailed henv
      · exact .kept holdEnv holdId holdStatus
      · subst hid
        refine .failed (.timeout hold hstatus htimeout hlate hmonitor hmonitorId henvironment henvId)
          hopenedId.symm hopened hcross ?_
        rw [htables]
        exact beside_markFailed _ _ _ _ _

theorem Step.turn (h : w.Sound p) (hstep : Step p w label w') {env' : Environment}
    (henv : env' ∈ w'.tables.environments) : Turn p w w' label env' := by
  rcases hstep.tables with ⟨failures, hok⟩ | hsame
  · cases label with
    | checkIn projectId item now received => exact turn_receive h hok henv
    | sweepMissed environmentId now => exact turn_sweepMissed hok henv
    | sweepTimeout checkinId now => exact turn_sweepTimeout hok henv
    | createMonitor projectId input now =>
        rw [(createMonitor_rows (quiet_eq_ok hok)).environments] at henv
        exact .kept henv rfl rfl
    | writeMonitor request now =>
        simp only [transact] at hok
        split at hok
        · rw [← (Prod.mk.inj (Except.ok.inj hok)).1] at henv
          exact .kept henv rfl rfl
        · rw [(updateMonitor_rows (quiet_eq_ok hok)).environments] at henv
          exact .kept henv rfl rfl
    | setMuted projectId slug muted =>
        rw [(setMuted_rows (quiet_eq_ok hok)).environments] at henv
        exact .kept henv rfl rfl
    | deleteMonitor projectId slug =>
        obtain ⟨gone, hgone⟩ := deleteMonitor_spec (quiet_eq_ok hok)
        rw [hgone] at henv
        exact .kept (List.mem_of_mem_filter henv) rfl rfl
    | deleteProject projectId =>
        rw [← (Prod.mk.inj (Except.ok.inj hok)).1] at henv
        exact .kept (List.mem_of_mem_filter henv) rfl rfl
    | deleteExpired | readMonitor | setCronsOff | digest =>
        rw [← (Prod.mk.inj (Except.ok.inj hok)).1] at henv
        exact .kept henv rfl rfl
  · rw [hsame] at henv
    exact .kept henv rfl rfl

/-! ## The check-in of a step -/

/-- What is asked of a check-in, when there are a monitor and an environment for it. -/
def OnCheckIn (p : Platform) (w : World) (label : Label)
    (asked : Tables → Monitor → Environment → CheckIn → Int → Prop) : Prop :=
  match label with
  | .checkIn projectId item now received =>
      ∀ checkIn t monitor env, CheckIn.parse item = .ok checkIn →
        prepare p w.tables now projectId checkIn = .ok (t, monitor, env) →
        asked t monitor env checkIn received
  | .sweepMissed .. | .sweepTimeout .. | .deleteExpired .. | .createMonitor .. | .readMonitor ..
  | .writeMonitor .. | .setMuted .. | .deleteMonitor .. | .deleteProject .. | .setCronsOff ..
  | .digest .. => True

/-- A check-in starts a run, or is about one of its environment that has no result. -/
def Unfinished (p : Platform) (t : Tables) (monitor : Monitor) (env : Environment)
    (checkIn : CheckIn) : Prop :=
  ∀ old, existingCheckin p t monitor.id env.id checkIn.checkInId = some old →
    old.environmentId = env.id ∧ (old.status = .inProgress ∨ old.status = .unknown)

/-- When the run that a check-in is about has started. -/
def startOf (p : Platform) (t : Tables) (monitor : Monitor) (env : Environment)
    (checkIn : CheckIn) (received : Int) : Int :=
  match existingCheckin p t monitor.id env.id checkIn.checkInId with
  | some old => old.dateAdded
  | none => received

/-- A check-in writes its status, or leaves the one that is there. -/
theorem Stores.status (hstores : Stores p t monitor env checkIn received t' row) :
    Unfinished p t monitor env checkIn ∧ row.status = checkIn.status ∨
      ∃ old ∈ t.checkins, old.id = row.id ∧ old.status = row.status ∧ old.status ≠ .ok := by
  cases hstores with
  | created durationMs hnone =>
      refine .inl ⟨fun old hold => ?_, rfl⟩
      rw [hnone] at hold
      cases hold
  | updated hexisting hmem henv hupdates =>
      cases hupdates with
      | late durationMs hstatus =>
          refine .inr ⟨_, hmem, rfl, rfl, ?_⟩
          rcases hstatus with hstatus | hstatus <;> simp [hstatus]
      | alive hstatus halive =>
          refine .inr ⟨_, hmem, rfl, rfl, ?_⟩
          rcases hstatus with hstatus | hstatus <;> simp [hstatus]
      | result durationMs hstatus hresult =>
          refine .inl ⟨fun other hother => ?_, rfl⟩
          rw [hexisting] at hother
          obtain rfl := Option.some.inj hother
          exact ⟨henv, hstatus⟩

theorem Stores.dateAdded (hstores : Stores p t monitor env checkIn received t' row) :
    row.dateAdded = startOf p t monitor env checkIn received := by
  cases hstores with
  | created durationMs hnone => simp [startOf, hnone, newCheckin]
  | updated hexisting hmem henv hupdates => simp [startOf, hexisting, hupdates.sameRun.dateAdded]

theorem Stores.mem_after {c : CheckInRow}
    (hstores : Stores p t monitor env checkIn received t' row) (hsound : Sound p t)
    (hc : c ∈ t.checkins) : c ∈ t'.checkins ∨ c.dateAdded = row.dateAdded := by
  cases hstores with
  | created durationMs hnone => exact .inl (List.mem_append_left _ hc)
  | @updated old row hexisting hmem henv hupdates =>
      by_cases hid : c.id = row.id
      · have hsame : c = old := List.inj_on_of_nodup_map hsound.checkinIds hc hmem
          (hid.trans hupdates.sameRun.id)
        exact .inr (by rw [hsame, hupdates.sameRun.dateAdded])
      · exact .inl (mem_modify.mpr ⟨c, hc, if_neg hid⟩)

/-! ## Whose check-in it is -/

theorem Sound.environment_unique (h : Sound p t) {env' : Environment} (henv : env ∈ t.environments)
    (henv' : env' ∈ t.environments) (hid : env.id = env'.id) : env = env' :=
  List.inj_on_of_nodup_map h.environmentIds henv henv' hid

/-- A check-in belongs to the monitor of its environment. -/
theorem Sound.monitorId_eq (h : Sound p t) (hrow : row ∈ t.checkins) (henv : env ∈ t.environments)
    (hid : row.environmentId = env.id) : row.monitorId = env.monitorId := by
  obtain ⟨other, hother, hkey⟩ := List.mem_map.mp (h.checkinEnvironment row hrow)
  obtain ⟨hotherId, hmonitorId⟩ := Prod.mk.inj hkey
  have hsame := h.environment_unique hother henv (hotherId.trans hid)
  rw [← hmonitorId, hsame]

/-- The monitor of an environment is the one its check-ins belong to. -/
theorem Sound.monitor_unique (h : Sound p t) {monitor' : Monitor} (hrow : row ∈ t.checkins)
    (hmonitor : monitor ∈ t.monitors) (hmonitorId : row.monitorId = monitor.id)
    (henv : env ∈ t.environments) (hid : row.environmentId = env.id)
    (hmonitor' : monitor' ∈ t.monitors) (hof : env.monitorId = monitor'.id) :
    monitor = monitor' := by
  apply List.inj_on_of_nodup_map h.monitorIds hmonitor hmonitor'
  rw [← hof, ← h.monitorId_eq hrow henv hid, hmonitorId]

theorem Stores.monitorId (hstores : Stores p t monitor env checkIn received t' row)
    (hsound : Sound p t) (hready : Ready t monitor env) : row.monitorId = monitor.id := by
  cases hstores with
  | created durationMs hnone => rfl
  | updated hexisting hmem henv hupdates =>
      rw [hupdates.sameRun.monitorId,
        hsound.monitorId_eq hmem hready.mem_environments henv, hready.monitorId]

theorem Fails.ofMonitor (h : Fails p w label t monitor env failed) (hsound : w.Sound p) :
    monitor ∈ t.monitors ∧ failed.monitorId = monitor.id := by
  cases h with
  | error hparse hprepare hstore hstatus hnewer =>
      have hprepared := prepare_spec hsound.tables hprepare
      have hstores := storeCheckin_spec hstore
      exact ⟨by rw [hstores.monitors]; exact hprepared.mem_monitors,
        hstores.monitorId hprepared.sound hprepared.toReady⟩
  | missed hready hexpected hlatest hdue => exact ⟨hready.mem_monitors, rfl⟩
  | timeout hold hstatus htimeout hlate hmonitor hmonitorId henv henvId =>
      exact ⟨hmonitor, hmonitorId.symm⟩

theorem Fails.known_or_active (h : Fails p w label t monitor env failed) (hsound : w.Sound p) :
    env ∈ w.tables.environments ∨ env.status = .active := by
  cases h with
  | error hparse hprepare hstore hstatus hnewer =>
      have hprepared := prepare_spec hsound.tables hprepare
      rcases hprepared.environments with hsame | ⟨-, hactive, -⟩
      · rw [← hsame]
        exact .inl hprepared.mem_environments
      · exact .inr hactive
  | missed hready hexpected hlatest hdue => exact .inl hready.mem_environments
  | timeout hold hstatus htimeout hlate hmonitor hmonitorId henv henvId => exact .inl henv

end Rustrak.Monitors
