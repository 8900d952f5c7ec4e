import Rustrak.Monitors.Invariant

/-!
# What check-ins and sweeps write

One description for each transaction of the clients and of the sweep, from which everything
else is derived: `Prepared`, `Stores` and `Settles` for a check-in on its way through the tables,
`SweepsMissed` and `SweepsTimeout` for the two turns of the sweep.  They keep the tables sound,
and where they touch neither monitors nor check-ins they are `Beside`.
-/

namespace Rustrak.Monitors

open Rustrak.Core Rustrak.Relational

variable {p : Platform} {t t' : Tables} {monitor : Monitor} {env : Environment} {row : CheckInRow}

/-! ## A check-in, up to where it is stored -/

theorem map_eq_ok {α β : Type} {x : AppResult α} {f : α → β} {b : β} (h : x.map f = .ok b) :
    ∃ a, x = .ok a ∧ f a = b := by
  cases x with
  | ok a => exact ⟨a, rfl, Except.ok.inj h⟩
  | error e => cases h

variable {checkIn : CheckIn} {received now projectId : Int} {failures : List MonitorFailure}

/-- The monitor and the environment of a check-in are in the tables. -/
structure Ready (t : Tables) (monitor : Monitor) (env : Environment) : Prop where
  mem_monitors : monitor ∈ t.monitors
  mem_environments : env ∈ t.environments
  monitorId : env.monitorId = monitor.id

/-- What a check-in has changed before it is stored: no check-in, and an environment at most
that is new. -/
structure Prepared (p : Platform) (t t' : Tables) (monitor : Monitor) (env : Environment) : Prop
    extends Ready t' monitor env where
  sound : Sound p t'
  checkins : t'.checkins = t.checkins
  drawn : t.drawn ≤ t'.drawn
  environments : t'.environments = t.environments ∨
    t'.environments = t.environments ++ [env] ∧ env.status = .active ∧ t.drawn ≤ env.id

theorem upsertMonitor_spec (h : Sound p t)
    (hok : upsertMonitor p t now projectId checkIn = .ok (t', monitor)) :
    Sound p t' ∧ monitor ∈ t'.monitors ∧ t'.checkins = t.checkins ∧
      t'.environments = t.environments ∧ t.drawn ≤ t'.drawn := by
  have hfound : ∀ {m}, t.findMonitor projectId checkIn.monitorSlug = some m → m ∈ t.monitors :=
    List.mem_of_find?_eq_some
  unfold upsertMonitor at hok
  split at hok
  · next old input hold _ =>
      split at hok
      · next config hvalid =>
          have hconfig : config.Valid p.clocks := by
            refine valid_of_validate (fun c hc => ?_) hvalid
            obtain rfl := Option.some.inj hc
            exact h.config old (hfound hold)
          split_ifs at hok
          · obtain ⟨rfl, rfl⟩ := Prod.mk.inj (Except.ok.inj hok)
            refine ⟨h.modifyMonitor (fun _ => rfl) fun m _ _ => hconfig, ?_, rfl, rfl, le_rfl⟩
            exact mem_modify.mpr ⟨old, hfound hold, if_pos rfl⟩
          · obtain ⟨rfl, rfl⟩ := Prod.mk.inj (Except.ok.inj hok)
            exact ⟨h, hfound hold, rfl, rfl, le_rfl⟩
      · obtain ⟨rfl, rfl⟩ := Prod.mk.inj (Except.ok.inj hok)
        exact ⟨h, hfound hold, rfl, rfl, le_rfl⟩
  · next old hold _ =>
      obtain ⟨rfl, rfl⟩ := Prod.mk.inj (Except.ok.inj hok)
      exact ⟨h, hfound hold, rfl, rfl, le_rfl⟩
  · next input _ _ =>
      obtain ⟨config, hvalid, hok⟩ := map_eq_ok hok
      obtain ⟨rfl, rfl⟩ := Prod.mk.inj hok
      have hconfig : config.Valid p.clocks := valid_of_validate (by simp) hvalid
      exact ⟨h.insertMonitor rfl hconfig, List.mem_append_right _ List.mem_cons_self, rfl, rfl,
        Nat.le_succ _⟩
  · cases hok

theorem ensureEnvironment_spec (h : Sound p t) (hmonitor : monitor ∈ t.monitors)
    {environment : String} (hok : ensureEnvironment t monitor.id environment = (t', env)) :
    Sound p t' ∧ Ready t' monitor env ∧ t'.checkins = t.checkins ∧ t.drawn ≤ t'.drawn ∧
      (t'.environments = t.environments ∨
        t'.environments = t.environments ++ [env] ∧ env.status = .active ∧ t.drawn ≤ env.id) := by
  unfold ensureEnvironment at hok
  split at hok
  · next found hfound =>
      obtain ⟨rfl, rfl⟩ := Prod.mk.inj hok
      have hkey := List.find?_some hfound
      simp only [Bool.and_eq_true, decide_eq_true_eq] at hkey
      exact ⟨h, ⟨hmonitor, List.mem_of_find?_eq_some hfound, hkey.1⟩, rfl, le_rfl, .inl rfl⟩
  · obtain ⟨rfl, rfl⟩ := Prod.mk.inj hok
    exact ⟨h.insertEnvironment rfl (List.mem_map_of_mem hmonitor) rfl,
      ⟨hmonitor, List.mem_append_right _ List.mem_cons_self, rfl⟩, rfl, Nat.le_succ _,
      .inr ⟨rfl, rfl, le_rfl⟩⟩

theorem prepare_spec (h : Sound p t)
    (hok : prepare p t now projectId checkIn = .ok (t', monitor, env)) :
    Prepared p t t' monitor env := by
  unfold prepare at hok
  dsimp only at hok
  obtain ⟨⟨t₀, monitor₀⟩, hupsert, hok⟩ := bind_eq_ok hok
  obtain ⟨hsound₀, hmonitor, hcheckins₀, henvironments₀, hdrawn₀⟩ :=
    upsertMonitor_spec (h.raise (le_max_left t.drawn (checkIn.checkInId + 1))) hupsert
  obtain ⟨rfl, hpair⟩ := Prod.mk.inj (Except.ok.inj hok)
  obtain ⟨rfl, rfl⟩ := Prod.mk.inj hpair
  have hensure : ensureEnvironment t₀ monitor₀.id checkIn.environment = (_, _) := rfl
  obtain ⟨hsound, hready, hcheckins, hdrawn, henvironments⟩ :=
    ensureEnvironment_spec hsound₀ hmonitor hensure
  have hdrawn₀ : t.drawn ≤ t₀.drawn := (le_max_left _ _).trans hdrawn₀
  refine ⟨hready, hsound, hcheckins.trans hcheckins₀, hdrawn₀.trans hdrawn, ?_⟩
  rcases henvironments with hsame | ⟨hnew, hactive, hid⟩
  · exact .inl (hsame.trans henvironments₀)
  · exact .inr ⟨hnew.trans (congrArg (· ++ _) henvironments₀), hactive, hdrawn₀.trans hid⟩

/-- The row of a run, before and after. -/
structure SameRun (old row : CheckInRow) : Prop where
  id : row.id = old.id
  guid : row.guid = old.guid
  projectId : row.projectId = old.projectId
  monitorId : row.monitorId = old.monitorId
  environmentId : row.environmentId = old.environmentId
  dateAdded : row.dateAdded = old.dateAdded
  expectedTime : row.expectedTime = old.expectedTime

/-- What an update can do to a check-in that has not completed. -/
inductive Updates (checkIn : CheckIn) (config : MonitorConfig) (received : Int) :
    CheckInRow → CheckInRow → Prop
  /-- A late result of a synthetic failure. -/
  | late {old : CheckInRow} (durationMs : Option Int) :
      old.status = .timeout ∨ old.status = .missed →
      Updates checkIn config received old { old with durationMs }
  /-- A heartbeat. -/
  | alive {old : CheckInRow} : old.status = .inProgress ∨ old.status = .unknown →
      checkIn.status = .inProgress →
      Updates checkIn config received old
        { old with timeoutAt := some (min (config.timeoutAt received)
          (config.timeoutAt old.dateAdded - config.maxRuntime * minute + maxMaxRuntime * minute)) }
  /-- A result. -/
  | result {old : CheckInRow} (durationMs : Option Int) :
      old.status = .inProgress ∨ old.status = .unknown → checkIn.status ≠ .inProgress →
      Updates checkIn config received old { old with status := checkIn.status, durationMs }

theorem updateExisting_spec {old : CheckInRow} {durationMs : Option Int} {config : MonitorConfig}
    (h : updateExisting old checkIn durationMs config received = .ok (some row)) :
    Updates checkIn config received old row := by
  unfold updateExisting at h
  dsimp only at h
  split at h
  · split_ifs at h
    cases h
  · split_ifs at h
    cases h
  · next hstatus =>
      split_ifs at h
      · cases h
      · obtain rfl := Option.some.inj (Except.ok.inj h)
        exact .late _ (.inl hstatus)
  · next hstatus =>
      split_ifs at h
      · cases h
      · obtain rfl := Option.some.inj (Except.ok.inj h)
        exact .late _ (.inr hstatus)
  · next hstatus =>
      split_ifs at h with halive
      · obtain rfl := Option.some.inj (Except.ok.inj h)
        exact .alive (.inl hstatus) halive
      · obtain rfl := Option.some.inj (Except.ok.inj h)
        exact .result _ (.inl hstatus) halive
  · next hstatus =>
      split_ifs at h with halive
      · obtain rfl := Option.some.inj (Except.ok.inj h)
        exact .alive (.inr hstatus) halive
      · obtain rfl := Option.some.inj (Except.ok.inj h)
        exact .result _ (.inr hstatus) halive

theorem Updates.sameRun {config : MonitorConfig} {old : CheckInRow}
    (h : Updates checkIn config received old row) : SameRun old row := by
  cases h <;> exact ⟨rfl, rfl, rfl, rfl, rfl, rfl, rfl⟩

/-- An update leaves the hard ceiling where it is. -/
theorem Updates.timeout {config : MonitorConfig} {old : CheckInRow}
    (h : Updates checkIn config received old row)
    (hold : ∀ timeoutAt ∈ old.timeoutAt,
      timeoutAt ≤ truncateToMinute old.dateAdded + maxMaxRuntime * minute) :
    ∀ timeoutAt ∈ row.timeoutAt,
      timeoutAt ≤ truncateToMinute row.dateAdded + maxMaxRuntime * minute := by
  cases h with
  | late durationMs hstatus => exact hold
  | alive hstatus halive =>
      intro timeoutAt htimeout
      obtain rfl := Option.some.inj htimeout
      have hceiling : config.timeoutAt old.dateAdded - config.maxRuntime * minute =
          truncateToMinute old.dateAdded := Int.add_sub_cancel _ _
      rw [hceiling]
      exact min_le_right _ _
  | result durationMs hstatus halive => exact hold

/-- How a check-in is stored. -/
inductive Stores (p : Platform) (t : Tables) (monitor : Monitor) (env : Environment)
    (checkIn : CheckIn) (received : Int) : Tables → CheckInRow → Prop
  | created (durationMs : Option Int) :
      existingCheckin p t monitor.id env.id checkIn.checkInId = none →
      Stores p t monitor env checkIn received
        (t.insertCheckin (newCheckin t monitor env checkIn durationMs received) (t.drawn + 2))
        (newCheckin t monitor env checkIn durationMs received)
  | updated {old row : CheckInRow} :
      existingCheckin p t monitor.id env.id checkIn.checkInId = some old → old ∈ t.checkins →
      old.environmentId = env.id → Updates checkIn monitor.config received old row →
      Stores p t monitor env checkIn received (t.updateCheckin row) row

theorem mem_of_existingCheckin {monitorId environmentId checkInId : Uuid} {old : CheckInRow}
    (h : existingCheckin p t monitorId environmentId checkInId = some old) :
    old ∈ t.checkins := by
  unfold existingCheckin at h
  split_ifs at h
  · have hmem := p.newest.mem_of_mem_limit (List.mem_of_mem_head? h)
    exact List.mem_of_mem_filter (List.mem_of_mem_filter hmem)
  · exact List.mem_of_find?_eq_some h

theorem storeCheckin_spec
    (hok : storeCheckin p t monitor env checkIn received = .ok (some (t', row))) :
    Stores p t monitor env checkIn received t' row := by
  unfold storeCheckin at hok
  dsimp only at hok
  split at hok
  · next old hold =>
      split_ifs at hok with henv
      obtain ⟨updated, hupdated, hok⟩ := map_eq_ok hok
      cases updated with
      | none => cases hok
      | some row' =>
          obtain ⟨rfl, rfl⟩ := Prod.mk.inj (Option.some.inj hok)
          exact .updated hold (mem_of_existingCheckin hold) (not_not.mp henv)
            (updateExisting_spec hupdated)
  · next hnone =>
      obtain ⟨rfl, rfl⟩ := Prod.mk.inj (Option.some.inj (Except.ok.inj hok))
      exact .created _ hnone

theorem Stores.sound (hstores : Stores p t monitor env checkIn received t' row) (h : Sound p t)
    (hready : Ready t monitor env) : Sound p t' := by
  cases hstores with
  | created durationMs hnone =>
      refine h.insertCheckin rfl (Nat.lt_add_of_pos_right Nat.two_pos) ?_ ?_
      · exact List.mem_map.mpr ⟨env, hready.mem_environments, by rw [hready.monitorId]; rfl⟩
      · intro timeoutAt htimeout
        have hruntime := (h.config monitor hready.mem_monitors).runtime.2
        unfold newCheckin at htimeout ⊢
        dsimp only at htimeout ⊢
        split_ifs at htimeout
        · obtain rfl := Option.some.inj htimeout
          have hminute : 0 ≤ minute := by decide
          have hle : (monitor.config.maxRuntime : Int) * minute ≤ maxMaxRuntime * minute :=
            Int.mul_le_mul_of_nonneg_right (by exact_mod_cast hruntime) hminute
          unfold MonitorConfig.timeoutAt
          omega
        · cases htimeout
  | updated hexisting hmem henv hupdates =>
      have hsame := hupdates.sameRun
      exact h.updateCheckin hmem hsame.id hsame.environmentId hsame.monitorId
        (hupdates.timeout (h.timeout _ hmem))

theorem Stores.environments (hstores : Stores p t monitor env checkIn received t' row) :
    t'.environments = t.environments := by
  cases hstores <;> rfl

theorem Stores.monitors (hstores : Stores p t monitor env checkIn received t' row) :
    t'.monitors = t.monitors := by
  cases hstores <;> rfl

theorem Stores.mem (hstores : Stores p t monitor env checkIn received t' row) :
    row ∈ t'.checkins := by
  cases hstores with
  | created durationMs hnone => exact List.mem_append_right _ List.mem_cons_self
  | updated hexisting hmem henv hupdates =>
      exact mem_modify.mpr ⟨_, hmem, if_pos hupdates.sameRun.id.symm⟩

/-- The other check-ins are as they were. -/
theorem Stores.mem_before {c : CheckInRow}
    (hstores : Stores p t monitor env checkIn received t' row) (hc : c ∈ t'.checkins)
    (hne : c ≠ row) : c ∈ t.checkins := by
  cases hstores with
  | created durationMs hnone =>
      exact (List.mem_append.mp hc).resolve_right fun hnew => hne (List.mem_singleton.mp hnew)
  | updated hexisting hmem henv hupdates => exact ((mem_updateCheckin hc).resolve_left hne).1

theorem Stores.environmentId (hstores : Stores p t monitor env checkIn received t' row) :
    row.environmentId = env.id := by
  cases hstores with
  | created durationMs hnone => rfl
  | updated hexisting hmem henv hupdates => rw [hupdates.sameRun.environmentId, henv]

/-! ## What follows from it -/

theorem Sound.resolution (h : Sound p t) (monitor : Monitor) (env : Environment)
    (checkin : CheckInRow) : Sound p (resolution p t monitor env checkin).1 := by
  unfold Monitors.resolution tryResolution
  dsimp only
  split_ifs
  · exact h
  · exact h
  · exact h
  · exact h.resolveIssues _ _

theorem Sound.markOk (h : Sound p t) (hconfig : monitor.config.Valid p.clocks) (env : Environment)
    (checkin : CheckInRow) (succeededAt : Int) :
    Sound p (markOk p t monitor env checkin succeededAt) := by
  have hresolved := h.resolution monitor env checkin
  unfold Monitors.markOk
  dsimp only
  by_cases hlast : env.lastCheckin.all (· ≤ succeededAt) = true
  · rw [if_pos hlast]
    exact hresolved.updateEnvironment hconfig _ _ _ _
  · rw [if_neg hlast]
    exact hresolved

/-- What a stored check-in does to its environment: an error fails it unless a newer result is
there, and anything else may resolve its incident. -/
inductive Settles (p : Platform) (t : Tables) (monitor : Monitor) (env : Environment)
    (row : CheckInRow) (received : Int) : Tables → List MonitorFailure → Prop
  | stale : row.status = .error → t.hasNewerResult env.id row.dateAdded = true →
      Settles p t monitor env row received t []
  | failed {env' : Environment} {t₁ : Tables} : row.status = .error →
      t.hasNewerResult env.id row.dateAdded = false →
      t₁ = updateEnvironment p t env monitor.config (some row.dateAdded)
        (monitor.config.checkinReference p.clocks row.dateAdded row.expectedTime received) none →
      t₁.reloadEnvironment env.id = .ok env' →
      Settles p t monitor env row received (markFailed p t₁ monitor env' row .error).1
        (markFailed p t₁ monitor env' row .error).2
  | other : row.status ≠ .error →
      Settles p t monitor env row received (markOk p t monitor env row received) []

theorem settleCheckin_spec
    (hok : settleCheckin p t monitor env row received = .ok (t', failures)) :
    Settles p t monitor env row received t' failures := by
  unfold settleCheckin at hok
  split_ifs at hok with herror hnewer
  · obtain ⟨rfl, rfl⟩ := Prod.mk.inj (Except.ok.inj hok)
    exact .stale herror hnewer
  · obtain ⟨env', henv', hok⟩ := bind_eq_ok hok
    obtain ⟨rfl, rfl⟩ := Prod.mk.inj (Except.ok.inj hok)
    exact .failed herror (by simpa using hnewer) rfl henv'
  · obtain ⟨rfl, rfl⟩ := Prod.mk.inj (Except.ok.inj hok)
    exact .other herror

theorem Settles.sound (hsettles : Settles p t monitor env row received t' failures)
    (h : Sound p t) (hconfig : monitor.config.Valid p.clocks) : Sound p t' := by
  cases hsettles with
  | stale => exact h
  | failed herror hnewer hmoved hreload =>
      rw [hmoved]
      exact (h.updateEnvironment hconfig env _ _ _).markFailed _ _ _ _
  | other hstatus => exact h.markOk hconfig env row received

/-- A check-in that is processed has its monitor and environment; then it changes nothing
else, or it is stored and settled. -/
theorem processCheckIn_spec
    (hok : processCheckIn p t projectId checkIn now received = .ok (t', failures)) :
    ∃ t₁ monitor env, prepare p t now projectId checkIn = .ok (t₁, monitor, env) ∧
      (t' = t₁ ∧ failures = [] ∨
        ∃ t₂ row, storeCheckin p t₁ monitor env checkIn received = .ok (some (t₂, row)) ∧
          settleCheckin p t₂ monitor env row received = .ok (t', failures)) := by
  unfold processCheckIn at hok
  obtain ⟨⟨t₁, monitor, env⟩, hprepare, hok⟩ := bind_eq_ok hok
  obtain ⟨stored, hstore, hok⟩ := bind_eq_ok hok
  refine ⟨t₁, monitor, env, hprepare, ?_⟩
  cases stored with
  | none =>
      obtain ⟨rfl, rfl⟩ := Prod.mk.inj (Except.ok.inj hok)
      exact .inl ⟨rfl, rfl⟩
  | some stored => exact .inr ⟨stored.1, stored.2, hstore, hok⟩

theorem Sound.processCheckIn (h : Sound p t)
    (hok : processCheckIn p t projectId checkIn now received = .ok (t', failures)) :
    Sound p t' := by
  obtain ⟨t₁, monitor, env, hprepare, hrest⟩ := processCheckIn_spec hok
  have hprepared := prepare_spec h hprepare
  rcases hrest with ⟨rfl, -⟩ | ⟨t₂, row, hstore, hsettle⟩
  · exact hprepared.sound
  · have hsound := (storeCheckin_spec hstore).sound hprepared.sound hprepared.toReady
    exact (settleCheckin_spec hsettle).sound hsound
      (hprepared.sound.config monitor hprepared.mem_monitors)

/-! ## The sweep -/

theorem loadMonitor_eq_ok {id : Uuid} (h : t.loadMonitor id = .ok monitor) :
    monitor ∈ t.monitors ∧ monitor.id = id :=
  ⟨mem_of_lookup (okOr_eq_ok h), key_of_lookup (okOr_eq_ok h)⟩

theorem reloadEnvironment_eq_ok {id : Uuid} (h : t.reloadEnvironment id = .ok env) :
    env ∈ t.environments ∧ env.id = id :=
  ⟨mem_of_lookup (okOr_eq_ok h), key_of_lookup (okOr_eq_ok h)⟩

/-- What the sweep does with an environment: nothing if it is not due, and with crons off it
moves its schedule on. -/
inductive SweepsMissed (p : Platform) (t : Tables) (environmentId : Uuid) (now : Int) :
    Tables → List MonitorFailure → Prop
  | idle : SweepsMissed p t environmentId now t []
  | off {monitor : Monitor} {env : Environment} {expected latest : Int} :
      Ready t monitor env → env.id = environmentId → env.nextCheckin = some expected →
      env.nextCheckinLatest = some latest → latest ≤ now → monitor.projectId ∈ t.cronsOff →
      SweepsMissed p t environmentId now
        (updateEnvironment p t env monitor.config env.lastCheckin
          (monitor.config.prevCheckin p.clocks expected now) none) []
  | missed {monitor : Monitor} {env env' : Environment} {expected latest : Int} {t₁ : Tables} :
      Ready t monitor env → env.id = environmentId → env.nextCheckin = some expected →
      env.nextCheckinLatest = some latest → latest ≤ now → monitor.projectId ∉ t.cronsOff →
      t₁ = updateEnvironment p
        (t.insertCheckin (missedCheckin t monitor env expected) (t.drawn + 2)) env
        monitor.config env.lastCheckin (monitor.config.prevCheckin p.clocks expected now) none →
      t₁.reloadEnvironment env.id = .ok env' →
      SweepsMissed p t environmentId now
        (markFailed p t₁ monitor env' (missedCheckin t monitor env expected) .missed).1
        (markFailed p t₁ monitor env' (missedCheckin t monitor env expected) .missed).2

theorem sweepMissed_spec {environmentId : Uuid}
    (hok : sweepMissed p t environmentId now = .ok (t', failures)) :
    SweepsMissed p t environmentId now t' failures := by
  unfold sweepMissed at hok
  obtain ⟨env, henv, hok⟩ := bind_eq_ok hok
  obtain ⟨hmem, hid⟩ := reloadEnvironment_eq_ok henv
  split at hok
  · next expected latest hexpected hlatest =>
      split_ifs at hok with hearly
      · obtain ⟨rfl, rfl⟩ := Prod.mk.inj (Except.ok.inj hok)
        exact .idle
      · obtain ⟨monitor, hload, hok⟩ := bind_eq_ok hok
        obtain ⟨hmonitor, hkey⟩ := loadMonitor_eq_ok hload
        dsimp only at hok
        split_ifs at hok with hoff
        · obtain ⟨rfl, rfl⟩ := Prod.mk.inj (Except.ok.inj hok)
          exact .off ⟨hmonitor, hmem, hkey.symm⟩ hid hexpected hlatest (not_lt.mp hearly)
            (by simpa using hoff)
        · obtain ⟨env', henv', hok⟩ := bind_eq_ok hok
          obtain ⟨rfl, rfl⟩ := Prod.mk.inj (Except.ok.inj hok)
          exact .missed ⟨hmonitor, hmem, hkey.symm⟩ hid hexpected hlatest (not_lt.mp hearly)
            (by simpa using hoff) rfl henv'
  · obtain ⟨rfl, rfl⟩ := Prod.mk.inj (Except.ok.inj hok)
    exact .idle

/-- What the sweep does with a check-in: nothing if it is not late, and it fails the
environment unless crons are off or a newer result is there. -/
inductive SweepsTimeout (p : Platform) (t : Tables) (checkinId : Uuid) (now : Int) :
    Tables → List MonitorFailure → Prop
  | idle : SweepsTimeout p t checkinId now t []
  | silent {old : CheckInRow} {timeoutAt : Int} : old ∈ t.checkins → old.id = checkinId →
      old.status = .inProgress → old.timeoutAt = some timeoutAt → timeoutAt ≤ now →
      SweepsTimeout p t checkinId now (t.updateCheckin { old with status := .timeout }) []
  | failed {old : CheckInRow} {timeoutAt : Int} {monitor : Monitor} {env : Environment} :
      old ∈ t.checkins → old.id = checkinId → old.status = .inProgress →
      old.timeoutAt = some timeoutAt → timeoutAt ≤ now →
      ¬(t.updateCheckin { old with status := .timeout }).hasNewerResult old.environmentId
        old.dateAdded →
      monitor ∈ t.monitors → monitor.id = old.monitorId →
      env ∈ t.environments → env.id = old.environmentId →
      SweepsTimeout p t checkinId now
        (markFailed p (t.updateCheckin { old with status := .timeout }) monitor env
          { old with status := .timeout } .timeout).1
        (markFailed p (t.updateCheckin { old with status := .timeout }) monitor env
          { old with status := .timeout } .timeout).2

theorem sweepTimeout_spec {checkinId : Uuid}
    (hok : sweepTimeout p t checkinId now = .ok (t', failures)) :
    SweepsTimeout p t checkinId now t' failures := by
  unfold sweepTimeout at hok
  split at hok
  · obtain ⟨rfl, rfl⟩ := Prod.mk.inj (Except.ok.inj hok)
    exact .idle
  · next old hold =>
      obtain ⟨hfound, hopen⟩ := Option.filter_eq_some_iff.mp hold
      simp only [Bool.and_eq_true, decide_eq_true_eq] at hopen
      obtain ⟨hstatus, hlate⟩ := hopen
      obtain ⟨timeoutAt, htimeout⟩ := Option.isSome_iff_exists.mp (Option.isSome_of_any hlate)
      have hle : timeoutAt ≤ now := by simpa [htimeout] using hlate
      dsimp only at hok
      split_ifs at hok with hquiet
      · obtain ⟨rfl, rfl⟩ := Prod.mk.inj (Except.ok.inj hok)
        exact .silent (mem_of_lookup hfound) (key_of_lookup hfound) hstatus htimeout hle
      · obtain ⟨monitor, hload, hok⟩ := bind_eq_ok hok
        obtain ⟨env, henv, hok⟩ := bind_eq_ok hok
        obtain ⟨hmonitor, hmonitorId⟩ := loadMonitor_eq_ok hload
        obtain ⟨henvironment, hid⟩ := reloadEnvironment_eq_ok henv
        obtain ⟨rfl, rfl⟩ := Prod.mk.inj (Except.ok.inj hok)
        exact .failed (mem_of_lookup hfound) (key_of_lookup hfound) hstatus htimeout hle
          (fun hnewer => hquiet (.inr hnewer)) hmonitor hmonitorId henvironment hid

theorem Sound.insertMissed (h : Sound p t) (hready : Ready t monitor env) (expected : Int) :
    Sound p (t.insertCheckin (missedCheckin t monitor env expected) (t.drawn + 2)) := by
  refine h.insertCheckin rfl (Nat.lt_add_of_pos_right Nat.two_pos) ?_ (by simp [missedCheckin])
  exact List.mem_map.mpr ⟨env, hready.mem_environments, by rw [hready.monitorId]; rfl⟩

theorem SweepsMissed.sound {environmentId : Uuid}
    (hsweeps : SweepsMissed p t environmentId now t' failures) (h : Sound p t) : Sound p t' := by
  cases hsweeps with
  | idle => exact h
  | off hready hid hexpected hlatest hdue hoff =>
      exact h.updateEnvironment (h.config _ hready.mem_monitors) _ _ _ _
  | missed hready hid hexpected hlatest hdue hon hmoved henv =>
      rw [hmoved]
      have hinserted := h.insertMissed hready
      exact ((hinserted _).updateEnvironment (h.config _ hready.mem_monitors) _ _ _ _).markFailed
        _ _ _ _

theorem Sound.timeOut (h : Sound p t) (hrow : row ∈ t.checkins) :
    Sound p (t.updateCheckin { row with status := .timeout }) :=
  h.updateCheckin hrow rfl rfl rfl (h.timeout row hrow)

theorem SweepsTimeout.sound {checkinId : Uuid}
    (hsweeps : SweepsTimeout p t checkinId now t' failures) (h : Sound p t) : Sound p t' := by
  cases hsweeps with
  | idle => exact h
  | silent hold hid hstatus htimeout hlate => exact h.timeOut hold
  | failed hold hid hstatus htimeout hlate hnewer hmonitor hmonitorId henv henvId =>
      exact (h.timeOut hold).markFailed _ _ _ _

/-! ## What leaves the check-ins alone -/

/-- Nothing but environments and issues has changed. -/
structure Beside (t t' : Tables) : Prop where
  monitors : t'.monitors = t.monitors
  checkins : t'.checkins = t.checkins
  drawn : t'.drawn = t.drawn

theorem Beside.refl (t : Tables) : Beside t t := ⟨rfl, rfl, rfl⟩

theorem Beside.trans {t'' : Tables} (h : Beside t t') (h' : Beside t' t'') : Beside t t'' :=
  ⟨h'.monitors.trans h.monitors, h'.checkins.trans h.checkins, h'.drawn.trans h.drawn⟩

theorem beside_updateEnvironment (t : Tables) (env : Environment) (config : MonitorConfig)
    (lastCheckin : Option Int) (reference : Int) (status : Option MonitorEnvironmentStatus) :
    Beside t (updateEnvironment p t env config lastCheckin reference status) :=
  ⟨rfl, rfl, rfl⟩

theorem beside_markFailed (t : Tables) (monitor : Monitor) (env : Environment)
    (failed : CheckInRow) (reason : FailureReason) :
    Beside t (markFailed p t monitor env failed reason).1 := by
  rw [markFailed_tables]
  split_ifs
  · exact ⟨rfl, rfl, rfl⟩
  · exact .refl t

theorem beside_resolution (t : Tables) (monitor : Monitor) (env : Environment)
    (checkin : CheckInRow) : Beside t (resolution p t monitor env checkin).1 := by
  unfold resolution tryResolution
  dsimp only
  split_ifs
  · exact .refl t
  · exact .refl t
  · exact .refl t
  · exact ⟨rfl, rfl, rfl⟩

theorem beside_markOk (t : Tables) (monitor : Monitor) (env : Environment) (checkin : CheckInRow)
    (succeededAt : Int) : Beside t (markOk p t monitor env checkin succeededAt) := by
  have hresolved := beside_resolution (p := p) t monitor env checkin
  unfold markOk
  dsimp only
  by_cases hlast : env.lastCheckin.all (· ≤ succeededAt) = true
  · rw [if_pos hlast]
    exact hresolved.trans (beside_updateEnvironment _ _ _ _ _ _)
  · rw [if_neg hlast]
    exact hresolved

theorem Settles.beside {monitor : Monitor} {env : Environment} {received : Int}
    (h : Settles p t monitor env row received t' failures) : Beside t t' := by
  cases h with
  | stale => exact .refl t
  | failed herror hnewer hmoved hreload =>
      rw [hmoved]
      exact (beside_updateEnvironment t env _ _ _ _).trans (beside_markFailed _ _ _ _ _)
  | other hstatus => exact beside_markOk t monitor env row received

end Rustrak.Monitors
