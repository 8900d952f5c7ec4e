import Rustrak.Monitors.Store

/-!
# What the monitor tables always satisfy

`Sound` collects it: configurations are valid, keys are unique and point to rows that exist, no
id has been drawn that is not accounted for, an environment's margin is positive, and no
check-in stays open past the hard ceiling.

Each kind of write keeps it (`Sound.setEnvironment`, `Sound.updateCheckin`, …).
-/

namespace Rustrak.Monitors

open Rustrak.Core Rustrak.Relational

variable (p : Platform) (t : Tables)

structure Sound : Prop where
  config : ∀ m ∈ t.monitors, m.config.Valid p.clocks
  monitorIds : (t.monitors.map Monitor.id).Nodup
  monitorDrawn : ∀ m ∈ t.monitors, m.id < t.drawn
  environmentIds : (t.environments.map Environment.id).Nodup
  environmentDrawn : ∀ e ∈ t.environments, e.id < t.drawn
  environmentMonitor : ∀ e ∈ t.environments, e.monitorId ∈ t.monitors.map Monitor.id
  margin : ∀ e ∈ t.environments, ∀ expected ∈ e.nextCheckin, ∀ latest ∈ e.nextCheckinLatest,
    expected < latest
  checkinIds : (t.checkins.map CheckInRow.id).Nodup
  checkinDrawn : ∀ c ∈ t.checkins, c.id < t.drawn
  checkinEnvironment : ∀ c ∈ t.checkins, (c.environmentId, c.monitorId) ∈
    t.environments.map fun e => (e.id, e.monitorId)
  timeout : ∀ c ∈ t.checkins, ∀ timeoutAt ∈ c.timeoutAt,
    timeoutAt ≤ truncateToMinute c.dateAdded + maxMaxRuntime * minute

variable {p t} {t' : Tables} {monitor : Monitor} {env : Environment} {row : CheckInRow}

theorem Sound.empty (p : Platform) : Sound p .empty := by
  constructor <;> simp [Tables.empty]

/-! ## One write -/

theorem Sound.raise (h : Sound p t) {drawn : Uuid} (hdrawn : t.drawn ≤ drawn) :
    Sound p { t with drawn } :=
  { h with
    monitorDrawn := fun m hm => (h.monitorDrawn m hm).trans_le hdrawn
    environmentDrawn := fun e he => (h.environmentDrawn e he).trans_le hdrawn
    checkinDrawn := fun c hc => (h.checkinDrawn c hc).trans_le hdrawn }

theorem Sound.withDb (h : Sound p t) (db : Digest.Db) : Sound p { t with db } := { h with }

theorem Sound.withCronsOff (h : Sound p t) (cronsOff : List Int) : Sound p { t with cronsOff } :=
  { h with }

theorem Sound.modifyMonitor (h : Sound p t) {f : Monitor → Monitor} {id : Uuid}
    (hid : ∀ m, (f m).id = m.id)
    (hconfig : ∀ m ∈ t.monitors, m.id = id → (f m).config.Valid p.clocks) :
    Sound p { t with monitors := modify Monitor.id id f t.monitors } :=
  { h with
    config := by
      intro m hm
      obtain ⟨old, hold, rfl⟩ := mem_modify.mp hm
      split_ifs with hkey
      · exact hconfig old hold hkey
      · exact h.config old hold
    monitorIds := by rw [map_key_modify hid]; exact h.monitorIds
    monitorDrawn := by
      intro m hm
      obtain ⟨old, hold, rfl⟩ := mem_modify.mp hm
      have hold := h.monitorDrawn old hold
      split_ifs
      · rw [hid]; exact hold
      · exact hold
    environmentMonitor := by rw [map_key_modify hid]; exact h.environmentMonitor }

theorem Sound.insertMonitor (h : Sound p t) (hid : monitor.id = t.drawn)
    (hconfig : monitor.config.Valid p.clocks) :
    Sound p { t with monitors := t.monitors ++ [monitor], drawn := t.drawn + 1 } :=
  { h.raise (Nat.le_succ t.drawn) with
    config := by
      intro m hm
      rcases List.mem_append.mp hm with hold | hnew
      · exact h.config m hold
      · rw [List.mem_singleton.mp hnew]; exact hconfig
    monitorIds := by
      refine nodup_insert h.monitorIds (lookup_eq_none_iff.mpr fun m hm => ?_)
      rw [hid]
      exact (h.monitorDrawn m hm).ne
    monitorDrawn := by
      intro m hm
      rcases List.mem_append.mp hm with hold | hnew
      · exact (h.monitorDrawn m hold).trans (Nat.lt_succ_self _)
      · rw [List.mem_singleton.mp hnew, hid]; exact Nat.lt_succ_self _
    environmentMonitor := by
      intro e he
      rw [List.map_append]
      exact List.mem_append_left _ (h.environmentMonitor e he) }

theorem Sound.insertEnvironment (h : Sound p t) (hid : env.id = t.drawn)
    (hmonitor : env.monitorId ∈ t.monitors.map Monitor.id) (hnext : env.nextCheckin = none) :
    Sound p { t with environments := t.environments ++ [env], drawn := t.drawn + 1 } :=
  { h.raise (Nat.le_succ t.drawn) with
    environmentIds := by
      refine nodup_insert h.environmentIds (lookup_eq_none_iff.mpr fun e he => ?_)
      rw [hid]
      exact (h.environmentDrawn e he).ne
    environmentDrawn := by
      intro e he
      rcases List.mem_append.mp he with hold | hnew
      · exact (h.environmentDrawn e hold).trans (Nat.lt_succ_self _)
      · rw [List.mem_singleton.mp hnew, hid]; exact Nat.lt_succ_self _
    environmentMonitor := by
      intro e he
      rcases List.mem_append.mp he with hold | hnew
      · exact h.environmentMonitor e hold
      · rw [List.mem_singleton.mp hnew]; exact hmonitor
    margin := by
      intro e he expected hexpected
      rcases List.mem_append.mp he with hold | hnew
      · exact h.margin e hold expected hexpected
      · rw [List.mem_singleton.mp hnew, hnext] at hexpected
        cases hexpected
    checkinEnvironment := by
      intro c hc
      rw [List.map_append]
      exact List.mem_append_left _ (h.checkinEnvironment c hc) }

theorem Sound.setEnvironment (h : Sound p t) {f : Environment → Environment} {id : Uuid}
    (hid : ∀ e, (f e).id = e.id) (hmonitor : ∀ e, (f e).monitorId = e.monitorId)
    (hmargin : ∀ e ∈ t.environments, ∀ expected ∈ (f e).nextCheckin,
      ∀ latest ∈ (f e).nextCheckinLatest, expected < latest) :
    Sound p (t.setEnvironment id f) :=
  { h with
    environmentIds := by
      unfold Tables.setEnvironment
      rw [map_key_modify hid]
      exact h.environmentIds
    environmentDrawn := by
      intro e he
      obtain ⟨old, hold, rfl⟩ := mem_modify.mp he
      have hold := h.environmentDrawn old hold
      split_ifs
      · rw [hid]; exact hold
      · exact hold
    environmentMonitor := by
      intro e he
      obtain ⟨old, hold, rfl⟩ := mem_modify.mp he
      have hold := h.environmentMonitor old hold
      split_ifs
      · rw [hmonitor]; exact hold
      · exact hold
    margin := by
      intro e he
      obtain ⟨old, hold, rfl⟩ := mem_modify.mp he
      split_ifs
      · exact hmargin old hold
      · exact h.margin old hold
    checkinEnvironment := by
      intro c hc
      obtain ⟨e, he, hkey⟩ := List.mem_map.mp (h.checkinEnvironment c hc)
      refine List.mem_map.mpr ⟨_, List.mem_map_of_mem he, ?_⟩
      rw [← hkey]
      split_ifs
      · rw [hid, hmonitor]
      · rfl }

/-- What is in the tables after an update: the row, or a check-in of another id. -/
theorem mem_updateCheckin {c : CheckInRow} (hc : c ∈ (t.updateCheckin row).checkins) :
    c = row ∨ c ∈ t.checkins ∧ c.id ≠ row.id := by
  obtain ⟨old, hold, rfl⟩ := mem_modify.mp hc
  split_ifs with hkey
  · exact .inl rfl
  · exact .inr ⟨hold, hkey⟩

theorem Sound.updateCheckin (h : Sound p t) {old : CheckInRow} (hold : old ∈ t.checkins)
    (hid : row.id = old.id) (henv : row.environmentId = old.environmentId)
    (hmonitor : row.monitorId = old.monitorId)
    (htimeout : ∀ timeoutAt ∈ row.timeoutAt,
      timeoutAt ≤ truncateToMinute row.dateAdded + maxMaxRuntime * minute) :
    Sound p (t.updateCheckin row) :=
  { h with
    checkinIds := by
      have hids : (t.updateCheckin row).checkins.map CheckInRow.id =
          t.checkins.map CheckInRow.id := by
        unfold Tables.updateCheckin Relational.modify
        rw [List.map_map]
        apply List.map_congr_left
        intro c _
        simp only [Function.comp]
        split_ifs with hkey
        · exact hkey.symm
        · rfl
      rw [hids]
      exact h.checkinIds
    checkinDrawn := by
      intro c hc
      rcases mem_updateCheckin hc with rfl | ⟨hc, -⟩
      · rw [hid]; exact h.checkinDrawn old hold
      · exact h.checkinDrawn c hc
    checkinEnvironment := by
      intro c hc
      rcases mem_updateCheckin hc with rfl | ⟨hc, -⟩
      · rw [henv, hmonitor]; exact h.checkinEnvironment old hold
      · exact h.checkinEnvironment c hc
    timeout := by
      intro c hc
      rcases mem_updateCheckin hc with rfl | ⟨hc, -⟩
      · exact htimeout
      · exact h.timeout c hc }

theorem Sound.insertCheckin (h : Sound p t) {drawn : Uuid} (hid : row.id = t.drawn)
    (hdrawn : t.drawn < drawn)
    (henv : (row.environmentId, row.monitorId) ∈ t.environments.map fun e => (e.id, e.monitorId))
    (htimeout : ∀ timeoutAt ∈ row.timeoutAt,
      timeoutAt ≤ truncateToMinute row.dateAdded + maxMaxRuntime * minute) :
    Sound p (t.insertCheckin row drawn) :=
  { h.raise hdrawn.le with
    checkinIds := by
      refine nodup_insert h.checkinIds (lookup_eq_none_iff.mpr fun c hc => ?_)
      rw [hid]
      exact (h.checkinDrawn c hc).ne
    checkinDrawn := by
      intro c hc
      rcases List.mem_append.mp hc with hold | hnew
      · exact (h.checkinDrawn c hold).trans hdrawn
      · rw [List.mem_singleton.mp hnew, hid]; exact hdrawn
    checkinEnvironment := by
      intro c hc
      rcases List.mem_append.mp hc with hold | hnew
      · exact h.checkinEnvironment c hold
      · rw [List.mem_singleton.mp hnew]; exact henv
    timeout := by
      intro c hc
      rcases List.mem_append.mp hc with hold | hnew
      · exact h.timeout c hold
      · rw [List.mem_singleton.mp hnew]; exact htimeout }

theorem Sound.filterCheckins (h : Sound p t) (keep : CheckInRow → Bool) :
    Sound p { t with checkins := t.checkins.filter keep } :=
  { h with
    checkinIds := h.checkinIds.sublist (List.filter_sublist.map _)
    checkinDrawn := fun c hc => h.checkinDrawn c (List.mem_of_mem_filter hc)
    checkinEnvironment := fun c hc => h.checkinEnvironment c (List.mem_of_mem_filter hc)
    timeout := fun c hc => h.timeout c (List.mem_of_mem_filter hc) }

theorem Sound.deleteMonitors (h : Sound p t) (gone : Monitor → Bool) :
    Sound p (deleteMonitors t gone) where
  config m hm := h.config m (List.mem_of_mem_filter hm)
  monitorIds := h.monitorIds.sublist (List.filter_sublist.map _)
  monitorDrawn m hm := h.monitorDrawn m (List.mem_of_mem_filter hm)
  environmentIds := h.environmentIds.sublist (List.filter_sublist.map _)
  environmentDrawn e he := h.environmentDrawn e (List.mem_of_mem_filter he)
  environmentMonitor := by
    intro e he
    obtain ⟨he, hkept⟩ := List.mem_filter.mp he
    obtain ⟨m, hm, hkey⟩ := List.mem_map.mp (h.environmentMonitor e he)
    refine List.mem_map.mpr ⟨m, List.mem_filter.mpr ⟨hm, ?_⟩, hkey⟩
    rw [hkey]
    exact hkept
  margin e he := h.margin e (List.mem_of_mem_filter he)
  checkinIds := h.checkinIds.sublist (List.filter_sublist.map _)
  checkinDrawn c hc := h.checkinDrawn c (List.mem_of_mem_filter hc)
  checkinEnvironment := by
    intro c hc
    obtain ⟨hc, hkept⟩ := List.mem_filter.mp hc
    obtain ⟨e, he, hkey⟩ := List.mem_map.mp (h.checkinEnvironment c hc)
    obtain ⟨-, hmonitor⟩ := Prod.mk.inj hkey
    refine List.mem_map.mpr ⟨e, List.mem_filter.mpr ⟨he, ?_⟩, hkey⟩
    rw [hmonitor]
    exact hkept
  timeout c hc := h.timeout c (List.mem_of_mem_filter hc)

theorem Sound.resolveIssues (h : Sound p t) (projectId : Int) (hash : String) :
    Sound p (t.resolveIssues projectId hash) :=
  h.withDb _

theorem Sound.updateEnvironment (h : Sound p t) {config : MonitorConfig}
    (hconfig : config.Valid p.clocks) (env : Environment) (lastCheckin : Option Int)
    (reference : Int) (status : Option MonitorEnvironmentStatus) :
    Sound p (updateEnvironment p t env config lastCheckin reference status) := by
  refine h.setEnvironment (fun _ => rfl) (fun _ => rfl) ?_
  intro e _ expected hexpected latest hlatest
  obtain rfl := Option.some.inj hexpected
  obtain rfl := Option.some.inj hlatest
  have hmargin := hconfig.margin.1
  have hminute : 0 < minute := by decide
  unfold MonitorConfig.nextCheckinLatest
  have hpos : 0 < (config.checkinMargin : Int) * minute :=
    Int.mul_pos (by exact_mod_cast hmargin) hminute
  omega

/-- A failure changes nothing but the status of its environment. -/
theorem markFailed_tables (monitor : Monitor) (env : Environment) (failed : CheckInRow)
    (reason : FailureReason) :
    (markFailed p t monitor env failed reason).1 =
      if env.status ≠ .error ∧ crossesThreshold p t monitor env failed then
        t.setEnvironment env.id fun e => { e with status := .error }
      else t := by
  unfold markFailed
  cases env.status <;> by_cases hcross : crossesThreshold p t monitor env failed <;> simp [hcross]

/-- What is reported is the failure itself. -/
theorem eq_failureOf_of_mem {failed : CheckInRow} {reason : FailureReason} {f : MonitorFailure}
    (hf : f ∈ (markFailed p t monitor env failed reason).2) :
    f = failureOf monitor env failed reason := by
  have hreported : ∀ {failures : List MonitorFailure},
      failures = (if monitor.isMuted then [] else [failureOf monitor env failed reason]) →
      f ∈ failures → f = failureOf monitor env failed reason := by
    intro failures hfailures hmem
    rw [hfailures] at hmem
    split_ifs at hmem
    · cases hmem
    · exact List.mem_singleton.mp hmem
  unfold markFailed at hf
  dsimp only at hf
  cases hstatus : env.status with
  | error =>
      rw [hstatus] at hf
      exact hreported rfl hf
  | ok | active =>
      rw [hstatus] at hf
      dsimp only at hf
      by_cases hcross : crossesThreshold p t monitor env failed = true
      · rw [if_pos hcross] at hf
        exact hreported rfl hf
      · rw [if_neg hcross] at hf
        cases hf

theorem Sound.markFailed (h : Sound p t) (monitor : Monitor) (env : Environment)
    (failed : CheckInRow) (reason : FailureReason) :
    Sound p (markFailed p t monitor env failed reason).1 := by
  rw [markFailed_tables]
  split_ifs
  · exact h.setEnvironment (fun _ => rfl) (fun _ => rfl) h.margin
  · exact h

end Rustrak.Monitors
