import Rustrak.Monitors.Transactions

/-!
# The turns of a sweep

A sweep goes through the environments that are late, and then through the runs that are.  What
it comes to for one environment:

* `Apart`: the turns of others leave it alone;
* `Moved`: its own turn, one in every sweep, moves it on to the check-in after the last slot;
* `Rests`: timeouts and deletions leave its schedule as it is;
* `NoneLate`: and after them, no run is left to time out.
-/

namespace Rustrak.Monitors

open Rustrak.Core Rustrak.Relational

variable {p : Platform} {t t' t'' : Tables} {monitor : Monitor} {env : Environment}
  {row : CheckInRow} {failures : List MonitorFailure} {id environmentId checkinId : Uuid}
  {now expected latest : Int}

/-! ## One row after another -/

/-- What every row of a sweep keeps, the sweep keeps. -/
theorem sweepEach_invariant {f : Tables → Uuid → AppResult (Tables × List MonitorFailure)}
    {ids : List Uuid} {swept : Tables × List MonitorFailure}
    (Inv : Tables × List MonitorFailure → Prop) (hstart : Inv swept)
    (hkeep : ∀ id ∈ ids, ∀ swept t' found, Inv swept → f swept.1 id = .ok (t', found) →
      Inv (t', swept.2 ++ found)) :
    Inv (ids.foldl (sweepEach f) swept) := by
  induction ids generalizing swept with
  | nil => exact hstart
  | cons id ids ih =>
      refine ih ?_ fun id' hid' => hkeep id' (List.mem_cons_of_mem id hid')
      unfold sweepEach
      cases hf : f swept.1 id with
      | ok outcome => exact hkeep id List.mem_cons_self swept outcome.1 outcome.2 hstart hf
      | error e => exact hstart

/-! ## The rows of others -/

/-- Nothing that an environment depends on has changed. -/
structure Apart (id : Uuid) (t t' : Tables) : Prop where
  monitors : t'.monitors = t.monitors
  cronsOff : t'.cronsOff = t.cronsOff
  environment : lookup Environment.id id t'.environments = lookup Environment.id id t.environments
  checkins : t'.checkinsOf id = t.checkinsOf id

theorem Apart.refl (id : Uuid) (t : Tables) : Apart id t t := ⟨rfl, rfl, rfl, rfl⟩

theorem Apart.trans (h : Apart id t t') (h' : Apart id t' t'') : Apart id t t'' where
  monitors := h'.monitors.trans h.monitors
  cronsOff := h'.cronsOff.trans h.cronsOff
  environment := h'.environment.trans h.environment
  checkins := h'.checkins.trans h.checkins

theorem apart_setEnvironment {f : Environment → Environment} (hid : ∀ e, (f e).id = e.id)
    (hne : environmentId ≠ id) : Apart id t (t.setEnvironment environmentId f) :=
  ⟨rfl, rfl, lookup_modify_ne hid hne.symm, rfl⟩

theorem apart_insertCheckin {drawn : Uuid} (hne : row.environmentId ≠ id) :
    Apart id t (t.insertCheckin row drawn) := by
  refine ⟨rfl, rfl, rfl, ?_⟩
  simp [Tables.checkinsOf, Tables.insertCheckin, hne]

theorem apart_updateEnvironment {config : MonitorConfig} {lastCheckin : Option Int}
    {reference : Int} {status : Option MonitorEnvironmentStatus} (hne : env.id ≠ id) :
    Apart id t (updateEnvironment p t env config lastCheckin reference status) :=
  apart_setEnvironment (fun _ => rfl) hne

theorem apart_markFailed {reason : FailureReason} (hne : env.id ≠ id) :
    Apart id t (markFailed p t monitor env row reason).1 := by
  rw [markFailed_tables]
  split_ifs
  · exact apart_setEnvironment (fun _ => rfl) hne
  · exact .refl id t

theorem SweepsMissed.apart (h : SweepsMissed p t environmentId now t' failures)
    (hne : environmentId ≠ id) : Apart id t t' := by
  cases h with
  | idle => exact .refl id t
  | off hready henv hexpected hlatest hdue hoff =>
      rw [← henv] at hne
      exact apart_updateEnvironment hne
  | missed hready henv hexpected hlatest hdue hon hmoved hreload =>
      rw [← henv] at hne
      have hne' := hne
      rw [← (reloadEnvironment_eq_ok hreload).2] at hne'
      rw [hmoved]
      exact ((apart_insertCheckin hne).trans (apart_updateEnvironment hne)).trans
        (apart_markFailed hne')

/-- A failure that is reported is one of the environment that was swept. -/
theorem SweepsMissed.environment_of_mem (h : SweepsMissed p t environmentId now t' failures)
    {failure : MonitorFailure} (hfailure : failure ∈ failures) :
    failure.monitorEnvironmentId = environmentId := by
  cases h with
  | idle => cases hfailure
  | off => cases hfailure
  | missed hready henv hexpected hlatest hdue hon hmoved hreload =>
      rw [eq_failureOf_of_mem hfailure]
      exact (reloadEnvironment_eq_ok hreload).2.trans henv

/-- Nothing is reported of an environment. -/
def Silent (id : Uuid) (failures : List MonitorFailure) : Prop :=
  ∀ failure ∈ failures, failure.monitorEnvironmentId ≠ id

theorem Silent.append {more : List MonitorFailure} (h : Silent id failures)
    (hmore : Silent id more) : Silent id (failures ++ more) := by
  intro failure hfailure
  rcases List.mem_append.mp hfailure with hold | hnew
  · exact h failure hold
  · exact hmore failure hnew

section Others

variable {ids : List Uuid} {swept : Tables × List MonitorFailure}

theorem apart_sweepMissed (hnot : id ∉ ids) (h : Apart id t swept.1) :
    Apart id t (ids.foldl (sweepEach (sweepMissed p · · now)) swept).1 := by
  refine sweepEach_invariant (fun swept => Apart id t swept.1) h ?_
  intro other hother swept t' found hswept hok
  have hne : other ≠ id := fun hsame => hnot (hsame ▸ hother)
  exact hswept.trans ((sweepMissed_spec hok).apart hne)

theorem silent_sweepMissed (hnot : id ∉ ids) (h : Silent id swept.2) :
    Silent id (ids.foldl (sweepEach (sweepMissed p · · now)) swept).2 := by
  refine sweepEach_invariant (fun swept => Silent id swept.2) h ?_
  intro other hother swept t' found hswept hok
  apply hswept.append
  intro failure hfailure
  rw [(sweepMissed_spec hok).environment_of_mem hfailure]
  exact fun hsame => hnot (hsame ▸ hother)

end Others

/-! ## Its own turn -/

/-- The environment and the monitor are the ones a sweep reads. -/
structure Found (t : Tables) (monitor : Monitor) (env : Environment) : Prop where
  environment : lookup Environment.id env.id t.environments = some env
  monitor : lookup Monitor.id env.monitorId t.monitors = some monitor

theorem Ready.found (h : Ready t monitor env) (hsound : Sound p t) : Found t monitor env where
  environment := lookup_of_mem hsound.environmentIds h.mem_environments
  monitor := by
    rw [h.monitorId]
    exact lookup_of_mem hsound.monitorIds h.mem_monitors

theorem Found.apart (h : Found t monitor env) (hapart : Apart env.id t t') :
    Found t' monitor env where
  environment := hapart.environment.trans h.environment
  monitor := by rw [hapart.monitors, h.monitor]

/-- An environment that expects the check-in after `reference`. -/
def Environment.rescheduled (p : Platform) (env : Environment) (config : MonitorConfig)
    (reference : Int) : Environment :=
  { env with
    nextCheckin := some (config.nextCheckin p.clocks reference)
    nextCheckinLatest := some (config.nextCheckinLatest p.clocks reference) }

/-- What a sweep makes of an environment that is due, however it fares otherwise: it expects
the check-in after `reference`, and one more has been missed unless crons are off. -/
structure Moved (p : Platform) (t t' : Tables) (monitor : Monitor) (env : Environment)
    (reference : Int) : Prop where
  monitors : t'.monitors = t.monitors
  cronsOff : t'.cronsOff = t.cronsOff
  environment : ∃ status, lookup Environment.id env.id t'.environments =
    some { env.rescheduled p monitor.config reference with status }
  off : monitor.projectId ∈ t.cronsOff →
    t'.checkinsOf env.id = t.checkinsOf env.id ∧
      lookup Environment.id env.id t'.environments =
        some (env.rescheduled p monitor.config reference)
  missed : monitor.projectId ∉ t.cronsOff →
    ∃ row, t'.checkinsOf env.id = t.checkinsOf env.id ++ [row]

theorem Moved.apart {reference : Int} (h : Moved p t t' monitor env reference)
    (hapart : Apart env.id t' t'') : Moved p t t'' monitor env reference where
  monitors := hapart.monitors.trans h.monitors
  cronsOff := hapart.cronsOff.trans h.cronsOff
  environment := by
    rw [hapart.environment]
    exact h.environment
  off hoff := by
    rw [hapart.environment, hapart.checkins]
    exact h.off hoff
  missed hon := by
    rw [hapart.checkins]
    exact h.missed hon

theorem Apart.moved {reference : Int} (h : Apart env.id t t')
    (hmoved : Moved p t' t'' monitor env reference) : Moved p t t'' monitor env reference where
  monitors := hmoved.monitors.trans h.monitors
  cronsOff := hmoved.cronsOff.trans h.cronsOff
  environment := hmoved.environment
  off hoff := by
    rw [← h.cronsOff] at hoff
    rw [← h.checkins]
    exact hmoved.off hoff
  missed hon := by
    rw [← h.cronsOff] at hon
    rw [← h.checkins]
    exact hmoved.missed hon

theorem lookup_setEnvironment {f : Environment → Environment} (hid : ∀ e, (f e).id = e.id) :
    lookup Environment.id id (t.setEnvironment environmentId f).environments =
      if id = environmentId then (lookup Environment.id id t.environments).map f
      else lookup Environment.id id t.environments :=
  lookup_modify hid

theorem lookup_updateEnvironment {config : MonitorConfig} {reference : Int}
    (henv : lookup Environment.id env.id t.environments = some env) :
    lookup Environment.id env.id
      (updateEnvironment p t env config env.lastCheckin reference none).environments =
        some (env.rescheduled p config reference) := by
  rw [updateEnvironment, lookup_setEnvironment, if_pos rfl, henv]
  · rfl
  · exact fun _ => rfl

theorem lookup_markFailed {found : Environment} {reason : FailureReason}
    (hfound : lookup Environment.id id t.environments = some found) :
    ∃ status, lookup Environment.id id (markFailed p t monitor env row reason).1.environments =
      some { found with status } := by
  rw [markFailed_tables]
  split_ifs
  · rw [lookup_setEnvironment, hfound]
    · by_cases hid : id = env.id
      · exact ⟨.error, if_pos hid⟩
      · exact ⟨found.status, if_neg hid⟩
    · exact fun _ => rfl
  · exact ⟨found.status, hfound⟩

theorem cronsOff_markFailed {reason : FailureReason} :
    (markFailed p t monitor env row reason).1.cronsOff = t.cronsOff := by
  rw [markFailed_tables]
  split_ifs
  · rfl
  · rfl

theorem Found.reload (h : Found t monitor env) : t.reloadEnvironment env.id = .ok env := by
  rw [Tables.reloadEnvironment, h.environment]
  rfl

theorem Found.load (h : Found t monitor env) : t.loadMonitor env.monitorId = .ok monitor := by
  rw [Tables.loadMonitor, h.monitor]
  rfl

/-- An environment that is not late is left as it is. -/
theorem sweepMissed_early (hfound : Found t monitor env)
    (hearly : ∀ expected latest, env.nextCheckin = some expected →
      env.nextCheckinLatest = some latest → now < latest) :
    sweepMissed p t env.id now = .ok (t, []) := by
  unfold sweepMissed
  rw [hfound.reload]
  cases hexpected : env.nextCheckin with
  | none => simp [bind, Except.bind, hexpected, pure, Except.pure]
  | some expected =>
      cases hlatest : env.nextCheckinLatest with
      | none => simp [bind, Except.bind, hexpected, hlatest, pure, Except.pure]
      | some latest =>
          simp [bind, Except.bind, hexpected, hlatest, hearly expected latest hexpected hlatest,
            pure, Except.pure]

section Late

variable (hfound : Found t monitor env) (hexpected : env.nextCheckin = some expected)
  (hlatest : env.nextCheckinLatest = some latest) (hlate : latest ≤ now)

include hfound hexpected hlatest hlate

theorem sweepMissed_off (hoff : monitor.projectId ∈ t.cronsOff) :
    sweepMissed p t env.id now = .ok (updateEnvironment p t env monitor.config env.lastCheckin
      (monitor.config.prevCheckin p.clocks expected now) none, []) := by
  unfold sweepMissed
  rw [hfound.reload]
  simp [bind, Except.bind, hexpected, hlatest, not_lt.mpr hlate, hfound.load, hoff, pure,
    Except.pure]

theorem sweepMissed_on (hon : monitor.projectId ∉ t.cronsOff) {t₁ : Tables}
    (ht₁ : t₁ = updateEnvironment p (t.insertCheckin (missedCheckin t monitor env expected)
      (t.drawn + 2)) env monitor.config env.lastCheckin
      (monitor.config.prevCheckin p.clocks expected now) none)
    {env₁ : Environment} (henv₁ : t₁.reloadEnvironment env.id = .ok env₁) :
    sweepMissed p t env.id now =
      .ok (markFailed p t₁ monitor env₁ (missedCheckin t monitor env expected) .missed) := by
  rw [ht₁] at henv₁ ⊢
  unfold sweepMissed
  rw [hfound.reload]
  simp [bind, Except.bind, hexpected, hlatest, not_lt.mpr hlate, hfound.load, hon, pure,
    Except.pure, henv₁]

/-- One that is late moves on to the slot after the last one before now. -/
theorem sweepMissed_late : ∃ outcome, sweepMissed p t env.id now = .ok outcome ∧
    Moved p t outcome.1 monitor env (monitor.config.prevCheckin p.clocks expected now) ∧
      (monitor.projectId ∈ t.cronsOff → outcome.2 = []) := by
  by_cases hoff : monitor.projectId ∈ t.cronsOff
  · have hlookup : lookup Environment.id env.id (updateEnvironment p t env monitor.config
        env.lastCheckin (monitor.config.prevCheckin p.clocks expected now) none).environments =
          some (env.rescheduled p monitor.config
            (monitor.config.prevCheckin p.clocks expected now)) :=
      lookup_updateEnvironment hfound.environment
    refine ⟨_, sweepMissed_off hfound hexpected hlatest hlate hoff, ?_, fun _ => rfl⟩
    exact
      { monitors := rfl
        cronsOff := rfl
        environment := ⟨env.status, hlookup⟩
        off := fun _ => ⟨rfl, hlookup⟩
        missed := absurd hoff }
  · generalize ht₁ : updateEnvironment p (t.insertCheckin (missedCheckin t monitor env expected)
      (t.drawn + 2)) env monitor.config env.lastCheckin
      (monitor.config.prevCheckin p.clocks expected now) none = t₁
    have hlookup : lookup Environment.id env.id t₁.environments =
        some (env.rescheduled p monitor.config
          (monitor.config.prevCheckin p.clocks expected now)) := by
      rw [← ht₁]
      exact lookup_updateEnvironment hfound.environment
    have hreload : t₁.reloadEnvironment env.id = .ok (env.rescheduled p monitor.config
        (monitor.config.prevCheckin p.clocks expected now)) := by
      rw [Tables.reloadEnvironment, hlookup]
      rfl
    have hbeside : ∀ env₁, Beside t₁ (markFailed p t₁ monitor env₁
        (missedCheckin t monitor env expected) .missed).1 :=
      fun env₁ => beside_markFailed t₁ monitor env₁ _ _
    refine ⟨_, sweepMissed_on hfound hexpected hlatest hlate hoff ht₁.symm hreload, ?_,
      fun hoff' => absurd hoff' hoff⟩
    exact
      { monitors := by
          rw [(hbeside _).monitors, ← ht₁]
          rfl
        cronsOff := by
          rw [cronsOff_markFailed, ← ht₁]
          rfl
        environment := lookup_markFailed hlookup
        off := fun hoff' => absurd hoff' hoff
        missed := by
          intro _
          refine ⟨missedCheckin t monitor env expected, ?_⟩
          rw [Tables.checkinsOf, (hbeside _).checkins, ← ht₁]
          simp [updateEnvironment, Tables.setEnvironment, Tables.insertCheckin, Tables.checkinsOf,
            missedCheckin] }

end Late

/-! ## All turns -/

/-- The first half of `markLate`. -/
def markMissed (p : Platform) (t : Tables) (now : Int) : Tables × List MonitorFailure :=
  (dueEnvironments t now).foldl (sweepEach (sweepMissed p · · now)) (t, [])

/-- An environment has its turn once, and the rows of others come before and after it. -/
theorem markMissed_split (hsound : Sound p t) (hmem : id ∈ dueEnvironments t now) :
    ∃ (before : Tables × List MonitorFailure) (rest : List Uuid), Apart id t before.1 ∧ Silent id before.2 ∧ id ∉ rest ∧
      markMissed p t now =
        rest.foldl (sweepEach (sweepMissed p · · now))
          (sweepEach (sweepMissed p · · now) before id) := by
  have hnodup : (dueEnvironments t now).Nodup :=
    hsound.environmentIds.sublist (List.filter_sublist.map _)
  obtain ⟨first, rest, hsplit⟩ := List.append_of_mem hmem
  rw [hsplit, List.nodup_append] at hnodup
  obtain ⟨-, hrest, hdisjoint⟩ := hnodup
  have hfirst : id ∉ first := fun hid => hdisjoint id hid id List.mem_cons_self rfl
  refine ⟨first.foldl (sweepEach (sweepMissed p · · now)) (t, []), rest,
    apart_sweepMissed hfirst (.refl id t), silent_sweepMissed hfirst (by simp [Silent]),
    (List.nodup_cons.mp hrest).1, ?_⟩
  rw [markMissed, hsplit, List.foldl_append]
  rfl

theorem markMissed_apart_of_early (hsound : Sound p t) (hfound : Found t monitor env)
    (hearly : ∀ expected latest, env.nextCheckin = some expected →
      env.nextCheckinLatest = some latest → now < latest) :
    Apart env.id t (markMissed p t now).1 ∧ Silent env.id (markMissed p t now).2 := by
  by_cases hmem : env.id ∈ dueEnvironments t now
  · obtain ⟨before, rest, hapart, hsilent, hrest, hsplit⟩ := markMissed_split hsound hmem
    have hok : sweepMissed p before.1 env.id now = .ok (before.1, []) :=
      sweepMissed_early (hfound.apart hapart) hearly
    have hturn : sweepEach (sweepMissed p · · now) before env.id = before := by
      simp only [sweepEach, hok, List.append_nil]
    rw [hsplit, hturn]
    exact ⟨apart_sweepMissed hrest hapart, silent_sweepMissed hrest hsilent⟩
  · exact ⟨apart_sweepMissed hmem (.refl env.id t), silent_sweepMissed hmem (by simp [Silent])⟩

theorem markMissed_moved (hsound : Sound p t) (hready : Ready t monitor env)
    (hexpected : env.nextCheckin = some expected) (hlatest : env.nextCheckinLatest = some latest)
    (hlate : latest ≤ now) :
    Moved p t (markMissed p t now).1 monitor env
        (monitor.config.prevCheckin p.clocks expected now) ∧
      (monitor.projectId ∈ t.cronsOff → Silent env.id (markMissed p t now).2) := by
  have hfound := hready.found hsound
  have hmem : env.id ∈ dueEnvironments t now := by
    refine List.mem_map_of_mem (List.mem_filter.mpr ⟨hready.mem_environments, ?_⟩)
    simp [hlatest, hlate, hfound.monitor]
  obtain ⟨before, rest, hapart, hsilent, hrest, hsplit⟩ := markMissed_split hsound hmem
  obtain ⟨outcome, hok, hmoved, hquiet⟩ :
      ∃ outcome, sweepMissed p before.1 env.id now = .ok outcome ∧
        Moved p before.1 outcome.1 monitor env (monitor.config.prevCheckin p.clocks expected now) ∧
          (monitor.projectId ∈ before.1.cronsOff → outcome.2 = []) :=
    sweepMissed_late (hfound.apart hapart) hexpected hlatest hlate
  have hturn : sweepEach (sweepMissed p · · now) before env.id =
      (outcome.1, before.2 ++ outcome.2) := by
    simp only [sweepEach, hok]
  rw [hsplit, hturn]
  refine ⟨(hapart.moved hmoved).apart (apart_sweepMissed hrest (.refl env.id outcome.1)),
    fun hoff => silent_sweepMissed hrest ?_⟩
  rw [← hapart.cronsOff] at hoff
  rw [hquiet hoff]
  exact hsilent.append (by simp [Silent])

/-! ## Timeouts and deletions -/

/-- A run that is to be timed out. -/
def CheckInRow.Late (c : CheckInRow) (now : Int) : Prop :=
  c.status = .inProgress ∧ ∃ timeoutAt ∈ c.timeoutAt, timeoutAt ≤ now

theorem mem_openCheckins :
    id ∈ openCheckins t now ↔ ∃ c ∈ t.checkins, c.Late now ∧ c.id = id := by
  simp [openCheckins, CheckInRow.Late, Option.any_eq_true, and_assoc]

theorem filter_late (c : CheckInRow) :
    (c.status = .inProgress && c.timeoutAt.any (· ≤ now)) = true ↔ c.Late now := by
  simp [CheckInRow.Late, Option.any_eq_true]

/-- The monitor and the environment of a check-in are there. -/
theorem Sound.owner (h : Sound p t) (hrow : row ∈ t.checkins) :
    (∃ monitor, t.loadMonitor row.monitorId = .ok monitor) ∧
      ∃ env, t.reloadEnvironment row.environmentId = .ok env := by
  obtain ⟨env, henv, hkey⟩ := List.mem_map.mp (h.checkinEnvironment row hrow)
  obtain ⟨henvId, hmonitorId⟩ := Prod.mk.inj hkey
  obtain ⟨monitor, hmonitor, hof⟩ := List.mem_map.mp (h.environmentMonitor env henv)
  have hready : Ready t monitor env := ⟨hmonitor, henv, hof.symm⟩
  rw [← henvId, ← hmonitorId]
  exact ⟨⟨monitor, (hready.found h).load⟩, env, (hready.found h).reload⟩

/-- A run that is late is timed out when its turn comes, and no other is late after that which
was not before. -/
theorem sweepTimeout_late (hsound : Sound p t) (checkinId : Uuid) (now : Int) :
    ∃ outcome, sweepTimeout p t checkinId now = .ok outcome ∧
      ∀ c ∈ outcome.1.checkins, c.Late now → c ∈ t.checkins ∧ c.id ≠ checkinId := by
  unfold sweepTimeout
  split
  · next hnone =>
      refine ⟨(t, []), rfl, fun c hc hlate => ⟨hc, fun hid => ?_⟩⟩
      have hlookup := lookup_of_mem hsound.checkinIds hc
      rw [hid] at hlookup
      rw [hlookup, Option.filter_some, if_pos ((filter_late c).mpr hlate)] at hnone
      cases hnone
  · next found hfound =>
      obtain ⟨hlookup, -⟩ := Option.filter_eq_some_iff.mp hfound
      have hmem := mem_of_lookup hlookup
      have hid := key_of_lookup hlookup
      have hleft : ∀ c ∈ (t.updateCheckin { found with status := .timeout }).checkins,
          c.Late now → c ∈ t.checkins ∧ c.id ≠ checkinId := by
        intro c hc hlate
        rcases mem_updateCheckin hc with rfl | ⟨hold, hne⟩
        · cases hlate.1
        · exact ⟨hold, hid ▸ hne⟩
      obtain ⟨⟨monitor, hload⟩, env, hreload⟩ := hsound.owner hmem
      have hload' : (t.updateCheckin { found with status := .timeout }).loadMonitor
          found.monitorId = .ok monitor := hload
      have hreload' : (t.updateCheckin { found with status := .timeout }).reloadEnvironment
          found.environmentId = .ok env := hreload
      dsimp only
      split_ifs with hquiet
      · exact ⟨_, rfl, hleft⟩
      · rw [hload', hreload']
        refine ⟨_, rfl, ?_⟩
        rw [(beside_markFailed _ _ _ _ _).checkins]
        exact hleft

/-- No run is left that is to be timed out. -/
def NoneLate (t : Tables) (now : Int) : Prop := ∀ c ∈ t.checkins, ¬c.Late now

/-- The runs that are late become fewer with each turn. -/
theorem noneLate_sweepTimeout {ids : List Uuid} {swept : Tables × List MonitorFailure}
    (hsound : Sound p swept.1) (hids : ∀ c ∈ swept.1.checkins, c.Late now → c.id ∈ ids) :
    NoneLate (ids.foldl (sweepEach (sweepTimeout p · · now)) swept).1 now := by
  induction ids generalizing swept with
  | nil => exact fun c hc hlate => List.not_mem_nil (hids c hc hlate)
  | cons id ids ih =>
      obtain ⟨outcome, hok, hleft⟩ := sweepTimeout_late hsound id now
      have hturn : sweepEach (sweepTimeout p · · now) swept id =
          (outcome.1, swept.2 ++ outcome.2) := by
        simp only [sweepEach, hok]
      rw [List.foldl_cons, hturn]
      apply ih
      · exact (sweepTimeout_spec hok).sound hsound
      · intro c hc hlate
        obtain ⟨hold, hne⟩ := hleft c hc hlate
        exact (List.mem_cons.mp (hids c hold hlate)).resolve_left hne

/-- A missed check-in has never been in progress. -/
theorem NoneLate.sweepMissed (h : NoneLate t now)
    (hsweeps : SweepsMissed p t environmentId now t' failures) : NoneLate t' now := by
  cases hsweeps with
  | idle => exact h
  | off => exact h
  | missed hready henv hexpected hlatest hdue hon hmoved hreload =>
      intro c hc hlate
      rw [(beside_markFailed _ _ _ _ _).checkins, hmoved] at hc
      rcases List.mem_append.mp hc with hold | hnew
      · exact h c hold hlate
      · rw [List.mem_singleton.mp hnew] at hlate
        cases hlate.1

/-- Without a run to time out, the second half of `markLate` does nothing. -/
theorem markLate_eq_of_noneLate (h : NoneLate t now) : markLate p t now = markMissed p t now := by
  have hnone : NoneLate (markMissed p t now).1 now :=
    sweepEach_invariant (fun swept => NoneLate swept.1 now) h
      fun id _ swept t' found hswept hok => hswept.sweepMissed (sweepMissed_spec hok)
  have hopen : openCheckins (markMissed p t now).1 now = [] := by
    apply List.eq_nil_iff_forall_not_mem.mpr
    intro id hid
    obtain ⟨c, hc, hlate, -⟩ := mem_openCheckins.mp hid
    exact hnone c hc hlate
  show (openCheckins (markMissed p t now).1 now).foldl (sweepEach (sweepTimeout p · · now))
    (markMissed p t now) = markMissed p t now
  rw [hopen]
  rfl

/-- An environment keeps its schedule, and may get another status. -/
structure Rests (id : Uuid) (t t' : Tables) : Prop where
  monitors : t'.monitors = t.monitors
  cronsOff : t'.cronsOff = t.cronsOff
  environment : ∀ env, lookup Environment.id id t.environments = some env →
    ∃ status, lookup Environment.id id t'.environments = some { env with status }

theorem Rests.refl (id : Uuid) (t : Tables) : Rests id t t :=
  ⟨rfl, rfl, fun env henv => ⟨env.status, henv⟩⟩

theorem Rests.trans (h : Rests id t t') (h' : Rests id t' t'') : Rests id t t'' where
  monitors := h'.monitors.trans h.monitors
  cronsOff := h'.cronsOff.trans h.cronsOff
  environment env henv := by
    obtain ⟨status, hstatus⟩ := h.environment env henv
    exact h'.environment { env with status } hstatus

theorem Apart.rests (h : Apart id t t') : Rests id t t' :=
  ⟨h.monitors, h.cronsOff, fun env henv => ⟨env.status, h.environment.trans henv⟩⟩

theorem rests_updateCheckin : Rests id t (t.updateCheckin row) :=
  ⟨rfl, rfl, fun env henv => ⟨env.status, henv⟩⟩

theorem rests_markFailed {reason : FailureReason} :
    Rests id t (markFailed p t monitor env row reason).1 where
  monitors := (beside_markFailed t monitor env row reason).monitors
  cronsOff := cronsOff_markFailed
  environment _ hfound := lookup_markFailed hfound

theorem SweepsTimeout.rests (h : SweepsTimeout p t checkinId now t' failures) : Rests id t t' := by
  cases h with
  | idle => exact .refl id t
  | silent => exact rests_updateCheckin
  | failed => exact rests_updateCheckin.trans rests_markFailed

/-- What comes after the missed check-ins of a sweep. -/
structure Swept (p : Platform) (t t' : Tables) (id : Uuid) (now : Int) : Prop where
  sound : Sound p t'
  rests : Rests id (markMissed p t now).1 t'
  noneLate : NoneLate t' now

theorem Sound.swept (h : Sound p t) (id : Uuid) (now : Int) :
    Swept p t (sweep p t now).1 id (truncateToMinute now) := by
  generalize hminute : truncateToMinute now = minute
  have hmissed : Sound p (markMissed p t minute).1 :=
    sweepEach_invariant (fun swept => Sound p swept.1) h
      fun id _ swept t' found hswept hok => (sweepMissed_spec hok).sound hswept
  have hmarked : Sound p (markLate p t minute).1 ∧
      Rests id (markMissed p t minute).1 (markLate p t minute).1 := by
    refine sweepEach_invariant (fun swept => Sound p swept.1 ∧
      Rests id (markMissed p t minute).1 swept.1) ⟨hmissed, .refl _ _⟩ ?_
    intro other _ swept t' found hswept hok
    have hsweeps := sweepTimeout_spec hok
    exact ⟨hsweeps.sound hswept.1, hswept.2.trans hsweeps.rests⟩
  have hnone : NoneLate (markLate p t minute).1 minute := by
    apply noneLate_sweepTimeout hmissed
    intro c hc hlate
    exact mem_openCheckins.mpr ⟨c, hc, hlate, rfl⟩
  have hsweep : (sweep p t now).1 = deleteExpired p (markLate p t minute).1 minute := by
    rw [← hminute]
    rfl
  rw [hsweep]
  exact
    { sound := hmarked.1.filterCheckins _
      rests := hmarked.2.trans ⟨rfl, rfl, fun found hfound => ⟨found.status, hfound⟩⟩
      noneLate := fun c hc => hnone c (List.mem_of_mem_filter hc) }

end Rustrak.Monitors
