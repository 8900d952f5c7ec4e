import Rustrak.Monitors.Store
import Rustrak.Scheduler.Engine

/-!
# One run a slot

No job runs twice at a time, and no slot is run twice, whatever happens between the statements
of a tick.  A slot that was started lies before the next one of its row (`Sound.next`), since
the next one is counted from the minute of the tick, and before the minute of any later tick;
so a slot that is due has not been started.
-/

namespace Rustrak.Scheduler

open Rustrak.Monitors Rustrak.Transition

variable {croner : Croner} {Settings : Type*} {jobs : List (ScheduledJob croner Settings)}
  {empty : Settings} {e e' : Engine croner Settings} {label : EngineLabel Settings}
  {labels : List (EngineLabel Settings)} {key : String} {t : Int}

/-- The slot comes from the schedule that the settings ask for. -/
def IsSlot (jobs : List (ScheduledJob croner Settings)) (key : String) (settings : Settings)
    (slot : Int) : Prop :=
  ∃ job ∈ jobs, job.key = key ∧ ∃ schedule tz reference,
    job.schedule settings = some (schedule, tz) ∧ slot = schedule.nextAfter croner reference tz

/-- The slots of the job that were started are before. -/
def Engine.Before (e : Engine croner Settings) (key : String) (t : Int) : Prop :=
  ∀ slot, (key, slot) ∈ e.started → slot < t

/-- What a tick at `now` relies on when it has a write in hand. -/
def WriteOk (jobs : List (ScheduledJob croner Settings)) (e : Engine croner Settings) (now : Int)
    (key : String) (settings : Settings) : Write → Prop
  | .setNextRun next => ∀ slot ∈ next, IsSlot jobs key settings slot ∧ now < slot
  | .claim due next => IsSlot jobs key settings next ∧ now < next ∧ due ≤ now ∧
      key ∉ e.running ∧ e.Before key due

def StageOk (jobs : List (ScheduledJob croner Settings)) (e : Engine croner Settings) (now : Int) :
    TickStage Settings → List (ScheduledJob croner Settings) → Prop
  | .reading, _ => True
  | .writing settings write, rest =>
      ∀ job ∈ rest.head?, WriteOk jobs e now job.key settings write
  | .spawning _ due, rest => ∀ job ∈ rest.head?,
      due ≤ now ∧ job.key ∉ e.running ∧ e.Before job.key due ∧
        ∀ row ∈ e.rows job.key, ∀ next ∈ row.nextRunAt, due < next

structure TickOk (jobs : List (ScheduledJob croner Settings)) (e : Engine croner Settings)
    (tick : Tick croner Settings) : Prop where
  whole : truncateToMinute tick.now = tick.now
  reached : tick.now ≤ e.clock
  past : ∀ run ∈ e.started, run.2 ≤ tick.now
  known : ∀ job ∈ tick.jobs, job ∈ jobs
  stage : StageOk jobs e tick.now tick.stage tick.jobs

structure Sound (jobs : List (ScheduledJob croner Settings)) (e : Engine croner Settings) : Prop where
  running : ∀ key, key ∈ e.running ↔ key ∈ e.tasks.map Task.key
  tasks : (e.tasks.map Task.key).Nodup
  started : e.started.Nodup
  past : ∀ run ∈ e.started, run.2 ≤ truncateToMinute e.clock
  next : ∀ key, ∀ row ∈ e.rows key, ∀ slot ∈ row.nextRunAt,
    IsSlot jobs key row.settings slot ∧ e.Before key slot
  tick : ∀ tick ∈ e.tick, TickOk jobs e tick

/-! ## What a tick decides -/

theorem writeOk_of_plan {job : ScheduledJob croner Settings} {row : JobRow Settings} {now : Int}
    {busy : Bool} {write : Write} (hjob : job ∈ jobs) (hwhole : truncateToMinute now = now)
    (hnext : ∀ slot ∈ row.nextRunAt, e.Before job.key slot) (hidle : busy = false → job.key ∉ e.running)
    (h : job.plan row now busy = some write) : WriteOk jobs e now job.key row.settings write := by
  unfold ScheduledJob.plan at h
  cases hschedule : job.schedule row.settings with
  | none =>
      rw [hschedule] at h
      obtain ⟨-, hwrite⟩ := Option.ite_none_right_eq_some.mp h
      obtain rfl := Option.some.inj hwrite
      exact nofun
  | some timing =>
      obtain ⟨schedule, tz⟩ := timing
      rw [hschedule] at h
      have hslot : IsSlot jobs job.key row.settings (schedule.nextAfter croner now tz) :=
        ⟨job, hjob, rfl, schedule, tz, now, hschedule, rfl⟩
      have hlater := job.later hschedule now hwhole
      have hset : WriteOk jobs e now job.key row.settings
          (.setNextRun (some (schedule.nextAfter croner now tz))) := by
        rintro slot hmem
        obtain rfl := Option.some.inj hmem
        exact ⟨hslot, hlater⟩
      cases hdue : row.nextRunAt with
      | none =>
          simp only [hdue] at h
          obtain rfl := Option.some.inj h
          exact hset
      | some due =>
          simp only [hdue] at h
          split_ifs at h with hwait hlate
          · obtain rfl := Option.some.inj h
            exact hset
          · obtain rfl := Option.some.inj h
            simp only [gt_iff_lt, Bool.or_eq_true, decide_eq_true_eq, not_or, not_lt,
              Bool.not_eq_true] at hwait
            exact ⟨hslot, hlater, hwait.1, hidle hwait.2, hnext due hdue⟩

/-! ## Steps -/

theorem Sound.fresh (jobs : List (ScheduledJob croner Settings)) (clock : Int) :
    Sound jobs (.fresh croner Settings clock) where
  running := by simp [Engine.fresh]
  tasks := List.nodup_nil
  started := List.nodup_nil
  past := by simp [Engine.fresh]
  next := by simp [Engine.fresh]
  tick := by simp [Engine.fresh]

theorem isSlot_of_row (h : Sound jobs e) {row : JobRow Settings} {slot : Int}
    (hrow : row = e.ensure empty key) (hslot : slot ∈ row.nextRunAt) :
    IsSlot jobs key row.settings slot ∧ e.Before key slot := by
  unfold Engine.ensure at hrow
  cases hold : e.rows key with
  | none =>
      rw [hold] at hrow
      subst hrow
      contradiction
  | some old =>
      rw [hold] at hrow
      subst hrow
      exact h.next key _ hold slot hslot

/-- A row is written, with a slot that is one of its settings. -/
theorem Sound.save (h : Sound jobs e) {row : JobRow Settings} {tick : Option (Tick croner Settings)}
    (hrow : ∀ slot ∈ row.nextRunAt, IsSlot jobs key row.settings slot ∧ e.Before key slot)
    (htick : ∀ t ∈ tick, TickOk jobs (e.save key row) t) :
    Sound jobs { e.save key row with tick } where
  running := h.running
  tasks := h.tasks
  started := h.started
  past := h.past
  next := by
    intro other row' hrow' slot hslot
    by_cases hsame : other = key
    · subst hsame
      obtain rfl : row = row' := by simpa [Engine.save] using hrow'
      exact hrow slot hslot
    · have hold : row' ∈ e.rows other := by simpa [Engine.save, hsame] using hrow'
      exact h.next other row' hold slot hslot
  tick := fun t ht =>
    let hok := htick t ht
    ⟨hok.whole, hok.reached, hok.past, hok.known, hok.stage⟩

/-- The tick goes on to another stage. -/
theorem Sound.goOn (h : Sound jobs e) {tick : Option (Tick croner Settings)}
    (htick : ∀ t ∈ tick, TickOk jobs e t) : Sound jobs { e with tick } :=
  ⟨h.running, h.tasks, h.started, h.past, h.next, fun t ht =>
    let hok := htick t ht
    ⟨hok.whole, hok.reached, hok.past, hok.known, hok.stage⟩⟩

/-- The next job. -/
theorem TickOk.next {now : Int} {job : ScheduledJob croner Settings}
    {rest : List (ScheduledJob croner Settings)} {stage : TickStage Settings}
    (h : TickOk jobs e ⟨now, job :: rest, stage⟩) : TickOk jobs e ⟨now, rest, .reading⟩ :=
  ⟨h.whole, h.reached, h.past, fun job hjob => h.known job (List.mem_cons_of_mem _ hjob), trivial⟩

theorem Sound.read [DecidableEq Settings] (h : Sound jobs e) {now : Int}
    {job : ScheduledJob croner Settings} {rest : List (ScheduledJob croner Settings)}
    (htick : e.tick = some ⟨now, job :: rest, .reading⟩) (busy : Bool) :
    Sound jobs { e.save job.key (e.ensure empty job.key) with
      tick := some (match job.plan (e.ensure empty job.key) now (job.key ∈ e.running || busy) with
        | none => ⟨now, rest, .reading⟩
        | some write => ⟨now, job :: rest, .writing (e.ensure empty job.key).settings write⟩) } := by
  have hok := h.tick _ htick
  refine h.save (fun slot hslot => isSlot_of_row h rfl hslot) fun t ht => ?_
  obtain rfl := Option.some.inj ht
  cases hplan : job.plan (e.ensure empty job.key) now (job.key ∈ e.running || busy) with
  | none => exact ⟨hok.whole, hok.reached, hok.past, hok.next.known, trivial⟩
  | some write =>
      refine ⟨hok.whole, hok.reached, hok.past, hok.known, fun head hhead => ?_⟩
      obtain rfl := Option.some.inj hhead
      refine writeOk_of_plan (hok.known job (List.mem_cons_self ..)) hok.whole
        (fun slot hslot => (isSlot_of_row h rfl hslot).2) (fun hbusy => ?_) hplan
      exact of_decide_eq_false (Bool.or_eq_false_iff.mp hbusy).1

theorem Sound.write [DecidableEq Settings] (h : Sound jobs e) {now : Int}
    {job : ScheduledJob croner Settings} {rest : List (ScheduledJob croner Settings)}
    {settings : Settings} {write : Write} {row : JobRow Settings}
    (htick : e.tick = some ⟨now, job :: rest, .writing settings write⟩)
    (hsettings : row.settings = settings) :
    Sound jobs { e.save job.key (write.apply now row) with
      tick := some (write.tick now job rest settings) } := by
  have hok := h.tick _ htick
  have hwrite : WriteOk jobs e now job.key settings write := hok.stage job rfl
  have hbefore : ∀ slot, now < slot → e.Before job.key slot :=
    fun slot hslot run hrun => (hok.past _ hrun).trans_lt hslot
  subst hsettings
  cases write with
  | setNextRun next =>
      refine h.save (fun slot hslot => ?_) fun t ht => ?_
      · obtain ⟨hslot, hlater⟩ := hwrite slot hslot
        exact ⟨hslot, hbefore slot hlater⟩
      · obtain rfl := Option.some.inj ht
        exact ⟨hok.whole, hok.reached, hok.past, hok.next.known, trivial⟩
  | claim due next =>
      obtain ⟨hslot, hlater, hdue, hidle, hfirst⟩ := hwrite
      refine h.save (fun slot hmem => ?_) fun t ht => ?_
      · obtain rfl := Option.some.inj hmem
        exact ⟨hslot, hbefore next hlater⟩
      · obtain rfl := Option.some.inj ht
        refine ⟨hok.whole, hok.reached, hok.past, hok.known, fun head hhead => ?_⟩
        obtain rfl := Option.some.inj hhead
        refine ⟨hdue, hidle, hfirst, fun row' hrow' slot hmem => ?_⟩
        obtain rfl : (Write.claim due next).apply now row = row' := by
          simpa [Engine.save] using hrow'
        obtain rfl := Option.some.inj hmem
        exact hdue.trans_lt hlater

theorem Sound.spawn (h : Sound jobs e) {now due : Int}
    {job : ScheduledJob croner Settings} {rest : List (ScheduledJob croner Settings)}
    {settings : Settings} (htick : e.tick = some ⟨now, job :: rest, .spawning settings due⟩) :
    Sound jobs { e with
      running := insert job.key e.running
      tasks := e.tasks ++ [⟨job.key, settings, due, now⟩]
      started := e.started ++ [(job.key, due)]
      tick := some ⟨now, rest, .reading⟩ } := by
  have hok := h.tick _ htick
  obtain ⟨hdue, hidle, hfirst, hnext⟩ := hok.stage job rfl
  have hnew : (job.key, due) ∉ e.started := fun hmem => (hfirst due hmem).false
  have hpast : due ≤ truncateToMinute e.clock :=
    hdue.trans ((le_truncateToMinute_iff hok.whole).mpr hok.reached)
  refine ⟨fun key => ?_, ?_, ?_, fun run hrun => ?_, fun key row hrow slot hslot => ?_, fun t ht => ?_⟩
  · simp [h.running key, or_comm]
  · rw [List.map_append, List.map_singleton]
    exact List.nodup_append.mpr ⟨h.tasks, List.nodup_singleton _, by
      rintro _ hkey _ hlast rfl
      rw [List.mem_singleton.mp hlast] at hkey
      exact hidle ((h.running _).mpr hkey)⟩
  · exact List.nodup_append.mpr ⟨h.started, List.nodup_singleton _, by
      rintro _ hrun _ hlast rfl
      rw [List.mem_singleton.mp hlast] at hrun
      exact hnew hrun⟩
  · rcases List.mem_append.mp hrun with hold | hlast
    · exact h.past run hold
    · rw [List.mem_singleton.mp hlast]
      exact hpast
  · obtain ⟨hisSlot, hbefore⟩ := h.next key row hrow slot hslot
    refine ⟨hisSlot, fun other hother => ?_⟩
    rcases List.mem_append.mp hother with hold | hlast
    · exact hbefore other hold
    · obtain ⟨rfl, rfl⟩ := Prod.mk.inj (List.mem_singleton.mp hlast)
      exact hnext row hrow slot hslot
  · obtain rfl := Option.some.inj ht
    refine ⟨hok.whole, hok.reached, fun run hrun => ?_, hok.next.known, trivial⟩
    rcases List.mem_append.mp hrun with hold | hlast
    · exact hok.past run hold
    · rw [List.mem_singleton.mp hlast]
      exact hdue

theorem Sound.finish (h : Sound jobs e) {i : Nat} {task : Task Settings}
    (hi : e.tasks[i]? = some task) :
    Sound jobs { e with running := e.running.erase task.key, tasks := e.tasks.eraseIdx i } := by
  obtain ⟨hlength, hget⟩ := List.getElem?_eq_some_iff.mp hi
  have hkeys : (e.tasks.eraseIdx i).map Task.key = (e.tasks.map Task.key).erase task.key := by
    have herase := h.tasks.erase_getElem i (by simpa using hlength)
    rw [List.getElem_map, hget] at herase
    rw [herase, List.eraseIdx_map]
  refine ⟨fun key => ?_, ?_, h.started, h.past, h.next, fun t ht => ?_⟩
  · rw [hkeys, h.tasks.mem_erase_iff, Finset.mem_erase, h.running key]
  · rw [hkeys]
    exact h.tasks.erase _
  · have hok := h.tick t ht
    refine ⟨hok.whole, hok.reached, hok.past, hok.known, ?_⟩
    have hfree : ∀ {key : String}, key ∉ e.running → key ∉ e.running.erase task.key :=
      fun hkey hmem => hkey (Finset.mem_of_mem_erase hmem)
    have hstage := hok.stage
    cases hcase : t.stage with
    | reading => trivial
    | writing settings write =>
        rw [hcase] at hstage
        intro job hjob
        have hwrite := hstage job hjob
        cases write with
        | setNextRun next => exact hwrite
        | claim due next => exact ⟨hwrite.1, hwrite.2.1, hwrite.2.2.1, hfree hwrite.2.2.2.1, hwrite.2.2.2.2⟩
    | spawning settings due =>
        rw [hcase] at hstage
        intro job hjob
        obtain ⟨hdue, hidle, hrest⟩ := hstage job hjob
        exact ⟨hdue, hfree hidle, hrest⟩

theorem Sound.updateSettings (h : Sound jobs e) (key : String) {row : JobRow Settings}
    (hnone : row.nextRunAt = none) : Sound jobs (e.save key row) := by
  have htick : ∀ t ∈ e.tick, TickOk jobs (e.save key row) t := by
    intro t ht
    have hok := h.tick t ht
    refine ⟨hok.whole, hok.reached, hok.past, hok.known, ?_⟩
    have hstage := hok.stage
    cases hcase : t.stage with
    | reading => trivial
    | writing settings write =>
        rw [hcase] at hstage
        exact hstage
    | spawning settings due =>
        rw [hcase] at hstage
        intro job hjob
        obtain ⟨hdue, hidle, hfirst, hnext⟩ := hstage job hjob
        refine ⟨hdue, hidle, hfirst, fun row' hrow' next hmem => ?_⟩
        by_cases hsame : job.key = key
        · obtain rfl : row = row' := by simpa [Engine.save, hsame] using hrow'
          rw [hnone] at hmem
          contradiction
        · have hold : row' ∈ e.rows job.key := by simpa [Engine.save, hsame] using hrow'
          exact hnext row' hold next hmem
  refine h.save ?_ htick
  rw [hnone]
  exact nofun

theorem Sound.wait (h : Sound jobs e) (time : Nat) :
    Sound jobs { e with clock := e.clock + time } := by
  have hclock : truncateToMinute e.clock ≤ truncateToMinute (e.clock + time) := by
    refine (le_truncateToMinute_iff (truncateToMinute_truncateToMinute e.clock)).mpr ?_
    have hle := truncateToMinute_le e.clock
    omega
  refine ⟨h.running, h.tasks, h.started, fun run hrun => (h.past run hrun).trans hclock, h.next,
    fun t ht => ?_⟩
  have hok := h.tick t ht
  refine ⟨hok.whole, ?_, hok.past, hok.known, hok.stage⟩
  have hreached := hok.reached
  show t.now ≤ e.clock + time
  omega

theorem Sound.beginTick (h : Sound jobs e) :
    Sound jobs { e with tick := some ⟨truncateToMinute e.clock, jobs, .reading⟩ } := by
  refine h.goOn fun t ht => ?_
  obtain rfl := Option.some.inj ht
  exact ⟨truncateToMinute_truncateToMinute _, truncateToMinute_le _, h.past, fun _ => id, trivial⟩

theorem Sound.step [DecidableEq Settings] (h : Sound jobs e)
    (hstep : EngineSteps jobs empty e label e') : Sound jobs e' := by
  unfold EngineSteps at hstep
  cases label with
  | beginTick =>
      simp only [engineStep] at hstep
      split at hstep
      · contradiction
      · obtain rfl := Option.some.inj hstep
        exact h.beginTick
  | read busy =>
      simp only [engineStep] at hstep
      split at hstep
      · next htick =>
          obtain rfl := Option.some.inj hstep
          exact h.read htick busy
      · contradiction
  | write =>
      simp only [engineStep] at hstep
      split at hstep
      · next htick =>
          split at hstep
          · next row hrow =>
              obtain rfl := Option.some.inj hstep
              exact h.write htick (of_decide_eq_true (Option.filter_eq_some_iff.mp hrow).2)
          · obtain rfl := Option.some.inj hstep
            refine h.goOn fun t ht => ?_
            obtain rfl := Option.some.inj ht
            exact (h.tick _ htick).next
      · contradiction
  | spawn =>
      simp only [engineStep] at hstep
      split at hstep
      · next htick =>
          obtain rfl := Option.some.inj hstep
          exact h.spawn htick
      · contradiction
  | endTick =>
      simp only [engineStep] at hstep
      split at hstep
      · obtain rfl := Option.some.inj hstep
        exact h.goOn nofun
      · contradiction
  | failTick =>
      obtain rfl := Option.some.inj hstep
      exact h.goOn nofun
  | finish i =>
      obtain ⟨task, hi, rfl⟩ := Option.map_eq_some_iff.mp hstep
      exact h.finish hi
  | updateSettings key settings =>
      obtain rfl := Option.some.inj hstep
      exact h.updateSettings key rfl
  | restart =>
      obtain rfl := Option.some.inj hstep
      exact ⟨by simp, List.nodup_nil, h.started, h.past, h.next, nofun⟩
  | wait time =>
      obtain rfl := Option.some.inj hstep
      exact h.wait time

/-! ## The settings -/

theorem savedSettings_append (key : String) (past : List (EngineLabel Settings))
    (label : EngineLabel Settings) : savedSettings empty key (past ++ [label]) =
      match label with
      | .updateSettings key' settings' =>
          if key' = key then settings' else savedSettings empty key past
      | _ => savedSettings empty key past := by
  unfold savedSettings
  rw [List.foldl_append]
  cases label <;> rfl

/-- The stored settings are those saved last. -/
def Kept (empty : Settings) (past : List (EngineLabel Settings)) (e : Engine croner Settings) :
    Prop :=
  ∀ key, (e.ensure empty key).settings = savedSettings empty key past

theorem settings_of_save {row : JobRow Settings} (other : String)
    (tick : Option (Tick croner Settings)) :
    (Engine.ensure empty { e.save key row with tick } other).settings =
      if key = other then row.settings else (e.ensure empty other).settings := by
  unfold Engine.ensure Engine.save
  by_cases hsame : key = other
  · subst hsame
    simp
  · simp [Function.update_of_ne (Ne.symm hsame), hsame]

/-- A write of a tick leaves the settings. -/
theorem Write.settings_apply (write : Write) (now : Int) (row : JobRow Settings) :
    (write.apply now row).settings = row.settings := by
  cases write <;> rfl

theorem Kept.step [DecidableEq Settings] {past : List (EngineLabel Settings)} (h : Kept empty past e)
    (hstep : EngineSteps jobs empty e label e') : Kept empty (past ++ [label]) e' := by
  intro key
  rw [savedSettings_append]
  unfold EngineSteps at hstep
  cases label with
  | beginTick =>
      simp only [engineStep] at hstep
      split at hstep
      · contradiction
      · obtain rfl := Option.some.inj hstep
        exact h key
  | read busy =>
      simp only [engineStep] at hstep
      split at hstep
      · obtain rfl := Option.some.inj hstep
        rw [settings_of_save]
        split_ifs with hsame
        · subst hsame
          exact h _
        · exact h key
      · contradiction
  | write =>
      simp only [engineStep] at hstep
      split at hstep
      · next now job rest settings write htick =>
          split at hstep
          · next row hrow =>
              obtain rfl := Option.some.inj hstep
              rw [settings_of_save, Write.settings_apply]
              split_ifs with hsame
              · subst hsame
                have hold := h job.key
                rwa [Engine.ensure, (Option.filter_eq_some_iff.mp hrow).1, Option.getD_some] at hold
              · exact h key
          · obtain rfl := Option.some.inj hstep
            exact h key
      · contradiction
  | spawn =>
      simp only [engineStep] at hstep
      split at hstep
      · obtain rfl := Option.some.inj hstep
        exact h key
      · contradiction
  | endTick =>
      simp only [engineStep] at hstep
      split at hstep
      · obtain rfl := Option.some.inj hstep
        exact h key
      · contradiction
  | updateSettings saved settings =>
      obtain rfl := Option.some.inj hstep
      exact (settings_of_save key e.tick).trans (by rw [h key])
  | finish i =>
      obtain ⟨task, -, rfl⟩ := Option.map_eq_some_iff.mp hstep
      exact h key
  | failTick | restart | wait _ =>
      obtain rfl := Option.some.inj hstep
      exact h key

/-! ## Runs -/

end Rustrak.Scheduler
