import Mathlib.Data.Finset.Basic
import Rustrak.Monitors.Schedule
import Rustrak.Retention.Storage
import Rustrak.Transition.Run

/-!
# The scheduler

`scheduler/engine.rs` starts the jobs that are due, once a minute.  A tick takes one job after
the other: it reads the row, decides, and writes.  Settings may be saved between the read and
the write, so every write of a tick names the settings that it was computed from, and finds no
row when they have changed.

A run is claimed by the write that moves its row on to the next slot, before the task starts.
So nothing that happens to the task, or to the process, brings the slot back.

The ticks follow one another, since the server awaits each before the next, and the clock goes
forward.
-/

namespace Rustrak.Scheduler

open Rustrak.Monitors Rustrak.Transition
open Rustrak.Retention (RetentionSettings)

/-- What to do when the server was down at a job's run time. -/
inductive Misfire
  | skip
  | runOnce
  deriving DecidableEq, Repr

/-- A piece of recurring work. -/
structure ScheduledJob (croner : Croner) (Settings : Type*) where
  /-- Its row in `scheduled_jobs`. -/
  key : String
  /-- When it runs, read from its stored settings; `none` disables it. -/
  schedule : Settings → Option (Schedule × TimeZone)
  misfire : Misfire
  /-- A slot is later than the minute it is counted from. -/
  later : ∀ {settings s tz}, schedule settings = some (s, tz) →
    ∀ t, truncateToMinute t = t → t < s.nextAfter croner t tz

/-! ## The jobs of the server -/

variable {croner : Croner} {Settings : Type*}

theorem truncate_add_minutes {t : Int} (ht : truncateToMinute t = t) (n : Nat) :
    truncateToMinute (t + n * minute) = t + n * minute := by
  unfold truncateToMinute at ht ⊢
  rw [Int.add_mul_emod_self_right]
  omega

inductive CleanupFrequency
  | daily
  | weekly
  deriving DecidableEq, Repr

/-- What `storage_cleanup` stores, and when it runs. -/
structure CleanupSettings where
  retention : RetentionSettings
  frequency : CleanupFrequency
  deriving DecidableEq, Repr

/-- When the cleanup runs, in UTC. -/
def CleanupSettings.schedule (settings : CleanupSettings) : Schedule :=
  let hour := toString settings.retention.hour
  match settings.frequency with
  | .daily => .crontab ("0 " ++ hour ++ " * * *")
  | .weekly => .crontab ("0 " ++ hour ++ " * * " ++ toString settings.retention.weekday)

/-- Daily or weekly, unless everything is kept forever.  `read` is the stored settings, with
defaults for what is missing or unreadable; five fields name whole minutes. -/
def storageCleanupJob (read : Settings → CleanupSettings)
    (hminutes : ∀ cron t s, croner.findNext cron .utc t = some s → truncateToMinute s = s) :
    ScheduledJob croner Settings where
  key := "storage_cleanup"
  schedule settings :=
    let settings := read settings
    if !settings.retention.deletesAnything || !settings.retention.validate.toBool then none
    else some (settings.schedule, .utc)
  misfire := .runOnce
  later := by
    intro settings s tz h t ht
    dsimp only at h
    split_ifs at h
    obtain ⟨rfl, rfl⟩ := Prod.mk.inj (Option.some.inj h)
    obtain ⟨value, hvalue⟩ : ∃ value, (read settings).schedule = .crontab value := by
      unfold CleanupSettings.schedule
      cases (read settings).frequency <;> exact ⟨_, rfl⟩
    rw [hvalue]
    unfold Schedule.nextAfter
    dsimp only
    cases hnext : (croner.parse value).toOption.bind fun cron => croner.findNext cron .utc t with
    | none =>
        have hday : day = (1440 : Nat) * minute := by decide
        rw [Option.getD_none, hday, truncate_add_minutes ht]
        unfold minute second
        omega
    | some slot =>
        obtain ⟨cron, -, hslot⟩ := Option.bind_eq_some_iff.mp hnext
        rw [Option.getD_some, hminutes cron t slot hslot]
        exact (croner.next hslot).2.1

/-! ## The engine -/

structure JobRow (Settings : Type*) where
  settings : Settings
  nextRunAt : Option Int
  lastStartedAt : Option Int

/-- A write of a tick to a row. -/
inductive Write
  | setNextRun (next : Option Int)
  /-- Takes the slot `due`, and moves on to the next. -/
  | claim (due next : Int)
  deriving DecidableEq, Repr

/-- Where a tick is with the job in hand. -/
inductive TickStage (Settings : Type*)
  | reading
  /-- Has decided on a write, for the settings it has read. -/
  | writing (settings : Settings) (write : Write)
  /-- Has claimed a slot; its task is to be started. -/
  | spawning (settings : Settings) (due : Int)

structure Tick (croner : Croner) (Settings : Type*) where
  /-- The minute it is for. -/
  now : Int
  /-- The job in hand, and those after it. -/
  jobs : List (ScheduledJob croner Settings)
  stage : TickStage Settings

/-- A run under way. -/
structure Task (Settings : Type*) where
  key : String
  settings : Settings
  /-- The slot being run. -/
  scheduledFor : Int
  now : Int

structure Engine (croner : Croner) (Settings : Type*) where
  clock : Int
  rows : String → Option (JobRow Settings)
  /-- The keys of the jobs that run. -/
  running : Finset String
  tasks : List (Task Settings)
  tick : Option (Tick croner Settings)
  /-- The runs started so far, each a job and a slot. -/
  started : List (String × Int)

/-- A new installation. -/
def Engine.fresh (croner : Croner) (Settings : Type*) (clock : Int) : Engine croner Settings :=
  ⟨clock, fun _ => none, ∅, [], none, []⟩

/-- How late a run may start and still count as on time. -/
def onTime : Int := minute

/-- What a tick does about a row; `busy` is a job that runs, or that waits for work started
outside of the schedule. -/
def ScheduledJob.plan (job : ScheduledJob croner Settings) (row : JobRow Settings) (now : Int)
    (busy : Bool) : Option Write :=
  match job.schedule row.settings with
  | none => if row.nextRunAt.isSome then some (.setNextRun none) else none
  | some (schedule, tz) =>
      let next := schedule.nextAfter croner now tz
      match row.nextRunAt with
      | none => some (.setNextRun (some next))
      | some due =>
          if due > now || busy then none
          else if now - due > onTime && job.misfire = .skip then some (.setNextRun (some next))
          else some (.claim due next)

def Write.apply (now : Int) (row : JobRow Settings) : Write → JobRow Settings
  | .setNextRun next => { row with nextRunAt := next }
  | .claim _ next => { row with nextRunAt := some next, lastStartedAt := some now }

/-- Where a tick goes on after a write that has found the row. -/
def Write.tick (now : Int) (job : ScheduledJob croner Settings)
    (rest : List (ScheduledJob croner Settings)) (settings : Settings) :
    Write → Tick croner Settings
  | .setNextRun _ => ⟨now, rest, .reading⟩
  | .claim due _ => ⟨now, job :: rest, .spawning settings due⟩

inductive EngineLabel (Settings : Type*)
  | beginTick
  /-- The tick reads the row of the job in hand; `busy` is what the job says of itself. -/
  | read (busy : Bool)
  | write
  | spawn
  | endTick
  /-- A statement fails, and the tick with it. -/
  | failTick
  /-- A task is done, or has panicked. -/
  | finish (task : Nat)
  | updateSettings (key : String) (settings : Settings)
  | restart
  | wait (time : Nat)

section Steps

variable [DecidableEq Settings] (jobs : List (ScheduledJob croner Settings)) (empty : Settings)

/-- A job's row, created with empty settings the first time it is asked for. -/
def Engine.ensure (e : Engine croner Settings) (key : String) : JobRow Settings :=
  (e.rows key).getD ⟨empty, none, none⟩

def Engine.save (e : Engine croner Settings) (key : String) (row : JobRow Settings) :
    Engine croner Settings :=
  { e with rows := Function.update e.rows key (some row) }

/-- One step; `empty` is the settings that a new row has. -/
def engineStep (e : Engine croner Settings) : EngineLabel Settings → Option (Engine croner Settings)
  | .beginTick =>
      match e.tick with
      | some _ => none
      | none => some { e with tick := some ⟨truncateToMinute e.clock, jobs, .reading⟩ }
  | .read busy =>
      match e.tick with
      | some ⟨now, job :: rest, .reading⟩ =>
          let row := e.ensure empty job.key
          some { e.save job.key row with
            tick := some (match job.plan row now (job.key ∈ e.running || busy) with
              | none => ⟨now, rest, .reading⟩
              | some write => ⟨now, job :: rest, .writing row.settings write⟩) }
      | _ => none
  | .write =>
      match e.tick with
      | some ⟨now, job :: rest, .writing settings write⟩ =>
          -- `WHERE key = $1 AND settings = $3`
          match (e.rows job.key).filter fun row => row.settings = settings with
          | some row =>
              some { e.save job.key (write.apply now row) with
                tick := some (write.tick now job rest settings) }
          | none => some { e with tick := some ⟨now, rest, .reading⟩ }
      | _ => none
  | .spawn =>
      match e.tick with
      | some ⟨now, job :: rest, .spawning settings due⟩ =>
          some { e with
            running := insert job.key e.running
            tasks := e.tasks ++ [⟨job.key, settings, due, now⟩]
            started := e.started ++ [(job.key, due)]
            tick := some ⟨now, rest, .reading⟩ }
      | _ => none
  | .endTick =>
      match e.tick with
      | some ⟨_, [], .reading⟩ => some { e with tick := none }
      | _ => none
  | .failTick => some { e with tick := none }
  | .finish i => e.tasks[i]?.map fun task =>
      { e with running := e.running.erase task.key, tasks := e.tasks.eraseIdx i }
  | .updateSettings key settings =>
      let row := e.ensure empty key
      some (e.save key { row with settings, nextRunAt := none })
  | .restart => some { e with running := ∅, tasks := [], tick := none }
  | .wait time => some { e with clock := e.clock + time }

/-- `engineStep` as a relation. -/
def EngineSteps (e : Engine croner Settings) (label : EngineLabel Settings)
    (e' : Engine croner Settings) : Prop :=
  engineStep jobs empty e label = some e'

/-- The settings of a job that were saved last. -/
def savedSettings (key : String) (labels : List (EngineLabel Settings)) : Settings :=
  labels.foldl (fun settings label => match label with
    | .updateSettings key' settings' => if key' = key then settings' else settings
    | _ => settings) empty

end Steps

end Rustrak.Scheduler
