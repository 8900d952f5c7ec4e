import Rustrak.Digest.Store
import Rustrak.Monitors.Config
import Rustrak.Relational.Batches
import Rustrak.Relational.Newest

/-!
# Check-ins and the sweep

`services/monitor.rs`.  A monitor has environments, and an environment has check-ins.  A
check-in that is reported and each part of the sweep is one transaction here, under the lock
of the project, and a transaction that fails leaves the tables as they were.

The ids that the code draws are numbers that nobody has named before.  `Platform` is what is
left to others: the clocks, the hash of a fingerprint, the rows an `ORDER BY` puts first among
those of one date and the ones a `LIMIT` takes.  Durations, and dates of no consequence such
as `date_updated`, are kept as far as they are read.
-/

namespace Rustrak.Monitors

open Rustrak.Core Rustrak.Relational

/-- How long check-ins are kept. -/
def checkinRetentionDays : Int := 90

/-- Most check-ins deleted per sweep. -/
def retentionBatch : Nat := 5000

/-- Longest duration stored, in ms. -/
def maxDurationMs : Int := 2147483647

structure Monitor where
  id : Uuid
  projectId : Int
  slug : String
  name : String
  config : MonitorConfig
  isMuted : Bool
  deriving DecidableEq, Repr

structure Environment where
  id : Uuid
  monitorId : Uuid
  environment : String
  status : MonitorEnvironmentStatus
  nextCheckin : Option Int
  nextCheckinLatest : Option Int
  lastCheckin : Option Int
  deriving DecidableEq, Repr

structure CheckInRow where
  id : Uuid
  guid : Uuid
  projectId : Int
  monitorId : Uuid
  environmentId : Uuid
  status : CheckInStatus
  durationMs : Option Int
  dateAdded : Int
  expectedTime : Option Int
  timeoutAt : Option Int
  deriving DecidableEq, Repr

structure Tables where
  monitors : List Monitor
  environments : List Environment
  checkins : List CheckInRow
  /-- The projects that have turned crons off. -/
  cronsOff : List Int
  /-- Issues, and what the digest writes with them. -/
  db : Digest.Db
  /-- No id that was drawn or named by a client is this or a greater one. -/
  drawn : Uuid
  deriving DecidableEq

structure Platform where
  clocks : Clocks
  hashGroupingKey : String → String
  newest : Newest CheckInRow.dateAdded
  expired : Picker CheckInRow retentionBatch

/-- Without crontabs. -/
def Croner.none : Croner where
  Cron := Empty
  parse _ := .error "no crontab"
  findNext cron := nomatch cron
  findPrevious cron := nomatch cron
  fires cron := nomatch cron
  next := fun {cron} => nomatch cron
  previous := fun {cron} => nomatch cron
  no_previous := fun {cron} => nomatch cron
  recurs := fun {cron} => nomatch cron

/-- Intervals in UTC. -/
def Platform.utc : Platform where
  clocks := ⟨.none, fun name => if name = "UTC" then some .utc else none⟩
  hashGroupingKey key := key
  newest := .stable _
  expired := .front _

namespace Tables

/-- No monitor yet; the nil id is not one to draw. -/
def empty : Tables := ⟨[], [], [], [], .fresh [], 1⟩

variable (t : Tables)

/-- `find_monitor`. -/
def findMonitor (projectId : Int) (slug : String) : Option Monitor :=
  t.monitors.find? fun m => m.projectId = projectId && m.slug = slug

def loadMonitor (id : Uuid) : AppResult Monitor :=
  okOr (lookup Monitor.id id t.monitors) (.database .rowNotFound)

def reloadEnvironment (id : Uuid) : AppResult Environment :=
  okOr (lookup Environment.id id t.environments) (.database .rowNotFound)

/-- The check-ins of an environment. -/
def checkinsOf (environmentId : Uuid) : List CheckInRow :=
  t.checkins.filter (·.environmentId = environmentId)

/-- Whether an ok/error check-in newer than `dateAdded` exists. -/
def hasNewerResult (environmentId : Uuid) (dateAdded : Int) : Bool :=
  t.checkins.any fun c => c.environmentId = environmentId && decide (dateAdded < c.dateAdded) &&
    (c.status = .ok || c.status = .error)

/-- Rewrites one environment. -/
def setEnvironment (id : Uuid) (f : Environment → Environment) : Tables :=
  { t with environments := modify Environment.id id f t.environments }

/-- Puts a check-in in the place of the one with its id. -/
def updateCheckin (row : CheckInRow) : Tables :=
  { t with checkins := modify CheckInRow.id row.id (fun _ => row) t.checkins }

def insertCheckin (row : CheckInRow) (drawn : Uuid) : Tables :=
  { t with checkins := t.checkins ++ [row], drawn }

/-- Resolves the unresolved issues of a grouping. -/
def resolveIssues (projectId : Int) (hash : String) : Tables :=
  let ids := (t.db.groupings.filter fun g => g.key = (projectId, hash)).map Digest.Grouping.issueId
  let issues := t.db.issues.map fun i =>
    if i.status = .unresolved ∧ i.id ∈ ids then
      { i with status := .resolved, inNextRelease := false }
    else i
  { t with db := { t.db with issues } }

end Tables

section Transactions

variable (p : Platform)

/-- Statuses of the `n` newest check-ins of an environment, optionally only those at or before
`till`. -/
def recentStatuses (t : Tables) (environmentId : Uuid) (till : Option Int) (n : Nat) :
    List CheckInStatus :=
  (p.newest.limit ((t.checkinsOf environmentId).filter fun c => till.all (c.dateAdded ≤ ·)) n).map
    CheckInRow.status

/-- Moves the environment's expected check-in forward from `reference`. -/
def updateEnvironment (t : Tables) (env : Environment) (config : MonitorConfig)
    (lastCheckin : Option Int) (reference : Int) (status : Option MonitorEnvironmentStatus) :
    Tables :=
  t.setEnvironment env.id fun e =>
    { e with
      lastCheckin
      nextCheckin := some (config.nextCheckin p.clocks reference)
      nextCheckinLatest := some (config.nextCheckinLatest p.clocks reference)
      status := status.getD e.status }

/-- `recovery_threshold` consecutive ok check-ins close the incident and resolve its issue. -/
def tryResolution (t : Tables) (monitor : Monitor) (env : Environment) (checkin : CheckInRow) :
    Tables × Bool :=
  let threshold := max monitor.config.recoveryThreshold 1
  if checkin.status ≠ .ok then (t, false)
  -- Already healthy: no threshold to meet.
  else if env.status ≠ .ok ∧ 1 < threshold ∧
      (recentStatuses p t env.id none threshold).any (· ≠ .ok) then (t, false)
  else
    let hash := p.hashGroupingKey (MonitorFailure.fingerprint env.id)
    (t.resolveIssues monitor.projectId hash, true)

/-- Whether the check-in resolves what there is to resolve: an older run finishing late does
not. -/
def resolution (t : Tables) (monitor : Monitor) (env : Environment) (checkin : CheckInRow) :
    Tables × Bool :=
  if t.hasNewerResult env.id checkin.dateAdded then (t, false)
  else tryResolution p t monitor env checkin

/-- Tries to resolve an open incident, then moves the schedule forward. -/
def markOk (t : Tables) (monitor : Monitor) (env : Environment) (checkin : CheckInRow)
    (succeededAt : Int) : Tables :=
  let (t, resolved) := resolution p t monitor env checkin
  if env.lastCheckin.all (· ≤ succeededAt) then
    updateEnvironment p t env monitor.config (some checkin.dateAdded)
      (monitor.config.checkinReference p.clocks checkin.dateAdded checkin.expectedTime succeededAt)
      (if resolved then some .ok else none)
  else t

/-- Whether a failure is one more of an incident, or opens one. -/
def crossesThreshold (t : Tables) (monitor : Monitor) (env : Environment) (failed : CheckInRow) :
    Bool :=
  let threshold := max monitor.config.failureIssueThreshold 1
  threshold ≤ 1 ||
    let recent := recentStatuses p t env.id (some failed.dateAdded) threshold
    threshold ≤ recent.length && !recent.contains .ok

def failureOf (monitor : Monitor) (env : Environment) (failed : CheckInRow)
    (reason : FailureReason) : MonitorFailure where
  projectId := monitor.projectId
  monitorSlug := monitor.slug
  monitorName := monitor.name
  environment := env.environment
  monitorEnvironmentId := env.id
  checkInId := failed.guid
  reason
  occurredAt := failed.dateAdded

/-- Opens an incident once enough check-ins have failed, and reports every failure while it
stays open.  A muted monitor reports nothing. -/
def markFailed (t : Tables) (monitor : Monitor) (env : Environment) (failed : CheckInRow)
    (reason : FailureReason) : Tables × List MonitorFailure :=
  let failures := if monitor.isMuted then [] else [failureOf monitor env failed reason]
  match env.status with
  | .error => (t, failures)
  | .ok | .active =>
      if crossesThreshold p t monitor env failed then
        (t.setEnvironment env.id fun e => { e with status := .error }, failures)
      else (t, [])

/-! ## One check-in -/

/-- Finds the check-in's monitor, creating or reconfiguring it from its configuration.  An
invalid one is ignored for an existing monitor and rejects the check-in for a new one. -/
def upsertMonitor (t : Tables) (now projectId : Int) (checkIn : CheckIn) :
    AppResult (Tables × Monitor) :=
  match t.findMonitor projectId checkIn.monitorSlug, checkIn.monitorConfig with
  | some monitor, some input =>
      match input.validate p.clocks now (some monitor.config) with
      | .ok config =>
          if config ≠ monitor.config then
            .ok ({ t with
              monitors := modify Monitor.id monitor.id (fun m => { m with config }) t.monitors },
              { monitor with config })
          else .ok (t, monitor)
      | .error _ => .ok (t, monitor)
  | some monitor, none => .ok (t, monitor)
  | none, some input =>
      (input.validate p.clocks now none).map fun config =>
        let monitor : Monitor :=
          { id := t.drawn, projectId, slug := checkIn.monitorSlug, name := checkIn.monitorSlug
            config, isMuted := false }
        ({ t with monitors := t.monitors ++ [monitor], drawn := t.drawn + 1 }, monitor)
  | none, none =>
      .error (.notFound ("monitor " ++ checkIn.monitorSlug ++
        " (a check-in without monitor_config cannot create it)"))

def ensureEnvironment (t : Tables) (monitorId : Uuid) (environment : String) :
    Tables × Environment :=
  match t.environments.find? fun e => e.monitorId = monitorId && e.environment = environment with
  | some env => (t, env)
  | none =>
      let env : Environment :=
        { id := t.drawn, monitorId, environment, status := .active
          nextCheckin := none, nextCheckinLatest := none, lastCheckin := none }
      ({ t with environments := t.environments ++ [env], drawn := t.drawn + 1 }, env)

/-- Finds the monitor and the environment of a check-in.  The ids drawn for them and from then on
are not the one the client has chosen. -/
def prepare (t : Tables) (now projectId : Int) (checkIn : CheckIn) :
    AppResult (Tables × Monitor × Environment) := do
  let t := { t with drawn := max t.drawn (checkIn.checkInId + 1) }
  let (t, monitor) ← upsertMonitor p t now projectId checkIn
  let (t, env) := ensureEnvironment t monitor.id checkIn.environment
  return (t, monitor, env)

/-- The check-in that an item is about: with a nil id, the latest open one. -/
def existingCheckin (t : Tables) (monitorId environmentId : Uuid) (checkInId : Uuid) :
    Option CheckInRow :=
  if checkInId = nil then
    let started := (t.checkinsOf environmentId).filter (·.status = .inProgress)
    (p.newest.limit started 1).head?
  else t.checkins.find? fun c => c.monitorId = monitorId && c.guid = checkInId

/-- Applies a check-in to an existing one. `none` means nothing changed. -/
def updateExisting (existing : CheckInRow) (checkIn : CheckIn) (durationMs : Option Int)
    (config : MonitorConfig) (received : Int) : AppResult (Option CheckInRow) :=
  let elapsedMs := durationMs.or
    (some (min ((received - existing.dateAdded).natAbs / 1000000 : Nat) maxDurationMs))
  match existing.status with
  | .ok | .error =>
      if checkIn.status = .inProgress then .ok none
      else .error (.validation "check-in has already completed")
  -- A synthetic failure stays a failure; a late result only records how long the run took.
  | .timeout | .missed =>
      if checkIn.status = .inProgress then .ok none
      else .ok (some { existing with durationMs := elapsedMs })
  | .inProgress | .unknown =>
      if checkIn.status = .inProgress then
        -- A heartbeat: the run is alive, push its timeout out, never past the hard ceiling.
        let ceiling := config.timeoutAt existing.dateAdded - config.maxRuntime * minute +
          maxMaxRuntime * minute
        .ok (some { existing with timeoutAt := some (min (config.timeoutAt received) ceiling) })
      else .ok (some { existing with status := checkIn.status, durationMs := elapsedMs })

/-- The row of a check-in that is not known yet. -/
def newCheckin (t : Tables) (monitor : Monitor) (env : Environment) (checkIn : CheckIn)
    (durationMs : Option Int) (received : Int) : CheckInRow where
  id := t.drawn
  guid := if checkIn.checkInId = nil then t.drawn + 1 else checkIn.checkInId
  projectId := monitor.projectId
  monitorId := monitor.id
  environmentId := env.id
  status := checkIn.status
  durationMs := durationMs
  dateAdded := received
  expectedTime := env.nextCheckin
  timeoutAt := if checkIn.status = .inProgress then some (monitor.config.timeoutAt received) else none

/-- Stores a check-in: the tables with the row as it is then, or `none` for a late
`in_progress` of a finished run, which changes nothing. -/
def storeCheckin (t : Tables) (monitor : Monitor) (env : Environment) (checkIn : CheckIn)
    (received : Int) : AppResult (Option (Tables × CheckInRow)) :=
  let durationMs := checkIn.durationMs.map (min · maxDurationMs)
  match existingCheckin p t monitor.id env.id checkIn.checkInId with
  | some existing =>
      if existing.environmentId ≠ env.id then
        .error (.validation "check-in environment does not match the existing check-in")
      else
        (updateExisting existing checkIn durationMs monitor.config received).map fun updated =>
          updated.map fun row => (t.updateCheckin row, row)
  | none =>
      let row := newCheckin t monitor env checkIn durationMs received
      .ok (some (t.insertCheckin row (t.drawn + 2), row))

/-- What a stored check-in means for its environment. -/
def settleCheckin (t : Tables) (monitor : Monitor) (env : Environment) (stored : CheckInRow)
    (received : Int) : AppResult (Tables × List MonitorFailure) :=
  if stored.status = .error then
    if t.hasNewerResult env.id stored.dateAdded then .ok (t, [])
    else do
      let t := updateEnvironment p t env monitor.config (some stored.dateAdded)
        (monitor.config.checkinReference p.clocks stored.dateAdded stored.expectedTime received) none
      let env ← t.reloadEnvironment env.id
      return markFailed p t monitor env stored .error
  else .ok (markOk p t monitor env stored received, [])

/-- Records one check-in, received at `received` and processed at `now`.  Returns the failures
that must be reported as issue events. -/
def processCheckIn (t : Tables) (projectId : Int) (checkIn : CheckIn) (now received : Int) :
    AppResult (Tables × List MonitorFailure) := do
  let (t, monitor, env) ← prepare p t now projectId checkIn
  match ← storeCheckin p t monitor env checkIn received with
  | none => return (t, [])
  | some (t, stored) => settleCheckin p t monitor env stored received

/-! ## The sweep -/

/-- The check-in that was not sent. -/
def missedCheckin (t : Tables) (monitor : Monitor) (env : Environment) (expected : Int) :
    CheckInRow where
  id := t.drawn
  guid := t.drawn + 1
  projectId := monitor.projectId
  monitorId := monitor.id
  environmentId := env.id
  status := .missed
  durationMs := none
  dateAdded := expected
  expectedTime := some expected
  timeoutAt := none

/-- Records the missed check-in of one due environment. -/
def sweepMissed (t : Tables) (environmentId : Uuid) (now : Int) :
    AppResult (Tables × List MonitorFailure) := do
  let env ← t.reloadEnvironment environmentId
  match env.nextCheckin, env.nextCheckinLatest with
  | some expected, some latest =>
      -- A check-in or another sweep may have moved it.
      if now < latest then return (t, [])
      else
        let monitor ← t.loadMonitor env.monitorId
        -- Count from the most recent slot before now, not from the missed one.
        let mostRecent := monitor.config.prevCheckin p.clocks expected now
        -- Crons off drops check-ins at ingest, so a due slot is no miss.
        if t.cronsOff.contains monitor.projectId then
          return (updateEnvironment p t env monitor.config env.lastCheckin mostRecent none, [])
        else
          let missed := missedCheckin t monitor env expected
          let t := t.insertCheckin missed (t.drawn + 2)
          let t := updateEnvironment p t env monitor.config env.lastCheckin mostRecent none
          let env ← t.reloadEnvironment env.id
          return markFailed p t monitor env missed .missed
  | _, _ => return (t, [])

/-- Times out one check-in left open past its max runtime. -/
def sweepTimeout (t : Tables) (checkinId : Uuid) (now : Int) :
    AppResult (Tables × List MonitorFailure) :=
  match (lookup CheckInRow.id checkinId t.checkins).filter fun c =>
      c.status = .inProgress && c.timeoutAt.any (· ≤ now) with
  | none => .ok (t, [])
  | some found => do
      let timedOut := { found with status := .timeout }
      let t := t.updateCheckin timedOut
      -- Crons off: the closing check-in was dropped at ingest, not late.
      if t.cronsOff.contains found.projectId ∨
          t.hasNewerResult found.environmentId found.dateAdded then return (t, [])
      else
        let monitor ← t.loadMonitor found.monitorId
        let env ← t.reloadEnvironment found.environmentId
        return markFailed p t monitor env timedOut .timeout

/-- Deletes a batch of the check-ins that are kept no longer. -/
def deleteExpired (t : Tables) (now : Int) : Tables :=
  let expired := t.checkins.filter (·.dateAdded < now - checkinRetentionDays * day)
  let gone := (p.expired.pick expired).map CheckInRow.id
  { t with checkins := t.checkins.filter fun c => !gone.contains c.id }

/-- Goes on with one more row of a sweep; one that fails is skipped. -/
def sweepEach (f : Tables → Uuid → AppResult (Tables × List MonitorFailure))
    (swept : Tables × List MonitorFailure) (id : Uuid) : Tables × List MonitorFailure :=
  match f swept.1 id with
  | .ok (t, found) => (t, swept.2 ++ found)
  | .error _ => swept

/-- The environments whose next check-in is late. -/
def dueEnvironments (t : Tables) (now : Int) : List Uuid :=
  (t.environments.filter fun e => e.nextCheckinLatest.any (· ≤ now) &&
    (lookup Monitor.id e.monitorId t.monitors).isSome).map Environment.id

/-- The check-ins that have run too long. -/
def openCheckins (t : Tables) (now : Int) : List Uuid :=
  (t.checkins.filter fun c => c.status = .inProgress && c.timeoutAt.any (· ≤ now)).map CheckInRow.id

/-- Marks missed and timed-out check-ins as of a whole minute. -/
def markLate (t : Tables) (now : Int) : Tables × List MonitorFailure :=
  let missed := (dueEnvironments t now).foldl (sweepEach (sweepMissed p · · now)) (t, [])
  (openCheckins missed.1 now).foldl (sweepEach (sweepTimeout p · · now)) missed

/-- Marks missed and timed-out check-ins as of `now`, and deletes old ones.  Returns the
failures to report. -/
def sweep (t : Tables) (now : Int) : Tables × List MonitorFailure :=
  let now := truncateToMinute now
  let (t, failures) := markLate p t now
  (deleteExpired p t now, failures)

/-! ## The dashboard -/

structure CreateMonitor where
  name : String
  /-- Derived from `name` when left out. -/
  slug : Option String
  config : MonitorConfigInput
  deriving DecidableEq

/-- Fields left out keep their value. -/
structure UpdateMonitor where
  name : Option String
  config : Option MonitorConfigInput
  isMuted : Option Bool
  deriving DecidableEq

def notFound (slug : String) : AppError := .notFound ("Monitor " ++ slug ++ " not found")

/-- Names the field that a failure is about. -/
def inField {α : Type} (field : String) (code : FieldErrorCode) (x : AppResult α) : AppResult α :=
  x.mapError (·.withField field code)

/-- Creates a monitor.  It has no environment until its first check-in. -/
def createMonitor (t : Tables) (projectId : Int) (input : CreateMonitor) (now : Int) :
    AppResult Tables := do
  let name ← validateMonitorName input.name
  let slug := slugifyMonitorSlug (input.slug.getD name)
  ensure (slug ≠ "") ((AppError.validation "Monitor slug is empty").withField "slug" .invalid)
  let config ← inField "config" .invalid (input.config.validate p.clocks now none)
  ensure (t.findMonitor projectId slug).isNone
    ((AppError.conflict ("A monitor with slug " ++ slug ++ " already exists")).withField
      "slug" .alreadyExists)
  let monitor : Monitor := { id := t.drawn, projectId, slug, name, config, isMuted := false }
  return { t with monitors := t.monitors ++ [monitor], drawn := t.drawn + 1 }

/-- Renames, reconfigures or mutes a monitor, as it was read before. -/
def updateMonitor (t : Tables) (current : Monitor) (input : UpdateMonitor) (now : Int) :
    AppResult Tables := do
  let name ← (input.name.map validateMonitorName).getD (.ok current.name)
  let config ← (input.config.map fun config =>
    inField "config" .invalid (config.validate p.clocks now (some current.config))).getD
      (.ok current.config)
  ensure (lookup Monitor.id current.id t.monitors).isSome (.database .rowNotFound)
  return { t with
    monitors := modify Monitor.id current.id
      (fun m => { m with name, config, isMuted := input.isMuted.getD current.isMuted }) t.monitors }

def setMuted (t : Tables) (projectId : Int) (slug : String) (muted : Bool) : AppResult Tables :=
  match t.findMonitor projectId slug with
  | none => .error (notFound slug)
  | some monitor =>
      .ok { t with
        monitors := modify Monitor.id monitor.id (fun m => { m with isMuted := muted }) t.monitors }

/-- Deletes monitors, with their environments and check-ins. -/
def deleteMonitors (t : Tables) (gone : Monitor → Bool) : Tables :=
  let ids := (t.monitors.filter gone).map Monitor.id
  { t with
    monitors := t.monitors.filter fun m => !ids.contains m.id
    environments := t.environments.filter fun e => !ids.contains e.monitorId
    checkins := t.checkins.filter fun c => !ids.contains c.monitorId }

def deleteMonitor (t : Tables) (projectId : Int) (slug : String) : AppResult Tables :=
  match t.findMonitor projectId slug with
  | none => .error (notFound slug)
  | some monitor => .ok (deleteMonitors t (·.id = monitor.id))

end Transactions

/-! ## Everything at once -/

/-- The tables, and the monitors that dashboard requests have read and not written yet. -/
structure World where
  tables : Tables
  updates : Nat → Option (Monitor × UpdateMonitor)

def World.start : World := ⟨.empty, fun _ => none⟩

inductive Label
  /-- An item that a client has sent. -/
  | checkIn (projectId : Int) (item : CheckInPayload) (now received : Int)
  | sweepMissed (environmentId : Uuid) (now : Int)
  | sweepTimeout (checkinId : Uuid) (now : Int)
  | deleteExpired (now : Int)
  | createMonitor (projectId : Int) (input : CreateMonitor) (now : Int)
  /-- A request to update a monitor reads it. -/
  | readMonitor (request : Nat) (projectId : Int) (slug : String) (input : UpdateMonitor)
  | writeMonitor (request : Nat) (now : Int)
  | setMuted (projectId : Int) (slug : String) (muted : Bool)
  | deleteMonitor (projectId : Int) (slug : String)
  | deleteProject (projectId : Int)
  | setCronsOff (projects : List Int)
  /-- The rest of the system writes its tables. -/
  | digest (db : Digest.Db)

/-- What a transaction leaves: the tables it commits, or those it found. -/
def commit (t : Tables) (outcome : AppResult (Tables × List MonitorFailure)) : Tables :=
  match outcome with
  | .ok (t', _) => t'
  | .error _ => t

/-- An item is parsed before it is processed. -/
def receive (p : Platform) (t : Tables) (projectId : Int) (item : CheckInPayload)
    (now received : Int) : AppResult (Tables × List MonitorFailure) := do
  let checkIn ← CheckIn.parse item
  processCheckIn p t projectId checkIn now received

/-- What one transaction does to the tables, and which failures it reports. -/
def transact (p : Platform) (w : World) (label : Label) : AppResult (Tables × List MonitorFailure) :=
  match label with
  | .checkIn projectId item now received => receive p w.tables projectId item now received
  | .sweepMissed environmentId now => sweepMissed p w.tables environmentId (truncateToMinute now)
  | .sweepTimeout checkinId now => sweepTimeout p w.tables checkinId (truncateToMinute now)
  | .deleteExpired now => .ok (deleteExpired p w.tables (truncateToMinute now), [])
  | .createMonitor projectId input now =>
      (createMonitor p w.tables projectId input now).map (·, [])
  | .readMonitor _ _ _ _ => .ok (w.tables, [])
  | .writeMonitor request now =>
      match w.updates request with
      | none => .ok (w.tables, [])
      | some (current, input) => (updateMonitor p w.tables current input now).map (·, [])
  | .setMuted projectId slug muted => (setMuted w.tables projectId slug muted).map (·, [])
  | .deleteMonitor projectId slug => (deleteMonitor w.tables projectId slug).map (·, [])
  | .deleteProject projectId => .ok (deleteMonitors w.tables (·.projectId = projectId), [])
  | .setCronsOff projects => .ok ({ w.tables with cronsOff := projects }, [])
  | .digest db => .ok ({ w.tables with db }, [])

/-- The requests in flight after a step. -/
def World.updatesAfter (w : World) : Label → Nat → Option (Monitor × UpdateMonitor)
  | .readMonitor request projectId slug input =>
      Function.update w.updates request
        ((w.tables.findMonitor projectId slug).map fun current => (current, input))
  | .writeMonitor request _ => Function.update w.updates request none
  | .checkIn .. | .sweepMissed .. | .sweepTimeout .. | .deleteExpired .. | .createMonitor ..
  | .setMuted .. | .deleteMonitor .. | .deleteProject .. | .setCronsOff .. | .digest .. => w.updates

/-- Transactions, in any order. -/
def Step (p : Platform) (w : World) (label : Label) (w' : World) : Prop :=
  w' = ⟨commit w.tables (transact p w label), w.updatesAfter label⟩

end Rustrak.Monitors
