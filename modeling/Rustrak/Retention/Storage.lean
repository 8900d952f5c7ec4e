import Rustrak.Digest.Deletion
import Rustrak.Relational.Batches

/-!
# Deleting old data

`StorageService` of `services/storage.rs`, with the settings of `models/storage.rs`: the
preview counts what a cleanup would delete, the cleanup deletes it in batches, one project
and one kind of data at a time.  Retention is many cleanups, each project and kind with a
window of its own.

Times are nanoseconds.  Which rows a batch takes is the database's choice (`Pickers`), and
what a project's transactions have spans is estimated from a sample (`estimate`).
-/

namespace Rustrak.Retention

open Rustrak.Core Rustrak.Digest Rustrak.Relational

structure TransactionRow where
  id : Uuid
  projectId : Int
  ingestedAt : Int
  deriving DecidableEq

structure SpanRow where
  id : Uuid
  transactionId : Option Uuid
  deriving DecidableEq

structure LogRow where
  id : Uuid
  projectId : Int
  ingestedAt : Int
  deriving DecidableEq

structure Storage where
  db : Db
  transactions : List TransactionRow
  spans : List SpanRow
  logs : List LogRow
  deriving DecidableEq

/-- Which data categories a cleanup acts on. -/
structure CleanupFilter where
  includeEvents : Bool
  includeTransactions : Bool
  includeLogs : Bool
  deriving DecidableEq, Repr

/-- Rows affected by a cleanup, to be removed or removed. -/
structure CleanupCounts where
  events : Nat
  transactions : Nat
  spans : Nat
  logs : Nat
  issuesRemoved : Nat
  sourceMaps : Nat
  deriving DecidableEq, Repr

namespace CleanupCounts

/-- Nothing. -/
def default : CleanupCounts := ⟨0, 0, 0, 0, 0, 0⟩

end CleanupCounts

def minRetentionDays : Int := 1

def maxRetentionDays : Int := 36500

def validateRetention (olderThanDays : Int) : AppResult Unit :=
  if olderThanDays < minRetentionDays then
    .error (.validation s!"older_than_days must be at least {minRetentionDays}")
  else if maxRetentionDays < olderThanDays then
    .error (.validation s!"older_than_days must be at most {maxRetentionDays}")
  else .ok ()

/-- A day, in nanoseconds. -/
def day : Int := 86400000000000

/-! ## The preview -/

/-- `SELECT id FROM projects WHERE $1 IS NULL OR id = $2`. -/
def scopedProjects (s : Storage) (projectId : Option Int) : List Int :=
  (s.db.projects.map Project.id).filter fun id => projectId.all (· = id)

/-- The transactions of a project that a batch may take. -/
def oldTransactions (projectId cutoff : Int) (s : Storage) : List TransactionRow :=
  s.transactions.filter fun t => t.projectId = projectId && decide (t.ingestedAt < cutoff)

def oldLogs (projectId cutoff : Int) (s : Storage) : List LogRow :=
  s.logs.filter fun l => l.projectId = projectId && decide (l.ingestedAt < cutoff)

/-- An issue that has events, none of which survives the cutoff. -/
def emptiedBy (db : Db) (cutoff : Int) (i : Uuid) : Bool :=
  (db.events.any fun e => e.issueId = some i) &&
    !db.events.any fun e => e.issueId = some i && decide (cutoff ≤ e.ingestedAt)

/-- How many spans a project's old transactions have, of which there are so many. -/
abbrev Estimate := Storage → Int → Int → Nat → Nat

/-- Counts what a cleanup at the cutoff would remove. -/
def countCleanup (estimate : Estimate) (s : Storage) (cutoff : Int) (projectId : Option Int)
    (filter : CleanupFilter) : CleanupCounts :=
  let projects := scopedProjects s projectId
  let events := s.db.events.countP fun e =>
    decide (e.ingestedAt < cutoff) && projects.contains e.projectId
  let issuesRemoved := s.db.issues.countP fun i =>
    projectId.all (i.projectId = ·) && emptiedBy s.db cutoff i.id
  let logs := s.logs.countP fun l =>
    decide (l.ingestedAt < cutoff) && projects.contains l.projectId
  let transactions id := (oldTransactions id cutoff s).length
  { events := if filter.includeEvents then events else 0
    transactions := if filter.includeTransactions then (projects.map transactions).sum else 0
    spans :=
      if filter.includeTransactions then
        (projects.map fun id => estimate s id cutoff (transactions id)).sum
      else 0
    logs := if filter.includeLogs then logs else 0
    issuesRemoved := if filter.includeEvents then issuesRemoved else 0
    sourceMaps := 0 }

/-! ## The cleanup -/

/-- What the database takes of the rows of each kind. -/
structure Pickers (limit : Nat) where
  transactions : Picker TransactionRow limit
  logs : Picker LogRow limit
  events : Picker EventRow limit

/-- What has been deleted so far is counted along. -/
abbrev Purging := Storage × CleanupCounts

/-- Deletes the picked transactions with their spans: the tables after that with the
numbers of both, or `none` once none are left. -/
def deleteTransactionBatch (s : Storage) (picked : List TransactionRow) :
    Option (Storage × Nat × Nat) :=
  if picked.isEmpty then none
  else
    let ids := picked.map TransactionRow.id
    let spans := s.spans.countP fun span => span.transactionId.any ids.contains
    let transactions := s.transactions.countP fun t => ids.contains t.id
    some ({ s with
      spans := s.spans.filter fun span => !span.transactionId.any ids.contains
      transactions := s.transactions.filter fun t => !ids.contains t.id }, transactions, spans)

/-- The batches of each kind, as the loops of `purge` make them. -/
def transactionBatch : Purging → List TransactionRow → Option Purging
  | (s, counts), picked =>
      (deleteTransactionBatch s picked).map fun (s, transactions, spans) =>
        (s, { counts with
          transactions := counts.transactions + transactions
          spans := counts.spans + spans })

def logBatch : Purging → List LogRow → Option Purging
  | (s, counts), picked =>
      let ids := picked.map LogRow.id
      let logs := s.logs.countP fun l => ids.contains l.id
      if logs = 0 then none
      else
        some ({ s with logs := s.logs.filter fun l => !ids.contains l.id },
          { counts with logs := counts.logs + logs })

def eventBatch (projectId : Int) : Purging → List EventRow → Option Purging
  | (s, counts), picked =>
      (deleteEventBatch s.db projectId picked).map fun (db, events, issuesRemoved) =>
        ({ s with db },
          { counts with
            events := counts.events + events
            issuesRemoved := counts.issuesRemoved + issuesRemoved })

variable {limit : Nat}

def purgeTransactions (pick : Pickers limit) (cutoff projectId : Int) (filter : CleanupFilter)
    (fuel : Nat) (s : Purging) : Option Purging :=
  if filter.includeTransactions then
    drain (fun s => oldTransactions projectId cutoff s.1) transactionBatch pick.transactions fuel s
  else some s

def purgeLogs (pick : Pickers limit) (cutoff projectId : Int) (filter : CleanupFilter)
    (fuel : Nat) (s : Purging) : Option Purging :=
  if filter.includeLogs then
    drain (fun s => oldLogs projectId cutoff s.1) logBatch pick.logs fuel s
  else some s

def purgeEvents (pick : Pickers limit) (cutoff projectId : Int) (filter : CleanupFilter)
    (fuel : Nat) (s : Purging) : Option Purging :=
  if filter.includeEvents then
    drain (fun s => expired s.1.db projectId cutoff) (eventBatch projectId) pick.events fuel s
  else some s

/-- The loops of each project; `none` when the fuel of one of them runs out. -/
def purge (pick : Pickers limit) (cutoff : Int) (filter : CleanupFilter) (fuel : Nat) :
    List Int → Purging → Option Purging
  | [], s => some s
  | projectId :: rest, s => do
      let s ← purgeTransactions pick cutoff projectId filter fuel s
      let s ← purgeLogs pick cutoff projectId filter fuel s
      let s ← purgeEvents pick cutoff projectId filter fuel s
      purge pick cutoff filter fuel rest s

/-- The projects of a cleanup, `ORDER BY id`. -/
def cleanupProjects (s : Storage) (projectId : Option Int) : List Int :=
  (scopedProjects s projectId).mergeSort

/-- The dry run of `older_than_days`. -/
def previewCleanup (estimate : Estimate) (s : Storage) (now olderThanDays : Int)
    (projectId : Option Int) (filter : CleanupFilter) : AppResult CleanupCounts := do
  validateRetention olderThanDays
  return countCleanup estimate s (now - olderThanDays * day) projectId filter

/-- The cleanup of `older_than_days`, with a fuel for each loop. -/
def executeCleanupInBatches (pick : Pickers limit) (s : Storage) (now olderThanDays : Int)
    (projectId : Option Int) (filter : CleanupFilter) (fuel : Nat) : AppResult (Option Purging) := do
  validateRetention olderThanDays
  return purge pick (now - olderThanDays * day) filter fuel (cleanupProjects s projectId)
    (s, .default)

/-! ## Retention -/

/-- How long each kind of data is kept, in days; `none` keeps it forever. -/
structure RetentionWindows where
  eventsDays : Option Int
  transactionsDays : Option Int
  logsDays : Option Int
  deriving DecidableEq, Repr

namespace RetentionWindows

/-- Whether anything is ever deleted. -/
def deletesAnything (w : RetentionWindows) : Bool :=
  w.eventsDays.isSome || w.transactionsDays.isSome || w.logsDays.isSome

/-- One step for each kind with a window. -/
def steps (w : RetentionWindows) : List (Int × CleanupFilter) :=
  [w.eventsDays.map fun d => (d, ⟨true, false, false⟩),
    w.transactionsDays.map fun d => (d, ⟨false, true, false⟩),
    w.logsDays.map fun d => (d, ⟨false, false, true⟩)].reduceOption

def validate (w : RetentionWindows) : AppResult Unit :=
  forAll (fun (field, days) =>
      days.elim (.ok ()) fun days =>
        (validateRetention days).mapError fun e => e.withField field .invalid)
    [("events_days", w.eventsDays), ("transactions_days", w.transactionsDays),
      ("logs_days", w.logsDays)]

end RetentionWindows

/-- A project that keeps its data for other windows than the defaults. -/
structure ProjectRetention where
  projectId : Int
  windows : RetentionWindows
  deriving DecidableEq, Repr

structure RetentionSettings where
  defaults : RetentionWindows
  overrides : List ProjectRetention
  hour : Nat
  weekday : Nat
  deriving DecidableEq, Repr

namespace RetentionSettings

/-- The checks of the overrides, in their order, with the projects seen so far. -/
def validateOverrides : List Int → List ProjectRetention → AppResult Unit
  | _, [] => .ok ()
  | seen, project :: rest =>
      if seen.contains project.projectId then
        .error ((AppError.validation "A project can have only one override").withField "overrides"
          .invalid)
      else do
        project.windows.validate.mapError fun e => e.withField "overrides" .invalid
        validateOverrides (project.projectId :: seen) rest

/-- Whether these settings can run, naming the field that can't. -/
def validate (settings : RetentionSettings) : AppResult Unit := do
  settings.defaults.validate
  validateOverrides [] settings.overrides
  if 23 < settings.hour then
    .error ((AppError.validation "hour must be between 0 and 23").withField "hour" .invalid)
  else if 6 < settings.weekday then
    .error ((AppError.validation "weekday must be between 0 (Sunday) and 6").withField "weekday"
      .invalid)
  else .ok ()

/-- Whether any project ever loses data. -/
def deletesAnything (settings : RetentionSettings) : Bool :=
  settings.defaults.deletesAnything || settings.overrides.any (·.windows.deletesAnything)

end RetentionSettings

end Rustrak.Retention
