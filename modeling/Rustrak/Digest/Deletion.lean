import Mathlib.Algebra.Ring.Int.Defs
import Rustrak.Digest.ExactlyOnce

/-!
# Deleting issues and old events

`IssueService::delete`, `bulk_delete` and `delete_by_filter`, and the retention
batch `delete_event_batch`.  Each keeps the denormalised counters with its own
statement.

`DELETE FROM issues` cascades: the groupings, events and environments of a deleted
issue go with it.
-/

namespace Rustrak.Digest

open Rustrak.Core Rustrak.Relational

namespace Db

/-- Deletes the issues with these ids, and what belongs to them. -/
def deleteIssues (db : Db) (ids : List Uuid) : Db :=
  { db with
    issues := db.issues.filter fun i => !ids.contains i.id
    groupings := db.groupings.filter fun g => !ids.contains g.issueId
    events := db.events.filter fun e => !e.issueId.any ids.contains
    environments := db.environments.filter fun e => !ids.contains e.issueId }

/-- Takes these numbers off a project's counters, which never go below zero. -/
def uncount (db : Db) (projectId : Int) (stored digested : Int) : Db :=
  { db with
    projects := modify Project.id projectId (fun p =>
      { p with
        storedEventCount := max 0 (p.storedEventCount - stored)
        digestedEventCount := max 0 (p.digestedEventCount - digested) }) db.projects }

end Db

inductive IssueFilter
  | open
  | resolved
  | muted
  | all
  deriving DecidableEq, Repr

/-- `filter_clause`. -/
def IssueFilter.clause (filter : IssueFilter) (category : IssueCategory) (projectId : Int)
    (i : Issue) : Bool :=
  i.projectId == projectId &&
    (match filter with
      | .open => i.status == .unresolved
      | .resolved => i.status == .resolved
      | .muted => i.status == .ignored
      | .all => true) &&
    i.category == category

namespace IssueService

/-- Hard-deletes an issue and all associated events and groupings. -/
def delete (db : Db) (id : Uuid) : AppResult Db :=
  match db.issue id with
  | none => .error (.notFound s!"Issue {id} not found")
  | some row =>
      .ok ((db.deleteIssues [id]).uncount row.projectId row.storedEventCount
        row.digestedEventCount)

/-- Deletes issues of one project one by one, skipping rows of other projects, and
counts them.  A delete that fails leaves the ones before it done. -/
def bulkDelete (db : Db) (projectId : Int) (deleted : Nat) : List Uuid → Db × AppResult Nat
  | [] => (db, .ok deleted)
  | id :: rest =>
      if (db.issue id).map Issue.projectId ≠ some projectId then
        bulkDelete db projectId deleted rest
      else
        match delete db id with
        | .error e => (db, .error e)
        | .ok db => bulkDelete db projectId (deleted + 1) rest

/-- Deletes every error of the project that matches the filter, in one transaction. -/
def deleteByFilter (db : Db) (projectId : Int) (filter : IssueFilter) : Db × Nat :=
  let gone := db.issues.filter (filter.clause .error projectId)
  ((db.deleteIssues (gone.map Issue.id)).uncount projectId
      (gone.map Issue.storedEventCount).sum (gone.map Issue.digestedEventCount).sum,
    gone.length)

end IssueService

/-! ## Retention -/

/-- The events a batch may pick: old ones of the project. -/
def expired (db : Db) (projectId : Int) (cutoff : Int) : List EventRow :=
  db.events.filter fun e => e.projectId = projectId && decide (e.ingestedAt < cutoff)

/-- `INSERT INTO cleanup_batch SELECT … LIMIT`: any of the expired events, as many as
the limit allows. -/
def Picks (db : Db) (projectId : Int) (cutoff : Int) (limit : Nat) (picked : List EventRow) :
    Prop :=
  picked.Sublist (expired db projectId cutoff) ∧
    picked.length = min limit (expired db projectId cutoff).length

/-- How many of the picked events an issue loses. -/
def lost (picked : List EventRow) (i : Uuid) : Nat :=
  picked.countP fun e => e.issueId = some i

/-- An issue's row after its picked events were subtracted. -/
def Issue.without (i : Issue) (picked : List EventRow) : Issue :=
  { i with
    storedEventCount := i.storedEventCount - lost picked i.id
    digestedEventCount := i.digestedEventCount - lost picked i.id }

/-- The counters after the batch gave its events up: of each issue, and of the project
exactly what its issues gave up. -/
def subtractBatch (db : Db) (projectId : Int) (picked : List EventRow) : Db :=
  let n : Nat := picked.countP fun e => e.issueId.any fun i => (db.issue i).isSome
  { db with
    issues := db.issues.map fun i => i.without picked
    projects := modify Project.id projectId (fun p =>
      { p with
        storedEventCount := p.storedEventCount - n
        digestedEventCount := p.digestedEventCount - n }) db.projects }

/-- `DELETE FROM events WHERE id IN (SELECT id FROM cleanup_batch)`. -/
def deletePicked (db : Db) (picked : List EventRow) : Db :=
  { db with events := db.events.filter fun e => !(picked.map EventRow.key).contains e.key }

/-- The issues of the batch that have no event left. -/
def emptied (db : Db) (picked : List EventRow) : List Uuid :=
  (picked.filterMap EventRow.issueId).filter fun i =>
    !db.events.any fun e => e.issueId = some i

/-- Deletes the picked events of one project, keeps their issues' counters in step, and
removes the issues this batch left empty: the tables after it with the numbers of events
and issues removed, or `none` once none are left. -/
def deleteEventBatch (db : Db) (projectId : Int) (picked : List EventRow) :
    Option (Db × Nat × Nat) :=
  if picked.isEmpty then none
  else
    let events := (db.events.filter fun e => (picked.map EventRow.key).contains e.key).length
    let db := deletePicked (subtractBatch db projectId picked) picked
    let gone := emptied db picked
    some (db.deleteIssues gone, events, (db.issues.filter fun i => gone.contains i.id).length)

end Rustrak.Digest
