import Rustrak.Core.Error
import Rustrak.Core.Text
import Rustrak.Quota.Limits
import Rustrak.Relational.Table

/-!
# The tables a digest writes

Installation, projects, issues, groupings, events and the environments an issue
was seen in, with the one transaction that stores an event (`writeDigestRows` of
`digest/processors/event.rs`).

A transaction is a function from the tables to an outcome and the tables it would
commit; whoever calls it either commits them all or keeps the tables it had
(`writeDigestOnce`).  The primary key of a new issue is drawn outside the
database, so it is an argument; a key that is taken makes the insert fail.
-/

namespace Rustrak.Digest

open Rustrak.Core Rustrak.Quota Rustrak.Relational

/-- A UUID, as its hyphenated text. -/
abbrev Uuid := String

inductive IssueStatus
  | unresolved
  | resolved
  | ignored
  deriving DecidableEq, Repr

inductive IssueCategory
  | error
  | feedback
  deriving DecidableEq, Repr

/-- The installation singleton. -/
structure Installation where
  digestedEventCount : Int
  quota : QuotaWindows
  deriving DecidableEq, Repr

structure Project where
  id : Int
  storedEventCount : Int
  digestedEventCount : Int
  quota : QuotaWindows
  ownLimits : OwnLimits
  deriving DecidableEq, Repr

structure Issue where
  id : Uuid
  projectId : Int
  category : IssueCategory
  status : IssueStatus
  /-- `in_next_release` of `status_details`. -/
  inNextRelease : Bool
  firstSeen : Int
  lastSeen : Int
  firstRelease : String
  lastRelease : String
  storedEventCount : Int
  digestedEventCount : Int
  deriving DecidableEq, Repr

structure Grouping where
  projectId : Int
  issueId : Uuid
  groupingKey : String
  groupingKeyHash : String
  deriving DecidableEq, Repr

/-- A stored event.  Its grouping is named by the hash, which is unique in the
project. -/
structure EventRow where
  eventId : Uuid
  projectId : Int
  issueId : Option Uuid
  groupingKeyHash : String
  ingestedAt : Int
  environment : String
  deriving DecidableEq, Repr

/-- Where an issue has been seen. -/
structure IssueEnvironment where
  issueId : Uuid
  projectId : Int
  environment : String
  firstSeen : Int
  lastSeen : Int
  firstRelease : String
  eventCount : Int
  deriving DecidableEq, Repr

structure Db where
  installation : Installation
  projects : List Project
  issues : List Issue
  groupings : List Grouping
  events : List EventRow
  environments : List IssueEnvironment
  deriving DecidableEq, Repr

/-- An installation that has digested nothing yet. -/
def Db.fresh (projectIds : List Int) : Db where
  installation := ⟨0, .fresh⟩
  projects := projectIds.map fun id => ⟨id, 0, 0, .fresh, ⟨none, none⟩⟩
  issues := []
  groupings := []
  events := []
  environments := []

/-- `UNIQUE(project_id, event_id)`. -/
def EventRow.key (row : EventRow) : Int × Uuid := (row.projectId, row.eventId)

/-- `UNIQUE(project_id, grouping_key_hash)`. -/
def Grouping.key (g : Grouping) : Int × String := (g.projectId, g.groupingKeyHash)

/-- `PRIMARY KEY (issue_id, environment)`. -/
def IssueEnvironment.key (e : IssueEnvironment) : Uuid × String := (e.issueId, e.environment)

namespace Db

def project (db : Db) (id : Int) : Option Project := lookup Project.id id db.projects

def issue (db : Db) (id : Uuid) : Option Issue := lookup Issue.id id db.issues

/-- `EventService::exists`. -/
def hasEvent (db : Db) (projectId : Int) (eventId : Uuid) : Bool :=
  (lookup EventRow.key (projectId, eventId) db.events).isSome

/-- A grouping joined with its issue. -/
def findGrouping (db : Db) (projectId : Int) (hash : String) : Option (Grouping × Issue) :=
  (db.groupings.filter fun g => g.key = (projectId, hash)).findSome? fun g =>
    (db.issue g.issueId).map fun issue => (g, issue)

/-- `INSERT INTO groupings`. -/
def insertGrouping (db : Db) (g : Grouping) : AppResult Db :=
  if (lookup Grouping.key g.key db.groupings).isSome then .error (.database .uniqueViolation)
  else .ok { db with groupings := db.groupings ++ [g] }

end Db

/-! ## The write of one digest -/

/-- What the digest computed from an event before it writes anything. -/
structure DigestWrite where
  eventId : Uuid
  projectId : Int
  groupingKey : String
  groupingKeyHash : String
  legacyGroupingKeyHash : String
  /-- When the event was ingested. -/
  timestamp : Int
  release : String
  /-- The event's own `environment`, or empty. -/
  environment : String
  category : IssueCategory
  deriving DecidableEq, Repr

def DigestWrite.key (w : DigestWrite) : Int × Uuid := (w.projectId, w.eventId)

/-- The environment of the stored row, cut to its column. -/
def DigestWrite.storedEnvironment (w : DigestWrite) : String := clamp w.environment 64

inductive DigestOutcome
  | written (issueId : Uuid) (created regressed : Bool)
  | rateLimited (scope : QuotaScope)
  deriving DecidableEq, Repr

/-- The grouping an event lands in: the one of its current key, or the legacy
one claimed under the current key. -/
def existingGrouping (db : Db) (w : DigestWrite) : AppResult (Db × Option (Grouping × Issue)) :=
  match db.findGrouping w.projectId w.groupingKeyHash with
  | some found => .ok (db, some found)
  | none =>
      if w.legacyGroupingKeyHash = w.groupingKeyHash then .ok (db, none)
      else
        match db.findGrouping w.projectId w.legacyGroupingKeyHash with
        | none => .ok (db, none)
        | some (legacy, issue) => do
            let g : Grouping := ⟨w.projectId, legacy.issueId, w.groupingKey, w.groupingKeyHash⟩
            let db ← db.insertGrouping g
            return (db, some (g, issue))

/-- A new event for a resolved issue reopens it, unless it was resolved in the
next release and this event does not prove to be from one. -/
def isRegression (prev : Issue) (w : DigestWrite) : Bool :=
  let sameRelease := w.release == "" || w.release == prev.lastRelease
  prev.status == .resolved && !(prev.inNextRelease && sameRelease)

/-- The `UPDATE` of an issue that got one more event. -/
def Issue.withEvent (issue prev : Issue) (w : DigestWrite) : Issue :=
  { issue with
    firstSeen := min prev.firstSeen w.timestamp
    lastSeen := max prev.lastSeen w.timestamp
    digestedEventCount := issue.digestedEventCount + 1
    storedEventCount := issue.storedEventCount + 1
    status := if isRegression prev w then .unresolved else issue.status
    inNextRelease := if isRegression prev w then false else issue.inNextRelease
    lastRelease := if w.release ≠ "" then w.release else issue.lastRelease
    firstRelease := if issue.firstRelease = "" then w.release else issue.firstRelease }

/-- The row of an issue created for its first event. -/
def newIssue (w : DigestWrite) (id : Uuid) : Issue where
  id := id
  projectId := w.projectId
  category := w.category
  status := .unresolved
  inNextRelease := false
  firstSeen := w.timestamp
  lastSeen := w.timestamp
  firstRelease := w.release
  lastRelease := w.release
  storedEventCount := 1
  digestedEventCount := 1

/-- Where an event lands: its issue, whether that is new, and whether it regressed. -/
structure Landing where
  issueId : Uuid
  created : Bool
  regressed : Bool
  deriving DecidableEq, Repr

/-- `find_or_create_issue_and_grouping_inner`. -/
def findOrCreateIssue (db : Db) (w : DigestWrite) (freshId : Uuid) :
    AppResult (Db × Landing) := do
  let (db, existing) ← existingGrouping db w
  match existing with
  | some (g, prev) =>
      return ({ db with
          issues := modify Issue.id g.issueId (fun i => i.withEvent prev w) db.issues },
        ⟨g.issueId, false, isRegression prev w⟩)
  | none => do
      ensure (!(db.issue freshId).isSome) (.database .uniqueViolation)
      let db := { db with issues := db.issues ++ [newIssue w freshId] }
      let db ← db.insertGrouping ⟨w.projectId, freshId, w.groupingKey, w.groupingKeyHash⟩
      return (db, ⟨freshId, true, false⟩)

/-- `EventService::create`. -/
def insertEvent (db : Db) (w : DigestWrite) (issueId : Uuid) : AppResult Db :=
  if db.hasEvent w.projectId w.eventId then .error (.database .uniqueViolation)
  else
    .ok { db with
      events := db.events ++ [{
        eventId := w.eventId
        projectId := w.projectId
        issueId := some issueId
        groupingKeyHash := w.groupingKeyHash
        ingestedAt := w.timestamp
        environment := w.storedEnvironment }] }

/-- `ON CONFLICT (issue_id, environment) DO UPDATE`. -/
def IssueEnvironment.withEvent (e : IssueEnvironment) (w : DigestWrite) : IssueEnvironment :=
  { e with
    firstSeen := if w.timestamp < e.firstSeen then w.timestamp else e.firstSeen
    lastSeen := if w.timestamp > e.lastSeen then w.timestamp else e.lastSeen
    eventCount := e.eventCount + 1
    firstRelease := if e.firstRelease = "" then w.release else e.firstRelease }

/-- The row of an environment's first event. -/
def newEnvironment (w : DigestWrite) (issueId : Uuid) : IssueEnvironment where
  issueId := issueId
  projectId := w.projectId
  environment := w.storedEnvironment
  firstSeen := w.timestamp
  lastSeen := w.timestamp
  firstRelease := w.release
  eventCount := 1

/-- Where the issue has been seen; an event without an environment adds nothing. -/
def upsertEnvironment (db : Db) (w : DigestWrite) (issueId : Uuid) : Db :=
  let k := (issueId, w.storedEnvironment)
  if w.storedEnvironment = "" then db
  else if (lookup IssueEnvironment.key k db.environments).isSome then
    { db with
      environments := modify IssueEnvironment.key k (fun e => e.withEvent w) db.environments }
  else { db with environments := db.environments ++ [newEnvironment w issueId] }

/-- `try_consume` on the rows of the transaction. -/
def consumeQuota (config : RateLimitConfig) (db : Db) (projectId : Int) (now : Int) :
    Except QuotaScope Db :=
  match db.project projectId with
  | none =>
      -- No project row: its statement affects none, after the installation's.
      if hasRoom db.installation.quota config.installation now then .error .project
      else .error .installation
  | some project =>
      match tryConsume config db.installation.quota project.quota project.ownLimits now with
      | .error scope => .error scope
      | .ok (installation, quota) =>
          .ok { db with
            installation := { db.installation with quota := installation }
            projects := modify Project.id projectId (fun p => { p with quota }) db.projects }

/-- Counts the stored event on the installation and its project. -/
def incrementEventCounters (db : Db) (projectId : Int) : Db :=
  { db with
    installation :=
      { db.installation with digestedEventCount := db.installation.digestedEventCount + 1 }
    projects := modify Project.id projectId (fun p =>
      { p with
        storedEventCount := p.storedEventCount + 1
        digestedEventCount := p.digestedEventCount + 1 }) db.projects }

/-- The digest's writes, all inside one transaction.  The quota comes last; a full
one leaves the caller to roll everything back. -/
def writeDigestRows (config : RateLimitConfig) (db : Db) (w : DigestWrite) (freshId : Uuid)
    (now : Int) : AppResult (Db × DigestOutcome) := do
  let (db, landing) ← findOrCreateIssue db w freshId
  let db ← insertEvent db w landing.issueId
  let db := upsertEnvironment db w landing.issueId
  match consumeQuota config db w.projectId now with
  | .error scope => return (db, .rateLimited scope)
  | .ok db =>
      return (incrementEventCounters db w.projectId,
        .written landing.issueId landing.created landing.regressed)

/-- One attempt: commits what was written, rolls back anything else. -/
def writeDigestOnce (config : RateLimitConfig) (db : Db) (w : DigestWrite) (freshId : Uuid)
    (now : Int) : Db × AppResult DigestOutcome :=
  match writeDigestRows config db w freshId now with
  | .ok (db', .written issueId created regressed) => (db', .ok (.written issueId created regressed))
  | .ok (_, .rateLimited scope) => (db, .ok (.rateLimited scope))
  | .error e => (db, .error e)

/-! ## One digest -/

/-- What a digest ends with. -/
inductive Digested
  | stored
  | rateLimited
  deriving DecidableEq, Repr

/-- `process_impl` from the duplicate check on, for an event that was read and
parsed: `checked` and `now` are the two readings of the clock. -/
def digest (config : RateLimitConfig) (db : Db) (w : DigestWrite) (freshId : Uuid)
    (checked now : Int) : Db × AppResult Digested :=
  match db.project w.projectId with
  | none => (db, .error (.notFound s!"Project with id {w.projectId} not found"))
  | some project =>
      if db.hasEvent w.projectId w.eventId then (db, .ok .stored)
      else if (checkQuota config db.installation.quota project.quota project.ownLimits
          checked).isSome then (db, .ok .rateLimited)
      else
        match writeDigestOnce config db w freshId now with
        | (db, .ok (.written _ _ _)) => (db, .ok .stored)
        | (db, .ok (.rateLimited _)) => (db, .ok .rateLimited)
        | (db, .error e) => (db, .error e)

end Rustrak.Digest
