import Rustrak.Digest.Deletion
import Rustrak.Digest.NextRelease

/-!
# The life of an issue

`models/issue.rs` and the statements of `IssueService` that change the state of an issue: one by
one, in bulk, when a release is created, when a monitor recovers, when a commit fixes an issue,
and when an event comes in.  Substatus and priority are columns of `issues` that the digest only
writes, so they stand beside its tables, a row for each issue.

A request is one statement after the other, and the statements of all requests are interleaved
(`TriageStep`); what is proved of their runs holds whatever requests overlap.
-/

namespace Rustrak.Digest

open Rustrak.Core Rustrak.Quota Rustrak.Relational Rustrak.Transition

def IssueStatus.asStr : IssueStatus → String
  | .unresolved => "unresolved"
  | .resolved => "resolved"
  | .ignored => "ignored"

def IssueStatus.parse (s : String) : Option IssueStatus :=
  if s = "unresolved" then some .unresolved
  else if s = "resolved" then some .resolved
  else if s = "ignored" then some .ignored
  else none

/-- `UNRESOLVED_SUBSTATUSES`. -/
def unresolvedSubstatuses : List String := ["new", "ongoing", "escalating", "regressed"]

/-- `IGNORED_SUBSTATUSES`. -/
def ignoredSubstatuses : List String :=
  ["archived_until_escalating", "archived_until_condition_met", "archived_forever"]

def substatusValidForStatus (status : IssueStatus) (substatus : String) : Bool :=
  match status with
  | .unresolved => unresolvedSubstatuses.contains substatus
  | .ignored => ignoredSubstatuses.contains substatus
  | .resolved => false

/-- The priority of a new issue. -/
def derivePriority (level : Option String) : String :=
  match level with
  | none => "medium"
  | some level =>
      if level = "fatal" ∨ level = "error" then "high"
      else if level = "warning" then "medium"
      else if level = "info" ∨ level = "debug" then "low"
      else "medium"

def priorities : List String := ["low", "medium", "high"]

/-- The other columns of an issue. -/
structure TriageRow where
  id : Uuid
  /-- The number of the issue in its project. -/
  digestOrder : Int
  substatus : Option String
  priority : Option String
  priorityLockedAt : Option Int
  deriving DecidableEq, Repr

/-- The update of a priority. -/
def TriageRow.prioritized (priority : String) (now : Int) (r : TriageRow) : TriageRow :=
  { r with priority := some priority, priorityLockedAt := some now }

structure Release where
  projectId : Int
  version : String
  dateCreated : Int
  deriving DecidableEq, Repr

structure TriageDb where
  db : Db
  triage : List TriageRow
  releases : List Release
  deriving DecidableEq, Repr

namespace TriageDb

variable (t : TriageDb)

/-- `UPDATE issues SET status, substatus, status_details` of the issues picked. -/
def transition (picked : Issue → Bool) (status : IssueStatus) (substatus : Option String)
    (inNextRelease : Bool) : TriageDb :=
  let ids := (t.db.issues.filter picked).map Issue.id
  { t with
    db := { t.db with
      issues := t.db.issues.map fun i => if picked i then { i with status, inNextRelease } else i }
    triage := t.triage.map fun r => if ids.contains r.id then { r with substatus } else r }

/-- `SELECT MAX(digest_order)`, and one more. -/
def nextDigestOrder (projectId : Int) : Int :=
  ((t.triage.filter fun r => (t.db.issue r.id).any fun i => i.projectId == projectId).map
    TriageRow.digestOrder).max?.getD 0 + 1

def row (id : Uuid) : Option TriageRow := lookup TriageRow.id id t.triage

/-- The other tables after rows of `issues` are gone. -/
def prune (db : Db) : TriageDb :=
  { t with db, triage := t.triage.filter fun r => (db.issue r.id).isSome }

end TriageDb

/-- The update of `finalize_release`. -/
def Issue.finalized (projectId : Int) (older : List String) (i : Issue) : Issue :=
  if i.projectId == projectId && i.status == .resolved && i.inNextRelease &&
      older.contains i.lastRelease then
    { i with inNextRelease := false }
  else i

namespace IssueService

variable (t : TriageDb)

def defaultSubstatus : IssueStatus → Option String
  | .unresolved => some "ongoing"
  | .resolved => none
  | .ignored => some "archived_forever"

/-- Sets an issue's status; the substatus asked for has to go with it. -/
def setStatus (id : Uuid) (status : IssueStatus) (substatusOverride : Option String) :
    AppResult TriageDb := do
  let asked := substatusOverride.getD ""
  ensure (substatusOverride.all (substatusValidForStatus status))
    (.validation s!"substatus '{asked}' is not valid for status '{status.asStr}'")
  ensure (t.db.issue id).isSome (.notFound s!"Issue {id} not found")
  return t.transition (fun i => i.id == id) status (substatusOverride.or (defaultSubstatus status))
    false

/-- Resolved now; events of the current release do not reopen it. -/
def resolveInNextRelease (id : Uuid) : AppResult TriageDb := do
  ensure (t.db.issue id).isSome (.notFound s!"Issue {id} not found")
  return t.transition (fun i => i.id == id) .resolved none true

def validPriority (priority : String) : AppResult Unit :=
  ensure (priorities.contains priority) (.validation s!"Invalid priority: {priority}")

def setPriority (id : Uuid) (priority : String) (now : Int) : AppResult TriageDb := do
  validPriority priority
  ensure (t.db.issue id).isSome (.notFound s!"Issue {id} not found")
  return { t with
    triage := t.triage.map fun r => if r.id = id then r.prioritized priority now else r }

/-- The versions of the releases that are older than a new one. -/
def olderReleases (projectId : Int) (newReleaseDateCreated : Int) : List String :=
  (t.releases.filter fun r =>
    r.projectId == projectId && decide (r.dateCreated < newReleaseDateCreated)).map Release.version

/-- Clears the marker of the issues whose last release is older than a new one. -/
def finalizeRelease (projectId : Int) (newReleaseDateCreated : Int) : TriageDb :=
  let older := olderReleases t projectId newReleaseDateCreated
  { t with db := { t.db with issues := t.db.issues.map (Issue.finalized projectId older) } }

/-! ### In bulk

Each of these is part of the transaction of `bulk_update_issues`. -/

def inProject (projectId : Int) (id : Uuid) (i : Issue) : Bool :=
  i.id == id && i.projectId == projectId

/-- The loop of updates, and how many issues they updated. -/
def bulkTransition (projectId : Int) (status : IssueStatus) (substatus : Option String)
    (inNextRelease : Bool) : TriageDb → List Uuid → TriageDb × Nat
  | t, [] => (t, 0)
  | t, id :: rest =>
      let (after, updated) := bulkTransition projectId status substatus inNextRelease
        (t.transition (inProject projectId id) status substatus inNextRelease) rest
      (after, t.db.issues.countP (inProject projectId id) + updated)

def bulkSetStatus (projectId : Int) (ids : List Uuid) (status : String) :
    AppResult (TriageDb × Nat) := do
  let status ← okOr (IssueStatus.parse status) (.validation s!"Invalid status: {status}")
  return bulkTransition projectId status (defaultSubstatus status) false t ids

def bulkResolveInNextRelease (projectId : Int) (ids : List Uuid) : TriageDb × Nat :=
  bulkTransition projectId .resolved none true t ids

def bulkSetPriority (projectId : Int) (ids : List Uuid) (priority : String) (now : Int) :
    AppResult (TriageDb × Nat) := do
  validPriority priority
  let picked := t.db.issues.filter fun i => i.projectId == projectId && ids.contains i.id
  let ids := picked.map Issue.id
  return ({ t with
    triage := t.triage.map fun r =>
      if ids.contains r.id then r.prioritized priority now else r }, picked.length)

end IssueService

/-! ## Requests -/

structure UpdateIssueState where
  status : Option String
  substatus : Option String
  priority : Option String
  isResolved : Option Bool
  isMuted : Option Bool
  deriving DecidableEq, Repr

namespace UpdateIssueState

/-- The status asked for.  The deprecated `false` shims only undo what they stood for. -/
def resolvedStatus (body : UpdateIssueState) (currentStatus : IssueStatus) :
    AppResult (Option IssueStatus) :=
  match body.status with
  | some status => do
      let parsed ← okOr (IssueStatus.parse status) (.validation s!"Invalid status: {status}")
      return some parsed
  | none =>
      match body.isResolved, body.isMuted with
      | some true, _ => .ok (some .resolved)
      | some false, _ => .ok (if currentStatus = .resolved then some .unresolved else none)
      | none, some true => .ok (some .ignored)
      | none, some false => .ok (if currentStatus = .ignored then some .unresolved else none)
      | none, none => .ok none

def validatedSubstatus (body : UpdateIssueState) : AppResult (Option String) := do
  let asked := body.substatus.getD ""
  ensure (body.substatus.all (unresolvedSubstatuses ++ ignoredSubstatuses).contains)
    (.validation s!"Invalid substatus: {asked}")
  return body.substatus

end UpdateIssueState

/-- One update of one issue. -/
inductive IssueWrite
  | setStatus (id : Uuid) (status : IssueStatus) (substatusOverride : Option String)
  | resolveInNextRelease (id : Uuid)
  | setPriority (id : Uuid) (priority : String) (now : Int)
  deriving DecidableEq, Repr

def IssueWrite.run (t : TriageDb) : IssueWrite → AppResult TriageDb
  | .setStatus id status substatusOverride =>
      IssueService.setStatus t id status substatusOverride
  | .resolveInNextRelease id => IssueService.resolveInNextRelease t id
  | .setPriority id priority now => IssueService.setPriority t id priority now

/-- What `update_issue` writes to an issue that it read in this status. -/
def updateWrites (id : Uuid) (currentStatus : IssueStatus) (body : UpdateIssueState) (now : Int) :
    AppResult (List IssueWrite) := do
  let priority := (body.priority.map fun p => IssueWrite.setPriority id p now).toList
  if body.status = some "resolvedInNextRelease" then
    return .resolveInNextRelease id :: priority
  match ← body.resolvedStatus currentStatus with
  | none => return priority
  | some status => do
      let substatus ← body.validatedSubstatus
      return .setStatus id status substatus :: priority

/-- The writes of a request, up to the first that fails. -/
def runWrites (t : TriageDb) : List IssueWrite → TriageDb × AppResult Unit
  | [] => (t, .ok ())
  | w :: rest =>
      match w.run t with
      | .error e => (t, .error e)
      | .ok t => runWrites t rest

/-- `update_issue`, with no other request in between. -/
def updateIssue (t : TriageDb) (projectId : Int) (id : Uuid) (body : UpdateIssueState)
    (now : Int) : TriageDb × AppResult Unit :=
  let found := do
    let issue ← okOr (t.db.issue id) (.notFound s!"Issue {id} not found")
    ensure (issue.projectId == projectId) (.notFound s!"Issue {id} not found")
    updateWrites id issue.status body now
  match found with
  | .error e => (t, .error e)
  | .ok writes => runWrites t writes

structure BulkUpdateIssues where
  ids : List Uuid
  status : Option String
  priority : Option String
  deriving DecidableEq, Repr

def maxBulkIds : Nat := 1000

/-- The status of a bulk update, if it asks for one. -/
def bulkStatus (t : TriageDb) (projectId : Int) (ids : List Uuid) :
    Option String → AppResult (TriageDb × Nat)
  | none => .ok (t, 0)
  | some status =>
      if status = "resolvedInNextRelease" then
        .ok (IssueService.bulkResolveInNextRelease t projectId ids)
      else IssueService.bulkSetStatus t projectId ids status

/-- The transaction of `bulk_update_issues`. -/
def bulkUpdateIssues (t : TriageDb) (projectId : Int) (body : BulkUpdateIssues) (now : Int) :
    AppResult (TriageDb × Nat) := do
  ensure (body.ids.length ≤ maxBulkIds)
    (.validation s!"Too many ids: {body.ids.length} (max {maxBulkIds})")
  let (t, updated) ← bulkStatus t projectId body.ids body.status
  match body.priority with
  | none => return (t, updated)
  | some priority => do
      let (t, priorityUpdated) ← IssueService.bulkSetPriority t projectId body.ids priority now
      return (t, if body.status.isNone then priorityUpdated else updated)

/-! ## The system -/

/-- The rows beside the digest's tables after a digest that committed. -/
def TriageDb.digested (t : TriageDb) (db : Db) (w : DigestWrite) (level : Option String)
    (landing : Landing) : TriageDb :=
  { t with
    db
    triage :=
      if landing.created then
        t.triage ++ [⟨landing.issueId, t.nextDigestOrder w.projectId, some "new",
          some (derivePriority level), none⟩]
      else if landing.regressed then
        t.triage.map fun r =>
          if r.id = landing.issueId then { r with substatus := some "regressed" } else r
      else t.triage }

inductive TriageLabel
  | write (w : IssueWrite)
  | bulk (projectId : Int) (body : BulkUpdateIssues) (now : Int)
  | insertRelease (release : Release)
  | finalizeRelease (projectId : Int) (dateCreated : Int)
  /-- A monitor is healthy again: its failures are resolved. -/
  | recovered (projectId : Int) (keyHash : String)
  /-- A commit says it fixes an issue. -/
  | fixed (projectId : Int) (number : Int)
  | digest (w : DigestWrite) (freshId : Uuid) (level : Option String) (now : Int)
  | delete (id : Uuid)
  | deleteByFilter (projectId : Int) (filter : IssueFilter)
  | deleteEventBatch (projectId : Int) (picked : List EventRow)

/-- One statement, or one transaction. -/
inductive TriageStep (config : RateLimitConfig) : TriageDb → TriageLabel → TriageDb → Prop
  | write {t t' : TriageDb} {w : IssueWrite} : w.run t = .ok t' →
      TriageStep config t (.write w) t'
  | bulk {t t' : TriageDb} {projectId : Int} {body : BulkUpdateIssues} {now : Int}
      {updated : Nat} : bulkUpdateIssues t projectId body now = .ok (t', updated) →
      TriageStep config t (.bulk projectId body now) t'
  /-- `UNIQUE(project_id, version)`. -/
  | insertRelease {t : TriageDb} {release : Release} :
      (∀ r ∈ t.releases, r.projectId = release.projectId → r.version ≠ release.version) →
      TriageStep config t (.insertRelease release)
        { t with releases := t.releases ++ [release] }
  | finalizeRelease (t : TriageDb) (projectId dateCreated : Int) :
      TriageStep config t (.finalizeRelease projectId dateCreated)
        (IssueService.finalizeRelease t projectId dateCreated)
  | recovered (t : TriageDb) (projectId : Int) (keyHash : String) :
      TriageStep config t (.recovered projectId keyHash)
        (t.transition (fun i => i.status == .unresolved &&
          t.db.groupings.any fun g => g.key = (projectId, keyHash) && g.issueId == i.id)
          .resolved none false)
  | fixed (t : TriageDb) (projectId number : Int) :
      TriageStep config t (.fixed projectId number)
        (t.transition (fun i => i.projectId == projectId && i.status != .resolved &&
          t.triage.any fun r => r.id == i.id && r.digestOrder == number) .resolved none false)
  | digest {t : TriageDb} {db : Db} {w : DigestWrite} {freshId : Uuid} {level : Option String}
      {now : Int} {landing : Landing} :
      writeDigestRows config t.db w freshId now =
        .ok (db, .written landing.issueId landing.created landing.regressed) →
      TriageStep config t (.digest w freshId level now) (t.digested db w level landing)
  | delete {t : TriageDb} {id : Uuid} {db : Db} : IssueService.delete t.db id = .ok db →
      TriageStep config t (.delete id) (t.prune db)
  | deleteByFilter (t : TriageDb) (projectId : Int) (filter : IssueFilter) :
      TriageStep config t (.deleteByFilter projectId filter)
        (t.prune (IssueService.deleteByFilter t.db projectId filter).1)
  | deleteEventBatch {t : TriageDb} {projectId : Int} {picked : List EventRow} {db : Db}
      {counts : Nat × Nat} : deleteEventBatch t.db projectId picked = some (db, counts) →
      TriageStep config t (.deleteEventBatch projectId picked) (t.prune db)

variable {config : RateLimitConfig} {t t' u : TriageDb} {id : Uuid}

/-! ## What an update does to one issue -/

/-- The `SET` of an update. -/
def Issue.moved (status : IssueStatus) (inNextRelease : Bool) (i : Issue) : Issue :=
  { i with status, inNextRelease }

/-- An issue by its id, and whether an update picks it. -/
theorem contains_picked (id : Uuid) (hunique : (t.db.issues.map Issue.id).Nodup)
    (picked : Issue → Bool) :
    ((t.db.issues.filter picked).map Issue.id).contains id = (t.db.issue id).any picked := by
  rw [Bool.eq_iff_iff, List.contains_iff_mem, List.mem_map]
  constructor
  · rintro ⟨i, hi, rfl⟩
    obtain ⟨hmem, hpicked⟩ := List.mem_filter.mp hi
    rw [Db.issue, lookup_of_mem hunique hmem]
    exact hpicked
  · intro hany
    cases hissue : t.db.issue id with
    | none =>
        rw [hissue] at hany
        cases hany
    | some i =>
        rw [hissue, Option.any_some] at hany
        exact ⟨i, List.mem_filter.mpr ⟨mem_of_lookup hissue, hany⟩, key_of_lookup hissue⟩

theorem issue_transition (picked : Issue → Bool) (status : IssueStatus)
    (substatus : Option String) (inNextRelease : Bool) :
    (t.transition picked status substatus inNextRelease).db.issue id =
      (t.db.issue id).map fun i => if picked i then i.moved status inNextRelease else i := by
  refine lookup_map fun i => ?_
  split_ifs <;> rfl

theorem row_transition (hunique : (t.db.issues.map Issue.id).Nodup) (picked : Issue → Bool)
    (status : IssueStatus) (substatus : Option String) (inNextRelease : Bool) :
    (t.transition picked status substatus inNextRelease).row id =
      if (t.db.issue id).any picked then (t.row id).map fun r => { r with substatus }
      else t.row id := by
  have hmap : (t.transition picked status substatus inNextRelease).row id =
      (t.row id).map fun r =>
        if ((t.db.issues.filter picked).map Issue.id).contains r.id then { r with substatus }
        else r := by
    refine lookup_map fun r => ?_
    split_ifs <;> rfl
  rw [hmap]
  cases hrow : t.row id with
  | none => simp
  | some r =>
      have hid : r.id = id := key_of_lookup hrow
      simp only [Option.map_some, hid, contains_picked id hunique picked]
      split_ifs <;> rfl

/-- An update of the rows beside the digest's, seen at one of them. -/
theorem row_map {f : TriageRow → TriageRow} (hkey : ∀ r, (f r).id = r.id) {db : Db}
    {releases : List Release} :
    (⟨db, t.triage.map f, releases⟩ : TriageDb).row id = (t.row id).map f :=
  lookup_map hkey

theorem ids_transition (picked : Issue → Bool) (status : IssueStatus)
    (substatus : Option String) (inNextRelease : Bool) :
    (t.transition picked status substatus inNextRelease).db.issues.map Issue.id =
      t.db.issues.map Issue.id := by
  simp only [TriageDb.transition, List.map_map]
  refine List.map_congr_left fun i _ => ?_
  simp only [Function.comp]
  split_ifs <;> rfl

theorem Issue.finalized_keeps (i : Issue) (projectId : Int) (older : List String) :
    (i.finalized projectId older).id = i.id ∧ (i.finalized projectId older).status = i.status ∧
      ((i.finalized projectId older).inNextRelease = true → i.inNextRelease = true) := by
  unfold Issue.finalized
  split_ifs
  · exact ⟨rfl, rfl, fun hmarked => by simp at hmarked⟩
  · exact ⟨rfl, rfl, fun hmarked => hmarked⟩

theorem issue_finalizeRelease (projectId dateCreated : Int) :
    (IssueService.finalizeRelease t projectId dateCreated).db.issue id =
      (t.db.issue id).map
        (Issue.finalized projectId (IssueService.olderReleases t projectId dateCreated)) :=
  lookup_map fun i => (i.finalized_keeps projectId _).1

/-! ## What every state keeps -/

/-- Status, substatus, marker and priority go together. -/
structure Consistent (i : Issue) (r : TriageRow) : Prop where
  /-- Only a resolved issue has no substatus. -/
  bare : r.substatus = none → i.status = .resolved
  legal : ∀ substatus, r.substatus = some substatus →
    substatusValidForStatus i.status substatus = true
  marker : i.inNextRelease = true → i.status = .resolved
  priority : ∃ p ∈ priorities, r.priority = some p

structure TriageDb.Sound (t : TriageDb) : Prop where
  unique : (t.db.issues.map Issue.id).Nodup
  both : ∀ id, (t.row id).isSome = (t.db.issue id).isSome
  consistent : ∀ id i r, t.db.issue id = some i → t.row id = some r → Consistent i r

/-- What a status and a substatus have to be for an update to set them. -/
structure Settable (status : IssueStatus) (substatus : Option String) (inNextRelease : Bool) :
    Prop where
  bare : substatus = none → status = .resolved
  legal : ∀ s, substatus = some s → substatusValidForStatus status s = true
  marker : inNextRelease = true → status = .resolved

theorem settable_default (status : IssueStatus) :
    Settable status (IssueService.defaultSubstatus status) false := by
  cases status
  all_goals exact ⟨by decide, by decide, by decide⟩

theorem settable_resolved (inNextRelease : Bool) : Settable .resolved none inNextRelease :=
  ⟨fun _ => rfl, by simp, fun _ => rfl⟩

/-! What the digest says of the issue it landed on. -/

section Landing

variable {db db' : Db} {w : DigestWrite} {freshId : Uuid} {now : Int} {landing : Landing}

theorem Lands.known_or_created (h : Lands db w freshId db' landing) :
    (∃ prev, db.issue landing.issueId = some prev ∧ landing.created = false ∧
      landing.regressed = isRegression prev w) ∨
    db.issue landing.issueId = none ∧ landing.created = true := by
  cases h with
  | current hfound => exact .inl ⟨_, (findGrouping_eq_some hfound).2.2, rfl, rfl⟩
  | legacy _ _ hfound _ => exact .inl ⟨_, (findGrouping_eq_some hfound).2.2, rfl, rfl⟩
  | created _ _ hfresh _ => exact .inr ⟨hfresh, rfl⟩

theorem Lands.unique (h : Lands db w freshId db' landing)
    (hunique : (db.issues.map Issue.id).Nodup) : (db'.issues.map Issue.id).Nodup := by
  cases h with
  | current | legacy =>
      rw [map_key_modify fun issue => Issue.id_withEvent issue _ w]
      exact hunique
  | created _ _ hfresh _ => exact nodup_insert hunique hfresh

/-- An event finds its issue, and says whether it reopens it, or creates it. -/
theorem Written.landing_cases (h : Written config db w freshId now db' landing) :
    (∃ prev, db.issue landing.issueId = some prev ∧
      db'.issue landing.issueId = some (prev.withEvent prev w) ∧ landing.created = false ∧
      landing.regressed = isRegression prev w) ∨
    db.issue landing.issueId = none ∧
      db'.issue landing.issueId = some (newIssue w landing.issueId) ∧ landing.created = true := by
  rcases h.issue_landing with ⟨prev, hold, hnew⟩ | ⟨hold, hnew⟩
  · rcases h.lands.known_or_created with ⟨prev', hold', hcreated, hregressed⟩ | ⟨hnone, -⟩
    · obtain rfl : prev = prev' := Option.some.inj (hold.symm.trans hold')
      exact .inl ⟨prev, hold, hnew, hcreated, hregressed⟩
    · rw [hold] at hnone
      cases hnone
  · rcases h.lands.known_or_created with ⟨prev, hsome, -⟩ | ⟨-, hcreated⟩
    · rw [hold] at hsome
      cases hsome
    · exact .inr ⟨hold, hnew, hcreated⟩

theorem Issue.withEvent_of_regression {prev : Issue} (h : isRegression prev w = true) :
    (prev.withEvent prev w).status = .unresolved ∧
      (prev.withEvent prev w).inNextRelease = false := by
  simp [Issue.withEvent, h]

theorem Issue.withEvent_of_none {prev : Issue} (h : isRegression prev w = false) :
    (prev.withEvent prev w).status = prev.status ∧
      (prev.withEvent prev w).inNextRelease = prev.inNextRelease := by
  simp [Issue.withEvent, h]

end Landing

/-- Fewer issues, maybe with other counters. -/
structure Thins (db db' : Db) : Prop where
  unique : (db'.issues.map Issue.id).Nodup
  kept : ∀ id i, db'.issue id = some i → ∃ before, db.issue id = some before ∧
    i.status = before.status ∧ i.inNextRelease = before.inNextRelease

theorem thins_deleteIssues {db db' : Db} (hunique : (db.issues.map Issue.id).Nodup)
    (ids : List Uuid) (hissues : db'.issues = (db.deleteIssues ids).issues) : Thins db db' := by
  have hlookup : ∀ id, db'.issue id = if !ids.contains id then db.issue id else none := by
    intro id
    rw [Db.issue, hissues]
    exact lookup_filter_key fun id => !ids.contains id
  refine ⟨?_, fun id i hi => ?_⟩
  · rw [hissues]
    exact hunique.sublist (List.filter_sublist.map _)
  · rw [hlookup] at hi
    split_ifs at hi
    exact ⟨i, hi, rfl, rfl⟩

theorem thins_delete {db db' : Db} (hunique : (db.issues.map Issue.id).Nodup)
    (hdelete : IssueService.delete db id = .ok db') : Thins db db' := by
  unfold IssueService.delete at hdelete
  split at hdelete
  · cases hdelete
  · obtain rfl := Except.ok.inj hdelete
    exact thins_deleteIssues hunique [id] rfl

theorem thins_deleteByFilter {db : Db} (hunique : (db.issues.map Issue.id).Nodup)
    (projectId : Int) (filter : IssueFilter) :
    Thins db (IssueService.deleteByFilter db projectId filter).1 :=
  thins_deleteIssues hunique _ rfl

theorem thins_deleteEventBatch {db db' : Db} (hunique : (db.issues.map Issue.id).Nodup)
    {projectId : Int} {picked : List EventRow} {counts : Nat × Nat}
    (hdelete : deleteEventBatch db projectId picked = some (db', counts)) : Thins db db' := by
  unfold deleteEventBatch at hdelete
  split_ifs at hdelete
  obtain rfl := congrArg Prod.fst (Option.some.inj hdelete)
  have hsubtracted : ∀ id, lookup Issue.id id (db.issues.map fun i => i.without picked) =
      (db.issue id).map fun i => i.without picked := fun id => lookup_map fun _ => rfl
  have hids : (db.issues.map fun i => i.without picked).map Issue.id = db.issues.map Issue.id := by
    rw [List.map_map]
    exact List.map_congr_left fun _ _ => rfl
  obtain ⟨hnodup, hkept⟩ := thins_deleteIssues
    (show ((deletePicked (subtractBatch db projectId picked) picked).issues.map Issue.id).Nodup
      from hids ▸ hunique) _ rfl
  refine ⟨hnodup, fun id i hi => ?_⟩
  obtain ⟨before, hbefore, hstatus, hmarker⟩ := hkept id i hi
  obtain ⟨old, hold, rfl⟩ := Option.map_eq_some_iff.mp ((hsubtracted id).symm.trans hbefore)
  exact ⟨old, hold, hstatus, hmarker⟩

theorem derivePriority_mem (level : Option String) : derivePriority level ∈ priorities := by
  unfold derivePriority
  cases level with
  | none => decide
  | some level =>
      dsimp only
      split_ifs <;> decide

namespace TriageDb.Sound

theorem transition (h : t.Sound) {status : IssueStatus} {substatus : Option String}
    {inNextRelease : Bool} (hset : Settable status substatus inNextRelease)
    (picked : Issue → Bool) : (t.transition picked status substatus inNextRelease).Sound := by
  refine ⟨by rw [ids_transition]; exact h.unique, fun id => ?_, fun id i r hissue hrow => ?_⟩
  · rw [issue_transition, row_transition h.unique, Option.isSome_map]
    split_ifs
    · rw [Option.isSome_map, h.both]
    · exact h.both id
  · rw [issue_transition] at hissue
    rw [row_transition h.unique] at hrow
    obtain ⟨i, hi, rfl⟩ := Option.map_eq_some_iff.mp hissue
    rw [hi, Option.any_some] at hrow
    split_ifs at hrow ⊢ with hpicked
    · obtain ⟨r, hr, rfl⟩ := Option.map_eq_some_iff.mp hrow
      exact ⟨hset.bare, hset.legal, hset.marker, (h.consistent id i r hi hr).priority⟩
    · exact h.consistent id i r hi hrow

/-- An update of the rows beside the digest's. -/
theorem mapRows (h : t.Sound) {f : TriageRow → TriageRow} (hkey : ∀ r, (f r).id = r.id)
    (hkeeps : ∀ id i r, t.db.issue id = some i → t.row id = some r → Consistent i (f r)) :
    Sound { t with triage := t.triage.map f } := by
  refine ⟨h.unique, fun id => ?_, fun id i r hissue hr => ?_⟩
  · rw [row_map hkey, Option.isSome_map]
    exact h.both id
  · rw [row_map hkey] at hr
    obtain ⟨old, hold, rfl⟩ := Option.map_eq_some_iff.mp hr
    exact hkeeps id i old hissue hold

/-- An update of the digest's rows that keeps their status. -/
theorem mapIssues (h : t.Sound) {f : Issue → Issue} (hkey : ∀ i, (f i).id = i.id)
    (hstatus : ∀ i, (f i).status = i.status)
    (hmarker : ∀ i, (f i).inNextRelease = true → i.inNextRelease = true) :
    Sound { t with db := { t.db with issues := t.db.issues.map f } } := by
  have hissue : ∀ id, lookup Issue.id id (t.db.issues.map f) = (t.db.issue id).map f :=
    fun id => lookup_map hkey
  refine ⟨?_, fun id => ?_, fun id i r hi hr => ?_⟩
  · have hids : (t.db.issues.map f).map Issue.id = t.db.issues.map Issue.id := by
      rw [List.map_map]
      exact List.map_congr_left fun i _ => hkey i
    exact hids ▸ h.unique
  · rw [Db.issue, hissue, Option.isSome_map]
    exact h.both id
  · rw [Db.issue, hissue] at hi
    obtain ⟨before, hbefore, rfl⟩ := Option.map_eq_some_iff.mp hi
    have hold := h.consistent id before r hbefore hr
    refine ⟨fun hnone => (hstatus before).trans (hold.bare hnone), fun s hs => ?_,
      fun hmarked => ?_, hold.priority⟩
    · rw [hstatus before]
      exact hold.legal s hs
    · exact (hstatus before).trans (hold.marker (hmarker before hmarked))

/-- The row with a priority set. -/
theorem setPriority (h : t.Sound) {priority : String} (hpriority : priority ∈ priorities)
    (now : Int) (picked : TriageRow → Bool) :
    Sound { t with
      triage := t.triage.map fun r => if picked r then r.prioritized priority now else r } := by
  refine h.mapRows (fun r => ?_) fun id i r hissue hr => ?_
  · split_ifs <;> rfl
  · have hold := h.consistent id i r hissue hr
    split_ifs
    · exact ⟨hold.bare, hold.legal, hold.marker, priority, hpriority, rfl⟩
    · exact hold

theorem finalizeRelease (h : t.Sound) (projectId dateCreated : Int) :
    (IssueService.finalizeRelease t projectId dateCreated).Sound :=
  h.mapIssues (fun i => (i.finalized_keeps projectId _).1)
    (fun i => (i.finalized_keeps projectId _).2.1) fun i => (i.finalized_keeps projectId _).2.2

theorem write (h : t.Sound) {w : IssueWrite} (hw : w.run t = .ok t') : t'.Sound := by
  cases w with
  | setStatus id status substatusOverride =>
      obtain ⟨_, hvalid, hw⟩ := bind_eq_ok hw
      obtain ⟨_, -, hw⟩ := bind_eq_ok hw
      obtain rfl := Except.ok.inj hw
      refine h.transition ?_ _
      cases substatusOverride with
      | none => exact settable_default status
      | some s =>
          have hs : substatusValidForStatus status s = true := ensure_eq_ok hvalid
          refine ⟨by simp, fun s' hs' => ?_, by simp⟩
          exact Option.some.inj hs' ▸ hs
  | resolveInNextRelease id =>
      obtain ⟨_, -, hw⟩ := bind_eq_ok hw
      obtain rfl := Except.ok.inj hw
      exact h.transition (settable_resolved true) _
  | setPriority id priority now =>
      obtain ⟨_, hpriority, hw⟩ := bind_eq_ok hw
      obtain ⟨_, -, hw⟩ := bind_eq_ok hw
      obtain rfl := Except.ok.inj hw
      have hmem := List.contains_iff_mem.mp (ensure_eq_ok hpriority)
      have hset := h.setPriority hmem now fun r => decide (r.id = id)
      simpa only [decide_eq_true_eq] using hset

theorem bulkTransition {status : IssueStatus} {substatus : Option String} {inNextRelease : Bool}
    (hset : Settable status substatus inNextRelease) (projectId : Int) (ids : List Uuid)
    (h : t.Sound) :
    (IssueService.bulkTransition projectId status substatus inNextRelease t ids).1.Sound := by
  induction ids generalizing t with
  | nil => exact h
  | cons id rest ih => exact ih (h.transition hset _)

theorem bulkStatus (h : t.Sound) {projectId : Int} {ids : List Uuid} {status : Option String}
    {updated : Nat} (hbulk : Digest.bulkStatus t projectId ids status = .ok (t', updated)) :
    t'.Sound := by
  cases status with
  | none =>
      obtain rfl := congrArg Prod.fst (Except.ok.inj hbulk)
      exact h
  | some status =>
      unfold Digest.bulkStatus at hbulk
      dsimp only at hbulk
      split_ifs at hbulk
      · obtain rfl := congrArg Prod.fst (Except.ok.inj hbulk)
        exact bulkTransition (settable_resolved true) projectId ids h
      · obtain ⟨parsed, -, hbulk⟩ := bind_eq_ok hbulk
        obtain rfl := congrArg Prod.fst (Except.ok.inj hbulk)
        exact bulkTransition (settable_default parsed) projectId ids h

theorem bulk (h : t.Sound) {projectId : Int} {body : BulkUpdateIssues} {now : Int} {updated : Nat}
    (hbulk : bulkUpdateIssues t projectId body now = .ok (t', updated)) : t'.Sound := by
  obtain ⟨_, -, hbulk⟩ := bind_eq_ok hbulk
  obtain ⟨⟨mid, count⟩, hstatus, hbulk⟩ := bind_eq_ok hbulk
  have hmid : mid.Sound := h.bulkStatus hstatus
  cases hasked : body.priority with
  | none =>
      rw [hasked] at hbulk
      obtain rfl := congrArg Prod.fst (Except.ok.inj hbulk)
      exact hmid
  | some priority =>
      rw [hasked] at hbulk
      obtain ⟨⟨after, n⟩, hset, hbulk⟩ := bind_eq_ok hbulk
      obtain rfl := congrArg Prod.fst (Except.ok.inj hbulk)
      obtain ⟨_, hpriority, hset⟩ := bind_eq_ok hset
      obtain rfl := congrArg Prod.fst (Except.ok.inj hset)
      exact hmid.setPriority (List.contains_iff_mem.mp (ensure_eq_ok hpriority)) now _

/-- An event that reopens its issue. -/
theorem regressed (h : t.Sound) {db : Db} (hunique : (db.issues.map Issue.id).Nodup)
    {issueId : Uuid} {i : Issue} (hne : ∀ id, id ≠ issueId → db.issue id = t.db.issue id)
    (hold : (t.db.issue issueId).isSome = true) (hnew : db.issue issueId = some i)
    (hstatus : i.status = .unresolved) (hmarker : i.inNextRelease = false) :
    Sound { t with
      db
      triage := t.triage.map fun r =>
        if r.id = issueId then { r with substatus := some "regressed" } else r } := by
  have hrow : ∀ id, lookup TriageRow.id id (t.triage.map fun r =>
      if r.id = issueId then { r with substatus := some "regressed" } else r) =
      (t.row id).map fun r =>
        if r.id = issueId then { r with substatus := some "regressed" } else r := by
    refine fun id => lookup_map fun r => ?_
    split_ifs <;> rfl
  refine ⟨hunique, fun id => ?_, fun id j r hj hr => ?_⟩
  · rw [TriageDb.row, hrow, Option.isSome_map, h.both]
    by_cases hid : id = issueId
    · rw [hid, hold, hnew, Option.isSome_some]
    · rw [hne id hid]
  · rw [TriageDb.row, hrow] at hr
    obtain ⟨old, hrow', rfl⟩ := Option.map_eq_some_iff.mp hr
    have hrid : old.id = id := key_of_lookup hrow'
    by_cases hid : id = issueId
    · obtain rfl : i = j := Option.some.inj (hnew.symm.trans (hid ▸ hj))
      obtain ⟨before, hbefore⟩ := Option.isSome_iff_exists.mp hold
      rw [if_pos (hrid.trans hid)]
      refine ⟨by simp, fun s hs => ?_, by simp [hmarker], ?_⟩
      · obtain rfl := Option.some.inj hs
        rw [hstatus]
        decide
      · exact (h.consistent id before old (hid ▸ hbefore) hrow').priority
    · rw [if_neg (hrid ▸ hid)]
      exact h.consistent id j old ((hne id hid).symm.trans hj) hrow'

/-- An event that leaves the state of its issue. -/
theorem counted (h : t.Sound) {db : Db} (hunique : (db.issues.map Issue.id).Nodup)
    (hkept : ∀ id, (db.issue id).isSome = (t.db.issue id).isSome ∧
      ∀ i, db.issue id = some i → ∃ before, t.db.issue id = some before ∧
        i.status = before.status ∧ i.inNextRelease = before.inNextRelease) :
    Sound { t with db } := by
  refine ⟨hunique, fun id => (h.both id).trans (hkept id).1.symm, fun id i r hi hr => ?_⟩
  obtain ⟨before, hbefore, hstatus, hmarker⟩ := (hkept id).2 i hi
  have hold := h.consistent id before r hbefore hr
  exact ⟨hstatus ▸ hold.bare, hstatus ▸ hold.legal, hmarker ▸ hstatus ▸ hold.marker, hold.priority⟩

/-- An event with a new issue. -/
theorem created (h : t.Sound) {db : Db} {w : DigestWrite} {issueId : Uuid}
    (hunique : (db.issues.map Issue.id).Nodup)
    (hne : ∀ id, id ≠ issueId → db.issue id = t.db.issue id) (hold : t.db.issue issueId = none)
    (hnew : db.issue issueId = some (newIssue w issueId)) (order : Int) (level : Option String) :
    Sound { t with
      db
      triage := t.triage ++
        [⟨issueId, order, some "new", some (derivePriority level), none⟩] } := by
  have hfree : t.row issueId = none := by
    have hboth := h.both issueId
    rw [hold] at hboth
    simpa using hboth
  have hrow : ∀ id, id ≠ issueId → lookup TriageRow.id id
      (t.triage ++ [⟨issueId, order, some "new", some (derivePriority level), none⟩]) = t.row id :=
    fun id hid => lookup_insert_ne (Ne.symm hid)
  have hself : lookup TriageRow.id issueId
      (t.triage ++ [⟨issueId, order, some "new", some (derivePriority level), none⟩]) =
      some ⟨issueId, order, some "new", some (derivePriority level), none⟩ :=
    lookup_insert_self hfree rfl
  refine ⟨hunique, fun id => ?_, fun id i r hi hr => ?_⟩
  · by_cases hid : id = issueId
    · rw [hid, TriageDb.row, hself, hnew]
      rfl
    · rw [TriageDb.row, hrow id hid, hne id hid]
      exact h.both id
  · by_cases hid : id = issueId
    · subst hid
      obtain rfl := Option.some.inj (hnew.symm.trans hi)
      obtain rfl := Option.some.inj (hself.symm.trans hr)
      refine ⟨by simp, fun s hs => ?_, by simp [newIssue], _, derivePriority_mem level, rfl⟩
      obtain rfl := Option.some.inj hs
      rfl
    · exact h.consistent id i r ((hne id hid).symm.trans hi) ((hrow id hid).symm.trans hr)

/-- A committed digest. -/
theorem digested (h : t.Sound) {db : Db} {w : DigestWrite} {freshId : Uuid} {now : Int}
    {landing : Landing} (level : Option String)
    (hwritten : Written config t.db w freshId now db landing) :
    (t.digested db w level landing).Sound := by
  have hunique : (db.issues.map Issue.id).Nodup := hwritten.lands.unique h.unique
  have hne : ∀ id, id ≠ landing.issueId → db.issue id = t.db.issue id :=
    fun id hid => hwritten.issue_ne hid
  unfold TriageDb.digested
  rcases hwritten.landing_cases with ⟨prev, hold, hnew, hcreated, hregressed⟩ |
    ⟨hold, hnew, hcreated⟩
  · rw [hcreated, if_neg Bool.false_ne_true]
    cases hregression : isRegression prev w with
    | true =>
        rw [hregressed, hregression, if_pos rfl]
        obtain ⟨hstatus, hmarker⟩ := Issue.withEvent_of_regression hregression
        exact h.regressed hunique hne (by simp [hold]) hnew hstatus hmarker
    | false =>
        rw [hregressed, hregression, if_neg Bool.false_ne_true]
        refine h.counted hunique fun id => ?_
        by_cases hid : id = landing.issueId
        · subst hid
          rw [hnew, hold]
          refine ⟨rfl, fun i hi => ⟨prev, rfl, ?_⟩⟩
          obtain rfl := Option.some.inj hi
          exact Issue.withEvent_of_none hregression
        · rw [hne id hid]
          exact ⟨rfl, fun i hi => ⟨i, hi, rfl, rfl⟩⟩
  · rw [hcreated, if_pos rfl]
    exact h.created hunique hne hold hnew _ level

theorem prune (h : t.Sound) {db : Db} (hthins : Thins t.db db) : (t.prune db).Sound := by
  obtain ⟨hunique, hthin⟩ := hthins
  have hrow : ∀ id, (t.prune db).row id = if (db.issue id).isSome then t.row id else none :=
    fun id => lookup_filter_key fun id => (db.issue id).isSome
  refine ⟨hunique, fun id => ?_, fun id i r hissue hr => ?_⟩
  · rw [hrow]
    change _ = (db.issue id).isSome
    cases hissue : db.issue id with
    | none => rfl
    | some i =>
        obtain ⟨before, hbefore, -⟩ := hthin id i hissue
        rw [Option.isSome_some, if_pos rfl, h.both, hbefore, Option.isSome_some]
  · have hissue : db.issue id = some i := hissue
    obtain ⟨before, hbefore, hstatus, hmarker⟩ := hthin id i hissue
    rw [hrow, hissue, Option.isSome_some, if_pos rfl] at hr
    have hold := h.consistent id before r hbefore hr
    exact ⟨hstatus ▸ hold.bare, hstatus ▸ hold.legal, hmarker ▸ hstatus ▸ hold.marker,
      hold.priority⟩

theorem step (h : t.Sound) {label : TriageLabel} (hstep : TriageStep config t label t') :
    t'.Sound := by
  cases hstep with
  | write hw => exact h.write hw
  | bulk hbulk => exact h.bulk hbulk
  | insertRelease => exact ⟨h.unique, h.both, h.consistent⟩
  | finalizeRelease projectId dateCreated => exact h.finalizeRelease projectId dateCreated
  | recovered | fixed => exact h.transition (settable_resolved false) _
  | digest hwritten => exact h.digested _ (writeDigestRows_written hwritten)
  | delete hdelete => exact h.prune (thins_delete h.unique hdelete)
  | deleteByFilter projectId filter =>
      exact h.prune (thins_deleteByFilter h.unique projectId filter)
  | deleteEventBatch hdelete => exact h.prune (thins_deleteEventBatch h.unique hdelete)

end TriageDb.Sound

theorem TriageDb.Sound.run {labels : List TriageLabel} (h : t.Sound)
    (hrun : Run (TriageStep config) t labels t') : t'.Sound :=
  hrun.invariant TriageDb.Sound (fun _ _ _ h hstep => h.step hstep) h

theorem sound_fresh (projectIds : List Int) : TriageDb.Sound ⟨.fresh projectIds, [], []⟩ :=
  ⟨by simp [Db.fresh], fun id => rfl, fun id i r hi => by simp [Db.fresh, Db.issue, lookup] at hi⟩

/-- Whatever requests, events, monitors, commits and deletions overlap: an issue without a substatus
is resolved, a substatus is one of its status, only a resolved issue waits for the next release,
and every issue has a priority. -/
theorem issues_stay_consistent {projectIds : List Int} {labels : List TriageLabel}
    (hrun : Run (TriageStep config) ⟨.fresh projectIds, [], []⟩ labels t) {i : Issue}
    (hissue : t.db.issue id = some i) : ∃ r, t.row id = some r ∧ Consistent i r := by
  have hsound : t.Sound := (sound_fresh projectIds).run hrun
  obtain ⟨r, hr⟩ := Option.isSome_iff_exists.mp ((hsound.both id).trans (by rw [hissue]; rfl))
  exact ⟨r, hr, hsound.consistent id i r hissue hr⟩

/-! ## After a release -/

/-- The issue does not wait for the next release. -/
def Unmarked (id : Uuid) (t : TriageDb) : Prop :=
  ∀ i, t.db.issue id = some i → i.inNextRelease = false

/-- A statement that resolves an issue in the next release. -/
def TriageLabel.Marks (id : Uuid) : TriageLabel → Prop
  | .write (.resolveInNextRelease other) => other = id
  | .bulk _ body _ => body.status = some "resolvedInNextRelease" ∧ id ∈ body.ids
  | _ => False

namespace Unmarked

theorem transition (h : Unmarked id t) {picked : Issue → Bool} {status : IssueStatus}
    {substatus : Option String} {inNextRelease : Bool}
    (hset : inNextRelease = false ∨ ∀ i, t.db.issue id = some i → picked i = false) :
    Unmarked id (t.transition picked status substatus inNextRelease) := by
  intro i hi
  rw [issue_transition] at hi
  obtain ⟨before, hbefore, rfl⟩ := Option.map_eq_some_iff.mp hi
  split_ifs with hpicked
  · rcases hset with hfalse | hnone
    · exact hfalse
    · rw [hnone before hbefore] at hpicked
      cases hpicked
  · exact h before hbefore

theorem bulkTransition {projectId : Int} {status : IssueStatus} {substatus : Option String}
    {inNextRelease : Bool} {ids : List Uuid} (hset : inNextRelease = false ∨ id ∉ ids)
    (h : Unmarked id t) :
    Unmarked id (IssueService.bulkTransition projectId status substatus inNextRelease t ids).1 := by
  induction ids generalizing t with
  | nil => exact h
  | cons other rest ih =>
      refine ih (hset.imp_right fun hnot => List.not_mem_of_not_mem_cons hnot) (h.transition ?_)
      refine hset.imp_right fun hnot i hi => ?_
      have hid : i.id = id := key_of_lookup hi
      have hne : i.id ≠ other := fun heq => hnot (by simp [← heq, hid])
      simp [IssueService.inProject, hne]

theorem bulk (h : Unmarked id t) {projectId : Int} {body : BulkUpdateIssues} {now : Int}
    {updated : Nat} (hnot : ¬(body.status = some "resolvedInNextRelease" ∧ id ∈ body.ids))
    (hbulk : bulkUpdateIssues t projectId body now = .ok (t', updated)) : Unmarked id t' := by
  obtain ⟨_, -, hbulk⟩ := bind_eq_ok hbulk
  obtain ⟨⟨mid, count⟩, hstatus, hbulk⟩ := bind_eq_ok hbulk
  have hmid : Unmarked id mid := by
    cases hasked : body.status with
    | none =>
        rw [hasked] at hstatus
        obtain rfl := congrArg Prod.fst (Except.ok.inj hstatus)
        exact h
    | some status =>
        rw [hasked] at hstatus hnot
        unfold bulkStatus at hstatus
        dsimp only at hstatus
        split_ifs at hstatus with hnext
        · obtain rfl := congrArg Prod.fst (Except.ok.inj hstatus)
          exact h.bulkTransition (.inr fun hmem => hnot ⟨hnext ▸ rfl, hmem⟩)
        · obtain ⟨parsed, -, hstatus⟩ := bind_eq_ok hstatus
          obtain rfl := congrArg Prod.fst (Except.ok.inj hstatus)
          exact h.bulkTransition (.inl rfl)
  cases hasked : body.priority with
  | none =>
      rw [hasked] at hbulk
      obtain rfl := congrArg Prod.fst (Except.ok.inj hbulk)
      exact hmid
  | some priority =>
      rw [hasked] at hbulk
      obtain ⟨⟨after, n⟩, hset, hbulk⟩ := bind_eq_ok hbulk
      obtain rfl := congrArg Prod.fst (Except.ok.inj hbulk)
      obtain ⟨_, -, hset⟩ := bind_eq_ok hset
      obtain rfl := congrArg Prod.fst (Except.ok.inj hset)
      exact hmid

theorem digested (h : Unmarked id t) {db : Db} {w : DigestWrite} {freshId : Uuid} {now : Int}
    {landing : Landing} (hwritten : Written config t.db w freshId now db landing) :
    ∀ i, db.issue id = some i → i.inNextRelease = false := by
  intro i hi
  by_cases hid : id = landing.issueId
  · subst hid
    rcases hwritten.landing_cases with ⟨prev, hold, hnew, -⟩ | ⟨-, hnew, -⟩
    · obtain rfl := Option.some.inj (hnew.symm.trans hi)
      cases hregression : isRegression prev w with
      | true => exact (Issue.withEvent_of_regression hregression).2
      | false => exact (Issue.withEvent_of_none hregression).2.trans (h prev hold)
    · obtain rfl := Option.some.inj (hnew.symm.trans hi)
      rfl
  · exact h i ((hwritten.issue_ne hid).symm.trans hi)

theorem prune (h : Unmarked id t) {db : Db} (hthins : Thins t.db db) :
    Unmarked id (t.prune db) := by
  intro i hi
  obtain ⟨before, hbefore, -, hmarker⟩ := hthins.kept id i hi
  exact hmarker.trans (h before hbefore)

theorem step (h : Unmarked id t) (hsound : t.Sound) {label : TriageLabel}
    (hnot : ¬label.Marks id) (hstep : TriageStep config t label t') : Unmarked id t' := by
  cases hstep with
  | @write _ w hw =>
      cases w with
      | setStatus other status substatusOverride =>
          obtain ⟨_, -, hw⟩ := bind_eq_ok hw
          obtain ⟨_, -, hw⟩ := bind_eq_ok hw
          obtain rfl := Except.ok.inj hw
          exact h.transition (.inl rfl)
      | resolveInNextRelease other =>
          obtain ⟨_, -, hw⟩ := bind_eq_ok hw
          obtain rfl := Except.ok.inj hw
          refine h.transition (.inr fun i hi => ?_)
          have hid : i.id = id := key_of_lookup hi
          have hne : i.id ≠ other := fun heq => hnot (heq.symm.trans hid)
          simp [hne]
      | setPriority other priority now =>
          obtain ⟨_, -, hw⟩ := bind_eq_ok hw
          obtain ⟨_, -, hw⟩ := bind_eq_ok hw
          obtain rfl := Except.ok.inj hw
          exact h
  | bulk hbulk => exact h.bulk hnot hbulk
  | insertRelease => exact h
  | finalizeRelease projectId dateCreated =>
      intro i hi
      rw [issue_finalizeRelease] at hi
      obtain ⟨before, hbefore, rfl⟩ := Option.map_eq_some_iff.mp hi
      rw [← Bool.not_eq_true]
      intro hmarked
      have hold := (before.finalized_keeps projectId _).2.2 hmarked
      rw [h before hbefore] at hold
      cases hold
  | recovered | fixed => exact h.transition (.inl rfl)
  | digest hwritten => exact h.digested (writeDigestRows_written hwritten)
  | delete hdelete => exact h.prune (thins_delete hsound.unique hdelete)
  | deleteByFilter projectId filter =>
      exact h.prune (thins_deleteByFilter hsound.unique projectId filter)
  | deleteEventBatch hdelete => exact h.prune (thins_deleteEventBatch hsound.unique hdelete)

theorem run (h : Unmarked id t) (hsound : t.Sound) {labels : List TriageLabel}
    (hrun : Run (TriageStep config) t labels u) (hnot : ∀ label ∈ labels, ¬label.Marks id) :
    Unmarked id u := by
  induction hrun with
  | nil => exact h
  | @cons s mid end' label labels hstep hrest ih =>
      exact ih (h.step hsound (hnot label List.mem_cons_self) hstep) (hsound.step hstep)
        fun other hother => hnot other (List.mem_cons_of_mem _ hother)

/-- The statement for a release clears the marker of an issue whose last release is older. -/
theorem of_finalizeRelease (hsound : t.Sound) {issue : Issue} {release : Release}
    {dateCreated : Int} (hissue : t.db.issue id = some issue) (hrelease : release ∈ t.releases)
    (hof : release.projectId = issue.projectId) (hversion : release.version = issue.lastRelease)
    (hdate : release.dateCreated < dateCreated) :
    Unmarked id (IssueService.finalizeRelease t issue.projectId dateCreated) := by
  intro i hi
  rw [issue_finalizeRelease, hissue, Option.map_some] at hi
  obtain rfl := Option.some.inj hi
  have holder : issue.lastRelease ∈ IssueService.olderReleases t issue.projectId dateCreated := by
    refine List.mem_map.mpr ⟨release, List.mem_filter.mpr ⟨hrelease, ?_⟩, hversion⟩
    simp [hof, hdate]
  cases hmarker : issue.inNextRelease with
  | false =>
      rw [← Bool.not_eq_true]
      intro hmarked
      rw [(issue.finalized_keeps _ _).2.2 hmarked] at hmarker
      cases hmarker
  | true =>
      obtain ⟨r, hr⟩ := Option.isSome_iff_exists.mp ((hsound.both id).trans (by rw [hissue]; rfl))
      have hresolved := (hsound.consistent id issue r hissue hr).marker hmarker
      simp [Issue.finalized, hresolved, hmarker, holder]

end Unmarked

/-- Once a release was created, an issue that was resolved while an older release was its last one
is reopened by its next event, whatever release that event names, unless it is resolved in the
next release again. -/
theorem finalized_issue_reopens {projectIds : List Int} {labels later : List TriageLabel}
    {dateCreated : Int} {issue : Issue} {release : Release} {w : DigestWrite}
    {freshId : Uuid} {now : Int} {db : Db} {created regressed : Bool}
    (hrun : Run (TriageStep config) ⟨.fresh projectIds, [], []⟩ labels t)
    (hissue : t.db.issue id = some issue) (hrelease : release ∈ t.releases)
    (hof : release.projectId = issue.projectId) (hversion : release.version = issue.lastRelease)
    (hdate : release.dateCreated < dateCreated)
    (hlater : Run (TriageStep config)
      (IssueService.finalizeRelease t issue.projectId dateCreated) later u)
    (hnot : ∀ label ∈ later, ¬label.Marks id) (hresolved : u.db.IsResolved id)
    (hwritten : writeDigestRows config u.db w freshId now =
      .ok (db, .written id created regressed)) :
    created = false ∧ regressed = true ∧ ¬db.IsResolved id := by
  have hsound : t.Sound := (sound_fresh projectIds).run hrun
  have hunmarked := (Unmarked.of_finalizeRelease hsound hissue hrelease hof hversion hdate).run
    (hsound.finalizeRelease issue.projectId dateCreated) hlater hnot
  rcases (writeDigestRows_written hwritten).landing_cases with
    ⟨prev, hprev, hnew, hcreated, hregressed⟩ | ⟨hnone, -⟩
  · have hstatus : prev.status = .resolved := by
      rw [Db.IsResolved, hprev] at hresolved
      exact Option.some.inj hresolved
    have hregression : isRegression prev w = true := by
      simp [isRegression, hstatus, hunmarked prev hprev]
    refine ⟨hcreated, hregressed.trans hregression, ?_⟩
    rw [Db.IsResolved, hnew, Option.map_some, (Issue.withEvent_of_regression hregression).1]
    decide
  · have hnone : u.db.issue id = none := hnone
    rw [Db.IsResolved, hnone] at hresolved
    cases hresolved

/-! ## In bulk and one by one -/

/-- Whether a bulk update is about an issue. -/
def listed (t : TriageDb) (projectId : Int) (ids : List Uuid) (id : Uuid) : Bool :=
  ids.contains id && (t.db.issue id).any fun i => i.projectId == projectId

section Bulk

variable {projectId : Int} {status : IssueStatus} {substatus : Option String}
  {inNextRelease : Bool}

theorem any_inProject {other : Uuid} :
    (t.db.issue id).any (IssueService.inProject projectId other) =
      (decide (other = id) && (t.db.issue id).any fun i => i.projectId == projectId) := by
  cases hissue : t.db.issue id with
  | none => simp
  | some i =>
      have hid : i.id = id := key_of_lookup hissue
      rw [Option.any_some, Option.any_some, IssueService.inProject, hid]
      congr 1
      rw [Bool.beq_eq_decide_eq, decide_eq_decide]
      exact eq_comm

theorem Issue.moved_moved :
    Issue.moved status inNextRelease ∘ Issue.moved status inNextRelease =
      Issue.moved status inNextRelease := rfl

theorem any_transition (picked : Issue → Bool) :
    ((t.transition picked status substatus inNextRelease).db.issue id).any
        (fun i => i.projectId == projectId) =
      (t.db.issue id).any fun i => i.projectId == projectId := by
  rw [issue_transition]
  cases t.db.issue id with
  | none => rfl
  | some i =>
      rw [Option.map_some, Option.any_some, Option.any_some]
      split_ifs <;> rfl

theorem issue_transition_any (picked : Issue → Bool) :
    (t.transition picked status substatus inNextRelease).db.issue id =
      if (t.db.issue id).any picked then (t.db.issue id).map (Issue.moved status inNextRelease)
      else t.db.issue id := by
  rw [issue_transition]
  cases t.db.issue id with
  | none => rfl
  | some i =>
      rw [Option.map_some, Option.any_some]
      split_ifs <;> rfl

/-- The loop of updates, seen at one issue. -/
theorem bulkTransition_at (id : Uuid) (projectId : Int) (status : IssueStatus)
    (substatus : Option String) (inNextRelease : Bool) (ids : List Uuid)
    (hunique : (t.db.issues.map Issue.id).Nodup) :
    let after := (IssueService.bulkTransition projectId status substatus inNextRelease t ids).1
    after.db.issue id =
      (if listed t projectId ids id then (t.db.issue id).map (Issue.moved status inNextRelease)
        else t.db.issue id) ∧
    after.row id =
      if listed t projectId ids id then (t.row id).map fun r => { r with substatus }
      else t.row id := by
  dsimp only
  induction ids generalizing t with
  | nil => exact ⟨rfl, rfl⟩
  | cons other rest ih =>
      obtain ⟨hissue, hrow⟩ := ih (t := t.transition (IssueService.inProject projectId other) status
        substatus inNextRelease) (by rw [ids_transition]; exact hunique)
      unfold listed at hissue hrow ⊢
      rw [any_transition, issue_transition_any, any_inProject] at hissue
      rw [any_transition, row_transition hunique, any_inProject] at hrow
      rw [IssueService.bulkTransition]
      dsimp only
      rw [hissue, hrow, List.contains_cons]
      by_cases hid : other = id
      · subst hid
        rw [decide_eq_true rfl, beq_self_eq_true, Bool.true_and, Bool.true_or, Bool.true_and]
        cases (t.db.issue other).any fun i => i.projectId == projectId with
        | false => simp
        | true =>
            refine ⟨?_, ?_⟩
            · rw [if_pos rfl, Option.map_map, Issue.moved_moved, ite_self]
            · rw [if_pos rfl, Option.map_map]
              exact ite_self _
      · have hbeq : (id == other) = false := beq_eq_false_iff_ne.mpr (Ne.symm hid)
        rw [decide_eq_false hid, hbeq, Bool.false_and, Bool.false_or, if_neg Bool.false_ne_true,
          if_neg Bool.false_ne_true]
        exact ⟨rfl, rfl⟩

/-- Two states agree about one issue. -/
def Alike (id : Uuid) (t t' : TriageDb) : Prop :=
  t.db.issue id = t'.db.issue id ∧ t.row id = t'.row id

/-- One update of one issue, seen at it. -/
theorem single_at (status : IssueStatus) (substatus : Option String) (inNextRelease : Bool)
    (hunique : (t.db.issues.map Issue.id).Nodup) (hsome : (t.db.issue id).isSome) :
    let after := t.transition (fun i => i.id == id) status substatus inNextRelease
    after.db.issue id = (t.db.issue id).map (Issue.moved status inNextRelease) ∧
      after.row id = (t.row id).map fun r => { r with substatus } := by
  dsimp only
  obtain ⟨issue, hissue⟩ := Option.isSome_iff_exists.mp hsome
  have hpicked : (t.db.issue id).any (fun i => i.id == id) = true := by
    rw [hissue, Option.any_some]
    exact beq_iff_eq.mpr (key_of_lookup hissue)
  rw [issue_transition_any, row_transition hunique, if_pos hpicked, if_pos hpicked]
  exact ⟨rfl, rfl⟩

theorem runWrites_cons {w : IssueWrite} (h : w.run t = .ok t') (rest : List IssueWrite) :
    runWrites t (w :: rest) = runWrites t' rest := by
  rw [runWrites, h]

theorem run_setStatus (hsome : (t.db.issue id).isSome = true) (status : IssueStatus) :
    (IssueWrite.setStatus id status none).run t = .ok (t.transition (fun i => i.id == id) status
      (IssueService.defaultSubstatus status) false) := by
  simp only [IssueWrite.run, IssueService.setStatus, ensure, Option.all_none, hsome, if_true,
    ok_bind]
  rfl

theorem run_resolveInNextRelease (hsome : (t.db.issue id).isSome = true) :
    (IssueWrite.resolveInNextRelease id).run t =
      .ok (t.transition (fun i => i.id == id) .resolved none true) := by
  simp only [IssueWrite.run, IssueService.resolveInNextRelease, ensure, hsome, if_true, ok_bind]
  rfl

/-- The status of a bulk update, against the writes of a single one before its priority. -/
theorem bulkStatus_alike {asked : Option String} (priority : Option String) (now : Int)
    {mid : TriageDb} {ids : List Uuid} {updated : Nat} {issue : Issue} (hsound : t.Sound)
    (hissue : t.db.issue id = some issue) (hlisted : listed t projectId ids id = true)
    (hbulk : bulkStatus t projectId ids asked = .ok (mid, updated)) :
    ∃ first single,
      updateWrites id issue.status ⟨asked, none, priority, none, none⟩ now =
        .ok (first ++ (priority.map fun p => IssueWrite.setPriority id p now).toList) ∧
      (∀ rest, runWrites t (first ++ rest) = runWrites single rest) ∧ Alike id mid single ∧
      (single.db.issue id).isSome = true := by
  have hsome : (t.db.issue id).isSome = true := by rw [hissue, Option.isSome_some]
  have hmoved : ∀ (status : IssueStatus) (substatus : Option String) (marker : Bool),
      Alike id (IssueService.bulkTransition projectId status substatus marker t ids).1
        (t.transition (fun i => i.id == id) status substatus marker) ∧
      ((t.transition (fun i => i.id == id) status substatus marker).db.issue id).isSome = true := by
    intro status substatus marker
    obtain ⟨hone, hrow⟩ := single_at status substatus marker hsound.unique hsome
    obtain ⟨hmany, hrows⟩ :=
      bulkTransition_at id projectId status substatus marker ids hsound.unique
    rw [if_pos hlisted] at hmany hrows
    refine ⟨⟨hmany.trans hone.symm, hrows.trans hrow.symm⟩, ?_⟩
    rw [hone, Option.isSome_map]
    exact hsome
  cases asked with
  | none =>
      obtain rfl := congrArg Prod.fst (Except.ok.inj hbulk)
      exact ⟨[], t, rfl, fun rest => rfl, ⟨rfl, rfl⟩, hsome⟩
  | some asked =>
      unfold bulkStatus at hbulk
      dsimp only at hbulk
      split_ifs at hbulk with hnext
      · obtain rfl := congrArg Prod.fst (Except.ok.inj hbulk)
        obtain ⟨halike, hafter⟩ := hmoved .resolved none true
        refine ⟨[.resolveInNextRelease id], _, ?_,
          fun rest => runWrites_cons (run_resolveInNextRelease hsome) rest, halike, hafter⟩
        unfold updateWrites
        rw [if_pos (congrArg some hnext)]
        rfl
      · obtain ⟨parsed, hparsed, hbulk⟩ := bind_eq_ok hbulk
        obtain rfl := congrArg Prod.fst (Except.ok.inj hbulk)
        obtain ⟨halike, hafter⟩ := hmoved parsed (IssueService.defaultSubstatus parsed) false
        refine ⟨[.setStatus id parsed none], _, ?_,
          fun rest => runWrites_cons (run_setStatus hsome parsed) rest, halike, hafter⟩
        have hnot : some asked ≠ some "resolvedInNextRelease" := fun heq =>
          hnext (Option.some.inj heq)
        unfold updateWrites
        rw [if_neg hnot]
        simp only [UpdateIssueState.resolvedStatus, hparsed, ok_bind]
        rfl

/-- A bulk update of the status leaves the project of every issue. -/
theorem bulkStatus_at (id : Uuid) {asked : Option String} {mid : TriageDb} {ids : List Uuid}
    {updated : Nat} (hsound : t.Sound)
    (hbulk : bulkStatus t projectId ids asked = .ok (mid, updated)) :
    listed mid projectId ids id = listed t projectId ids id ∧
      (listed t projectId ids id = false → Alike id mid t) := by
  have hmoved : ∀ (status : IssueStatus) (substatus : Option String) (marker : Bool),
      listed (IssueService.bulkTransition projectId status substatus marker t ids).1 projectId ids
        id = listed t projectId ids id ∧
      (listed t projectId ids id = false →
        Alike id (IssueService.bulkTransition projectId status substatus marker t ids).1 t) := by
    intro status substatus marker
    obtain ⟨hissue, hrow⟩ :=
      bulkTransition_at id projectId status substatus marker ids hsound.unique
    refine ⟨?_, fun hnot => ?_⟩
    · cases hlisted : listed t projectId ids id with
      | true =>
          rw [hlisted, if_pos rfl] at hissue
          rw [listed, hissue, Option.any_map]
          exact hlisted
      | false =>
          rw [hlisted, if_neg Bool.false_ne_true] at hissue
          rw [listed, hissue]
          exact hlisted
    · rw [hnot, if_neg Bool.false_ne_true] at hissue hrow
      exact ⟨hissue, hrow⟩
  cases asked with
  | none =>
      obtain rfl := congrArg Prod.fst (Except.ok.inj hbulk)
      exact ⟨rfl, fun _ => ⟨rfl, rfl⟩⟩
  | some asked =>
      unfold bulkStatus at hbulk
      dsimp only at hbulk
      split_ifs at hbulk
      · obtain rfl := congrArg Prod.fst (Except.ok.inj hbulk)
        exact hmoved .resolved none true
      · obtain ⟨parsed, -, hbulk⟩ := bind_eq_ok hbulk
        obtain rfl := congrArg Prod.fst (Except.ok.inj hbulk)
        exact hmoved parsed (IssueService.defaultSubstatus parsed) false

/-- The priority of a bulk update, seen at one issue. -/
theorem bulkSetPriority_at (id : Uuid) {mid after : TriageDb} {ids : List Uuid}
    {priority : String} {n : Nat} {now : Int} (hunique : (mid.db.issues.map Issue.id).Nodup)
    (hset : IssueService.bulkSetPriority mid projectId ids priority now = .ok (after, n)) :
    priority ∈ priorities ∧ after.db = mid.db ∧
      after.row id = if listed mid projectId ids id then
        (mid.row id).map (TriageRow.prioritized priority now) else mid.row id := by
  obtain ⟨_, hpriority, hset⟩ := bind_eq_ok hset
  obtain rfl := congrArg Prod.fst (Except.ok.inj hset)
  refine ⟨List.contains_iff_mem.mp (ensure_eq_ok hpriority), rfl, ?_⟩
  have hcontains := contains_picked id hunique fun i =>
    i.projectId == projectId && ids.contains i.id
  have hlisted : (mid.db.issue id).any (fun i => i.projectId == projectId && ids.contains i.id) =
      listed mid projectId ids id := by
    unfold listed
    cases hissue : mid.db.issue id with
    | none => rw [Option.any_none, Option.any_none, Bool.and_false]
    | some i =>
        have hid : i.id = id := key_of_lookup hissue
        rw [Option.any_some, Option.any_some, hid, Bool.and_comm]
  refine (row_map ?_).trans ?_
  · intro r
    split_ifs <;> rfl
  cases hrow : mid.row id with
  | none => simp
  | some r =>
      have hrid : r.id = id := key_of_lookup hrow
      simp only [Option.map_some, hrid, hcontains, hlisted]
      split_ifs <;> rfl

/-- The priority of a single update, seen at its issue. -/
theorem run_setPriority {priority : String} (now : Int) (hpriority : priority ∈ priorities)
    (hsome : (t.db.issue id).isSome = true) :
    ∃ after, (IssueWrite.setPriority id priority now).run t = .ok after ∧ after.db = t.db ∧
      after.row id = (t.row id).map (TriageRow.prioritized priority now) := by
  refine ⟨{ t with
    triage := t.triage.map fun r => if r.id = id then r.prioritized priority now else r },
    ?_, rfl, ?_⟩
  · have hcontains : priorities.contains priority = true := List.contains_iff_mem.mpr hpriority
    simp only [IssueWrite.run, IssueService.setPriority, IssueService.validPriority, ensure,
      hcontains, hsome, if_true, ok_bind]
    rfl
  · refine (row_map ?_).trans ?_
    · intro r
      split_ifs <;> rfl
    cases hrow : t.row id with
    | none => rfl
    | some r =>
        have hrid : r.id = id := key_of_lookup hrow
        rw [Option.map_some, Option.map_some, if_pos hrid]

/-- A bulk update leaves each issue of the project that it lists, however often, as an update of
that issue alone would, and every other issue as it was. -/
theorem bulk_update_is_single_updates {projectIds : List Int} {labels : List TriageLabel}
    {body : BulkUpdateIssues} {now : Int} {updated : Nat}
    (hrun : Run (TriageStep config) ⟨.fresh projectIds, [], []⟩ labels t)
    (hbulk : bulkUpdateIssues t projectId body now = .ok (t', updated)) (id : Uuid) :
    (listed t projectId body.ids id = true → ∃ single,
      updateIssue t projectId id ⟨body.status, none, body.priority, none, none⟩ now =
        (single, .ok ()) ∧ Alike id t' single) ∧
    (listed t projectId body.ids id = false → Alike id t' t) := by
  have hsound : t.Sound := (sound_fresh projectIds).run hrun
  obtain ⟨_, -, hbulk⟩ := bind_eq_ok hbulk
  obtain ⟨⟨mid, count⟩, hstatus, hbulk⟩ := bind_eq_ok hbulk
  have hmid : mid.Sound := hsound.bulkStatus hstatus
  obtain ⟨hsame, hother⟩ := bulkStatus_at id hsound hstatus
  refine ⟨fun hlisted => ?_, fun hnot => ?_⟩
  · obtain ⟨-, hproject⟩ := Bool.and_eq_true_iff.mp hlisted
    obtain ⟨issue, hissue⟩ := Option.isSome_iff_exists.mp (Option.isSome_of_any hproject)
    rw [hissue, Option.any_some] at hproject
    obtain ⟨first, single, hwrites, hruns, halike, hafter⟩ :=
      bulkStatus_alike body.priority now hsound hissue hlisted hstatus
    have hupdate : updateIssue t projectId id ⟨body.status, none, body.priority, none, none⟩ now =
        runWrites single (body.priority.map fun p => IssueWrite.setPriority id p now).toList := by
      simp only [updateIssue, hissue, okOr, ok_bind, ensure, hproject, if_true, hwrites, hruns]
    rw [hupdate]
    cases hasked : body.priority with
    | none =>
        rw [hasked] at hbulk
        obtain rfl := congrArg Prod.fst (Except.ok.inj hbulk)
        exact ⟨single, rfl, halike⟩
    | some priority =>
        rw [hasked] at hbulk
        obtain ⟨⟨after, n⟩, hset, hbulk⟩ := bind_eq_ok hbulk
        obtain rfl := congrArg Prod.fst (Except.ok.inj hbulk)
        obtain ⟨hpriority, hdb, hrow⟩ := bulkSetPriority_at id hmid.unique hset
        obtain ⟨both, hone, hdb', hrow'⟩ := run_setPriority now hpriority hafter
        refine ⟨both, runWrites_cons hone [], ?_, ?_⟩
        · rw [hdb, hdb']
          exact halike.1
        · rw [hrow, hrow', hsame, hlisted, if_pos rfl, halike.2]
  · have halike := hother hnot
    cases hasked : body.priority with
    | none =>
        rw [hasked] at hbulk
        obtain rfl := congrArg Prod.fst (Except.ok.inj hbulk)
        exact halike
    | some priority =>
        rw [hasked] at hbulk
        obtain ⟨⟨after, n⟩, hset, hbulk⟩ := bind_eq_ok hbulk
        obtain rfl := congrArg Prod.fst (Except.ok.inj hbulk)
        obtain ⟨-, hdb, hrow⟩ := bulkSetPriority_at id hmid.unique hset
        refine ⟨?_, ?_⟩
        · rw [hdb]
          exact halike.1
        · rw [hrow, hsame, hnot, if_neg Bool.false_ne_true]
          exact halike.2

end Bulk

/-! ## A release comes -/

/-- An error of release 1.0, which is known, was resolved in the next release. -/
def waiting : TriageDb :=
  let event := ofRelease "event-1" "1.0" 100
  let db := (writeDigestOnce tenPerMinute (.fresh [1]) event.write event.freshId 100).1
  let seen := TriageDb.digested ⟨.fresh [1], [], []⟩ db event.write (some "error")
    ⟨"issue-1", true, false⟩
  let known := { seen with releases := [⟨1, "1.0", 50⟩] }
  known.transition (fun i => i.id == "issue-1") .resolved none true

theorem run_waiting : Run (TriageStep tenPerMinute) ⟨.fresh [1], [], []⟩
    [.digest (ofRelease "event-1" "1.0" 100).write "issue-1" (some "error") 100,
      .insertRelease ⟨1, "1.0", 50⟩, .write (.resolveInNextRelease "issue-1")] waiting := by
  refine .cons (@TriageStep.digest _ _ (writeDigestOnce tenPerMinute (.fresh [1])
    (ofRelease "event-1" "1.0" 100).write "issue-1" 100).1 _ _ _ _ ⟨"issue-1", true, false⟩ ?_) <|
    .cons (.insertRelease ?_) <| .cons (.write ?_) <| .nil _
  all_goals decide +kernel

theorem issue_waiting : waiting.db.issue "issue-1" = some
    ⟨"issue-1", 1, .error, .resolved, true, 100, 100, "1.0", "1.0", 1, 1⟩ := by
  decide +kernel

/-- It is resolved, and of high priority. -/
theorem issues_stay_consistent_waiting : ∃ r, waiting.row "issue-1" = some r ∧
    Consistent ⟨"issue-1", 1, .error, .resolved, true, 100, 100, "1.0", "1.0", 1, 1⟩ r :=
  issues_stay_consistent run_waiting issue_waiting

/-- A release comes, and then another event of 1.0. -/
theorem finalized_issue_reopens_waiting : ∃ db : Db,
    writeDigestRows tenPerMinute (IssueService.finalizeRelease waiting 1 150).db
        (ofRelease "event-2" "1.0" 200).write "issue-2" 200 =
      .ok (db, .written "issue-1" false true) ∧ ¬db.IsResolved "issue-1" := by
  have hwritten : writeDigestRows tenPerMinute (IssueService.finalizeRelease waiting 1 150).db
      (ofRelease "event-2" "1.0" 200).write "issue-2" 200 =
      .ok ((writeDigestOnce tenPerMinute (IssueService.finalizeRelease waiting 1 150).db
        (ofRelease "event-2" "1.0" 200).write "issue-2" 200).1, .written "issue-1" false true) := by
    decide +kernel
  refine ⟨_, hwritten, ?_⟩
  have hrelease : (⟨1, "1.0", 50⟩ : Release) ∈ waiting.releases := by decide +kernel
  exact (finalized_issue_reopens run_waiting issue_waiting hrelease rfl rfl (by decide) (.nil _)
    (by simp) (by decide +kernel) hwritten).2.2

/-- The issue is listed twice, beside one that does not exist. -/
theorem bulk_update_is_single_updates_waiting : ∃ t updated,
    bulkUpdateIssues waiting 1 ⟨["issue-1", "issue-1", "issue-7"], some "ignored", some "low"⟩ 9 =
      .ok (t, updated) ∧
    ∃ single, updateIssue waiting 1 "issue-1" ⟨some "ignored", none, some "low", none, none⟩ 9 =
      (single, .ok ()) ∧ Alike "issue-1" t single := by
  have hok : (bulkUpdateIssues waiting 1
      ⟨["issue-1", "issue-1", "issue-7"], some "ignored", some "low"⟩ 9).isOk = true := by
    decide +kernel
  cases hbulk : bulkUpdateIssues waiting 1
      ⟨["issue-1", "issue-1", "issue-7"], some "ignored", some "low"⟩ 9 with
  | error e =>
      rw [hbulk] at hok
      cases hok
  | ok after =>
      refine ⟨after.1, after.2, rfl, ?_⟩
      exact (bulk_update_is_single_updates run_waiting hbulk "issue-1").1 (by decide +kernel)

end Rustrak.Digest
