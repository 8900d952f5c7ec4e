import Rustrak.Alerts.Rules
import Rustrak.Digest.Deletion
import Rustrak.Durability.Pipeline
import Rustrak.Transition.Run

/-!
# Digests and the alerts they fire

`process_ref` of `digest/processors/event.rs` with `trigger_alert` behind it.  A digest writes
its event in one transaction, fires the rules one by one, each in a transaction of its own,
and deletes the pending file.  A digest that finds its event stored takes what it fires from
the row: the lifecycle, and the count the event brought its issue to.

Any number of digests of one event may be under way, of a first delivery, a second one and the
recovery worker, in one process or in several; each goes on when it likes (`advance`) and may
end anywhere (`crash`), with its process or with an error of the database that leaves the file
for another digest.  On SQLite a file waits for a checkpoint in `releasing`.
-/

namespace Rustrak.Alerts

open Rustrak.Core Rustrak.Digest Rustrak.Quota Rustrak.Relational Rustrak.Transition

/-- An event as its pending file holds it. -/
structure PendingEvent where
  write : DigestWrite
  facts : EventFacts
  uuid : IsUuid write.eventId
  serial : 0 < write.projectId
  deriving DecidableEq

namespace PendingEvent

def key (e : PendingEvent) : Int × Uuid := e.write.key

def isFeedback (e : PendingEvent) : Bool := e.write.category == .feedback

def alertId (e : PendingEvent) (alertType : AlertType) : String :=
  eventAlertId e.write.projectId e.write.eventId alertType

end PendingEvent

/-- The columns of an event's row that say which alerts it fires. -/
structure EventMark where
  key : Int × Uuid
  alertType : Option AlertType
  /-- Kept only when the event could fire new-issue rules. -/
  issueEventCount : Option Int
  deriving DecidableEq, Repr

def alertTypeForLifecycle (created regressed feedback : Bool) : Option AlertType :=
  if created && feedback then some .newFeedback
  else if created then some .newIssue
  else if regressed then some .regression
  else none

/-- The alerts an event fires: its lifecycle's, and a new-issue rule's, since any unmuted event
can be the one that brings the issue to the rule's `minEvents`. -/
def eventAlertTypes (lifecycle : Option AlertType) (muted feedback : Bool) : List AlertType :=
  if !feedback && lifecycle != some .newIssue && !muted then lifecycle.toList ++ [.newIssue]
  else lifecycle.toList

def isMuted (issue : Issue) : Bool := issue.status == .ignored

/-- What a digest fires its alerts with. -/
structure Trigger where
  event : PendingEvent
  issueId : Uuid
  count : Int
  deriving DecidableEq

def Trigger.alertId (t : Trigger) (alertType : AlertType) : String := t.event.alertId alertType

/-- What a digest does next. -/
inductive DigestStage
  /-- Loads the project and reads the file. -/
  | reading
  /-- Asks for the row of the event. -/
  | checking (event : PendingEvent) (project : Project)
  /-- Asks for room in the quota. -/
  | measuring (event : PendingEvent) (project : Project)
  | writing (event : PendingEvent)
  /-- Triggers one type after another. -/
  | triggering (trigger : Trigger) (types : List AlertType)
  /-- Fires one rule after another.  `failed` says whether one of them has. -/
  | firing (trigger : Trigger) (alertType : AlertType) (rules : List AlertRule) (failed : Bool)
      (rest : List AlertType)
  /-- Has found that the rule is to fire, and is yet to commit. -/
  | recording (trigger : Trigger) (alertType : AlertType) (rule : AlertRule) (channels : List Int)
      (rules : List AlertRule) (failed : Bool) (rest : List AlertType)
  /-- Deletes the file of an event that is stored. -/
  | releasing
  /-- Deletes the file of an event the quota has no room for. -/
  | dropping
  /-- `process_ref` deletes the file after an error that does not retain it. -/
  | rejecting
  | ended
  deriving DecidableEq

structure DigestTask where
  key : Int × Uuid
  stage : DigestStage
  deriving DecidableEq

structure AlertServer where
  db : Db
  marks : List EventMark
  /-- The projects that do not keep feedback. -/
  feedbackOff : List Int
  /-- In the order of their ids. -/
  rules : List AlertRule
  history : List AlertRow
  files : List PendingEvent
  /-- The digests that were begun. -/
  tasks : List DigestTask
  deriving DecidableEq

def AlertServer.fresh (projectIds : List Int) : AlertServer := ⟨.fresh projectIds, [], [], [], [], [], []⟩

namespace AlertServer

def file (s : AlertServer) (key : Int × Uuid) : Option PendingEvent :=
  lookup PendingEvent.key key s.files

/-- A file is not written over. -/
def storeFile (s : AlertServer) (e : PendingEvent) : AlertServer :=
  if (s.file e.key).isSome then s else { s with files := s.files ++ [e] }

def deleteFile (s : AlertServer) (key : Int × Uuid) : AlertServer :=
  { s with files := s.files.filter fun e => e.key ≠ key }

/-- The enabled rules of a project for a trigger. -/
def rulesFor (s : AlertServer) (projectId : Int) (alertType : AlertType) : List AlertRule :=
  s.rules.filter fun r => r.projectId == projectId && r.alertType == alertType && r.isEnabled

def channelsOf (s : AlertServer) (ruleId : Int) : List Int :=
  ((lookup AlertRule.id ruleId s.rules).map AlertRule.channels).getD []

/-- `fire_rule` up to its transaction: the channels it is to record. -/
def evaluate (b : Backend) (s : AlertServer) (trigger : Trigger) (alertType : AlertType)
    (rule : AlertRule) : List Int :=
  if !rule.conditions.matches alertType trigger.event.facts trigger.count then []
  else if recorded b s.history rule trigger.event.write.projectId (trigger.alertId alertType) then []
  -- Retention lowers an issue's count, so a later event can bring it back to `minEvents`.
  else if alertType == .newIssue && fired s.history rule trigger.issueId alertType then []
  else s.channelsOf rule.id

/-- The transaction of `fire_rule`.  A cooldown that is not over has the rows skipped. -/
def record (s : AlertServer) (trigger : Trigger) (alertType : AlertType) (rule : AlertRule)
    (channels : List Int) (suppressed : Bool) : AlertServer :=
  let status := if suppressed then AlertStatus.skipped else AlertStatus.pending
  let row := alertRow trigger.event.write.projectId trigger.issueId alertType
    (trigger.alertId alertType) rule status
  { s with history := recordRows s.history row channels }

/-- The foreign keys of the rows. -/
def references (s : AlertServer) (trigger : Trigger) (rule : AlertRule) : Bool :=
  (lookup AlertRule.id rule.id s.rules).isSome && (s.db.issue trigger.issueId).isSome

/-- What is left of the tables beside the digest's after rows of it were deleted:
`ON DELETE SET NULL`. -/
def detach (s : AlertServer) (db : Db) : AlertServer :=
  { s with
    db
    marks := s.marks.filter fun m => db.hasEvent m.key.1 m.key.2
    history := s.history.map fun row =>
      { row with issueId := row.issueId.filter fun i => (db.issue i).isSome } }

/-- An error ends a digest, after the file is deleted if it is not to be retained. -/
def stageAfter (e : AppError) : DigestStage :=
  if Durability.shouldRetainEvent e then .ended else .rejecting

/-- A digest that finds its event stored: rules match the count this event brought the issue
to, not today's. -/
def replay (s : AlertServer) (event : PendingEvent) (row : EventRow) : DigestStage :=
  match row.issueId, lookup EventMark.key event.key s.marks with
  | some issueId, some mark =>
      match s.db.issue issueId with
      | none => stageAfter (.notFound s!"Issue {issueId} not found")
      | some issue =>
          match mark.issueEventCount with
          | some count =>
              .triggering ⟨event, issueId, count⟩
                (eventAlertTypes mark.alertType (isMuted issue) (issue.category == .feedback))
          | none =>
              let count := if mark.alertType = some .newIssue then 1 else issue.digestedEventCount
              .triggering ⟨event, issueId, count⟩ mark.alertType.toList
  | _, _ => .releasing

/-- `write_digest`, and the columns of the row that say what it fires. -/
def write (config : RateLimitConfig) (s : AlertServer) (event : PendingEvent) (freshId : Uuid)
    (now : Int) : AlertServer × DigestStage :=
  match writeDigestOnce config s.db event.write freshId now with
  | (db, .ok (.written issueId created regressed)) =>
      match db.issue issueId with
      | none => (s, .ended)
      | some issue =>
          let lifecycle := alertTypeForLifecycle created regressed event.isFeedback
          let count := if isMuted issue then none else some issue.digestedEventCount
          ({ s with db, marks := s.marks ++ [⟨event.key, lifecycle, count⟩] },
            .triggering ⟨event, issueId, issue.digestedEventCount⟩
              (eventAlertTypes lifecycle (isMuted issue) event.isFeedback))
  | (_, .ok (.rateLimited _)) => (s, .dropping)
  | (_, .error e) => (s, stageAfter e)

/-- Loads the project and the file. -/
def read (s : AlertServer) (key : Int × Uuid) : DigestStage :=
  match s.db.project key.1, s.file key with
  | none, _ => stageAfter (.notFound s!"Project with id {key.1} not found")
  | some _, none => stageAfter (.internal (Durability.missingEventFile ++ ": " ++ key.2))
  | some project, some event =>
      if event.isFeedback && s.feedbackOff.contains key.1 then
        stageAfter Durability.Rejection.feedbackOff.error
      else .checking event project

/-- The duplicate check. -/
def check (s : AlertServer) (event : PendingEvent) (project : Project) : DigestStage :=
  match lookup EventRow.key event.key s.db.events with
  | some row => s.replay event row
  | none => .measuring event project

/-- The installation's counters are read again, the project's are those of the row that was
loaded. -/
def measure (config : RateLimitConfig) (s : AlertServer) (event : PendingEvent)
    (project : Project) (now : Int) : DigestStage :=
  if (checkQuota config s.db.installation.quota project.quota project.ownLimits now).isSome then
    .dropping
  else .writing event

/-- Whether the next rule fires. -/
def fire (b : Backend) (s : AlertServer) (trigger : Trigger) (alertType : AlertType)
    (rule : AlertRule) (rules : List AlertRule) (failed : Bool) (rest : List AlertType) :
    DigestStage :=
  match s.evaluate b trigger alertType rule with
  | [] => .firing trigger alertType rules failed rest
  | channels => .recording trigger alertType rule channels rules failed rest

/-- The next step of a digest.  `suppressed` is what the cooldown of a rule says. -/
def advance (config : RateLimitConfig) (b : Backend) (s : AlertServer) (key : Int × Uuid)
    (freshId : Uuid) (now : Int) (suppressed : Bool) : DigestStage → AlertServer × DigestStage
  | .reading => (s, s.read key)
  | .checking event project => (s, s.check event project)
  | .measuring event project => (s, s.measure config event project now)
  | .writing event => s.write config event freshId now
  | .triggering _ [] => (s, .releasing)
  | .triggering trigger (alertType :: rest) =>
      (s, .firing trigger alertType (s.rulesFor key.1 alertType) false rest)
  | .firing trigger _ [] failed rest => (s, if failed then .ended else .triggering trigger rest)
  | .firing trigger alertType (rule :: rules) failed rest =>
      (s, s.fire b trigger alertType rule rules failed rest)
  | .recording trigger alertType rule channels rules failed rest =>
      if s.references trigger rule then
        (s.record trigger alertType rule channels suppressed,
          .firing trigger alertType rules failed rest)
      else (s, .firing trigger alertType rules true rest)
  | .releasing | .dropping | .rejecting => (s.deleteFile key, .ended)
  | .ended => (s, .ended)

def setStage (s : AlertServer) (i : Nat) (t : DigestTask) (stage : DigestStage) : AlertServer :=
  { s with tasks := s.tasks.set i { t with stage } }

end AlertServer

/-- One rule's failure must not cost the others their alert. -/
def DigestStage.failRule : DigestStage → Option DigestStage
  | .firing trigger alertType (_ :: rules) _ rest => some (.firing trigger alertType rules true rest)
  | .recording trigger alertType _ _ rules _ rest => some (.firing trigger alertType rules true rest)
  | _ => none

inductive AlertLabel
  /-- An event is delivered, for the first time or again. -/
  | deliver (event : PendingEvent)
  /-- The recovery worker takes up a file. -/
  | recover (key : Int × Uuid)
  | advance (task : Nat) (freshId : Uuid) (now : Int) (suppressed : Bool)
  /-- The database fails a rule. -/
  | failRule (task : Nat)
  | crash (task : Nat)
  /-- Somebody resolves, reopens, mutes or unmutes an issue. -/
  | setStatus (issueId : Uuid) (status : IssueStatus) (inNextRelease : Bool)
  /-- The rules are edited, and their channels. -/
  | setRules (rules : List AlertRule)
  | setFeedback (projectId : Int) (keeps : Bool)
  /-- A batch of retention. -/
  | retain (projectId cutoff : Int) (limit : Nat) (picked : List EventRow)
  | deleteIssue (issueId : Uuid)
  deriving DecidableEq

/-- One step of the system, if it can be taken. -/
def alertStep (config : RateLimitConfig) (b : Backend) (s : AlertServer) :
    AlertLabel → Option AlertServer
  | .deliver event =>
      some { s.storeFile event with tasks := s.tasks ++ [⟨event.key, .reading⟩] }
  | .recover key =>
      if (s.file key).isSome then some { s with tasks := s.tasks ++ [⟨key, .reading⟩] } else none
  | .advance i freshId now suppressed => s.tasks[i]?.map fun t =>
      let (s', stage) := s.advance config b t.key freshId now suppressed t.stage
      s'.setStage i t stage
  | .failRule i => s.tasks[i]?.bind fun t => t.stage.failRule.map fun stage => s.setStage i t stage
  | .crash i => s.tasks[i]?.map fun t => s.setStage i t .ended
  | .setStatus issueId status inNextRelease =>
      some { s with db := { s.db with
        issues := modify Issue.id issueId (fun i => { i with status, inNextRelease }) s.db.issues } }
  | .setRules rules =>
      if (rules.map AlertRule.id).Nodup then
        some { s with
          rules
          history := s.history.map fun row =>
            { row with ruleId := row.ruleId.filter fun id => (lookup AlertRule.id id rules).isSome } }
      else none
  | .setFeedback projectId keeps =>
      let others := s.feedbackOff.filter (· ≠ projectId)
      some { s with feedbackOff := if keeps then others else projectId :: others }
  | .retain projectId cutoff limit picked =>
      if picked.Sublist (expired s.db projectId cutoff) ∧
          picked.length = min limit (expired s.db projectId cutoff).length then
        some (match deleteEventBatch s.db projectId picked with
          | none => s
          | some (db, _, _) => s.detach db)
      else none
  | .deleteIssue issueId =>
      match IssueService.delete s.db issueId with
      | .ok db => some (s.detach db)
      | .error _ => none

/-- `alertStep` as a relation. -/
def AlertSteps (config : RateLimitConfig) (b : Backend) (s : AlertServer) (label : AlertLabel)
    (s' : AlertServer) : Prop :=
  alertStep config b s label = some s'

/-- The labels one after another. -/
def alertSteps (config : RateLimitConfig) (b : Backend) (s : AlertServer)
    (labels : List AlertLabel) : Option AlertServer :=
  labels.foldlM (alertStep config b) s

/-! ## Three errors of one issue -/

def errorEvent (eventId : Uuid) (h : IsUuid eventId) (ingestedAt : Int) : PendingEvent where
  write :=
    { eventId := eventId, projectId := 1, groupingKey := "key", groupingKeyHash := "hash",
      legacyGroupingKeyHash := "hash", timestamp := ingestedAt, release := "", environment := "",
      category := .error }
  facts := ⟨some "error", none⟩
  uuid := h
  serial := Int.one_pos

def firstEvent : PendingEvent := errorEvent "00000000-0000-4000-8000-000000000001" (by decide) 0

def secondEvent : PendingEvent := errorEvent "00000000-0000-4000-8000-000000000002" (by decide) 100

def thirdEvent : PendingEvent := errorEvent "00000000-0000-4000-8000-000000000003" (by decide) 100

/-- A new-issue rule of their project with one channel. -/
def newIssueRule (minEvents : Int) : AlertRule :=
  { id := 1, projectId := 1, alertType := .newIssue, isEnabled := true,
    conditions := ⟨none, [], some minEvents⟩, channels := [7], serial := by decide }

/-- So many steps of a digest, where no cooldown is set. -/
def advances (task steps : Nat) : List AlertLabel :=
  List.replicate steps (.advance task "issue" 0 false)

end Rustrak.Alerts
