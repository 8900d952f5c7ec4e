import Rustrak.Alerts.Delivery
import Rustrak.Core.Affix
import Rustrak.Digest.Store
import Rustrak.Relational.Like

/-!
# Rules and what they record

A rule's share of a trigger (`fire_rule` of `services/alert.rs`): its filters, the questions
to `alert_history` whether it has recorded the event or fired for the issue, and the rows it
writes, one for each of its channels.
-/

namespace Rustrak.Alerts

open Rustrak.Core Rustrak.Digest Rustrak.Relational

inductive AlertType
  | newIssue
  | regression
  | unmute
  | newFeedback
  deriving DecidableEq, Repr

/-- As `Display` writes it. -/
def AlertType.name : AlertType → String
  | newIssue => "new_issue"
  | regression => "regression"
  | unmute => "unmute"
  | newFeedback => "new_feedback"

/-- What a rule's filters read from the event that triggered it. -/
structure EventFacts where
  level : Option String
  environment : Option String
  deriving DecidableEq, Repr

/-- From quietest to loudest. -/
def levels : List String := ["debug", "info", "warning", "error", "fatal"]

/-- The filters a rule's `conditions` hold. -/
structure RuleConditions where
  minLevel : Option String
  environments : List String
  minEvents : Option Int
  deriving DecidableEq, Repr

/-- At least as loud, where a level that is none is the quietest of all. -/
def asLoud (level min : String) : Bool :=
  match levels.idxOf? level, levels.idxOf? min with
  | _, none => true
  | none, some _ => false
  | some rank, some least => least ≤ rank

/-- Whether an event with these facts, being the issue's `eventCount`th, fires a rule of
`alertType`. -/
def RuleConditions.matches (c : RuleConditions) (alertType : AlertType) (facts : EventFacts)
    (eventCount : Int) : Bool :=
  let levelOk := c.minLevel.all fun min => asLoud (facts.level.getD "error") min
  let environmentOk := c.environments.isEmpty || facts.environment.any c.environments.contains
  let countOk := alertType != .newIssue || eventCount == max (c.minEvents.getD 1) 1
  levelOk && environmentOk && countOk

/-- A rule with the enabled integrations it sends to.  Ids of a table begin with one. -/
structure AlertRule where
  id : Int
  projectId : Int
  alertType : AlertType
  isEnabled : Bool
  conditions : RuleConditions
  channels : List Int
  serial : 0 < id ∧ ∀ channel ∈ channels, 0 < channel
  deriving DecidableEq

/-- A row of `alert_history` as it is written.  `alertId` is in its payload. -/
structure AlertRow where
  ruleId : Option Int
  integrationId : Int
  issueId : Option Uuid
  projectId : Int
  alertType : AlertType
  alertId : String
  idempotencyKey : String
  status : AlertStatus
  deriving DecidableEq, Repr

def eventAlertId (projectId : Int) (eventId : Uuid) (alertType : AlertType) : String :=
  "event-" ++ toString projectId ++ "-" ++ eventId ++ "-" ++ alertType.name

/-- The rule is in the key: two rules sharing a channel are two deliveries. -/
def idempotencyKey (alertId : String) (ruleId integrationId : Int) : String :=
  alertId ++ "-" ++ toString ruleId ++ "-" ++ toString integrationId

/-- SQLite's `LIKE` does not look at the case of a letter. -/
def Backend.same : Backend → Char → Char → Bool
  | .postgres, c, d => c == d
  | .sqlite, c, d => c.toLower == d.toLower

def Backend.like (b : Backend) (pattern text : String) : Bool :=
  Relational.like b.same pattern.toList text.toList

/-- What the keys of this event looked like before alert ids carried the project. -/
def legacyPattern (projectId : Int) (alertId : String) : Option String :=
  (stripPrefix alertId ("event-" ++ toString projectId ++ "-")).map fun rest =>
    "event-" ++ rest ++ "-%"

/-- Whether the rule has recorded the event. -/
def recorded (b : Backend) (history : List AlertRow) (rule : AlertRule) (projectId : Int)
    (alertId : String) : Bool :=
  history.any fun row =>
    (row.ruleId == some rule.id && b.like (alertId ++ "-%") row.idempotencyKey) ||
      (row.projectId == projectId &&
        (legacyPattern projectId alertId).any fun pattern => b.like pattern row.idempotencyKey)

/-- Whether the rule has fired for the issue. -/
def fired (history : List AlertRow) (rule : AlertRule) (issueId : Uuid) (alertType : AlertType) :
    Bool :=
  history.any fun row =>
    row.ruleId == some rule.id && row.issueId == some issueId && row.alertType == alertType

/-- `ON CONFLICT (idempotency_key) DO NOTHING`. -/
def insertRow (history : List AlertRow) (row : AlertRow) : List AlertRow :=
  if history.any fun other => other.idempotencyKey == row.idempotencyKey then history
  else history ++ [row]

/-- The row of a rule and a channel for one alert. -/
def alertRow (projectId : Int) (issueId : Uuid) (alertType : AlertType) (alertId : String)
    (rule : AlertRule) (status : AlertStatus) (integrationId : Int) : AlertRow where
  ruleId := some rule.id
  integrationId := integrationId
  issueId := some issueId
  projectId := projectId
  alertType := alertType
  alertId := alertId
  idempotencyKey := idempotencyKey alertId rule.id integrationId
  status := status

/-- Every delivery is recorded in one transaction. -/
def recordRows (history : List AlertRow) (row : Int → AlertRow) (channels : List Int) :
    List AlertRow :=
  channels.foldl (fun history channel => insertRow history (row channel)) history

/-! ## What is recorded -/

section Record

variable {history : List AlertRow} {row other : AlertRow} {write : Int → AlertRow}
  {channels : List Int}

theorem mem_insertRow (h : other ∈ insertRow history row) : other ∈ history ∨ other = row := by
  unfold insertRow at h
  split_ifs at h
  · exact .inl h
  · exact (List.mem_append.mp h).imp_right List.mem_singleton.mp

theorem subset_insertRow (h : other ∈ history) : other ∈ insertRow history row := by
  unfold insertRow
  split_ifs
  · exact h
  · exact List.mem_append_left _ h

/-- A row with the key is there. -/
theorem exists_insertRow (history : List AlertRow) (row : AlertRow) :
    ∃ other ∈ insertRow history row, other.idempotencyKey = row.idempotencyKey := by
  unfold insertRow
  split_ifs with hany
  · obtain ⟨other, hmem, hkey⟩ := List.any_eq_true.mp hany
    exact ⟨other, hmem, beq_iff_eq.mp hkey⟩
  · exact ⟨row, by simp, rfl⟩

theorem nodup_insertRow (h : (history.map AlertRow.idempotencyKey).Nodup) :
    ((insertRow history row).map AlertRow.idempotencyKey).Nodup := by
  unfold insertRow
  split_ifs with hany
  · exact h
  · rw [List.map_append, List.nodup_append]
    refine ⟨h, List.nodup_singleton _, ?_⟩
    rintro key hkey _ hnew rfl
    obtain ⟨other, hmem, rfl⟩ := List.mem_map.mp hkey
    refine hany (List.any_eq_true.mpr ⟨other, hmem, ?_⟩)
    rw [List.mem_singleton.mp hnew]
    exact beq_self_eq_true _

theorem mem_recordRows (h : other ∈ recordRows history write channels) :
    other ∈ history ∨ ∃ channel ∈ channels, other = write channel := by
  induction channels generalizing history with
  | nil => exact .inl h
  | cons channel channels ih =>
      rcases ih h with h | ⟨channel', hmem, rfl⟩
      · rcases mem_insertRow h with h | rfl
        · exact .inl h
        · exact .inr ⟨channel, List.mem_cons_self .., rfl⟩
      · exact .inr ⟨channel', List.mem_cons_of_mem _ hmem, rfl⟩

theorem recordRows_cons (history : List AlertRow) (write : Int → AlertRow) (channel : Int)
    (channels : List Int) :
    recordRows history write (channel :: channels) =
      recordRows (insertRow history (write channel)) write channels :=
  rfl

theorem subset_recordRows (h : other ∈ history) : other ∈ recordRows history write channels := by
  induction channels generalizing history with
  | nil => exact h
  | cons channel channels ih => exact ih (subset_insertRow h)

theorem exists_recordRows {channel : Int} (h : channel ∈ channels) :
    ∃ other ∈ recordRows history write channels,
      other.idempotencyKey = (write channel).idempotencyKey := by
  induction channels generalizing history with
  | nil => cases h
  | cons first channels ih =>
      rcases List.mem_cons.mp h with rfl | h
      · obtain ⟨other, hmem, hkey⟩ := exists_insertRow history (write channel)
        rw [recordRows_cons]
        exact ⟨other, subset_recordRows hmem, hkey⟩
      · exact ih h

theorem nodup_recordRows (h : (history.map AlertRow.idempotencyKey).Nodup) :
    ((recordRows history write channels).map AlertRow.idempotencyKey).Nodup := by
  induction channels generalizing history with
  | nil => exact h
  | cons channel channels ih => exact ih (nodup_insertRow h)

end Record

/-! ## Ids -/

/-- A digit of a UUID. -/
def isHex (c : Char) : Bool := "0123456789abcdef".toList.contains c

/-- Groups of so many digits, with a hyphen between them. -/
def isGroups : List Nat → List Char → Bool
  | [], _ => false
  | [n], cs => cs.length == n && cs.all isHex
  | n :: ns, cs =>
      (cs.take n).length == n && (cs.take n).all isHex && (cs.drop n).head? == some '-' &&
        isGroups ns (cs.drop (n + 1))

/-- The hyphenated text of a UUID. -/
def IsUuid (id : Uuid) : Prop := isGroups [8, 4, 4, 4, 12] id.toList = true

instance (id : Uuid) : Decidable (IsUuid id) := inferInstanceAs (Decidable (_ = _))

end Rustrak.Alerts
