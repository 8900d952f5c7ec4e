import Rustrak.Alerts.Delivery

/-!
# Deliveries and what is deleted meanwhile

The rows of `alert_history` with the rule and the integration each belongs to.  A row outlives
both: the foreign keys set its ids to null.  `alert_rule_channels` loses its rows with the rule
or the integration, and an update of the rule writes those of the rule anew.

The retry worker looks at a row before it sends it, and gives up the row of a rule, an integration
or a channel that is gone.  `fire_rule` has its channels from before and looks at nothing but the
integration, which `dispatch_history` loads.
-/

namespace Rustrak.Alerts

open Rustrak.Transition

/-- A row of the history.  `writtenAt` says when `services/alert.rs` last wrote it. -/
structure OwnedRow extends HistoryRow where
  ruleId : Option Nat
  integrationId : Option Nat
  errorMessage : Option String
  writtenAt : Nat
  deriving DecidableEq, Repr

/-- A row a task has, as it was read. -/
structure Pick extends Queued where
  ruleId : Option Nat
  integrationId : Option Nat
  deriving DecidableEq, Repr

/-- What a task is doing with the row it turned to last. -/
inductive Turn
  | idle
  /-- A worker has read the channel of the row. -/
  | found (pick : Pick)
  | sending (pick : Pick)
  deriving DecidableEq, Repr

/-- A dispatch task: of `fire_rule`, or a batch of the retry worker. -/
structure RetryTask where
  process : Nat
  worker : Bool
  queue : List Pick
  turn : Turn
  deriving DecidableEq, Repr

def RetryTask.busy (t : RetryTask) : Bool := t.turn != .idle || !t.queue.isEmpty

/-- The id of a rule or an integration is its place; a deleted one leaves `false`. -/
structure RetryState where
  now : Nat
  rows : List OwnedRow
  tasks : List RetryTask
  rules : List Bool
  integrations : List Bool
  /-- `alert_rule_channels`: the rule and the integration. -/
  channels : List (Nat × Nat)
  deriving DecidableEq, Repr

inductive RetryLabel
  | wait (micros : Nat)
  | createRule
  | createIntegration
  /-- The channels of a rule are written anew. -/
  | setChannels (rule : Nat) (integrations : List Nat)
  | deleteRule (rule : Nat)
  | deleteIntegration (integration : Nat)
  /-- `fire_rule` writes a row for each of the channels it read. -/
  | fire (process rule : Nat) (integrations : List Nat) (suppressed : Bool)
  /-- `claim_due_retries` of a process. -/
  | claim (process : Nat) (batch : List Nat)
  /-- A worker turns to its next row and looks for its channel; the write of a row it gives up
  may fail. -/
  | look (task : Nat) (recorded : Bool)
  /-- The payload of the row cannot be read. -/
  | unreadable (task : Nat) (error : String) (recorded : Bool)
  /-- `dispatch_history` loads the integration, and sends. -/
  | send (task : Nat) (loaded : Bool)
  | finish (task : Nat) (result : SendResult) (message : Option String)
  /-- A worker's batch ends with an error of the database. -/
  | abort (task : Nat)
  | crash (process : Nat)
  deriving DecidableEq, Repr

/-- What is written of a dispatch that ended. -/
def SendResult.record (result : SendResult) (q : Queued) (message : Option String) (now : Nat)
    (row : OwnedRow) : OwnedRow :=
  match result with
  | success => { row with toHistoryRow := success.apply q now row.toHistoryRow, writtenAt := now }
  | failure =>
      { row with
        toHistoryRow := failure.apply q now row.toHistoryRow
        errorMessage := message
        writtenAt := now }
  | unrecorded => row

/-- What is written of a row that is given up. -/
def OwnedRow.giveUp (clears : Bool) (message : String) (now : Nat) (row : OwnedRow) : OwnedRow :=
  { row with
    toHistoryRow := row.toHistoryRow.giveUp clears
    errorMessage := some message
    writtenAt := now }

/-- `SET next_retry_at` of a claim. -/
def OwnedRow.lease (now : Nat) (row : OwnedRow) : OwnedRow :=
  { row with
    toHistoryRow := { row.toHistoryRow with nextRetryAt := some (now + retryClaimLease) }
    writtenAt := now }

/-- `ON DELETE SET NULL`. -/
def clearId (deleted : Nat) (id : Option Nat) : Option Nat := if id = some deleted then none else id

namespace RetryState

def put (s : RetryState) (i : Nat) (t : RetryTask) : RetryState :=
  { s with tasks := s.tasks.set i t }

/-- `UPDATE alert_history … WHERE id = $1`. -/
def write (s : RetryState) (id : Nat) (f : OwnedRow → OwnedRow) : RetryState :=
  { s with rows := s.rows.modify id f }

def hasRule (s : RetryState) (rule : Nat) : Bool := s.rules[rule]? == some true

def hasIntegration (s : RetryState) (integration : Nat) : Bool :=
  s.integrations[integration]? == some true

/-- The integration of a row can still be loaded. -/
def loads (s : RetryState) (p : Pick) : Bool := p.integrationId.any s.hasIntegration

/-- Why a worker gives a row up, if it does. -/
def givesUp (s : RetryState) (p : Pick) : Option String :=
  match p.integrationId, p.ruleId with
  | none, _ => some "Integration deleted"
  | some _, none => some "Alert rule deleted"
  | some integration, some rule =>
      if (rule, integration) ∈ s.channels then none else some "Alert channel deleted"

/-- What a claim reads of the table. -/
def delivery (s : RetryState) : DeliveryState := ⟨s.now, s.rows.map OwnedRow.toHistoryRow, []⟩

/-- The row as a claim returns it. -/
def pick (s : RetryState) (id : Nat) : Option Pick :=
  s.rows[id]?.map fun row => ⟨⟨id, row.attemptCount⟩, row.ruleId, row.integrationId⟩

end RetryState

/-- One step of the system, if it can be taken. -/
def retryStep (b : Backend) (s : RetryState) : RetryLabel → Option RetryState
  | .wait micros => some { s with now := s.now + micros }
  | .createRule => some { s with rules := s.rules ++ [true] }
  | .createIntegration => some { s with integrations := s.integrations ++ [true] }
  | .setChannels rule integrations =>
      if s.hasRule rule ∧ integrations.all s.hasIntegration then
        some { s with
          channels := s.channels.filter (·.1 ≠ rule) ++ integrations.map fun i => (rule, i) }
      else none
  | .deleteRule rule => some { s with
      rules := s.rules.set rule false
      channels := s.channels.filter (·.1 ≠ rule)
      rows := s.rows.map fun row => { row with ruleId := clearId rule row.ruleId } }
  | .deleteIntegration integration => some { s with
      integrations := s.integrations.set integration false
      channels := s.channels.filter (·.2 ≠ integration)
      rows := s.rows.map fun row =>
        { row with integrationId := clearId integration row.integrationId } }
  | .fire process rule integrations suppressed =>
      -- The foreign keys of the new rows.
      if s.hasRule rule ∧ integrations.all s.hasIntegration then
        let row (fields : HistoryRow) (integration : Nat) : OwnedRow :=
          ⟨fields, some rule, some integration, none, s.now⟩
        if suppressed then
          some { s with rows := s.rows ++ integrations.map (row ⟨.skipped, 0, none⟩) }
        else
          some { s with
            rows := s.rows ++
              integrations.map (row ⟨.pending, 0, some (s.now + retryClaimLease)⟩)
            tasks := s.tasks ++ [⟨process, false, integrations.mapIdx fun i integration =>
              ⟨⟨s.rows.length + i, 0⟩, some rule, some integration⟩, .idle⟩] }
      else none
  | .claim process batch =>
      -- The worker of a process takes its next batch when it is through with the last.
      if Claimable b s.delivery batch ∧
          ¬s.tasks.any fun t => t.process == process && t.worker && t.busy then
        some { s with
          rows := s.rows.mapIdx fun id row => if id ∈ batch then row.lease s.now else row
          tasks := s.tasks ++ [⟨process, true, batch.filterMap s.pick, .idle⟩] }
      else none
  | .look i recorded => s.tasks[i]?.bind fun t =>
      match t with
      | ⟨process, true, p :: queue, .idle⟩ =>
          match s.givesUp p with
          | none => some (s.put i ⟨process, true, queue, .found p⟩)
          | some message =>
              if recorded then
                some ((s.put i ⟨process, true, queue, .idle⟩).write p.row
                  (OwnedRow.giveUp false message s.now))
              else
                some (s.put i ⟨process, true, [], .idle⟩)
      | _ => none
  | .unreadable i error recorded => s.tasks[i]?.bind fun t =>
      match t.turn with
      | .found p =>
          let idle := s.put i { t with turn := .idle }
          some (if recorded then
            idle.write p.row (OwnedRow.giveUp true ("invalid alert payload: " ++ error) s.now)
          else idle)
      | _ => none
  | .send i loaded => s.tasks[i]?.bind fun t =>
      match t with
      | ⟨process, true, queue, .found p⟩ | ⟨process, false, p :: queue, .idle⟩ =>
          some (s.put i
            ⟨process, t.worker, queue, if loaded && s.loads p then .sending p else .idle⟩)
      | _ => none
  | .finish i result message => s.tasks[i]?.bind fun t =>
      match t.turn with
      | .sending p =>
          some ((s.put i { t with turn := .idle }).write p.row
            (result.record p.toQueued message s.now))
      | _ => none
  | .abort i => s.tasks[i]?.bind fun t =>
      if t.worker ∧ t.turn = .idle then some (s.put i { t with queue := [] }) else none
  | .crash process => some { s with
      tasks := s.tasks.map fun t =>
        if t.process = process then { t with queue := [], turn := .idle } else t }

/-- `retryStep` as a relation. -/
def RetrySteps (b : Backend) (s : RetryState) (label : RetryLabel) (s' : RetryState) : Prop :=
  retryStep b s label = some s'

/-! ## What it is for a delivery not to be stranded -/

/-- The channel a row was written for, as far as its ids are there. -/
def OwnedRow.channel (row : OwnedRow) : Option (Nat × Nat) :=
  row.ruleId.bind fun rule => row.integrationId.map fun integration => (rule, integration)

namespace RetryState

/-- The rule, the integration or the channel of the row is gone. -/
def gone (s : RetryState) (id : Nat) : Bool :=
  s.rows[id]?.any fun row => !row.channel.any (· ∈ s.channels)

def statusOf (s : RetryState) (id : Nat) : Option AlertStatus :=
  s.rows[id]?.map fun row => row.status

/-- The row waits for its next attempt, which is due a lease or an hour after the row was last
written at the latest, and is claimed from then on. -/
def Scheduled (b : Backend) (s : RetryState) (id : Nat) (row : OwnedRow) : Prop :=
  row.attemptCount < maxAlertRetries ∧ ∃ due, row.nextRetryAt = some due ∧
    due ≤ row.writtenAt + max retryClaimLease (3600 * 10 ^ 6) ∧
    ∀ now, due ≤ now → id ∈ DeliveryState.eligible b { s.delivery with now := now }

end RetryState

/-- A worker takes hold of the row. -/
def RetryLabel.takes (s : RetryState) (id : Nat) : RetryLabel → Bool
  | .claim _ batch => id ∈ batch
  | .look i _ => s.tasks[i]?.any fun t => t.queue.head?.any fun p => p.row == id
  | _ => false

/-- What a worker makes of a row that is gone: from the claim on it is pending or failed, and from
where the worker has given it up it is failed. -/
def RetryLabel.Leaves (s : RetryState) (id : Nat) : RetryLabel → Prop
  | .claim _ _ => s.statusOf id = some .pending ∨ s.statusOf id = some .failed
  | .look _ recorded => recorded = true → s.statusOf id = some .failed
  | _ => True

/-- The steps through which a row stays gone. -/
def StaysGone (steps : RetryState → RetryLabel → RetryState → Prop) (id : Nat) (s : RetryState)
    (label : RetryLabel) (s' : RetryState) : Prop :=
  steps s label s' ∧ s'.gone id = true

/-- No delivery is stranded in the runs of some steps from a state on. -/
def NoneStranded (b : Backend) (steps : RetryState → RetryLabel → RetryState → Prop)
    (start : RetryState) : Prop :=
  (∀ labels s, Run steps start labels s → ∀ id row, s.rows[id]? = some row →
    row.status = .pending → s.Scheduled b id row) ∧
  ∀ before u label v after s id, Run steps start before u → steps u label v →
    u.gone id = true → label.takes u id = true → Run (StaysGone steps id) v after s →
    label.Leaves s id

/-! ## One worker at a row that is gone -/

/-- The rows a task sends without looking for the channel again. -/
def RetryTask.ready (t : RetryTask) : List Pick :=
  (match t.turn with
    | .found p => [p]
    | _ => []) ++ if t.worker then [] else t.queue

/-- The task is sending the row, or may come to send it. -/
def RetryTask.maySend (s : RetryState) (id : Nat) (t : RetryTask) : Bool :=
  (match t.turn with
    | .sending p => p.row == id
    | _ => false) || t.ready.any fun p => p.row == id && s.loads p

/-- A worker takes hold of a row that is gone only while no other task may send it. -/
def Alone (s : RetryState) (label : RetryLabel) : Prop :=
  ∀ id < s.rows.length, s.gone id = true → label.takes s id = true →
    ∀ t ∈ s.tasks, t.maySend s id = false

instance (s : RetryState) (label : RetryLabel) : Decidable (Alone s label) :=
  inferInstanceAs (Decidable (∀ id < s.rows.length, _ → _ → ∀ t ∈ s.tasks, _))

def AloneSteps (b : Backend) (s : RetryState) (label : RetryLabel) (s' : RetryState) : Prop :=
  RetrySteps b s label s' ∧ Alone s label

end Rustrak.Alerts
