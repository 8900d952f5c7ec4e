import Mathlib.Algebra.Group.Int.Defs
import Mathlib.Algebra.Group.Nat.Defs
import Rustrak.Claiming.Leases
import Rustrak.Transition.Run

/-!
# Delivering alerts

The rows of `alert_history` and who works on them, in `services/alert.rs`: `fire_rule` writes
the rows of a rule's channels and dispatches them in a task of its own, and the retry worker
of each process claims up to a hundred rows that are due and dispatches those.  Either goes
through its rows one after another.  The rows of a batch get one lease together, when they are
written or claimed, and the result of a dispatch is written by id.

Instants are microseconds.  A step of the database takes no time; a send takes what `wait`
lets pass, thirty seconds at the most.
-/

namespace Rustrak.Alerts

open Rustrak.Claiming Rustrak.Transition

inductive AlertStatus
  | pending
  | sent
  | failed
  | skipped
  deriving DecidableEq, Repr

/-- What deciding who may dispatch a row reads of it.  Its id is its place in the table,
from which no row is ever deleted. -/
structure HistoryRow where
  status : AlertStatus
  attemptCount : Int
  nextRetryAt : Option Nat
  deriving DecidableEq, Repr

inductive Backend
  | postgres
  | sqlite
  deriving DecidableEq, Repr

/-- SQLite's `datetime` drops the fractions of a second. -/
def Backend.resolution : Backend → Nat
  | postgres => 1
  | sqlite => 10 ^ 6

/-- `next_retry_at IS NULL OR next_retry_at <= CURRENT_TIMESTAMP`. -/
def Backend.due (b : Backend) (nextRetryAt : Option Nat) (now : Nat) : Bool :=
  nextRetryAt.all fun t => t / b.resolution ≤ now / b.resolution

def maxAlertRetries : Int := 5

/-- `RETRY_CLAIM_LEASE_SECS`. -/
def retryClaimLease : Nat := 120 * 10 ^ 6

/-- The timeout of `shared_http_client`. -/
def sendTimeout : Nat := 30 * 10 ^ 6

/-- What `process_retry_queue` claims at a time. -/
def claimLimit : Nat := 100

/-- In seconds. -/
def retryDelay (attemptCount : Int) (historyId : Nat) : Nat :=
  let exponent := (min (max (attemptCount - 1) 0) 6).toNat
  min (60 * 2 ^ exponent + historyId % 30) 3600

def nextAttemptCount (previous : Int) : Int := min (max previous 0 + 1) (2 ^ 31 - 1)

/-- A row a task has, with the attempts it was read with. -/
structure Queued where
  row : Nat
  attempts : Int
  deriving DecidableEq, Repr

/-- A dispatch task: of `fire_rule`, or a batch of the retry worker.  `sending` says since
when. -/
structure DispatchTask where
  process : Nat
  worker : Bool
  lease : Nat
  queue : List Queued
  sending : Option (Queued × Nat)
  deriving DecidableEq, Repr

/-- The rows it has yet to be done with. -/
def DispatchTask.rows (t : DispatchTask) : List Nat :=
  (t.sending.map fun (q, _) => q.row).toList ++ t.queue.map Queued.row

def DispatchTask.busy (t : DispatchTask) : Bool := !t.rows.isEmpty

def DispatchTask.toLease (t : DispatchTask) : Lease Nat Nat := ⟨t.rows, t.lease⟩

/-- A task lets time pass until `now`: while it sends, no longer than the client's timeout, and
otherwise when it has no row left to turn to. -/
def DispatchTask.lets (t : DispatchTask) (now : Nat) : Bool :=
  match t.sending with
  | some (_, since) => now ≤ since + sendTimeout
  | none => t.queue.isEmpty

structure DeliveryState where
  now : Nat
  rows : List HistoryRow
  tasks : List DispatchTask
  deriving DecidableEq, Repr

inductive SendResult
  | success
  | failure
  /-- The write of the result failed. -/
  | unrecorded
  deriving DecidableEq, Repr

inductive DeliveryLabel
  | wait (micros : Nat)
  /-- `fire_rule` writes the rows of so many channels. -/
  | fire (process channels : Nat) (suppressed : Bool)
  /-- `claim_due_retries` of a process. -/
  | claim (process : Nat) (batch : List Nat)
  /-- A task turns to its next row and sends it. -/
  | send (task : Nat)
  /-- A worker finds its next row without integration, rule or channel, or with a payload it
  cannot read, which clears the next attempt too. -/
  | giveUp (task : Nat) (clears : Bool)
  /-- The integration of the next row cannot be loaded. -/
  | skip (task : Nat)
  | finish (task : Nat) (result : SendResult)
  /-- A worker's batch ends with an error of the database. -/
  | abort (task : Nat)
  | crash (process : Nat)
  deriving DecidableEq, Repr

namespace DeliveryState

def put (s : DeliveryState) (i : Nat) (t : DispatchTask) : DeliveryState :=
  { s with tasks := s.tasks.set i t }

/-- `UPDATE alert_history … WHERE id = $1`. -/
def record (s : DeliveryState) (id : Nat) (f : HistoryRow → HistoryRow) : DeliveryState :=
  { s with rows := s.rows.modify id f }

/-- The next row of a task that sends nothing, and the task without it. -/
def next (s : DeliveryState) (i : Nat) : Option (DispatchTask × Queued) :=
  match s.tasks[i]? with
  | some ⟨process, worker, lease, q :: queue, none⟩ => some (⟨process, worker, lease, queue, none⟩, q)
  | _ => none

/-- The rows a claim may take. -/
def eligible (b : Backend) (s : DeliveryState) : List Nat :=
  (List.range s.rows.length).filter fun id =>
    s.rows[id]?.any fun row => row.status == .pending && b.due row.nextRetryAt s.now &&
      row.attemptCount < maxAlertRetries

end DeliveryState

/-- What is written of a dispatch that ended. -/
def SendResult.apply (result : SendResult) (q : Queued) (now : Nat) (row : HistoryRow) :
    HistoryRow :=
  let attempts := nextAttemptCount q.attempts
  match result with
  | success => { row with status := .sent }
  | failure =>
      if maxAlertRetries ≤ attempts then { row with status := .failed, attemptCount := attempts }
      else
        { status := .pending
          attemptCount := attempts
          nextRetryAt := some (now + retryDelay attempts q.row * 10 ^ 6) }
  | unrecorded => row

def HistoryRow.giveUp (clears : Bool) (row : HistoryRow) : HistoryRow :=
  { row with
    status := .failed
    nextRetryAt := if clears then none else row.nextRetryAt }

/-- The rows of a batch are leased together. -/
def leaseRows (rows : List HistoryRow) (batch : List Nat) (lease : Nat) : List HistoryRow :=
  rows.mapIdx fun id row => if id ∈ batch then { row with nextRetryAt := some lease } else row

/-- A batch that `claim_due_retries` may return.  Which rows it has is left open: it passes
over those another claim is at. -/
def Claimable (b : Backend) (s : DeliveryState) (batch : List Nat) : Prop :=
  batch.Nodup ∧ (∀ id ∈ batch, id ∈ s.eligible b) ∧ batch.length ≤ claimLimit

instance (b : Backend) (s : DeliveryState) (batch : List Nat) : Decidable (Claimable b s batch) :=
  inferInstanceAs (Decidable (_ ∧ _))

/-- One step of the system, if it can be taken. -/
def step (b : Backend) (s : DeliveryState) : DeliveryLabel → Option DeliveryState
  | .wait micros =>
      if s.tasks.all (·.lets (s.now + micros)) then some { s with now := s.now + micros } else none
  | .fire process channels suppressed =>
      let first := s.rows.length
      if suppressed then
        some { s with rows := s.rows ++ List.replicate channels ⟨.skipped, 0, none⟩ }
      else
        let lease := s.now + retryClaimLease
        some { s with
          rows := s.rows ++ List.replicate channels ⟨.pending, 0, some lease⟩
          tasks := s.tasks ++
            [⟨process, false, lease, (List.range' first channels).map fun id => ⟨id, 0⟩, none⟩] }
  | .claim process batch =>
      -- The worker of a process takes its next batch when it is through with the last.
      if Claimable b s batch ∧ ¬s.tasks.any fun t => t.process == process && t.worker && t.busy then
        let lease := s.now + retryClaimLease
        let queue := batch.map fun id => ⟨id, (s.rows[id]?.map HistoryRow.attemptCount).getD 0⟩
        some { s with
          rows := leaseRows s.rows batch lease
          tasks := s.tasks ++ [⟨process, true, lease, queue, none⟩] }
      else none
  | .send i => (s.next i).map fun (t, q) => s.put i { t with sending := some (q, s.now) }
  | .giveUp i clears => (s.next i).bind fun (t, q) =>
      if t.worker then some ((s.put i t).record q.row (HistoryRow.giveUp clears)) else none
  | .skip i => (s.next i).map fun (t, _) => s.put i t
  | .finish i result => s.tasks[i]?.bind fun t => t.sending.map fun (q, _) =>
      (s.put i { t with sending := none }).record q.row (result.apply q s.now)
  | .abort i => s.tasks[i]?.bind fun t =>
      if t.worker && t.sending.isNone then some (s.put i { t with queue := [] }) else none
  | .crash process =>
      some { s with
        tasks := s.tasks.map fun t =>
          if t.process = process then { t with queue := [], sending := none } else t }

/-- `step` as a relation. -/
def Steps (b : Backend) (s : DeliveryState) (label : DeliveryLabel) (s' : DeliveryState) : Prop :=
  step b s label = some s'

/-- The labels one after another. -/
def steps (b : Backend) (s : DeliveryState) (labels : List DeliveryLabel) : Option DeliveryState :=
  labels.foldlM (step b) s

/-! ## What a delivery in one pair of hands is -/

/-- The row a task is sending. -/
def DispatchTask.dispatches (t : DispatchTask) : Option Nat := t.sending.map fun (q, _) => q.row

def DeliveryState.statusOf (s : DeliveryState) (id : Nat) : Option AlertStatus :=
  s.rows[id]?.map HistoryRow.status

/-- No row is in two dispatches at once. -/
def DeliveryState.OneHand (s : DeliveryState) : Prop :=
  ∀ (i j id : Nat) (t t' : DispatchTask), s.tasks[i]? = some t → s.tasks[j]? = some t' →
    t.dispatches = some id → t'.dispatches = some id → i = j

/-! ## Prompt work -/

/-- A lease that has not run out. -/
def Alive (b : Backend) (now lease : Nat) : Prop := b.due (some lease) now = false

/-- Rows are worked on only while their lease lasts: a task turns to a row before it has run
out, and a send ends before it has. -/
def Prompt (b : Backend) (s : DeliveryState) : DeliveryLabel → Prop
  | .wait micros => ∀ t ∈ s.tasks, t.sending.isSome → Alive b (s.now + micros) t.lease
  | .send i | .giveUp i _ => ∀ t, s.tasks[i]? = some t → Alive b s.now t.lease
  | _ => True

def PromptSteps (b : Backend) (s : DeliveryState) (label : DeliveryLabel) (s' : DeliveryState) :
    Prop :=
  Steps b s label s' ∧ Prompt b s label

variable {s : DeliveryState} {i : Nat} {t : DispatchTask} {q : Queued}

/-- A turn takes the first row of a queue. -/
theorem next_eq_some (h : s.next i = some (t, q)) :
    t.sending = none ∧ s.tasks[i]? = some { t with queue := q :: t.queue } := by
  unfold DeliveryState.next at h
  split at h
  · next process worker lease q' queue htask =>
      obtain ⟨rfl, rfl⟩ := Prod.mk.inj (Option.some.inj h)
      exact ⟨rfl, htask⟩
  · contradiction

theorem mem_put {u : DispatchTask} (h : u ∈ (s.put i t).tasks) : u ∈ s.tasks ∨ u = t :=
  List.mem_or_eq_of_mem_set h

end Rustrak.Alerts
