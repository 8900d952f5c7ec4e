import Rustrak.Core.Error
import Rustrak.Core.Text
import Rustrak.Digest.Store
import Rustrak.Relational.Merge
import Rustrak.Relational.WriteAhead

/-!
# From ingest to a row

`routes/ingest.rs` and `digest/processors/event.rs`: an accepted event is stored as a
file before it is acknowledged, digested by a task of its own, and its file deleted
when the digest is through with it.  On SQLite a deletion waits in the durability queue
for a checkpoint.  Files that are left over are digested again by the recovery worker.

`Disk` is what a crash leaves, `Memory` what it takes.  A digest is a `Stage`, and
`digestStep` what it does next when the database, the file system or the alerts answer
with an `Outcome`.
-/

namespace Rustrak.Durability

open Rustrak.Core Rustrak.Digest Rustrak.Relational

/-! ## Errors -/

def invalidEventJsonPrefix : String := "Invalid event JSON"

def missingEventFile : String := "Event file not found"

/-- Whether the file of an event is kept after its digest failed. -/
def shouldRetainEvent (e : AppError) : Bool :=
  match e.kind with
  | .database _ => true
  -- Unknown internal failures are safer to replay than to discard.
  | .internal message => !startsWith message invalidEventJsonPrefix
  | _ => false

/-- Whether a SQLite result code means that the database is locked. -/
def isSqliteBusyCode (code : String) : Bool :=
  code = "5" || code = "261" || code = "517" || code = "773"

def isRetryableWriteContention (e : AppError) : Bool :=
  match e.kind with
  | .database (.database (some code)) => isSqliteBusyCode code
  | _ => false

/-- Why the file of an event cannot be digested. -/
inductive Rejection
  /-- `text` is what the file system says. -/
  | unreadable (text : String)
  /-- A record that is not whole, or not of this event. -/
  | corrupt (text : String)
  | invalidJson (text : String)
  /-- From before 1970. -/
  | stale
  | feedback (why : String)
  | feedbackOff
  | invalidEventId
  deriving DecidableEq, Repr

def Rejection.error : Rejection → AppError
  | .unreadable text => .internal ("Failed to read event file: " ++ text)
  | .corrupt text => .internal ("Invalid pending event " ++ text)
  | .invalidJson text => .internal (invalidEventJsonPrefix ++ ": " ++ text)
  | .stale => .validation "event timestamp is before 1970"
  | .feedback why => .validation ("feedback dropped: " ++ why)
  | .feedbackOff => .validation "feedback dropped: turned off for this project"
  | .invalidEventId => .validation "Invalid event_id"

/-- Whether the event is what is wrong, or its project does not want it. -/
def Rejection.deliberate : Rejection → Bool
  | .unreadable _ | .corrupt _ => false
  | .invalidJson _ | .stale | .feedback _ | .feedbackOff | .invalidEventId => true

/-- An internal failure is retained unless its message begins like that of an event that
is no JSON. -/
private theorem retain_internal {first : String} (rest : String)
    (hlength : invalidEventJsonPrefix.toList.length ≤ first.toList.length) :
    shouldRetainEvent (.internal (first ++ rest)) = !startsWith first invalidEventJsonPrefix := by
  unfold shouldRetainEvent AppError.internal AppError.of
  dsimp only
  rw [startsWith_append rest hlength]

/-- Of the rejected files those are dropped that are meant to be. -/
theorem Rejection.retain_error (r : Rejection) :
    shouldRetainEvent r.error = !r.deliberate := by
  cases r with
  | unreadable text => exact retain_internal text (by decide)
  | corrupt text => exact retain_internal text (by decide)
  | invalidJson text =>
      show shouldRetainEvent (.internal (invalidEventJsonPrefix ++ ": " ++ text)) = false
      rw [String.append_assoc]
      exact retain_internal (": " ++ text) (by decide)
  | stale => rfl
  | feedback why => rfl
  | feedbackOff => rfl
  | invalidEventId => rfl

/-- A file that is gone is no reason to drop anything. -/
theorem retain_missing (id : String) :
    shouldRetainEvent (.internal (missingEventFile ++ ": " ++ id)) = true := by
  rw [String.append_assoc]
  exact retain_internal (": " ++ id) (by decide)

/-! ## One digest -/

inductive Backend
  | sqlite
  | postgres
  deriving DecidableEq, Repr

structure EventKey where
  projectId : Int
  eventId : String
  deriving DecidableEq, Repr

/-- What outlives the process: the pending files and the rows of the events.  `dropped`
are the events of which a digest ended with a deliberate drop after they were stored. -/
structure Disk where
  files : Finset EventKey
  rows : WriteAhead EventKey
  dropped : Finset EventKey

/-- The row of an event is committed. -/
def Disk.commit (backend : Backend) (d : Disk) (k : EventKey) : Disk :=
  { d with rows :=
      match backend with
      | .sqlite => d.rows.commit k
      | .postgres => d.rows.commitDurably k }

/-- The file of an event is published, or is not after all. -/
def Disk.publish (d : Disk) (k : EventKey) (published : Bool) : Disk :=
  { d with files := if published then insert k d.files else d.files }

def Disk.delete (d : Disk) (k : EventKey) : Disk := { d with files := d.files.erase k }

def Disk.drop (d : Disk) (k : EventKey) : Disk := { d with dropped := insert k d.dropped }

/-- What a digest does next. -/
inductive Stage
  /-- Loads the project, reads the file and checks it. -/
  | reading
  /-- Asks for the row of the event. -/
  | checking
  /-- Asks for room in the quota. -/
  | measuring
  | writing
  /-- Behind the commit, its own or that of an earlier digest. -/
  | alerting
  | releasing
  /-- Counts an event the quota has no room for. -/
  | limited
  | dropping
  /-- `process_ref` cleans up after a file it rejects. -/
  | rejected (e : AppError)
  /-- `process_ref` cleans up after an error behind the commit. -/
  | abandoned (e : AppError)
  deriving DecidableEq, Repr

/-- What a stage is answered. -/
inductive Outcome
  | passed
  | rejected (r : Rejection)
  | unavailable (e : DbError)
  /-- The commit fails, and has happened. -/
  | uncertain (e : DbError)
  | full
  /-- An alert fails. -/
  | failed (e : AppError)
  /-- The file system does not delete the file, which is only logged. -/
  | stuck
  deriving DecidableEq, Repr

inductive Progress
  | next (stage : Stage)
  /-- The file waits for a checkpoint. -/
  | queued
  | ended (result : AppResult Digested)
  deriving DecidableEq

/-- `process_ref`: an error ends the digest, after the file is deleted if it is not to
be retained. -/
def fail (e : AppError) (cleanup : AppError → Stage) : Progress :=
  if shouldRetainEvent e then .ended (.error e) else .next (cleanup e)

/-- `process_impl` and the end of `process_ref`, stage by stage. -/
def digestStep (backend : Backend) (d : Disk) (k : EventKey) :
    Stage → Outcome → Option (Disk × Progress)
  | .reading, .passed =>
      if k ∈ d.files then some (d, .next .checking)
      else some (d, fail (.internal (missingEventFile ++ ": " ++ k.eventId)) .rejected)
  | .reading, .rejected r =>
      if k ∈ d.files then some (d, fail r.error .rejected) else none
  | .checking, .passed =>
      some (d, .next (if k ∈ d.rows.committed then .alerting else .measuring))
  | .measuring, .passed => some (d, .next .writing)
  | .measuring, .full => some (d, .next .limited)
  | .writing, .passed =>
      if k ∈ d.rows.committed then some (d, fail (.database .uniqueViolation) .abandoned)
      else some (d.commit backend k, .next .alerting)
  | .writing, .uncertain e =>
      if k ∈ d.rows.committed then none
      else some (d.commit backend k, fail (.database e) .abandoned)
  | .writing, .full =>
      if k ∈ d.rows.committed then some (d, fail (.database .uniqueViolation) .abandoned)
      else some (d, .next .limited)
  | .alerting, .passed => some (d, .next .releasing)
  | .alerting, .failed e => some (d, fail e .abandoned)
  | .releasing, .passed =>
      match backend with
      | .sqlite => some (d, .queued)
      | .postgres => some (d.delete k, .ended (.ok .stored))
  | .releasing, .stuck =>
      match backend with
      | .sqlite => none
      | .postgres => some (d, .ended (.ok .stored))
  | .limited, .passed => some (d, .next .dropping)
  | .dropping, .passed => some ((d.delete k).drop k, .ended (.ok .rateLimited))
  | .dropping, .stuck => some (d.drop k, .ended (.ok .rateLimited))
  | .rejected e, .passed => some ((d.delete k).drop k, .ended (.error e))
  | .rejected e, .stuck => some (d.drop k, .ended (.error e))
  | .abandoned e, .passed => some (d.delete k, .ended (.error e))
  | .abandoned e, .stuck => some (d, .ended (.error e))
  -- A query that fails is replayed: the project, the row, the quota, the write, the
  -- counter of dropped events.
  | .reading, .unavailable e | .checking, .unavailable e | .measuring, .unavailable e
  | .writing, .unavailable e | .limited, .unavailable e =>
      some (d, fail (.database e) .abandoned)
  | _, _ => none

/-! ## The process -/

/-- A digest that is running: of an ingest at its attempt, or of the recovery worker. -/
structure Task where
  key : EventKey
  attempt : Option Nat
  stage : Stage
  deriving DecidableEq

/-- `digest_stored_event` tries again while the database is locked, four times in all. -/
def Task.retry (t : Task) (result : AppResult Digested) : Option Task :=
  match t.attempt, result with
  | some attempt, .error e =>
      if isRetryableWriteContention e && attempt < 3 then
        some { t with attempt := some (attempt + 1), stage := .reading }
      else none
  | _, _ => none

/-- A committed digest whose file waits for the next completed checkpoint. -/
structure PendingDelete where
  key : EventKey
  attempts : Nat
  deriving DecidableEq, Repr

def maxCheckpointAttempts : Nat := 3

/-- `DurabilityQueue::run`. -/
inductive Worker
  | idle
  | pacing
  /-- It has a batch, and waits for its turn. -/
  | waiting (batch : List PendingDelete)
  /-- `started` is what was committed when the checkpoint started. -/
  | checkpointing (batch : List PendingDelete) (started : Finset EventKey)
  | deleting (batch : List PendingDelete) (rest : List EventKey)

/-- How far a call of `enqueue_digest` is. -/
inductive Phase
  | claimed
  | stored
  | spawned
  /-- Its caller has gone while the file was being stored. -/
  | orphaned
  deriving DecidableEq, Repr

/-- Whether its file has been published. -/
def Phase.published : Phase → Bool
  | .stored | .spawned => true
  | .claimed | .orphaned => false

structure Request where
  key : EventKey
  phase : Phase
  deriving DecidableEq, Repr

structure Memory where
  /-- The digests this process owns, counted. -/
  inFlight : Map EventKey Nat
  requests : List Request
  tasks : List Task
  pending : List PendingDelete
  worker : Worker
  /-- What the recovery worker has still to look at. -/
  listed : List EventKey

def Memory.fresh : Memory := ⟨∅, [], [], [], .idle, []⟩

structure Server where
  disk : Disk
  memory : Memory
  acked : Finset EventKey

def Server.start : Server := ⟨⟨∅, .empty, ∅⟩, .fresh, ∅⟩

namespace Memory

variable (m : Memory)

/-- `InFlightDigests::register`. -/
def register (k : EventKey) : Memory :=
  { m with inFlight := m.inFlight.insert k ((m.inFlight.lookup k).getD 0 + 1) }

/-- The guard of an event is dropped. -/
def release (k : EventKey) : Memory :=
  match m.inFlight.lookup k with
  | none => m
  | some count =>
      { m with inFlight :=
          if count - 1 = 0 then m.inFlight.erase k else m.inFlight.insert k (count - 1) }

/-- `InFlightDigests::contains`. -/
def owns (k : EventKey) : Bool := (m.inFlight.lookup k).isSome

/-- `DurabilityQueue::enqueue`, which keeps the event in flight. -/
def enqueue (k : EventKey) : Memory :=
  { m.register k with
    pending := m.pending ++ [⟨k, 0⟩]
    worker := match m.worker with
      | .idle => .pacing
      | worker => worker }

/-- A task ends; that of an ingest releases its event. -/
def finish (t : Task) : Memory := if t.attempt.isSome then m.release t.key else m

/-- Task `t`, between `before` and `rest`, has made a step. -/
def advance (before rest : List Task) (t : Task) : Progress → Memory
  | .next stage => { m with tasks := before ++ { t with stage } :: rest }
  | .queued => ({ m with tasks := before ++ rest }.enqueue t.key).finish t
  | .ended result =>
      match t.retry result with
      | some t' => { m with tasks := before ++ t' :: rest }
      | none => { m with tasks := before ++ rest }.finish t

/-- The guards of a batch are dropped. -/
def releaseAll (batch : List PendingDelete) : Memory :=
  batch.foldl (fun m entry => m.release entry.key) m

/-- A batch whose checkpoint did not complete: its entries try again, twice. -/
def returnBatch (batch : List PendingDelete) : Memory :=
  let tried := batch.map fun entry => { entry with attempts := entry.attempts + 1 }
  let (retained, retry) := tried.partition fun entry => entry.attempts ≥ maxCheckpointAttempts
  { m with pending := m.pending ++ retry, worker := .pacing }.releaseAll retained

end Memory

/-! ## Steps -/

inductive ServerLabel
  /-- An ingest registers its event, -/
  | claim (k : EventKey)
  /-- publishes its file, unless there is one, -/
  | store (k : EventKey)
  /-- or fails to, -/
  | storeFailed (k : EventKey) (published : Bool)
  /-- or has lost its caller by then, -/
  | abandon (k : EventKey)
  | storeOrphan (k : EventKey) (published : Bool)
  /-- spawns the digest, -/
  | spawn (k : EventKey)
  /-- and answers, -/
  | acknowledge (k : EventKey)
  /-- or has nobody to answer. -/
  | hangUp (k : EventKey)
  | digest (k : EventKey) (outcome : Outcome)
  /-- The worker takes what is queued, or rests, -/
  | take
  | rest
  /-- starts a checkpoint, which completes or does not, -/
  | start
  | complete
  | busy
  /-- and deletes file after file. -/
  | remove (stuck : Bool)
  | removed
  /-- The recovery worker lists files, -/
  | scan (listed : List EventKey)
  /-- and leaves one to its owner, or digests it. -/
  | skip
  | replay
  /-- SQLite checkpoints part of its log. -/
  | autoCheckpoint (part : Finset EventKey)
  /-- The process ends at once; `survivors` can still be read from the log. -/
  | crash (survivors : Finset EventKey)

/-- Every interleaving of ingests, digests, the durability queue and the recovery
worker, with a crash anywhere. -/
inductive ServerStep (backend : Backend) : Server → ServerLabel → Server → Prop
  | claim (s : Server) (k : EventKey) :
      ServerStep backend s (.claim k)
        { s with memory := { s.memory.register k with
            requests := ⟨k, .claimed⟩ :: s.memory.requests } }
  | store {s : Server} {k : EventKey} {before rest : List Request} :
      s.memory.requests = before ++ ⟨k, .claimed⟩ :: rest →
      ServerStep backend s (.store k)
        { s with
          disk := { s.disk with
            files := insert k s.disk.files
            dropped := s.disk.dropped.erase k }
          memory := { s.memory with requests := before ++ ⟨k, .stored⟩ :: rest } }
  | storeFailed {s : Server} {k : EventKey} {before rest : List Request} {published : Bool} :
      s.memory.requests = before ++ ⟨k, .claimed⟩ :: rest →
      ServerStep backend s (.storeFailed k published)
        { s with
          disk := s.disk.publish k published
          memory := { s.memory.release k with requests := before ++ rest } }
  | abandon {s : Server} {k : EventKey} {before rest : List Request} :
      s.memory.requests = before ++ ⟨k, .claimed⟩ :: rest →
      ServerStep backend s (.abandon k)
        { s with memory := { s.memory.release k with
            requests := before ++ ⟨k, .orphaned⟩ :: rest } }
  | storeOrphan {s : Server} {k : EventKey} {before rest : List Request} {published : Bool} :
      s.memory.requests = before ++ ⟨k, .orphaned⟩ :: rest →
      ServerStep backend s (.storeOrphan k published)
        { s with
          disk := s.disk.publish k published
          memory := { s.memory with requests := before ++ rest } }
  | spawn {s : Server} {k : EventKey} {before rest : List Request} :
      s.memory.requests = before ++ ⟨k, .stored⟩ :: rest →
      ServerStep backend s (.spawn k)
        { s with memory := { s.memory with
            requests := before ++ ⟨k, .spawned⟩ :: rest
            tasks := s.memory.tasks ++ [⟨k, some 0, .reading⟩] } }
  | acknowledge {s : Server} {k : EventKey} {before rest : List Request} :
      s.memory.requests = before ++ ⟨k, .spawned⟩ :: rest →
      ServerStep backend s (.acknowledge k)
        { s with
          memory := { s.memory with requests := before ++ rest }
          acked := insert k s.acked }
  | hangUp {s : Server} {k : EventKey} {before rest : List Request} :
      s.memory.requests = before ++ ⟨k, .spawned⟩ :: rest →
      ServerStep backend s (.hangUp k)
        { s with memory := { s.memory with requests := before ++ rest } }
  | digest {s : Server} {t : Task} {before rest : List Task} {outcome : Outcome} {disk : Disk}
      {progress : Progress} : s.memory.tasks = before ++ t :: rest →
      digestStep backend s.disk t.key t.stage outcome = some (disk, progress) →
      ServerStep backend s (.digest t.key outcome)
        { s with disk, memory := s.memory.advance before rest t progress }
  | take {s : Server} : s.memory.worker = .pacing → s.memory.pending ≠ [] →
      ServerStep backend s .take
        { s with memory := { s.memory with worker := .waiting s.memory.pending, pending := [] } }
  | rest {s : Server} : s.memory.worker = .pacing → s.memory.pending = [] →
      ServerStep backend s .rest { s with memory := { s.memory with worker := .idle } }
  | start {s : Server} {batch : List PendingDelete} : s.memory.worker = .waiting batch →
      ServerStep backend s .start
        { s with memory := { s.memory with
            worker := .checkpointing batch s.disk.rows.committed } }
  | complete {s : Server} {batch : List PendingDelete} {started : Finset EventKey} :
      s.memory.worker = .checkpointing batch started →
      ServerStep backend s .complete
        { s with
          disk := { s.disk with rows := s.disk.rows.checkpoint started }
          memory := { s.memory with
            worker := .deleting batch (batch.map PendingDelete.key) } }
  | busy {s : Server} {batch : List PendingDelete} {started : Finset EventKey} :
      s.memory.worker = .checkpointing batch started →
      ServerStep backend s .busy { s with memory := s.memory.returnBatch batch }
  | remove {s : Server} {batch : List PendingDelete} {k : EventKey} {rest : List EventKey}
      {stuck : Bool} : s.memory.worker = .deleting batch (k :: rest) →
      ServerStep backend s (.remove stuck)
        { s with
          disk := if stuck then s.disk else s.disk.delete k
          memory := { s.memory with worker := .deleting batch rest } }
  | removed {s : Server} {batch : List PendingDelete} : s.memory.worker = .deleting batch [] →
      ServerStep backend s .removed
        { s with memory := { s.memory with worker := .pacing }.releaseAll batch }
  | scan {s : Server} {listed : List EventKey} : s.memory.listed = [] →
      (∀ t ∈ s.memory.tasks, t.attempt.isSome) →
      (∀ k ∈ listed, k ∈ s.disk.files ∧ s.memory.owns k = false) →
      ServerStep backend s (.scan listed) { s with memory := { s.memory with listed } }
  | skip {s : Server} {k : EventKey} {rest : List EventKey} : s.memory.listed = k :: rest →
      (∀ t ∈ s.memory.tasks, t.attempt.isSome) → s.memory.owns k = true →
      ServerStep backend s .skip { s with memory := { s.memory with listed := rest } }
  | replay {s : Server} {k : EventKey} {rest : List EventKey} : s.memory.listed = k :: rest →
      (∀ t ∈ s.memory.tasks, t.attempt.isSome) → s.memory.owns k = false →
      ServerStep backend s .replay
        { s with memory := { s.memory with
            listed := rest
            tasks := s.memory.tasks ++ [⟨k, none, .reading⟩] } }
  | autoCheckpoint (s : Server) (part : Finset EventKey) :
      ServerStep backend s (.autoCheckpoint part)
        { s with disk := { s.disk with rows := s.disk.rows.checkpoint part } }
  | crash (s : Server) (survivors : Finset EventKey) :
      ServerStep backend s (.crash survivors)
        { s with
          disk := { s.disk with rows := s.disk.rows.crash survivors }
          memory := .fresh }

end Rustrak.Durability
