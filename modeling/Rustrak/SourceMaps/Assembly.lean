import Mathlib.Algebra.Order.Ring.Int
import Rustrak.Relational.Table
import Rustrak.Transition.Run

/-!
# Assembly jobs

An assemble request queues a job for the chunks it names (`enqueue_assembly` of
`routes/sourcemaps.rs`), and the workers of `workers/sourcemap_assembly.rs` claim the jobs,
assemble them and delete the chunks that no job owns any more (`finish_job`).

A claim is a lock of two minutes, and nobody is told when it has run out: only a worker that
starts puts such jobs back.  A worker that assembles for longer goes on, and reports a failure
whatever has become of the job (`markFailure`).

The transactions are one step each.  Time is in seconds.
-/

namespace Rustrak.SourceMaps

open Rustrak.Relational Rustrak.Transition

inductive JobState
  | created
  | assembling
  | ok
  | error
  deriving DecidableEq, Repr

def JobState.asStr : JobState → String
  | .created => "created"
  | .assembling => "assembling"
  | .ok => "ok"
  | .error => "error"

structure AssemblyJob where
  id : Nat
  bundleChecksum : String
  projectId : Int
  chunks : List String
  /-- `artifact_bundle` or `dif`. -/
  kind : String
  state : JobState
  detail : Option String
  lockedUntil : Option Int
  workerId : Option Nat
  retryCount : Nat
  maxRetries : Nat
  createdAt : Int
  updatedAt : Int
  deriving DecidableEq, Repr

/-- One file to assemble, as an assemble request describes it. -/
structure NewJob where
  projectId : Int
  checksum : String
  chunks : List String
  kind : String
  deriving DecidableEq, Repr

structure AssembleResponse where
  state : String
  missingChunks : List String
  detail : Option String
  deriving DecidableEq, Repr

/-- Only a failed job says why. -/
def jobResponse (job : AssemblyJob) : AssembleResponse :=
  ⟨job.state.asStr, [], job.detail.filter fun _ => job.state = .error⟩

def notFoundResponse (missing : List String) : AssembleResponse := ⟨"not_found", missing, none⟩

/-- Where a worker is. -/
inductive Worker
  | polling
  /-- Works on the job as it was claimed. -/
  | assembling (job : AssemblyJob)
  | reporting (job : AssemblyJob) (detail : String)
  | crashed
  deriving DecidableEq, Repr

/-- The claim that a worker has not ended. -/
def Worker.claim : Worker → Option AssemblyJob
  | .assembling job | .reporting job _ => some job
  | .polling | .crashed => none

/-- Where an assemble request is. -/
inductive AssembleRequest
  | arrived (new : NewJob)
  /-- Has found the file assembled already. -/
  | reuploading (new : NewJob) (job : AssemblyJob)
  /-- Looks for missing chunks; `failed` is a job that has failed. -/
  | checking (new : NewJob) (failed : Option AssemblyJob)
  | queueing (new : NewJob)
  | answered (response : AssembleResponse)
  deriving DecidableEq, Repr

structure Assembly where
  now : Int
  jobs : List AssemblyJob
  chunks : List String
  /-- `assembly_job_chunks`: a job, and a chunk it owns. -/
  owners : List (Nat × String)
  nextId : Nat
  workers : List Worker
  requests : List AssembleRequest
  /-- The claims that nobody will end: of workers that crashed, or could not report. -/
  abandoned : List AssemblyJob
  /-- When expired jobs were last put back. -/
  lastReset : Option Int
  deriving DecidableEq, Repr

def Assembly.fresh (now : Int) : Assembly := ⟨now, [], [], [], 1, [], [], [], none⟩

/-! ## Rows -/

/-- The lock has run out. -/
def AssemblyJob.expired (now : Int) (job : AssemblyJob) : Bool :=
  job.state = .assembling && job.lockedUntil.any (· < now)

def AssemblyJob.reset (now : Int) (job : AssemblyJob) : AssemblyJob :=
  { job with state := .created, lockedUntil := none, workerId := none, updatedAt := now }

def AssemblyJob.claimable (job : AssemblyJob) : Bool :=
  job.state = .created && job.retryCount < job.maxRetries

def AssemblyJob.claimed (now : Int) (worker : Nat) (job : AssemblyJob) : AssemblyJob :=
  { job with
    state := .assembling, workerId := some worker, lockedUntil := some (now + 120), updatedAt := now }

def AssemblyJob.failed (now : Int) (detail : String) (job : AssemblyJob) : AssemblyJob :=
  { job with
    state := if job.retryCount + 1 ≥ job.maxRetries then .error else .created
    retryCount := job.retryCount + 1
    detail := some detail
    lockedUntil := none
    updatedAt := now }

def AssemblyJob.finished (now : Int) (job : AssemblyJob) : AssemblyJob :=
  { job with state := .ok, detail := none, updatedAt := now }

/-- `ON CONFLICT … DO UPDATE`. -/
def AssemblyJob.requeued (new : NewJob) (job : AssemblyJob) : AssemblyJob :=
  { job with
    state := .created, detail := none, chunks := new.chunks, retryCount := 0, kind := new.kind }

def NewJob.row (new : NewJob) (id : Nat) (now : Int) : AssemblyJob :=
  { id, bundleChecksum := new.checksum, projectId := new.projectId, chunks := new.chunks
    kind := new.kind, state := .created, detail := none, lockedUntil := none, workerId := none
    retryCount := 0, maxRetries := 3, createdAt := now, updatedAt := now }

namespace Assembly

variable (w : Assembly)

/-! ## Transactions -/

def job (id : Nat) : Option AssemblyJob := lookup AssemblyJob.id id w.jobs

def update (id : Nat) (f : AssemblyJob → AssemblyJob) : Assembly :=
  { w with jobs := modify AssemblyJob.id id f w.jobs }

/-- Releases a job's chunks, and deletes those of `consumed` that no other job owns. -/
def release (id : Nat) (consumed : List String) : Assembly :=
  let owners := w.owners.filter fun o => o.1 ≠ id
  { w with
    owners
    chunks := w.chunks.filter fun c => !consumed.contains c || owners.any fun o => o.2 = c }

/-- `reset_stuck_jobs`. -/
def resetStuckJobs : Assembly :=
  { w with
    jobs := w.jobs.map fun job => if job.expired w.now then job.reset w.now else job
    lastReset := some w.now }

/-- `finish_job`, with the chunks the job had when it was claimed. -/
def finishJob (claim : AssemblyJob) : Option Assembly :=
  match w.job claim.id with
  | some job =>
      if job.state = .assembling then
        some ((w.release claim.id claim.chunks).update claim.id (AssemblyJob.finished w.now))
      -- The transaction is rolled back.
      else none
  | none => none

/-- `mark_failure`. -/
def markFailure (id : Nat) (detail : String) : Option Assembly :=
  (w.job id).map fun job =>
    let marked := w.update id (AssemblyJob.failed w.now detail)
    if job.retryCount + 1 ≥ job.maxRetries then
      marked.release id ((w.owners.filter fun o => o.1 = id).map Prod.snd)
    else marked

/-- The job of a bundle in a project. -/
def find (new : NewJob) : Option AssemblyJob :=
  w.jobs.find? fun job => job.bundleChecksum = new.checksum && job.projectId = new.projectId

def missing (new : NewJob) : List String := new.chunks.filter fun c => !w.chunks.contains c

/-- The job owns these chunks, and no others. -/
def own (id : Nat) (chunks : List String) : Assembly :=
  { w with owners := (w.owners.filter fun o => o.1 ≠ id) ++ chunks.map fun c => (id, c) }

/-- The transaction of `enqueue_assembly`, and its response. -/
def enqueue (new : NewJob) : Assembly × AssembleResponse :=
  let missing := w.missing new
  if missing ≠ [] then (w, notFoundResponse missing)
  else match w.find new with
    | none =>
        let row := new.row w.nextId w.now
        ({ w with jobs := w.jobs ++ [row], nextId := w.nextId + 1 }.own row.id new.chunks,
          jobResponse row)
    | some job =>
        if job.state = .error then
          ((w.update job.id (AssemblyJob.requeued new)).own job.id new.chunks,
            jobResponse (job.requeued new))
        else (w, jobResponse job)

/-- `DELETE FROM assembly_jobs`; what the job owns goes with it. -/
def forget (id : Nat) : Assembly :=
  { w with
    jobs := w.jobs.filter fun job => job.id ≠ id
    owners := w.owners.filter fun o => o.1 ≠ id }

/-- The next step of a request; `held` is whether a debug ID still holds the file. -/
def advanceRequest (held : Bool) : AssembleRequest → Assembly × AssembleRequest
  | .arrived new =>
      match w.find new with
      | some job =>
          if job.state = .ok && job.kind = "dif" then (w, .reuploading new job)
          else if job.state ≠ .error then (w, .answered (jobResponse job))
          else (w, .checking new (some job))
      | none => (w, .checking new none)
  | .reuploading new job =>
      if held then (w, .answered (jobResponse job)) else (w.forget job.id, .checking new none)
  | .checking new failed =>
      if w.missing new = [] then (w, .queueing new)
      else
        -- A failed job's chunks are gone, so a poll after the failure hears of the failure.
        match failed.filter fun job => w.now - job.updatedAt < 600 with
        | some job => (w, .answered (jobResponse job))
        | none => (w, .answered (notFoundResponse (w.missing new)))
  | .queueing new =>
      let (queued, response) := w.enqueue new
      (queued, .answered response)
  | .answered response => (w, .answered response)

/-- What a step of a request can do: nothing to the tables, forget a job, or queue one. -/
theorem advanceRequest_cases (held : Bool) (request : AssembleRequest) :
    (∃ next, w.advanceRequest held request = (w, next) ∧
      ∀ new job, next = .reuploading new job → w.find new = some job) ∨
    (∃ new job, request = .reuploading new job ∧ held = false ∧
      w.advanceRequest held request = (w.forget job.id, .checking new none)) ∨
    ∃ new, request = .queueing new ∧
      w.advanceRequest held request = ((w.enqueue new).1, .answered (w.enqueue new).2) := by
  cases request with
  | arrived new =>
      left
      simp only [advanceRequest]
      cases hfind : w.find new with
      | none => exact ⟨_, rfl, fun _ _ => AssembleRequest.noConfusion⟩
      | some job =>
          dsimp only
          split_ifs
          · refine ⟨_, rfl, fun new' job' hsame => ?_⟩
            obtain ⟨rfl, rfl⟩ := AssembleRequest.reuploading.inj hsame
            exact hfind
          · exact ⟨_, rfl, fun _ _ => AssembleRequest.noConfusion⟩
          · exact ⟨_, rfl, fun _ _ => AssembleRequest.noConfusion⟩
  | reuploading new job =>
      cases held with
      | true => exact .inl ⟨_, rfl, fun _ _ => AssembleRequest.noConfusion⟩
      | false => exact .inr (.inl ⟨new, job, rfl, rfl, rfl⟩)
  | checking new failed =>
      left
      simp only [advanceRequest]
      split_ifs
      · exact ⟨_, rfl, fun _ _ => AssembleRequest.noConfusion⟩
      · cases failed.filter fun job => w.now - job.updatedAt < 600 with
        | none => exact ⟨_, rfl, fun _ _ => AssembleRequest.noConfusion⟩
        | some job => exact ⟨_, rfl, fun _ _ => AssembleRequest.noConfusion⟩
  | queueing new => exact .inr (.inr ⟨new, rfl, rfl⟩)
  | answered response => exact .inl ⟨_, rfl, fun _ _ => AssembleRequest.noConfusion⟩

variable {w}

theorem finishJob_eq_some {claim : AssemblyJob} {w' : Assembly} (h : w.finishJob claim = some w') :
    w' = (w.release claim.id claim.chunks).update claim.id (AssemblyJob.finished w.now) := by
  unfold finishJob at h
  split at h
  · obtain ⟨-, hfinished⟩ := Option.ite_none_right_eq_some.mp h
    exact (Option.some.inj hfinished).symm
  · contradiction

/-- A failure is written, and with the last attempt the chunks are released. -/
theorem markFailure_eq_some {id : Nat} {detail : String} {w' : Assembly}
    (h : w.markFailure id detail = some w') : ∃ job, w.job id = some job ∧
      ((job.maxRetries ≤ job.retryCount + 1 ∧ ∃ consumed,
          w' = (w.update id (AssemblyJob.failed w.now detail)).release id consumed) ∨
        w' = w.update id (AssemblyJob.failed w.now detail)) := by
  obtain ⟨job, hjob, rfl⟩ := Option.map_eq_some_iff.mp h
  refine ⟨job, hjob, ?_⟩
  dsimp only
  split_ifs with hspent
  · exact .inl ⟨hspent, _, rfl⟩
  · exact .inr rfl

/-- A request queues nothing, or a new job, or again one that has failed. -/
theorem enqueue_cases (w : Assembly) (new : NewJob) :
    (w.enqueue new).1 = w ∨
    (w.missing new = [] ∧ w.find new = none ∧ (w.enqueue new).1 =
      Assembly.own { w with
        jobs := w.jobs ++ [new.row w.nextId w.now], nextId := w.nextId + 1 } w.nextId new.chunks) ∨
    ∃ job, w.missing new = [] ∧ w.find new = some job ∧ job.state = .error ∧
      (w.enqueue new).1 = (w.update job.id (AssemblyJob.requeued new)).own job.id new.chunks := by
  unfold enqueue
  dsimp only
  split_ifs with hmissing
  · exact .inl rfl
  · cases hfind : w.find new with
    | none => exact .inr (.inl ⟨not_not.mp hmissing, rfl, rfl⟩)
    | some job =>
        dsimp only
        split_ifs with herror
        · exact .inr (.inr ⟨job, not_not.mp hmissing, rfl, herror, rfl⟩)
        · exact .inl rfl

variable (w)

/-- Another stage of a worker. -/
def turn (i : Nat) (worker : Worker) : Assembly := { w with workers := w.workers.set i worker }

end Assembly

/-! ## Steps -/

inductive AssemblyLabel
  /-- A worker starts; `reset` is whether its update succeeds. -/
  | start (reset : Bool)
  /-- A poll that claims a job. -/
  | claim (worker job : Nat)
  /-- A poll that finds nothing to claim. -/
  | empty (worker : Nat)
  | finish (worker : Nat)
  /-- The assembly, or the transaction at its end, fails. -/
  | fail (worker : Nat) (detail : String)
  | report (worker : Nat)
  | reportLost (worker : Nat)
  | crash (worker : Nat)
  | receive (new : NewJob)
  | advance (request : Nat) (held : Bool)
  | upload (checksum : String)
  | wait (seconds : Nat)
  deriving DecidableEq, Repr

inductive AssemblySteps : Assembly → AssemblyLabel → Assembly → Prop
  | start (w : Assembly) (reset : Bool) :
      AssemblySteps w (.start reset)
        { (if reset then w.resetStuckJobs else w) with workers := w.workers ++ [.polling] }
  /-- `ORDER BY created_at LIMIT 1`. -/
  | claim {w : Assembly} {i id : Nat} {job : AssemblyJob} :
      w.workers[i]? = some .polling → w.job id = some job → job.claimable = true →
      (∀ other ∈ w.jobs, other.claimable = true → job.createdAt ≤ other.createdAt) →
      AssemblySteps w (.claim i id)
        ((w.update id (AssemblyJob.claimed w.now i)).turn i (.assembling (job.claimed w.now i)))
  | empty {w : Assembly} {i : Nat} :
      w.workers[i]? = some .polling → (∀ job ∈ w.jobs, job.claimable = false) →
      AssemblySteps w (.empty i) w
  | finish {w w' : Assembly} {i : Nat} {job : AssemblyJob} :
      w.workers[i]? = some (.assembling job) → w.finishJob job = some w' →
      AssemblySteps w (.finish i) (w'.turn i .polling)
  | fail {w : Assembly} {i : Nat} {job : AssemblyJob} (detail : String) :
      w.workers[i]? = some (.assembling job) →
      AssemblySteps w (.fail i detail) (w.turn i (.reporting job detail))
  | report {w w' : Assembly} {i : Nat} {job : AssemblyJob} {detail : String} :
      w.workers[i]? = some (.reporting job detail) → w.markFailure job.id detail = some w' →
      AssemblySteps w (.report i) (w'.turn i .polling)
  /-- The job has been forgotten. -/
  | reportGone {w : Assembly} {i : Nat} {job : AssemblyJob} {detail : String} :
      w.workers[i]? = some (.reporting job detail) → w.job job.id = none →
      AssemblySteps w (.report i) (w.turn i .polling)
  | reportLost {w : Assembly} {i : Nat} {job : AssemblyJob} {detail : String} :
      w.workers[i]? = some (.reporting job detail) →
      AssemblySteps w (.reportLost i)
        { w.turn i .polling with abandoned := w.abandoned ++ [job] }
  | crash {w : Assembly} {i : Nat} {worker : Worker} : w.workers[i]? = some worker →
      AssemblySteps w (.crash i)
        { w.turn i .crashed with abandoned := w.abandoned ++ worker.claim.toList }
  | receive (w : Assembly) (new : NewJob) :
      AssemblySteps w (.receive new) { w with requests := w.requests ++ [.arrived new] }
  | advance {w : Assembly} {i : Nat} {request : AssembleRequest} (held : Bool) :
      w.requests[i]? = some request →
      AssemblySteps w (.advance i held)
        { (w.advanceRequest held request).1 with
          requests := w.requests.set i (w.advanceRequest held request).2 }
  | upload (w : Assembly) (checksum : String) :
      AssemblySteps w (.upload checksum)
        { w with chunks := if checksum ∈ w.chunks then w.chunks else w.chunks ++ [checksum] }
  | wait (w : Assembly) (seconds : Nat) :
      AssemblySteps w (.wait seconds) { w with now := w.now + seconds }

/-! ## Running it -/

/-- `AssemblySteps` as a function. -/
def assemblyStep (w : Assembly) : AssemblyLabel → Option Assembly
  | .start reset =>
      some { (if reset then w.resetStuckJobs else w) with workers := w.workers ++ [.polling] }
  | .claim i id =>
      match w.workers[i]?, w.job id with
      | some .polling, some job =>
          if job.claimable ∧ ∀ other ∈ w.jobs, other.claimable → job.createdAt ≤ other.createdAt then
            some ((w.update id (AssemblyJob.claimed w.now i)).turn i
              (.assembling (job.claimed w.now i)))
          else none
      | _, _ => none
  | .empty i =>
      match w.workers[i]? with
      | some .polling => if w.jobs.all fun job => !job.claimable then some w else none
      | _ => none
  | .finish i =>
      match w.workers[i]? with
      | some (.assembling job) => (w.finishJob job).map fun after => after.turn i .polling
      | _ => none
  | .fail i detail =>
      match w.workers[i]? with
      | some (.assembling job) => some (w.turn i (.reporting job detail))
      | _ => none
  | .report i =>
      match w.workers[i]? with
      | some (.reporting job detail) =>
          (w.markFailure job.id detail).map fun after => after.turn i .polling
      | _ => none
  | .reportLost i =>
      match w.workers[i]? with
      | some (.reporting job _) => some { w.turn i .polling with abandoned := w.abandoned ++ [job] }
      | _ => none
  | .crash i => w.workers[i]?.map fun worker =>
      { w.turn i .crashed with abandoned := w.abandoned ++ worker.claim.toList }
  | .receive new => some { w with requests := w.requests ++ [.arrived new] }
  | .advance i held => w.requests[i]?.map fun request =>
      { (w.advanceRequest held request).1 with
        requests := w.requests.set i (w.advanceRequest held request).2 }
  | .upload checksum =>
      some { w with chunks := if checksum ∈ w.chunks then w.chunks else w.chunks ++ [checksum] }
  | .wait seconds => some { w with now := w.now + seconds }

theorem assemblySteps_of_step {w w' : Assembly} {label : AssemblyLabel}
    (h : assemblyStep w label = some w') : AssemblySteps w label w' := by
  cases label with
  | start reset =>
      obtain rfl := Option.some.inj h
      exact .start w reset
  | claim i id =>
      simp only [assemblyStep] at h
      split at h
      · next job hi hjob =>
          obtain ⟨⟨hclaimable, holdest⟩, hclaimed⟩ := Option.ite_none_right_eq_some.mp h
          obtain rfl := Option.some.inj hclaimed
          exact .claim hi hjob hclaimable holdest
      · contradiction
  | empty i =>
      simp only [assemblyStep] at h
      split at h
      · next hi =>
          obtain ⟨hnone, hsame⟩ := Option.ite_none_right_eq_some.mp h
          obtain rfl := Option.some.inj hsame
          exact .empty hi (by simpa using hnone)
      · contradiction
  | finish i =>
      simp only [assemblyStep] at h
      split at h
      · next job hi =>
          obtain ⟨after, hafter, rfl⟩ := Option.map_eq_some_iff.mp h
          exact .finish hi hafter
      · contradiction
  | fail i detail =>
      simp only [assemblyStep] at h
      split at h
      · next job hi =>
          obtain rfl := Option.some.inj h
          exact .fail detail hi
      · contradiction
  | report i =>
      simp only [assemblyStep] at h
      split at h
      · next job detail hi =>
          obtain ⟨after, hafter, rfl⟩ := Option.map_eq_some_iff.mp h
          exact .report hi hafter
      · contradiction
  | reportLost i =>
      simp only [assemblyStep] at h
      split at h
      · next job detail hi =>
          obtain rfl := Option.some.inj h
          exact .reportLost hi
      · contradiction
  | crash i =>
      obtain ⟨worker, hi, rfl⟩ := Option.map_eq_some_iff.mp h
      exact .crash hi
  | receive new =>
      obtain rfl := Option.some.inj h
      exact .receive w new
  | advance i held =>
      obtain ⟨request, hi, rfl⟩ := Option.map_eq_some_iff.mp h
      exact .advance held hi
  | upload checksum =>
      obtain rfl := Option.some.inj h
      exact .upload w checksum
  | wait seconds =>
      obtain rfl := Option.some.inj h
      exact .wait w seconds

/-- A computed run is a run. -/
theorem assembly_run {w w' : Assembly} {labels : List AssemblyLabel}
    (h : labels.foldlM assemblyStep w = some w') : Run AssemblySteps w labels w' :=
  (Run.of_foldlM h).mono fun _ _ _ => assemblySteps_of_step

end Rustrak.SourceMaps
