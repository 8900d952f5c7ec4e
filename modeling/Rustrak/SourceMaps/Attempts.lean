import Mathlib.Algebra.Order.Group.Nat
import Rustrak.SourceMaps.Ownership

/-!
# How often a job is tried

Between two requests that queue it a job has a budget of attempts, which a claim draws on and
nothing but a reset restores: an attempt that ends with the worker's death has not been
counted, and `reset_stuck_jobs` puts the job back as it was.  As long as no worker that starts
puts it back (`NotPutBack`) a job is claimed no more than `max_retries` times.
-/

namespace Rustrak.SourceMaps

open Rustrak.Relational Rustrak.Transition

variable {w w' v : Assembly} {label : AssemblyLabel} {labels : List AssemblyLabel} {id other i : Nat}
  {job row : AssemblyJob}

/-- A poll claims this job. -/
def AssemblyLabel.claims (id : Nat) : AssemblyLabel → Bool
  | .claim _ job => job = id
  | _ => false

/-- The request is about to queue this job. -/
def Assembly.queues (w : Assembly) (id : Nat) : AssembleRequest → Bool
  | .queueing new => w.missing new = [] && match w.find new with
      | none => w.nextId = id
      | some job => job.state = .error && job.id = id
  | _ => false

/-- No assemble request queues the job. -/
def NotQueued (id : Nat) (w : Assembly) : AssemblyLabel → Prop
  | .advance i _ => ∀ request ∈ w.requests[i]?, w.queues id request = false
  | _ => True

/-- No worker that starts puts the job back. -/
def NotPutBack (id : Nat) (w : Assembly) : AssemblyLabel → Prop
  | .start true => ∀ job ∈ w.job id, job.expired w.now = false
  | _ => True

instance (id : Nat) (w : Assembly) : ∀ label, Decidable (NotQueued id w label)
  | .advance i _ =>
      inferInstanceAs (Decidable (∀ request ∈ w.requests[i]?, w.queues id request = false))
  | .start _ | .claim _ _ | .empty _ | .finish _ | .fail _ _ | .report _ | .reportLost _ | .crash _
  | .receive _ | .upload _ | .wait _ => isTrue trivial

instance (id : Nat) (w : Assembly) : ∀ label, Decidable (NotPutBack id w label)
  | .start true => inferInstanceAs (Decidable (∀ job ∈ w.job id, job.expired w.now = false))
  | .start false | .claim _ _ | .empty _ | .finish _ | .fail _ _ | .report _ | .reportLost _
  | .crash _ | .receive _ | .advance _ _ | .upload _ | .wait _ => isTrue trivial

/-- Between two requests that queue the job. -/
def BetweenSteps (id : Nat) (w : Assembly) (label : AssemblyLabel) (w' : Assembly) : Prop :=
  AssemblySteps w label w' ∧ NotQueued id w label

/-! ## The budget -/

/-- The attempts a job has left, the present one apart. -/
def AssemblyJob.attemptsLeft (job : AssemblyJob) : Nat :=
  if job.state = .created then job.maxRetries - job.retryCount
  else job.maxRetries - (job.retryCount + 1)

def Assembly.attemptsLeft (w : Assembly) (id : Nat) : Nat :=
  (w.job id).elim 0 AssemblyJob.attemptsLeft

theorem attemptsLeft_le_maxRetries (job : AssemblyJob) : job.attemptsLeft ≤ job.maxRetries := by
  unfold AssemblyJob.attemptsLeft
  split_ifs
  · omega
  · omega

/-- Whatever its state, it has those left which follow the present one. -/
theorem le_attemptsLeft (job : AssemblyJob) :
    job.maxRetries - (job.retryCount + 1) ≤ job.attemptsLeft := by
  unfold AssemblyJob.attemptsLeft
  split_ifs
  · omega
  · omega

theorem attemptsLeft_failed (now : Int) (detail : String) (job : AssemblyJob) :
    (job.failed now detail).attemptsLeft ≤ job.attemptsLeft := by
  refine le_trans ?_ (le_attemptsLeft job)
  by_cases hspent : job.retryCount + 1 ≥ job.maxRetries
  · have herror : (job.failed now detail).state = .error := if_pos hspent
    have hnone : (job.failed now detail).attemptsLeft = job.maxRetries - (job.retryCount + 1 + 1) := by
      unfold AssemblyJob.attemptsLeft
      rw [herror]
      rfl
    omega
  · have hcreated : (job.failed now detail).state = .created := if_neg hspent
    exact (if_pos hcreated).le

theorem attemptsLeft_finished (now : Int) (job : AssemblyJob) :
    (job.finished now).attemptsLeft ≤ job.attemptsLeft :=
  le_attemptsLeft job

/-- A claim takes one. -/
theorem attemptsLeft_claimed (now : Int) (worker : Nat) (h : job.claimable = true) :
    (job.claimed now worker).attemptsLeft + 1 ≤ job.attemptsLeft := by
  obtain ⟨hcreated, hleft⟩ := Bool.and_eq_true_iff.mp h
  have hstate : job.state = .created := of_decide_eq_true hcreated
  have hretries : job.retryCount < job.maxRetries := of_decide_eq_true hleft
  unfold AssemblyJob.attemptsLeft AssemblyJob.claimed
  rw [if_pos hstate, if_neg nofun]
  dsimp only
  omega

theorem job_update {f : AssemblyJob → AssemblyJob} (hf : ∀ job, (f job).id = job.id) :
    (w.update other f).job id = if id = other then (w.job id).map f else w.job id :=
  lookup_modify hf

/-- An update that leaves no more attempts than there were. -/
theorem attemptsLeft_update {f : AssemblyJob → AssemblyJob} (hid : ∀ job, (f job).id = job.id)
    (hf : ∀ job, (f job).attemptsLeft ≤ job.attemptsLeft)
    (hv : v.jobs = (w.update other f).jobs) : v.attemptsLeft id ≤ w.attemptsLeft id := by
  have hjob : v.job id = (w.update other f).job id := congrArg (lookup AssemblyJob.id id) hv
  unfold Assembly.attemptsLeft
  rw [hjob, job_update hid]
  split_ifs
  · cases w.job id with
    | none => exact le_rfl
    | some job => exact hf job
  · exact le_rfl

/-! ## Steps -/

theorem attemptsLeft_resetStuckJobs (h : ∀ job ∈ w.job id, job.expired w.now = false) :
    w.resetStuckJobs.attemptsLeft id = w.attemptsLeft id := by
  have hid : ∀ job : AssemblyJob,
      (if job.expired w.now then job.reset w.now else job).id = job.id := by
    intro job
    split_ifs
    · rfl
    · rfl
  have hjob : w.resetStuckJobs.job id =
      (w.job id).map fun job => if job.expired w.now then job.reset w.now else job := lookup_map hid
  unfold Assembly.attemptsLeft
  rw [hjob]
  cases hlookup : w.job id with
  | none => rfl
  | some job =>
      have hleft : job.expired w.now = false := h job hlookup
      simp [hleft]

theorem attemptsLeft_forget (other : Nat) : (w.forget other).attemptsLeft id ≤ w.attemptsLeft id := by
  have hjob : (w.forget other).job id = if decide (id ≠ other) = true then w.job id else none :=
    lookup_filter_key fun k => decide (k ≠ other)
  unfold Assembly.attemptsLeft
  rw [hjob]
  split_ifs
  · exact le_rfl
  · exact Nat.zero_le _

/-- A request that queues another job, or none. -/
theorem attemptsLeft_enqueue {new : NewJob} (h : w.queues id (.queueing new) = false) :
    (w.enqueue new).1.attemptsLeft id = w.attemptsLeft id := by
  have hjob : (w.enqueue new).1.job id = w.job id := by
    unfold Assembly.queues at h
    dsimp only at h
    rcases w.enqueue_cases new with hsame | ⟨hmissing, hfind, hqueued⟩ |
      ⟨job, hmissing, hfind, herror, hqueued⟩
    · rw [hsame]
    · rw [hmissing, hfind] at h
      rw [hqueued]
      have hne : w.nextId ≠ id := by simpa using h
      exact lookup_insert_ne hne
    · rw [hmissing, hfind] at h
      rw [hqueued]
      have hne : job.id ≠ id := by simpa [herror] using h
      exact lookup_modify_ne (fun _ => rfl) hne.symm
  unfold Assembly.attemptsLeft
  rw [hjob]

theorem attemptsLeft_step (hstep : BetweenSteps id w label w') (hkept : NotPutBack id w label) :
    (if label.claims id then 1 else 0) + w'.attemptsLeft id ≤ w.attemptsLeft id := by
  obtain ⟨hstep, hnot⟩ := hstep
  -- A step that claims nothing.
  have hother : label.claims id = false → w'.attemptsLeft id ≤ w.attemptsLeft id →
      (if label.claims id then 1 else 0) + w'.attemptsLeft id ≤ w.attemptsLeft id := by
    intro hclaims hle
    rw [hclaims]
    simpa using hle
  cases hstep with
  | start reset =>
      refine hother rfl ?_
      cases reset with
      | true => exact (attemptsLeft_resetStuckJobs hkept).le
      | false => exact le_rfl
  | @claim i other job hi hjob hclaimable holdest =>
      have hclaimed : ((w.update other (AssemblyJob.claimed w.now i)).turn i
          (.assembling (job.claimed w.now i))).job id =
          if id = other then (w.job id).map (AssemblyJob.claimed w.now i) else w.job id :=
        job_update fun _ => rfl
      by_cases hid : id = other
      · subst hid
        have hone : AssemblyLabel.claims id (.claim i id) = true := decide_eq_true rfl
        have hleft := attemptsLeft_claimed w.now i hclaimable
        rw [if_pos rfl, hjob] at hclaimed
        unfold Assembly.attemptsLeft
        rw [hclaimed, hjob, hone, if_pos rfl, add_comm]
        exact hleft
      · refine hother (decide_eq_false (Ne.symm hid)) (le_of_eq ?_)
        unfold Assembly.attemptsLeft
        rw [hclaimed, if_neg hid]
  | finish hi hfinish =>
      refine hother rfl ?_
      obtain rfl := Assembly.finishJob_eq_some hfinish
      exact attemptsLeft_update (f := AssemblyJob.finished w.now) (fun _ => rfl)
        (attemptsLeft_finished w.now) rfl
  | @report _ i claim detail hi hfail =>
      refine hother rfl ?_
      obtain ⟨found, -, ⟨-, consumed, rfl⟩ | rfl⟩ := Assembly.markFailure_eq_some hfail
      · exact attemptsLeft_update (f := AssemblyJob.failed w.now detail) (fun _ => rfl)
          (attemptsLeft_failed w.now detail) rfl
      · exact attemptsLeft_update (f := AssemblyJob.failed w.now detail) (fun _ => rfl)
          (attemptsLeft_failed w.now detail) rfl
  | @advance i request held hi =>
      refine hother rfl ?_
      rcases w.advanceRequest_cases held request with
        ⟨next, hnext, -⟩ | ⟨new, job, -, -, hnext⟩ | ⟨new, rfl, hnext⟩
      · rw [hnext]
        exact le_rfl
      · rw [hnext]
        exact attemptsLeft_forget job.id
      · rw [hnext]
        exact (attemptsLeft_enqueue (hnot _ hi)).le
  | empty | fail | reportGone | reportLost | crash | receive | upload | wait => exact hother rfl le_rfl

/-! ## Runs -/

/-- Between two requests that queue it, a job that no worker puts back when it starts is claimed
at most `max_retries` times. -/
theorem attempts_bounded {mid : Assembly}
    (hrun : Run (fun w label w' => BetweenSteps id w label w' ∧ NotPutBack id w label) mid labels w)
    (hjob : mid.job id = some job) :
    labels.countP (AssemblyLabel.claims id) ≤ job.maxRetries := by
  have hused : labels.countP (AssemblyLabel.claims id) + w.attemptsLeft id ≤ mid.attemptsLeft id := by
    refine hrun.history
      (fun past s => past.countP (AssemblyLabel.claims id) + s.attemptsLeft id ≤ mid.attemptsLeft id)
      (fun past s label t hpast hstep => ?_) (by simp)
    have hone := attemptsLeft_step hstep.1 hstep.2
    rw [List.countP_append, List.countP_singleton]
    omega
  have hbudget : mid.attemptsLeft id = job.attemptsLeft := by
    unfold Assembly.attemptsLeft
    rw [hjob]
    rfl
  have hmax := attemptsLeft_le_maxRetries job
  omega

/-- Three failures, and the job has failed for good. -/
theorem attempts_bounded_failing : ∃ (w : Assembly) (labels : List AssemblyLabel),
    w.jobs.map (fun job => (job.id, job.state)) = [(1, .error)] ∧
      labels.countP (AssemblyLabel.claims 1) ≤ 3 := by
  have hrun : ∃ (mid w : Assembly) (job : AssemblyJob),
      Run AssemblySteps (.fresh 0) [.upload "c1", .receive ⟨1, "b1", ["c1"], "artifact_bundle"⟩,
        .advance 0 false, .advance 0 false, .advance 0 false] mid ∧
      mid.job 1 = some job ∧ job.maxRetries = 3 ∧
      Run (fun w label w' => BetweenSteps 1 w label w' ∧ NotPutBack 1 w label) mid [.start true,
        .claim 0 1, .fail 0 "busy", .report 0, .claim 0 1, .fail 0 "busy", .report 0, .start true,
        .claim 1 1, .fail 1 "busy", .report 1] w ∧
      w.jobs.map (fun job => (job.id, job.state)) = [(1, .error)] := by
    have hstep : ∀ (w : Assembly) (label : AssemblyLabel) (w' : Assembly),
        assemblyStep w label = some w' ∧ NotQueued 1 w label ∧ NotPutBack 1 w label →
        BetweenSteps 1 w label w' ∧ NotPutBack 1 w label :=
      fun _ _ _ h => ⟨⟨assemblySteps_of_step h.1, h.2.1⟩, h.2.2⟩
    refine ⟨_, _, _, assembly_run rfl, rfl, rfl, (Run.of_foldlM_guard rfl).mono hstep, ?_⟩
    decide +kernel
  obtain ⟨mid, w, job, -, hjob, hmax, hrun, hw⟩ := hrun
  exact ⟨w, _, hw, hmax ▸ attempts_bounded hrun hjob⟩

/-- A job that kills each worker: between two requests that queue it, it is claimed once more
than it may be, and waits for the next worker. -/
theorem crashing_job_claimed_again : ∃ (mid w : Assembly) (labels : List AssemblyLabel),
    Run AssemblySteps (.fresh 0) [.upload "c1", .receive ⟨1, "b1", ["c1"], "artifact_bundle"⟩,
      .advance 0 false, .advance 0 false, .advance 0 false] mid ∧
    mid.jobs.map (fun job => (job.id, job.maxRetries)) = [(1, 3)] ∧
    Run (BetweenSteps 1) mid labels w ∧ labels.countP (AssemblyLabel.claims 1) = 4 ∧
    w.jobs.map AssemblyJob.claimable = [true] := by
  have hstep : ∀ (w : Assembly) (label : AssemblyLabel) (w' : Assembly),
      assemblyStep w label = some w' ∧ NotQueued 1 w label → BetweenSteps 1 w label w' :=
    fun _ _ _ h => ⟨assemblySteps_of_step h.1, h.2⟩
  refine ⟨_, _, [.start true, .claim 0 1, .crash 0, .wait 121, .start true, .claim 1 1, .crash 1,
    .wait 121, .start true, .claim 2 1, .crash 2, .wait 121, .start true, .claim 3 1, .crash 3,
    .wait 121, .start true], assembly_run rfl, rfl, (Run.of_foldlM_guard rfl).mono hstep, rfl, ?_⟩
  decide +kernel

end Rustrak.SourceMaps
