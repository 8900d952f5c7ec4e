import Rustrak.SourceMaps.Ownership

/-!
# Locks that run out

A worker that dies leaves its job under way until the lock runs out and a worker starts: a poll
asks for created jobs only.  So a job outlives its lock when the restart comes before the lock
has run out.

Each job under way is held by a claim whose end was not recorded, and its lock runs out after
the last start.  A poll that finds nothing therefore leaves no job under way whose lock has run
out, if each such claim has time left or a worker has started since then (`LocksServed`).
-/

namespace Rustrak.SourceMaps

open Rustrak.Relational Rustrak.Transition

variable {w w' v : Assembly} {label : AssemblyLabel} {labels : List AssemblyLabel} {id i : Nat}
  {job row claim : AssemblyJob} {worker next : Worker} {new : NewJob}

/-- The claims whose end was not recorded. -/
def Assembly.claims (w : Assembly) : List AssemblyJob :=
  w.workers.filterMap Worker.claim ++ w.abandoned

/-- The locks of the claims have time left, or a worker has started since they ran out. -/
def LocksServed (w : Assembly) : Prop :=
  ∀ claim ∈ w.claims, ∀ locked ∈ claim.lockedUntil, w.now ≤ locked ∨ ∃ t ∈ w.lastReset, locked < t

structure Locked (w : Assembly) : Prop where
  clock : ∀ t ∈ w.lastReset, t ≤ w.now
  locks : ∀ job ∈ w.jobs, job.state = .assembling →
    ∃ locked, job.lockedUntil = some locked ∧ ∀ t ∈ w.lastReset, t ≤ locked
  held : ∀ job ∈ w.jobs, job.state = .assembling →
    ∃ claim ∈ w.claims, claim.id = job.id ∧ claim.lockedUntil = job.lockedUntil

/-! ## Claims -/

theorem mem_claims :
    claim ∈ w.claims ↔ (∃ worker ∈ w.workers, worker.claim = some claim) ∨ claim ∈ w.abandoned := by
  simp [Assembly.claims]

theorem mem_claims_mono (hworkers : ∀ worker ∈ w.workers, worker ∈ v.workers)
    (habandoned : ∀ claim ∈ w.abandoned, claim ∈ v.abandoned) (h : claim ∈ w.claims) :
    claim ∈ v.claims := by
  refine mem_claims.mpr ((mem_claims.mp h).imp ?_ (habandoned claim))
  rintro ⟨worker, hworker, hclaim⟩
  exact ⟨worker, hworkers worker hworker, hclaim⟩

/-- When one worker goes on, the claims of the others stay. -/
theorem mem_claims_set (hi : w.workers[i]? = some worker) (hworkers : v.workers = w.workers.set i next)
    (habandoned : ∀ claim ∈ w.abandoned, claim ∈ v.abandoned) (h : claim ∈ w.claims) :
    claim ∈ v.claims ∨ worker.claim = some claim := by
  rcases mem_claims.mp h with ⟨other, hother, hclaim⟩ | hleft
  · rcases mem_set_or_eq hi hother with hkept | rfl
    · exact .inl (mem_claims.mpr (.inl ⟨other, hworkers ▸ hkept, hclaim⟩))
    · exact .inr hclaim
  · exact .inl (mem_claims.mpr (.inr (habandoned claim hleft)))

/-- The new claim of a worker that goes on. -/
theorem mem_claims_next (hi : w.workers[i]? = some worker)
    (hworkers : v.workers = w.workers.set i next) (hnext : next.claim = some claim) :
    claim ∈ v.claims :=
  mem_claims.mpr (.inl ⟨next, hworkers ▸ mem_set_self hi, hnext⟩)

/-! ## Steps -/

/-- No job is under way that was not, and those that are keep their claims. -/
theorem Locked.keep (h : Locked w) (hnow : w.now ≤ v.now) (hreset : v.lastReset = w.lastReset)
    (hjobs : ∀ job ∈ v.jobs, job.state = .assembling → job ∈ w.jobs ∧
      ∀ claim ∈ w.claims, claim.id = job.id → claim ∈ v.claims) : Locked v where
  clock := by
    intro t ht
    rw [hreset] at ht
    exact (h.clock t ht).trans hnow
  locks := by
    intro job hjob hassembling
    rw [hreset]
    exact h.locks job (hjobs job hjob hassembling).1 hassembling
  held := by
    intro job hjob hassembling
    obtain ⟨hold, hkept⟩ := hjobs job hjob hassembling
    obtain ⟨claim, hclaim, hid, hlock⟩ := h.held job hold hassembling
    exact ⟨claim, hkept claim hclaim hid, hid, hlock⟩

theorem Locked.resetStuckJobs (h : Locked w) : Locked w.resetStuckJobs := by
  -- What is still under way has not been put back.
  have hjobs : ∀ row ∈ w.resetStuckJobs.jobs, row.state = .assembling →
      row ∈ w.jobs ∧ row.expired w.now = false := by
    intro row hrow hassembling
    obtain ⟨job, hjob, rfl⟩ := List.mem_map.mp hrow
    split_ifs at hassembling ⊢ with hexpired
    · contradiction
    · exact ⟨hjob, Bool.eq_false_iff.mpr hexpired⟩
  refine ⟨fun t ht => ?_, fun job hjob hassembling => ?_, fun job hjob hassembling => ?_⟩
  · obtain rfl := Option.some.inj ht
    exact le_refl _
  · obtain ⟨hold, hleft⟩ := hjobs job hjob hassembling
    obtain ⟨locked, hlocked, -⟩ := h.locks job hold hassembling
    refine ⟨locked, hlocked, fun t ht => ?_⟩
    obtain rfl := Option.some.inj ht
    simpa [AssemblyJob.expired, hassembling, hlocked] using hleft
  · exact h.held job (hjobs job hjob hassembling).1 hassembling

/-- An update that ends what is under way. -/
theorem mem_update_assembling {f : AssemblyJob → AssemblyJob} (hf : ∀ job, (f job).state ≠ .assembling)
    (hrow : row ∈ (w.update id f).jobs) (hassembling : row.state = .assembling) :
    row ∈ w.jobs ∧ row.id ≠ id := by
  obtain ⟨job, hjob, rfl⟩ := mem_update.mp hrow
  split_ifs at hassembling ⊢ with hid
  · exact absurd hassembling (hf job)
  · exact ⟨hjob, hid⟩

theorem failed_not_assembling (now : Int) (detail : String) (job : AssemblyJob) :
    (job.failed now detail).state ≠ .assembling := by
  unfold AssemblyJob.failed
  dsimp only
  split_ifs
  · exact nofun
  · exact nofun

/-- What is under way after a request is queued was so before. -/
theorem mem_enqueue_assembling (hrow : row ∈ (w.enqueue new).1.jobs)
    (hassembling : row.state = .assembling) : row ∈ w.jobs := by
  rcases w.enqueue_cases new with hsame | ⟨-, -, hqueued⟩ | ⟨job, -, -, -, hqueued⟩
  · rwa [hsame] at hrow
  · rw [hqueued] at hrow
    rcases List.mem_append.mp hrow with hold | hlast
    · exact hold
    · rw [List.mem_singleton.mp hlast] at hassembling
      contradiction
  · rw [hqueued] at hrow
    exact (mem_update_assembling (f := AssemblyJob.requeued new) (fun _ => nofun) hrow hassembling).1

/-- A worker is done with a claim, and its job is not under way then. -/
theorem Locked.ended (h : Locked w) (hi : w.workers[i]? = some worker)
    (hclaim : worker.claim = some claim) (hnow : v.now = w.now) (hreset : v.lastReset = w.lastReset)
    (hworkers : v.workers = w.workers.set i .polling) (habandoned : v.abandoned = w.abandoned)
    (hjobs : ∀ row ∈ v.jobs, row.state = .assembling → row ∈ w.jobs ∧ row.id ≠ claim.id) :
    Locked v := by
  refine h.keep hnow.ge hreset fun row hrow hassembling => ?_
  obtain ⟨hold, hne⟩ := hjobs row hrow hassembling
  refine ⟨hold, fun other hother hid => ?_⟩
  rcases mem_claims_set hi hworkers (fun _ hleft => habandoned ▸ hleft) hother with hkept | hsame
  · exact hkept
  · obtain rfl := Option.some.inj (hclaim.symm.trans hsame)
    exact absurd hid.symm hne

/-- A worker goes on, and keeps its claim or leaves it behind. -/
theorem Locked.turn (h : Locked w) (hi : w.workers[i]? = some worker)
    {abandoned : List AssemblyJob} (habandoned : ∀ claim ∈ w.abandoned, claim ∈ abandoned)
    (hkeeps : ∀ claim, worker.claim = some claim → next.claim = some claim ∨ claim ∈ abandoned) :
    Locked { w.turn i next with abandoned } := by
  refine h.keep le_rfl rfl fun job hjob _ => ⟨hjob, fun claim hclaim _ => ?_⟩
  rcases mem_claims_set (v := { w.turn i next with abandoned }) hi rfl habandoned hclaim with
    hkept | hsame
  · exact hkept
  · rcases hkeeps claim hsame with hnext | hleft
    · exact mem_claims_next hi rfl hnext
    · exact mem_claims.mpr (.inr hleft)

theorem Locked.claimed (h : Locked w) (hi : w.workers[i]? = some .polling) (hjob : w.job id = some job) :
    Locked ((w.update id (AssemblyJob.claimed w.now i)).turn i (.assembling (job.claimed w.now i))) := by
  have hkept : ∀ claim ∈ w.claims, claim ∈ ((w.update id (AssemblyJob.claimed w.now i)).turn i
      (.assembling (job.claimed w.now i))).claims := by
    intro claim hclaim
    refine Or.resolve_right (mem_claims_set hi rfl (fun _ hleft => hleft) hclaim) ?_
    exact nofun
  refine ⟨h.clock, fun row hrow hassembling => ?_, fun row hrow hassembling => ?_⟩
  · obtain ⟨before, hbefore, rfl⟩ := mem_update.mp hrow
    split_ifs at hassembling ⊢ with hid
    · exact ⟨w.now + 120, rfl, fun t ht => (h.clock t ht).trans (by omega)⟩
    · exact h.locks before hbefore hassembling
  · obtain ⟨before, hbefore, rfl⟩ := mem_update.mp hrow
    split_ifs at hassembling ⊢ with hid
    · refine ⟨job.claimed w.now i, mem_claims_next hi rfl rfl, ?_, rfl⟩
      exact (key_of_lookup hjob).trans hid.symm
    · obtain ⟨claim, hclaim, hheld⟩ := h.held before hbefore hassembling
      exact ⟨claim, hkept claim hclaim, hheld⟩

theorem Locked.step (h : Locked w) (hstep : AssemblySteps w label w') : Locked w' := by
  cases hstep with
  | start reset =>
      have hgrown : ∀ {v : Assembly}, Locked v →
          Locked { v with workers := v.workers ++ [.polling] } := by
        intro v hv
        refine hv.keep le_rfl rfl fun job hjob _ => ⟨hjob, fun claim hclaim _ => ?_⟩
        exact mem_claims_mono (fun _ hworker => List.mem_append_left _ hworker)
          (fun _ hleft => hleft) hclaim
      cases reset with
      | true => exact hgrown h.resetStuckJobs
      | false => exact hgrown h
  | claim hi hjob hclaimable holdest => exact h.claimed hi hjob
  | empty hi hnone => exact h
  | finish hi hfinish =>
      obtain rfl := Assembly.finishJob_eq_some hfinish
      exact h.ended hi rfl rfl rfl rfl rfl fun row hrow hassembling =>
        mem_update_assembling (f := AssemblyJob.finished w.now) (fun _ => nofun) hrow hassembling
  | fail detail hi => exact h.turn hi (fun _ hleft => hleft) fun claim hclaim => .inl hclaim
  | @report _ i claim detail hi hfail =>
      have hjobs : ∀ row ∈ (w.update claim.id (AssemblyJob.failed w.now detail)).jobs,
          row.state = .assembling → row ∈ w.jobs ∧ row.id ≠ claim.id :=
        fun row => mem_update_assembling (failed_not_assembling w.now detail)
      obtain ⟨found, -, ⟨-, consumed, rfl⟩ | rfl⟩ := Assembly.markFailure_eq_some hfail
      · exact h.ended hi rfl rfl rfl rfl rfl hjobs
      · exact h.ended hi rfl rfl rfl rfl rfl hjobs
  | reportGone hi hgone =>
      refine h.ended hi rfl rfl rfl rfl rfl fun row hrow _ => ⟨hrow, ?_⟩
      exact lookup_eq_none_iff.mp hgone row hrow
  | reportLost hi =>
      refine h.turn hi (fun _ hleft => List.mem_append_left _ hleft) fun claim hclaim => .inr ?_
      rw [Option.some.inj hclaim]
      exact List.mem_append_right _ (List.mem_singleton_self claim)
  | crash hi =>
      refine h.turn hi (fun _ hleft => List.mem_append_left _ hleft) fun claim hclaim => .inr ?_
      exact List.mem_append_right _ (Option.mem_toList.mpr hclaim)
  | receive | upload => exact ⟨h.clock, h.locks, h.held⟩
  | @advance i request held hi =>
      rcases w.advanceRequest_cases held request with
        ⟨next, hnext, -⟩ | ⟨new, job, -, -, hnext⟩ | ⟨new, -, hnext⟩
      · rw [hnext]
        exact ⟨h.clock, h.locks, h.held⟩
      · rw [hnext]
        exact h.keep le_rfl rfl fun row hrow _ =>
          ⟨List.mem_of_mem_filter hrow, fun _ hclaim _ => hclaim⟩
      · have hjobs : ∀ row ∈ (w.enqueue new).1.jobs, row.state = .assembling → row ∈ w.jobs :=
          fun row => mem_enqueue_assembling
        obtain ⟨jobs, owners, nextId, hwrites⟩ := enqueue_writes w new
        rw [hwrites] at hjobs
        rw [hnext]
        dsimp only
        rw [hwrites]
        exact h.keep le_rfl rfl fun row hrow hassembling =>
          ⟨hjobs row hrow hassembling, fun _ hclaim _ => hclaim⟩
  | wait seconds =>
      have hnow : w.now ≤ w.now + seconds := by omega
      exact h.keep (v := { w with now := w.now + seconds }) hnow rfl
        fun row hrow _ => ⟨hrow, fun _ hclaim _ => hclaim⟩

/-! ## Runs -/

theorem Locked.fresh (now : Int) : Locked (.fresh now) where
  clock := nofun
  locks := fun _ hjob => absurd hjob List.not_mem_nil
  held := fun _ hjob => absurd hjob List.not_mem_nil

/-- A poll that finds nothing to claim leaves no job under way whose lock has run out, if a
worker has started since the locks ran out that nobody has given up. -/
theorem expired_lock_frees_job {now : Int} (hrun : Run AssemblySteps (.fresh now) labels w)
    (hserved : LocksServed w) (hpoll : AssemblySteps w (.empty i) w') :
    ∀ job ∈ w'.jobs, job.state = .assembling →
      ∃ locked, job.lockedUntil = some locked ∧ w'.now ≤ locked := by
  cases hpoll with
  | empty hi hnone =>
      intro job hjob hassembling
      have h : Locked w := hrun.invariant Locked (fun _ _ _ h hstep => h.step hstep) (.fresh now)
      obtain ⟨locked, hlocked, hreset⟩ := h.locks job hjob hassembling
      obtain ⟨claim, hclaim, -, hsame⟩ := h.held job hjob hassembling
      refine ⟨locked, hlocked, ?_⟩
      rcases hserved claim hclaim locked (hsame.trans hlocked) with hleft | ⟨t, ht, hlate⟩
      · exact hleft
      · exact absurd (hreset t ht) (not_le.mpr hlate)

/-- A worker crashes, and one that starts when its lock has run out takes the job over. -/
theorem expired_lock_frees_job_restart : ∃ w : Assembly,
    w.jobs.map (fun job => (job.id, job.state)) = [(1, .assembling)] ∧
      ∀ job ∈ w.jobs, job.state = .assembling →
        ∃ locked, job.lockedUntil = some locked ∧ w.now ≤ locked := by
  have hrun : ∃ w : Assembly, Run AssemblySteps (.fresh 0) [.upload "c1",
      .receive ⟨1, "b1", ["c1"], "artifact_bundle"⟩, .advance 0 false, .advance 0 false,
      .advance 0 false, .start true, .claim 0 1, .wait 10, .crash 0, .wait 120, .start true,
      .claim 1 1, .start true, .wait 10] w ∧
      LocksServed w ∧ assemblyStep w (.empty 2) = some w ∧
      w.jobs.map (fun job => (job.id, job.state)) = [(1, .assembling)] := by
    refine ⟨_, assembly_run rfl, ?_, rfl, ?_⟩
    · unfold LocksServed
      decide +kernel
    · decide +kernel
  obtain ⟨w, hrun, hserved, hpoll, hjobs⟩ := hrun
  exact ⟨w, hjobs, expired_lock_frees_job hrun hserved (assemblySteps_of_step hpoll)⟩

/-- A worker that starts before the lock has run out leaves the job to nobody: it polls for as
long as one likes, and the file is said to be under way. -/
theorem early_restart_strands_job : ∃ w : Assembly,
    Run AssemblySteps (.fresh 0) [.upload "c1", .receive ⟨1, "b1", ["c1"], "artifact_bundle"⟩,
      .advance 0 false, .advance 0 false, .advance 0 false, .start true, .claim 0 1, .wait 10,
      .crash 0, .wait 10, .start true, .wait 200] w ∧
    w.jobs.map (AssemblyJob.expired w.now) = [true] ∧
    ∀ seconds : Nat, ∃ v : Assembly,
      Run AssemblySteps w [.empty 1, .wait seconds, .empty 1,
        .receive ⟨1, "b1", ["c1"], "artifact_bundle"⟩, .advance 1 false] v ∧
      v.jobs = w.jobs ∧ v.requests[1]? = some (.answered ⟨"assembling", [], none⟩) := by
  refine ⟨_, assembly_run rfl, ?_, fun seconds => ⟨_, assembly_run rfl, ?_, ?_⟩⟩
  · decide +kernel
  · rfl
  · rfl

end Rustrak.SourceMaps
