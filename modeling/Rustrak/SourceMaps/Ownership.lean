import Rustrak.SourceMaps.Assembly

/-!
# Who owns the chunks

A job that waits or is under way owns the chunks it lists, and an owned chunk is there.  A job
gives up its chunks when it ends, in `ok` or in `error`; what has failed for good is queued
again with its chunks or not at all.

`mark_failure` does not ask for the state, so a failure that is reported when another worker has
succeeded puts the job back without its chunks.  As long as that does not happen
(`KeepsSuccess`) a job leaves `ok` only when an assemble request forgets it.
-/

namespace Rustrak.SourceMaps

open Rustrak.Relational Rustrak.Transition

variable {w w' : Assembly} {label : AssemblyLabel} {labels : List AssemblyLabel} {id i : Nat}
  {job row : AssemblyJob} {new : NewJob}

/-- Created or under way. -/
def AssemblyJob.Waiting (job : AssemblyJob) : Prop := job.state = .created ∨ job.state = .assembling

/-- No failure is reported for a job that is `ok` by then. -/
def KeepsSuccess (w : Assembly) : AssemblyLabel → Prop
  | .report i => ∀ worker ∈ w.workers[i]?, ∀ job ∈ worker.claim, ∀ row ∈ w.jobs,
      row.id = job.id → row.state ≠ .ok
  | _ => True

instance (w : Assembly) : ∀ label, Decidable (KeepsSuccess w label)
  | .report i => inferInstanceAs (Decidable (∀ worker ∈ w.workers[i]?, ∀ job ∈ worker.claim,
      ∀ row ∈ w.jobs, row.id = job.id → row.state ≠ .ok))
  | .start _ | .claim _ _ | .empty _ | .finish _ | .fail _ _ | .reportLost _ | .crash _
  | .receive _ | .advance _ _ | .upload _ | .wait _ => isTrue trivial

def KeepingSteps (w : Assembly) (label : AssemblyLabel) (w' : Assembly) : Prop :=
  AssemblySteps w label w' ∧ KeepsSuccess w label

structure Owning (w : Assembly) : Prop where
  ids : (w.jobs.map AssemblyJob.id).Nodup
  fresh : ∀ job ∈ w.jobs, job.id < w.nextId
  owns : ∀ job ∈ w.jobs, job.Waiting → ∀ c ∈ job.chunks, (job.id, c) ∈ w.owners
  stored : ∀ o ∈ w.owners, o.2 ∈ w.chunks
  spent : ∀ job ∈ w.jobs, job.state = .error → job.maxRetries ≤ job.retryCount
  named : ∀ new job, .reuploading new job ∈ w.requests → job.id < w.nextId ∧
    ∀ row ∈ w.jobs, row.id = job.id →
      row.bundleChecksum = new.checksum ∧ row.projectId = new.projectId

/-! ## Updates of a row -/

/-- The columns that no update writes. -/
structure Same (job row : AssemblyJob) : Prop where
  id : row.id = job.id
  bundleChecksum : row.bundleChecksum = job.bundleChecksum
  projectId : row.projectId = job.projectId

theorem Same.refl (job : AssemblyJob) : Same job job := ⟨rfl, rfl, rfl⟩

theorem mem_update {f : AssemblyJob → AssemblyJob} :
    row ∈ (w.update id f).jobs ↔ ∃ job ∈ w.jobs, (if job.id = id then f job else job) = row :=
  mem_modify

/-- An update after which a job that waits has waited before, for the same chunks. -/
theorem Owning.map (h : Owning w) {f : AssemblyJob → AssemblyJob} (hsame : ∀ job, Same job (f job))
    (hwaiting : ∀ job ∈ w.jobs, (f job).Waiting → job.Waiting ∧ (f job).chunks = job.chunks)
    (hspent : ∀ job ∈ w.jobs, (f job).state = .error → (f job).maxRetries ≤ (f job).retryCount) :
    Owning { w with jobs := w.jobs.map f } where
  ids := by
    have hids : (AssemblyJob.id ∘ f) = AssemblyJob.id := funext fun job => (hsame job).id
    rw [List.map_map, hids]
    exact h.ids
  fresh := by
    intro row hrow
    obtain ⟨job, hjob, rfl⟩ := List.mem_map.mp hrow
    rw [(hsame job).id]
    exact h.fresh job hjob
  owns := by
    intro row hrow hwaits c hc
    obtain ⟨job, hjob, rfl⟩ := List.mem_map.mp hrow
    obtain ⟨hbefore, hchunks⟩ := hwaiting job hjob hwaits
    rw [hchunks] at hc
    rw [(hsame job).id]
    exact h.owns job hjob hbefore c hc
  stored := h.stored
  spent := by
    intro row hrow
    obtain ⟨job, hjob, rfl⟩ := List.mem_map.mp hrow
    exact hspent job hjob
  named := by
    intro new claim hclaim
    obtain ⟨hid, hrows⟩ := h.named new claim hclaim
    refine ⟨hid, fun row hrow hsameId => ?_⟩
    obtain ⟨job, hjob, rfl⟩ := List.mem_map.mp hrow
    rw [(hsame job).bundleChecksum, (hsame job).projectId]
    exact hrows job hjob ((hsame job).id.symm.trans hsameId)

theorem Owning.update (h : Owning w) {f : AssemblyJob → AssemblyJob} (hsame : ∀ job, Same job (f job))
    (hwaiting : ∀ job ∈ w.jobs, job.id = id → (f job).Waiting →
      job.Waiting ∧ (f job).chunks = job.chunks)
    (hspent : ∀ job ∈ w.jobs, job.id = id → (f job).state = .error →
      (f job).maxRetries ≤ (f job).retryCount) : Owning (w.update id f) := by
  refine h.map (fun job => ?_) (fun job hjob => ?_) fun job hjob => ?_
  · split_ifs
    · exact hsame job
    · exact Same.refl job
  · split_ifs with hid
    · exact hwaiting job hjob hid
    · exact fun hwaits => ⟨hwaits, rfl⟩
  · split_ifs with hid
    · exact hspent job hjob hid
    · exact h.spent job hjob

/-- A job that does not wait gives up its chunks. -/
theorem Owning.release (h : Owning w) (hdone : ∀ job ∈ w.jobs, job.id = id → ¬job.Waiting)
    (consumed : List String) : Owning (w.release id consumed) where
  ids := h.ids
  fresh := h.fresh
  owns := by
    intro job hjob hwaits c hc
    refine List.mem_filter.mpr ⟨h.owns job hjob hwaits c hc, ?_⟩
    exact decide_eq_true fun hid => hdone job hjob hid hwaits
  stored := by
    intro o ho
    refine List.mem_filter.mpr ⟨h.stored o (List.mem_of_mem_filter ho), ?_⟩
    rw [Bool.or_eq_true]
    exact .inr (List.any_eq_true.mpr ⟨o, ho, decide_eq_true rfl⟩)
  spent := h.spent
  named := h.named

/-- With the other jobs as they are, one owns what it is queued for. -/
theorem Owning.own {jobs : List AssemblyJob} (h : Owning w)
    (hids : (jobs.map AssemblyJob.id).Nodup) (hfresh : ∀ job ∈ jobs, job.id < w.nextId)
    {chunks : List String} (hthere : ∀ c ∈ chunks, c ∈ w.chunks)
    (hjobs : ∀ job ∈ jobs, job.id = id ∧ job.chunks = chunks ∧ job.state = .created ∨
      job.id ≠ id ∧ job ∈ w.jobs)
    (hnamed : ∀ new claim, .reuploading new claim ∈ w.requests → ∀ row ∈ jobs, row.id = claim.id →
      row.bundleChecksum = new.checksum ∧ row.projectId = new.projectId) :
    Owning (Assembly.own { w with jobs } id chunks) where
  ids := hids
  fresh := hfresh
  owns := by
    intro job hjob hwaits c hc
    rcases hjobs job hjob with ⟨rfl, rfl, -⟩ | ⟨hne, hold⟩
    · exact List.mem_append_right _ (List.mem_map.mpr ⟨c, hc, rfl⟩)
    · refine List.mem_append_left _ (List.mem_filter.mpr ⟨h.owns job hold hwaits c hc, ?_⟩)
      exact decide_eq_true hne
  stored := by
    intro o ho
    rcases List.mem_append.mp ho with hold | hnew
    · exact h.stored o (List.mem_of_mem_filter hold)
    · obtain ⟨c, hc, rfl⟩ := List.mem_map.mp hnew
      exact hthere c hc
  spent := by
    intro job hjob herror
    rcases hjobs job hjob with ⟨-, -, hcreated⟩ | ⟨-, hold⟩
    · rw [hcreated] at herror
      contradiction
    · exact h.spent job hold herror
  named := fun new claim hclaim =>
    ⟨(h.named new claim hclaim).1, hnamed new claim hclaim⟩

/-! ## Transactions -/

theorem Owning.fresh_assembly (now : Int) : Owning (.fresh now) where
  ids := List.nodup_nil
  fresh := by simp [Assembly.fresh]
  owns := by simp [Assembly.fresh]
  stored := by simp [Assembly.fresh]
  spent := by simp [Assembly.fresh]
  named := by simp [Assembly.fresh]

theorem same_reset (now : Int) (job : AssemblyJob) : Same job (job.reset now) := ⟨rfl, rfl, rfl⟩

theorem Owning.resetStuckJobs (h : Owning w) : Owning w.resetStuckJobs := by
  have hmap : Owning { w with
      jobs := w.jobs.map fun job => if job.expired w.now then job.reset w.now else job } := by
    refine h.map (fun job => ?_) (fun job hjob => ?_) fun job hjob => ?_
    · split_ifs
      · exact same_reset w.now job
      · exact Same.refl job
    · split_ifs with hexpired
      · intro _
        have hassembling := (Bool.and_eq_true_iff.mp hexpired).1
        exact ⟨.inr (of_decide_eq_true hassembling), rfl⟩
      · exact fun hwaits => ⟨hwaits, rfl⟩
    · split_ifs
      · exact nofun
      · exact h.spent job hjob
  exact ⟨hmap.ids, hmap.fresh, hmap.owns, hmap.stored, hmap.spent, hmap.named⟩

theorem created_of_claimable (h : job.claimable = true) : job.state = .created :=
  of_decide_eq_true (Bool.and_eq_true_iff.mp h).1

theorem Owning.claim (h : Owning w) (hjob : w.job id = some job) (hclaimable : job.claimable = true) :
    Owning (w.update id (AssemblyJob.claimed w.now i)) := by
  refine h.update (fun _ => ⟨rfl, rfl, rfl⟩) (fun row hrow hid _ => ?_) fun _ _ _ => nofun
  obtain rfl := List.inj_on_of_nodup_map h.ids hrow (mem_of_lookup hjob)
    (hid.trans (key_of_lookup hjob).symm)
  exact ⟨.inl (created_of_claimable hclaimable), rfl⟩

theorem Owning.finishJob (h : Owning w) (hfinish : w.finishJob job = some w') : Owning w' := by
  obtain rfl := Assembly.finishJob_eq_some hfinish
  have hupdated : Owning (w.update job.id (AssemblyJob.finished w.now)) :=
    h.update (fun _ => ⟨rfl, rfl, rfl⟩) (fun _ _ _ hwaits => by cases hwaits <;> contradiction)
      fun _ _ _ => nofun
  refine hupdated.release (fun row hrow hid => ?_) job.chunks
  obtain ⟨before, -, rfl⟩ := mem_update.mp hrow
  split_ifs at hid ⊢ with hsame
  · exact fun hwaits => by cases hwaits <;> contradiction
  · exact absurd hid hsame

/-- A failure of a job that is not `ok`. -/
theorem Owning.markFailure (h : Owning w) {detail : String}
    (hnot : ∀ row ∈ w.jobs, row.id = id → row.state ≠ .ok)
    (hfail : w.markFailure id detail = some w') : Owning w' := by
  obtain ⟨job, hlookup, hwritten⟩ := Assembly.markFailure_eq_some hfail
  have hjob := mem_of_lookup hlookup
  have hid := key_of_lookup hlookup
  have hmarked : Owning (w.update id (AssemblyJob.failed w.now detail)) := by
    refine h.update (fun _ => ⟨rfl, rfl, rfl⟩) (fun row hrow hrowId hwaits => ⟨?_, rfl⟩) ?_
    · cases hstate : row.state with
      | created => exact .inl hstate
      | assembling => exact .inr hstate
      | ok => exact absurd hstate (hnot row hrow hrowId)
      | error =>
          have hspent := h.spent row hrow hstate
          have herror : (row.failed w.now detail).state = .error := if_pos (by omega)
          unfold AssemblyJob.Waiting at hwaits
          rw [herror] at hwaits
          cases hwaits <;> contradiction
    · intro row hrow _ herror
      by_contra hleft
      have hcreated : (row.failed w.now detail).state = .created :=
        if_neg (show ¬row.retryCount + 1 ≥ row.maxRetries from hleft)
      rw [hcreated] at herror
      contradiction
  rcases hwritten with ⟨hspent, consumed, rfl⟩ | rfl
  · refine hmarked.release (fun row hrow hrowId => ?_) consumed
    obtain ⟨before, hbefore, rfl⟩ := mem_update.mp hrow
    split_ifs at hrowId ⊢ with hsame
    · obtain rfl := List.inj_on_of_nodup_map h.ids hbefore hjob (hsame.trans hid.symm)
      have herror : (before.failed w.now detail).state = .error := if_pos hspent
      unfold AssemblyJob.Waiting
      rw [herror]
      exact fun hwaits => by cases hwaits <;> contradiction
    · exact absurd hrowId hsame
  · exact hmarked

theorem Owning.enqueue (h : Owning w) (new : NewJob) : Owning (w.enqueue new).1 := by
  have hthere : w.missing new = [] → ∀ c ∈ new.chunks, c ∈ w.chunks := by
    intro hmissing c hc
    by_contra hgone
    have hmem : c ∈ w.missing new := List.mem_filter.mpr ⟨hc, by simpa using hgone⟩
    rw [hmissing] at hmem
    contradiction
  rcases w.enqueue_cases new with hsame | ⟨hmissing, -, hqueued⟩ | ⟨job, hmissing, hfind, -, hqueued⟩
  · rwa [hsame]
  · rw [hqueued]
    have hold : ∀ job ∈ w.jobs, job.id ≠ w.nextId := fun job hjob => (h.fresh job hjob).ne
    have hgrown : Owning { w with nextId := w.nextId + 1 } :=
      ⟨h.ids, fun job hjob => Nat.lt_succ_of_lt (h.fresh job hjob), h.owns, h.stored, h.spent,
        fun new claim hclaim => ⟨Nat.lt_succ_of_lt (h.named new claim hclaim).1,
          (h.named new claim hclaim).2⟩⟩
    refine hgrown.own ?_ (fun job hjob => ?_) (hthere hmissing) (fun job hjob => ?_) ?_
    · exact nodup_insert h.ids (lookup_eq_none_iff.mpr fun job hjob => hold job hjob)
    · rcases List.mem_append.mp hjob with hjob | hlast
      · exact hgrown.fresh job hjob
      · rw [List.mem_singleton.mp hlast]
        exact Nat.lt_succ_self w.nextId
    · rcases List.mem_append.mp hjob with hjob | hlast
      · exact .inr ⟨hold job hjob, hjob⟩
      · rw [List.mem_singleton.mp hlast]
        exact .inl ⟨rfl, rfl, rfl⟩
    · intro new' claim hclaim row hrow hid
      rcases List.mem_append.mp hrow with hrow | hlast
      · exact (h.named new' claim hclaim).2 row hrow hid
      · rw [List.mem_singleton.mp hlast] at hid
        have hlt := (h.named new' claim hclaim).1
        exact absurd hid hlt.ne'
  · rw [hqueued]
    have hjob : job ∈ w.jobs := List.mem_of_find?_eq_some hfind
    refine h.own ?_ (fun row hrow => ?_) (hthere hmissing) (fun row hrow => ?_) ?_
    · have hkeys : (w.update job.id (AssemblyJob.requeued new)).jobs.map AssemblyJob.id =
          w.jobs.map AssemblyJob.id := map_key_modify fun _ => rfl
      exact hkeys ▸ h.ids
    · obtain ⟨before, hbefore, rfl⟩ := mem_update.mp hrow
      split_ifs
      · exact h.fresh before hbefore
      · exact h.fresh before hbefore
    · obtain ⟨before, hbefore, rfl⟩ := mem_update.mp hrow
      split_ifs with hsame
      · exact .inl ⟨hsame, rfl, rfl⟩
      · exact .inr ⟨hsame, hbefore⟩
    · intro new' claim hclaim row hrow hid
      obtain ⟨before, hbefore, rfl⟩ := mem_update.mp hrow
      have hnamed := (h.named new' claim hclaim).2 before hbefore
      split_ifs at hid ⊢ with hsame
      · exact hnamed hid
      · exact hnamed hid

theorem Owning.forget (h : Owning w) (id : Nat) : Owning (w.forget id) where
  ids := h.ids.sublist (List.filter_sublist.map _)
  fresh := fun job hjob => h.fresh job (List.mem_of_mem_filter hjob)
  owns := by
    intro job hjob hwaits c hc
    obtain ⟨hold, hne⟩ := List.mem_filter.mp hjob
    exact List.mem_filter.mpr ⟨h.owns job hold hwaits c hc, hne⟩
  stored := fun o ho => h.stored o (List.mem_of_mem_filter ho)
  spent := fun job hjob => h.spent job (List.mem_of_mem_filter hjob)
  named := fun new claim hclaim =>
    ⟨(h.named new claim hclaim).1, fun row hrow =>
      (h.named new claim hclaim).2 row (List.mem_of_mem_filter hrow)⟩

/-! ## Steps -/

/-- The rows of `v` are those of the invariant, and its requests have found none. -/
theorem Owning.requests {v : Assembly} (h : Owning v) {requests : List AssembleRequest}
    (hnamed : ∀ new job, .reuploading new job ∈ requests → job.id < v.nextId ∧
      ∀ row ∈ v.jobs, row.id = job.id →
        row.bundleChecksum = new.checksum ∧ row.projectId = new.projectId) :
    Owning { v with requests } :=
  ⟨h.ids, h.fresh, h.owns, h.stored, h.spent, hnamed⟩

/-- What queueing a job writes. -/
theorem enqueue_writes (w : Assembly) (new : NewJob) :
    ∃ jobs owners nextId, (w.enqueue new).1 = { w with jobs, owners, nextId } := by
  rcases w.enqueue_cases new with hsame | ⟨-, -, hqueued⟩ | ⟨job, -, -, -, hqueued⟩
  · exact ⟨_, _, _, hsame⟩
  · exact ⟨_, _, _, hqueued⟩
  · exact ⟨_, _, _, hqueued⟩

theorem Owning.advance (h : Owning w) {request : AssembleRequest} (held : Bool) :
    Owning { (w.advanceRequest held request).1 with
      requests := w.requests.set i (w.advanceRequest held request).2 } := by
  -- A request that goes on without having found the file assembled.
  have hgoOn : ∀ {v : Assembly} {next : AssembleRequest}, Owning v → v.requests = w.requests →
      (∀ new job, next ≠ .reuploading new job) → Owning { v with requests := w.requests.set i next } := by
    intro v next hv hrequests hnext
    refine hv.requests fun new job hmem => ?_
    rcases List.mem_or_eq_of_mem_set hmem with hold | rfl
    · exact hv.named new job (hrequests ▸ hold)
    · exact absurd rfl (hnext new job)
  rcases w.advanceRequest_cases held request with
    ⟨next, hnext, hfound⟩ | ⟨new, job, -, -, hnext⟩ | ⟨new, -, hnext⟩
  · rw [hnext]
    refine h.requests fun new claim hmem => ?_
    rcases List.mem_or_eq_of_mem_set hmem with hold | hsame
    · exact h.named new claim hold
    · have hfind := hfound new claim hsame.symm
      have hclaim : claim ∈ w.jobs := List.mem_of_find?_eq_some hfind
      refine ⟨h.fresh claim hclaim, fun row hrow hid => ?_⟩
      obtain rfl := List.inj_on_of_nodup_map h.ids hrow hclaim hid
      simpa using List.find?_some hfind
  · rw [hnext]
    exact hgoOn (h.forget job.id) rfl fun _ _ => AssembleRequest.noConfusion
  · obtain ⟨jobs, owners, nextId, hwrites⟩ := enqueue_writes w new
    have hrequests : (w.enqueue new).1.requests = w.requests := by rw [hwrites]
    rw [hnext]
    exact hgoOn (h.enqueue new) hrequests fun _ _ => AssembleRequest.noConfusion

theorem Owning.step (h : Owning w) (hstep : KeepingSteps w label w') : Owning w' := by
  obtain ⟨hstep, hkeeps⟩ := hstep
  -- A step that writes none of what is owned.
  have hturn : ∀ {v : Assembly} {now : Int} {workers : List Worker} {abandoned : List AssemblyJob},
      Owning v → Owning { v with now, workers, abandoned } :=
    fun h => ⟨h.ids, h.fresh, h.owns, h.stored, h.spent, h.named⟩
  cases hstep with
  | start reset =>
      cases reset with
      | true => exact hturn h.resetStuckJobs
      | false => exact hturn h
  | claim hi hjob hclaimable holdest => exact hturn (h.claim hjob hclaimable)
  | empty hi hnone => exact h
  | finish hi hfinish => exact hturn (h.finishJob hfinish)
  | fail detail hi => exact hturn h
  | report hi hfail => exact hturn (h.markFailure (hkeeps _ hi _ rfl) hfail)
  | reportGone hi hgone => exact hturn h
  | reportLost hi => exact hturn (hturn h)
  | crash hi => exact hturn (hturn h)
  | receive new =>
      refine h.requests fun new' job hmem => ?_
      rcases List.mem_append.mp hmem with hold | hlast
      · exact h.named new' job hold
      · have hsame := List.mem_singleton.mp hlast
        contradiction
  | advance held hi => exact h.advance held
  | upload checksum =>
      refine ⟨h.ids, h.fresh, h.owns, fun o ho => ?_, h.spent, h.named⟩
      dsimp only
      split_ifs
      · exact h.stored o ho
      · exact List.mem_append_left _ (h.stored o ho)
  | wait seconds => exact hturn h

/-! ## A job that is `ok` -/

/-- The job is there and `ok`. -/
def Assembly.Succeeded (w : Assembly) (job : AssemblyJob) : Prop :=
  ∃ row ∈ w.jobs, Same job row ∧ row.state = .ok

/-- An update that leaves a job alone which is `ok`. -/
theorem succeeded_map {f : AssemblyJob → AssemblyJob} {v : Assembly} (h : w.Succeeded job)
    (hf : ∀ row ∈ w.jobs, Same job row → row.state = .ok → Same row (f row) ∧ (f row).state = .ok)
    (hv : v.jobs = w.jobs.map f) : v.Succeeded job := by
  obtain ⟨row, hrow, hsame, hok⟩ := h
  obtain ⟨hafter, hstill⟩ := hf row hrow hsame hok
  refine ⟨f row, hv ▸ List.mem_map_of_mem hrow, ⟨?_, ?_, ?_⟩, hstill⟩
  · exact hafter.id.trans hsame.id
  · exact hafter.bundleChecksum.trans hsame.bundleChecksum
  · exact hafter.projectId.trans hsame.projectId

theorem succeeded_update {f : AssemblyJob → AssemblyJob} {v : Assembly} (h : w.Succeeded job)
    (hf : ∀ row ∈ w.jobs, row.id = id → row.state = .ok → Same row (f row) ∧ (f row).state = .ok)
    (hv : v.jobs = (w.update id f).jobs) : v.Succeeded job := by
  refine succeeded_map h (fun row hrow _ hok => ?_) hv
  split_ifs with hid
  · exact hf row hrow hid hok
  · exact ⟨Same.refl row, hok⟩

theorem succeeded_enqueue (howning : Owning w) (h : w.Succeeded job) (new : NewJob) :
    (w.enqueue new).1.Succeeded job := by
  rcases w.enqueue_cases new with hsame | ⟨-, -, hqueued⟩ | ⟨found, -, hfind, herror, hqueued⟩
  · rwa [hsame]
  · obtain ⟨row, hrow, hsame, hok⟩ := h
    rw [hqueued]
    exact ⟨row, List.mem_append_left _ hrow, hsame, hok⟩
  · rw [hqueued]
    have hfound : found ∈ w.jobs := List.mem_of_find?_eq_some hfind
    refine succeeded_update h (fun row hrow hid hok => ?_) rfl
    -- The one that is queued again has failed.
    obtain rfl := List.inj_on_of_nodup_map howning.ids hrow hfound hid
    rw [herror] at hok
    contradiction

/-- A job leaves `ok` by an assemble request for the same file that forgets it. -/
theorem succeeded_step (howning : Owning w) (hstep : KeepingSteps w label w')
    (h : w.Succeeded job) : w'.Succeeded job ∨ ∃ i new claim, label = .advance i false ∧
      w.requests[i]? = some (.reuploading new claim) ∧ claim.id = job.id ∧
      new.checksum = job.bundleChecksum ∧ new.projectId = job.projectId := by
  obtain ⟨hstep, hkeeps⟩ := hstep
  cases hstep with
  | start reset =>
      left
      cases reset with
      | false => exact h
      | true =>
          refine succeeded_map h (fun row _ _ hok => ?_) rfl
          have hfresh : row.expired w.now = false := by
            unfold AssemblyJob.expired
            rw [hok]
            rfl
          rw [hfresh]
          exact ⟨Same.refl row, hok⟩
  | claim hi hjob hclaimable holdest =>
      left
      refine succeeded_update h (fun row hrow hid hok => ?_) rfl
      obtain rfl := List.inj_on_of_nodup_map howning.ids hrow (mem_of_lookup hjob)
        (hid.trans (key_of_lookup hjob).symm)
      rw [created_of_claimable hclaimable] at hok
      contradiction
  | finish hi hfinish =>
      left
      obtain rfl := Assembly.finishJob_eq_some hfinish
      exact succeeded_update (f := AssemblyJob.finished w.now) h
        (fun row _ _ _ => ⟨⟨rfl, rfl, rfl⟩, rfl⟩) rfl
  | @report _ i claim detail hi hfail =>
      left
      have hfailed : ∀ row ∈ w.jobs, row.id = claim.id → row.state = .ok →
          Same row (row.failed w.now detail) ∧ (row.failed w.now detail).state = .ok :=
        fun row hrow hid hok => absurd hok (hkeeps _ hi claim rfl row hrow hid)
      obtain ⟨found, -, ⟨-, consumed, rfl⟩ | rfl⟩ := Assembly.markFailure_eq_some hfail
      · exact succeeded_update h hfailed rfl
      · exact succeeded_update h hfailed rfl
  | @advance i request held hi =>
      rcases w.advanceRequest_cases held request with
        ⟨next, hnext, -⟩ | ⟨new, claim, rfl, rfl, hnext⟩ | ⟨new, -, hnext⟩
      · rw [hnext]
        exact .inl h
      · rw [hnext]
        obtain ⟨row, hrow, hsame, hok⟩ := h
        by_cases hid : row.id = claim.id
        · obtain ⟨-, hrows⟩ := howning.named new claim (List.mem_of_getElem? hi)
          obtain ⟨hchecksum, hproject⟩ := hrows row hrow hid
          exact .inr ⟨i, new, claim, rfl, hi, hid.symm.trans hsame.id,
            hchecksum.symm.trans hsame.bundleChecksum, hproject.symm.trans hsame.projectId⟩
        · exact .inl ⟨row, List.mem_filter.mpr ⟨hrow, decide_eq_true hid⟩, hsame, hok⟩
      · rw [hnext]
        exact .inl (succeeded_enqueue howning h new)
  | empty | fail | reportGone | reportLost | crash | receive | upload | wait => exact .inl h

/-! ## Runs -/

/-- Where no failure is reported for a job that is `ok`, a job that waits or is under way owns
its chunks, which are there, and a job that is `ok` stays so until an assemble request for it
forgets it. -/
theorem assembly_keeps_chunks_and_successes {mid : Assembly} {earlier : List AssemblyLabel}
    {now : Int} (hfirst : Run KeepingSteps (.fresh now) earlier mid)
    (hsecond : Run KeepingSteps mid labels w) :
    (∀ job ∈ w.jobs, job.Waiting → ∀ c ∈ job.chunks, (job.id, c) ∈ w.owners ∧ c ∈ w.chunks) ∧
      ∀ job ∈ mid.jobs, job.state = .ok → w.Succeeded job ∨
        ∃ u v i new claim, Passes KeepingSteps mid labels w u (.advance i false) v ∧
          u.requests[i]? = some (.reuploading new claim) ∧ claim.id = job.id ∧
          new.checksum = job.bundleChecksum ∧ new.projectId = job.projectId := by
  have hkeep : ∀ (s : Assembly) (label : AssemblyLabel) (t : Assembly),
      Owning s → KeepingSteps s label t → Owning t := fun _ _ _ h hstep => h.step hstep
  have hmid : Owning mid := hfirst.invariant Owning hkeep (.fresh_assembly now)
  have howning : Owning w := hsecond.invariant Owning hkeep hmid
  refine ⟨fun job hjob hwaits c hc => ?_, fun job hjob hok => ?_⟩
  · have howns := howning.owns job hjob hwaits c hc
    exact ⟨howns, howning.stored _ howns⟩
  · by_cases hstill : w.Succeeded job
    · exact .inl hstill
    · right
      have hstart : ¬¬mid.Succeeded job := not_not_intro ⟨job, hjob, Same.refl job, hok⟩
      obtain ⟨before, label, after, u, v, rfl, hbefore, hstep, hafter, hu, hv⟩ :=
        hsecond.exists_step (P := fun s => ¬s.Succeeded job) hstart hstill
      have hat : Owning u := hbefore.invariant Owning hkeep hmid
      rcases succeeded_step hat hstep (not_not.mp hu) with hsucceeded | ⟨i, new, claim, rfl, hrest⟩
      · exact absurd hsucceeded hv
      · exact ⟨u, v, i, new, claim, ⟨before, after, rfl, hbefore, hstep, hafter⟩, hrest⟩

/-- A job fails once, succeeds, and is forgotten when its file is uploaded again. -/
theorem assembly_keeps_chunks_and_successes_forgotten : ∃ mid w : Assembly,
    mid.jobs.map (fun job => (job.id, job.state)) = [(1, .ok)] ∧
      w.jobs.map (fun job => (job.id, job.state)) = [(2, .created)] ∧
      ∀ job ∈ w.jobs, job.Waiting → ∀ c ∈ job.chunks, (job.id, c) ∈ w.owners ∧ c ∈ w.chunks := by
  have hrun : ∃ mid w : Assembly,
      Run KeepingSteps (.fresh 0) [.upload "c1", .receive ⟨1, "b1", ["c1"], "dif"⟩,
        .advance 0 false, .advance 0 false, .advance 0 false, .start true, .claim 0 1, .fail 0 "busy",
        .report 0, .claim 0 1, .finish 0] mid ∧
      Run KeepingSteps mid [.receive ⟨1, "b1", ["c1"], "dif"⟩, .advance 1 false, .advance 1 false,
        .upload "c1", .advance 1 false, .advance 1 false] w ∧
      mid.jobs.map (fun job => (job.id, job.state)) = [(1, .ok)] ∧
      w.jobs.map (fun job => (job.id, job.state)) = [(2, .created)] := by
    refine ⟨_, _, (Run.of_foldlM_guard rfl).mono fun _ _ _ h => ⟨assemblySteps_of_step h.1, h.2⟩,
      (Run.of_foldlM_guard rfl).mono fun _ _ _ h => ⟨assemblySteps_of_step h.1, h.2⟩, ?_, ?_⟩
    · decide +kernel
    · decide +kernel
  obtain ⟨mid, w, hfirst, hsecond, hmid, hw⟩ := hrun
  exact ⟨mid, w, hmid, hw, (assembly_keeps_chunks_and_successes hfirst hsecond).1⟩

/-- A worker is overtaken when its lock has run out, and reports its failure last. -/
theorem late_failure_undoes_success : ∃ mid w : Assembly,
    Run AssemblySteps (.fresh 0) [.upload "c1", .receive ⟨1, "b1", ["c1"], "artifact_bundle"⟩,
      .advance 0 false, .advance 0 false, .advance 0 false, .start true, .claim 0 1, .wait 121,
      .start true, .claim 1 1, .finish 1] mid ∧
    mid.jobs.map (fun job => (job.id, job.state)) = [(1, .ok)] ∧
    Run AssemblySteps mid [.fail 0 "assembly job 1 was not assembling", .report 0] w ∧
    w.jobs.map (fun job => (job.id, job.state)) = [(1, .created)] ∧
    w.owners = [] ∧ w.chunks = [] := by
  refine ⟨_, _, assembly_run rfl, ?_, assembly_run rfl, ?_, ?_, ?_⟩
  · decide +kernel
  · decide +kernel
  · decide +kernel
  · decide +kernel

end Rustrak.SourceMaps
