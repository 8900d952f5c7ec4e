import Rustrak.Durability.Pipeline
import Rustrak.Transition.Run

/-!
# No accepted event is lost

An acknowledged event has its file, or its row is durable, or a digest of it ended with
a deliberate drop.

## Strategy

`Disk.Keeps` says what a step does to the disk: it takes no event that is safe, and the
log only grows.  What the digests, the queue and the worker know of the disk
(`MemoryOk`) is then true afterwards: who is behind the commit of an event knows that it
is committed, and what is about to be deleted is durable.

One stage breaks this.  An error behind the commit that is not to be retained has
`process_ref` delete the file at once, with no checkpoint.  `RetainingStep` are the
steps without such an error.
-/

namespace Rustrak.Durability

open Rustrak.Core Rustrak.Digest Rustrak.Relational Rustrak.Transition

/-! ## The disk -/

/-- The event has a file, or a durable row, or was dropped deliberately. -/
def Disk.Safe (d : Disk) (k : EventKey) : Prop :=
  k ∈ d.files ∨ k ∈ d.rows.durable ∨ k ∈ d.dropped

/-- On PostgreSQL a commit is durable. -/
def Disk.Synced (backend : Backend) (d : Disk) : Prop :=
  backend = .postgres → d.rows.committed ⊆ d.rows.durable

/-- No event that is safe is lost, and no row. -/
structure Disk.Keeps (d d' : Disk) : Prop where
  safe : ∀ k, d.Safe k → d'.Safe k
  rows : d.rows.Extends d'.rows

variable {backend : Backend} {d d' : Disk} {k : EventKey}

theorem Disk.Keeps.refl (d : Disk) : d.Keeps d := ⟨fun _ h => h, .refl _⟩

theorem Disk.keeps_commit (backend : Backend) (d : Disk) (k : EventKey) :
    d.Keeps (d.commit backend k) := by
  have hrows : d.rows.Extends (d.commit backend k).rows := by
    cases backend with
    | sqlite => exact WriteAhead.extends_commit _ _
    | postgres => exact WriteAhead.extends_commitDurably _ _
  refine ⟨fun k' hsafe => ?_, hrows⟩
  rcases hsafe with hfile | hdurable | hdropped
  · exact .inl hfile
  · exact .inr (.inl (hrows.durable hdurable))
  · exact .inr (.inr hdropped)

theorem Disk.committed_commit (backend : Backend) (d : Disk) (k : EventKey) :
    k ∈ (d.commit backend k).rows.committed := by
  cases backend with
  | sqlite => exact Finset.mem_insert_self _ _
  | postgres => exact Finset.mem_insert_self _ _

theorem Disk.Synced.commit (h : d.Synced backend) (k : EventKey) :
    (d.commit backend k).Synced backend := by
  rintro rfl
  exact Finset.insert_subset_insert _ (h rfl)

theorem Disk.Synced.checkpoint (h : d.Synced backend) (started : Finset EventKey) :
    Disk.Synced backend { d with rows := d.rows.checkpoint started } :=
  fun hpostgres => (h hpostgres).trans Finset.subset_union_left

theorem Disk.keeps_checkpoint (d : Disk) (started : Finset EventKey) :
    d.Keeps { d with rows := d.rows.checkpoint started } := by
  refine ⟨fun k' hsafe => ?_, WriteAhead.extends_checkpoint _ _⟩
  rcases hsafe with hfile | hdurable | hdropped
  · exact .inl hfile
  · exact .inr (.inl ((WriteAhead.extends_checkpoint _ _).durable hdurable))
  · exact .inr (.inr hdropped)

/-- The file of an event may go when its row is durable. -/
theorem Disk.keeps_delete (hdurable : k ∈ d.rows.durable) : d.Keeps (d.delete k) := by
  refine ⟨fun k' hsafe => ?_, .refl _⟩
  rcases hsafe with hfile | hrest
  · by_cases hk : k' = k
    · exact .inr (.inl (hk ▸ hdurable))
    · exact .inl (Finset.mem_erase.mpr ⟨hk, hfile⟩)
  · exact .inr hrest

/-- A deliberate drop, with its file or without it. -/
theorem Disk.keeps_drop (d : Disk) (k : EventKey) : d.Keeps (d.drop k) := by
  refine ⟨fun k' hsafe => ?_, .refl _⟩
  rcases hsafe with hfile | hdurable | hdropped
  · exact .inl hfile
  · exact .inr (.inl hdurable)
  · exact .inr (.inr (Finset.mem_insert_of_mem hdropped))

theorem Disk.keeps_delete_drop (d : Disk) (k : EventKey) : d.Keeps ((d.delete k).drop k) := by
  refine ⟨fun k' hsafe => ?_, .refl _⟩
  by_cases hk : k' = k
  · exact .inr (.inr (hk ▸ Finset.mem_insert_self _ _))
  · rcases hsafe with hfile | hdurable | hdropped
    · exact .inl (Finset.mem_erase.mpr ⟨hk, hfile⟩)
    · exact .inr (.inl hdurable)
    · exact .inr (.inr (Finset.mem_insert_of_mem hdropped))

theorem Disk.keeps_publish (d : Disk) (k : EventKey) (published : Bool) :
    d.Keeps (d.publish k published) := by
  refine ⟨fun k' hsafe => ?_, .refl _⟩
  rcases hsafe with hfile | hrest
  · unfold Disk.publish Disk.Safe
    dsimp only
    split_ifs
    · exact .inl (Finset.mem_insert_of_mem hfile)
    · exact .inl hfile
  · exact .inr hrest

/-- A file that is stored is there, whatever became of an earlier one. -/
theorem Disk.keeps_store (d : Disk) (k : EventKey) :
    d.Keeps { d with files := insert k d.files, dropped := d.dropped.erase k } := by
  refine ⟨fun k' hsafe => ?_, .refl _⟩
  by_cases hk : k' = k
  · exact .inl (hk ▸ Finset.mem_insert_self _ _)
  · rcases hsafe with hfile | hdurable | hdropped
    · exact .inl (Finset.mem_insert_of_mem hfile)
    · exact .inr (.inl hdurable)
    · exact .inr (.inr (Finset.mem_erase.mpr ⟨hk, hdropped⟩))

/-! ## What the process knows of the disk -/

/-- A digest behind the commit knows that the row is committed, one that abandons its
event that the row is durable, and one that rejects it that it is meant to be dropped. -/
def StageOk (d : Disk) (k : EventKey) : Stage → Prop
  | .alerting | .releasing => k ∈ d.rows.committed
  | .abandoned _ => k ∈ d.rows.durable
  | .rejected e => ∃ r : Rejection, r.deliberate = true ∧ e = r.error
  | .reading | .checking | .measuring | .writing | .limited | .dropping => True

def ProgressOk (d : Disk) (k : EventKey) : Progress → Prop
  | .next stage => StageOk d k stage
  | .queued => k ∈ d.rows.committed
  | .ended _ => True

/-- The checkpoint covers the batch, and what is deleted is durable. -/
def WorkerOk (d : Disk) : Worker → Prop
  | .idle | .pacing => True
  | .waiting batch => ∀ entry ∈ batch, entry.key ∈ d.rows.committed
  | .checkpointing batch started =>
      ∀ entry ∈ batch, entry.key ∈ started ∧ entry.key ∈ d.rows.committed
  | .deleting _ rest => ∀ k ∈ rest, k ∈ d.rows.durable

structure MemoryOk (d : Disk) (m : Memory) : Prop where
  requests : ∀ r ∈ m.requests, r.phase.published = true → d.Safe r.key
  tasks : ∀ t ∈ m.tasks, StageOk d t.key t.stage
  pending : ∀ entry ∈ m.pending, entry.key ∈ d.rows.committed
  worker : WorkerOk d m.worker

theorem StageOk.mono {stage : Stage} (h : StageOk d k stage) (hkeeps : d.Keeps d') :
    StageOk d' k stage := by
  cases stage with
  | alerting => exact hkeeps.rows.committed h
  | releasing => exact hkeeps.rows.committed h
  | abandoned e => exact hkeeps.rows.durable h
  | rejected e => exact h
  | _ => trivial

theorem WorkerOk.mono {worker : Worker} (h : WorkerOk d worker) (hkeeps : d.Keeps d') :
    WorkerOk d' worker := by
  cases worker with
  | idle => trivial
  | pacing => trivial
  | waiting batch => exact fun entry hentry => hkeeps.rows.committed (h entry hentry)
  | checkpointing batch started =>
      exact fun entry hentry =>
        ⟨(h entry hentry).1, hkeeps.rows.committed (h entry hentry).2⟩
  | deleting batch rest => exact fun k' hk' => hkeeps.rows.durable (h k' hk')

theorem MemoryOk.mono {m : Memory} (h : MemoryOk d m) (hkeeps : d.Keeps d') : MemoryOk d' m where
  requests := fun r hr hphase => hkeeps.safe _ (h.requests r hr hphase)
  tasks := fun t ht => (h.tasks t ht).mono hkeeps
  pending := fun entry hentry => hkeeps.rows.committed (h.pending entry hentry)
  worker := h.worker.mono hkeeps

/-! ## A digest -/

theorem progressOk_fail {e : AppError} {cleanup : AppError → Stage}
    (h : shouldRetainEvent e = true ∨ StageOk d k (cleanup e)) :
    ProgressOk d k (fail e cleanup) := by
  unfold fail
  split_ifs with hretain
  · trivial
  · exact h.resolve_left hretain

/-- A file that was rejected and is not retained is one to drop. -/
theorem progressOk_rejected (r : Rejection) : ProgressOk d k (fail r.error .rejected) := by
  apply progressOk_fail
  rw [r.retain_error]
  cases hdeliberate : r.deliberate with
  | true => exact .inr ⟨r, hdeliberate, rfl⟩
  | false => exact .inl rfl

/-- What a stage of a digest leaves. -/
structure DigestKeeps (backend : Backend) (d : Disk) (k : EventKey) (d' : Disk)
    (progress : Progress) : Prop where
  keeps : d.Keeps d'
  progress : ProgressOk d' k progress
  synced : d'.Synced backend

/-- A stage that leaves the disk alone. -/
private theorem DigestKeeps.still {p progress : Progress}
    (h : some (d, p) = some (d', progress)) (hsynced : d.Synced backend)
    (hprogress : ProgressOk d k p) : DigestKeeps backend d k d' progress := by
  obtain ⟨rfl, rfl⟩ := Prod.mk.inj (Option.some.inj h)
  exact ⟨.refl d, hprogress, hsynced⟩

/-- A query that fails. -/
private theorem DigestKeeps.unavailable {e : DbError} {progress : Progress}
    (h : some (d, fail (.database e) .abandoned) = some (d', progress))
    (hsynced : d.Synced backend) : DigestKeeps backend d k d' progress :=
  .still h hsynced (progressOk_fail (.inl rfl))

/-- A commit, that of this digest or one it does not know of. -/
private theorem DigestKeeps.committed {p progress : Progress}
    (h : some (d.commit backend k, p) = some (d', progress)) (hsynced : d.Synced backend)
    (hprogress : ProgressOk (d.commit backend k) k p) : DigestKeeps backend d k d' progress := by
  obtain ⟨rfl, rfl⟩ := Prod.mk.inj (Option.some.inj h)
  exact ⟨d.keeps_commit backend k, hprogress, hsynced.commit k⟩

/-- The last stage of a digest, which changes the files. -/
private theorem DigestKeeps.last {disk : Disk} {result : AppResult Digested} {progress : Progress}
    (h : some (disk, Progress.ended result) = some (d', progress)) (hkeeps : d.Keeps disk)
    (hsynced : disk.Synced backend) : DigestKeeps backend d k d' progress := by
  obtain ⟨rfl, rfl⟩ := Prod.mk.inj (Option.some.inj h)
  exact ⟨hkeeps, trivial, hsynced⟩

/-- Every stage keeps what is safe, unless an error that is not to be retained is behind
a commit that is not durable. -/
theorem digestStep_keeps {stage : Stage} {outcome : Outcome} {progress : Progress}
    (h : digestStep backend d k stage outcome = some (d', progress)) (hstage : StageOk d k stage)
    (hsynced : d.Synced backend)
    (hretain : ∀ e, outcome = .failed e → shouldRetainEvent e = true ∨ k ∈ d.rows.durable) :
    DigestKeeps backend d k d' progress := by
  cases stage with
  | reading =>
      cases outcome with
      | passed =>
          simp only [digestStep] at h
          split_ifs at h
          · exact .still h hsynced trivial
          · exact .still h hsynced (progressOk_fail (.inl (retain_missing k.eventId)))
      | rejected r =>
          simp only [digestStep] at h
          split_ifs at h
          exact .still h hsynced (progressOk_rejected r)
      | unavailable e => exact .unavailable h hsynced
      | _ => cases h
  | checking =>
      cases outcome with
      | passed =>
          refine .still h hsynced ?_
          unfold ProgressOk
          dsimp only
          split_ifs with hcommitted
          · exact hcommitted
          · trivial
      | unavailable e => exact .unavailable h hsynced
      | _ => cases h
  | measuring =>
      cases outcome with
      | passed => exact .still h hsynced trivial
      | full => exact .still h hsynced trivial
      | unavailable e => exact .unavailable h hsynced
      | _ => cases h
  | writing =>
      cases outcome with
      | passed =>
          simp only [digestStep] at h
          split_ifs at h
          · exact .unavailable h hsynced
          · exact .committed h hsynced (d.committed_commit backend k)
      | uncertain e =>
          simp only [digestStep] at h
          split_ifs at h
          exact .committed h hsynced (progressOk_fail (.inl rfl))
      | full =>
          simp only [digestStep] at h
          split_ifs at h
          · exact .unavailable h hsynced
          · exact .still h hsynced trivial
      | unavailable e => exact .unavailable h hsynced
      | _ => cases h
  | alerting =>
      cases outcome with
      | passed => exact .still h hsynced hstage
      | failed e => exact .still h hsynced (progressOk_fail (hretain e rfl))
      | _ => cases h
  | releasing =>
      cases backend with
      | sqlite =>
          cases outcome with
          | passed => exact .still h hsynced hstage
          | _ => cases h
      | postgres =>
          cases outcome with
          | passed => exact .last h (Disk.keeps_delete (hsynced rfl hstage)) hsynced
          | stuck => exact .still h hsynced trivial
          | _ => cases h
  | limited =>
      cases outcome with
      | passed => exact .still h hsynced trivial
      | unavailable e => exact .unavailable h hsynced
      | _ => cases h
  | dropping =>
      cases outcome with
      | passed => exact .last h (d.keeps_delete_drop k) hsynced
      | stuck => exact .last h (d.keeps_drop k) hsynced
      | _ => cases h
  | rejected e =>
      cases outcome with
      | passed => exact .last h (d.keeps_delete_drop k) hsynced
      | stuck => exact .last h (d.keeps_drop k) hsynced
      | _ => cases h
  | abandoned e =>
      cases outcome with
      | passed => exact .last h (Disk.keeps_delete hstage) hsynced
      | stuck => exact .still h hsynced trivial
      | _ => cases h

/-! ## The process -/

variable {m : Memory}

theorem release_eq (m : Memory) (k : EventKey) :
    ∃ inFlight, m.release k = { m with inFlight } := by
  unfold Memory.release
  split
  · exact ⟨m.inFlight, rfl⟩
  · exact ⟨_, rfl⟩

theorem releaseAll_eq (m : Memory) (batch : List PendingDelete) :
    ∃ inFlight, m.releaseAll batch = { m with inFlight } := by
  unfold Memory.releaseAll
  induction batch generalizing m with
  | nil => exact ⟨m.inFlight, rfl⟩
  | cons entry rest ih =>
      obtain ⟨first, hfirst⟩ := release_eq m entry.key
      obtain ⟨last, hlast⟩ := ih (m.release entry.key)
      refine ⟨last, ?_⟩
      rw [List.foldl_cons, hlast, hfirst]

/-- What the process knows does not depend on what it has registered. -/
theorem MemoryOk.inFlight (h : MemoryOk d m) (inFlight : Map EventKey Nat) :
    MemoryOk d { m with inFlight } := ⟨h.requests, h.tasks, h.pending, h.worker⟩

theorem MemoryOk.release (h : MemoryOk d m) (k : EventKey) : MemoryOk d (m.release k) := by
  obtain ⟨inFlight, heq⟩ := release_eq m k
  rw [heq]
  exact h.inFlight inFlight

theorem MemoryOk.releaseAll (h : MemoryOk d m) (batch : List PendingDelete) :
    MemoryOk d (m.releaseAll batch) := by
  obtain ⟨inFlight, heq⟩ := releaseAll_eq m batch
  rw [heq]
  exact h.inFlight inFlight

theorem MemoryOk.finish (h : MemoryOk d m) (t : Task) : MemoryOk d (m.finish t) := by
  unfold Memory.finish
  split_ifs
  · exact h.release t.key
  · exact h

theorem MemoryOk.enqueue (h : MemoryOk d m) (hk : k ∈ d.rows.committed) :
    MemoryOk d (m.enqueue k) where
  requests := h.requests
  tasks := h.tasks
  pending := by
    intro entry hentry
    rcases List.mem_append.mp hentry with hold | hnew
    · exact h.pending entry hold
    · obtain rfl := List.mem_singleton.mp hnew
      exact hk
  worker := by
    have hworker := h.worker
    unfold Memory.enqueue
    dsimp only
    generalize m.worker = worker at hworker ⊢
    cases worker with
    | idle => trivial
    | _ => exact hworker

/-- Other tasks in the place of one. -/
private theorem MemoryOk.replace (h : MemoryOk d m) {before rest : List Task} {t : Task}
    (new : List Task) (htasks : m.tasks = before ++ t :: rest)
    (hnew : ∀ t' ∈ new, StageOk d t'.key t'.stage) : MemoryOk d { m with tasks := before ++ (new ++ rest) } where
  requests := h.requests
  tasks := by
    intro t' ht'
    have hold : ∀ t' ∈ before ++ t :: rest, StageOk d t'.key t'.stage := htasks ▸ h.tasks
    rcases List.mem_append.mp ht' with hbefore | ht'
    · exact hold t' (List.mem_append_left _ hbefore)
    · rcases List.mem_append.mp ht' with hmem | hrest
      · exact hnew t' hmem
      · exact hold t' (List.mem_append_right _ (List.mem_cons_of_mem _ hrest))
  pending := h.pending
  worker := h.worker

/-- A digest that tries again begins again. -/
theorem retry_stage {t t' : Task} {result : AppResult Digested} (h : t.retry result = some t') :
    t'.stage = .reading := by
  unfold Task.retry at h
  split at h
  · split_ifs at h
    obtain rfl := Option.some.inj h
    rfl
  · cases h

theorem MemoryOk.advance (h : MemoryOk d m) {before rest : List Task} {t : Task}
    (htasks : m.tasks = before ++ t :: rest) {progress : Progress}
    (hprogress : ProgressOk d t.key progress) :
    MemoryOk d (m.advance before rest t progress) := by
  have hgone : MemoryOk d { m with tasks := before ++ rest } :=
    h.replace [] htasks (fun _ ht => nomatch ht)
  cases progress with
  | next stage =>
      apply h.replace [{ t with stage }] htasks
      intro t' ht'
      obtain rfl := List.mem_singleton.mp ht'
      exact hprogress
  | queued => exact (hgone.enqueue hprogress).finish t
  | ended result =>
      unfold Memory.advance
      dsimp only
      split
      next t' hretry =>
        apply h.replace [t'] htasks
        intro t'' ht''
        obtain rfl := List.mem_singleton.mp ht''
        unfold StageOk
        rw [retry_stage hretry]
        trivial
      next => exact hgone.finish t

theorem MemoryOk.returnBatch (h : MemoryOk d m) {batch : List PendingDelete}
    (hbatch : ∀ entry ∈ batch, entry.key ∈ d.rows.committed) :
    MemoryOk d (m.returnBatch batch) := by
  unfold Memory.returnBatch
  dsimp only
  apply MemoryOk.releaseAll
  refine ⟨h.requests, h.tasks, fun entry hentry => ?_, trivial⟩
  rcases List.mem_append.mp hentry with hold | htried
  · exact h.pending entry hold
  · rw [List.partition_eq_filter_filter] at htried
    obtain ⟨first, hfirst, rfl⟩ := List.mem_map.mp (List.mem_filter.mp htried).1
    exact hbatch first hfirst

/-! ## Runs -/

/-- No error behind a commit has the file deleted, unless the row is durable. -/
def Retains (s : Server) : ServerLabel → Prop
  | .digest k (.failed e) => shouldRetainEvent e = true ∨ k ∈ s.disk.rows.durable
  | _ => True

def RetainingStep (backend : Backend) (s : Server) (label : ServerLabel) (s' : Server) : Prop :=
  ServerStep backend s label s' ∧ Retains s label

/-- Every acknowledged event is safe, and the process knows what it relies on. -/
structure Server.Sound (backend : Backend) (s : Server) : Prop where
  acked : ∀ k ∈ s.acked, s.disk.Safe k
  memory : MemoryOk s.disk s.memory
  synced : s.disk.Synced backend

theorem memoryOk_fresh (d : Disk) : MemoryOk d .fresh where
  requests := fun _ hr => nomatch hr
  tasks := fun _ ht => nomatch ht
  pending := fun _ hentry => nomatch hentry
  worker := trivial

theorem sound_start (backend : Backend) : Server.start.Sound backend where
  acked := fun _ hk => absurd hk (Finset.notMem_empty _)
  memory := memoryOk_fresh _
  synced := fun _ => Finset.empty_subset _

variable {s s' : Server}

/-- What keeps the disk keeps the acknowledged events. -/
private theorem Server.Sound.step (h : s.Sound backend) {disk : Disk} {memory : Memory}
    (hkeeps : s.disk.Keeps disk) (hmemory : MemoryOk disk memory) (hsynced : disk.Synced backend) :
    Server.Sound backend { s with disk, memory } where
  acked := fun k hk => hkeeps.safe k (h.acked k hk)
  memory := hmemory
  synced := hsynced

/-- Other requests in the place of one. -/
private theorem MemoryOk.replaceRequest (h : MemoryOk d m) {before rest : List Request}
    {r : Request} (new : List Request) (hrequests : m.requests = before ++ r :: rest)
    (hnew : ∀ r' ∈ new, r'.phase.published = true → d.Safe r'.key) :
    MemoryOk d { m with requests := before ++ (new ++ rest) } := by
  have hold : ∀ r' ∈ before ++ r :: rest, r'.phase.published = true → d.Safe r'.key :=
    hrequests ▸ h.requests
  refine ⟨fun r' hr' => ?_, h.tasks, h.pending, h.worker⟩
  rcases List.mem_append.mp hr' with hbefore | hr'
  · exact hold r' (List.mem_append_left _ hbefore)
  · rcases List.mem_append.mp hr' with hmem | hrest
    · exact hnew r' hmem
    · exact hold r' (List.mem_append_right _ (List.mem_cons_of_mem _ hrest))

/-- A request that has stored its event is one of a safe event. -/
private theorem MemoryOk.safe_of_request (h : MemoryOk d m) {before rest : List Request}
    {r : Request} (hrequests : m.requests = before ++ r :: rest)
    (hphase : r.phase.published = true) : d.Safe r.key :=
  h.requests r (hrequests ▸ List.mem_append_right _ List.mem_cons_self) hphase

/-- One more digest, from the beginning. -/
private theorem MemoryOk.addTask (h : MemoryOk d m) (k : EventKey) (attempt : Option Nat) :
    MemoryOk d { m with tasks := m.tasks ++ [⟨k, attempt, .reading⟩] } := by
  refine ⟨h.requests, fun t ht => ?_, h.pending, h.worker⟩
  rcases List.mem_append.mp ht with hold | hnew
  · exact h.tasks t hold
  · obtain rfl := List.mem_singleton.mp hnew
    trivial

private theorem MemoryOk.setWorker (h : MemoryOk d m) {worker : Worker}
    (hworker : WorkerOk d worker) : MemoryOk d { m with worker } :=
  ⟨h.requests, h.tasks, h.pending, hworker⟩

theorem RetainingStep.sound {label : ServerLabel} (hstep : RetainingStep backend s label s')
    (h : s.Sound backend) : s'.Sound backend := by
  obtain ⟨hstep, hretains⟩ := hstep
  have hmemory := h.memory
  cases hstep with
  | claim k =>
      refine h.step (.refl _) ⟨fun r hr hphase => ?_, hmemory.tasks, hmemory.pending,
        hmemory.worker⟩ h.synced
      rcases List.mem_cons.mp hr with rfl | hr
      · cases hphase
      · exact hmemory.requests r hr hphase
  | @store k before rest hrequests =>
      have hkeeps := s.disk.keeps_store k
      refine h.step hkeeps ((hmemory.mono hkeeps).replaceRequest [⟨k, .stored⟩] hrequests ?_)
        h.synced
      intro r hr _
      obtain rfl := List.mem_singleton.mp hr
      exact .inl (Finset.mem_insert_self _ _)
  | @storeFailed k before rest published hrequests =>
      have hkeeps := s.disk.keeps_publish k published
      have hgone := (hmemory.mono hkeeps).replaceRequest [] hrequests fun r hr => (nomatch hr)
      obtain ⟨inFlight, hrelease⟩ := release_eq s.memory k
      refine h.step hkeeps ?_ h.synced
      rw [hrelease]
      exact hgone.inFlight inFlight
  | @abandon k before rest hrequests =>
      have horphaned := hmemory.replaceRequest [⟨k, .orphaned⟩] hrequests fun r hr hphase => by
        obtain rfl := List.mem_singleton.mp hr
        cases hphase
      obtain ⟨inFlight, hrelease⟩ := release_eq s.memory k
      refine h.step (.refl _) ?_ h.synced
      rw [hrelease]
      exact horphaned.inFlight inFlight
  | @storeOrphan k before rest published hrequests =>
      have hkeeps := s.disk.keeps_publish k published
      exact h.step hkeeps
        ((hmemory.mono hkeeps).replaceRequest [] hrequests fun r hr => (nomatch hr)) h.synced
  | @spawn k before rest hrequests =>
      have hsafe := hmemory.safe_of_request hrequests rfl
      refine h.step (.refl _) ((hmemory.replaceRequest [⟨k, .spawned⟩] hrequests ?_).addTask k _)
        h.synced
      intro r hr _
      obtain rfl := List.mem_singleton.mp hr
      exact hsafe
  | @acknowledge k before rest hrequests =>
      have hsafe := hmemory.safe_of_request hrequests rfl
      refine ⟨fun k' hk' => ?_, hmemory.replaceRequest [] hrequests fun r hr => (nomatch hr),
        h.synced⟩
      rcases Finset.mem_insert.mp hk' with rfl | hk'
      · exact hsafe
      · exact h.acked k' hk'
  | hangUp hrequests =>
      exact h.step (.refl _) (hmemory.replaceRequest [] hrequests fun r hr => nomatch hr) h.synced
  | @digest t before rest outcome disk progress htasks hdigest =>
      have hstage := hmemory.tasks t (htasks ▸ List.mem_append_right _ List.mem_cons_self)
      have hretain : ∀ e, outcome = .failed e →
          shouldRetainEvent e = true ∨ t.key ∈ s.disk.rows.durable := by
        rintro e rfl
        exact hretains
      obtain ⟨hkeeps, hprogress, hsynced⟩ := digestStep_keeps hdigest hstage h.synced hretain
      exact h.step hkeeps ((hmemory.mono hkeeps).advance htasks hprogress) hsynced
  | take hworker hpending =>
      exact h.step (.refl _) ⟨hmemory.requests, hmemory.tasks, fun _ hentry => (nomatch hentry),
        hmemory.pending⟩ h.synced
  | rest hworker hpending => exact h.step (.refl _) (hmemory.setWorker trivial) h.synced
  | start hworker =>
      have hbatch := hmemory.worker
      rw [hworker] at hbatch
      exact h.step (.refl _)
        (hmemory.setWorker fun entry hentry => ⟨hbatch entry hentry, hbatch entry hentry⟩) h.synced
  | @complete batch started hworker =>
      have hbatch := hmemory.worker
      rw [hworker] at hbatch
      have hkeeps := s.disk.keeps_checkpoint started
      refine h.step hkeeps ((hmemory.mono hkeeps).setWorker ?_) (h.synced.checkpoint started)
      intro k hk
      obtain ⟨entry, hentry, rfl⟩ := List.mem_map.mp hk
      exact WriteAhead.durable_checkpoint (hbatch entry hentry).1 (hbatch entry hentry).2
  | busy hworker =>
      have hbatch := hmemory.worker
      rw [hworker] at hbatch
      exact h.step (.refl _) (hmemory.returnBatch fun entry hentry => (hbatch entry hentry).2)
        h.synced
  | @remove batch k rest stuck hworker =>
      have hdurable := hmemory.worker
      rw [hworker] at hdurable
      have hkeeps : s.disk.Keeps (if stuck then s.disk else s.disk.delete k) := by
        split_ifs
        · exact .refl _
        · exact Disk.keeps_delete (hdurable k List.mem_cons_self)
      have hrest : WorkerOk s.disk (.deleting batch rest) :=
        fun k' hk' => hdurable k' (List.mem_cons_of_mem k hk')
      apply h.step hkeeps ((hmemory.mono hkeeps).setWorker (hrest.mono hkeeps))
      split_ifs
      · exact h.synced
      · exact h.synced
  | removed hworker =>
      have hpacing : WorkerOk s.disk .pacing := trivial
      exact h.step (.refl _) ((hmemory.setWorker hpacing).releaseAll _) h.synced
  | scan hlisted hlive hfiles =>
      exact h.step (.refl _) ⟨hmemory.requests, hmemory.tasks, hmemory.pending, hmemory.worker⟩
        h.synced
  | skip hlisted hlive howned =>
      exact h.step (.refl _) ⟨hmemory.requests, hmemory.tasks, hmemory.pending, hmemory.worker⟩
        h.synced
  | @replay k rest hlisted hlive howned =>
      have hadded := hmemory.addTask k none
      exact h.step (.refl _) ⟨hadded.requests, hadded.tasks, hadded.pending, hadded.worker⟩
        h.synced
  | autoCheckpoint part =>
      have hkeeps := s.disk.keeps_checkpoint part
      exact h.step hkeeps (hmemory.mono hkeeps) (h.synced.checkpoint part)
  | crash survivors =>
      refine ⟨fun k hk => h.acked k hk, memoryOk_fresh _, fun hpostgres => ?_⟩
      exact Finset.union_subset (Finset.Subset.refl _)
        (Finset.inter_subset_right.trans (h.synced hpostgres))

/-- In every run without an error behind a commit that has the file deleted, every
acknowledged event has its file, or a durable row, or was dropped deliberately. -/
theorem no_event_is_lost {labels : List ServerLabel}
    (hrun : Run (RetainingStep backend) .start labels s) : ∀ k ∈ s.acked, s.disk.Safe k :=
  (hrun.invariant (Server.Sound backend) (fun _ _ _ h hstep => hstep.sound h)
    (sound_start backend)).acked

/-- An event of project 1. -/
def accepted : EventKey := ⟨1, "a1"⟩

/-- A digest of it at a stage. -/
def Stage.of (stage : Stage) : Task := ⟨accepted, some 0, stage⟩

theorem no_event_is_lost_checkpointed :
    ∃ s : Server, accepted ∈ s.acked ∧ accepted ∉ s.disk.files ∧ ∀ k ∈ s.acked, s.disk.Safe k := by
  have hclaim : RetainingStep .sqlite .start (.claim accepted) _ :=
    ⟨.claim .start accepted, trivial⟩
  have hrun := Run.cons hclaim
    (.cons ⟨@ServerStep.store _ _ accepted [] [] rfl, trivial⟩
    (.cons ⟨@ServerStep.spawn _ _ accepted [] [] rfl, trivial⟩
    (.cons ⟨@ServerStep.acknowledge _ _ accepted [] [] rfl, trivial⟩
    (.cons ⟨@ServerStep.digest _ _ (Stage.of .reading) [] [] .passed _ _ rfl rfl, trivial⟩
    (.cons ⟨@ServerStep.digest _ _ (Stage.of .checking) [] [] .passed _ _ rfl rfl, trivial⟩
    (.cons ⟨@ServerStep.digest _ _ (Stage.of .measuring) [] [] .passed _ _ rfl rfl, trivial⟩
    (.cons ⟨@ServerStep.digest _ _ (Stage.of .writing) [] [] .passed _ _ rfl rfl, trivial⟩
    (.cons ⟨@ServerStep.digest _ _ (Stage.of .alerting) [] [] .passed _ _ rfl rfl, trivial⟩
    (.cons ⟨@ServerStep.digest _ _ (Stage.of .releasing) [] [] .passed _ _ rfl rfl, trivial⟩
    (.cons ⟨.take rfl (List.cons_ne_nil _ _), trivial⟩
    (.cons ⟨.start rfl, trivial⟩
    (.cons ⟨.complete rfl, trivial⟩
    (.single ⟨@ServerStep.remove _ _ _ _ _ false rfl, trivial⟩)))))))))))))
  exact ⟨_, by decide, by decide, no_event_is_lost hrun⟩

/-- An integration that is deleted while its alert is on the way has the file deleted
before the commit is durable. -/
theorem alert_error_loses_event :
    ∃ s : Server, Run (ServerStep .sqlite) .start
        [.claim accepted, .store accepted, .spawn accepted, .acknowledge accepted,
          .digest accepted .passed, .digest accepted .passed, .digest accepted .passed,
          .digest accepted .passed,
          .digest accepted (.failed (.notFound "Integration 1 not found")),
          .digest accepted .passed, .crash ∅] s ∧
      accepted ∈ s.acked ∧ accepted ∉ s.disk.rows.committed ∧ ¬s.disk.Safe accepted := by
  have hrun := Run.cons (@ServerStep.claim .sqlite .start accepted)
    (.cons (@ServerStep.store _ _ accepted [] [] rfl)
    (.cons (@ServerStep.spawn _ _ accepted [] [] rfl)
    (.cons (@ServerStep.acknowledge _ _ accepted [] [] rfl)
    (.cons (@ServerStep.digest _ _ (Stage.of .reading) [] [] .passed _ _ rfl rfl)
    (.cons (@ServerStep.digest _ _ (Stage.of .checking) [] [] .passed _ _ rfl rfl)
    (.cons (@ServerStep.digest _ _ (Stage.of .measuring) [] [] .passed _ _ rfl rfl)
    (.cons (@ServerStep.digest _ _ (Stage.of .writing) [] [] .passed _ _ rfl rfl)
    (.cons (@ServerStep.digest _ _ (Stage.of .alerting) [] []
      (.failed (.notFound "Integration 1 not found")) _ _ rfl rfl)
    (.cons (@ServerStep.digest _ _
      (Stage.of (.abandoned (.notFound "Integration 1 not found"))) [] [] .passed _ _ rfl rfl)
    (.single (.crash _ ∅)))))))))))
  refine ⟨_, hrun, by decide, by decide, ?_⟩
  rintro (hfile | hdurable | hdropped)
  · revert hfile
    decide
  · revert hdurable
    decide
  · revert hdropped
    decide

end Rustrak.Durability
