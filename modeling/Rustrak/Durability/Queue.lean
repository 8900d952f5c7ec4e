import Rustrak.Claiming.Guards
import Rustrak.Ingest.Recovery
import Rustrak.Transition.Run

/-!
# The durability queue

`DurabilityQueue` in `digest/processors/event.rs`: the files of committed events wait for a
checkpoint that starts after they were queued, and are deleted when it completes.  A worker
is spawned by the first entry after an idle period; it takes all that is pending, runs a
checkpoint, and returns what it could not finish.  Meanwhile every entry keeps a guard in
`InFlightDigests`, so that the recovery worker leaves its file alone.

`pending` and `worker_running` are under one lock, everything else is not: `QueueStep` has a
step for every stretch between two points where other tasks can come in, and any number of
workers.  Entries are numbered in the order of their `enqueue` calls, which the code does not
do; nothing but the statements looks at the number.
-/

namespace Rustrak.Durability.DurabilityQueue

open Rustrak.Claiming Rustrak.Files Rustrak.Ingest Rustrak.Transition

variable {Bytes Uuid : Type}

/-- A committed digest whose file waits for the next completed checkpoint. -/
structure PendingDelete (Uuid : Type) where
  id : Nat
  projectId : Int
  eventId : String
  location : EventStorageLocation
  attempts : Nat
  /-- What its guard is for. -/
  owner : Int × Uuid
  deriving DecidableEq

/-- The entry as it was queued. -/
def PendingDelete.queued (e : PendingDelete Uuid) : PendingDelete Uuid := { e with attempts := 0 }

def maxCheckpointAttempts : Nat := 3

/-- Where a task of `run` is. -/
inductive Worker (Uuid : Type)
  | sleeping
  /-- It has a batch, and waits for its turn. -/
  | waiting (batch : List (PendingDelete Uuid))
  | checkpointing (batch : List (PendingDelete Uuid))
  /-- What it has still to put back. -/
  | returning (retry : List (PendingDelete Uuid))
  /-- The names it has still to delete, with the entry they are of. -/
  | deleting (batch : List (PendingDelete Uuid)) (rest : List (PendingDelete Uuid × String))

def Worker.batch : Worker Uuid → List (PendingDelete Uuid)
  | .sleeping => []
  | .waiting batch | .checkpointing batch | .returning batch | .deleting batch _ => batch

/-- How an entry ends. -/
inductive Ending
  /-- Its files were removed, one after the other. -/
  | deleted
  /-- The task that removes files failed. -/
  | failed
  /-- Its attempts are exhausted. -/
  | retained
  deriving DecidableEq

structure State (Bytes Uuid : Type) where
  pending : List (PendingDelete Uuid)
  workerRunning : Bool
  /-- The `enqueue` calls that have set the flag, and have still to spawn the worker. -/
  starting : Nat
  workers : List (Worker Uuid)
  inFlight : Guards (Int × Uuid)
  /-- The guards that digests hold. -/
  held : List (Int × Uuid)
  dir : IngestDir Bytes
  finished : List (PendingDelete Uuid × Ending)
  /-- How many entries have been queued. -/
  queued : Nat

def State.start (dir : IngestDir Bytes) : State Bytes Uuid where
  pending := []
  workerRunning := false
  starting := 0
  workers := []
  inFlight := ∅
  held := []
  dir
  finished := []
  queued := 0

inductive Label (Bytes Uuid : Type)
  | register (owner : Int × Uuid)
  | drop (owner : Int × Uuid)
  | enqueue (e : PendingDelete Uuid)
  | spawn
  | take
  | stop
  | start
  | complete
  | fail
  | putBack
  | remove (e : PendingDelete Uuid) (name : String) (stuck : Bool)
  | removalFailed
  | finish
  | others (dir : IngestDir Bytes)

/-- The names the worker deletes for an entry. -/
def pathsOf (format : StorageFormat Bytes Uuid) (e : PendingDelete Uuid) : List String :=
  match eventPathsAt format e.projectId e.eventId e.location with
  | .ok names => names
  -- Only logged.
  | .error _ => []

def pathsOfBatch (format : StorageFormat Bytes Uuid) (batch : List (PendingDelete Uuid)) :
    List (PendingDelete Uuid × String) :=
  batch.flatMap fun e => (pathsOf format e).map (e, ·)

/-- A failed checkpoint: one more attempt each, and the exhausted ones go. -/
def tried (batch : List (PendingDelete Uuid)) :
    List (PendingDelete Uuid) × List (PendingDelete Uuid) :=
  (batch.map fun e => { e with attempts := e.attempts + 1 }).partition fun e =>
    e.attempts ≥ maxCheckpointAttempts

/-- What is not finished: pending, or in the batch of a worker. -/
def State.unfinished (s : State Bytes Uuid) : List (PendingDelete Uuid) :=
  s.pending ++ s.workers.flatMap Worker.batch

variable [DecidableEq Uuid]

/-- The guards of these entries are dropped. -/
def State.conclude (s : State Bytes Uuid) (entries : List (PendingDelete Uuid))
    (ending : Ending) : State Bytes Uuid :=
  { s with
    inFlight := s.inFlight.releaseAll (entries.map PendingDelete.owner)
    finished := s.finished ++ entries.map (·, ending) }

/-- Every interleaving of digests, `enqueue` calls, workers, and whatever else happens in the
ingest directory. -/
inductive QueueStep (format : StorageFormat Bytes Uuid) :
    State Bytes Uuid → Label Bytes Uuid → State Bytes Uuid → Prop
  | register (s : State Bytes Uuid) (owner : Int × Uuid) :
      QueueStep format s (.register owner)
        { s with inFlight := s.inFlight.register owner, held := owner :: s.held }
  | drop {s : State Bytes Uuid} {owner : Int × Uuid} : owner ∈ s.held →
      QueueStep format s (.drop owner)
        { s with inFlight := s.inFlight.release owner, held := s.held.erase owner }
  /-- Under the lock: the entry takes a guard along, and the flag is set. -/
  | enqueue {s : State Bytes Uuid} {e : PendingDelete Uuid} : e.id = s.queued →
      e.attempts = 0 → e.owner ∈ s.held →
      QueueStep format s (.enqueue e)
        { s with
          pending := s.pending ++ [e]
          held := s.held.erase e.owner
          queued := s.queued + 1
          workerRunning := true
          starting := if s.workerRunning then s.starting else s.starting + 1 }
  | spawn {s : State Bytes Uuid} {n : Nat} : s.starting = n + 1 →
      QueueStep format s .spawn
        { s with starting := n, workers := s.workers ++ [.sleeping] }
  /-- Under the lock, as is stopping. -/
  | take {s : State Bytes Uuid} {before after : List (Worker Uuid)} :
      s.workers = before ++ .sleeping :: after → s.pending ≠ [] →
      QueueStep format s .take
        { s with workers := before ++ .waiting s.pending :: after, pending := [] }
  | stop {s : State Bytes Uuid} {before after : List (Worker Uuid)} :
      s.workers = before ++ .sleeping :: after → s.pending = [] →
      QueueStep format s .stop { s with workers := before ++ after, workerRunning := false }
  | start {s : State Bytes Uuid} {before after : List (Worker Uuid)}
      {batch : List (PendingDelete Uuid)} : s.workers = before ++ .waiting batch :: after →
      QueueStep format s .start { s with workers := before ++ .checkpointing batch :: after }
  | complete {s : State Bytes Uuid} {before after : List (Worker Uuid)}
      {batch : List (PendingDelete Uuid)} :
      s.workers = before ++ .checkpointing batch :: after →
      QueueStep format s .complete
        { s with workers := before ++ .deleting batch (pathsOfBatch format batch) :: after }
  /-- The checkpoint is busy, or an error. -/
  | fail {s : State Bytes Uuid} {before after : List (Worker Uuid)}
      {batch : List (PendingDelete Uuid)} :
      s.workers = before ++ .checkpointing batch :: after →
      QueueStep format s .fail
        { s.conclude (tried batch).1 .retained with
          workers := before ++ .returning (tried batch).2 :: after }
  | putBack {s : State Bytes Uuid} {before after : List (Worker Uuid)}
      {retry : List (PendingDelete Uuid)} : s.workers = before ++ .returning retry :: after →
      QueueStep format s .putBack
        { s with workers := before ++ .sleeping :: after, pending := s.pending ++ retry }
  /-- A file is removed, or cannot be, which is only logged. -/
  | remove {s : State Bytes Uuid} {before after : List (Worker Uuid)}
      {batch : List (PendingDelete Uuid)} {e : PendingDelete Uuid} {name : String}
      {rest : List (PendingDelete Uuid × String)} {stuck : Bool} :
      s.workers = before ++ .deleting batch ((e, name) :: rest) :: after →
      QueueStep format s (.remove e name stuck)
        { s with
          workers := before ++ .deleting batch rest :: after
          dir := if stuck then s.dir else s.dir.deletePaths [name] }
  | removalFailed {s : State Bytes Uuid} {before after : List (Worker Uuid)}
      {batch : List (PendingDelete Uuid)} {rest : List (PendingDelete Uuid × String)} :
      s.workers = before ++ .deleting batch rest :: after →
      QueueStep format s .removalFailed
        { s.conclude batch .failed with workers := before ++ .sleeping :: after }
  | finish {s : State Bytes Uuid} {before after : List (Worker Uuid)}
      {batch : List (PendingDelete Uuid)} : s.workers = before ++ .deleting batch [] :: after →
      QueueStep format s .finish
        { s.conclude batch .deleted with workers := before ++ .sleeping :: after }
  | others (s : State Bytes Uuid) (dir : IngestDir Bytes) :
      QueueStep format s (.others dir) { s with dir }

/-! ## One worker at a time -/

variable {format : StorageFormat Bytes Uuid} {s s' : State Bytes Uuid} {label : Label Bytes Uuid}

/-- The flag says whether there is a worker, running or about to be spawned, and while there
is none nothing is pending. -/
structure Controlled (s : State Bytes Uuid) : Prop where
  workers : s.workers.length + s.starting = if s.workerRunning then 1 else 0
  idle : s.workerRunning = false → s.pending = []

omit [DecidableEq Uuid] in
/-- Whoever finds a worker finds the only one. -/
theorem Controlled.single (h : Controlled s) {before after : List (Worker Uuid)}
    {w : Worker Uuid} (hworkers : s.workers = before ++ w :: after) :
    before = [] ∧ after = [] ∧ s.starting = 0 ∧ s.workerRunning = true := by
  have hcount := h.workers
  rw [hworkers, List.length_append, List.length_cons] at hcount
  split_ifs at hcount with hrunning
  · have hbefore : before.length = 0 := by omega
    have hafter : after.length = 0 := by omega
    have hstarting : s.starting = 0 := by omega
    exact ⟨List.eq_nil_of_length_eq_zero hbefore, List.eq_nil_of_length_eq_zero hafter,
      hstarting, hrunning⟩
  · omega

omit [DecidableEq Uuid] in
private theorem Controlled.replace (h : Controlled s) {before after : List (Worker Uuid)}
    {w w' : Worker Uuid} (hworkers : s.workers = before ++ w :: after)
    (hsame : s'.workers = before ++ w' :: after ∧ s'.starting = s.starting ∧
      s'.workerRunning = s.workerRunning) : Controlled s' := by
  obtain ⟨-, -, -, hrunning⟩ := h.single hworkers
  obtain ⟨hworkers', hstarting, hflag⟩ := hsame
  refine ⟨?_, fun hidle => ?_⟩
  · have hcount := h.workers
    rw [hworkers, List.length_append, List.length_cons] at hcount
    rw [hworkers', hstarting, hflag, List.length_append, List.length_cons]
    exact hcount
  · rw [hflag, hrunning] at hidle
    contradiction

theorem QueueStep.controlled (hstep : QueueStep format s label s') (h : Controlled s) :
    Controlled s' := by
  cases hstep with
  | register owner => exact ⟨h.workers, h.idle⟩
  | drop _ => exact ⟨h.workers, h.idle⟩
  | enqueue _ _ _ =>
      refine ⟨?_, fun hidle => absurd hidle (by simp)⟩
      have hcount := h.workers
      rw [if_pos rfl]
      split_ifs at hcount ⊢ with hrunning
      · exact hcount
      · exact congrArg (· + 1) hcount
  | spawn hstarting =>
      refine ⟨?_, h.idle⟩
      have hcount := h.workers
      rw [hstarting] at hcount
      dsimp only
      rw [List.length_append, List.length_singleton, ← hcount, Nat.add_assoc, Nat.add_comm 1]
  | take hworkers _ => exact h.replace hworkers ⟨rfl, rfl, rfl⟩
  | stop hworkers hpending =>
      obtain ⟨rfl, rfl, hstarting, -⟩ := h.single hworkers
      exact ⟨by simp [hstarting], fun _ => hpending⟩
  | start hworkers => exact h.replace hworkers ⟨rfl, rfl, rfl⟩
  | complete hworkers => exact h.replace hworkers ⟨rfl, rfl, rfl⟩
  | fail hworkers => exact h.replace hworkers ⟨rfl, rfl, rfl⟩
  | putBack hworkers => exact h.replace hworkers ⟨rfl, rfl, rfl⟩
  | remove hworkers => exact h.replace hworkers ⟨rfl, rfl, rfl⟩
  | removalFailed hworkers => exact h.replace hworkers ⟨rfl, rfl, rfl⟩
  | finish hworkers => exact h.replace hworkers ⟨rfl, rfl, rfl⟩
  | others dir => exact ⟨h.workers, h.idle⟩

/-! ## Where the entries are -/

/-- What is read of an entry and no attempt changes. -/
def Stable {α : Type} (f : PendingDelete Uuid → α) : Prop :=
  ∀ (e : PendingDelete Uuid) (attempts : Nat), f { e with attempts } = f e

omit [DecidableEq Uuid] in
theorem tried_perm {α : Type} {f : PendingDelete Uuid → α} (hf : Stable f)
    (batch : List (PendingDelete Uuid)) :
    (batch.map f).Perm ((tried batch).1.map f ++ (tried batch).2.map f) := by
  have hsame : (batch.map fun e => { e with attempts := e.attempts + 1 }).map f = batch.map f := by
    rw [List.map_map]
    exact List.map_congr_left fun e _ => hf e _
  rw [← List.map_append, ← hsame]
  refine List.Perm.map f ?_
  rw [tried, List.partition_eq_filter_filter]
  exact (List.filter_append_perm _ _).symm

/-- What a step does to entries and guards. -/
inductive Effect (s : State Bytes Uuid) : Label Bytes Uuid → State Bytes Uuid → Prop
  | registers {s' : State Bytes Uuid} (owner : Int × Uuid) :
      s'.unfinished = s.unfinished → s'.finished = s.finished → s'.queued = s.queued →
      s'.inFlight = s.inFlight.register owner → s'.held = owner :: s.held →
      Effect s (.register owner) s'
  | drops {s' : State Bytes Uuid} (owner : Int × Uuid) : owner ∈ s.held →
      s'.unfinished = s.unfinished → s'.finished = s.finished → s'.queued = s.queued →
      s'.inFlight = s.inFlight.release owner → s'.held = s.held.erase owner →
      Effect s (.drop owner) s'
  | enqueues {s' : State Bytes Uuid} (e : PendingDelete Uuid) : e.id = s.queued →
      e.attempts = 0 → e.owner ∈ s.held →
      s'.unfinished.Perm (e :: s.unfinished) → s'.finished = s.finished →
      s'.queued = s.queued + 1 → s'.inFlight = s.inFlight → s'.held = s.held.erase e.owner →
      Effect s (.enqueue e) s'
  /-- The work of a worker concludes some entries. -/
  | works {s' : State Bytes Uuid} {label : Label Bytes Uuid}
      (concluded : List (PendingDelete Uuid)) (ending : Ending) :
      (∀ {α : Type} {f : PendingDelete Uuid → α}, Stable f →
        (s.unfinished.map f).Perm (concluded.map f ++ s'.unfinished.map f)) →
      s'.finished = s.finished ++ concluded.map (·, ending) → s'.queued = s.queued →
      s'.inFlight = s.inFlight.releaseAll (concluded.map PendingDelete.owner) →
      s'.held = s.held → (∀ e, label ≠ .enqueue e) → Effect s label s'

/-- A step that moves entries about, and concludes none. -/
private theorem Effect.moves
    (hunfinished : s.unfinished.Perm s'.unfinished) (hfinished : s'.finished = s.finished)
    (hqueued : s'.queued = s.queued) (hinFlight : s'.inFlight = s.inFlight)
    (hheld : s'.held = s.held) (hlabel : ∀ e, label ≠ .enqueue e) : Effect s label s' :=
  .works [] .deleted (fun _ => hunfinished.map _) (by simp [hfinished]) hqueued
    (by simp [hinFlight, Guards.releaseAll]) hheld hlabel

omit [DecidableEq Uuid] in
private theorem unfinished_eq {w : Worker Uuid} (hworkers : s.workers = [w]) :
    s.unfinished = s.pending ++ w.batch := by
  rw [State.unfinished, hworkers, List.flatMap_singleton]

/-- A worker takes, keeps or puts back. -/
private theorem Controlled.moves (h : Controlled s) {before after : List (Worker Uuid)}
    {w w' : Worker Uuid} (hworkers : s.workers = before ++ w :: after)
    (hworkers' : s'.workers = before ++ w' :: after)
    (hentries : s'.pending ++ w'.batch = s.pending ++ w.batch)
    (hrest : s'.finished = s.finished ∧ s'.queued = s.queued ∧ s'.inFlight = s.inFlight ∧
      s'.held = s.held) (hlabel : ∀ e, label ≠ .enqueue e) : Effect s label s' := by
  obtain ⟨rfl, rfl, -⟩ := h.single hworkers
  obtain ⟨hfinished, hqueued, hinFlight, hheld⟩ := hrest
  refine .moves (.of_eq ?_) hfinished hqueued hinFlight hheld hlabel
  rw [unfinished_eq hworkers, unfinished_eq hworkers', hentries]

/-- A worker lets go of some of its batch. -/
private theorem Controlled.concludes (h : Controlled s) {before after : List (Worker Uuid)}
    {w w' : Worker Uuid} (hworkers : s.workers = before ++ w :: after)
    {concluded : List (PendingDelete Uuid)} {ending : Ending}
    (hbatch : ∀ {α : Type} {f : PendingDelete Uuid → α}, Stable f →
      (w.batch.map f).Perm (concluded.map f ++ w'.batch.map f))
    (hlabel : ∀ e, label ≠ .enqueue e) :
    Effect s label
      { s.conclude concluded ending with workers := before ++ w' :: after } := by
  obtain ⟨rfl, rfl, -⟩ := h.single hworkers
  refine .works concluded ending (fun {α f} hf => ?_) rfl rfl rfl rfl hlabel
  rw [unfinished_eq hworkers, unfinished_eq (w := w') rfl, List.map_append, List.map_append]
  refine ((hbatch hf).append_left _).trans ?_
  rw [← List.append_assoc, ← List.append_assoc]
  exact List.perm_append_comm.append_right _

theorem QueueStep.effect (hstep : QueueStep format s label s') (h : Controlled s) :
    Effect s label s' := by
  have hbatch : ∀ {batch : List (PendingDelete Uuid)} {α : Type} (f : PendingDelete Uuid → α),
      (batch.map f).Perm (batch.map f ++ (Worker.sleeping : Worker Uuid).batch.map f) := by
    intro batch α f
    rw [Worker.batch, List.map_nil, List.append_nil]
  cases hstep with
  | register owner => exact .registers owner rfl rfl rfl rfl rfl
  | drop howner => exact .drops _ howner rfl rfl rfl rfl rfl
  | enqueue hid hattempts howner =>
      refine .enqueues _ hid hattempts howner ?_ rfl rfl rfl rfl
      simp only [State.unfinished, List.append_assoc, List.singleton_append]
      exact List.perm_middle
  | spawn _ =>
      refine .moves (.of_eq ?_) rfl rfl rfl rfl (by simp)
      simp [State.unfinished, Worker.batch]
  | take hworkers _ =>
      exact h.moves hworkers rfl (List.append_nil _).symm ⟨rfl, rfl, rfl, rfl⟩ (by simp)
  | stop hworkers _ =>
      obtain ⟨rfl, rfl, -⟩ := h.single hworkers
      refine .moves (.of_eq ?_) rfl rfl rfl rfl (by simp)
      rw [unfinished_eq hworkers]
      rfl
  | start hworkers => exact h.moves hworkers rfl rfl ⟨rfl, rfl, rfl, rfl⟩ (by simp)
  | complete hworkers => exact h.moves hworkers rfl rfl ⟨rfl, rfl, rfl, rfl⟩ (by simp)
  | fail hworkers => exact h.concludes hworkers (fun hf => tried_perm hf _) (by simp)
  | putBack hworkers =>
      exact h.moves hworkers rfl (List.append_nil _) ⟨rfl, rfl, rfl, rfl⟩ (by simp)
  | remove hworkers => exact h.moves hworkers rfl rfl ⟨rfl, rfl, rfl, rfl⟩ (by simp)
  | removalFailed hworkers => exact h.concludes hworkers (fun _ => hbatch _) (by simp)
  | finish hworkers => exact h.concludes hworkers (fun _ => hbatch _) (by simp)
  | others dir => exact .moves (.refl _) rfl rfl rfl rfl (by simp)

/-! ## Accounts -/

/-- The entry of an `enqueue` call. -/
def Label.enqueued : Label Bytes Uuid → Option (PendingDelete Uuid)
  | .enqueue e => some e
  | _ => none

/-- Every entry there was is in one place, and the registry counts the guards of those that
are not finished. -/
structure Accounted (past : List (Label Bytes Uuid)) (s : State Bytes Uuid) : Prop where
  entries : ((s.unfinished ++ s.finished.map Prod.fst).map PendingDelete.queued).Perm
    (past.filterMap Label.enqueued)
  ids : ((s.unfinished ++ s.finished.map Prod.fst).map PendingDelete.id).Perm
    (List.range s.queued)
  guards : s.inFlight.Counts (s.unfinished.map PendingDelete.owner ++ s.held)

omit [DecidableEq Uuid] in
theorem stable_queued : Stable (@PendingDelete.queued Uuid) := fun _ _ => rfl

omit [DecidableEq Uuid] in
theorem stable_id : Stable (@PendingDelete.id Uuid) := fun _ _ => rfl

omit [DecidableEq Uuid] in
theorem stable_owner : Stable (@PendingDelete.owner Uuid) := fun _ _ => rfl

omit [DecidableEq Uuid] in
private theorem works_perm {α : Type} {f : PendingDelete Uuid → α}
    {unfinished unfinished' concluded : List (PendingDelete Uuid)}
    {finished : List (PendingDelete Uuid × Ending)} {ending : Ending}
    (hmoved : (unfinished.map f).Perm (concluded.map f ++ unfinished'.map f)) :
    ((unfinished' ++ (finished ++ concluded.map (·, ending)).map Prod.fst).map f).Perm
      ((unfinished ++ finished.map Prod.fst).map f) := by
  have hconcluded : (concluded.map (·, ending)).map Prod.fst = concluded := by
    rw [List.map_map]
    exact List.map_id _
  rw [List.map_append (f := Prod.fst), hconcluded]
  simp only [List.map_append]
  refine List.Perm.trans ?_ (hmoved.symm.append_right _)
  rw [← List.append_assoc]
  refine List.perm_append_comm.trans ?_
  rw [List.append_assoc]

omit [DecidableEq Uuid] in
private theorem enqueued_snoc {past : List (Label Bytes Uuid)}
    (hlabel : ∀ e, label ≠ .enqueue e) :
    (past ++ [label]).filterMap Label.enqueued = past.filterMap Label.enqueued := by
  have hnone : label.enqueued = none := by
    cases label with
    | enqueue e => exact absurd rfl (hlabel e)
    | _ => rfl
  rw [List.filterMap_append, List.filterMap_cons_none hnone, List.filterMap_nil, List.append_nil]

theorem Effect.accounted {past : List (Label Bytes Uuid)} (heffect : Effect s label s')
    (h : Accounted past s) : Accounted (past ++ [label]) s' := by
  cases heffect with
  | registers owner hunfinished hfinished hqueued hinFlight hheld =>
      refine ⟨?_, ?_, ?_⟩
      · rw [hunfinished, hfinished, enqueued_snoc (by simp)]
        exact h.entries
      · rw [hunfinished, hfinished, hqueued]
        exact h.ids
      · rw [hunfinished, hinFlight, hheld]
        exact (h.guards.register owner).perm List.perm_middle.symm
  | drops owner howner hunfinished hfinished hqueued hinFlight hheld =>
      refine ⟨?_, ?_, ?_⟩
      · rw [hunfinished, hfinished, enqueued_snoc (by simp)]
        exact h.entries
      · rw [hunfinished, hfinished, hqueued]
        exact h.ids
      · rw [hunfinished, hinFlight, hheld]
        have hguards := h.guards.perm
          ((List.perm_cons_erase howner).append_left _ |>.trans List.perm_middle)
        exact Guards.Counts.releaseAll [owner] hguards
  | enqueues e hid hattempts howner hunfinished hfinished hqueued hinFlight hheld =>
      have hnew : (s'.unfinished ++ s'.finished.map Prod.fst).Perm
          (e :: (s.unfinished ++ s.finished.map Prod.fst)) := by
        rw [hfinished]
        exact hunfinished.append_right _
      refine ⟨?_, ?_, ?_⟩
      · have hfresh : e.queued = e := by rw [PendingDelete.queued, ← hattempts]
        rw [List.filterMap_append]
        refine (hnew.map _).trans ?_
        rw [List.map_cons, hfresh]
        exact (h.entries.cons e).trans (List.perm_append_singleton e _).symm
      · rw [hqueued, List.range_succ]
        refine (hnew.map _).trans ?_
        rw [List.map_cons, hid]
        exact (h.ids.cons _).trans (List.perm_append_singleton _ _).symm
      · rw [hinFlight, hheld]
        refine h.guards.perm ?_
        refine ((List.perm_cons_erase howner).append_left _).trans ?_
        refine List.perm_middle.trans ?_
        exact ((hunfinished.map PendingDelete.owner).symm).append_right _
  | works concluded ending hmoved hfinished hqueued hinFlight hheld hlabel =>
      refine ⟨?_, ?_, ?_⟩
      · rw [hfinished, enqueued_snoc hlabel]
        exact (works_perm (hmoved stable_queued)).trans h.entries
      · rw [hfinished, hqueued]
        exact (works_perm (hmoved stable_id)).trans h.ids
      · rw [hinFlight, hheld]
        apply Guards.Counts.releaseAll
        refine h.guards.perm ?_
        rw [← List.append_assoc]
        exact (hmoved stable_owner).append_right _

/-! ## Checkpoints -/

/-- Whether a checkpoint starts or ends. -/
def Label.ofCheckpoint : Label Bytes Uuid → Bool
  | .start | .complete | .fail => true
  | _ => false

/-- The last checkpoint runs still; it started after these entries were queued. -/
def Started (past : List (Label Bytes Uuid)) (batch : List (PendingDelete Uuid)) : Prop :=
  ∃ before after, past = before ++ .start :: after ∧ (∀ l ∈ after, l.ofCheckpoint = false) ∧
    ∀ e ∈ batch, .enqueue e.queued ∈ before

/-- The last checkpoint has completed; it started after these entries were queued. -/
def Completed (past : List (Label Bytes Uuid)) (batch : List (PendingDelete Uuid)) : Prop :=
  ∃ earlier after, past = earlier ++ .complete :: after ∧
    (∀ l ∈ after, l.ofCheckpoint = false) ∧ Started earlier batch

/-- What the worker does rests on a checkpoint. -/
def Worker.Covered (format : StorageFormat Bytes Uuid) (past : List (Label Bytes Uuid)) :
    Worker Uuid → Prop
  | .sleeping | .waiting _ | .returning _ => True
  | .checkpointing batch => Started past batch
  | .deleting batch rest =>
      Completed past batch ∧ (∀ x ∈ rest, x ∈ pathsOfBatch format batch) ∧
        ∀ x ∈ pathsOfBatch format batch, x ∈ rest ∨ ∃ stuck, .remove x.1 x.2 stuck ∈ past

/-- The entries whose files a worker deletes. -/
def Worker.deletes : Worker Uuid → List (PendingDelete Uuid)
  | .deleting batch _ => batch
  | _ => []

/-- What happened to files. -/
structure Recorded (format : StorageFormat Bytes Uuid) (past : List (Label Bytes Uuid))
    (s : State Bytes Uuid) : Prop where
  covered : ∀ w ∈ s.workers, w.Covered format past
  removed : ∀ e name stuck, .remove e name stuck ∈ past →
    (∃ w ∈ s.workers, e ∈ w.deletes) ∨ (e, Ending.deleted) ∈ s.finished ∨
      (e, Ending.failed) ∈ s.finished
  deleted : ∀ e, (e, Ending.deleted) ∈ s.finished → ∀ name ∈ pathsOf format e,
    ∃ stuck, .remove e name stuck ∈ past
  retained : ∀ e, (e, Ending.retained) ∈ s.finished → maxCheckpointAttempts ≤ e.attempts

omit [DecidableEq Uuid] in
theorem mem_pathsOfBatch {batch : List (PendingDelete Uuid)} {e : PendingDelete Uuid}
    {name : String} :
    (e, name) ∈ pathsOfBatch format batch ↔ e ∈ batch ∧ name ∈ pathsOf format e := by
  simp only [pathsOfBatch, List.mem_flatMap, List.mem_map, Prod.mk.injEq]
  constructor
  · rintro ⟨_, he, _, hname, rfl, rfl⟩
    exact ⟨he, hname⟩
  · rintro ⟨he, hname⟩
    exact ⟨e, he, name, hname, rfl, rfl⟩

variable {past : List (Label Bytes Uuid)} {batch : List (PendingDelete Uuid)}

omit [DecidableEq Uuid] in
private theorem Started.snoc (h : Started past batch) (hlabel : label.ofCheckpoint = false) :
    Started (past ++ [label]) batch := by
  obtain ⟨before, after, rfl, hafter, hbatch⟩ := h
  refine ⟨before, after ++ [label], by simp, ?_, hbatch⟩
  intro l hl
  rcases List.mem_append.mp hl with hl | hl
  · exact hafter l hl
  · rw [List.mem_singleton.mp hl, hlabel]

omit [DecidableEq Uuid] in
private theorem Completed.snoc (h : Completed past batch) (hlabel : label.ofCheckpoint = false) :
    Completed (past ++ [label]) batch := by
  obtain ⟨earlier, after, rfl, hafter, hstarted⟩ := h
  refine ⟨earlier, after ++ [label], by simp, ?_, hstarted⟩
  intro l hl
  rcases List.mem_append.mp hl with hl | hl
  · exact hafter l hl
  · rw [List.mem_singleton.mp hl, hlabel]

omit [DecidableEq Uuid] in
/-- Only a checkpoint uncovers a worker. -/
private theorem Worker.Covered.snoc {w : Worker Uuid} (h : w.Covered format past)
    (hlabel : label.ofCheckpoint = false) : w.Covered format (past ++ [label]) := by
  cases w with
  | sleeping => trivial
  | waiting batch => trivial
  | checkpointing batch => exact Started.snoc h hlabel
  | returning retry => trivial
  | deleting batch rest =>
      obtain ⟨hcompleted, hrest, hpaths⟩ := h
      refine ⟨hcompleted.snoc hlabel, hrest, fun x hx => ?_⟩
      rcases hpaths x hx with hx | ⟨stuck, hremoved⟩
      · exact .inl hx
      · exact .inr ⟨stuck, List.mem_append_left _ hremoved⟩

omit [DecidableEq Uuid] in
/-- What a step has to leave: its workers are covered, and what they were deleting they
still are, or it is finished. -/
private theorem Recorded.snoc (h : Recorded format past s)
    (hcovered : ∀ w ∈ s'.workers, w.Covered format (past ++ [label]))
    (hlabel : ∀ e name stuck, label = .remove e name stuck → ∃ w ∈ s'.workers, e ∈ w.deletes)
    (hdeletes : ∀ w ∈ s.workers, ∀ e ∈ w.deletes, (∃ w' ∈ s'.workers, e ∈ w'.deletes) ∨
      (e, Ending.deleted) ∈ s'.finished ∨ (e, Ending.failed) ∈ s'.finished)
    (concluded : List (PendingDelete Uuid × Ending))
    (hfinished : s'.finished = s.finished ++ concluded)
    (hdeleted : ∀ e, (e, Ending.deleted) ∈ concluded → ∀ name ∈ pathsOf format e,
      ∃ stuck, .remove e name stuck ∈ past)
    (hretained : ∀ e, (e, Ending.retained) ∈ concluded → maxCheckpointAttempts ≤ e.attempts) :
    Recorded format (past ++ [label]) s' := by
  refine ⟨hcovered, ?_, ?_, ?_⟩
  · intro e name stuck hremoved
    rcases List.mem_append.mp hremoved with hremoved | hnow
    · rcases h.removed e name stuck hremoved with ⟨w, hw, he⟩ | hdone | hdone
      · exact hdeletes w hw e he
      · exact .inr (.inl (hfinished ▸ List.mem_append_left _ hdone))
      · exact .inr (.inr (hfinished ▸ List.mem_append_left _ hdone))
    · exact .inl (hlabel e name stuck (List.mem_singleton.mp hnow).symm)
  · intro e he name hname
    rw [hfinished] at he
    obtain ⟨stuck, hremoved⟩ : ∃ stuck, .remove e name stuck ∈ past := by
      rcases List.mem_append.mp he with he | he
      · exact h.deleted e he name hname
      · exact hdeleted e he name hname
    exact ⟨stuck, List.mem_append_left _ hremoved⟩
  · intro e he
    rw [hfinished] at he
    rcases List.mem_append.mp he with he | he
    · exact h.retained e he
    · exact hretained e he

omit [DecidableEq Uuid] in
/-- A step that concludes nothing, and leaves its workers as they were or fresh. -/
private theorem Recorded.frame (h : Recorded format past s) (hlabel : label.ofCheckpoint = false)
    (hremove : ∀ e name stuck, label ≠ .remove e name stuck)
    (hworkers : ∀ w ∈ s.workers, w ∈ s'.workers)
    (hfresh : ∀ w ∈ s'.workers, w ∈ s.workers ∨ w = .sleeping)
    (hfinished : s'.finished = s.finished) : Recorded format (past ++ [label]) s' := by
  refine h.snoc ?_ ?_ ?_ [] (by rw [hfinished, List.append_nil]) (by simp) (by simp)
  · intro w hw
    rcases hfresh w hw with hw | rfl
    · exact (h.covered w hw).snoc hlabel
    · trivial
  · intro e name stuck heq
    exact absurd heq (hremove e name stuck)
  · intro w hw e he
    exact .inl ⟨w, hworkers w hw, he⟩

omit [DecidableEq Uuid] in
/-- A step of the one worker there is. -/
private theorem Recorded.works (h : Recorded format past s) (hcontrolled : Controlled s)
    {before after : List (Worker Uuid)} {w w' : Worker Uuid}
    (hworkers : s.workers = before ++ w :: after) (hworkers' : s'.workers = before ++ w' :: after)
    (hcovered : w'.Covered format (past ++ [label]))
    (hlabel : ∀ e name stuck, label = .remove e name stuck → e ∈ w'.deletes)
    {concluded : List (PendingDelete Uuid × Ending)}
    (hfinished : s'.finished = s.finished ++ concluded)
    (hdeletes : ∀ e ∈ w.deletes, e ∈ w'.deletes ∨ (e, Ending.deleted) ∈ concluded ∨
      (e, Ending.failed) ∈ concluded)
    (hdeleted : ∀ e, (e, Ending.deleted) ∈ concluded → ∀ name ∈ pathsOf format e,
      ∃ stuck, .remove e name stuck ∈ past)
    (hretained : ∀ e, (e, Ending.retained) ∈ concluded → maxCheckpointAttempts ≤ e.attempts) :
    Recorded format (past ++ [label]) s' := by
  obtain ⟨rfl, rfl, -⟩ := hcontrolled.single hworkers
  have honly : w' ∈ s'.workers := by simp [hworkers']
  refine h.snoc ?_ ?_ ?_ _ hfinished hdeleted hretained
  · intro v hv
    rw [hworkers'] at hv
    rw [List.mem_singleton.mp hv]
    exact hcovered
  · intro e name stuck heq
    exact ⟨w', honly, hlabel e name stuck heq⟩
  · intro v hv e he
    rw [hworkers] at hv
    rw [List.mem_singleton.mp hv] at he
    rcases hdeletes e he with he | he | he
    · exact .inl ⟨w', honly, he⟩
    · exact .inr (.inl (hfinished ▸ List.mem_append_right _ he))
    · exact .inr (.inr (hfinished ▸ List.mem_append_right _ he))

omit [DecidableEq Uuid] in
private theorem Recorded.covers (h : Recorded format past s) {before after : List (Worker Uuid)}
    {w : Worker Uuid} (hworkers : s.workers = before ++ w :: after) : w.Covered format past := by
  apply h.covered
  rw [hworkers]
  simp

/-- What a worker holds was queued before. -/
private theorem Accounted.queued_before (h : Accounted past s) {before after : List (Worker Uuid)}
    {w : Worker Uuid} (hworkers : s.workers = before ++ w :: after) :
    ∀ e ∈ w.batch, .enqueue e.queued ∈ past := by
  intro e he
  have hmem : e ∈ s.unfinished ++ s.finished.map Prod.fst := by
    simp only [State.unfinished, List.mem_append, List.mem_flatMap]
    exact .inl (.inr ⟨w, by simp [hworkers], he⟩)
  have hqueued := h.entries.subset (List.mem_map_of_mem (f := PendingDelete.queued) hmem)
  obtain ⟨l, hl, heq⟩ := List.mem_filterMap.mp hqueued
  cases l with
  | enqueue e' =>
      obtain rfl : e' = e.queued := Option.some.inj heq
      exact hl
  | _ => exact absurd heq (by simp [Label.enqueued])

theorem QueueStep.recorded (hstep : QueueStep format s label s') (hcontrolled : Controlled s)
    (haccounted : Accounted past s) (h : Recorded format past s) :
    Recorded format (past ++ [label]) s' := by
  cases hstep with
  | register owner => exact h.frame rfl (by simp) (fun _ => id) (fun _ => .inl) rfl
  | drop _ => exact h.frame rfl (by simp) (fun _ => id) (fun _ => .inl) rfl
  | enqueue _ _ _ => exact h.frame rfl (by simp) (fun _ => id) (fun _ => .inl) rfl
  | others dir => exact h.frame rfl (by simp) (fun _ => id) (fun _ => .inl) rfl
  | spawn _ =>
      refine h.frame rfl (by simp) (fun _ => List.mem_append_left _) ?_ rfl
      intro w hw
      rcases List.mem_append.mp hw with hw | hw
      · exact .inl hw
      · exact .inr (List.mem_singleton.mp hw)
  | take hworkers _ =>
      exact h.works hcontrolled hworkers rfl trivial (by simp) (List.append_nil _).symm
        (by simp [Worker.deletes]) (by simp) (by simp)
  | stop hworkers _ =>
      obtain ⟨rfl, rfl, -⟩ := hcontrolled.single hworkers
      refine h.snoc (by simp) (by simp) ?_ [] (List.append_nil _).symm (by simp)
        (by simp)
      intro w hw e he
      rw [hworkers] at hw
      rw [List.mem_singleton.mp hw] at he
      exact absurd he (by simp [Worker.deletes])
  | start hworkers =>
      refine h.works hcontrolled hworkers rfl ?_ (by simp) (List.append_nil _).symm
        (by simp [Worker.deletes]) (by simp) (by simp)
      exact ⟨past, [], rfl, by simp, haccounted.queued_before hworkers⟩
  | complete hworkers =>
      have hstarted := h.covers hworkers
      refine h.works hcontrolled hworkers rfl ?_ (by simp) (List.append_nil _).symm
        (by simp [Worker.deletes]) (by simp) (by simp)
      exact ⟨⟨past, [], rfl, by simp, hstarted⟩, fun _ => id, fun _ => .inl⟩
  | fail hworkers =>
      refine h.works hcontrolled hworkers rfl trivial (by simp) rfl (by simp [Worker.deletes])
        (by simp) ?_
      intro e he
      obtain ⟨e', he', heq⟩ := List.mem_map.mp he
      obtain rfl : e' = e := (Prod.mk.inj heq).1
      rw [tried, List.partition_eq_filter_filter] at he'
      exact of_decide_eq_true (List.mem_filter.mp he').2
  | putBack hworkers =>
      exact h.works hcontrolled hworkers rfl trivial (by simp) (List.append_nil _).symm
        (by simp [Worker.deletes]) (by simp) (by simp)
  | @remove before after batch e name rest stuck hworkers =>
      obtain ⟨hcompleted, hrest, hpaths⟩ := h.covers hworkers
      refine h.works hcontrolled hworkers rfl ⟨hcompleted.snoc rfl, ?_, ?_⟩ ?_
        (List.append_nil _).symm (fun _ => .inl) (by simp) (by simp)
      · exact fun x hx => hrest x (List.mem_cons_of_mem _ hx)
      · intro x hx
        rcases hpaths x hx with hx | ⟨stuck, hremoved⟩
        · rcases List.mem_cons.mp hx with rfl | hx
          · exact .inr ⟨stuck, by simp⟩
          · exact .inl hx
        · exact .inr ⟨stuck, List.mem_append_left _ hremoved⟩
      · intro e' name' stuck' heq
        obtain ⟨rfl, -, -⟩ := Label.remove.inj heq
        exact (mem_pathsOfBatch.mp (hrest _ List.mem_cons_self)).1
  | removalFailed hworkers =>
      refine h.works hcontrolled hworkers rfl trivial (by simp) rfl ?_ (by simp) (by simp)
      intro e he
      exact .inr (.inr (List.mem_map_of_mem he))
  | finish hworkers =>
      obtain ⟨-, -, hpaths⟩ := h.covers hworkers
      refine h.works hcontrolled hworkers rfl trivial (by simp) rfl ?_ ?_ (by simp)
      · intro e he
        exact .inr (.inl (List.mem_map_of_mem he))
      · intro e he name hname
        obtain ⟨e', he', heq⟩ := List.mem_map.mp he
        obtain rfl : e' = e := (Prod.mk.inj heq).1
        rcases hpaths (e', name) (mem_pathsOfBatch.mpr ⟨he', hname⟩) with hrest | hremoved
        · exact absurd hrest List.not_mem_nil
        · exact hremoved

/-! ## Any interleaving -/

/-- What holds of the queue after anything that can happen. -/
structure Safe (format : StorageFormat Bytes Uuid) (past : List (Label Bytes Uuid))
    (s : State Bytes Uuid) : Prop where
  controlled : Controlled s
  accounted : Accounted past s
  recorded : Recorded format past s

theorem safe_start (dir : IngestDir Bytes) : Safe format [] (.start dir) where
  controlled := ⟨rfl, fun _ => rfl⟩
  accounted := ⟨.refl _, .refl _, Guards.counts_empty⟩
  recorded := ⟨by simp [State.start], by simp, by simp [State.start], by simp [State.start]⟩

theorem safe_run {dir : IngestDir Bytes} {labels : List (Label Bytes Uuid)}
    (hrun : Run (QueueStep format) (.start dir) labels s) : Safe format labels s := by
  apply hrun.history (Safe format) _ (safe_start dir)
  intro past s label s' h hstep
  exact ⟨hstep.controlled h.controlled, (hstep.effect h.controlled).accounted h.accounted,
    hstep.recorded h.controlled h.accounted h.recorded⟩

/-- A step that changes the ingest directory, and is not somebody else's, removes a file. -/
theorem QueueStep.dir_eq (hstep : QueueStep format s label s') :
    s'.dir = s.dir ∨ (∃ e name, label = .remove e name false ∧ s'.dir = s.dir.deletePaths [name]) ∨
      ∃ dir, label = .others dir := by
  cases hstep with
  | @remove before after batch e name rest stuck hworkers =>
      cases stuck with
      | true => exact .inl rfl
      | false => exact .inr (.inl ⟨e, name, rfl, rfl⟩)
  | others dir => exact .inr (.inr ⟨dir, rfl⟩)
  | _ => exact .inl rfl

/-- Behind a removal is a checkpoint that completed, and started after the entry was
queued. -/
theorem Safe.removes (h : Safe format past s) {e : PendingDelete Uuid} {name : String}
    {stuck : Bool} (hstep : QueueStep format s (.remove e name stuck) s') :
    name ∈ pathsOf format e ∧ ∃ first second third last,
      past = first ++ .enqueue e.queued :: second ++ .start :: third ++ .complete :: last ∧
        ∀ l ∈ third ++ last, l.ofCheckpoint = false := by
  cases hstep with
  | remove hworkers =>
      obtain ⟨⟨earlier, last, rfl, hlast, before, third, rfl, hthird, hbatch⟩, hrest, -⟩ :=
        h.recorded.covers hworkers
      obtain ⟨he, hname⟩ := mem_pathsOfBatch.mp (hrest _ List.mem_cons_self)
      obtain ⟨first, second, rfl⟩ := List.append_of_mem (hbatch e he)
      refine ⟨hname, first, second, third, last, rfl, fun l hl => ?_⟩
      rcases List.mem_append.mp hl with hl | hl
      · exact hthird l hl
      · exact hlast l hl

omit [DecidableEq Uuid] in
theorem Worker.deletes_subset {w : Worker Uuid} {e : PendingDelete Uuid} (he : e ∈ w.deletes) :
    e ∈ w.batch := by
  cases w with
  | deleting batch rest => exact he
  | _ => exact absurd he List.not_mem_nil

/-- An entry has one ending, and none while it is not finished. -/
theorem Safe.not_removed (h : Safe format past s) {e e' : PendingDelete Uuid}
    (he : (e, Ending.retained) ∈ s.finished) (hid : e'.id = e.id) (name : String)
    (stuck : Bool) : .remove e' name stuck ∉ past := by
  intro hremoved
  have hids : ((s.unfinished ++ s.finished.map Prod.fst).map PendingDelete.id).Nodup :=
    h.accounted.ids.nodup_iff.mpr List.nodup_range
  rw [List.map_append, List.nodup_append, List.map_map] at hids
  obtain ⟨-, hfinished, hdisjoint⟩ := hids
  have hending : ∀ ending, (e', ending) ∈ s.finished → ending = .retained := by
    intro ending hmem
    have hsame := List.inj_on_of_nodup_map hfinished hmem he hid
    exact (Prod.mk.inj hsame).2
  rcases h.recorded.removed e' name stuck hremoved with ⟨w, hw, hdeletes⟩ | hdone | hdone
  · have hunfinished : e' ∈ s.unfinished := by
      simp only [State.unfinished, List.mem_append, List.mem_flatMap]
      exact .inr ⟨w, hw, Worker.deletes_subset hdeletes⟩
    exact hdisjoint _ (List.mem_map_of_mem hunfinished) _ (List.mem_map_of_mem he) hid
  · exact absurd (hending _ hdone) (by simp)
  · exact absurd (hending _ hdone) (by simp)

/-- The queue in every interleaving.  Without a worker, running or about to be spawned,
nothing is pending, and there is at most one.  Every entry that was queued is in one place:
pending, in the worker's batch, or finished.  A file is removed for an entry only after the
last checkpoint completed, which started after the entry was queued, and no other step of the
queue touches a file.  Nothing is removed for
an entry that ends with its attempts exhausted, and one that ends deleted had each of its
files tried.  Until it ends, its guard is held. -/
theorem queue_safety {dir : IngestDir Bytes} {labels : List (Label Bytes Uuid)}
    (hrun : Run (QueueStep format) (.start dir) labels s) :
    ((s.workerRunning = false ↔ s.workers = [] ∧ s.starting = 0) ∧
      (s.workerRunning = false → s.pending = []) ∧ s.workers.length + s.starting ≤ 1) ∧
    (((s.unfinished ++ s.finished.map Prod.fst).map PendingDelete.queued).Perm
        (labels.filterMap Label.enqueued) ∧
      ((s.unfinished ++ s.finished.map Prod.fst).map PendingDelete.id).Nodup) ∧
    (∀ past e name stuck rest, labels = past ++ .remove e name stuck :: rest →
      name ∈ pathsOf format e ∧ ∃ first second third last,
        past = first ++ .enqueue e.queued :: second ++ .start :: third ++ .complete :: last ∧
          ∀ l ∈ third ++ last, l.ofCheckpoint = false) ∧
    (∀ label s', QueueStep format s label s' → s'.dir = s.dir ∨
      (∃ e name, label = .remove e name false ∧ s'.dir = s.dir.deletePaths [name]) ∨
        ∃ dir, label = .others dir) ∧
    (∀ e, (e, Ending.retained) ∈ s.finished → maxCheckpointAttempts ≤ e.attempts ∧
      ∀ e' name stuck, e'.id = e.id → .remove e' name stuck ∉ labels) ∧
    (∀ e ∈ s.unfinished, s.inFlight.contains e.owner = true) ∧
    ∀ e, (e, Ending.deleted) ∈ s.finished → ∀ name ∈ pathsOf format e,
      ∃ stuck, .remove e name stuck ∈ labels := by
  have h := safe_run hrun
  have hworkers := h.controlled.workers
  refine ⟨⟨?_, h.controlled.idle, ?_⟩, ⟨h.accounted.entries,
    h.accounted.ids.nodup_iff.mpr List.nodup_range⟩, ?_, fun _ _ => QueueStep.dir_eq, ?_, ?_,
    h.recorded.deleted⟩
  · rw [← List.length_eq_zero_iff]
    split_ifs at hworkers with hrunning
    · simp only [hrunning, Bool.true_eq_false, false_iff, not_and]
      omega
    · have hidle : s.workerRunning = false := by simpa using hrunning
      simp only [hidle, true_iff]
      omega
  · split_ifs at hworkers <;> omega
  · rintro past e name stuck rest rfl
    obtain ⟨mid, hpast, hrest⟩ := hrun.of_append
    cases hrest with
    | cons hstep _ => exact (safe_run hpast).removes hstep
  · intro e he
    exact ⟨h.recorded.retained e he, fun e' name stuck hid => h.not_removed he hid name stuck⟩
  · intro e he
    rw [h.accounted.guards.contains_iff]
    exact List.mem_append_left _ (List.mem_map_of_mem he)

/-- A committed event of project 7. -/
private def eventOfSeven : PendingDelete SimpleUuid where
  id := 0
  projectId := 7
  eventId := "9ec79c33ec9942ab8353589fcb2e04dc"
  location := .project
  attempts := 0
  owner := (7, ⟨"9ec79c33ec9942ab8353589fcb2e04dc", by decide +kernel⟩)

private def namesOfSeven : List String :=
  ["project-7-9ec79c33ec9942ab8353589fcb2e04dc.json",
    "project-7-9ec79c33ec9942ab8353589fcb2e04dc.pending.json"]

private theorem pathsOf_eventOfSeven : pathsOf plainStorage eventOfSeven = namesOfSeven := by
  decide +kernel

/-- One event is queued, and its checkpoint completes. -/
private theorem run_eventOfSeven : ∃ s, Run (QueueStep plainStorage) (.start .empty)
    [.register eventOfSeven.owner, .enqueue eventOfSeven, .spawn, .take, .start, .complete,
      .remove eventOfSeven namesOfSeven[0] false] s := by
  have hpaths : pathsOfBatch plainStorage [eventOfSeven] =
      [(eventOfSeven, namesOfSeven[0]), (eventOfSeven, namesOfSeven[1])] := by
    rw [pathsOfBatch, List.flatMap_singleton, pathsOf_eventOfSeven]
    rfl
  obtain ⟨s, hrun, hworkers⟩ : ∃ s, Run (QueueStep plainStorage) (.start .empty)
      [.register eventOfSeven.owner, .enqueue eventOfSeven, .spawn, .take, .start, .complete] s ∧
      s.workers = [] ++ .deleting [eventOfSeven] (pathsOfBatch plainStorage [eventOfSeven]) :: [] :=
    ⟨_, .cons (.register _ _) <| .cons (.enqueue rfl rfl (by simp)) <| .cons (.spawn rfl) <|
      .cons (.take (show _ = [] ++ Worker.sleeping :: [] from rfl) (by simp [State.start])) <|
      .cons (.start (show _ = [] ++ Worker.waiting [eventOfSeven] :: [] from rfl)) <|
      .single (.complete (show _ = [] ++ Worker.checkpointing [eventOfSeven] :: [] from rfl)), rfl⟩
  rw [hpaths] at hworkers
  exact ⟨_, hrun.append (.single (.remove hworkers))⟩

theorem queue_safety_one_event :
    ∃ first second third last : List (Label PlainContent SimpleUuid),
      [.register eventOfSeven.owner, .enqueue eventOfSeven, .spawn, .take, .start, .complete] =
        first ++ .enqueue eventOfSeven :: second ++ .start :: third ++ .complete :: last := by
  obtain ⟨s, hrun⟩ := run_eventOfSeven
  obtain ⟨-, first, second, third, last, heq, -⟩ :=
    (queue_safety hrun).2.2.1 [_, _, _, _, _, _] eventOfSeven namesOfSeven[0] false [] rfl
  exact ⟨first, second, third, last, heq⟩

end Rustrak.Durability.DurabilityQueue
