import Rustrak.Retention.Storage
import Rustrak.Transition.Run
import Mathlib.Data.List.Infix

/-!
# One cleanup at a time, and the figures it leaves

`CleanupJob` of `services/storage.rs`: the storage page, the schedule and a compaction all start
their cleanup through it, and the page's figures are read and kept by it.

The figures are what a read's statements answered, each when its turn came (`figures`); which
statements there are, and how many, is left open.  The database is changed at any time, by a
cleanup or by anybody else.  A request for the figures and a read of them are tasks, whose steps are
interleaved with everything else.  The clock does not go back.
-/

namespace Rustrak.Retention

open Rustrak.Core Rustrak.Transition

inductive CleanupState
  /-- No cleanup has run since the server started. -/
  | idle
  | running
  | completed
  | failed
  deriving DecidableEq, Repr

inductive CleanupKind
  | cleanup
  | compaction
  deriving DecidableEq, Repr

structure CleanupStatus where
  state : CleanupState
  kind : CleanupKind
  removed : CleanupCounts
  startedAt : Option Int
  finishedAt : Option Int
  error : Option String
  deriving DecidableEq, Repr

def CleanupStatus.default : CleanupStatus := ⟨.idle, .cleanup, .default, none, none, none⟩

/-- What a cleanup deletes. -/
inductive CleanupPlan
  | window (olderThanDays : Int) (projectId : Option Int) (filter : CleanupFilter)
  | retention (settings : RetentionSettings)
  | compact
  deriving DecidableEq, Repr

/-- Whether the SQLite file can give freed space back, and what compacting it would take. -/
structure Compaction where
  needed : Bool
  requiredDiskBytes : Int
  freeDiskBytes : Option Int
  deriving DecidableEq, Repr

/-- An unreadable free space lets it run. -/
def Compaction.hasRoom (c : Compaction) : Bool := c.freeDiskBytes.all (c.requiredDiskBytes ≤ ·)

/-- How a cleanup ends. -/
inductive Outcome
  | counted (counts : CleanupCounts)
  | failed (error : String)
  /-- Its task stopped. -/
  | stopped
  deriving DecidableEq, Repr

/-- How long a snapshot is reused, in nanoseconds: five minutes. -/
def snapshotTtl : Int := 5 * 60 * 1000000000

/-- What a request for the figures gets, given the kept snapshot. -/
inductive Serve
  | kept
  /-- The kept one now, and a read in the background for the next request. -/
  | keptAndRefresh
  /-- A cleanup changed what is stored. -/
  | read
  deriving DecidableEq, Repr

/-- Whether a cleanup finished after a read began. -/
def cleanedSince (readAt : Int) (job : CleanupStatus) : Bool :=
  job.finishedAt.any (readAt ≤ ·)

def serve (readAt now : Int) (job : CleanupStatus) : Serve :=
  if cleanedSince readAt job then .read
  else if job.state ≠ .running ∧ snapshotTtl ≤ now - readAt then .keptAndRefresh
  else .kept

variable {D Q A : Type}

/-- What the statements of a read have answered. -/
abbrev Figures (Q A : Type) := List (Q × A)

/-- A request for the figures, or a read of them, where it has come to. -/
inductive FiguresTask (Q A : Type)
  | asking (askedAt : Int)
  /-- Has read the kept snapshot. -/
  | looked (askedAt readAt : Int) (kept : Figures Q A)
  /-- Waits for its turn to read. -/
  | waiting
  /-- It is its turn. -/
  | entered
  | reading (readAt : Int) (figures : Figures Q A)
  /-- `none` where the read failed. -/
  | answered (figures : Option (Figures Q A))
  /-- Waits for its turn to drop the snapshot. -/
  | forgetting
  | forgotten
  deriving DecidableEq

structure CleanupJob (D Q A : Type) where
  now : Int
  db : D
  status : CleanupStatus
  /-- The cleanups that were spawned and have not come back. -/
  executing : List CleanupPlan
  /-- When the read of the kept snapshot began, and its figures. -/
  kept : Option (Int × Figures Q A)
  /-- Whether `reading` is held. -/
  held : Bool
  tasks : List (FiguresTask Q A)

inductive JobLabel (D Q : Type)
  | tick (elapsed : Nat)
  /-- Something is written to the database. -/
  | write (db : D)
  | start (olderThanDays : Int) (projectId : Option Int) (filter : CleanupFilter)
  /-- The schedule's, or one asked for. -/
  | startRetention (settings : RetentionSettings)
  | startCompaction (compaction : Compaction)
  | batch (counts : CleanupCounts)
  /-- A cleanup comes back. -/
  | finish (execution : Nat) (outcome : Outcome)
  | snapshot
  | warmSnapshot
  | forgetSnapshot
  | advance (task : Nat)
  /-- A read's next statement. -/
  | ask (task : Nat) (query : Q)
  /-- A read's next statement fails. -/
  | fail (task : Nat)

namespace CleanupJob

variable (answer : Q → D → A) (j : CleanupJob D Q A)

/-- Marks the job `running`, or refuses while it already is. -/
def beginKind (kind : CleanupKind) : AppResult (CleanupJob D Q A) :=
  if j.status.state = .running then .error (.conflict "A storage cleanup is already running")
  else .ok { j with
    status := { CleanupStatus.default with state := .running, kind, startedAt := some j.now } }

def spawn (plan : CleanupPlan) : CleanupJob D Q A := { j with executing := j.executing ++ [plan] }

def start (olderThanDays : Int) (projectId : Option Int) (filter : CleanupFilter) :
    AppResult (CleanupJob D Q A) := do
  validateRetention olderThanDays
  let started ← j.beginKind .cleanup
  return started.spawn (.window olderThanDays projectId filter)

/-- `run_retention` and `start_retention`. -/
def startRetention (settings : RetentionSettings) : AppResult (CleanupJob D Q A) := do
  settings.validate
  let started ← j.beginKind .cleanup
  return started.spawn (.retention settings)

def startCompaction (compaction : Compaction) : AppResult (CleanupJob D Q A) := do
  ensure compaction.needed
    (.validation "This database already gives the space it frees back to the disk")
  let mebibytes := compaction.requiredDiskBytes.tdiv (1024 * 1024)
  ensure compaction.hasRoom
    (.validation s!"Compacting needs {mebibytes} MiB free on the database's disk")
  let started ← j.beginKind .compaction
  return started.spawn .compact

/-- `on_batch`. -/
def batch (counts : CleanupCounts) : CleanupJob D Q A :=
  if j.executing = [] then j else { j with status := { j.status with removed := counts } }

/-- The end of `execute`. -/
def finish (execution : Nat) (outcome : Outcome) : CleanupJob D Q A :=
  let finished := { j.status with finishedAt := some j.now }
  let status :=
    match outcome with
    | .counted counts => { finished with state := .completed, removed := counts }
    | .failed error => { finished with state := .failed, error := some error }
    | .stopped =>
        { finished with state := .failed, error := some "The cleanup stopped unexpectedly" }
  if execution < j.executing.length then
    { j with status, executing := j.executing.eraseIdx execution }
  else j

def setTask (i : Nat) (task : FiguresTask Q A) : CleanupJob D Q A :=
  { j with tasks := j.tasks.set i task }

def addTask (task : FiguresTask Q A) : CleanupJob D Q A := { j with tasks := j.tasks ++ [task] }

/-- The next step of a task. -/
def advance (i : Nat) : FiguresTask Q A → CleanupJob D Q A
  | .asking askedAt =>
      match j.kept with
      | some (readAt, figures) => j.setTask i (.looked askedAt readAt figures)
      | none => j.setTask i .waiting
  | .looked askedAt readAt figures =>
      match serve readAt askedAt j.status with
      | .kept => j.setTask i (.answered (some figures))
      | .keptAndRefresh =>
          -- A read already running is the refresh.
          if j.held then j.setTask i (.answered (some figures))
          else ({ j with held := true }.setTask i (.answered (some figures))).addTask
            (.reading askedAt [])
      | .read => j.setTask i .waiting
  | .waiting => if j.held then j else { j with held := true }.setTask i .entered
  | .entered =>
      match j.kept with
      | some (readAt, figures) =>
          if cleanedSince readAt j.status then j.setTask i (.reading j.now [])
          else { j with held := false }.setTask i (.answered (some figures))
      | none => j.setTask i (.reading j.now [])
  | .reading readAt figures =>
      { j with kept := some (readAt, figures), held := false }.setTask i (.answered (some figures))
  | .forgetting => if j.held then j else { j with kept := none }.setTask i .forgotten
  | .answered _ | .forgotten => j

/-- The next statement of a read. -/
def ask (i : Nat) (query : Q) : FiguresTask Q A → CleanupJob D Q A
  | .reading readAt figures =>
      j.setTask i (.reading readAt (figures ++ [(query, answer query j.db)]))
  | _ => j

/-- A read that fails. -/
def fail (i : Nat) : FiguresTask Q A → CleanupJob D Q A
  | .reading _ _ => { j with held := false }.setTask i (.answered none)
  | _ => j

/-- A start, where it is not refused. -/
def started (result : AppResult (CleanupJob D Q A)) : CleanupJob D Q A := result.toOption.getD j

def step : JobLabel D Q → CleanupJob D Q A
  | .tick elapsed => { j with now := j.now + elapsed }
  | .write db => { j with db }
  | .start olderThanDays projectId filter => j.started (j.start olderThanDays projectId filter)
  | .startRetention settings => j.started (j.startRetention settings)
  | .startCompaction compaction => j.started (j.startCompaction compaction)
  | .batch counts => j.batch counts
  | .finish execution outcome => j.finish execution outcome
  | .snapshot => j.addTask (.asking j.now)
  | .warmSnapshot => j.addTask .waiting
  | .forgetSnapshot => { j with kept := none }.addTask .forgetting
  | .advance i => (j.tasks[i]?).elim j (j.advance i)
  | .ask i query => (j.tasks[i]?).elim j (j.ask answer i query)
  | .fail i => (j.tasks[i]?).elim j (j.fail i)

end CleanupJob

/-- `CleanupJob.step` as a relation. -/
def JobStep (answer : Q → D → A) (j : CleanupJob D Q A) (label : JobLabel D Q)
    (j' : CleanupJob D Q A) : Prop :=
  j' = j.step answer label

/-- The job of a server that has just started. -/
def CleanupJob.fresh (now : Int) (db : D) : CleanupJob D Q A :=
  ⟨now, db, .default, [], none, false, []⟩

/-! ## What a step can do -/

/-- A start that is not refused. -/
def CleanupJob.begun (j : CleanupJob D Q A) (kind : CleanupKind) (plan : CleanupPlan) :
    CleanupJob D Q A :=
  { j with
    status := { CleanupStatus.default with state := .running, kind, startedAt := some j.now }
    executing := j.executing ++ [plan] }

/-- A step of a task that leaves the lock and the kept snapshot alone. -/
inductive TaskMove (answer : Q → D → A) (j : CleanupJob D Q A) :
    FiguresTask Q A → FiguresTask Q A → Prop
  | looks {askedAt readAt : Int} {figures : Figures Q A} :
      j.kept = some (readAt, figures) →
        TaskMove answer j (.asking askedAt) (.looked askedAt readAt figures)
  | findsNothing {askedAt : Int} : TaskMove answer j (.asking askedAt) .waiting
  | serves {askedAt readAt : Int} {figures : Figures Q A} :
      cleanedSince readAt j.status = false →
        TaskMove answer j (.looked askedAt readAt figures) (.answered (some figures))
  | distrusts {askedAt readAt : Int} {figures : Figures Q A} :
      TaskMove answer j (.looked askedAt readAt figures) .waiting
  | reads : TaskMove answer j .entered (.reading j.now [])
  | asks {readAt : Int} {figures : Figures Q A} (query : Q) :
      TaskMove answer j (.reading readAt figures)
        (.reading readAt (figures ++ [(query, answer query j.db)]))

/-- Everything a step can do. -/
inductive JobEffect (answer : Q → D → A) (j : CleanupJob D Q A) : CleanupJob D Q A → Prop
  | same : JobEffect answer j j
  | ticks (elapsed : Nat) : JobEffect answer j { j with now := j.now + elapsed }
  | writes (db : D) : JobEffect answer j { j with db }
  | begins (kind : CleanupKind) (plan : CleanupPlan) :
      j.status.state ≠ .running → JobEffect answer j (j.begun kind plan)
  | batches (counts : CleanupCounts) :
      j.executing ≠ [] →
        JobEffect answer j { j with status := { j.status with removed := counts } }
  | ends {execution : Nat} (outcome : Outcome) :
      execution < j.executing.length → JobEffect answer j (j.finish execution outcome)
  | asksFor : JobEffect answer j (j.addTask (.asking j.now))
  | warms : JobEffect answer j (j.addTask .waiting)
  | drops : JobEffect answer j ({ j with kept := none }.addTask .forgetting)
  | moves {i : Nat} {task next : FiguresTask Q A} :
      j.tasks[i]? = some task → TaskMove answer j task next →
        JobEffect answer j (j.setTask i next)
  | refreshes {i : Nat} {askedAt readAt : Int} {figures : Figures Q A} :
      j.tasks[i]? = some (.looked askedAt readAt figures) → j.held = false →
      cleanedSince readAt j.status = false → readAt < askedAt →
        JobEffect answer j (({ j with held := true }.setTask i (.answered (some figures))).addTask
          (.reading askedAt []))
  | enters {i : Nat} :
      j.tasks[i]? = some .waiting → j.held = false →
        JobEffect answer j ({ j with held := true }.setTask i .entered)
  | shares {i : Nat} {readAt : Int} {figures : Figures Q A} :
      j.tasks[i]? = some .entered → j.kept = some (readAt, figures) →
      cleanedSince readAt j.status = false →
        JobEffect answer j ({ j with held := false }.setTask i (.answered (some figures)))
  | stores {i : Nat} {readAt : Int} {figures : Figures Q A} :
      j.tasks[i]? = some (.reading readAt figures) →
        JobEffect answer j ({ j with kept := some (readAt, figures), held := false }.setTask i
          (.answered (some figures)))
  | fails {i : Nat} {readAt : Int} {figures : Figures Q A} :
      j.tasks[i]? = some (.reading readAt figures) →
        JobEffect answer j ({ j with held := false }.setTask i (.answered none))
  | forgets {i : Nat} :
      j.tasks[i]? = some .forgetting → j.held = false →
        JobEffect answer j ({ j with kept := none }.setTask i .forgotten)

section Serving

variable {readAt now : Int} {job : CleanupStatus}

theorem not_cleaned_of_serve {served : Serve} (h : serve readAt now job = served)
    (hserved : served ≠ .read) : cleanedSince readAt job = false := by
  by_contra hcleaned
  exact hserved (by simp [← h, serve, hcleaned])

/-- A snapshot is refreshed by a later read only. -/
theorem lt_of_serve (h : serve readAt now job = .keptAndRefresh) : readAt < now := by
  unfold serve at h
  split_ifs at h with hcleaned hold
  have hage := hold.2
  unfold snapshotTtl at hage
  omega

end Serving

namespace CleanupJob

variable {answer : Q → D → A} {j j' : CleanupJob D Q A} {label : JobLabel D Q}

theorem beginKind_eq (kind : CleanupKind) (plan : CleanupPlan) :
    (do let started ← j.beginKind kind; return started.spawn plan) =
      if j.status.state = .running then
        (.error (.conflict "A storage cleanup is already running") : AppResult (CleanupJob D Q A))
      else .ok (j.begun kind plan) := by
  unfold beginKind
  split <;> rfl

/-- Whatever a start checks first, it does nothing or begins. -/
theorem started_cases (checks : AppResult PUnit) (kind : CleanupKind) (plan : CleanupPlan) :
    JobEffect answer j (j.started (do
      checks
      let started ← j.beginKind kind
      return started.spawn plan)) := by
  rw [beginKind_eq]
  cases checks with
  | error e => exact .same
  | ok _ =>
      by_cases hrunning : j.status.state = .running
      · rw [if_pos hrunning]
        exact .same
      · rw [if_neg hrunning]
        exact .begins kind plan hrunning

theorem advance_effect {i : Nat} {task : FiguresTask Q A} (hi : j.tasks[i]? = some task) :
    JobEffect answer j (j.advance i task) := by
  cases task with
  | asking askedAt =>
      unfold advance
      cases hkept : j.kept with
      | none => exact .moves hi .findsNothing
      | some kept => exact .moves hi (.looks hkept)
  | looked askedAt readAt figures =>
      simp only [advance]
      cases hserve : serve readAt askedAt j.status with
      | kept => exact .moves hi (.serves (not_cleaned_of_serve hserve (by decide)))
      | keptAndRefresh =>
          have hclean := not_cleaned_of_serve hserve (by decide)
          cases hheld : j.held with
          | true => exact .moves hi (.serves hclean)
          | false => exact .refreshes hi hheld hclean (lt_of_serve hserve)
      | read => exact .moves hi .distrusts
  | waiting =>
      simp only [advance]
      split_ifs with hheld
      · exact .same
      · exact .enters hi (by simpa using hheld)
  | entered =>
      simp only [advance]
      split
      next readAt figures hkept =>
        split_ifs with hclean
        · exact .moves hi .reads
        · exact .shares hi hkept (by simpa using hclean)
      next => exact .moves hi .reads
  | reading readAt figures => exact .stores hi
  | answered figures => exact .same
  | forgetting =>
      simp only [advance]
      split_ifs with hheld
      · exact .same
      · exact .forgets hi (by simpa using hheld)
  | forgotten => exact .same

theorem step_effect (hstep : JobStep answer j label j') : JobEffect answer j j' := by
  subst hstep
  cases label with
  | tick elapsed => exact .ticks elapsed
  | write db => exact .writes db
  | start olderThanDays projectId filter => exact started_cases _ _ _
  | startRetention settings => exact started_cases _ _ _
  | startCompaction compaction =>
      simpa [step, startCompaction] using started_cases (do
        ensure compaction.needed
          (.validation "This database already gives the space it frees back to the disk")
        let mebibytes := compaction.requiredDiskBytes.tdiv (1024 * 1024)
        ensure compaction.hasRoom
          (.validation s!"Compacting needs {mebibytes} MiB free on the database's disk"))
        .compaction .compact
  | batch counts =>
      simp only [step, batch]
      split_ifs with hnone
      · exact .same
      · exact .batches counts hnone
  | finish execution outcome =>
      by_cases hexecution : execution < j.executing.length
      · exact .ends outcome hexecution
      · simpa [step, finish, hexecution] using .same
  | snapshot => exact .asksFor
  | warmSnapshot => exact .warms
  | forgetSnapshot => exact .drops
  | advance i =>
      simp only [step]
      cases hi : j.tasks[i]? with
      | none => exact .same
      | some task => exact advance_effect hi
  | ask i query =>
      simp only [step]
      cases hi : j.tasks[i]? with
      | none => exact .same
      | some task =>
          cases task with
          | reading readAt figures => exact .moves hi (.asks query)
          | _ => exact .same
  | fail i =>
      simp only [step]
      cases hi : j.tasks[i]? with
      | none => exact .same
      | some task =>
          cases task with
          | reading readAt figures => exact .fails hi
          | _ => exact .same

end CleanupJob

/-! ## One at a time -/

/-- When the cleanup shown began and ended, and the error of one that failed. -/
def CleanupStatus.Sound (now : Int) (s : CleanupStatus) : Prop :=
  match s.state with
  | .idle => s = .default
  | .running => (∃ started, s.startedAt = some started ∧ started ≤ now) ∧ s.finishedAt = none ∧
      s.error = none
  | .completed | .failed => (∃ started finished, s.startedAt = some started ∧
      s.finishedAt = some finished ∧ started ≤ finished ∧ finished ≤ now) ∧
      (s.error.isSome ↔ s.state = .failed)

/-- Whether it has the lock. -/
def FiguresTask.holds : FiguresTask Q A → Bool
  | .entered | .reading _ _ => true
  | _ => false

/-- One cleanup runs while the status says so, and one task has the lock while it is held. -/
structure CleanupJob.Alone (j : CleanupJob D Q A) : Prop where
  executing : j.executing.length = if j.status.state = .running then 1 else 0
  sound : j.status.Sound j.now
  holding : j.tasks.countP FiguresTask.holds = j.held.toNat

theorem CleanupStatus.Sound.mono {now later : Int} {s : CleanupStatus} (h : s.Sound now)
    (hlater : now ≤ later) : s.Sound later := by
  unfold Sound at h ⊢
  cases hstate : s.state <;> simp only [hstate] at h ⊢
  · exact h
  · obtain ⟨⟨started, hstarted, hle⟩, hrest⟩ := h
    exact ⟨⟨started, hstarted, hle.trans hlater⟩, hrest⟩
  all_goals
    obtain ⟨⟨started, finished, hstarted, hfinished, hle, hnow⟩, herror⟩ := h
    exact ⟨⟨started, finished, hstarted, hfinished, hle, hnow.trans hlater⟩, herror⟩

namespace CleanupJob

variable {answer : Q → D → A} {j j' : CleanupJob D Q A} {label : JobLabel D Q}

/-- Who has the lock, as one task goes on. -/
theorem countP_holds_set {i : Nat} {task : FiguresTask Q A} (next : FiguresTask Q A)
    (hi : j.tasks[i]? = some task) :
    (j.tasks.set i next).countP FiguresTask.holds + task.holds.toNat =
      j.tasks.countP FiguresTask.holds + next.holds.toNat := by
  obtain ⟨hlt, rfl⟩ := List.getElem?_eq_some_iff.mp hi
  have hbefore := List.boole_getElem_le_countP (p := FiguresTask.holds) hlt
  have hone : ∀ c : Bool, c.toNat = if c then 1 else 0 := by
    intro c
    cases c <;> rfl
  rw [List.countP_set hlt, hone, hone]
  omega

theorem countP_holds_addTask (task : FiguresTask Q A) :
    (j.addTask task).tasks.countP FiguresTask.holds =
      j.tasks.countP FiguresTask.holds + task.holds.toNat := by
  cases h : task.holds <;> simp [addTask, h]

theorem holds_eq_of_move {task next : FiguresTask Q A} (hmove : TaskMove answer j task next) :
    next.holds = task.holds := by
  cases hmove <;> rfl

/-- While no cleanup runs, none is executing. -/
theorem Alone.executing_eq_nil (h : j.Alone) (hidle : j.status.state ≠ .running) :
    j.executing = [] := by
  have hlength := h.executing
  rw [if_neg hidle] at hlength
  exact List.eq_nil_of_length_eq_zero hlength

theorem Alone.running (h : j.Alone) (hexecuting : j.executing ≠ []) :
    j.status.state = .running := by
  by_contra hidle
  exact hexecuting (h.executing_eq_nil hidle)

theorem sound_finish {execution : Nat} (h : j.Alone) (outcome : Outcome)
    (hexecution : execution < j.executing.length) :
    (j.finish execution outcome).status.Sound j.now := by
  have hrunning := h.running (List.ne_nil_of_length_pos (by omega))
  have hsound := h.sound
  simp only [CleanupStatus.Sound, hrunning] at hsound
  obtain ⟨⟨started, hstarted, hle⟩, -, herror⟩ := hsound
  cases outcome <;> simp [finish, hexecution, CleanupStatus.Sound, hstarted, hle, herror]

theorem finish_now (execution : Nat) (outcome : Outcome) :
    (j.finish execution outcome).now = j.now := by
  unfold finish
  dsimp only
  split_ifs <;> rfl

theorem finish_executing {execution : Nat} (outcome : Outcome)
    (hexecution : execution < j.executing.length) :
    (j.finish execution outcome).executing = j.executing.eraseIdx execution := by
  simp [finish, hexecution]

/-- A finished cleanup is not running. -/
theorem finish_state {execution : Nat} (outcome : Outcome)
    (hexecution : execution < j.executing.length) :
    (j.finish execution outcome).status.state ≠ .running := by
  cases outcome <;> simp [finish, hexecution]

/-- The lock is held once, so it is free when its holder gives it up. -/
theorem Alone.releases (h : j.Alone) {i : Nat} {task next : FiguresTask Q A}
    (hi : j.tasks[i]? = some task) (htask : task.holds) (hnext : next.holds = false) :
    (j.tasks.set i next).countP FiguresTask.holds = false.toNat := by
  have hcount := countP_holds_set next hi
  have hone := Bool.toNat_le j.held
  rw [h.holding, htask, hnext] at hcount
  simp only [Bool.toNat_true, Bool.toNat_false] at hcount ⊢
  omega

theorem Alone.step (h : j.Alone) (hstep : JobStep answer j label j') : j'.Alone := by
  have ⟨hexecuting, hsound, hholding⟩ := h
  cases step_effect hstep with
  | same => exact h
  | ticks elapsed => exact ⟨hexecuting, hsound.mono (by dsimp only; omega), hholding⟩
  | writes db => exact ⟨hexecuting, hsound, hholding⟩
  | begins kind plan hidle =>
      have hnone := h.executing_eq_nil hidle
      exact ⟨by simp [begun, hnone], ⟨⟨_, rfl, le_rfl⟩, rfl, rfl⟩, hholding⟩
  | batches counts hsome =>
      have hrunning := h.running hsome
      refine ⟨hexecuting, ?_, hholding⟩
      simpa [CleanupStatus.Sound, hrunning] using hsound
  | @ends execution outcome hexecution =>
      have hrunning := h.running (List.ne_nil_of_length_pos (by omega))
      rw [if_pos hrunning] at hexecuting
      refine ⟨?_, by rw [finish_now]; exact sound_finish h outcome hexecution, ?_⟩
      · rw [finish_executing outcome hexecution, List.length_eraseIdx, if_pos hexecution,
          if_neg (finish_state outcome hexecution), hexecuting]
      · simpa [finish, hexecution] using hholding
  | asksFor => exact ⟨hexecuting, hsound, by rw [countP_holds_addTask]; exact hholding⟩
  | warms => exact ⟨hexecuting, hsound, by rw [countP_holds_addTask]; exact hholding⟩
  | drops => exact ⟨hexecuting, hsound, by rw [countP_holds_addTask]; exact hholding⟩
  | @moves i task next hi hmove =>
      have hcount := countP_holds_set next hi
      rw [holds_eq_of_move hmove, hholding] at hcount
      exact ⟨hexecuting, hsound, Nat.add_right_cancel hcount⟩
  | @refreshes i askedAt readAt figures hi hfree hclean hlt =>
      have hcount := countP_holds_set (.answered (some figures)) hi
      rw [hholding, hfree] at hcount
      refine ⟨hexecuting, hsound, ?_⟩
      rw [countP_holds_addTask]
      exact congrArg (· + 1) hcount
  | enters hi hfree =>
      have hcount := countP_holds_set .entered hi
      rw [hholding, hfree] at hcount
      exact ⟨hexecuting, hsound, hcount⟩
  | shares hi hkept hclean => exact ⟨hexecuting, hsound, h.releases hi rfl rfl⟩
  | stores hi => exact ⟨hexecuting, hsound, h.releases hi rfl rfl⟩
  | fails hi => exact ⟨hexecuting, hsound, h.releases hi rfl rfl⟩
  | forgets hi hfree =>
      have hcount := countP_holds_set .forgotten hi
      rw [hholding] at hcount
      exact ⟨hexecuting, hsound, hcount⟩

theorem alone_fresh (now : Int) (db : D) : (fresh now db : CleanupJob D Q A).Alone :=
  ⟨rfl, rfl, rfl⟩

theorem alone_of_run {now : Int} {db : D} {labels : List (JobLabel D Q)}
    (hrun : Run (JobStep answer) (fresh now db) labels j) : j.Alone :=
  hrun.invariant Alone (fun _ _ _ halone hstep => halone.step hstep) (alone_fresh now db)

/-- The database holds so many rows, and the only statement counts them. -/
def rowCount : Unit → Nat → Nat := fun _ rows => rows

/-- The page is read, a cleanup of thirty days starts, and rows go. -/
def readThenCleaned : CleanupJob Nat Unit Nat :=
  [.snapshot, .advance 0, .advance 0, .advance 0, .tick 1, .ask 0 (), .advance 0, .tick 1,
    .start 30 none ⟨true, true, true⟩, .start 7 none ⟨true, true, true⟩, .write 3,
    .tick 1].foldl (step rowCount) (fresh 0 7)

end CleanupJob

/-! ## Figures from after a given moment -/

/-- When a task asked, and when the read it has to do with began. -/
def FiguresTask.stamps : FiguresTask Q A → List Int
  | .asking askedAt => [askedAt]
  | .looked askedAt readAt _ => [askedAt, readAt]
  | .reading readAt _ => [readAt]
  | _ => []

/-- No stamp is still to come. -/
structure CleanupJob.Stamped (j : CleanupJob D Q A) : Prop where
  kept : ∀ kept, j.kept = some kept → kept.1 ≤ j.now
  tasks : ∀ (i : Nat) (task : FiguresTask Q A), j.tasks[i]? = some task → ∀ stamp ∈ task.stamps, stamp ≤ j.now

/-- The figures a task has are in `P`, where its read began at a `Good` time, where it reads for
someone new, or where it is `new` itself. -/
def FiguresTask.Fresh (Good : Int → Prop) (P : Q × A → Prop) (new : Prop) :
    FiguresTask Q A → Prop
  | .looked _ readAt figures => new → Good readAt → ∀ figure ∈ figures, P figure
  | .reading readAt figures => new ∨ Good readAt → ∀ figure ∈ figures, P figure
  | .answered figures => new → ∀ found, figures = some found → ∀ figure ∈ found, P figure
  | _ => True

/-- The kept figures are in `P` where their read began at a `Good` time, and so are those that the
tasks from the `n`-th on are given. -/
structure CleanupJob.Since (Good : Int → Prop) (P : Q × A → Prop) (n : Nat)
    (j : CleanupJob D Q A) : Prop where
  kept : ∀ readAt figures, j.kept = some (readAt, figures) → Good readAt → ∀ figure ∈ figures,
    P figure
  tasks : ∀ (i : Nat) (task : FiguresTask Q A), j.tasks[i]? = some task → task.Fresh Good P (n ≤ i)

namespace CleanupJob

variable {answer : Q → D → A} {j j' : CleanupJob D Q A} {label : JobLabel D Q}

theorem finish_eq (execution : Nat) (outcome : Outcome) :
    ∃ status executing, j.finish execution outcome = { j with status, executing } := by
  unfold finish
  dsimp only
  split_ifs
  · exact ⟨_, _, rfl⟩
  · exact ⟨j.status, j.executing, rfl⟩

theorem Stamped.move {task next : FiguresTask Q A} (h : j.Stamped) {i : Nat}
    (hi : j.tasks[i]? = some task) (hmove : TaskMove answer j task next) :
    ∀ stamp ∈ next.stamps, stamp ≤ j.now := by
  have htask := h.tasks i task hi
  cases hmove with
  | looks hkept =>
      simp only [FiguresTask.stamps, List.forall_mem_cons] at htask ⊢
      exact ⟨htask.1, h.kept _ hkept, htask.2⟩
  | reads => simp [FiguresTask.stamps]
  | asks query => exact htask
  | _ => simp [FiguresTask.stamps]

theorem Stamped.step (h : j.Stamped) (hstep : JobStep answer j label j') : j'.Stamped := by
  have ⟨hkept, htasks⟩ := h
  cases step_effect hstep with
  | ticks elapsed =>
      refine ⟨fun kept hsome => (hkept kept hsome).trans ?_,
        fun i task hi stamp hstamp => (htasks i task hi stamp hstamp).trans ?_⟩
      all_goals dsimp only; omega
  | ends outcome hexecution =>
      obtain ⟨status, executing, hfinish⟩ := finish_eq (j := j) _ outcome
      rw [hfinish]
      exact ⟨hkept, htasks⟩
  | asksFor => exact ⟨hkept, forall_append htasks (by simp [FiguresTask.stamps, addTask])⟩
  | warms => exact ⟨hkept, forall_append htasks (by simp [FiguresTask.stamps])⟩
  | drops => exact ⟨by simp [addTask], forall_append htasks (by simp [FiguresTask.stamps])⟩
  | moves hi hmove => exact ⟨hkept, forall_set htasks (h.move hi hmove)⟩
  | refreshes hi hfree hclean hlt =>
      refine ⟨hkept, forall_append (forall_set htasks (by simp [FiguresTask.stamps])) ?_⟩
      intro stamp hstamp
      obtain rfl := List.mem_singleton.mp hstamp
      exact htasks _ _ hi _ (by simp [FiguresTask.stamps])
  | enters hi hfree => exact ⟨hkept, forall_set htasks (by simp [FiguresTask.stamps])⟩
  | shares hi hsome hclean => exact ⟨hkept, forall_set htasks (by simp [FiguresTask.stamps])⟩
  | stores hi =>
      refine ⟨?_, forall_set htasks (by simp [FiguresTask.stamps])⟩
      rintro kept hsome
      obtain rfl := Option.some.inj hsome
      exact htasks _ _ hi _ (by simp [FiguresTask.stamps])
  | fails hi => exact ⟨hkept, forall_set htasks (by simp [FiguresTask.stamps])⟩
  | forgets hi hfree => exact ⟨by simp [setTask], forall_set htasks (by simp [FiguresTask.stamps])⟩
  | _ => exact ⟨hkept, htasks⟩

theorem stamped_of_run {now : Int} {db : D} {labels : List (JobLabel D Q)}
    (hrun : Run (JobStep answer) (fresh now db) labels j) : j.Stamped :=
  hrun.invariant Stamped (fun _ _ _ hstamped hstep => hstamped.step hstep)
    ⟨by simp [fresh], by simp [fresh]⟩

section Fresh

variable {Good : Int → Prop} {P : Q × A → Prop} {n : Nat}

theorem Since.move {task next : FiguresTask Q A} (h : j.Since Good P n) {i : Nat}
    (hserve : ∀ readAt, cleanedSince readAt j.status = false → Good readAt)
    (hanswer : ∀ query, P (query, answer query j.db))
    (hi : j.tasks[i]? = some task) (hmove : TaskMove answer j task next) :
    next.Fresh Good P (n ≤ i) := by
  have htask := h.tasks i task hi
  cases hmove with
  | looks hkept => exact fun _ hgood => h.kept _ _ hkept hgood
  | findsNothing => trivial
  | serves hclean =>
      intro hnew found hfound
      obtain rfl := Option.some.inj hfound
      exact htask hnew (hserve _ hclean)
  | distrusts => trivial
  | reads => exact fun _ figure hfigure => absurd hfigure List.not_mem_nil
  | asks query =>
      intro hread figure hfigure
      rcases List.mem_append.mp hfigure with hold | hnew
      · exact htask hread figure hold
      · obtain rfl := List.mem_singleton.mp hnew
        exact hanswer query

/-- What is served is in `P`, and so is what is read from now on. -/
theorem Since.step (h : j.Since Good P n)
    (hserve : ∀ readAt, cleanedSince readAt j.status = false → Good readAt)
    (hanswer : ∀ query, P (query, answer query j.db)) (hstep : JobStep answer j label j') :
    j'.Since Good P n := by
  have ⟨hkept, htasks⟩ := h
  cases step_effect hstep with
  | ends outcome hexecution =>
      obtain ⟨status, executing, hfinish⟩ := finish_eq (j := j) _ outcome
      rw [hfinish]
      exact ⟨hkept, htasks⟩
  | asksFor => exact ⟨hkept, forall_append htasks trivial⟩
  | warms => exact ⟨hkept, forall_append htasks trivial⟩
  | drops => exact ⟨by simp [addTask], forall_append htasks trivial⟩
  | moves hi hmove => exact ⟨hkept, forall_set htasks (h.move hserve hanswer hi hmove)⟩
  | refreshes hi hfree hclean hlt =>
      refine ⟨hkept, forall_append (forall_set htasks ?_) ?_⟩
      · exact h.move hserve hanswer hi (.serves hclean)
      · exact fun _ figure hfigure => absurd hfigure List.not_mem_nil
  | enters hi hfree => exact ⟨hkept, forall_set htasks trivial⟩
  | shares hi hsome hclean =>
      refine ⟨hkept, forall_set htasks fun _ found hfound => ?_⟩
      obtain rfl := Option.some.inj hfound
      exact hkept _ _ hsome (hserve _ hclean)
  | stores hi =>
      have htask := htasks _ _ hi
      refine ⟨fun readAt figures hsome hgood => ?_, forall_set htasks fun hnew found hfound => ?_⟩
      · obtain ⟨rfl, rfl⟩ := Prod.mk.inj (Option.some.inj hsome)
        exact htask (.inr hgood)
      · obtain rfl := Option.some.inj hfound
        exact htask (.inl hnew)
  | fails hi => exact ⟨hkept, forall_set htasks fun _ found hfound => by cases hfound⟩
  | forgets hi hfree => exact ⟨by simp [setTask], forall_set htasks trivial⟩
  | _ => exact ⟨hkept, htasks⟩

end Fresh

/-- A figure that was read from the database on the way from `s` to `t`. -/
def ReadOn (answer : Q → D → A) (s : CleanupJob D Q A) (labels : List (JobLabel D Q))
    (t : CleanupJob D Q A) (figure : Q × A) : Prop :=
  ∃ u, Visits (JobStep answer) s labels t u ∧ figure.2 = answer figure.1 u.db

theorem finish_status_finishedAt {execution : Nat} (outcome : Outcome)
    (hexecution : execution < j.executing.length) :
    (j.finish execution outcome).status.finishedAt = some j.now := by
  cases outcome <;> simp [finish, hexecution]

/-- Between two cleanups the status stays as the first left it. -/
theorem status_eq_of_idle (h : j.Alone) (hstep : JobStep answer j label j')
    (hidle : j.status.state ≠ .running) (hidle' : j'.status.state ≠ .running) :
    j'.status = j.status := by
  have hnone := h.executing_eq_nil hidle
  cases step_effect hstep with
  | begins kind plan => exact absurd rfl hidle'
  | batches counts hsome => exact absurd hnone hsome
  | ends outcome hexecution =>
      rw [hnone] at hexecution
      exact absurd hexecution (Nat.not_lt_zero _)
  | _ => rfl

variable {s t : CleanupJob D Q A} {labels later : List (JobLabel D Q)} {now : Int} {db : D}

/-- Where the tasks from the `n`-th on are all still to come, those there are need nothing but that
no read began at a `Good` time. -/
theorem since_start {Good : Int → Prop} {P : Q × A → Prop}
    (hkept : ∀ kept, j.kept = some kept → ¬Good kept.1)
    (hreading : ∀ (i : Nat) (readAt : Int) (figures : Figures Q A),
      j.tasks[i]? = some (.reading readAt figures) → ¬Good readAt) :
    j.Since Good P j.tasks.length := by
  refine ⟨fun readAt figures hsome hgood => absurd hgood (hkept _ hsome), fun i task hi => ?_⟩
  have hold : ¬j.tasks.length ≤ i := by
    have hlt := (List.getElem?_eq_some_iff.mp hi).1
    omega
  cases task with
  | looked askedAt readAt figures => exact fun hnew => absurd hnew hold
  | reading readAt figures => exact fun hread => absurd (hread.resolve_left hold) (hreading i _ _ hi)
  | answered figures => exact fun hnew => absurd hnew hold
  | _ => trivial

/-- The page is read again. -/
def readAgain : List (JobLabel Nat Unit) :=
  [.tick 1, .snapshot, .advance 1, .advance 1, .advance 1, .advance 1, .ask 1 (), .advance 1]

/-- Whoever asks for the figures after a cleanup came back, however it ended, is given none from
before: each was read from the database since, as long as no other cleanup runs meanwhile. -/
theorem figures_after_cleanup {r : CleanupJob D Q A} {execution i : Nat} {outcome : Outcome}
    {figures : Figures Q A} (hrun : Run (JobStep answer) (fresh now db) labels r)
    (hexecution : execution < r.executing.length)
    (hlater : Run (JobStep answer) (r.finish execution outcome) later t)
    (hidle : ∀ u, Visits (JobStep answer) (r.finish execution outcome) later t u →
      u.status.state ≠ .running)
    (hnew : r.tasks.length ≤ i) (hanswered : t.tasks[i]? = some (.answered (some figures))) :
    ∀ figure ∈ figures, ReadOn answer (r.finish execution outcome) later t figure := by
  have hstamped := stamped_of_run hrun
  have hstep : JobStep answer r (.finish execution outcome) (r.finish execution outcome) := rfl
  have halone := (alone_of_run hrun).step hstep
  have hfinished := finish_status_finishedAt outcome hexecution
  have hstart : ∀ P, (r.finish execution outcome).Since (r.now < ·) P r.tasks.length := by
    intro P
    obtain ⟨status, executing, hfinish⟩ := finish_eq (j := r) execution outcome
    rw [hfinish]
    exact since_start (j := { r with status, executing })
      (fun kept hsome => not_lt.mpr (hstamped.kept kept hsome))
      fun i readAt figures hi => not_lt.mpr (hstamped.tasks i _ hi readAt (by
        simp [FiguresTask.stamps]))
  -- The kept figures are served only where they are from after the end of the cleanup.
  have hend := hlater.invariant_visits
    (fun u => u.Alone ∧ u.status = (r.finish execution outcome).status ∧ u.Since (r.now < ·)
      (ReadOn answer (r.finish execution outcome) later t) r.tasks.length)
    (fun u label v hu hv ⟨halone, hstatus, hsince⟩ hstep => by
      refine ⟨halone.step hstep, ?_, hsince.step ?_ (fun query => ⟨u, hu, rfl⟩) hstep⟩
      · rw [status_eq_of_idle halone hstep (hidle u hu) (hidle v hv), hstatus]
      · intro readAt hclean
        rw [hstatus] at hclean
        simpa [cleanedSince, hfinished] using hclean)
    ⟨halone, rfl, hstart _⟩
  exact hend.2.2.tasks i _ hanswered hnew figures rfl

/-- Of the seven rows that were kept as figures three are left. -/
theorem figures_after_cleanup_readThenCleaned :
    ReadOn rowCount (readThenCleaned.finish 0 (.counted ⟨4, 0, 0, 0, 0, 0⟩)) readAgain
      (readAgain.foldl (step rowCount)
        (readThenCleaned.finish 0 (.counted ⟨4, 0, 0, 0, 0, 0⟩))) ((), 3) := by
  refine figures_after_cleanup (i := 1) (r := readThenCleaned)
    (Run.of_foldl _ _) (by decide) (Run.of_foldl _ _) (fun u hu => ?_) (by decide) (by decide)
    ((), 3) (List.mem_singleton_self _)
  obtain ⟨before, hbefore, rfl⟩ := hu.eq_foldl
  have hall : ∀ before ∈ readAgain.inits, (before.foldl (step rowCount)
      (readThenCleaned.finish 0 (.counted ⟨4, 0, 0, 0, 0, 0⟩))).status.state ≠ .running := by
    decide
  exact hall before (List.mem_inits _ _ |>.mpr hbefore)

/-- The page is read while the dropping waits for its turn. -/
def readLater : List (JobLabel Nat Unit) :=
  [.snapshot, .advance 2, .advance 2, .advance 1, .advance 2, .ask 2 (), .advance 2]

/-- Once the snapshot is dropped while no read is running, as `forget_snapshot` does at once or when
its turn has come, whoever asks for the figures is given none from before: each was read from the
database since, whatever cleanups run meanwhile. -/
theorem figures_after_forgetting {r : CleanupJob D Q A} {i : Nat} {figures : Figures Q A}
    (hrun : Run (JobStep answer) (fresh now db) labels r) (hfree : r.held = false)
    (hforgets : label = .forgetSnapshot ∨
      ∃ k, label = .advance k ∧ r.tasks[k]? = some .forgetting)
    (hstep : JobStep answer r label s) (hlater : Run (JobStep answer) s later t)
    (hnew : s.tasks.length ≤ i) (hanswered : t.tasks[i]? = some (.answered (some figures))) :
    ∀ figure ∈ figures, ReadOn answer s later t figure := by
  have halone := (alone_of_run hrun).step hstep
  have hdropped : s.kept = none ∧ s.held = false := by
    subst hstep
    rcases hforgets with rfl | ⟨k, rfl, hk⟩
    · exact ⟨rfl, hfree⟩
    · simp [step, hk, advance, hfree, setTask]
  -- Nobody has the lock, so nobody reads.
  have hnobody := halone.holding
  rw [hdropped.2, Bool.toNat_false, List.countP_eq_zero] at hnobody
  have hstart : s.Since (fun _ => True) (ReadOn answer s later t) s.tasks.length :=
    since_start (fun kept hsome => by simp [hdropped.1] at hsome)
      fun k readAt figures hk => absurd rfl (hnobody _ (List.mem_of_getElem? hk))
  have hend := hlater.invariant_visits _
    (fun u label v hu _ hsince hstep =>
      hsince.step (fun _ _ => trivial) (fun query => ⟨u, hu, rfl⟩) hstep) hstart
  exact hend.tasks i _ hanswered hnew figures rfl

/-- The source maps nobody uses are gone, and the figures are dropped. -/
theorem figures_after_forgetting_readThenCleaned :
    ReadOn rowCount (readThenCleaned.step rowCount .forgetSnapshot) readLater
      (readLater.foldl (step rowCount) (readThenCleaned.step rowCount .forgetSnapshot)) ((), 3) :=
  figures_after_forgetting (i := 2) (r := readThenCleaned) (Run.of_foldl _ _) (by decide)
    (.inl rfl) rfl (Run.of_foldl _ _) (by decide) (by decide) ((), 3) (List.mem_singleton_self _)

end CleanupJob

end Rustrak.Retention
