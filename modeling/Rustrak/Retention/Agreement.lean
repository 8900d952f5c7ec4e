import Mathlib.Data.List.ReduceOption
import Rustrak.Retention.Loops

/-!
# The preview and the cleanup

The preview counts each kind of data with one query, and the cleanup deletes it in batches.
Both agree, whatever the batches are.

* `purged_counts`: what is deleted for a project is what the preview counts for it;
* `projectCounts_purged`: and it leaves the counts of other projects and kinds alone;
* `preview_agrees`: so it is for a cleanup of any projects, and for the retention settings.
-/

namespace Rustrak.Retention

open Rustrak.Core Rustrak.Digest Rustrak.Relational

variable {s : Storage} {p : Purging} {projectId cutoff : Int} {filter : CleanupFilter}

/-! ## What the counts are -/

/-- The counts that the preview and the cleanup share: spans are only estimated. -/
def CleanupCounts.rows (counts : CleanupCounts) : Nat × Nat × Nat × Nat :=
  (counts.events, counts.transactions, counts.logs, counts.issuesRemoved)

/-- What a project has for a cleanup to delete. -/
def projectCounts (s : Storage) (cutoff : Int) (filter : CleanupFilter) (projectId : Int) :
    Nat × Nat × Nat × Nat :=
  (if filter.includeEvents then (expired s.db projectId cutoff).length else 0,
    if filter.includeTransactions then (oldTransactions projectId cutoff s).length else 0,
    if filter.includeLogs then (oldLogs projectId cutoff s).length else 0,
    if filter.includeEvents then batchRemoves s.db projectId (expired s.db projectId cutoff) else 0)

theorem lessTransactions_rows (h : Keyed p.1) :
    (lessTransactions cutoff filter projectId p).2.rows = p.2.rows +
      (0, if filter.includeTransactions then (oldTransactions projectId cutoff p.1).length else 0,
        0, 0) := by
  have htaken : (p.1.transactions.countP fun t =>
      ((oldTransactions projectId cutoff p.1).map TransactionRow.id).contains t.id) =
        (oldTransactions projectId cutoff p.1).length :=
    countP_contains_key h.transactions List.filter_sublist
  unfold lessTransactions
  split_ifs
  · simp only [afterTransactions, CleanupCounts.rows, htaken, Prod.mk_add_mk, Nat.add_zero]
  · rfl

theorem lessLogs_rows (h : Keyed p.1) :
    (lessLogs cutoff filter projectId p).2.rows = p.2.rows +
      (0, 0, if filter.includeLogs then (oldLogs projectId cutoff p.1).length else 0, 0) := by
  have htaken : (p.1.logs.countP fun l =>
      ((oldLogs projectId cutoff p.1).map LogRow.id).contains l.id) =
        (oldLogs projectId cutoff p.1).length :=
    countP_contains_key h.logs List.filter_sublist
  unfold lessLogs
  split_ifs
  · simp only [afterLogs, CleanupCounts.rows, htaken, Prod.mk_add_mk, Nat.add_zero]
  · rfl

theorem lessEvents_rows (h : Keyed p.1) :
    (lessEvents cutoff filter projectId p).2.rows = p.2.rows +
      (if filter.includeEvents then (expired p.1.db projectId cutoff).length else 0, 0, 0,
        if filter.includeEvents then
          batchRemoves p.1.db projectId (expired p.1.db projectId cutoff)
        else 0) := by
  have htaken : batchTakes p.1.db (expired p.1.db projectId cutoff) =
      (expired p.1.db projectId cutoff).length :=
    countP_contains_key h.db.eventKeys List.filter_sublist
  unfold lessEvents
  split_ifs
  · simp only [afterEvents, CleanupCounts.rows, htaken, Prod.mk_add_mk, Nat.add_zero]
  · rfl

/-- A cleanup deletes that of a project. -/
theorem purged_counts (h : Keyed p.1) :
    (purged cutoff filter projectId p).2.rows =
      p.2.rows + projectCounts p.1 cutoff filter projectId := by
  have hfirst : Keyed (lessTransactions cutoff filter projectId p).1 := lessTransactions_keyed h
  have hlogs : oldLogs projectId cutoff (lessTransactions cutoff filter projectId p).1 =
      oldLogs projectId cutoff p.1 := by
    unfold lessTransactions
    split_ifs <;> rfl
  have hdb : (lessLogs cutoff filter projectId
      (lessTransactions cutoff filter projectId p)).1.db = p.1.db := by
    unfold lessLogs lessTransactions
    split_ifs <;> rfl
  rw [purged, lessEvents_rows (lessLogs_keyed hfirst), lessLogs_rows hfirst,
    lessTransactions_rows h, hlogs, hdb]
  simp only [projectCounts, Prod.mk_add_mk, Nat.add_zero, Nat.zero_add, add_assoc]

/-! ### One project's counts -/

/-- An issue is emptied with a project's old events when it is the project's and has events,
all of them old. -/
theorem contains_batchEmptied (h : Referential s.db) {i : Issue} (hi : i ∈ s.db.issues) :
    (batchEmptied s.db projectId (expired s.db projectId cutoff)).contains i.id =
      (decide (i.projectId = projectId) && emptiedBy s.db cutoff i.id) := by
  have hproject : ∀ e ∈ s.db.events, e.issueId = some i.id → e.projectId = i.projectId := by
    intro e he hissue
    obtain ⟨row, hrow, hsame⟩ := h.events e he i.id hissue
    have hfound : s.db.issue i.id = some i := lookup_of_mem h.issueIds hi
    obtain rfl := Option.some.inj (hrow.symm.trans hfound)
    exact hsame.symm
  have hexpired : ∀ e, e ∈ expired s.db projectId cutoff ↔
      e ∈ s.db.events ∧ e.projectId = projectId ∧ e.ingestedAt < cutoff := by
    intro e
    simp [expired]
  have hkey : ∀ e ∈ s.db.events, e.key ∈ (expired s.db projectId cutoff).map EventRow.key →
      e ∈ expired s.db projectId cutoff := by
    intro e he hmem
    obtain ⟨e', he', hsame⟩ := List.mem_map.mp hmem
    rw [← List.inj_on_of_nodup_map h.eventKeys ((hexpired e').mp he').1 he hsame]
    exact he'
  rw [Bool.eq_iff_iff, List.contains_iff_mem, mem_batchEmptied, emptiedBy]
  simp only [Bool.and_eq_true, decide_eq_true_eq, List.any_eq_true, Bool.not_eq_true',
    List.any_eq_false, not_and, not_le]
  constructor
  · rintro ⟨⟨e, he, hissue⟩, hall⟩
    obtain ⟨hmem, hown, -⟩ := (hexpired e).mp he
    refine ⟨(hproject e hmem hissue).symm.trans hown, ⟨e, hmem, hissue⟩, fun e' he' hissue' => ?_⟩
    exact ((hexpired e').mp (hkey e' he' (hall e' he' hissue'))).2.2
  · rintro ⟨hown, ⟨e, he, hissue⟩, hall⟩
    have hmem : ∀ e' ∈ s.db.events, e'.issueId = some i.id →
        e' ∈ expired s.db projectId cutoff := fun e' he' hissue' =>
      (hexpired e').mpr ⟨he', (hproject e' he' hissue').trans hown, hall e' he' hissue'⟩
    exact ⟨⟨e, hmem e he hissue, hissue⟩,
      fun e' he' hissue' => List.mem_map_of_mem (hmem e' he' hissue')⟩

theorem batchRemoves_expired (h : Referential s.db) :
    batchRemoves s.db projectId (expired s.db projectId cutoff) =
      s.db.issues.countP fun i =>
        decide (i.projectId = projectId) && emptiedBy s.db cutoff i.id :=
  List.countP_congr fun i hi => by rw [contains_batchEmptied h hi]

/-- Two cleanups that have nothing to delete in common. -/
def Apart (projectId projectId' : Int) (filter filter' : CleanupFilter) : Prop :=
  projectId ≠ projectId' ∨
    ¬(filter.includeEvents ∧ filter'.includeEvents) ∧
      ¬(filter.includeTransactions ∧ filter'.includeTransactions) ∧
      ¬(filter.includeLogs ∧ filter'.includeLogs)

variable {projectId' cutoff' : Int} {filter' : CleanupFilter}

/-- What belongs to another project is not selected. -/
theorem not_selected {row other time : Int} (hne : projectId ≠ projectId')
    (h : (decide (row = projectId) && decide (time < cutoff)) = true) :
    (decide (row = projectId') && decide (other < cutoff')) = false := by
  simp only [Bool.and_eq_true, decide_eq_true_eq] at h
  rw [h.1, decide_eq_false hne, Bool.false_and]

theorem oldTransactions_purged (h : Keyed p.1) (hne : projectId ≠ projectId') :
    oldTransactions projectId' cutoff' (purged cutoff filter projectId p).1 =
      oldTransactions projectId' cutoff' p.1 := by
  unfold oldTransactions
  rw [purged_transactions]
  split_ifs
  · apply filter_filter_not_contains h.transactions List.filter_sublist
    intro t ht
    exact not_selected hne (List.mem_filter.mp ht).2
  · rfl

theorem oldLogs_purged (h : Keyed p.1) (hne : projectId ≠ projectId') :
    oldLogs projectId' cutoff' (purged cutoff filter projectId p).1 =
      oldLogs projectId' cutoff' p.1 := by
  unfold oldLogs
  rw [purged_logs]
  split_ifs
  · apply filter_filter_not_contains h.logs List.filter_sublist
    intro l hl
    exact not_selected hne (List.mem_filter.mp hl).2
  · rfl

theorem expired_purged (h : Keyed p.1) (hne : projectId ≠ projectId') :
    expired (purged cutoff filter projectId p).1.db projectId' cutoff' =
      expired p.1.db projectId' cutoff' := by
  rw [purged_db]
  split_ifs
  · unfold expired
    rw [afterBatch_events]
    apply filter_filter_not_contains h.db.eventKeys List.filter_sublist
    intro e he
    exact not_selected hne (List.mem_filter.mp he).2
  · rfl

/-- Only an issue's own events decide whether it is emptied. -/
theorem emptiedBy_eq_filter (db : Db) (cutoff : Int) (i : Uuid) :
    emptiedBy db cutoff i =
      (((db.events.filter fun e => e.issueId = some i).any fun _ => true) &&
        !(db.events.filter fun e => e.issueId = some i).any fun e =>
          decide (cutoff ≤ e.ingestedAt)) := by
  simp [emptiedBy, List.any_filter]

/-- A batch leaves the issues of other projects with the events they have. -/
theorem emptiedBy_afterBatch (h : Referential s.db) {i : Issue} (hi : i ∈ s.db.issues)
    (hne : i.projectId ≠ projectId) :
    emptiedBy (afterBatch s.db projectId (expired s.db projectId cutoff)) cutoff' i.id =
      emptiedBy s.db cutoff' i.id := by
  have hevents : ((afterBatch s.db projectId (expired s.db projectId cutoff)).events.filter
      fun e => e.issueId = some i.id) = s.db.events.filter fun e => e.issueId = some i.id := by
    rw [afterBatch_events]
    apply filter_filter_not_contains h.eventKeys List.filter_sublist
    intro e he
    rw [decide_eq_false_iff_not]
    intro hissue
    obtain ⟨hmem, hselected⟩ := List.mem_filter.mp he
    simp only [Bool.and_eq_true, decide_eq_true_eq] at hselected
    obtain ⟨row, hrow, hproject⟩ := h.events e hmem i.id hissue
    obtain rfl := Option.some.inj (hrow.symm.trans (lookup_of_mem h.issueIds hi))
    exact hne (hproject.trans hselected.1)
  rw [emptiedBy_eq_filter, emptiedBy_eq_filter, hevents]

theorem batchRemoves_purged (h : Keyed p.1) (hne : projectId ≠ projectId') :
    batchRemoves (purged cutoff filter projectId p).1.db projectId'
        (expired (purged cutoff filter projectId p).1.db projectId' cutoff') =
      batchRemoves p.1.db projectId' (expired p.1.db projectId' cutoff') := by
  rw [batchRemoves_expired (purged_keyed h).db, batchRemoves_expired h.db, purged_db]
  split_ifs
  · rw [afterBatch_issues, List.countP_map, List.countP_filter]
    apply List.countP_congr
    intro i hi
    by_cases hown : i.projectId = projectId'
    · have hother : i.projectId ≠ projectId := fun heq => hne (heq.symm.trans hown)
      have hkept : (batchEmptied p.1.db projectId (expired p.1.db projectId cutoff)).contains i.id =
          false := by
        rw [contains_batchEmptied h.db hi, decide_eq_false hother, Bool.false_and]
      simp only [Function.comp, Issue.without, emptiedBy_afterBatch h.db hi hother, hkept,
        Bool.not_false, Bool.and_true]
      exact Iff.rfl
    · simp [Issue.without, hown]
  · rfl

/-- What a project has to delete is the same after a cleanup apart from it. -/
theorem projectCounts_purged (h : Keyed p.1) (hapart : Apart projectId projectId' filter filter') :
    projectCounts (purged cutoff filter projectId p).1 cutoff' filter' projectId' =
      projectCounts p.1 cutoff' filter' projectId' := by
  rcases hapart with hne | ⟨hevents, htransactions, hlogs⟩
  · unfold projectCounts
    rw [batchRemoves_purged h hne, expired_purged h hne, oldTransactions_purged h hne,
      oldLogs_purged h hne]
  · have hdb : filter'.includeEvents = true →
        (purged cutoff filter projectId p).1.db = p.1.db := fun hinclude => by
      rw [purged_db, if_neg fun hother => hevents ⟨hother, hinclude⟩]
    have hrows : filter'.includeTransactions = true →
        (purged cutoff filter projectId p).1.transactions = p.1.transactions := fun hinclude => by
      rw [purged_transactions, if_neg fun hother => htransactions ⟨hother, hinclude⟩]
    have hentries : filter'.includeLogs = true →
        (purged cutoff filter projectId p).1.logs = p.1.logs := fun hinclude => by
      rw [purged_logs, if_neg fun hother => hlogs ⟨hother, hinclude⟩]
    unfold projectCounts oldTransactions oldLogs
    congr 1
    · split_ifs with hinclude
      · rw [hdb hinclude]
      · rfl
    · congr 1
      · split_ifs with hinclude
        · rw [hrows hinclude]
        · rfl
      · congr 1
        · split_ifs with hinclude
          · rw [hentries hinclude]
          · rfl
        · split_ifs with hinclude
          · rw [hdb hinclude]
          · rfl

/-! ## Sums over projects -/

/-- The rows that are old and of one of some projects, project by project. -/
theorem countP_and_contains {Row : Type*} (rows : List Row) (old : Row → Bool)
    (project : Row → Int) {projects : List Int} (hnodup : projects.Nodup) :
    (rows.countP fun row => old row && projects.contains (project row)) =
      (projects.map fun id =>
        rows.countP fun row => decide (project row = id) && old row).sum := by
  have hsum := countP_any_eq_sum (fun row => some (project row)) (rows.filter old) hnodup
  simp only [List.countP_filter, Option.any_some, Option.some.injEq] at hsum
  rw [← hsum]
  apply List.countP_congr
  intro row _
  rw [Bool.and_comm]

theorem sum_map_ite {α : Type*} (l : List α) (included : Bool) (f : α → Nat) :
    (l.map fun x => if included then f x else 0).sum = if included then (l.map f).sum else 0 := by
  cases included <;> simp

theorem sum_map_rows {α : Type*} (l : List α) (f g h k : α → Nat) :
    (l.map fun x => (f x, g x, h x, k x)).sum =
      ((l.map f).sum, (l.map g).sum, (l.map h).sum, (l.map k).sum) := by
  induction l with
  | nil => rfl
  | cons x rest ih => simp only [List.map_cons, List.sum_cons, ih, Prod.mk_add_mk]

theorem scopedProjects_nodup (h : Keyed s) (scope : Option Int) : (scopedProjects s scope).Nodup :=
  h.projects.filter _

/-- The preview counts what its projects have to delete. -/
theorem countCleanup_rows (h : Keyed s) (estimate : Estimate) (scope : Option Int) :
    (countCleanup estimate s cutoff scope filter).rows =
      ((scopedProjects s scope).map (projectCounts s cutoff filter)).sum := by
  have hnodup := scopedProjects_nodup h scope
  have hevents := countP_and_contains s.db.events (fun e => decide (e.ingestedAt < cutoff))
    EventRow.projectId hnodup
  have hlogs := countP_and_contains s.logs (fun l => decide (l.ingestedAt < cutoff))
    LogRow.projectId hnodup
  have hissues := countP_and_contains s.db.issues (fun i => emptiedBy s.db cutoff i.id)
    Issue.projectId hnodup
  have hscope : (s.db.issues.countP fun i =>
      scope.all (i.projectId = ·) && emptiedBy s.db cutoff i.id) =
        s.db.issues.countP fun i =>
          emptiedBy s.db cutoff i.id && (scopedProjects s scope).contains i.projectId := by
    apply List.countP_congr
    intro i hi
    have hproject := h.db.issues i hi
    rw [Bool.and_comm, Bool.and_eq_true, Bool.and_eq_true, List.contains_iff_mem, scopedProjects,
      List.mem_filter]
    refine and_congr_right fun _ => ⟨fun hall => ⟨hproject, ?_⟩, fun hmem => ?_⟩
    · cases scope with
      | none => rfl
      | some id => simpa [eq_comm] using hall
    · cases scope with
      | none => rfl
      | some id => simpa [eq_comm] using hmem.2
  unfold projectCounts
  rw [sum_map_rows]
  simp only [sum_map_ite, batchRemoves_expired h.db, ← hissues, ← hscope]
  simp only [expired, oldLogs, ← List.countP_eq_length_filter, ← hevents, ← hlogs]
  rfl

/-! ## Whole cleanups -/

/-- The loops of one project, with one cutoff. -/
structure Task where
  projectId : Int
  cutoff : Int
  filter : CleanupFilter

def Task.purged (p : Purging) (task : Task) : Purging :=
  Retention.purged task.cutoff task.filter task.projectId p

def Task.counts (s : Storage) (task : Task) : Nat × Nat × Nat × Nat :=
  projectCounts s task.cutoff task.filter task.projectId

def Task.Apart (task task' : Task) : Prop :=
  Retention.Apart task.projectId task'.projectId task.filter task'.filter

variable {tasks : List Task}

/-- Tasks apart from each other delete what each of them finds at the start. -/
theorem foldl_purged_counts (h : Keyed p.1) (hapart : tasks.Pairwise Task.Apart) :
    (tasks.foldl Task.purged p).2.rows = p.2.rows + (tasks.map (Task.counts p.1)).sum := by
  induction tasks generalizing p with
  | nil => simp
  | cons task rest ih =>
      obtain ⟨hfirst, hrest⟩ := List.pairwise_cons.mp hapart
      have hcounts : rest.map (Task.counts (task.purged p).1) = rest.map (Task.counts p.1) :=
        List.map_congr_left fun task' hmem => projectCounts_purged h (hfirst task' hmem)
      have hkeyed : Keyed (task.purged p).1 := purged_keyed h
      have hown : (task.purged p).2.rows = p.2.rows + Task.counts p.1 task := purged_counts h
      rw [List.foldl_cons, ih hkeyed hrest, hcounts, hown, List.map_cons, List.sum_cons, add_assoc]

section

variable {limit : Nat} (hlimit : 0 < limit) (pick : Pickers limit) {fuel : Nat}
  (h : Keyed p.1) (hfuel : p.1.size < fuel)
include hlimit h hfuel

/-- One cutoff for some projects. -/
theorem purge_eq (projects : List Int) :
    purge pick cutoff filter fuel projects p =
      some ((projects.map fun id => (⟨id, cutoff, filter⟩ : Task)).foldl Task.purged p) := by
  induction projects generalizing p with
  | nil => rfl
  | cons id rest ih =>
      rw [purge_cons hlimit pick h hfuel,
        ih (purged_keyed h) (Nat.lt_of_le_of_lt purged_size hfuel)]
      rfl

end

/-- A database: its keys are unique and its references lead somewhere. -/
structure Database extends Storage where
  keyed : Keyed toStorage

theorem cleanupProjects_perm (s : Storage) (scope : Option Int) :
    (cleanupProjects s scope).Perm (scopedProjects s scope) :=
  List.mergeSort_perm _ _

theorem cleanupProjects_nodup (h : Keyed s) (scope : Option Int) :
    (cleanupProjects s scope).Nodup :=
  (cleanupProjects_perm s scope).nodup_iff.mpr (scopedProjects_nodup h scope)

/-- From nothing counted. -/
theorem foldl_purged_rows (h : Keyed s) (hapart : tasks.Pairwise Task.Apart) :
    (tasks.foldl Task.purged (s, .default)).2.rows = (tasks.map (Task.counts s)).sum := by
  rw [foldl_purged_counts h hapart]
  exact zero_add _

/-- A cleanup of any projects with one cutoff. -/
theorem purge_agrees (d : Database) (estimate : Estimate) (cutoff : Int) (scope : Option Int)
    (filter : CleanupFilter) : ∃ (final : Storage) (enough : Nat), ∀ limit, 0 < limit →
      ∀ (pick : Pickers limit) (fuel : Nat), enough ≤ fuel →
        ∃ counts, purge pick cutoff filter fuel (cleanupProjects d.toStorage scope)
            (d.toStorage, .default) = some (final, counts) ∧
          counts.rows = (countCleanup estimate d.toStorage cutoff scope filter).rows := by
  let tasks := (cleanupProjects d.toStorage scope).map fun id => (⟨id, cutoff, filter⟩ : Task)
  have hapart : tasks.Pairwise Task.Apart :=
    List.pairwise_map.mpr ((cleanupProjects_nodup d.keyed scope).imp fun hne => .inl hne)
  refine ⟨(tasks.foldl Task.purged (d.toStorage, .default)).1, d.toStorage.size + 1,
    fun limit hlimit pick fuel hfuel =>
      ⟨_, purge_eq hlimit pick d.keyed (Nat.lt_of_succ_le hfuel) _, ?_⟩⟩
  rw [foldl_purged_rows d.keyed hapart, countCleanup_rows d.keyed estimate scope, List.map_map]
  exact ((cleanupProjects_perm d.toStorage scope).map _).sum_eq

/-- So it is for `older_than_days`, and both refuse the same. -/
theorem executeCleanup_agrees (d : Database) (estimate : Estimate) (now olderThanDays : Int)
    (scope : Option Int) (filter : CleanupFilter) : ∃ enough, ∀ limit, 0 < limit →
      ∀ (pick : Pickers limit) (fuel : Nat), enough ≤ fuel →
        (executeCleanupInBatches pick d.toStorage now olderThanDays scope filter fuel).map
            (fun done => done.map fun p => p.2.rows) =
          (previewCleanup estimate d.toStorage now olderThanDays scope filter).map
            fun counts => some counts.rows := by
  obtain ⟨final, enough, hagrees⟩ :=
    purge_agrees d estimate (now - olderThanDays * day) scope filter
  refine ⟨enough, fun limit hlimit pick fuel hfuel => ?_⟩
  unfold executeCleanupInBatches previewCleanup
  cases validateRetention olderThanDays with
  | error e => rfl
  | ok _ =>
      obtain ⟨counts, hrun, hrows⟩ := hagrees limit hlimit pick fuel hfuel
      show Except.ok ((purge pick _ filter fuel _ _).map _) = Except.ok (some _)
      rw [hrun, ← hrows]
      rfl

end Rustrak.Retention
