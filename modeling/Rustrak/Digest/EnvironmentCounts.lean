import Mathlib.Data.List.Sort
import Rustrak.Digest.StoredCounts

/-!
# The counts of an environment

Filtered by an environment, the issue list shows an issue with the first and last
time, and the number of events, of its row in `issue_environments`.  The digest
counts an event there; a deleted issue takes its rows with it; a retention batch
does not touch them.

## Strategy

`Seen` says that the rows count the stored events.  Digests and deletions keep it.
A batch keeps it exactly when it is `Whole`: whatever it takes from an environment,
it takes the issue with it.  Otherwise the issue stays in the list with the events
it had before.
-/

namespace Rustrak.Digest

open Rustrak.Core Rustrak.Quota Rustrak.Relational Rustrak.Transition

/-! ## The list -/

/-- `ENV_SCOPED_COLUMNS`: an issue with the numbers of one environment. -/
def Issue.inEnvironment (i : Issue) (e : IssueEnvironment) : Issue :=
  { i with
    firstSeen := e.firstSeen
    lastSeen := e.lastSeen
    digestedEventCount := e.eventCount }

/-- What the list selects from: the issues, or their rows in one environment. -/
def issueSource (db : Db) (projectId : Int) : Option String → List Issue
  | none => db.issues
  | some environment =>
      db.issues.flatMap fun i =>
        (db.environments.filter fun e =>
          e.issueId = i.id ∧ e.projectId = projectId ∧ e.environment = environment).map
            i.inEnvironment

/-- `list_window`: one window of a project's issues with their total.  `order` is the
order clause and `narrow` what search, release and the table's own filters keep. -/
def IssueService.listWindow (db : Db) (projectId : Int) (order : Issue → Issue → Bool)
    (filter : IssueFilter) (category : IssueCategory) (offset perPage : Nat)
    (environment : Option String) (narrow : Issue → Bool) : List Issue × Nat :=
  let matching := (issueSource db projectId environment).filter fun i =>
    filter.clause category projectId i && narrow i
  (((matching.insertionSort fun i j => order i j).drop offset).take perPage, matching.length)

/-- The stored events of an issue in an environment. -/
def Db.eventsIn (db : Db) (i : Uuid) (environment : String) : Nat :=
  db.events.countP fun e => e.issueId = some i ∧ e.environment = environment

/-- Every row the list shows in an environment counts the issue's stored events there,
and every issue with stored events there has a row.  Events without an environment are
in no list. -/
structure ListAgrees (db : Db) : Prop where
  shown : ∀ projectId order filter category offset perPage environment narrow,
    ∀ row ∈ (IssueService.listWindow db projectId order filter category offset perPage
      (some environment) narrow).1,
    row.digestedEventCount = db.eventsIn row.id environment
  listed : ∀ order, ∀ issue ∈ db.issues, ∀ environment, environment ≠ "" →
    db.eventsIn issue.id environment ≠ 0 →
    ∃ perPage, ∃ row ∈ (IssueService.listWindow db issue.projectId order .all issue.category 0
      perPage (some environment) fun _ => true).1, row.id = issue.id

/-! ## The invariant -/

/-- The rows of the environments have their own keys, each with an issue of its project. -/
structure Placed (db : Db) : Prop where
  linked : Linked db
  keys : (db.environments.map IssueEnvironment.key).Nodup
  owned : ∀ e ∈ db.environments, e.environment ≠ "" ∧
    ∃ row, db.issue e.issueId = some row ∧ row.projectId = e.projectId

/-- And they count the events stored in them. -/
structure Seen (db : Db) : Prop extends Placed db where
  counts : ∀ i environment, environment ≠ "" →
    db.environmentCount i environment = db.eventsIn i environment

theorem seen_fresh (projectIds : List Int) : Seen (.fresh projectIds) where
  linked := (counted_fresh projectIds).linked
  keys := by simp [Db.fresh]
  owned := by simp [Db.fresh]
  counts := by simp [Db.fresh, Db.environmentCount, Db.eventsIn, lookup]

variable {config : RateLimitConfig} {db db' : Db}

theorem mem_issueSource {projectId : Int} {environment : String} {row : Issue} :
    row ∈ issueSource db projectId (some environment) ↔
      ∃ i ∈ db.issues, ∃ e ∈ db.environments, e.key = (i.id, environment) ∧
        e.projectId = projectId ∧ row = i.inEnvironment e := by
  simp only [issueSource, List.mem_flatMap, List.mem_map, List.mem_filter, decide_eq_true_eq,
    IssueEnvironment.key, Prod.mk.injEq]
  constructor
  · rintro ⟨i, hi, e, ⟨he, hissue, hproject, henvironment⟩, rfl⟩
    exact ⟨i, hi, e, he, ⟨hissue, henvironment⟩, hproject, rfl⟩
  · rintro ⟨i, hi, e, he, ⟨hissue, henvironment⟩, hproject, rfl⟩
    exact ⟨i, hi, e, ⟨he, hissue, hproject, henvironment⟩, rfl⟩

/-- A window shows rows of the source only. -/
theorem mem_source_of_mem_listWindow {projectId : Int} {order : Issue → Issue → Bool}
    {filter : IssueFilter} {category : IssueCategory} {offset perPage : Nat}
    {environment : Option String} {narrow : Issue → Bool} {row : Issue}
    (h : row ∈ (IssueService.listWindow db projectId order filter category offset perPage
      environment narrow).1) : row ∈ issueSource db projectId environment := by
  have hsorted := List.mem_of_mem_drop (List.mem_of_mem_take h)
  exact (List.mem_filter.mp ((List.mem_insertionSort _).mp hsorted)).1

/-- A wide enough window shows every row of the source that passes the clauses. -/
theorem mem_listWindow_of_mem_source {projectId : Int} {order : Issue → Issue → Bool}
    {filter : IssueFilter} {category : IssueCategory} {environment : Option String} {row : Issue}
    (h : row ∈ issueSource db projectId environment)
    (hclause : filter.clause category projectId row = true) :
    ∃ perPage, row ∈ (IssueService.listWindow db projectId order filter category 0 perPage
      environment fun _ => true).1 := by
  have hwhole : ∀ matching : List Issue, row ∈ matching →
      row ∈ ((matching.insertionSort fun i j => order i j).drop 0).take matching.length := by
    intro matching hmem
    rw [List.drop_zero, List.take_of_length_le (List.length_insertionSort _ _).le]
    exact (List.mem_insertionSort _).mpr hmem
  refine ⟨_, hwhole _ (List.mem_filter.mpr ⟨h, ?_⟩)⟩
  rw [hclause, Bool.and_self]

theorem clause_all {projectId : Int} {category : IssueCategory} {i : Issue}
    (hproject : i.projectId = projectId) (hcategory : i.category = category) :
    IssueFilter.clause .all category projectId i = true := by
  simp [IssueFilter.clause, hproject, hcategory]

/-- A row of the environments is what the list shows its issue with. -/
theorem environmentCount_of_mem (h : Placed db) {e : IssueEnvironment}
    (he : e ∈ db.environments) {i : Uuid} {environment : String}
    (hkey : e.key = (i, environment)) : db.environmentCount i environment = e.eventCount := by
  unfold Db.environmentCount
  rw [← hkey, lookup_of_mem h.keys he]
  rfl

/-- The list has a window with the row of an environment. -/
theorem Placed.shown_of_mem (h : Placed db) (order : Issue → Issue → Bool)
    {e : IssueEnvironment} (he : e ∈ db.environments) {i : Uuid} {environment : String}
    (hkey : e.key = (i, environment)) {issue : Issue} (hissue : db.issue i = some issue) :
    ∃ perPage, issue.inEnvironment e ∈ (IssueService.listWindow db issue.projectId order .all
      issue.category 0 perPage (some environment) fun _ => true).1 := by
  obtain ⟨_, row, hfound, hproject⟩ := h.owned e he
  rw [(Prod.mk.inj hkey).1, hissue] at hfound
  obtain rfl := Option.some.inj hfound
  have hid : issue.id = i := key_of_lookup hissue
  have hsource : issue.inEnvironment e ∈
      issueSource db issue.projectId (some environment) := by
    rw [mem_issueSource]
    exact ⟨issue, mem_of_lookup hissue, e, he, by rw [hkey, hid], hproject.symm, rfl⟩
  exact mem_listWindow_of_mem_source hsource (clause_all rfl rfl)

theorem Seen.agrees (h : Seen db) : ListAgrees db where
  shown := by
    intro projectId order filter category offset perPage environment narrow row hrow
    obtain ⟨i, _, e, he, hkey, _, rfl⟩ := mem_issueSource.mp (mem_source_of_mem_listWindow hrow)
    have hne : environment ≠ "" := by
      rw [← (Prod.mk.inj hkey).2]
      exact (h.owned e he).1
    calc (i.inEnvironment e).digestedEventCount = e.eventCount := rfl
      _ = db.environmentCount i.id environment := (environmentCount_of_mem h.toPlaced he hkey).symm
      _ = db.eventsIn i.id environment := h.counts i.id environment hne
  listed := by
    intro order issue hissue environment hne hevents
    -- The count is not zero, so there is a row that says so.
    have hcount := h.counts issue.id environment hne
    unfold Db.environmentCount at hcount
    cases hrow : lookup IssueEnvironment.key (issue.id, environment) db.environments with
    | none =>
        rw [hrow] at hcount
        simp only [Option.map_none, Option.getD_none] at hcount
        omega
    | some e =>
        have hissue' : db.issue issue.id = some issue := lookup_of_mem h.linked.issueIds hissue
        obtain ⟨perPage, hshown⟩ :=
          h.toPlaced.shown_of_mem order (mem_of_lookup hrow) (key_of_lookup hrow) hissue'
        exact ⟨perPage, _, hshown, rfl⟩

/-- What the list shows is all the invariant says. -/
theorem Placed.seen_of_agrees (h : Placed db) (hagrees : ListAgrees db) : Seen db where
  toPlaced := h
  counts := by
    intro i environment hne
    cases hrow : lookup IssueEnvironment.key (i, environment) db.environments with
    | some e =>
        have he := mem_of_lookup hrow
        have hkey := key_of_lookup hrow
        obtain ⟨_, issue, hissue, _⟩ := h.owned e he
        rw [(Prod.mk.inj hkey).1] at hissue
        obtain ⟨perPage, hshown⟩ := h.shown_of_mem (fun _ _ => true) he hkey hissue
        have hid : issue.id = i := key_of_lookup hissue
        have hcount := hagrees.shown _ _ _ _ _ _ _ _ _ hshown
        change e.eventCount = db.eventsIn issue.id environment at hcount
        rw [environmentCount_of_mem h he hkey, hcount, hid]
    | none =>
        have hzero : db.environmentCount i environment = 0 := by
          unfold Db.environmentCount
          rw [hrow]
          rfl
        rw [hzero]
        by_contra hevents
        have hpos : 0 < db.eventsIn i environment := by omega
        -- A stored event has an issue, which the list would have to show.
        obtain ⟨e, he, hin⟩ := List.countP_pos_iff.mp hpos
        obtain ⟨hi, _⟩ := of_decide_eq_true hin
        obtain ⟨i', issue, hi', hissue, _⟩ := h.linked.events e he
        obtain rfl := Option.some.inj (hi.symm.trans hi')
        have hid : issue.id = i := key_of_lookup hissue
        obtain ⟨_, row, hshown, hrowId⟩ := hagrees.listed (fun _ _ => true) issue
          (mem_of_lookup hissue) environment hne (by rw [hid]; omega)
        obtain ⟨issue', _, e', he', hkey, _, rfl⟩ :=
          mem_issueSource.mp (mem_source_of_mem_listWindow hshown)
        apply lookup_eq_none_iff.mp hrow e' he'
        rw [hkey]
        rw [show issue'.id = issue.id from hrowId, hid]

theorem Placed.agrees_iff (h : Placed db) : ListAgrees db ↔ Seen db :=
  ⟨h.seen_of_agrees, Seen.agrees⟩

/-! ## Digests -/

/-- A row of the environments after an event is one of before, or the new one. -/
theorem environmentsAfter_rows (db : Db) (w : DigestWrite) (i : Uuid) :
    ∀ e ∈ environmentsAfter db w i,
      (∃ old ∈ db.environments, e.key = old.key ∧ e.projectId = old.projectId) ∨
        w.storedEnvironment ≠ "" ∧ e = newEnvironment w i := by
  intro e he
  unfold environmentsAfter upsertEnvironment at he
  dsimp only at he
  split_ifs at he with hnone
  · exact .inl ⟨e, he, rfl, rfl⟩
  · obtain ⟨old, hold, rfl⟩ := mem_modify.mp he
    refine .inl ⟨old, hold, ?_⟩
    split_ifs <;> exact ⟨rfl, rfl⟩
  · rcases List.mem_append.mp he with he | he
    · exact .inl ⟨e, he, rfl, rfl⟩
    · exact .inr ⟨hnone, List.mem_singleton.mp he⟩

theorem environmentsAfter_keys (w : DigestWrite) (i : Uuid)
    (h : (db.environments.map IssueEnvironment.key).Nodup) :
    ((environmentsAfter db w i).map IssueEnvironment.key).Nodup := by
  unfold environmentsAfter upsertEnvironment
  dsimp only
  split_ifs with hnone hknown
  · exact h
  · rw [map_key_modify fun e => e.key_withEvent w]
    exact h
  · apply nodup_insert h
    have hfree : lookup IssueEnvironment.key (i, w.storedEnvironment) db.environments = none := by
      simpa [Option.isSome_iff_ne_none] using hknown
    exact hfree

theorem Written.placed {w : DigestWrite} {freshId : Uuid} {now : Int} {landing : Landing}
    (h : Placed db) (hw : Written config db w freshId now db' landing) : Placed db' where
  linked := hw.linked h.linked
  keys := by
    rw [hw.environments]
    exact environmentsAfter_keys w landing.issueId h.keys
  owned := by
    intro e he
    rw [hw.environments] at he
    obtain ⟨hkept, hlanding⟩ := hw.issue_project h.linked
    rcases environmentsAfter_rows db w landing.issueId e he with ⟨old, hold, hkey, hproject⟩ | hnew
    · obtain ⟨hissue, henvironment⟩ := Prod.mk.inj hkey
      obtain ⟨hne, row, hrow, howner⟩ := h.owned old hold
      obtain ⟨row', hrow', howner'⟩ := hkept _ row hrow
      rw [henvironment, hissue, hproject]
      exact ⟨hne, row', hrow', howner'.trans howner⟩
    · obtain ⟨hne, rfl⟩ := hnew
      exact ⟨hne, hlanding⟩

theorem Written.seen {w : DigestWrite} {freshId : Uuid} {now : Int} {landing : Landing}
    (h : Seen db) (hw : Written config db w freshId now db' landing) : Seen db' where
  toPlaced := hw.placed h.toPlaced
  counts := by
    intro i environment hne
    have hrow : (decide ((w.row landing.issueId).issueId = some i ∧
        (w.row landing.issueId).environment = environment) = true) =
          (i = landing.issueId ∧ w.storedEnvironment = environment) := by
      rw [decide_eq_true_eq]
      exact propext ⟨fun h => ⟨(Option.some.inj h.1).symm, h.2⟩,
        fun h => ⟨congrArg some h.1.symm, h.2⟩⟩
    unfold Db.eventsIn
    rw [hw.events, countP_insert, hw.environmentCount i hne, h.counts i environment hne]
    simp only [hrow]
    rfl

/-! ## Deletions -/

variable {ids : List Uuid}

theorem environmentCount_deleteIssues (db : Db) (ids : List Uuid) (i : Uuid)
    (environment : String) :
    (db.deleteIssues ids).environmentCount i environment =
      if i ∈ ids then 0 else db.environmentCount i environment := by
  unfold Db.environmentCount Db.deleteIssues
  dsimp only
  have hfilter : lookup IssueEnvironment.key (i, environment)
      (db.environments.filter fun e => !ids.contains e.issueId) =
        if !ids.contains i then lookup IssueEnvironment.key (i, environment) db.environments
        else none := lookup_filter_key fun k : Uuid × String => !ids.contains k.1
  rw [hfilter]
  by_cases hi : i ∈ ids <;> simp [hi]

theorem eventsIn_deleteIssues (db : Db) (ids : List Uuid) (i : Uuid) (environment : String) :
    (db.deleteIssues ids).eventsIn i environment =
      if i ∈ ids then 0 else db.eventsIn i environment :=
  countP_deleteIssues db ids fun _ hrow => (of_decide_eq_true hrow).1

theorem Placed.deleteIssues (h : Placed db) (ids : List Uuid) : Placed (db.deleteIssues ids) where
  linked := linked_deleteIssues h.linked ids
  keys := h.keys.sublist (List.filter_sublist.map _)
  owned := by
    intro e he
    obtain ⟨hmem, hkept⟩ := List.mem_filter.mp he
    obtain ⟨hne, row, hrow, hproject⟩ := h.owned e hmem
    refine ⟨hne, row, ?_, hproject⟩
    rw [issue_deleteIssues, hrow]
    exact if_neg (by simpa using hkept)

theorem Seen.deleteIssues (h : Seen db) (ids : List Uuid) : Seen (db.deleteIssues ids) where
  toPlaced := h.toPlaced.deleteIssues ids
  counts := by
    intro i environment hne
    rw [environmentCount_deleteIssues, eventsIn_deleteIssues]
    split_ifs
    · rfl
    · exact h.counts i environment hne

/-- What the invariant reads is not in the projects. -/
theorem Placed.uncount (h : Placed db) (projectId : Int) (stored digested : Int) :
    Placed (db.uncount projectId stored digested) where
  linked := ⟨h.linked.issueIds, h.linked.eventKeys, h.linked.events, h.linked.groupings⟩
  keys := h.keys
  owned := h.owned

theorem Seen.uncount (h : Seen db) (projectId : Int) (stored digested : Int) :
    Seen (db.uncount projectId stored digested) where
  toPlaced := h.toPlaced.uncount projectId stored digested
  counts := h.counts

/-- What deleting issues and taking their events off the counters keeps, a deletion keeps. -/
theorem delete_keeps {Inv : Db → Prop} (hdeletes : ∀ db ids, Inv db → Inv (db.deleteIssues ids))
    (huncounts : ∀ db projectId stored digested, Inv db →
      Inv (db.uncount projectId stored digested))
    (h : Inv db) {id : Uuid} (hdelete : IssueService.delete db id = .ok db') : Inv db' := by
  unfold IssueService.delete at hdelete
  split at hdelete
  · cases hdelete
  · obtain rfl := Except.ok.inj hdelete
    exact huncounts _ _ _ _ (hdeletes _ [id] h)

theorem bulkDelete_keeps {Inv : Db → Prop}
    (hdelete : ∀ db db' id, Inv db → IssueService.delete db id = .ok db' → Inv db')
    {projectId : Int} {ids : List Uuid} (h : Inv db) (deleted : Nat) :
    Inv (IssueService.bulkDelete db projectId deleted ids).1 := by
  induction ids generalizing db deleted with
  | nil => exact h
  | cons id rest ih =>
      unfold IssueService.bulkDelete
      split_ifs
      · exact ih h deleted
      · split
        · exact h
        · next hdeleted => exact ih (hdelete _ _ _ h hdeleted) (deleted + 1)

theorem delete_seen (h : Seen db) {id : Uuid} (hdelete : IssueService.delete db id = .ok db') :
    Seen db' :=
  delete_keeps (fun _ ids h => Seen.deleteIssues h ids) (fun _ _ _ _ h => Seen.uncount h _ _ _) h
    hdelete

theorem bulkDelete_seen {projectId : Int} {ids : List Uuid} (h : Seen db) (deleted : Nat) :
    Seen (IssueService.bulkDelete db projectId deleted ids).1 :=
  bulkDelete_keeps (fun _ _ _ h hdelete => delete_seen h hdelete) h deleted

theorem delete_placed (h : Placed db) {id : Uuid} (hdelete : IssueService.delete db id = .ok db') :
    Placed db' :=
  delete_keeps (fun _ ids h => Placed.deleteIssues h ids)
    (fun _ _ _ _ h => Placed.uncount h _ _ _) h hdelete

theorem deleteByFilter_seen (h : Seen db) (projectId : Int) (filter : IssueFilter) :
    Seen (IssueService.deleteByFilter db projectId filter).1 :=
  (h.deleteIssues _).uncount _ _ _

/-! ## A retention batch -/

variable {projectId cutoff : Int} {picked : List EventRow}

/-- A batch is whole when it leaves no event of an issue whose events in an environment
it takes. -/
def Whole (db : Db) (picked : List EventRow) : Prop :=
  ∀ e ∈ picked, e.environment ≠ "" → ∀ e' ∈ db.events, e'.issueId = e.issueId → e' ∈ picked

/-- The tables after a batch: its issues left empty are deleted from those without its
events and their counts. -/
theorem deleteEventBatch_eq {events issues : Nat}
    (hbatch : deleteEventBatch db projectId picked = some (db', events, issues)) :
    db' = (deletePicked (subtractBatch db projectId picked) picked).deleteIssues
      (emptied (deletePicked (subtractBatch db projectId picked) picked) picked) := by
  unfold deleteEventBatch at hbatch
  split_ifs at hbatch
  exact (Prod.mk.inj (Option.some.inj hbatch)).1.symm

theorem placed_subtractBatch (h : Placed db) (projectId : Int) (picked : List EventRow) :
    Placed (deletePicked (subtractBatch db projectId picked) picked) where
  linked := linked_subtractBatch h.linked projectId picked
  keys := h.keys
  owned := by
    intro e he
    obtain ⟨hne, row, hrow, hproject⟩ := h.owned e he
    refine ⟨hne, row.without picked, ?_, hproject⟩
    rw [issue_subtractBatch, hrow]
    rfl

/-- A picked event's issue is emptied when all its events are picked. -/
theorem mem_emptied_iff {i : Uuid} :
    i ∈ emptied (deletePicked (subtractBatch db projectId picked) picked) picked ↔
      (∃ e ∈ picked, e.issueId = some i) ∧
        ∀ e ∈ db.events, e.issueId = some i → e.key ∈ picked.map EventRow.key := by
  unfold emptied
  rw [List.mem_filter, List.mem_filterMap, Bool.not_eq_true', List.any_eq_false]
  refine and_congr_right fun _ => ⟨fun hnone e he hi => ?_, fun hall e he hi => ?_⟩
  · by_contra hkept
    refine hnone e (List.mem_filter.mpr ⟨he, ?_⟩) (decide_eq_true hi)
    simpa using hkept
  · obtain ⟨hmem, hkept⟩ := List.mem_filter.mp he
    have hkey := hall e hmem (of_decide_eq_true hi)
    rw [Bool.not_eq_true', ← Bool.not_eq_true, List.contains_iff_mem] at hkept
    exact hkept hkey

/-- A picked key is that of a picked event. -/
private theorem mem_picked_of_key (h : Linked db) (hpicked : picked.Sublist db.events)
    {e : EventRow} (he : e ∈ db.events) (hkey : e.key ∈ picked.map EventRow.key) : e ∈ picked := by
  obtain ⟨e', he', hkey'⟩ := List.mem_map.mp hkey
  have hsame : e' = e := List.inj_on_of_nodup_map h.eventKeys (hpicked.subset he') he hkey'
  rw [← hsame]
  exact he'

/-- What is left of an environment's events after a batch, while its row is as it was. -/
private theorem batch_counts (h : Seen db)
    (hpicked : picked.Sublist (expired db projectId cutoff)) {i : Uuid} {environment : String}
    (hne : environment ≠ "") :
    (deletePicked (subtractBatch db projectId picked) picked).environmentCount i environment =
      (deletePicked (subtractBatch db projectId picked) picked).eventsIn i environment +
        (picked.countP fun e => e.issueId = some i ∧ e.environment = environment : Nat) := by
  have hsplit := countP_deletePicked h.linked hpicked fun e =>
    decide (e.issueId = some i ∧ e.environment = environment)
  have hcount := h.counts i environment hne
  change db.environmentCount i environment = _
  unfold Db.eventsIn at hcount ⊢
  rw [hcount, ← hsplit]
  rfl

/-- A batch keeps the invariant exactly when it is whole. -/
theorem deleteEventBatch_seen_iff (h : Seen db)
    (hpicked : picked.Sublist (expired db projectId cutoff)) {events issues : Nat}
    (hbatch : deleteEventBatch db projectId picked = some (db', events, issues)) :
    Seen db' ↔ Whole db picked := by
  have hevents : picked.Sublist db.events := hpicked.trans List.filter_sublist
  rw [deleteEventBatch_eq hbatch]
  constructor
  · intro hafter e he hne e' he' hi'
    obtain ⟨i, row, hi, _⟩ := h.linked.events e (hevents.subset he)
    have hcount := hafter.counts i e.environment hne
    rw [environmentCount_deleteIssues, eventsIn_deleteIssues] at hcount
    split_ifs at hcount with hgone
    · exact mem_picked_of_key h.linked hevents he'
        ((mem_emptied_iff.mp hgone).2 e' he' (hi'.trans hi))
    · -- Not emptied: the batch would have taken nothing from this environment.
      exfalso
      have hsplit := batch_counts h hpicked (i := i) hne
      have hpos : 0 < picked.countP fun x =>
          decide (x.issueId = some i ∧ x.environment = e.environment) := by
        rw [List.countP_pos_iff]
        exact ⟨e, he, decide_eq_true ⟨hi, rfl⟩⟩
      omega
  · intro hwhole
    refine { toPlaced := ?_, counts := ?_ }
    · have hplaced := placed_subtractBatch h.toPlaced projectId picked
      exact hplaced.deleteIssues _
    · intro i environment hne
      rw [environmentCount_deleteIssues, eventsIn_deleteIssues]
      split_ifs with hgone
      · rfl
      · have hsplit := batch_counts h hpicked (i := i) hne
        have hnone : (picked.countP fun x =>
            decide (x.issueId = some i ∧ x.environment = environment)) = 0 := by
          rw [List.countP_eq_zero]
          intro e he hin
          obtain ⟨hi, henvironment⟩ := of_decide_eq_true hin
          rw [mem_emptied_iff] at hgone
          refine hgone ⟨⟨e, he, hi⟩, fun e' he' hi' => List.mem_map_of_mem ?_⟩
          exact hwhole e he (henvironment ▸ hne) e' he' (hi'.trans hi.symm)
        omega

/-! ## Runs -/

theorem Placed.triage (h : Placed db) {change : Issue → Issue}
    (hchange : ∀ i, (change i).id = i.id ∧ (change i).projectId = i.projectId) :
    Placed { db with issues := db.issues.map change } where
  linked := linked_triage h.linked hchange
  keys := h.keys
  owned := by
    intro e he
    obtain ⟨hne, row, hrow, hproject⟩ := h.owned e he
    refine ⟨hne, change row, ?_, (hchange row).2.trans hproject⟩
    rw [issue_triage fun i => (hchange i).1, hrow]
    rfl

theorem Seen.triage (h : Seen db) {change : Issue → Issue}
    (hchange : ∀ i, (change i).id = i.id ∧ (change i).projectId = i.projectId) :
    Seen { db with issues := db.issues.map change } where
  toPlaced := h.toPlaced.triage hchange
  counts := h.counts

private theorem Seen.commits {a : Attempt} (h : Seen db)
    (hafter : db' = db ∨ Commits config db a db') : Seen db' := by
  rcases hafter with rfl | hcommit
  · exact h
  · obtain ⟨_, hw⟩ := hcommit.written
    exact hw.seen h

/-- A cleanup picks a whole batch; nothing else is asked of a step. -/
def WholeLabel (db : Db) : StoreLabel → Prop
  | .cleanup _ _ _ picked => Whole db picked
  | _ => True

/-- A step keeps the invariant exactly when it is whole. -/
theorem storeStep_seen_iff {label : StoreLabel} (h : Seen db)
    (hstep : StoreStep config db label db') : Seen db' ↔ WholeLabel db label := by
  cases hstep with
  | digested a => exact iff_of_true (h.commits (digest_commits_or_keeps config db a)) trivial
  | raced a =>
      exact iff_of_true (h.commits (writeDigestOnce_commits_or_keeps config db a)) trivial
  | deleted hdelete => exact iff_of_true (delete_seen h hdelete) trivial
  | bulkDeleted projectId ids => exact iff_of_true (bulkDelete_seen h 0) trivial
  | filterDeleted projectId filter =>
      exact iff_of_true (deleteByFilter_seen h projectId filter) trivial
  | cleaned hpicks hbatch => exact deleteEventBatch_seen_iff h hpicks.1 hbatch
  | triage change hchange =>
      exact iff_of_true (h.triage fun i => ⟨(hchange i).1, (hchange i).2.1⟩) trivial

private theorem Placed.commits {a : Attempt} (h : Placed db)
    (hafter : db' = db ∨ Commits config db a db') : Placed db' := by
  rcases hafter with rfl | hcommit
  · exact h
  · obtain ⟨_, hw⟩ := hcommit.written
    exact hw.placed h

/-- A step keeps the tables placed, whole or not. -/
theorem storeStep_placed {label : StoreLabel} (h : Placed db)
    (hstep : StoreStep config db label db') : Placed db' := by
  cases hstep with
  | digested a => exact h.commits (digest_commits_or_keeps config db a)
  | raced a => exact h.commits (writeDigestOnce_commits_or_keeps config db a)
  | deleted hdelete => exact delete_placed h hdelete
  | bulkDeleted projectId ids =>
      exact bulkDelete_keeps (fun _ _ _ h hdelete => delete_placed h hdelete) h 0
  | filterDeleted projectId filter =>
      have hdeleted := h.deleteIssues
        ((db.issues.filter (filter.clause .error projectId)).map Issue.id)
      exact hdeleted.uncount _ _ _
  | cleaned hpicks hbatch =>
      rw [deleteEventBatch_eq hbatch]
      have hplaced := placed_subtractBatch h
      exact (hplaced _ _).deleteIssues _
  | triage change hchange =>
      exact h.triage fun i => ⟨(hchange i).1, (hchange i).2.1⟩

theorem storeStep_agrees_iff {label : StoreLabel} (h : Seen db)
    (hstep : StoreStep config db label db') : ListAgrees db' ↔ WholeLabel db label :=
  (storeStep_placed h.toPlaced hstep).agrees_iff.trans (storeStep_seen_iff h hstep)

/-- A step to a state in which the list agrees with the events. -/
def AgreeingStep (config : RateLimitConfig) (db : Db) (label : StoreLabel) (db' : Db) : Prop :=
  StoreStep config db label db' ∧ ListAgrees db'

/-- A step whose batch, if it is one, is whole. -/
def WholeStep (config : RateLimitConfig) (db : Db) (label : StoreLabel) (db' : Db) : Prop :=
  StoreStep config db label db' ∧ WholeLabel db label

/-- From an installation without events, the runs in which the list agrees with the
events in every state are those in which every batch is whole. -/
theorem list_agrees_iff_batches_whole (config : RateLimitConfig) (projectIds : List Int)
    (labels : List StoreLabel) (final : Db) :
    ListAgrees (.fresh projectIds) ∧
      (Run (AgreeingStep config) (.fresh projectIds) labels final ↔
        Run (WholeStep config) (.fresh projectIds) labels final) := by
  have hstart := seen_fresh projectIds
  refine ⟨hstart.agrees, Run.congr Seen ?_ ?_ hstart⟩
  · intro db label db' hseen hstep
    exact (storeStep_placed hseen.toPlaced hstep.1).seen_of_agrees hstep.2
  · intro db label db' hseen
    exact and_congr_right fun hstep => storeStep_agrees_iff hseen hstep

/-- The first error again in its environment. -/
def repeated : Attempt where
  write := ⟨"event-3", 1, "ValueError", "v", "v", 200, "1.0", "production", .error⟩
  freshId := "issue-2"
  checked := 200
  now := 200

/-- Of the two events of an issue in production the older one is cleaned up: the list
still shows two. -/
theorem list_shows_cleaned_events :
    ∃ final, Run (StoreStep tenPerMinute) (.fresh [1])
        [.attempt replayed, .attempt repeated,
          .cleanup 1 150 10 [replayed.write.row "issue-1"]] final ∧
      ((IssueService.listWindow final 1 (fun _ _ => true) .all .error 0 10 (some "production")
        fun _ => true).1.map fun row => (row.id, row.digestedEventCount)) = [("issue-1", 2)] ∧
      final.eventsIn "issue-1" "production" = 1 ∧ ¬ListAgrees final := by
  have hrun := Run.cons (@StoreStep.digested tenPerMinute (.fresh [1]) replayed)
    (.cons (.digested _ repeated)
      (Run.single (@StoreStep.cleaned _ _ _ 1 150 10 _ _ [replayed.write.row "issue-1"]
        ⟨by decide, by decide⟩ rfl)))
  refine ⟨_, hrun, by decide, by decide, fun h => ?_⟩
  have hshown := h.shown 1 (fun _ _ => true) .all .error 0 10 "production" fun _ => true
  revert hshown
  decide

end Rustrak.Digest
