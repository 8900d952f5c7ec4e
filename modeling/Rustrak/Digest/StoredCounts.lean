import Mathlib.Algebra.BigOperators.Ring.Finset
import Rustrak.Digest.Deletion

/-!
# The stored counts

`issues.stored_event_count` and `projects.stored_event_count` are counted by five
operations, each in its own way: the digest adds one, a deletion takes off what the
row says, the filter takes off a sum, and the retention batch takes off what it
picked.  They all keep `Counted`: the counters are the numbers of event rows.

## Strategy

The counters are read by key (`Db.storedCount`, `Db.projectStoredCount`), so each
operation is followed by what it does to a lookup.  For deletions the bridge is
`countP_any_eq_sum`: the events of some issues are as many as the sum of the events
of each.  A batch is split in two: after its events and their counts are gone the
tables are counted again, and the issues it deletes then own no event.
-/

namespace Rustrak.Digest

open Rustrak.Core Rustrak.Quota Rustrak.Relational Rustrak.Transition

/-- The number of event rows of an issue. -/
def Db.eventsOf (db : Db) (i : Uuid) : Nat := db.events.countP fun e => e.issueId = some i

/-- The number of event rows of a project. -/
def Db.projectEvents (db : Db) (p : Int) : Nat := db.events.countP fun e => e.projectId = p

/-- The keys and references of the tables. -/
structure Linked (db : Db) : Prop where
  issueIds : (db.issues.map Issue.id).Nodup
  eventKeys : (db.events.map EventRow.key).Nodup
  /-- Every event belongs to an issue of its own project. -/
  events : ∀ e ∈ db.events, ∃ i row, e.issueId = some i ∧ db.issue i = some row ∧
    row.projectId = e.projectId
  /-- And so does every grouping. -/
  groupings : ∀ g ∈ db.groupings, ∃ row, db.issue g.issueId = some row ∧
    row.projectId = g.projectId

/-- The counters are the numbers of event rows. -/
structure Counted (db : Db) : Prop where
  linked : Linked db
  stored : ∀ i, db.storedCount i = db.eventsOf i
  project : ∀ p, db.projectStoredCount p = db.projectEvents p

theorem counted_fresh (projectIds : List Int) : Counted (.fresh projectIds) where
  linked :=
    { issueIds := by simp [Db.fresh]
      eventKeys := by simp [Db.fresh]
      events := by simp [Db.fresh]
      groupings := by simp [Db.fresh] }
  stored := by simp [Db.fresh, Db.storedCount, Db.issue, Db.eventsOf, lookup]
  project := by
    intro p
    unfold Db.projectStoredCount
    cases hrow : (Db.fresh projectIds).project p with
    | none => simp [Db.projectEvents, Db.fresh]
    | some row =>
        have hmem := mem_of_lookup hrow
        obtain ⟨id, _, rfl⟩ := List.mem_map.mp hmem
        simp [Db.projectEvents, Db.fresh]

variable {config : RateLimitConfig} {db db' : Db}

/-! ## The digest -/

/-- The issue an event lands on is one of its project, and no other issue changes hands. -/
private theorem landing_project {w : DigestWrite} {freshId : Uuid} {landing : Landing}
    (h : Linked db) (hlands : Lands db w freshId db' landing) :
    ∀ row, db.issue landing.issueId = some row → row.projectId = w.projectId := by
  have hfound : ∀ {hash g issue}, db.findGrouping w.projectId hash = some (g, issue) →
      ∀ row, db.issue g.issueId = some row → row.projectId = w.projectId := by
    intro hash g issue hfound row hrow
    obtain ⟨hg, hkey, _⟩ := findGrouping_eq_some hfound
    obtain ⟨row', hrow', hproject⟩ := h.groupings g hg
    rw [hrow] at hrow'
    obtain rfl := Option.some.inj hrow'
    rw [hproject]
    exact (Prod.mk.inj hkey).1
  cases hlands with
  | current h' => exact hfound h'
  | legacy _ _ h' _ => exact hfound h'
  | created _ _ hfresh _ =>
      intro row hrow
      rw [hfresh] at hrow
      cases hrow

private theorem lands_issueIds {w : DigestWrite} {freshId : Uuid} {landing : Landing}
    (h : Linked db) (hlands : Lands db w freshId db' landing) :
    (db'.issues.map Issue.id).Nodup ∧
      ∀ g ∈ db'.groupings, g ∈ db.groupings ∨ g = w.grouping landing.issueId := by
  have hkey : ∀ (prev issue : Issue), (issue.withEvent prev w).id = issue.id := fun _ _ => rfl
  cases hlands with
  | current _ =>
      rw [map_key_modify (hkey _)]
      exact ⟨h.issueIds, fun _ hg => .inl hg⟩
  | legacy _ _ _ _ =>
      rw [map_key_modify (hkey _)]
      exact ⟨h.issueIds, fun g hg => by simpa using hg⟩
  | created _ _ hfresh _ =>
      exact ⟨nodup_insert h.issueIds hfresh, fun g hg => by simpa using hg⟩

/-- Every issue keeps its project, and the landing has the event's. -/
theorem Written.issue_project {w : DigestWrite} {freshId : Uuid} {now : Int}
    {landing : Landing} (h : Linked db) (hw : Written config db w freshId now db' landing) :
    (∀ i row, db.issue i = some row → ∃ row', db'.issue i = some row' ∧
      row'.projectId = row.projectId) ∧
    ∃ row, db'.issue landing.issueId = some row ∧ row.projectId = w.projectId := by
  have hproject := landing_project h hw.lands
  have hlanding : ∃ row, db'.issue landing.issueId = some row ∧ row.projectId = w.projectId := by
    rcases hw.issue_landing with ⟨prev, hold, hnew⟩ | ⟨_, hnew⟩
    · exact ⟨_, hnew, hproject prev hold⟩
    · exact ⟨_, hnew, rfl⟩
  refine ⟨fun i row hrow => ?_, hlanding⟩
  by_cases hi : i = landing.issueId
  · subst hi
    obtain ⟨row', hrow', hproject'⟩ := hlanding
    exact ⟨row', hrow', hproject'.trans (hproject row hrow).symm⟩
  · exact ⟨row, by rw [hw.issue_ne hi]; exact hrow, rfl⟩

theorem Written.linked {w : DigestWrite} {freshId : Uuid} {now : Int} {landing : Landing}
    (h : Linked db) (hw : Written config db w freshId now db' landing) : Linked db' := by
  have hids := lands_issueIds h hw.lands
  obtain ⟨hkept, hlanding⟩ := hw.issue_project h
  have hfree : lookup EventRow.key (w.projectId, w.eventId) db.events = none := by
    simpa [Db.hasEvent] using hw.fresh
  refine ⟨hids.1, ?_, ?_, ?_⟩
  · rw [hw.events]
    exact nodup_insert h.eventKeys hfree
  · intro e he
    rw [hw.events] at he
    rcases List.mem_append.mp he with he | he
    · obtain ⟨i, row, hi, hrow, hproject⟩ := h.events e he
      obtain ⟨row', hrow', hproject'⟩ := hkept i row hrow
      exact ⟨i, row', hi, hrow', hproject'.trans hproject⟩
    · obtain rfl := List.mem_singleton.mp he
      obtain ⟨row, hrow, hproject⟩ := hlanding
      exact ⟨landing.issueId, row, rfl, hrow, hproject⟩
  · intro g hg
    rcases hids.2 g hg with hold | rfl
    · obtain ⟨row, hrow, hproject⟩ := h.groupings g hold
      obtain ⟨row', hrow', hproject'⟩ := hkept _ row hrow
      exact ⟨row', hrow', hproject'.trans hproject⟩
    · exact hlanding

theorem countP_insert (rows : List EventRow) (row : EventRow) (p : EventRow → Bool) :
    (((rows ++ [row]).countP p : Nat) : Int) = (rows.countP p : Nat) + one (p row = true) := by
  unfold one
  rw [List.countP_append]
  by_cases h : p row = true <;> simp [h]

theorem Written.counted {w : DigestWrite} {freshId : Uuid} {now : Int} {landing : Landing}
    (h : Counted db) (hw : Written config db w freshId now db' landing) : Counted db' where
  linked := hw.linked h.linked
  stored := by
    intro i
    unfold Db.eventsOf
    rw [hw.events, countP_insert, hw.storedCount, h.stored]
    simp [Db.eventsOf, DigestWrite.row, eq_comm]
  project := by
    intro p
    unfold Db.projectEvents
    rw [hw.events, countP_insert, hw.projectStoredCount, h.project]
    simp [Db.projectEvents, DigestWrite.row, eq_comm]

/-! ## Deleting issues -/

variable {ids : List Uuid}

theorem issue_deleteIssues (db : Db) (ids : List Uuid) (i : Uuid) :
    (db.deleteIssues ids).issue i = if i ∈ ids then none else db.issue i := by
  unfold Db.issue Db.deleteIssues
  rw [lookup_filter_key fun k => !ids.contains k]
  by_cases hi : i ∈ ids <;> simp [hi]

/-- Of the rows of one issue, a deletion leaves none or all. -/
theorem countP_deleteIssues (db : Db) (ids : List Uuid) {i : Uuid} {q : EventRow → Bool}
    (hq : ∀ e, q e = true → e.issueId = some i) :
    (db.deleteIssues ids).events.countP q = if i ∈ ids then 0 else db.events.countP q := by
  unfold Db.deleteIssues
  dsimp only
  rw [List.countP_filter]
  split_ifs with hi
  · rw [List.countP_eq_zero]
    intro e _ hboth
    rw [Bool.and_eq_true] at hboth
    rw [hq e hboth.1] at hboth
    simp [hi] at hboth
  · apply List.countP_congr
    intro e _
    rw [Bool.and_eq_true]
    refine ⟨fun hboth => hboth.1, fun hrow => ⟨hrow, ?_⟩⟩
    rw [hq e hrow]
    simp [hi]

theorem eventsOf_deleteIssues (db : Db) (ids : List Uuid) (i : Uuid) :
    (db.deleteIssues ids).eventsOf i = if i ∈ ids then 0 else db.eventsOf i :=
  countP_deleteIssues db ids fun _ => of_decide_eq_true

/-- What a project keeps, and what it loses. -/
theorem projectEvents_deleteIssues (db : Db) (ids : List Uuid) (p : Int) :
    (db.deleteIssues ids).projectEvents p +
      (db.events.countP fun e => decide (e.projectId = p) && e.issueId.any ids.contains) =
        db.projectEvents p := by
  unfold Db.projectEvents Db.deleteIssues
  dsimp only
  rw [List.countP_filter, ← countP_or_of_disjoint]
  · apply List.countP_congr
    intro e _
    cases decide (e.projectId = p) <;> cases e.issueId.any ids.contains <;> simp
  · rintro e _ ⟨hkept, hlost⟩
    simp only [Bool.and_eq_true, Bool.not_eq_true'] at hkept hlost
    rw [hlost.2] at hkept
    cases hkept.2

theorem linked_deleteIssues (h : Linked db) (ids : List Uuid) : Linked (db.deleteIssues ids) where
  issueIds := h.issueIds.sublist (List.filter_sublist.map _)
  eventKeys := h.eventKeys.sublist (List.filter_sublist.map _)
  events := by
    intro e he
    obtain ⟨he, hkept⟩ := List.mem_filter.mp he
    obtain ⟨i, row, hi, hrow, hproject⟩ := h.events e he
    refine ⟨i, row, hi, ?_, hproject⟩
    rw [hi] at hkept
    rw [issue_deleteIssues, if_neg (by simpa using hkept)]
    exact hrow
  groupings := by
    intro g hg
    obtain ⟨hg, hkept⟩ := List.mem_filter.mp hg
    obtain ⟨row, hrow, hproject⟩ := h.groupings g hg
    refine ⟨row, ?_, hproject⟩
    rw [issue_deleteIssues, if_neg (by simpa using hkept)]
    exact hrow

private theorem stored_deleteIssues (h : Counted db) (ids : List Uuid) (i : Uuid) :
    (db.deleteIssues ids).storedCount i = (db.deleteIssues ids).eventsOf i := by
  rw [eventsOf_deleteIssues]
  unfold Db.storedCount
  rw [issue_deleteIssues]
  split_ifs
  · rfl
  · exact h.stored i

private theorem projectStoredCount_uncount (db : Db) (p : Int) {stored : Int} (digested q : Int)
    (hstored : 0 ≤ stored) :
    (db.uncount p stored digested).projectStoredCount q =
      if q = p then max 0 (db.projectStoredCount q - stored) else db.projectStoredCount q := by
  have hkey : ∀ row : Project, ({ row with
      storedEventCount := max 0 (row.storedEventCount - stored)
      digestedEventCount := max 0 (row.digestedEventCount - digested) } : Project).id = row.id :=
    fun _ => rfl
  unfold Db.projectStoredCount Db.project Db.uncount
  dsimp only
  rw [lookup_modify hkey]
  split_ifs with hq
  · cases hrow : lookup Project.id q db.projects with
    | none =>
        simp only [Option.map_none, Option.getD_none]
        omega
    | some row => rfl
  · rfl

/-- Deleting issues of one project, and taking as many events off its counter as they
had, keeps the counts. -/
theorem Counted.deleteIssues_uncount (h : Counted db) {p : Int}
    (hin : ∀ i ∈ ids, ∀ row, db.issue i = some row → row.projectId = p) {stored digested : Int}
    (hstored : stored = (db.events.countP fun e => e.issueId.any ids.contains : Nat)) :
    Counted ((db.deleteIssues ids).uncount p stored digested) where
  linked := by
    have hlinked := linked_deleteIssues h.linked ids
    exact ⟨hlinked.issueIds, hlinked.eventKeys, hlinked.events, hlinked.groupings⟩
  stored := stored_deleteIssues h ids
  project := by
    intro q
    have hproject : (db.deleteIssues ids).projectStoredCount q = db.projectEvents q := h.project q
    have hsplit := projectEvents_deleteIssues db ids q
    -- The deleted issues' events are all in project `p`.
    have hlost : (db.events.countP fun e =>
        decide (e.projectId = q) && e.issueId.any ids.contains) =
          if q = p then db.events.countP fun e => e.issueId.any ids.contains else 0 := by
      have howned : ∀ e ∈ db.events, e.issueId.any ids.contains = true → e.projectId = p := by
        intro e he hany
        obtain ⟨i, row, hi, hrow, heq⟩ := h.linked.events e he
        rw [hi] at hany
        rw [← heq]
        exact hin i (by simpa using hany) row hrow
      split_ifs with hq
      · apply List.countP_congr
        intro e he
        rw [Bool.and_eq_true, decide_eq_true_eq]
        exact ⟨fun hboth => hboth.2, fun hany => ⟨(howned e he hany).trans hq.symm, hany⟩⟩
      · rw [List.countP_eq_zero]
        intro e he hboth
        rw [Bool.and_eq_true, decide_eq_true_eq] at hboth
        exact hq (hboth.1.symm.trans (howned e he hboth.2))
    change ((db.deleteIssues ids).uncount p stored digested).projectStoredCount q =
      ((db.deleteIssues ids).projectEvents q : Int)
    rw [projectStoredCount_uncount _ _ _ _ (by omega), hproject, hstored]
    split_ifs at hlost ⊢ with hq
    · rw [hlost] at hsplit
      omega
    · rw [hlost] at hsplit
      omega

/-- Deleting issues without events needs no counting. -/
theorem Counted.deleteIssues_empty (h : Counted db) (hempty : ∀ i ∈ ids, db.eventsOf i = 0) :
    Counted (db.deleteIssues ids) where
  linked := linked_deleteIssues h.linked ids
  stored := stored_deleteIssues h ids
  project := by
    intro q
    have hsplit := projectEvents_deleteIssues db ids q
    have hnone : (db.events.countP fun e =>
        decide (e.projectId = q) && e.issueId.any ids.contains) = 0 := by
      rw [List.countP_eq_zero]
      intro e he hboth
      rw [Bool.and_eq_true] at hboth
      obtain ⟨i, _, hi, _⟩ := h.linked.events e he
      rw [hi] at hboth
      have hzero := List.countP_eq_zero.mp (hempty i (by simpa using hboth.2)) e he
      simp [hi] at hzero
    change db.projectStoredCount q = ((db.deleteIssues ids).projectEvents q : Int)
    rw [h.project q]
    omega

/-! ### The three deletions -/

theorem delete_counted (h : Counted db) {id : Uuid}
    (hdelete : IssueService.delete db id = .ok db') : Counted db' := by
  unfold IssueService.delete at hdelete
  split at hdelete
  · cases hdelete
  · next row hrow =>
      obtain rfl := Except.ok.inj hdelete
      refine h.deleteIssues_uncount ?_ ?_
      · intro i hi row' hrow'
        rw [List.mem_singleton.mp hi, hrow] at hrow'
        rw [Option.some.inj hrow']
      · have hstored := h.stored id
        unfold Db.storedCount at hstored
        rw [hrow] at hstored
        rw [countP_any_eq_sum EventRow.issueId db.events (List.nodup_singleton id)]
        simpa [Db.eventsOf] using hstored

theorem bulkDelete_counted {projectId : Int} {ids : List Uuid} (h : Counted db) (deleted : Nat) :
    Counted (IssueService.bulkDelete db projectId deleted ids).1 := by
  induction ids generalizing db deleted with
  | nil => exact h
  | cons id rest ih =>
      unfold IssueService.bulkDelete
      split_ifs
      · exact ih h deleted
      · split
        · exact h
        · next hdelete => exact ih (delete_counted h hdelete) (deleted + 1)

theorem deleteByFilter_counted (h : Counted db) (projectId : Int) (filter : IssueFilter) :
    Counted (IssueService.deleteByFilter db projectId filter).1 := by
  have hclause : ∀ row ∈ db.issues.filter (filter.clause .error projectId),
      row.projectId = projectId := by
    intro row hrow
    have hmatches := (List.mem_filter.mp hrow).2
    simp only [IssueFilter.clause, Bool.and_eq_true, beq_iff_eq] at hmatches
    exact hmatches.1.1
  have hids : ((db.issues.filter (filter.clause .error projectId)).map Issue.id).Nodup :=
    h.linked.issueIds.sublist (List.filter_sublist.map _)
  refine h.deleteIssues_uncount ?_ ?_
  · intro i hi row hrow
    obtain ⟨row', hrow', rfl⟩ := List.mem_map.mp hi
    have hfound : db.issue row'.id = some row' :=
      lookup_of_mem h.linked.issueIds (List.mem_filter.mp hrow').1
    rw [hfound] at hrow
    rw [← Option.some.inj hrow]
    exact hclause row' hrow'
  · rw [countP_any_eq_sum EventRow.issueId db.events hids, List.map_map]
    -- Each row says how many events it has.
    have hrows : (db.issues.filter (filter.clause .error projectId)).map Issue.storedEventCount =
        (db.issues.filter (filter.clause .error projectId)).map fun row =>
          (db.eventsOf row.id : Int) := by
      apply List.map_congr_left
      intro row hrow
      have hstored := h.stored row.id
      unfold Db.storedCount at hstored
      rw [show db.issue row.id = some row from
        lookup_of_mem h.linked.issueIds (List.mem_filter.mp hrow).1] at hstored
      simpa using hstored
    rw [hrows, Nat.cast_list_sum, List.map_map]
    rfl

/-! ## A retention batch -/

variable {projectId cutoff : Int} {picked : List EventRow}

/-- The tables once the picked events and their counts are gone, and before the issues
left empty are. -/
theorem issue_subtractBatch (db : Db) (projectId : Int) (picked : List EventRow)
    (i : Uuid) :
    (deletePicked (subtractBatch db projectId picked) picked).issue i =
      (db.issue i).map fun row => row.without picked := by
  have hkey : ∀ row : Issue, (row.without picked).id = row.id := fun _ => rfl
  unfold Db.issue deletePicked subtractBatch
  exact lookup_map hkey

private theorem mem_of_picked (hpicked : picked.Sublist (expired db projectId cutoff))
    {e : EventRow} (he : e ∈ picked) : e ∈ db.events ∧ e.projectId = projectId := by
  have hmem := List.mem_filter.mp (hpicked.subset he)
  rw [Bool.and_eq_true, decide_eq_true_eq] at hmem
  exact ⟨hmem.1, hmem.2.1⟩

theorem linked_subtractBatch (h : Linked db) (projectId : Int) (picked : List EventRow) :
    Linked (deletePicked (subtractBatch db projectId picked) picked) where
  issueIds := by
    unfold deletePicked subtractBatch
    rw [List.map_map]
    exact h.issueIds
  eventKeys := h.eventKeys.sublist (List.filter_sublist.map _)
  events := by
    intro e he
    obtain ⟨i, row, hi, hrow, hproject⟩ := h.events e (List.mem_filter.mp he).1
    refine ⟨i, row.without picked, hi, ?_, hproject⟩
    rw [issue_subtractBatch, hrow]
    rfl
  groupings := by
    intro g hg
    obtain ⟨row, hrow, hproject⟩ := h.groupings g hg
    refine ⟨row.without picked, ?_, hproject⟩
    rw [issue_subtractBatch, hrow]
    rfl

/-- The events the batch leaves and those it picked are all there were. -/
theorem countP_deletePicked (h : Linked db)
    (hpicked : picked.Sublist (expired db projectId cutoff)) (q : EventRow → Bool) :
    (db.events.filter fun e => !(picked.map EventRow.key).contains e.key).countP q +
      picked.countP q = db.events.countP q :=
  countP_filter_not_mem h.eventKeys (hpicked.trans List.filter_sublist)
    (fun _ _ => List.contains_iff_mem) q

/-- Every picked event has an issue, so the project gives up as many as were picked. -/
private theorem countP_picked (h : Linked db)
    (hpicked : picked.Sublist (expired db projectId cutoff)) :
    (picked.countP fun e => e.issueId.any fun i => (db.issue i).isSome) = picked.length := by
  rw [List.countP_eq_length]
  intro e he
  obtain ⟨i, row, hi, hrow, _⟩ := h.events e (mem_of_picked hpicked he).1
  rw [hi]
  simp [hrow]

private theorem Counted.subtractBatch (h : Counted db)
    (hpicked : picked.Sublist (expired db projectId cutoff)) :
    Counted (deletePicked (subtractBatch db projectId picked) picked) where
  linked := linked_subtractBatch h.linked projectId picked
  stored := by
    intro i
    have hsplit := countP_deletePicked h.linked hpicked fun e => decide (e.issueId = some i)
    have hstored := h.stored i
    unfold Db.storedCount at hstored ⊢
    rw [issue_subtractBatch]
    change _ = (((db.events.filter fun e => !(picked.map EventRow.key).contains e.key).countP
      fun e => decide (e.issueId = some i) : Nat) : Int)
    unfold Db.eventsOf at hstored
    cases hrow : db.issue i with
    | none =>
        rw [hrow] at hstored
        simp only [Option.map_none, Option.getD_none] at hstored ⊢
        omega
    | some row =>
        have hid : row.id = i := key_of_lookup hrow
        rw [hrow] at hstored
        simp only [Option.map_some, Option.getD_some, Issue.without, hid, lost] at hstored ⊢
        omega
  project := by
    intro q
    have hsplit := countP_deletePicked h.linked hpicked fun e => decide (e.projectId = q)
    have hcount := countP_picked h.linked hpicked
    have hown : picked.countP (fun e => decide (e.projectId = q)) =
        if q = projectId then picked.length else 0 := by
      split_ifs with hq
      · rw [List.countP_eq_length]
        intro e he
        rw [decide_eq_true_eq, hq]
        exact (mem_of_picked hpicked he).2
      · rw [List.countP_eq_zero]
        intro e he hproject
        exact hq ((of_decide_eq_true hproject).symm.trans (mem_of_picked hpicked he).2)
    have hkey : ∀ row : Project, ({ row with
        storedEventCount := row.storedEventCount - picked.length
        digestedEventCount := row.digestedEventCount - picked.length } : Project).id = row.id :=
      fun _ => rfl
    have hproject := h.project q
    unfold Db.projectStoredCount Db.project at hproject ⊢
    unfold Db.projectEvents at hproject
    change _ = (((db.events.filter fun e =>
      !(picked.map EventRow.key).contains e.key).countP fun e => decide (e.projectId = q) : Nat) :
        Int)
    unfold deletePicked Digest.subtractBatch
    dsimp only
    rw [hcount, lookup_modify hkey]
    split_ifs at hown ⊢ with hq
    · cases hrow : lookup Project.id q db.projects with
      | none =>
          rw [hrow] at hproject
          simp only [Option.map_none, Option.getD_none] at hproject ⊢
          omega
      | some row =>
          rw [hrow] at hproject
          simp only [Option.map_some, Option.getD_some] at hproject ⊢
          omega
    · omega

private theorem eventsOf_emptied {picked : List EventRow} {i : Uuid} (hi : i ∈ emptied db picked) :
    db.eventsOf i = 0 := by
  have hnone := (List.mem_filter.mp hi).2
  simp only [Bool.not_eq_true', List.any_eq_false] at hnone
  exact List.countP_eq_zero.mpr hnone

theorem deleteEventBatch_counted (h : Counted db)
    (hpicked : picked.Sublist (expired db projectId cutoff)) {events issues : Nat}
    (hbatch : deleteEventBatch db projectId picked = some (db', events, issues)) :
    Counted db' := by
  unfold deleteEventBatch at hbatch
  split_ifs at hbatch
  obtain ⟨rfl, _⟩ := Prod.mk.inj (Option.some.inj hbatch)
  exact (h.subtractBatch hpicked).deleteIssues_empty fun i hi => eventsOf_emptied hi

/-- An issue whose last events a batch removed goes with them. -/
theorem deleteEventBatch_no_shell (h : Linked db)
    (hpicked : picked.Sublist (expired db projectId cutoff)) {events issues : Nat}
    (hbatch : deleteEventBatch db projectId picked = some (db', events, issues)) {i : Uuid}
    (hbefore : db.eventsOf i ≠ 0) (hafter : db'.eventsOf i = 0) : db'.issue i = none := by
  unfold deleteEventBatch at hbatch
  split_ifs at hbatch
  obtain ⟨rfl, _⟩ := Prod.mk.inj (Option.some.inj hbatch)
  rw [eventsOf_deleteIssues] at hafter
  rw [issue_deleteIssues]
  split_ifs at hafter ⊢ with hgone
  · rfl
  -- Not deleted, so it would keep an event; but all it had were picked.
  · exfalso
    apply hgone
    have hsplit := countP_deletePicked h hpicked fun e => decide (e.issueId = some i)
    change (db.events.filter fun e => !(picked.map EventRow.key).contains e.key).countP
      (fun e => decide (e.issueId = some i)) = 0 at hafter
    unfold Db.eventsOf at hbefore
    have hpos : 0 < picked.countP fun e => decide (e.issueId = some i) := by omega
    obtain ⟨e, he, hi⟩ := List.countP_pos_iff.mp hpos
    refine List.mem_filter.mpr ⟨List.mem_filterMap.mpr ⟨e, he, of_decide_eq_true hi⟩, ?_⟩
    simp only [Bool.not_eq_true', List.any_eq_false]
    exact List.countP_eq_zero.mp hafter

/-! ## Runs -/

/-- Anything that adds or removes events, and changes to issues that leave their
identity and counters alone. -/
inductive StoreLabel
  | attempt (a : Attempt)
  | delete (id : Uuid)
  | bulkDelete (projectId : Int) (ids : List Uuid)
  | deleteByFilter (projectId : Int) (filter : IssueFilter)
  | cleanup (projectId cutoff : Int) (limit : Nat) (picked : List EventRow)
  | triage

inductive StoreStep (config : RateLimitConfig) : Db → StoreLabel → Db → Prop
  | digested (db : Db) (a : Attempt) :
      StoreStep config db (.attempt a) (digest config db a.write a.freshId a.checked a.now).1
  | raced (db : Db) (a : Attempt) :
      StoreStep config db (.attempt a) (writeDigestOnce config db a.write a.freshId a.now).1
  | deleted {db db' : Db} {id : Uuid} :
      IssueService.delete db id = .ok db' → StoreStep config db (.delete id) db'
  | bulkDeleted (db : Db) (projectId : Int) (ids : List Uuid) :
      StoreStep config db (.bulkDelete projectId ids)
        (IssueService.bulkDelete db projectId 0 ids).1
  | filterDeleted (db : Db) (projectId : Int) (filter : IssueFilter) :
      StoreStep config db (.deleteByFilter projectId filter)
        (IssueService.deleteByFilter db projectId filter).1
  | cleaned {db db' : Db} {projectId cutoff : Int} {limit events issues : Nat}
      {picked : List EventRow} :
      Picks db projectId cutoff limit picked →
      deleteEventBatch db projectId picked = some (db', events, issues) →
      StoreStep config db (.cleanup projectId cutoff limit picked) db'
  | triage (db : Db) (change : Issue → Issue) :
      (∀ i, (change i).id = i.id ∧ (change i).projectId = i.projectId ∧
        (change i).storedEventCount = i.storedEventCount) →
      StoreStep config db .triage { db with issues := db.issues.map change }

private theorem Counted.commits {a : Attempt} (h : Counted db)
    (hafter : db' = db ∨ Commits config db a db') : Counted db' := by
  rcases hafter with rfl | hcommit
  · exact h
  · obtain ⟨_, hw⟩ := hcommit.written
    exact hw.counted h

theorem issue_triage {change : Issue → Issue} (hid : ∀ i, (change i).id = i.id) (i : Uuid) :
    ({ db with issues := db.issues.map change } : Db).issue i = (db.issue i).map change :=
  lookup_map hid

theorem linked_triage (h : Linked db) {change : Issue → Issue}
    (hchange : ∀ i, (change i).id = i.id ∧ (change i).projectId = i.projectId) :
    Linked { db with issues := db.issues.map change } where
  issueIds := by
    have hids : (db.issues.map change).map Issue.id = db.issues.map Issue.id := by
      rw [List.map_map]
      exact List.map_congr_left fun row _ => (hchange row).1
    rw [hids]
    exact h.issueIds
  eventKeys := h.eventKeys
  events := by
    intro e he
    obtain ⟨i, row, hi, hrow, hproject⟩ := h.events e he
    refine ⟨i, change row, hi, ?_, (hchange row).2.trans hproject⟩
    rw [issue_triage fun i => (hchange i).1, hrow]
    rfl
  groupings := by
    intro g hg
    obtain ⟨row, hrow, hproject⟩ := h.groupings g hg
    refine ⟨change row, ?_, (hchange row).2.trans hproject⟩
    rw [issue_triage fun i => (hchange i).1, hrow]
    rfl

private theorem Counted.triage (h : Counted db) {change : Issue → Issue}
    (hchange : ∀ i, (change i).id = i.id ∧ (change i).projectId = i.projectId ∧
      (change i).storedEventCount = i.storedEventCount) :
    Counted { db with issues := db.issues.map change } where
  linked := linked_triage h.linked fun i => ⟨(hchange i).1, (hchange i).2.1⟩
  stored := by
    intro i
    have hstored := h.stored i
    unfold Db.storedCount at hstored ⊢
    rw [issue_triage fun i => (hchange i).1]
    cases hrow : db.issue i with
    | none =>
        rw [hrow] at hstored
        exact hstored
    | some row =>
        rw [hrow] at hstored
        simp only [Option.map_some, Option.getD_some, (hchange row).2.2]
        exact hstored
  project := h.project

theorem storeStep_counted {label : StoreLabel} (h : Counted db)
    (hstep : StoreStep config db label db') : Counted db' := by
  cases hstep with
  | digested a => exact h.commits (digest_commits_or_keeps config db a)
  | raced a => exact h.commits (writeDigestOnce_commits_or_keeps config db a)
  | deleted hdelete => exact delete_counted h hdelete
  | bulkDeleted projectId ids => exact bulkDelete_counted h 0
  | filterDeleted projectId filter => exact deleteByFilter_counted h projectId filter
  | cleaned hpicks hbatch => exact deleteEventBatch_counted h hpicks.1 hbatch
  | triage change hchange => exact h.triage hchange

theorem run_counted {start final : Db} {labels : List StoreLabel} (h : Counted start)
    (hrun : Run (StoreStep config) start labels final) : Counted final :=
  Run.invariant Counted (fun _ _ _ hs hstep => storeStep_counted hs hstep) hrun h

/-- In every state a run reaches from an installation without events, the stored counts
of issues and projects are the numbers of their event rows; and whatever issue a cleanup
batch of that state empties does not exist after it. -/
theorem stored_counts_are_event_rows {projectIds : List Int} {final : Db}
    {labels : List StoreLabel}
    (hrun : Run (StoreStep config) (.fresh projectIds) labels final) :
    (∀ issue ∈ final.issues, issue.storedEventCount = final.eventsOf issue.id) ∧
      (∀ p row, final.project p = some row → row.storedEventCount = final.projectEvents p) ∧
      ∀ p cutoff limit picked after events issues, Picks final p cutoff limit picked →
        deleteEventBatch final p picked = some (after, events, issues) →
        ∀ i, final.eventsOf i ≠ 0 → after.eventsOf i = 0 → after.issue i = none := by
  have hcounted := run_counted (counted_fresh projectIds) hrun
  refine ⟨?_, ?_, ?_⟩
  · intro issue hissue
    have hstored := hcounted.stored issue.id
    have hfound : final.issue issue.id = some issue :=
      lookup_of_mem hcounted.linked.issueIds hissue
    unfold Db.storedCount at hstored
    rw [hfound] at hstored
    exact hstored
  · intro p row hrow
    have hproject := hcounted.project p
    unfold Db.projectStoredCount at hproject
    rw [hrow] at hproject
    exact hproject
  · intro p cutoff limit picked after events issues hpicks hbatch i hbefore hafter
    exact deleteEventBatch_no_shell hcounted.linked hpicks.1 hbatch hbefore hafter

/-- Two events of one issue, the older one cleaned up. -/
theorem stored_counts_are_event_rows_cleaned :
    ∃ final, Run (StoreStep tenPerMinute) (.fresh [1])
        [.attempt replayed, .attempt claimed,
          .cleanup 1 150 10 [replayed.write.row "issue-1"]] final ∧
      final.issues.map Issue.storedEventCount = [1] ∧
      ∀ issue ∈ final.issues, issue.storedEventCount = final.eventsOf issue.id := by
  have hrun := Run.cons (@StoreStep.digested tenPerMinute (.fresh [1]) replayed)
    (.cons (.digested _ claimed)
      (Run.single (@StoreStep.cleaned _ _ _ 1 150 10 _ _ [replayed.write.row "issue-1"]
        ⟨by decide, by decide⟩ rfl)))
  exact ⟨_, hrun, by decide, (stored_counts_are_event_rows hrun).1⟩

end Rustrak.Digest
