import Rustrak.Digest.EnvironmentCounts
import Rustrak.Retention.Storage

/-!
# Batches of events

`delete_event_batch` takes some of a project's old events, and the issues that it leaves
without any.  Two batches one after the other do what one does that takes the events of
both (`afterBatch_afterBatch`): an issue goes with the batch that takes the last of its
events, and its counters and those of the project have given up one for each in either case.

It takes references that lead somewhere, as the schema and the digest keep them
(`Referential`).
-/

namespace Rustrak.Retention

open Rustrak.Core Rustrak.Digest Rustrak.Relational Rustrak.Transition

/-- Keys are unique, and what has an issue or a project has one that exists.  An event is
of its issue's project. -/
structure Referential (db : Db) : Prop where
  issueIds : (db.issues.map Issue.id).Nodup
  eventKeys : (db.events.map EventRow.key).Nodup
  issues : ∀ i ∈ db.issues, i.projectId ∈ db.projects.map Project.id
  events : ∀ e ∈ db.events, ∀ i, e.issueId = some i →
    ∃ row, db.issue i = some row ∧ row.projectId = e.projectId

/-- Whatever has been digested and deleted so far, where no project is missing that an
issue is of. -/
theorem referential_of_run {config : Quota.RateLimitConfig} {projectIds : List Int} {db : Db}
    {labels : List StoreLabel} (hrun : Run (StoreStep config) (.fresh projectIds) labels db)
    (hissues : ∀ i ∈ db.issues, i.projectId ∈ db.projects.map Project.id) : Referential db where
  issueIds := (run_counted (counted_fresh projectIds) hrun).linked.issueIds
  eventKeys := (run_counted (counted_fresh projectIds) hrun).linked.eventKeys
  issues := hissues
  events := by
    intro e he i hi
    have hlinked := (run_counted (counted_fresh projectIds) hrun).linked
    obtain ⟨j, row, hj, hrow, hproject⟩ := hlinked.events e he
    obtain rfl := Option.some.inj (hj.symm.trans hi)
    exact ⟨row, hrow, hproject⟩

/-- The issues a batch leaves without events. -/
def batchEmptied (db : Db) (projectId : Int) (picked : List EventRow) : List Uuid :=
  emptied (deletePicked (subtractBatch db projectId picked) picked) picked

/-- The tables after a batch. -/
def afterBatch (db : Db) (projectId : Int) (picked : List EventRow) : Db :=
  (deletePicked (subtractBatch db projectId picked) picked).deleteIssues
    (batchEmptied db projectId picked)

/-- How many issues a batch removes. -/
def batchRemoves (db : Db) (projectId : Int) (picked : List EventRow) : Nat :=
  db.issues.countP fun i => (batchEmptied db projectId picked).contains i.id

attribute [ext] Db

/-- How many events. -/
def batchTakes (db : Db) (picked : List EventRow) : Nat :=
  db.events.countP fun e => (picked.map EventRow.key).contains e.key

variable {db : Db} {projectId cutoff : Int} {picked : List EventRow}

/-! ## What a batch leaves -/

theorem mem_batchEmptied {i : Uuid} :
    i ∈ batchEmptied db projectId picked ↔ (∃ e ∈ picked, e.issueId = some i) ∧
      ∀ e ∈ db.events, e.issueId = some i → e.key ∈ picked.map EventRow.key :=
  mem_emptied_iff

theorem afterBatch_issues :
    (afterBatch db projectId picked).issues =
      (db.issues.filter fun i => !(batchEmptied db projectId picked).contains i.id).map
        fun i => i.without picked := by
  show ((db.issues.map fun i => i.without picked).filter fun i => _) = _
  rw [List.filter_map]
  rfl

/-- A batch takes events by key, and no others with the issues. -/
theorem afterBatch_events :
    (afterBatch db projectId picked).events =
      db.events.filter fun e => !(picked.map EventRow.key).contains e.key := by
  apply List.filter_eq_self.mpr
  intro e he
  obtain ⟨hmem, hkept⟩ := List.mem_filter.mp he
  rw [Bool.not_eq_true', ← Bool.not_eq_true]
  intro hgone
  cases hissue : e.issueId with
  | none => simp [hissue] at hgone
  | some i =>
      have hi : i ∈ batchEmptied db projectId picked := by simpa [hissue] using hgone
      have hkey := (mem_batchEmptied.mp hi).2 e hmem hissue
      simp only [List.contains_iff_mem, Bool.not_eq_true', ← Bool.not_eq_true] at hkept
      exact hkept hkey

theorem mem_afterBatch_events {e : EventRow} :
    e ∈ (afterBatch db projectId picked).events ↔
      e ∈ db.events ∧ e.key ∉ picked.map EventRow.key := by
  rw [afterBatch_events, List.mem_filter]
  simp only [Bool.not_eq_true', ← Bool.not_eq_true, List.contains_iff_mem]

/-- An issue is there after a batch unless it was emptied. -/
theorem issue_afterBatch (i : Uuid) :
    (afterBatch db projectId picked).issue i =
      if i ∈ batchEmptied db projectId picked then none
      else (db.issue i).map fun row => row.without picked := by
  rw [afterBatch, issue_deleteIssues, issue_subtractBatch]

/-- The project gives up one for each picked event with an issue. -/
theorem countP_referenced (h : Referential db) (hpicked : picked ⊆ db.events) :
    (picked.countP fun e => e.issueId.any fun i => (db.issue i).isSome) =
      picked.countP fun e => e.issueId.isSome := by
  apply List.countP_congr
  intro e he
  cases hissue : e.issueId with
  | none => simp
  | some i =>
      obtain ⟨row, hrow, -⟩ := h.events e (hpicked he) i hissue
      simp [hrow]

/-- A project's counters without so many events. -/
def giveUp (n : Nat) (p : Project) : Project :=
  { p with
    storedEventCount := p.storedEventCount - n
    digestedEventCount := p.digestedEventCount - n }

theorem giveUp_giveUp (m n : Nat) (p : Project) : giveUp n (giveUp m p) = giveUp (m + n) p := by
  simp only [giveUp, Int.sub_sub, Int.natCast_add]

theorem afterBatch_projects (h : Referential db) (hpicked : picked ⊆ db.events) :
    (afterBatch db projectId picked).projects =
      Relational.modify Project.id projectId (giveUp (picked.countP fun e => e.issueId.isSome))
        db.projects := by
  rw [← countP_referenced h hpicked]
  rfl

theorem Referential.afterBatch (h : Referential db) :
    Referential (afterBatch db projectId picked) where
  issueIds := by
    rw [afterBatch_issues, List.map_map]
    exact h.issueIds.sublist (List.filter_sublist.map _)
  eventKeys := by
    rw [afterBatch_events]
    exact h.eventKeys.sublist (List.filter_sublist.map _)
  issues := by
    intro i hi
    rw [afterBatch_issues] at hi
    obtain ⟨old, hold, rfl⟩ := List.mem_map.mp hi
    have hprojects : (Retention.afterBatch db projectId picked).projects.map Project.id =
        db.projects.map Project.id := map_key_modify fun _ => rfl
    rw [hprojects]
    exact h.issues old (List.mem_filter.mp hold).1
  events := by
    intro e he i hi
    obtain ⟨hmem, hkept⟩ := mem_afterBatch_events.mp he
    obtain ⟨row, hrow, hproject⟩ := h.events e hmem i hi
    refine ⟨row.without picked, ?_, hproject⟩
    rw [issue_afterBatch, if_neg fun hgone => hkept ((mem_batchEmptied.mp hgone).2 e hmem hi), hrow]
    rfl

/-! ## Two batches -/

section

variable {a b c : List EventRow} (h : Splits EventRow.key db.events a b c) (hdb : Referential db)
include h

/-- An issue is emptied by both batches if by one of them. -/
theorem mem_emptied_split (hdb : Referential db) (i : Uuid) :
    i ∈ batchEmptied db projectId c ↔ i ∈ batchEmptied db projectId a ∨
      i ∈ batchEmptied (afterBatch db projectId a) projectId b := by
  have hsame : ∀ e ∈ c, ∀ e' ∈ db.events, e.key = e'.key → e = e' := fun e he e' he' hkey =>
    List.inj_on_of_nodup_map hdb.eventKeys (h.whole.subset he) he' hkey
  simp only [mem_batchEmptied, mem_afterBatch_events]
  constructor
  · rintro ⟨⟨e, he, hi⟩, hall⟩
    by_cases hsecond : ∃ e ∈ b, e.issueId = some i
    · refine .inr ⟨hsecond, fun e' he' hi' => ?_⟩
      exact (h.mem_key.mp (hall e' he'.1 hi')).resolve_left he'.2
    · have hnone : ∀ e' ∈ db.events, e'.issueId = some i → e'.key ∈ a.map EventRow.key := by
        intro e' he' hi'
        refine (h.mem_key.mp (hall e' he' hi')).resolve_right fun hkey => ?_
        obtain ⟨e'', he'', hkey''⟩ := List.mem_map.mp hkey
        exact hsecond ⟨e'', he'', hsame e'' (h.mem_second.mp he'').1 e' he' hkey'' ▸ hi'⟩
      have hfirst : e ∈ a := by
        obtain ⟨e', he', hkey'⟩ := List.mem_map.mp (hnone e (h.whole.subset he) hi)
        exact hsame e' (h.first.subset he') e (h.whole.subset he) hkey' ▸ he'
      exact .inl ⟨⟨e, hfirst, hi⟩, hnone⟩
  · rintro (⟨⟨e, he, hi⟩, hall⟩ | ⟨⟨e, he, hi⟩, hall⟩)
    · exact ⟨⟨e, h.first.subset he, hi⟩,
        fun e' he' hi' => (h.first.map _).subset (hall e' he' hi')⟩
    · refine ⟨⟨e, (h.mem_second.mp he).1, hi⟩, fun e' he' hi' => h.mem_key.mpr ?_⟩
      by_cases hfirst : e'.key ∈ a.map EventRow.key
      · exact .inl hfirst
      · exact .inr (hall e' ⟨he', hfirst⟩ hi')

theorem afterBatch_events_split :
    (afterBatch (afterBatch db projectId a) projectId b).events =
      (afterBatch db projectId c).events := by
  rw [afterBatch_events, afterBatch_events, afterBatch_events, filter_not_filter_not]
  simp only [h.contains_key]

/-- Two batches take as many events as one of both. -/
theorem batchTakes_split :
    batchTakes db a + batchTakes (afterBatch db projectId a) b = batchTakes db c := by
  unfold batchTakes
  rw [afterBatch_events, countP_add_countP_filter_not]
  simp only [h.contains_key]

include hdb

theorem emptied_contains (i : Uuid) :
    (batchEmptied db projectId c).contains i = ((batchEmptied db projectId a).contains i ||
      (batchEmptied (afterBatch db projectId a) projectId b).contains i) := by
  rw [Bool.eq_iff_iff, Bool.or_eq_true]
  simp only [List.contains_iff_mem]
  exact mem_emptied_split h hdb i

theorem countP_split (q : EventRow → Bool) : a.countP q + b.countP q = c.countP q := by
  have hkeys : (c.map EventRow.key).Nodup := hdb.eventKeys.sublist (h.whole.map _)
  have hsplit := countP_filter_not_mem hkeys h.first
    (fun e _ => (List.contains_iff_mem : (a.map EventRow.key).contains e.key = true ↔ _)) q
  rw [← h.second] at hsplit
  omega

theorem without_without (i : Issue) : (i.without a).without b = i.without c := by
  have hlost : lost a i.id + lost b i.id = lost c i.id := countP_split h hdb _
  have hcast : (lost c i.id : Int) = lost a i.id + lost b i.id := by exact_mod_cast hlost.symm
  simp only [Issue.without, hcast, Int.sub_sub]

theorem afterBatch_issues_split :
    (afterBatch (afterBatch db projectId a) projectId b).issues =
      (afterBatch db projectId c).issues := by
  rw [afterBatch_issues, afterBatch_issues, afterBatch_issues, List.filter_map, List.map_map]
  have hkept := filter_not_filter_not db.issues
    (fun i => (batchEmptied db projectId a).contains i.id)
    (fun i => (batchEmptied (afterBatch db projectId a) projectId b).contains i.id)
  simp only [← emptied_contains h hdb] at hkept
  rw [← hkept]
  exact List.map_congr_left fun i _ => without_without h hdb i

theorem afterBatch_projects_split :
    (afterBatch (afterBatch db projectId a) projectId b).projects =
      (afterBatch db projectId c).projects := by
  have hsecond : b ⊆ (afterBatch db projectId a).events := fun e he =>
    have hmem := h.mem_second.mp he
    mem_afterBatch_events.mpr ⟨h.whole.subset hmem.1, hmem.2⟩
  have hkeep : ∀ p : Project, (giveUp (a.countP fun e => e.issueId.isSome) p).id = p.id :=
    fun _ => rfl
  rw [afterBatch_projects hdb.afterBatch hsecond,
    afterBatch_projects hdb (h.first.trans h.whole).subset,
    afterBatch_projects hdb h.whole.subset, modify_modify hkeep]
  simp only [giveUp_giveUp, countP_split h hdb]

/-- Two batches do what one of both does. -/
theorem afterBatch_afterBatch :
    afterBatch (afterBatch db projectId a) projectId b = afterBatch db projectId c := by
  have hgroupings : (afterBatch (afterBatch db projectId a) projectId b).groupings =
      (afterBatch db projectId c).groupings := by
    show (db.groupings.filter _).filter _ = db.groupings.filter _
    rw [filter_not_filter_not]
    simp only [← emptied_contains h hdb]
  have henvironments : (afterBatch (afterBatch db projectId a) projectId b).environments =
      (afterBatch db projectId c).environments := by
    show (db.environments.filter _).filter _ = db.environments.filter _
    rw [filter_not_filter_not]
    simp only [← emptied_contains h hdb]
  rw [Db.ext_iff]
  exact ⟨rfl, afterBatch_projects_split h hdb, afterBatch_issues_split h hdb, hgroupings,
    afterBatch_events_split h, henvironments⟩

/-- And removes as many issues. -/
theorem batchRemoves_split :
    batchRemoves db projectId a + batchRemoves (afterBatch db projectId a) projectId b =
      batchRemoves db projectId c := by
  have hsecond : batchRemoves (afterBatch db projectId a) projectId b =
      (db.issues.filter fun i => !(batchEmptied db projectId a).contains i.id).countP fun i =>
        (batchEmptied (afterBatch db projectId a) projectId b).contains i.id := by
    unfold batchRemoves
    rw [afterBatch_issues, List.countP_map]
    rfl
  rw [hsecond]
  unfold batchRemoves
  rw [countP_add_countP_filter_not]
  simp only [emptied_contains h hdb]

end

/-- A batch of nothing. -/
theorem afterBatch_nil : afterBatch db projectId [] = db := by
  have hemptied : batchEmptied db projectId [] = [] := rfl
  have hissues : (afterBatch db projectId []).issues = db.issues := by
    rw [afterBatch_issues, hemptied]
    simp [Issue.without, lost]
  have hevents : (afterBatch db projectId []).events = db.events := by
    rw [afterBatch_events]
    simp
  have hprojects : (afterBatch db projectId []).projects = db.projects := by
    show Relational.modify Project.id projectId _ db.projects = db.projects
    simp [Relational.modify]
  rw [Db.ext_iff]
  refine ⟨rfl, hprojects, hissues, ?_, hevents, ?_⟩
  · show (db.groupings.filter fun g => !(batchEmptied db projectId []).contains g.issueId) = _
    simp [hemptied]
  · show (db.environments.filter fun e => !(batchEmptied db projectId []).contains e.issueId) = _
    simp [hemptied]

end Rustrak.Retention
