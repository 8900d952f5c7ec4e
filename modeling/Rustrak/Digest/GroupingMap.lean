import Rustrak.Digest.ExactlyOnce

/-!
# The grouping map

`groupings` maps a project and a hash to an issue.  Digests only ever add to the
map, an event's own hash is mapped by the time it is stored, and whatever else
happens to the issues (status, priority, assignment) does not touch it.

The invariant `GroupingMap` says that the map is one, that it leads to issues
that exist, and that every stored event is attached to the issue its hash leads
to.  The three ways of landing keep it one by one.
-/

namespace Rustrak.Digest

open Rustrak.Core Rustrak.Quota Rustrak.Relational Rustrak.Transition

/-- The issue a hash of a project leads to. -/
def Db.groupingIssue (db : Db) (projectId : Int) (hash : String) : Option Uuid :=
  (lookup Grouping.key (projectId, hash) db.groupings).map Grouping.issueId

structure GroupingMap (db : Db) : Prop where
  functional : (db.groupings.map Grouping.key).Nodup
  issues : ∀ g ∈ db.groupings, (db.issue g.issueId).isSome = true
  events : ∀ e ∈ db.events, ∃ i, e.issueId = some i ∧
    db.groupingIssue e.projectId e.groupingKeyHash = some i

/-- A digest, or a change to issues that leaves their identity alone. -/
inductive DigestLabel
  | attempt (a : Attempt)
  | triage

inductive DigestStep (config : RateLimitConfig) : Db → DigestLabel → Db → Prop
  | digested (db : Db) (a : Attempt) :
      DigestStep config db (.attempt a)
        (digest config db a.write a.freshId a.checked a.now).1
  | raced (db : Db) (a : Attempt) :
      DigestStep config db (.attempt a)
        (writeDigestOnce config db a.write a.freshId a.now).1
  | triage (db : Db) (change : Issue → Issue) :
      (∀ i, (change i).id = i.id ∧ (change i).projectId = i.projectId) →
      DigestStep config db .triage { db with issues := db.issues.map change }

variable {config : RateLimitConfig} {db db' : Db}

theorem groupingMap_fresh (projectIds : List Int) : GroupingMap (.fresh projectIds) where
  functional := by simp [Db.fresh]
  issues := by simp [Db.fresh]
  events := by simp [Db.fresh]

/-! ## Reading the map -/

/-- A known hash is found together with its issue. -/
theorem GroupingMap.findGrouping (h : GroupingMap db) {projectId : Int} {hash : String}
    {g : Grouping} (hg : lookup Grouping.key (projectId, hash) db.groupings = some g) :
    ∃ issue, db.findGrouping projectId hash = some (g, issue) := by
  obtain ⟨issue, hissue⟩ := Option.isSome_iff_exists.mp (h.issues g (mem_of_lookup hg))
  refine ⟨issue, ?_⟩
  have hhead : (db.groupings.filter fun g => g.key = (projectId, hash)).head? = some g := by
    rw [List.head?_filter]
    exact hg
  obtain ⟨rest, hrest⟩ := List.head?_eq_some_iff.mp hhead
  simp [Db.findGrouping, hrest, hissue]

/-- A hash whose join finds nothing is unknown. -/
theorem GroupingMap.lookup_eq_none (h : GroupingMap db) {projectId : Int} {hash : String}
    (hnone : db.findGrouping projectId hash = none) :
    lookup Grouping.key (projectId, hash) db.groupings = none := by
  cases hlookup : lookup Grouping.key (projectId, hash) db.groupings with
  | none => rfl
  | some g =>
      obtain ⟨issue, hfound⟩ := h.findGrouping hlookup
      rw [hfound] at hnone
      cases hnone

/-- What the join finds is what the map holds. -/
theorem GroupingMap.lookup_of_found (h : GroupingMap db) {projectId : Int} {hash : String}
    {g : Grouping} {issue : Issue} (hfound : db.findGrouping projectId hash = some (g, issue)) :
    lookup Grouping.key (projectId, hash) db.groupings = some g := by
  obtain ⟨hg, hkey, _⟩ := findGrouping_eq_some hfound
  rw [← hkey]
  exact lookup_of_mem h.functional hg

/-! ## One write -/

/-- After a write the event's hash leads to the issue it landed on, every known hash
leads where it led, and no hash is mapped twice. -/
private theorem lands_groupings {w : DigestWrite} {freshId : Uuid} {landing : Landing}
    (h : GroupingMap db) (hlands : Lands db w freshId db' landing) :
    (db'.groupings.map Grouping.key).Nodup ∧
      db'.groupingIssue w.projectId w.groupingKeyHash = some landing.issueId ∧
      (∀ p hash i, db.groupingIssue p hash = some i → db'.groupingIssue p hash = some i) ∧
      ∀ g ∈ db'.groupings, g ∈ db.groupings ∨ g = w.grouping landing.issueId := by
  have hadd : ∀ i, lookup Grouping.key (w.projectId, w.groupingKeyHash) db.groupings = none →
      ((db.groupings ++ [w.grouping i]).map Grouping.key).Nodup ∧
      (lookup Grouping.key (w.projectId, w.groupingKeyHash)
        (db.groupings ++ [w.grouping i])).map Grouping.issueId = some i ∧
      (∀ p hash j, db.groupingIssue p hash = some j →
        (lookup Grouping.key (p, hash) (db.groupings ++ [w.grouping i])).map Grouping.issueId =
          some j) ∧
      ∀ g ∈ db.groupings ++ [w.grouping i], g ∈ db.groupings ∨ g = w.grouping i := by
    intro i hfree
    refine ⟨nodup_insert h.functional hfree, ?_, ?_, ?_⟩
    · rw [lookup_insert_self hfree rfl]
      rfl
    · intro p hash j hj
      have hne : (w.grouping i).key ≠ (p, hash) := by
        intro heq
        unfold Db.groupingIssue at hj
        rw [← heq] at hj
        change (lookup Grouping.key (w.projectId, w.groupingKeyHash) db.groupings).map _ = _ at hj
        rw [hfree] at hj
        cases hj
      rw [lookup_insert_ne hne]
      exact hj
    · intro g hg
      simpa using hg
  cases hlands with
  | current hfound =>
      refine ⟨h.functional, ?_, fun _ _ _ hi => hi, fun _ hg => .inl hg⟩
      change (lookup Grouping.key _ db.groupings).map _ = _
      rw [h.lookup_of_found hfound]
      rfl
  | legacy _ _ _ hfree => exact hadd _ hfree
  | created _ _ _ hfree => exact hadd _ hfree

/-- With its own hash unknown and its legacy hash known, an event lands on the issue of
the latter. -/
private theorem lands_legacy {w : DigestWrite} {freshId : Uuid} {landing : Landing}
    (h : GroupingMap db) (hlands : Lands db w freshId db' landing) {i : Uuid}
    (hunknown : db.groupingIssue w.projectId w.groupingKeyHash = none)
    (hlegacy : db.groupingIssue w.projectId w.legacyGroupingKeyHash = some i) :
    landing.issueId = i := by
  have hknown : ∀ {hash g issue}, db.findGrouping w.projectId hash = some (g, issue) →
      db.groupingIssue w.projectId hash = some g.issueId := by
    intro hash g issue hfound
    rw [Db.groupingIssue, h.lookup_of_found hfound]
    rfl
  cases hlands with
  | current hfound =>
      rw [hknown hfound] at hunknown
      cases hunknown
  | legacy _ _ hfound _ =>
      rw [hknown hfound] at hlegacy
      exact Option.some.inj hlegacy
  | created _ hnone _ _ =>
      by_cases hsame : w.legacyGroupingKeyHash = w.groupingKeyHash
      · rw [hsame, hunknown] at hlegacy
        cases hlegacy
      · rw [Db.groupingIssue, h.lookup_eq_none (hnone hsame)] at hlegacy
        cases hlegacy

/-- A write keeps every issue there is. -/
private theorem issue_isSome {w : DigestWrite} {freshId : Uuid} {now : Int} {landing : Landing}
    (h : Written config db w freshId now db' landing) {i : Uuid}
    (hi : (db.issue i).isSome = true ∨ i = landing.issueId) : (db'.issue i).isSome = true := by
  by_cases heq : i = landing.issueId
  · subst heq
    rcases h.issue_landing with ⟨_, _, hnew⟩ | ⟨_, hnew⟩ <;> rw [hnew] <;> rfl
  · rw [h.issue_ne heq]
    exact hi.resolve_right heq

theorem lands_of_written {w : DigestWrite} {freshId : Uuid} {now : Int}
    {landing : Landing} (h : GroupingMap db) (hw : Written config db w freshId now db' landing) :
    (db'.groupings.map Grouping.key).Nodup ∧
      db'.groupingIssue w.projectId w.groupingKeyHash = some landing.issueId ∧
      (∀ p hash i, db.groupingIssue p hash = some i → db'.groupingIssue p hash = some i) ∧
      ∀ g ∈ db'.groupings, g ∈ db.groupings ∨ g = w.grouping landing.issueId := by
  have hlands := lands_groupings h hw.lands
  exact hlands

theorem Written.groupingMap {w : DigestWrite} {freshId : Uuid} {now : Int} {landing : Landing}
    (h : GroupingMap db) (hw : Written config db w freshId now db' landing) : GroupingMap db' := by
  obtain ⟨hnodup, hown, hkept, hmem⟩ := lands_of_written h hw
  refine ⟨hnodup, ?_, ?_⟩
  · intro g hg
    rcases hmem g hg with hold | rfl
    · exact issue_isSome hw (.inl (h.issues g hold))
    · exact issue_isSome hw (.inr rfl)
  · intro e he
    rw [hw.events] at he
    rcases List.mem_append.mp he with he | he
    · obtain ⟨i, hi, hmap⟩ := h.events e he
      exact ⟨i, hi, hkept _ _ _ hmap⟩
    · obtain rfl := List.mem_singleton.mp he
      exact ⟨landing.issueId, rfl, hown⟩

/-! ## One step and runs -/

/-- The map of `db'` extends the map of `db`. -/
def Extends (db db' : Db) : Prop :=
  ∀ p hash i, db.groupingIssue p hash = some i → db'.groupingIssue p hash = some i

private theorem commits_groupingMap {a : Attempt} (h : GroupingMap db)
    (hafter : db' = db ∨ Commits config db a db') : GroupingMap db' ∧ Extends db db' := by
  rcases hafter with rfl | hcommit
  · exact ⟨h, fun _ _ _ hi => hi⟩
  · obtain ⟨landing, hw⟩ := hcommit.written
    exact ⟨hw.groupingMap h, (lands_of_written h hw).2.2.1⟩

theorem digestStep_groupingMap {label : DigestLabel} (h : GroupingMap db)
    (hstep : DigestStep config db label db') : GroupingMap db' ∧ Extends db db' := by
  cases hstep with
  | digested a => exact commits_groupingMap h (digest_commits_or_keeps config db a)
  | raced a => exact commits_groupingMap h (writeDigestOnce_commits_or_keeps config db a)
  | triage change hchange =>
      refine ⟨⟨h.functional, ?_, h.events⟩, fun _ _ _ hi => hi⟩
      intro g hg
      change (lookup Issue.id g.issueId (db.issues.map change)).isSome = true
      rw [lookup_map fun i => (hchange i).1, Option.isSome_map]
      exact h.issues g hg

theorem run_groupingMap {start final : Db} {labels : List DigestLabel} (h : GroupingMap start)
    (hrun : Run (DigestStep config) start labels final) : GroupingMap final :=
  Run.invariant GroupingMap (fun _ _ _ hs hstep => (digestStep_groupingMap hs hstep).1) hrun h

/-- In every state a run reaches, no hash of a project is mapped twice and two events
with the same hash are attached to the same issue; an event whose own hash is unknown
while its legacy hash is known joins the legacy issue and records its own hash for it;
and what is mapped stays mapped to the same issue for the rest of the run. -/
theorem grouping_map_functional_and_stable {start mid final : Db}
    {before after : List DigestLabel} (hstart : GroupingMap start)
    (hbefore : Run (DigestStep config) start before mid)
    (hafter : Run (DigestStep config) mid after final) :
    (mid.groupings.map Grouping.key).Nodup ∧
      (∀ e ∈ mid.events, ∀ e' ∈ mid.events, e.projectId = e'.projectId →
        e.groupingKeyHash = e'.groupingKeyHash → e.issueId = e'.issueId) ∧
      (∀ a db' i, Commits config mid a db' →
        mid.groupingIssue a.write.projectId a.write.groupingKeyHash = none →
        mid.groupingIssue a.write.projectId a.write.legacyGroupingKeyHash = some i →
        a.write.row i ∈ db'.events ∧
          db'.groupingIssue a.write.projectId a.write.groupingKeyHash = some i) ∧
      Extends mid final := by
  have hmid := run_groupingMap hstart hbefore
  refine ⟨hmid.functional, ?_, ?_, ?_⟩
  · intro e he e' he' hproject hhash
    obtain ⟨i, hi, hmap⟩ := hmid.events e he
    obtain ⟨i', hi', hmap'⟩ := hmid.events e' he'
    rw [hproject, hhash, hmap'] at hmap
    rw [hi, hi', Option.some.inj hmap]
  · intro a db' i hcommit hunknown hlegacy
    obtain ⟨landing, hw⟩ := hcommit.written
    obtain ⟨_, hown, _, _⟩ := lands_of_written hmid hw
    have hlanding : landing.issueId = i := lands_legacy hmid hw.lands hunknown hlegacy
    rw [hlanding] at hown
    refine ⟨?_, hown⟩
    rw [hw.events, hlanding]
    simp
  · exact Run.relates GroupingMap Extends (fun _ _ _ _ hi => hi)
      (fun _ _ _ h h' p hash i hi => h' p hash i (h p hash i hi))
      (fun _ _ _ hs hstep => (digestStep_groupingMap hs hstep).1)
      (fun _ _ _ hs hstep => (digestStep_groupingMap hs hstep).2) hafter hmid

/-- The tables after the first of the two sample events. -/
def recorded : Db :=
  (digest tenPerMinute (.fresh [1]) replayed.write replayed.freshId replayed.checked
    replayed.now).1

theorem grouping_map_functional_and_stable_claimed :
    ∃ final, Run (DigestStep tenPerMinute) recorded [.attempt claimed, .triage] final ∧
      claimed.write.row "issue-1" ∈ final.events ∧
      recorded.groupingIssue 1 "v" = some "issue-1" ∧
      final.groupingIssue 1 "t" = some "issue-1" ∧ Extends recorded final := by
  have hbefore : Run (DigestStep tenPerMinute) (.fresh [1]) [.attempt replayed] recorded :=
    Run.single (.digested _ replayed)
  have hafter := Run.cons (@DigestStep.digested tenPerMinute recorded claimed)
    (Run.single (@DigestStep.triage tenPerMinute _ id fun _ => ⟨rfl, rfl⟩))
  exact ⟨_, hafter, by decide, by decide, by decide,
    (grouping_map_functional_and_stable (groupingMap_fresh [1]) hbefore hafter).2.2.2⟩

end Rustrak.Digest
