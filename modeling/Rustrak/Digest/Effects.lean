import Rustrak.Digest.Write

/-!
# What one write adds to the counters

Each counter is read the way a query reads it, by key, and is zero where there is
no row.  A committed digest adds one to every counter of its own event and
nothing to any other; the lemmas below say so family by family, from `Written`.
-/

namespace Rustrak.Digest

open Rustrak.Core Rustrak.Quota Rustrak.Relational

namespace Db

/-- `issues.stored_event_count`, zero for an issue that does not exist. -/
def storedCount (db : Db) (issueId : Uuid) : Int :=
  ((db.issue issueId).map Issue.storedEventCount).getD 0

/-- `issues.digested_event_count`. -/
def digestedCount (db : Db) (issueId : Uuid) : Int :=
  ((db.issue issueId).map Issue.digestedEventCount).getD 0

/-- `projects.stored_event_count`. -/
def projectStoredCount (db : Db) (projectId : Int) : Int :=
  ((db.project projectId).map Project.storedEventCount).getD 0

/-- `issue_environments.event_count`. -/
def environmentCount (db : Db) (issueId : Uuid) (environment : String) : Int :=
  ((lookup IssueEnvironment.key (issueId, environment) db.environments).map
    IssueEnvironment.eventCount).getD 0

end Db

/-- One for the event at hand, zero for any other. -/
def one (p : Prop) [Decidable p] : Int := if p then 1 else 0

theorem one_pos {p : Prop} [Decidable p] (h : p) : one p = 1 := if_pos h

theorem one_neg {p : Prop} [Decidable p] (h : ¬p) : one p = 0 := if_neg h

variable {config : RateLimitConfig} {db db' : Db} {w : DigestWrite} {freshId : Uuid} {now : Int}
  {landing : Landing}

/-- An issue found by key is bumped, a new one starts at one. -/
private theorem issue_of_lands (h : Lands db w freshId db' landing) (i : Uuid) :
    (i ≠ landing.issueId → db'.issue i = db.issue i) ∧
      ((∃ prev, db.issue landing.issueId = some prev ∧
          db'.issue landing.issueId = some (prev.withEvent prev w)) ∨
        (db.issue landing.issueId = none ∧
          db'.issue landing.issueId = some (newIssue w landing.issueId))) := by
  have hbump : ∀ (g : Grouping) (prev : Issue), db.issue g.issueId = some prev →
      (i ≠ g.issueId → lookup Issue.id i
        (modify Issue.id g.issueId (fun issue => issue.withEvent prev w) db.issues) = db.issue i) ∧
      lookup Issue.id g.issueId
        (modify Issue.id g.issueId (fun issue => issue.withEvent prev w) db.issues) =
          some (prev.withEvent prev w) := by
    intro g prev hprev
    have hkey : ∀ issue : Issue, (issue.withEvent prev w).id = issue.id := fun _ => rfl
    refine ⟨fun hne => lookup_modify_ne hkey hne, ?_⟩
    rw [lookup_modify_self hkey]
    change (db.issue g.issueId).map _ = _
    rw [hprev]
    rfl
  cases h with
  | current hfound =>
      obtain ⟨_, _, hprev⟩ := findGrouping_eq_some hfound
      exact ⟨(hbump _ _ hprev).1, .inl ⟨_, hprev, (hbump _ _ hprev).2⟩⟩
  | legacy _ _ hfound _ =>
      obtain ⟨_, _, hprev⟩ := findGrouping_eq_some hfound
      exact ⟨(hbump _ _ hprev).1, .inl ⟨_, hprev, (hbump _ _ hprev).2⟩⟩
  | created _ _ hfresh _ =>
      refine ⟨fun hne => ?_, .inr ⟨hfresh, ?_⟩⟩
      · exact lookup_insert_ne (Ne.symm hne)
      · exact lookup_insert_self hfresh rfl

/-- An issue the event did not land on is as it was. -/
theorem Written.issue_ne (h : Written config db w freshId now db' landing) {i : Uuid}
    (hne : i ≠ landing.issueId) : db'.issue i = db.issue i :=
  (issue_of_lands h.lands i).1 hne

/-- The issue the event landed on exists, in the event's project when it is new. -/
theorem Written.issue_landing (h : Written config db w freshId now db' landing) :
    (∃ prev, db.issue landing.issueId = some prev ∧
        db'.issue landing.issueId = some (prev.withEvent prev w)) ∨
      (db.issue landing.issueId = none ∧
        db'.issue landing.issueId = some (newIssue w landing.issueId)) :=
  (issue_of_lands h.lands landing.issueId).2

theorem Written.storedCount (h : Written config db w freshId now db' landing) (i : Uuid) :
    db'.storedCount i = db.storedCount i + one (i = landing.issueId) := by
  unfold Db.storedCount one
  split_ifs with hi
  · subst hi
    rcases h.issue_landing with ⟨prev, hold, hnew⟩ | ⟨hold, hnew⟩
    · rw [hold, hnew]
      rfl
    · rw [hold, hnew]
      rfl
  · rw [h.issue_ne hi]
    omega

theorem Written.digestedCount (h : Written config db w freshId now db' landing) (i : Uuid) :
    db'.digestedCount i = db.digestedCount i + one (i = landing.issueId) := by
  unfold Db.digestedCount one
  split_ifs with hi
  · subst hi
    rcases h.issue_landing with ⟨prev, hold, hnew⟩ | ⟨hold, hnew⟩
    · rw [hold, hnew]
      rfl
    · rw [hold, hnew]
      rfl
  · rw [h.issue_ne hi]
    omega

/-- A project row after counting one event whose quota was taken at `now`. -/
def Project.withEvent (p : Project) (now : Int) : Project :=
  { p with
    storedEventCount := p.storedEventCount + 1
    digestedEventCount := p.digestedEventCount + 1
    quota := count p.quota now }

theorem Written.project (h : Written config db w freshId now db' landing) (p : Int) :
    db'.project p =
      if p = w.projectId then (db.project p).map fun row => row.withEvent now
      else db.project p := by
  obtain ⟨row, hrow, _, hprojects⟩ := h.projects
  unfold Db.project
  rw [hprojects]
  unfold projectsAfter
  have hkey : ∀ q : Project, ({ q with
      storedEventCount := q.storedEventCount + 1
      digestedEventCount := q.digestedEventCount + 1
      quota := count row.quota now } : Project).id = q.id := fun _ => rfl
  rw [lookup_modify hkey]
  split_ifs with hp
  · subst hp
    change (db.project w.projectId).map _ = (db.project w.projectId).map _
    rw [hrow]
    rfl
  · rfl

theorem Written.projectStoredCount (h : Written config db w freshId now db' landing) (p : Int) :
    db'.projectStoredCount p = db.projectStoredCount p + one (p = w.projectId) := by
  unfold Db.projectStoredCount one
  rw [h.project]
  split_ifs with hp
  · subst hp
    obtain ⟨row, hrow, _⟩ := h.projects
    rw [hrow]
    rfl
  · omega

theorem Written.environmentCount (h : Written config db w freshId now db' landing) (i : Uuid)
    {e : String} (he : e ≠ "") :
    db'.environmentCount i e =
      db.environmentCount i e + one (i = landing.issueId ∧ w.storedEnvironment = e) := by
  unfold Db.environmentCount
  rw [h.environments]
  unfold environmentsAfter upsertEnvironment
  dsimp only
  by_cases hown : i = landing.issueId ∧ w.storedEnvironment = e
  · obtain ⟨rfl, rfl⟩ := hown
    rw [if_neg he, one_pos ⟨rfl, rfl⟩]
    split_ifs with hknown
    · rw [lookup_modify_self fun e => e.key_withEvent w]
      obtain ⟨row, hrow⟩ := Option.isSome_iff_exists.mp hknown
      rw [hrow]
      rfl
    · have hnone : lookup IssueEnvironment.key (landing.issueId, w.storedEnvironment)
          db.environments = none := by simpa [Option.isSome_iff_ne_none] using hknown
      rw [lookup_insert_self hnone rfl, hnone]
      rfl
  · have hkey : (i, e) ≠ (landing.issueId, w.storedEnvironment) := by
      intro heq
      obtain ⟨hi, he'⟩ := Prod.mk.inj heq
      exact hown ⟨hi, he'.symm⟩
    rw [one_neg hown, Int.add_zero]
    split_ifs
    · rfl
    · rw [lookup_modify_ne (fun e => e.key_withEvent w) hkey]
    · have hother : (newEnvironment w landing.issueId).key ≠ (i, e) := Ne.symm hkey
      rw [lookup_insert_ne hother]

end Rustrak.Digest
