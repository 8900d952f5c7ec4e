import Rustrak.Digest.Store

/-!
# What one write does

The inversion of the digest transaction.  `findOrCreateIssue_cases` says in which
of three ways an event finds its issue, and `writeDigestRows_written` says what
the committed tables are.  Every invariant of the digest is derived from these
two, and nothing after this file unfolds the transaction.
-/

namespace Rustrak.Digest

open Rustrak.Core Rustrak.Quota Rustrak.Relational

/-- The row `EventService::create` inserts. -/
def DigestWrite.row (w : DigestWrite) (issueId : Uuid) : EventRow where
  eventId := w.eventId
  projectId := w.projectId
  issueId := some issueId
  groupingKeyHash := w.groupingKeyHash
  ingestedAt := w.timestamp
  environment := w.storedEnvironment

/-- The grouping that records the current key of an event for an issue. -/
def DigestWrite.grouping (w : DigestWrite) (issueId : Uuid) : Grouping :=
  ⟨w.projectId, issueId, w.groupingKey, w.groupingKeyHash⟩

@[simp] theorem DigestWrite.key_row (w : DigestWrite) (issueId : Uuid) :
    (w.row issueId).key = w.key := rfl

@[simp] theorem DigestWrite.key_grouping (w : DigestWrite) (issueId : Uuid) :
    (w.grouping issueId).key = (w.projectId, w.groupingKeyHash) := rfl

@[simp] theorem Issue.id_withEvent (issue prev : Issue) (w : DigestWrite) :
    (issue.withEvent prev w).id = issue.id := rfl

@[simp] theorem Issue.projectId_withEvent (issue prev : Issue) (w : DigestWrite) :
    (issue.withEvent prev w).projectId = issue.projectId := rfl

@[simp] theorem IssueEnvironment.key_withEvent (e : IssueEnvironment) (w : DigestWrite) :
    (e.withEvent w).key = e.key := rfl

variable {config : RateLimitConfig} {db db' : Db} {w : DigestWrite} {freshId : Uuid} {now : Int}

/-! ## Finding the issue -/

theorem findGrouping_eq_some {projectId : Int} {hash : String} {g : Grouping} {issue : Issue}
    (h : db.findGrouping projectId hash = some (g, issue)) :
    g ∈ db.groupings ∧ g.key = (projectId, hash) ∧ db.issue g.issueId = some issue := by
  obtain ⟨g', hg', hissue⟩ := List.exists_of_findSome?_eq_some h
  obtain ⟨hmem, hkey⟩ := List.mem_filter.mp hg'
  cases hlookup : db.issue g'.issueId with
  | none => simp [hlookup] at hissue
  | some issue' =>
      rw [hlookup] at hissue
      obtain ⟨rfl, rfl⟩ := Prod.mk.inj (Option.some.inj hissue)
      exact ⟨hmem, by simpa using hkey, hlookup⟩

/-- Where an event finds its issue, and what is recorded for it. -/
inductive Lands (db : Db) (w : DigestWrite) (freshId : Uuid) : Db → Landing → Prop
  /-- The current key is known. -/
  | current {g : Grouping} {prev : Issue} :
      db.findGrouping w.projectId w.groupingKeyHash = some (g, prev) →
      Lands db w freshId
        { db with issues := modify Issue.id g.issueId (fun i => i.withEvent prev w) db.issues }
        ⟨g.issueId, false, isRegression prev w⟩
  /-- Only the legacy key is known: its issue is claimed under the current one. -/
  | legacy {g : Grouping} {prev : Issue} :
      db.findGrouping w.projectId w.groupingKeyHash = none →
      w.legacyGroupingKeyHash ≠ w.groupingKeyHash →
      db.findGrouping w.projectId w.legacyGroupingKeyHash = some (g, prev) →
      lookup Grouping.key (w.projectId, w.groupingKeyHash) db.groupings = none →
      Lands db w freshId
        { db with
          groupings := db.groupings ++ [w.grouping g.issueId]
          issues := modify Issue.id g.issueId (fun i => i.withEvent prev w) db.issues }
        ⟨g.issueId, false, isRegression prev w⟩
  /-- Neither key is known. -/
  | created :
      db.findGrouping w.projectId w.groupingKeyHash = none →
      (w.legacyGroupingKeyHash ≠ w.groupingKeyHash →
        db.findGrouping w.projectId w.legacyGroupingKeyHash = none) →
      db.issue freshId = none →
      lookup Grouping.key (w.projectId, w.groupingKeyHash) db.groupings = none →
      Lands db w freshId
        { db with
          groupings := db.groupings ++ [w.grouping freshId]
          issues := db.issues ++ [newIssue w freshId] }
        ⟨freshId, true, false⟩

private theorem insertGrouping_eq_ok {g : Grouping} (h : db.insertGrouping g = .ok db') :
    lookup Grouping.key g.key db.groupings = none ∧
      db' = { db with groupings := db.groupings ++ [g] } := by
  unfold Db.insertGrouping at h
  split_ifs at h with hkey
  exact ⟨by simpa using hkey, (Except.ok.inj h).symm⟩

/-- The legacy key is looked up only when it is another one. -/
private theorem existingGrouping_cases {existing : Option (Grouping × Issue)}
    (h : existingGrouping db w = .ok (db', existing)) :
    (db' = db ∧ existing = db.findGrouping w.projectId w.groupingKeyHash ∧
      (existing = none → w.legacyGroupingKeyHash ≠ w.groupingKeyHash →
        db.findGrouping w.projectId w.legacyGroupingKeyHash = none)) ∨
    ∃ g prev, db.findGrouping w.projectId w.groupingKeyHash = none ∧
      w.legacyGroupingKeyHash ≠ w.groupingKeyHash ∧
      db.findGrouping w.projectId w.legacyGroupingKeyHash = some (g, prev) ∧
      db.insertGrouping (w.grouping g.issueId) = .ok db' ∧
      existing = some (w.grouping g.issueId, prev) := by
  unfold existingGrouping at h
  split at h
  · next found hfound =>
      obtain ⟨rfl, rfl⟩ := Prod.mk.inj (Except.ok.inj h)
      exact .inl ⟨rfl, hfound.symm, by simp⟩
  · next hcurrent =>
      split_ifs at h with hsame
      · obtain ⟨rfl, rfl⟩ := Prod.mk.inj (Except.ok.inj h)
        exact .inl ⟨rfl, hcurrent.symm, fun _ hne => absurd hsame hne⟩
      · split at h
        · next hlegacy =>
            obtain ⟨rfl, rfl⟩ := Prod.mk.inj (Except.ok.inj h)
            exact .inl ⟨rfl, hcurrent.symm, fun _ _ => hlegacy⟩
        · next g prev hlegacy =>
            obtain ⟨db₁, hinsert, h⟩ := bind_eq_ok h
            obtain ⟨rfl, rfl⟩ := Prod.mk.inj (Except.ok.inj h)
            exact .inr ⟨g, prev, hcurrent, hsame, hlegacy, hinsert, rfl⟩

theorem findOrCreateIssue_cases {landing : Landing}
    (h : findOrCreateIssue db w freshId = .ok (db', landing)) :
    Lands db w freshId db' landing := by
  obtain ⟨⟨db₁, existing⟩, hexisting, h⟩ := bind_eq_ok h
  rcases existingGrouping_cases hexisting with
    ⟨rfl, hfound, hlegacy⟩ | ⟨g, prev, hcurrent, hne, hlegacy, hinsert, rfl⟩
  · cases existing with
    | some found =>
        obtain ⟨g, prev⟩ := found
        obtain ⟨rfl, rfl⟩ := Prod.mk.inj (Except.ok.inj h)
        exact .current hfound.symm
    | none =>
        obtain ⟨_, hfresh, h⟩ := bind_eq_ok h
        obtain ⟨db₂, hinsert, h⟩ := bind_eq_ok h
        obtain ⟨rfl, rfl⟩ := Prod.mk.inj (Except.ok.inj h)
        obtain ⟨hkey, rfl⟩ := insertGrouping_eq_ok hinsert
        exact .created hfound.symm (hlegacy rfl) (by simpa using ensure_eq_ok hfresh) hkey
  · obtain ⟨rfl, rfl⟩ := Prod.mk.inj (Except.ok.inj h)
    obtain ⟨hkey, rfl⟩ := insertGrouping_eq_ok hinsert
    exact Lands.legacy (g := g) hcurrent hne hlegacy hkey

/-- Finding the issue touches only issues and groupings. -/
theorem Lands.frame {landing : Landing} (h : Lands db w freshId db' landing) :
    db'.installation = db.installation ∧ db'.projects = db.projects ∧ db'.events = db.events ∧
      db'.environments = db.environments := by
  cases h <;> exact ⟨rfl, rfl, rfl, rfl⟩

/-! ## The transaction -/

/-- The environments after an event. -/
def environmentsAfter (db : Db) (w : DigestWrite) (issueId : Uuid) : List IssueEnvironment :=
  (upsertEnvironment db w issueId).environments

theorem upsertEnvironment_eq (db : Db) (w : DigestWrite) (issueId : Uuid) :
    upsertEnvironment db w issueId =
      { db with environments := environmentsAfter db w issueId } := by
  unfold environmentsAfter upsertEnvironment
  dsimp only
  split_ifs <;> rfl

/-- The projects after an event: its own has counted it, in its quota too. -/
def projectsAfter (db : Db) (projectId : Int) (quota : QuotaWindows) : List Project :=
  modify Project.id projectId (fun p =>
    { p with
      storedEventCount := p.storedEventCount + 1
      digestedEventCount := p.digestedEventCount + 1
      quota }) db.projects

def installationAfter (db : Db) (now : Int) : Installation where
  digestedEventCount := db.installation.digestedEventCount + 1
  quota := count db.installation.quota now

/-- Both rows had room and both counted the event. -/
theorem consumeQuota_eq_ok {projectId : Int}
    (h : consumeQuota config db projectId now = .ok db') :
    hasRoom db.installation.quota config.installation now = true ∧
      ∃ p, db.project projectId = some p ∧
        hasRoom p.quota (projectLimits config p.ownLimits) now = true ∧
        db' = { db with
          installation := { db.installation with quota := count db.installation.quota now }
          projects := modify Project.id projectId
            (fun q => { q with quota := count p.quota now }) db.projects } := by
  unfold consumeQuota at h
  split at h
  · split_ifs at h
  · next project hproject =>
      split at h
      · cases h
      · next installation quota hconsume =>
          obtain ⟨hroom, hroom', hafter⟩ := tryConsume_eq_ok hconsume
          obtain ⟨rfl, rfl⟩ := Prod.mk.inj hafter
          exact ⟨hroom, project, hproject, hroom', (Except.ok.inj h).symm⟩

private theorem consume_increment {projectId : Int}
    (h : consumeQuota config db projectId now = .ok db') :
    hasRoom db.installation.quota config.installation now = true ∧
      ∃ p, db.project projectId = some p ∧
        hasRoom p.quota (projectLimits config p.ownLimits) now = true ∧
        incrementEventCounters db' projectId = { db with
          installation := installationAfter db now
          projects := projectsAfter db projectId (count p.quota now) } := by
  obtain ⟨hroom, p, hproject, hroom', rfl⟩ := consumeQuota_eq_ok h
  refine ⟨hroom, p, hproject, hroom', ?_⟩
  have hkey : ∀ q : Project, ({ q with quota := count p.quota now } : Project).id = q.id :=
    fun _ => rfl
  simp only [incrementEventCounters, installationAfter, projectsAfter, modify_modify hkey]

/-- Everything a committed digest did: the event is new, both quotas had room, and
one event was added everywhere it is counted. -/
structure Written (config : RateLimitConfig) (db : Db) (w : DigestWrite) (freshId : Uuid)
    (now : Int) (db' : Db) (landing : Landing) : Prop where
  fresh : db.hasEvent w.projectId w.eventId = false
  lands : Lands db w freshId
    { db with issues := db'.issues, groupings := db'.groupings } landing
  events : db'.events = db.events ++ [w.row landing.issueId]
  environments : db'.environments = environmentsAfter db w landing.issueId
  installationRoom : hasRoom db.installation.quota config.installation now = true
  installation : db'.installation = installationAfter db now
  projects : ∃ p, db.project w.projectId = some p ∧
    hasRoom p.quota (projectLimits config p.ownLimits) now = true ∧
    db'.projects = projectsAfter db w.projectId (count p.quota now)

theorem writeDigestRows_written {issueId : Uuid} {created regressed : Bool}
    (h : writeDigestRows config db w freshId now =
      .ok (db', .written issueId created regressed)) :
    Written config db w freshId now db' ⟨issueId, created, regressed⟩ := by
  obtain ⟨⟨db₁, landing⟩, hland, h⟩ := bind_eq_ok h
  obtain ⟨db₂, hinsert, h⟩ := bind_eq_ok h
  have hlands := findOrCreateIssue_cases hland
  obtain ⟨hinstallation, hprojects, hevents, henvironments⟩ := hlands.frame
  unfold insertEvent at hinsert
  split_ifs at hinsert with hexists
  obtain rfl := Except.ok.inj hinsert
  rw [upsertEnvironment_eq] at h
  dsimp only at h
  split at h
  · cases Except.ok.inj h
  · next db₃ hconsume =>
      obtain ⟨hroom, p, hproject, hroom', hcounted⟩ := consume_increment hconsume
      rw [hcounted] at h
      obtain ⟨hdb, houtcome⟩ := Prod.mk.inj (Except.ok.inj h)
      obtain ⟨hissue, hcreated, hregressed⟩ := DigestOutcome.written.inj houtcome
      obtain rfl : landing = ⟨issueId, created, regressed⟩ := by
        rw [← hissue, ← hcreated, ← hregressed]
      subst hdb
      have hsame : { db with issues := db₁.issues, groupings := db₁.groupings } = db₁ := by
        rw [← hinstallation, ← hprojects, ← hevents, ← henvironments]
      refine
        { fresh := by simpa [Db.hasEvent, hevents] using hexists
          lands := by rw [hsame]; exact hlands
          events := by rw [← hevents]; rfl
          environments := ?_
          installationRoom := by rw [← hinstallation]; exact hroom
          installation := by simp only [installationAfter, hinstallation]
          projects := ⟨p, ?_, hroom', ?_⟩ }
      · simp only [environmentsAfter, upsertEnvironment, henvironments]
        split_ifs <;> rfl
      · rw [← hproject]
        simp only [Db.project, hprojects]
      · simp only [projectsAfter, hprojects]

end Rustrak.Digest
