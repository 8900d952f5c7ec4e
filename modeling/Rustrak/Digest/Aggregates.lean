import Rustrak.Digest.EnvironmentCounts
import Rustrak.Relational.Newest

/-!
# The aggregates of an issue

An issue keeps the first and the last time it was seen and how many events it has had, and so
does its row in each environment.  The first event creates the rows, and every later one moves
each bound in its own direction and counts itself: two statements that agree on what a tally of
the events is.

Which event comes first only decides which of the two statements it meets, so any order of the
same events, with replays, duplicates and crashes in between, leaves the same numbers.
-/

namespace Rustrak.Digest

open Rustrak.Core Rustrak.Quota Rustrak.Relational Rustrak.Transition

/-- The times of the events of an environment. -/
def timesIn (events : List DigestWrite) (environment : String) : List Int :=
  (events.filter fun w => w.storedEnvironment = environment).map DigestWrite.timestamp

/-- An issue and its rows in the environments tally these events. -/
structure Aggregates (db : Db) (i : Uuid) (events : List DigestWrite) : Prop where
  issue : ∃ row, db.issue i = some row ∧
    Tally (events.map DigestWrite.timestamp) row.firstSeen row.lastSeen row.digestedEventCount ∧
    row.storedEventCount = row.digestedEventCount
  environment : ∀ e ∈ db.environments, e.issueId = i →
    Tally (timesIn events e.environment) e.firstSeen e.lastSeen e.eventCount
  seen : ∀ w ∈ events, w.storedEnvironment ≠ "" →
    ∃ e ∈ db.environments, e.key = (i, w.storedEnvironment)

variable {config : RateLimitConfig} {db db' : Db} {i : Uuid} {w : DigestWrite}
  {freshId : Uuid} {now : Int} {landing : Landing} {events : List DigestWrite}

theorem Aggregates.perm {events' : List DigestWrite} (h : Aggregates db i events)
    (hperm : events.Perm events') : Aggregates db i events' where
  issue := by
    obtain ⟨row, hrow, htally, hstored⟩ := h.issue
    exact ⟨row, hrow, htally.perm (hperm.map _), hstored⟩
  environment e he hi := (h.environment e he hi).perm ((hperm.filter _).map _)
  seen w hw := h.seen w (hperm.mem_iff.mpr hw)

/-! ## One more event -/

theorem timesIn_append_self {environment : String} (hw : w.storedEnvironment = environment) :
    timesIn (events ++ [w]) environment = timesIn events environment ++ [w.timestamp] := by
  simp [timesIn, List.filter_append, hw]

theorem timesIn_append_ne {environment : String} (hw : w.storedEnvironment ≠ environment) :
    timesIn (events ++ [w]) environment = timesIn events environment := by
  simp [timesIn, List.filter_append, hw]

theorem Issue.tally_withEvent {row : Issue} {times : List Int}
    (h : Tally times row.firstSeen row.lastSeen row.digestedEventCount) :
    Tally (times ++ [w.timestamp]) (row.withEvent row w).firstSeen (row.withEvent row w).lastSeen
      (row.withEvent row w).digestedEventCount :=
  h.add w.timestamp

theorem IssueEnvironment.tally_withEvent {e : IssueEnvironment} {times : List Int}
    (h : Tally times e.firstSeen e.lastSeen e.eventCount) :
    Tally (times ++ [w.timestamp]) (e.withEvent w).firstSeen (e.withEvent w).lastSeen
      (e.withEvent w).eventCount := by
  have hfirst : (e.withEvent w).firstSeen = min e.firstSeen w.timestamp := by
    simp only [IssueEnvironment.withEvent]
    split_ifs <;> omega
  have hlast : (e.withEvent w).lastSeen = max e.lastSeen w.timestamp := by
    simp only [IssueEnvironment.withEvent]
    split_ifs <;> omega
  rw [hfirst, hlast]
  exact h.add w.timestamp

/-- The rows of an issue in the environments after an event of it. -/
theorem Aggregates.environmentsAfter (hplaced : Placed db)
    (henvironment : ∀ e ∈ db.environments, e.issueId = i →
      Tally (timesIn events e.environment) e.firstSeen e.lastSeen e.eventCount)
    (hseen : ∀ w ∈ events, w.storedEnvironment ≠ "" →
      ∃ e ∈ db.environments, e.key = (i, w.storedEnvironment)) :
    (∀ e ∈ environmentsAfter db w i, e.issueId = i →
      Tally (timesIn (events ++ [w]) e.environment) e.firstSeen e.lastSeen e.eventCount) ∧
    ∀ x ∈ events ++ [w], x.storedEnvironment ≠ "" →
      ∃ e ∈ environmentsAfter db w i, e.key = (i, x.storedEnvironment) := by
  have hkeep : ∀ x ∈ events ++ [w], x.storedEnvironment ≠ "" →
      x ∈ events ∨ x.storedEnvironment = w.storedEnvironment := by
    intro x hx _
    exact (List.mem_append.mp hx).imp_right fun hx => congrArg _ (List.mem_singleton.mp hx)
  unfold Digest.environmentsAfter upsertEnvironment
  dsimp only
  split_ifs with hnone hknown
  · -- An event without an environment is in no row.
    refine ⟨fun e he hi => ?_, fun x hx hne => ?_⟩
    · rw [timesIn_append_ne fun heq => (hplaced.owned e he).1 (heq.symm.trans hnone)]
      exact henvironment e he hi
    · rcases hkeep x hx hne with hx | hsame
      · exact hseen x hx hne
      · exact absurd (hsame.trans hnone) hne
  · refine ⟨fun e he hi => ?_, fun x hx hne => ?_⟩
    · obtain ⟨old, hold, rfl⟩ := mem_modify.mp he
      split_ifs at hi ⊢ with hkey
      · rw [show (old.withEvent w).environment = old.environment from rfl,
          timesIn_append_self (Prod.mk.inj hkey).2.symm]
        exact IssueEnvironment.tally_withEvent (henvironment old hold (Prod.mk.inj hkey).1)
      · have hother : w.storedEnvironment ≠ old.environment := fun heq =>
          hkey (Prod.ext hi heq.symm)
        rw [timesIn_append_ne hother]
        exact henvironment old hold hi
    · have hold : ∃ e ∈ db.environments, e.key = (i, x.storedEnvironment) := by
        rcases hkeep x hx hne with hx | hsame
        · exact hseen x hx hne
        · rw [hsame]
          exact lookup_isSome_iff.mp hknown
      obtain ⟨old, hold, hkey⟩ := hold
      refine ⟨_, mem_modify.mpr ⟨old, hold, rfl⟩, ?_⟩
      split_ifs
      · exact hkey
      · exact hkey
  · -- The first event of its environment: no event before was seen there.
    have hfree : ∀ e ∈ db.environments, e.key ≠ (i, w.storedEnvironment) := fun e he hkey =>
      hknown (lookup_isSome_iff.mpr ⟨e, he, hkey⟩)
    refine ⟨fun e he hi => ?_, fun x hx hne => ?_⟩
    · rcases List.mem_append.mp he with he | he
      · have hother : w.storedEnvironment ≠ e.environment := fun heq =>
          hfree e he (Prod.ext hi heq.symm)
        rw [timesIn_append_ne hother]
        exact henvironment e he hi
      · obtain rfl := List.mem_singleton.mp he
        have hnothing : timesIn events w.storedEnvironment = [] := by
          rw [timesIn, List.map_eq_nil_iff, List.filter_eq_nil_iff]
          intro x hx hsame
          have hsame := of_decide_eq_true hsame
          obtain ⟨e, he, hkey⟩ := hseen x hx (hsame ▸ hnone)
          exact hfree e he (hsame ▸ hkey)
        change Tally (timesIn (events ++ [w]) w.storedEnvironment) w.timestamp w.timestamp 1
        rw [timesIn_append_self rfl, hnothing]
        exact Tally.single w.timestamp
    · rcases hkeep x hx hne with hx | hsame
      · obtain ⟨e, he, hkey⟩ := hseen x hx hne
        exact ⟨e, List.mem_append_left _ he, hkey⟩
      · exact ⟨newEnvironment w i, List.mem_append_right _ (List.mem_singleton_self _),
          Prod.ext rfl hsame.symm⟩

/-! ## Where the next event lands -/

/-- The events of a key land on this issue. -/
def Grouped (db : Db) (projectId : Int) (hash : String) (i : Uuid) : Prop :=
  (db.findGrouping projectId hash).map (fun found => found.1.issueId) = some i

theorem findGrouping_map (db : Db) (projectId : Int) (hash : String) :
    (db.findGrouping projectId hash).map (fun found => found.1.issueId) =
      ((db.groupings.filter fun g => g.key = (projectId, hash)).find? fun g =>
        (db.issue g.issueId).isSome).map Grouping.issueId := by
  unfold Db.findGrouping
  induction db.groupings.filter fun g => g.key = (projectId, hash) with
  | nil => rfl
  | cons g rest ih =>
      rw [List.findSome?_cons, List.find?_cons]
      cases hissue : db.issue g.issueId with
      | none => exact ih
      | some issue => rfl

theorem Lands.grouped (h : Lands db w freshId db' landing)
    (hgrouped : Grouped db w.projectId w.groupingKeyHash i) :
    landing.issueId = i ∧ Grouped db' w.projectId w.groupingKeyHash i := by
  cases h with
  | @current g prev hfound =>
      have hi : g.issueId = i := by
        rw [Grouped, hfound] at hgrouped
        exact Option.some.inj hgrouped
      refine ⟨hi, ?_⟩
      -- The update keeps every issue, so the grouping still finds the same.
      have hsame : ∀ j, ((lookup Issue.id j (modify Issue.id g.issueId
          (fun issue => issue.withEvent prev w) db.issues)).isSome) = (db.issue j).isSome := by
        intro j
        rw [lookup_modify fun issue => Issue.id_withEvent issue prev w]
        split_ifs
        · exact Option.isSome_map
        · rfl
      rw [Grouped, findGrouping_map] at hgrouped ⊢
      simp only [Db.issue, hsame]
      exact hgrouped
  | legacy hnone =>
      rw [Grouped, hnone] at hgrouped
      cases hgrouped
  | created hnone =>
      rw [Grouped, hnone] at hgrouped
      cases hgrouped

/-- The first event of a key, current or legacy, opens an issue. -/
theorem Lands.opened (h : Lands db w freshId db' landing)
    (hcurrent : db.findGrouping w.projectId w.groupingKeyHash = none)
    (hlegacy : db.findGrouping w.projectId w.legacyGroupingKeyHash = none) :
    landing.issueId = freshId ∧ db.issue freshId = none ∧
      Grouped db' w.projectId w.groupingKeyHash freshId := by
  cases h with
  | current hfound =>
      rw [hfound] at hcurrent
      cases hcurrent
  | legacy _ _ hfound =>
      rw [hfound] at hlegacy
      cases hlegacy
  | created _ _ hfresh hfree =>
      refine ⟨rfl, hfresh, ?_⟩
      have hnew : lookup Issue.id freshId (db.issues ++ [newIssue w freshId]) =
          some (newIssue w freshId) := lookup_insert_self hfresh rfl
      have hnone : (db.groupings.filter fun g => g.key = (w.projectId, w.groupingKeyHash)) = [] :=
        List.filter_eq_nil_iff.mpr fun g hg => by
          simpa using lookup_eq_none_iff.mp hfree g hg
      rw [Grouped, findGrouping_map]
      change (((db.groupings ++ [w.grouping freshId]).filter fun g =>
        g.key = (w.projectId, w.groupingKeyHash)).find? fun g =>
          (lookup Issue.id g.issueId (db.issues ++ [newIssue w freshId])).isSome).map _ = _
      rw [List.filter_append, hnone, List.nil_append, List.filter_cons_of_pos (by simp),
        List.filter_nil, List.find?_cons_of_pos (by simp [DigestWrite.grouping, hnew])]
      rfl

/-! ## The first event and every later one -/

theorem Written.aggregates (hplaced : Placed db)
    (hw : Written config db w freshId now db' landing)
    (hgrouped : Grouped db w.projectId w.groupingKeyHash i) (h : Aggregates db i events) :
    Grouped db' w.projectId w.groupingKeyHash i ∧ Aggregates db' i (events ++ [w]) := by
  obtain ⟨hlanding, hgrouped'⟩ := hw.lands.grouped hgrouped
  have henvironments := Aggregates.environmentsAfter (w := w) hplaced h.environment h.seen
  refine ⟨hgrouped', ?_, ?_, ?_⟩
  · obtain ⟨row, hrow, htally, hstored⟩ := h.issue
    rcases hw.issue_landing with ⟨prev, hold, hnew⟩ | ⟨hnone, _⟩
    · rw [hlanding] at hold hnew
      obtain rfl := Option.some.inj (hrow.symm.trans hold)
      refine ⟨row.withEvent row w, hnew, ?_, congrArg (· + 1) hstored⟩
      rw [List.map_append]
      exact Issue.tally_withEvent htally
    · rw [hlanding, hrow] at hnone
      cases hnone
  · rw [hw.environments, hlanding]
    exact henvironments.1
  · rw [hw.environments, hlanding]
    exact henvironments.2

end Rustrak.Digest
