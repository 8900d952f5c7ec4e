import Rustrak.Alerts.History
import Rustrak.Digest.Effects

/-!
# What a replay finds

A digest commits its event with what the event brought its issue to, and a digest that comes
later finds that in the tables: the row, its columns and the issue.  While nothing is deleted
and the issue is neither muted nor unmuted they stay (`Stored.step`), whatever else is digested.
-/

namespace Rustrak.Alerts

open Rustrak.Core Rustrak.Digest Rustrak.Quota Rustrak.Relational Rustrak.Transition

/-- What the digest of an event made of it. -/
structure Landed where
  issueId : Uuid
  lifecycle : Option AlertType
  muted : Bool
  /-- What the event brought the issue to. -/
  count : Int
  deriving DecidableEq

/-- The alerts the event fires. -/
def Landed.types (l : Landed) (e : PendingEvent) : List AlertType :=
  eventAlertTypes l.lifecycle l.muted e.isFeedback

/-- The step in which a digest commits its event. -/
def Commits (config : RateLimitConfig) (b : Backend) (s : AlertServer) (label : AlertLabel)
    (s' : AlertServer) (e : PendingEvent) (l : Landed) : Prop :=
  AlertSteps config b s label s' ∧
    ∃ i freshId now suppressed t db issueId created regressed issue,
      label = .advance i freshId now suppressed ∧ s.tasks[i]? = some t ∧ t.stage = .writing e ∧
      writeDigestRows config s.db e.write freshId now =
        .ok (db, .written issueId created regressed) ∧
      db.issue issueId = some issue ∧
      l = ⟨issueId, alertTypeForLifecycle created regressed e.isFeedback, isMuted issue,
        issue.digestedEventCount⟩

/-- Nothing is deleted, the rules stay as they are, and so does whether the issue is muted. -/
def Fixed (l : Landed) : AlertLabel → Prop
  | .setRules _ | .retain _ _ _ _ | .deleteIssue _ => False
  | .setStatus issueId status _ => issueId = l.issueId → (status == .ignored) = l.muted
  | _ => True

/-- The event is stored with what it brought about. -/
structure Stored (s : AlertServer) (e : PendingEvent) (l : Landed) : Prop where
  row : ∃ row, lookup EventRow.key e.key s.db.events = some row ∧ row.issueId = some l.issueId
  mark : lookup EventMark.key e.key s.marks =
    some ⟨e.key, l.lifecycle, if l.muted then none else some l.count⟩
  issue : ∃ issue, s.db.issue l.issueId = some issue ∧ isMuted issue = l.muted ∧
    (issue.category == .feedback) = e.isFeedback

variable {config : RateLimitConfig} {b : Backend} {s s' : AlertServer} {label : AlertLabel}
  {e f : PendingEvent} {l : Landed} {w : DigestWrite}

/-- An event neither mutes nor unmutes its issue. -/
theorem isMuted_withEvent (issue : Issue) (w : DigestWrite) :
    isMuted (issue.withEvent issue w) = isMuted issue := by
  unfold isMuted Issue.withEvent
  dsimp only
  split_ifs with hregression
  · unfold isRegression at hregression
    simp only [Bool.and_eq_true, beq_iff_eq] at hregression
    rw [hregression.1]
    rfl
  · rfl

theorem Stored.hasEvent (h : Stored s e l) : s.db.hasEvent e.key.1 e.key.2 = true := by
  obtain ⟨row, hrow, _⟩ := h.row
  unfold Db.hasEvent
  exact Option.isSome_iff_exists.mpr ⟨row, hrow⟩

theorem Stored.congr (h : Stored s e l) (hdb : s'.db = s.db) (hmarks : s'.marks = s.marks) :
    Stored s' e l := by
  constructor
  · rw [hdb]
    exact h.row
  · rw [hmarks]
    exact h.mark
  · rw [hdb]
    exact h.issue

/-- Another event is stored beside it, on its issue or on another. -/
theorem Stored.written {db : Db} {freshId : Uuid} {now : Int} {landing : Landing} {m : EventMark}
    (h : Stored s e l) (hwritten : Written config s.db w freshId now db landing) :
    Stored { s with db, marks := s.marks ++ [m] } e l where
  row := by
    obtain ⟨row, hrow, hissue⟩ := h.row
    refine ⟨row, ?_, hissue⟩
    show lookup EventRow.key e.key db.events = some row
    rw [hwritten.events, lookup_append, hrow, Option.some_or]
  mark := by
    show lookup EventMark.key e.key (s.marks ++ [m]) = _
    rw [lookup_append, h.mark, Option.some_or]
  issue := by
    obtain ⟨issue, hissue, hmuted, hcategory⟩ := h.issue
    by_cases hsame : l.issueId = landing.issueId
    · rcases hwritten.issue_landing with ⟨prev, hprev, hafter⟩ | ⟨hnone, _⟩
      · rw [← hsame] at hprev hafter
        obtain rfl := Option.some.inj (hissue.symm.trans hprev)
        exact ⟨_, hafter, (isMuted_withEvent issue w).trans hmuted, hcategory⟩
      · rw [hsame, hnone] at hissue
        contradiction
    · exact ⟨issue, (hwritten.issue_ne hsame).trans hissue, hmuted, hcategory⟩

theorem Stored.setStatus {issueId : Uuid} {status : IssueStatus} {inNextRelease : Bool}
    (h : Stored s e l) (hmute : issueId = l.issueId → (status == .ignored) = l.muted) :
    Stored { s with db := { s.db with
      issues := modify Issue.id issueId (fun i => { i with status, inNextRelease }) s.db.issues } }
      e l where
  row := h.row
  mark := h.mark
  issue := by
    obtain ⟨issue, hissue, hmuted, hcategory⟩ := h.issue
    have hkey : ∀ i : Issue, ({ i with status, inNextRelease } : Issue).id = i.id := fun _ => rfl
    by_cases hsame : issueId = l.issueId
    · refine ⟨{ issue with status, inNextRelease }, ?_, hmute hsame, hcategory⟩
      subst hsame
      show lookup Issue.id l.issueId (modify Issue.id l.issueId _ s.db.issues) = _
      rw [lookup_modify_self hkey]
      exact congrArg (Option.map _) hissue
    · refine ⟨issue, ?_, hmuted, hcategory⟩
      show lookup Issue.id l.issueId (modify Issue.id issueId _ s.db.issues) = _
      rw [lookup_modify_ne hkey (Ne.symm hsame)]
      exact hissue

/-- A step of a digest leaves the tables, or stores another event. -/
theorem Stored.advances {key : Int × Uuid} {stage next : DigestStage} (h : Stored s e l)
    (hadvance : Advances config b s key stage s' next) : Stored s' e l := by
  cases hadvance with
  | moves => exact h
  | writes hwritten _ => exact h.written hwritten
  | records _ => exact h.congr rfl rfl
  | deletes _ => exact h.congr rfl rfl

theorem Stored.step (h : Stored s e l) (hstep : AlertSteps config b s label s')
    (hfixed : Fixed l label) : Stored s' e l := by
  cases label with
  | deliver event =>
      obtain rfl := Option.some.inj hstep
      have hsame : (s.storeFile event).db = s.db ∧ (s.storeFile event).marks = s.marks := by
        unfold AlertServer.storeFile
        split_ifs <;> exact ⟨rfl, rfl⟩
      exact h.congr hsame.1 hsame.2
  | recover key =>
      obtain ⟨_, hstep⟩ := Option.ite_none_right_eq_some.mp hstep
      obtain rfl := Option.some.inj hstep
      exact h.congr rfl rfl
  | advance i freshId now suppressed =>
      obtain ⟨t, _, rfl⟩ := Option.map_eq_some_iff.mp hstep
      have hadvance : Advances config b s t.key t.stage _ _ :=
        advance_advances freshId now suppressed t.stage
      exact (h.advances hadvance).congr rfl rfl
  | failRule i =>
      obtain ⟨t, _, hstep⟩ := Option.bind_eq_some_iff.mp hstep
      obtain ⟨_, _, rfl⟩ := Option.map_eq_some_iff.mp hstep
      exact h.congr rfl rfl
  | crash i =>
      obtain ⟨t, _, rfl⟩ := Option.map_eq_some_iff.mp hstep
      exact h.congr rfl rfl
  | setStatus issueId status inNextRelease =>
      obtain rfl := Option.some.inj hstep
      exact h.setStatus hfixed
  | setFeedback projectId keeps =>
      obtain rfl := Option.some.inj hstep
      exact h.congr rfl rfl
  | setRules rules => exact hfixed.elim
  | retain projectId cutoff limit picked => exact hfixed.elim
  | deleteIssue issueId => exact hfixed.elim

/-! ## The commit -/

/-- What a committed digest leaves behind. -/
theorem Commits.eq (h : Commits config b s label s' e l) : ∃ i t db freshId now landing,
    s.tasks[i]? = some t ∧ t.stage = .writing e ∧
    Written config s.db e.write freshId now db landing ∧ landing.issueId = l.issueId ∧
    (∃ issue, db.issue l.issueId = some issue ∧ isMuted issue = l.muted ∧
      l.lifecycle = alertTypeForLifecycle landing.created landing.regressed e.isFeedback) ∧
    s' = AlertServer.setStage
      { s with
        db
        marks := s.marks ++ [⟨e.key, l.lifecycle, if l.muted then none else some l.count⟩] } i t
      (.triggering ⟨e, l.issueId, l.count⟩ (l.types e)) := by
  obtain ⟨hstep, i, freshId, now, suppressed, t, db, issueId, created, regressed, issue, rfl, ht,
    hstage, hwrite, hissue, rfl⟩ := h
  refine ⟨i, t, db, freshId, now, ⟨issueId, created, regressed⟩, ht, hstage,
    writeDigestRows_written hwrite, rfl, ⟨issue, hissue, rfl, rfl⟩, ?_⟩
  obtain ⟨t', ht', rfl⟩ := Option.map_eq_some_iff.mp hstep
  obtain rfl := Option.some.inj (ht.symm.trans ht')
  have honce : writeDigestOnce config s.db e.write freshId now =
      (db, .ok (.written issueId created regressed)) := by
    unfold writeDigestOnce
    rw [hwrite]
  rw [hstage]
  simp only [AlertServer.advance, AlertServer.write, honce, hissue]
  rfl

/-- A muted issue is not new, and has not regressed. -/
theorem landing_of_muted {db : Db} {freshId : Uuid} {now : Int} {landing : Landing} {issue : Issue}
    (hwritten : Written config s.db w freshId now db landing)
    (hissue : db.issue landing.issueId = some issue) (hmuted : isMuted issue = true) :
    landing.created = false ∧ landing.regressed = false := by
  have hfound : ∀ {prev : Issue}, s.db.issue landing.issueId = some prev →
      isRegression prev w = false := by
    intro prev hprev
    rcases hwritten.issue_landing with ⟨prev', hprev', hafter⟩ | ⟨hnone, _⟩
    · obtain rfl := Option.some.inj (hprev.symm.trans hprev')
      obtain rfl := Option.some.inj (hissue.symm.trans hafter)
      rw [isMuted_withEvent] at hmuted
      unfold isRegression
      rw [beq_iff_eq.mp hmuted]
      rfl
    · rw [hprev] at hnone
      contradiction
  have hlands := hwritten.lands
  generalize { s.db with issues := db.issues, groupings := db.groupings } = after at hlands
  cases hlands with
  | current hgrouping => exact ⟨rfl, hfound (findGrouping_eq_some hgrouping).2.2⟩
  | legacy _ _ hgrouping _ => exact ⟨rfl, hfound (findGrouping_eq_some hgrouping).2.2⟩
  | created _ _ hfree _ =>
      exfalso
      rcases hwritten.issue_landing with ⟨prev, hprev, _⟩ | ⟨_, hafter⟩
      · rw [hfree] at hprev
        contradiction
      · obtain rfl := Option.some.inj (hissue.symm.trans hafter)
        contradiction

theorem Commits.lifecycle_of_muted (h : Commits config b s label s' e l) (hmuted : l.muted = true) :
    l.lifecycle = none := by
  obtain ⟨_, _, db, _, _, landing, _, _, hwritten, hid, ⟨issue, hissue, hmute, hlifecycle⟩, _⟩ := h.eq
  rw [← hid] at hissue
  obtain ⟨hcreated, hregressed⟩ := landing_of_muted hwritten hissue (hmute.trans hmuted)
  rw [hlifecycle, hcreated, hregressed]
  rfl

theorem Commits.stored (h : Commits config b s label s' e l)
    (hmarks : lookup EventMark.key e.key s.marks = none)
    (hcategory : ∀ issue, s'.db.issue l.issueId = some issue →
      (issue.category == .feedback) = e.isFeedback) : Stored s' e l := by
  obtain ⟨i, t, db, freshId, now, landing, _, _, hwritten, hid, ⟨issue, hissue, hmute, _⟩, rfl⟩ := h.eq
  refine ⟨⟨e.write.row l.issueId, ?_, rfl⟩, ?_, ⟨issue, hissue, hmute, hcategory issue hissue⟩⟩
  · show lookup EventRow.key e.key db.events = _
    rw [hwritten.events, hid]
    refine lookup_insert_self ?_ rfl
    have hfresh : (lookup EventRow.key e.key s.db.events).isSome = false := hwritten.fresh
    simpa using hfresh
  · exact lookup_insert_self hmarks rfl

end Rustrak.Alerts
