import Rustrak.Digest.ExactlyOnce

/-!
# Resolved in the next release

An issue resolved in the next release is meant to stay resolved until a release
comes that the project had not seen by then.  The digest compares the release of an
event with one string only, the last release of the issue, so it holds back the
events of that release and reopens the issue on every other one, older ones included.

## Strategy

As long as digests leave the issue resolved, its marker and its last release are
those of the resolution (`Holding`): an event that would move the last release is one
that reopens the issue.  So every decision of a run is about the same release `R`
(`Holding.reopens_iff`), and the intended decision is taken exactly when no event
tells the two apart.
-/

namespace Rustrak.Digest

open Rustrak.Core Rustrak.Quota Rustrak.Relational Rustrak.Transition

/-- The `UPDATE` of `resolve_in_next_release`. -/
def Issue.resolvedInNextRelease (issue : Issue) : Issue :=
  { issue with status := .resolved, inNextRelease := true }

/-- `IssueService::resolve_in_next_release`. -/
def Db.resolveInNextRelease (db : Db) (id : Uuid) : AppResult Db :=
  if (db.issue id).isSome then
    .ok { db with
      issues := Relational.modify Issue.id id Issue.resolvedInNextRelease db.issues }
  else .error (.notFound s!"Issue {id} not found")

/-- The issue stands resolved. -/
def Db.IsResolved (db : Db) (id : Uuid) : Prop :=
  (db.issue id).map Issue.status = some .resolved

instance (db : Db) (id : Uuid) : Decidable (db.IsResolved id) :=
  inferInstanceAs (Decidable (_ = _))

variable (config : RateLimitConfig)

/-- One digest, by itself or beside others that committed after its checks. -/
inductive AttemptStep : Db → Attempt → Db → Prop
  | alone (db : Db) (a : Attempt) :
      AttemptStep db a (digest config db a.write a.freshId a.checked a.now).1
  | raced (db : Db) (a : Attempt) :
      AttemptStep db a (writeDigestOnce config db a.write a.freshId a.now).1

/-- The digest stores its event under the issue. -/
def StoresUnder (i : Uuid) (db : Db) (a : Attempt) (db' : Db) : Prop :=
  ∃ created regressed, writeDigestRows config db a.write a.freshId a.now =
    .ok (db', .written i created regressed)

/-- The event names a release that was not seen before. -/
def NewRelease (seen : String → Prop) (w : DigestWrite) : Prop :=
  w.release ≠ "" ∧ ¬seen w.release

variable {config} {db db' : Db} {a : Attempt} {i : Uuid} {R : String}

theorem AttemptStep.commits_or_keeps (h : AttemptStep config db a db') :
    db' = db ∨ Commits config db a db' := by
  cases h with
  | alone => exact digest_commits_or_keeps config db a
  | raced => exact writeDigestOnce_commits_or_keeps config db a

/-- A digest changes no issue but the one it stores its event under. -/
theorem AttemptStep.issue_eq (h : AttemptStep config db a db')
    (hother : ¬StoresUnder config i db a db') : db'.issue i = db.issue i := by
  rcases h.commits_or_keeps with rfl | ⟨issueId, created, regressed, hwritten⟩
  · rfl
  · have hne : i ≠ issueId := by
      rintro rfl
      exact hother ⟨created, regressed, hwritten⟩
    exact (writeDigestRows_written hwritten).issue_ne hne

/-- What an event does to an issue that was there. -/
theorem StoresUnder.issue_eq {issue : Issue} (h : StoresUnder config i db a db')
    (hissue : db.issue i = some issue) :
    db'.issue i = some (issue.withEvent issue a.write) := by
  obtain ⟨created, regressed, hwritten⟩ := h
  rcases (writeDigestRows_written hwritten).issue_landing with ⟨prev, hold, hnew⟩ | ⟨hnone, _⟩
  · obtain rfl : issue = prev := Option.some.inj (hissue.symm.trans hold)
    exact hnew
  · rw [hissue] at hnone
    contradiction

/-! ## While the issue is resolved -/

/-- If the issue is still resolved, it is as it was resolved. -/
def Holding (R : String) (i : Uuid) (db : Db) : Prop :=
  ∃ issue, db.issue i = some issue ∧
    (issue.status = .resolved → issue.inNextRelease = true ∧ issue.lastRelease = R)

theorem holding_resolve {issue : Issue} (hissue : db.issue i = some issue)
    (hresolve : db.resolveInNextRelease i = .ok db') : Holding issue.lastRelease i db' := by
  unfold Db.resolveInNextRelease at hresolve
  rw [hissue, Option.isSome_some, if_pos rfl] at hresolve
  obtain rfl := Except.ok.inj hresolve
  have hkey : ∀ row : Issue, row.resolvedInNextRelease.id = row.id := fun _ => rfl
  refine ⟨issue.resolvedInNextRelease, ?_, fun _ => ⟨rfl, rfl⟩⟩
  calc lookup Issue.id i (Relational.modify Issue.id i Issue.resolvedInNextRelease db.issues)
      = (db.issue i).map Issue.resolvedInNextRelease := lookup_modify_self hkey
    _ = some issue.resolvedInNextRelease := by rw [hissue, Option.map_some]

/-- The one comparison of the digest, as long as the issue is as it was resolved. -/
theorem isRegression_of_marked {issue : Issue} (w : DigestWrite)
    (hstatus : issue.status = .resolved) (hmarker : issue.inNextRelease = true) :
    isRegression issue w = true ↔ w.release ≠ "" ∧ w.release ≠ issue.lastRelease := by
  simp [isRegression, hstatus, hmarker]

/-- A step lemma: digests change neither the marker nor the last release of an issue
they leave resolved. -/
theorem Holding.step (h : Holding R i db) (hstep : AttemptStep config db a db') :
    Holding R i db' := by
  obtain ⟨issue, hissue, hmarked⟩ := h
  by_cases hstores : StoresUnder config i db a db'
  · refine ⟨_, hstores.issue_eq hissue, fun hstatus => ?_⟩
    by_cases hregressed : isRegression issue a.write = true
    · simp [Issue.withEvent, hregressed] at hstatus
    · have hresolved : issue.status = .resolved := by
        simpa [Issue.withEvent, hregressed] using hstatus
      obtain ⟨hmarker, hlast⟩ := hmarked hresolved
      rw [isRegression_of_marked a.write hresolved hmarker] at hregressed
      have hsame : a.write.release = "" ∨ a.write.release = issue.lastRelease := by tauto
      have hkept : isRegression issue a.write = false := by
        rw [← Bool.not_eq_true, isRegression_of_marked a.write hresolved hmarker]
        exact hregressed
      refine ⟨by simp [Issue.withEvent, hkept, hmarker], ?_⟩
      rcases hsame with hnone | hrelease
      · simp [Issue.withEvent, hnone, hlast]
      · simp [Issue.withEvent, hrelease, hlast]
  · exact ⟨issue, (hstep.issue_eq hstores).trans hissue, hmarked⟩

theorem Holding.run {attempts : List Attempt} (h : Holding R i db)
    (hrun : Run (AttemptStep config) db attempts db') : Holding R i db' :=
  Run.invariant (Holding R i) (fun _ _ _ hs hstep => hs.step hstep) hrun h

/-- A digest reopens the issue exactly on an event of its own with another release. -/
theorem Holding.reopens_iff (h : Holding R i db) (hstep : AttemptStep config db a db')
    (hresolved : db.IsResolved i) :
    ¬db'.IsResolved i ↔
      StoresUnder config i db a db' ∧ a.write.release ≠ "" ∧ a.write.release ≠ R := by
  obtain ⟨issue, hissue, hmarked⟩ := h
  have hstatus : issue.status = .resolved := by
    simpa [Db.IsResolved, hissue] using hresolved
  obtain ⟨hmarker, rfl⟩ := hmarked hstatus
  by_cases hstores : StoresUnder config i db a db'
  · have hafter : ¬db'.IsResolved i ↔ isRegression issue a.write = true := by
      rw [Db.IsResolved, hstores.issue_eq hissue]
      by_cases hregressed : isRegression issue a.write = true
      · simp [Issue.withEvent, hregressed]
      · simp [Issue.withEvent, hregressed, hstatus]
    rw [hafter, isRegression_of_marked a.write hstatus hmarker]
    exact (and_iff_right hstores).symm
  · have hkept : db'.IsResolved i := by
      rw [Db.IsResolved, hstep.issue_eq hstores]
      exact hresolved
    exact iff_of_false (not_not_intro hkept) fun hand => hstores hand.1

/-! ## The intended decision -/

/-- For every run of digests after an issue was resolved in the next release: each
digest that finds it resolved reopens it exactly on an event of a new release, if and
only if every event stored under it while it was still resolved names no release, a
new one, or the last one the issue had.  `seen` is what the project had seen when the
issue was resolved, the last release of the issue among it. -/
theorem next_release_honoured_iff {resolved final : Db} {issue : Issue} {seen : String → Prop}
    {attempts : List Attempt} (hissue : db.issue i = some issue)
    (hresolve : db.resolveInNextRelease i = .ok resolved)
    (hseen : issue.lastRelease ≠ "" → seen issue.lastRelease) :
    (∀ u a v, Passes (AttemptStep config) resolved attempts final u a v → u.IsResolved i →
      (¬v.IsResolved i ↔ StoresUnder config i u a v ∧ NewRelease seen a.write)) ↔
    ∀ u a v, Passes (AttemptStep config) resolved attempts final u a v → u.IsResolved i →
      StoresUnder config i u a v →
        a.write.release = "" ∨ ¬seen a.write.release ∨ a.write.release = issue.lastRelease := by
  have hdecides : ∀ u a v, Passes (AttemptStep config) resolved attempts final u a v →
      u.IsResolved i → (¬v.IsResolved i ↔ StoresUnder config i u a v ∧
        a.write.release ≠ "" ∧ a.write.release ≠ issue.lastRelease) := by
    rintro u a v ⟨before, after, _, hbefore, hstep, _⟩ hu
    exact ((holding_resolve hissue hresolve).run hbefore).reopens_iff hstep hu
  constructor
  · intro hhonoured u a v hpass hu hstores
    have hcode := hdecides u a v hpass hu
    have hmeant := hhonoured u a v hpass hu
    by_cases hnone : a.write.release = ""
    · exact .inl hnone
    · by_cases hlast : a.write.release = issue.lastRelease
      · exact .inr (.inr hlast)
      · exact .inr (.inl (hmeant.mp (hcode.mpr ⟨hstores, hnone, hlast⟩)).2.2)
  · intro hevents u a v hpass hu
    rw [hdecides u a v hpass hu]
    refine and_congr_right fun hstores => and_congr_right fun hnone => ?_
    rcases hevents u a v hpass hu hstores with hnone' | hnew | hlast
    · exact absurd hnone' hnone
    · have hne : a.write.release ≠ issue.lastRelease := by
        intro heq
        rw [heq] at hnew hnone
        exact hnew (hseen hnone)
      exact iff_of_true hne hnew
    · rw [hlast] at hnone ⊢
      exact iff_of_false (not_not_intro rfl) (not_not_intro (hseen hnone))

/-! ## An old release -/

/-- The same error of another event, from this release. -/
def ofRelease (eventId release : String) (time : Int) : Attempt where
  write := ⟨eventId, 1, "ValueError", "v", "v", time, release, "production", .error⟩
  freshId := "issue-1"
  checked := time
  now := time

/-- The tables after an error came from release 1.0 and then from 2.0. -/
def seenTwice : Db :=
  let first := ofRelease "event-1" "1.0" 100
  let second := ofRelease "event-2" "2.0" 200
  let db := (digest tenPerMinute (.fresh [1]) first.write first.freshId 100 100).1
  (digest tenPerMinute db second.write second.freshId 200 200).1

/-- The same tables with the issue resolved in the next release. -/
def seenTwiceResolved : Db :=
  (seenTwice.resolveInNextRelease "issue-1").toOption.getD seenTwice

/-- A late event of 1.0 reopens the issue that 2.0 was the last release of. -/
theorem old_release_reopens :
    (seenTwice.issue "issue-1").map Issue.lastRelease = some "2.0" ∧
      seenTwice.resolveInNextRelease "issue-1" = .ok seenTwiceResolved ∧
      seenTwiceResolved.IsResolved "issue-1" ∧
      ∃ late : Attempt, late.write.release = "1.0" ∧
        ¬(digest tenPerMinute seenTwiceResolved late.write late.freshId late.checked
          late.now).1.IsResolved "issue-1" := by
  refine ⟨by decide +kernel, by decide +kernel, by decide +kernel,
    ofRelease "event-3" "1.0" 300, rfl, by decide +kernel⟩

/-- Events of the last release and of none, and then one of a new release. -/
theorem next_release_honoured_two_releases : ∃ final,
    Run (AttemptStep tenPerMinute) seenTwiceResolved [ofRelease "event-3" "2.0" 300,
        ofRelease "event-4" "" 400, ofRelease "event-5" "3.0" 500] final ∧
      ¬final.IsResolved "issue-1" ∧
      ∀ u a v, Passes (AttemptStep tenPerMinute) seenTwiceResolved
        [ofRelease "event-3" "2.0" 300, ofRelease "event-4" "" 400,
          ofRelease "event-5" "3.0" 500] final u a v → u.IsResolved "issue-1" →
        (¬v.IsResolved "issue-1" ↔ StoresUnder tenPerMinute "issue-1" u a v ∧
          NewRelease (fun r => r = "1.0" ∨ r = "2.0") a.write) := by
  refine ⟨_, .cons (.alone _ _) <| .cons (.alone _ _) <| .cons (.alone _ _) <| .nil _,
    by decide +kernel, ?_⟩
  have hissue : seenTwice.issue "issue-1" = some
      ⟨"issue-1", 1, .error, .unresolved, false, 100, 200, "1.0", "2.0", 2, 2⟩ := by
    decide +kernel
  refine (next_release_honoured_iff hissue (by decide +kernel) fun _ => .inr rfl).mpr ?_
  rintro u a v ⟨before, after, hsplit, _⟩ _ _
  have hmem : a ∈ [ofRelease "event-3" "2.0" 300, ofRelease "event-4" "" 400,
      ofRelease "event-5" "3.0" 500] := by
    rw [hsplit]
    simp
  rcases List.mem_cons.mp hmem with rfl | hmem
  · exact .inr (.inr rfl)
  · rcases List.mem_cons.mp hmem with rfl | hmem
    · exact .inl rfl
    · obtain rfl := List.mem_singleton.mp hmem
      exact .inr (.inl (by decide))

end Rustrak.Digest
