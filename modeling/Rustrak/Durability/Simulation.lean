import Rustrak.Digest.Write
import Rustrak.Durability.Pipeline
import Rustrak.Transition.Run

/-!
# A digest and its stages

`digest` is one digest that nothing interferes with, with every table it writes; the
stages know only which events have rows, and take the answers of the quota as they come.
A digest that ends is a run of the stages between the check for a duplicate and the
alerts, and afterwards both have the same rows.
-/

namespace Rustrak.Durability

open Rustrak.Core Rustrak.Digest Rustrak.Quota Rustrak.Relational Rustrak.Transition

/-- The events the stages see committed are those with a row. -/
def Reads (db : Db) (d : Disk) : Prop :=
  ∀ k : EventKey, k ∈ d.rows.committed ↔ db.hasEvent k.projectId k.eventId = true

def keyOf (w : DigestWrite) : EventKey := ⟨w.projectId, w.eventId⟩

/-- A stage is answered, and the digest goes on. -/
def StageStep (backend : Backend) (k : EventKey) (s : Disk × Stage) (outcome : Outcome)
    (s' : Disk × Stage) : Prop :=
  digestStep backend s.1 k s.2 outcome = some (s'.1, .next s'.2)

/-- Where the stages are when a digest is through with the tables. -/
def Stage.after : Digested → Stage
  | .stored => .alerting
  | .rateLimited => .limited

variable {backend : Backend} {config : RateLimitConfig} {db db' : Db} {d : Disk}
  {k : EventKey} {w : DigestWrite} {freshId : Uuid} {now : Int}

/-- The row of a commit is the one row more. -/
theorem Reads.commit (h : Reads db d) {landing : Landing}
    (hw : Written config db w freshId now db' landing) :
    Reads db' (d.commit backend (keyOf w)) := by
  intro k
  have hcommitted : k ∈ (d.commit backend (keyOf w)).rows.committed ↔
      k = keyOf w ∨ k ∈ d.rows.committed := by
    cases backend with
    | sqlite => exact Finset.mem_insert
    | postgres => exact Finset.mem_insert
  have hkey : (w.row landing.issueId).key = (k.projectId, k.eventId) ↔ k = keyOf w := by
    constructor
    · intro heq
      obtain ⟨hproject, hevent⟩ := Prod.mk.inj heq
      cases k
      exact congrArg₂ EventKey.mk hproject.symm hevent.symm
    · rintro rfl
      rfl
  rw [hcommitted, h k]
  unfold Db.hasEvent
  rw [hw.events, lookup_isSome_iff, lookup_isSome_iff, ← hkey]
  simp only [List.mem_append, List.mem_singleton, or_and_right, exists_or, exists_eq_left]
  exact or_comm

/-- Behind the check the stages go to the alerts if there is a row, and on if not. -/
private theorem checked_step (backend : Backend) (d : Disk) (k : EventKey) :
    StageStep backend k (d, .checking) .passed
      (d, if k ∈ d.rows.committed then .alerting else .measuring) := rfl

/-- The transaction of an event without a row commits, or is rolled back for the quota. -/
private theorem writing_step (hfresh : k ∉ d.rows.committed) :
    StageStep backend k (d, .writing) .passed (d.commit backend k, .alerting) ∧
      StageStep backend k (d, .writing) .full (d, .limited) := by
  unfold StageStep digestStep
  dsimp only
  rw [if_neg hfresh, if_neg hfresh]
  exact ⟨rfl, rfl⟩

/-- A digest that ends is a run of the stages. -/
theorem digest_simulated (h : Reads db d) {checked : Int} {r : Digested}
    (hdigest : digest config db w freshId checked now = (db', .ok r)) :
    ∃ outcomes d', Run (StageStep backend (keyOf w)) (d, .checking) outcomes (d', .after r) ∧
      Reads db' d' := by
  have hcheck := checked_step backend d (keyOf w)
  unfold digest at hdigest
  split at hdigest
  · cases (Prod.mk.inj hdigest).2
  next project hproject =>
    split_ifs at hdigest with hexists hfull
    · -- A duplicate.
      obtain ⟨rfl, hr⟩ := Prod.mk.inj hdigest
      obtain rfl := Except.ok.inj hr
      rw [if_pos ((h (keyOf w)).mpr hexists)] at hcheck
      exact ⟨[.passed], d, .single hcheck, h⟩
    · -- The quota is known to be full.
      obtain ⟨rfl, hr⟩ := Prod.mk.inj hdigest
      obtain rfl := Except.ok.inj hr
      rw [if_neg fun hrow => hexists ((h (keyOf w)).mp hrow)] at hcheck
      exact ⟨[.passed, .full], d, .cons hcheck (.single rfl), h⟩
    · have hfresh : keyOf w ∉ d.rows.committed := fun hrow => hexists ((h (keyOf w)).mp hrow)
      rw [if_neg hfresh] at hcheck
      have hmeasured : StageStep backend (keyOf w) (d, .measuring) .passed (d, .writing) := rfl
      obtain ⟨hcommits, hfull'⟩ := @writing_step backend d (keyOf w) hfresh
      unfold writeDigestOnce at hdigest
      generalize hrows : writeDigestRows config db w freshId now = result at hdigest
      cases result with
      | error e => cases (Prod.mk.inj hdigest).2
      | ok written =>
          obtain ⟨after, outcome⟩ := written
          cases outcome with
          | written issueId created regressed =>
              obtain ⟨rfl, hr⟩ := Prod.mk.inj hdigest
              obtain rfl := Except.ok.inj hr
              exact ⟨[.passed, .passed, .passed], _,
                .cons hcheck (.cons hmeasured (.single hcommits)),
                h.commit (writeDigestRows_written hrows)⟩
          | rateLimited scope =>
              obtain ⟨rfl, hr⟩ := Prod.mk.inj hdigest
              obtain rfl := Except.ok.inj hr
              exact ⟨[.passed, .passed, .full], d,
                .cons hcheck (.cons hmeasured (.single hfull')), h⟩

end Rustrak.Durability
