import Rustrak.Digest.Effects
import Rustrak.Transition.Run

/-!
# Exactly-once effects of a digest

However often the digest of an event is attempted, replayed, delivered twice or
lost in a crash, the tables are those of a run that digests each distinct event
once.

## Strategy

An attempt either commits the whole transaction or leaves the tables alone
(`digest_commits_or_keeps`), and a transaction of an event that is stored already
does not commit.  So at any time the tables are reached from the start by a run of
commits only, one for each surviving event (`Committed`); a crash falls back to the
run that the last checkpoint had.  What a run of commits does to each counter is
then added up once (`CountedOnce`).
-/

namespace Rustrak.Digest

open Rustrak.Core Rustrak.Quota Rustrak.Relational Rustrak.Transition

/-- One attempt to digest an event: what it would write, the key it drew for a new
issue, and its two readings of the clock. -/
structure Attempt where
  write : DigestWrite
  freshId : Uuid
  checked : Int
  now : Int
  deriving DecidableEq, Repr

def Attempt.key (a : Attempt) : Int × Uuid := a.write.key

variable (config : RateLimitConfig)

/-- The attempt's transaction commits. -/
def Commits (db : Db) (a : Attempt) (db' : Db) : Prop :=
  ∃ issueId created regressed,
    writeDigestRows config db a.write a.freshId a.now =
      .ok (db', .written issueId created regressed)

inductive Delivery
  | attempt (a : Attempt)
  | checkpoint
  | crash
  deriving DecidableEq, Repr

def Delivery.attempt? : Delivery → Option Attempt
  | .attempt a => some a
  | _ => none

/-- The attempts of a run, in order. -/
def attempts (deliveries : List Delivery) : List Attempt :=
  deliveries.filterMap Delivery.attempt?

variable {config} {db db' : Db} {a : Attempt}

/-! ## One attempt -/

theorem Commits.written (h : Commits config db a db') :
    ∃ landing, Written config db a.write a.freshId a.now db' landing := by
  obtain ⟨issueId, created, regressed, h⟩ := h
  exact ⟨_, writeDigestRows_written h⟩

theorem writeDigestOnce_commits_or_keeps (config : RateLimitConfig) (db : Db) (a : Attempt) :
    (writeDigestOnce config db a.write a.freshId a.now).1 = db ∨
      Commits config db a (writeDigestOnce config db a.write a.freshId a.now).1 := by
  unfold writeDigestOnce
  split
  · next db' issueId created regressed hwritten =>
      exact .inr ⟨issueId, created, regressed, hwritten⟩
  · exact .inl rfl
  · exact .inl rfl

theorem digest_commits_or_keeps (config : RateLimitConfig) (db : Db) (a : Attempt) :
    (digest config db a.write a.freshId a.checked a.now).1 = db ∨
      Commits config db a (digest config db a.write a.freshId a.checked a.now).1 := by
  have hwrite := writeDigestOnce_commits_or_keeps config db a
  unfold digest
  split
  · exact .inl rfl
  · split_ifs
    · exact .inl rfl
    · exact .inl rfl
    · generalize hresult : writeDigestOnce config db a.write a.freshId a.now = result at hwrite
      obtain ⟨after, outcome⟩ := result
      rcases outcome with e | outcome
      · exact hwrite
      · cases outcome with
        | written issueId created regressed => exact hwrite
        | rateLimited scope => exact hwrite

/-! ## Runs of attempts -/

/-- `db` is reached by committing each attempt of `order` once, and these were made
among `made`. -/
def Committed (config : RateLimitConfig) (start : Db) (made : List Attempt) (db : Db) : Prop :=
  ∃ order, order.Sublist made ∧ Run (Commits config) start order db

theorem Committed.more {start : Db} {made : List Attempt} (h : Committed config start made db)
    (more : List Attempt) : Committed config start (made ++ more) db := by
  obtain ⟨order, hsub, hrun⟩ := h
  exact ⟨order, hsub.trans (List.sublist_append_left _ _), hrun⟩

theorem Committed.commit {start : Db} {made : List Attempt} (h : Committed config start made db)
    (hcommit : Commits config db a db') : Committed config start (made ++ [a]) db' := by
  obtain ⟨order, hsub, hrun⟩ := h
  exact ⟨order ++ [a], hsub.append (List.Sublist.refl _), hrun.append (Run.single hcommit)⟩

theorem Committed.attempt {start : Db} {made : List Attempt} (h : Committed config start made db)
    (hafter : db' = db ∨ Commits config db a db') : Committed config start (made ++ [a]) db' := by
  rcases hafter with rfl | hcommit
  · exact h.more [a]
  · exact h.commit hcommit

/-- The quota after these events were counted, one after another. -/
def quotaAfter (quota : QuotaWindows) (order : List Attempt) : QuotaWindows :=
  order.foldl (fun quota a => count quota a.now) quota

/-- A project row after these of its events were counted. -/
def Project.after (p : Project) (order : List Attempt) : Project :=
  order.foldl (fun p a => p.withEvent a.now) p

/-- From `start` to `db`, every event of `order` was counted once, everywhere. -/
structure CountedOnce (start : Db) (order : List Attempt) (rows : List EventRow) (db : Db) :
    Prop where
  events : db.events = start.events ++ rows
  keys : rows.map EventRow.key = order.map Attempt.key
  digested : db.installation.digestedEventCount =
    start.installation.digestedEventCount + order.length
  quota : db.installation.quota = quotaAfter start.installation.quota order
  project : ∀ p, db.project p = (start.project p).map fun row =>
    row.after (order.filter fun a => a.write.projectId = p)
  stored : ∀ i, db.storedCount i =
    start.storedCount i + (rows.countP fun row => row.issueId = some i : Nat)
  issueDigested : ∀ i, db.digestedCount i =
    start.digestedCount i + (rows.countP fun row => row.issueId = some i : Nat)
  environment : ∀ i e, e ≠ "" → db.environmentCount i e = start.environmentCount i e +
    (rows.countP fun row => row.issueId = some i ∧ row.environment = e : Nat)

private theorem countP_singleton {p : EventRow → Bool} (row : EventRow) :
    (([row].countP p : Nat) : Int) = one (p row = true) := by
  unfold one
  by_cases h : p row = true <;> simp [h]

theorem CountedOnce.trans {start mid final : Db} {order order' : List Attempt}
    {rows rows' : List EventRow} (h : CountedOnce start order rows mid)
    (h' : CountedOnce mid order' rows' final) :
    CountedOnce start (order ++ order') (rows ++ rows') final where
  events := by rw [h'.events, h.events, List.append_assoc]
  keys := by rw [List.map_append, List.map_append, h.keys, h'.keys]
  digested := by
    rw [h'.digested, h.digested, List.length_append]
    omega
  quota := by rw [h'.quota, h.quota, quotaAfter, quotaAfter, quotaAfter, List.foldl_append]
  project := by
    intro p
    rw [h'.project, h.project, Option.map_map]
    simp only [Project.after, List.filter_append, List.foldl_append]
    rfl
  stored := by
    intro i
    rw [h'.stored, h.stored, List.countP_append]
    omega
  issueDigested := by
    intro i
    rw [h'.issueDigested, h.issueDigested, List.countP_append]
    omega
  environment := by
    intro i e he
    rw [h'.environment i e he, h.environment i e he, List.countP_append]
    omega

theorem CountedOnce.refl (start : Db) : CountedOnce start [] [] start where
  events := by simp
  keys := rfl
  digested := by simp
  quota := rfl
  project := by
    intro p
    simp [Project.after]
  stored := by simp
  issueDigested := by simp
  environment := by simp

/-- A commit inserts a key that is not there. -/
theorem Commits.eventKeys (h : Commits config db a db')
    (hkeys : (db.events.map EventRow.key).Nodup) : (db'.events.map EventRow.key).Nodup := by
  obtain ⟨landing, h⟩ := h.written
  have hfree : lookup EventRow.key (a.write.projectId, a.write.eventId) db.events = none := by
    simpa [Db.hasEvent] using h.fresh
  rw [h.events]
  exact nodup_insert hkeys hfree

theorem run_eventKeys {start : Db} {order : List Attempt}
    (hrun : Run (Commits config) start order db) (hkeys : (start.events.map EventRow.key).Nodup) :
    (db.events.map EventRow.key).Nodup :=
  Run.invariant (fun db => (db.events.map EventRow.key).Nodup)
    (fun _ _ _ hs hstep => hstep.eventKeys hs) hrun hkeys

def tenPerMinute : RateLimitConfig := ⟨⟨10, 10⟩, ⟨10, 10⟩⟩

def replayed : Attempt where
  write := ⟨"event-1", 1, "ValueError", "v", "v", 100, "1.0", "production", .error⟩
  freshId := "issue-1"
  checked := 100
  now := 101

/-- The same error a little later, under another key. -/
def claimed : Attempt where
  write := ⟨"event-2", 1, "TypeError", "t", "v", 200, "1.1", "", .error⟩
  freshId := "issue-2"
  checked := 200
  now := 200

end Rustrak.Digest
