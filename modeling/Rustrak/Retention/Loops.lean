import Rustrak.Retention.EventBatches

/-!
# The loops of a cleanup

The cleanup deletes each kind of data in batches that the database chooses, and an issue goes
with the batch that takes the last of its events.  Whatever the batches are, each loop ends
where one batch of everything leads (`drains_transactions`, `drains_logs`, `drains_events`), so
the loops of a project come to `purged`.
-/

namespace Rustrak.Retention

open Rustrak.Core Rustrak.Digest Rustrak.Relational

/-- Keys are unique, and references lead somewhere. -/
structure Keyed (s : Storage) : Prop where
  db : Referential s.db
  projects : (s.db.projects.map Project.id).Nodup
  transactions : (s.transactions.map TransactionRow.id).Nodup
  logs : (s.logs.map LogRow.id).Nodup

variable {s : Storage} {p : Purging} {projectId cutoff : Int}
variable {filter : CleanupFilter}

/-! ## Each loop -/

/-- After a batch of transactions. -/
def afterTransactions (p : Purging) (picked : List TransactionRow) : Purging :=
  let ids := picked.map TransactionRow.id
  ({ p.1 with
      spans := p.1.spans.filter fun span => !span.transactionId.any ids.contains
      transactions := p.1.transactions.filter fun t => !ids.contains t.id },
    { p.2 with
      transactions := p.2.transactions + p.1.transactions.countP fun t => ids.contains t.id
      spans := p.2.spans + p.1.spans.countP fun span => span.transactionId.any ids.contains })

def afterLogs (p : Purging) (picked : List LogRow) : Purging :=
  let ids := picked.map LogRow.id
  ({ p.1 with logs := p.1.logs.filter fun l => !ids.contains l.id },
    { p.2 with logs := p.2.logs + p.1.logs.countP fun l => ids.contains l.id })

def afterEvents (projectId : Int) (p : Purging) (picked : List EventRow) : Purging :=
  ({ p.1 with db := afterBatch p.1.db projectId picked },
    { p.2 with
      events := p.2.events + batchTakes p.1.db picked
      issuesRemoved := p.2.issuesRemoved + batchRemoves p.1.db projectId picked })

theorem any_contains_nil (o : Option Uuid) : o.any ([] : List Uuid).contains = false := by
  cases o <;> rfl

/-- Two batches of transactions do what one of both does. -/
theorem afterTransactions_split {a b c : List TransactionRow}
    (h : Splits TransactionRow.id p.1.transactions a b c) :
    afterTransactions (afterTransactions p a) b = afterTransactions p c := by
  simp only [afterTransactions, filter_not_filter_not, ← h.contains_key, ← h.any_contains_key,
    Nat.add_assoc, countP_add_countP_filter_not]

theorem afterLogs_split {a b c : List LogRow} (h : Splits LogRow.id p.1.logs a b c) :
    afterLogs (afterLogs p a) b = afterLogs p c := by
  simp only [afterLogs, filter_not_filter_not, ← h.contains_key, Nat.add_assoc,
    countP_add_countP_filter_not]

theorem afterEvents_split {a b c : List EventRow} (h : Splits EventRow.key p.1.db.events a b c)
    (hdb : Referential p.1.db) :
    afterEvents projectId (afterEvents projectId p a) b = afterEvents projectId p c := by
  simp only [afterEvents, Nat.add_assoc, batchTakes_split h, batchRemoves_split h hdb,
    afterBatch_afterBatch h hdb]

/-- What a batch of transactions leaves of them. -/
theorem oldTransactions_split {picked : List TransactionRow}
    (hpicked : picked.Sublist (oldTransactions projectId cutoff p.1)) :
    Splits TransactionRow.id p.1.transactions picked
      (oldTransactions projectId cutoff (afterTransactions p picked).1)
      (oldTransactions projectId cutoff p.1) :=
  Splits.of_filter List.filter_sublist hpicked (fun _ => rfl) _ rfl

theorem oldLogs_split {picked : List LogRow}
    (hpicked : picked.Sublist (oldLogs projectId cutoff p.1)) :
    Splits LogRow.id p.1.logs picked (oldLogs projectId cutoff (afterLogs p picked).1)
      (oldLogs projectId cutoff p.1) :=
  Splits.of_filter List.filter_sublist hpicked (fun _ => rfl) _ rfl

theorem expired_split {picked : List EventRow}
    (hpicked : picked.Sublist (expired p.1.db projectId cutoff)) :
    Splits EventRow.key p.1.db.events picked
      (expired (afterEvents projectId p picked).1.db projectId cutoff)
      (expired p.1.db projectId cutoff) := by
  unfold expired afterEvents
  rw [afterBatch_events]
  exact Splits.of_filter List.filter_sublist hpicked (fun _ => rfl) _ rfl

theorem drains_transactions (projectId cutoff : Int) :
    Drains (fun p : Purging => oldTransactions projectId cutoff p.1) transactionBatch
      afterTransactions fun p => Keyed p.1 where
  stop := fun p => rfl
  nil := by
    intro p _
    simp [afterTransactions, any_contains_nil]
  batch := by
    intro p picked _ _ hne
    have hsome : picked.isEmpty = false := by simpa using hne
    simp [transactionBatch, deleteTransactionBatch, afterTransactions, hsome]
  keeps := fun p picked h _ =>
    { h with transactions := h.transactions.sublist (List.filter_sublist.map _) }
  fewer := fun p picked _ hpicked hne => (oldTransactions_split hpicked).length_second_lt hne
  whole := fun p picked _ hpicked => afterTransactions_split (oldTransactions_split hpicked)

theorem drains_logs (projectId cutoff : Int) :
    Drains (fun p : Purging => oldLogs projectId cutoff p.1) logBatch afterLogs
      fun p => Keyed p.1 where
  stop := by
    intro p
    simp [logBatch]
  nil := by
    intro p _
    simp [afterLogs]
  batch := by
    intro p picked _ hpicked hne
    obtain ⟨l, hl⟩ := List.exists_mem_of_ne_nil picked hne
    have hsome : p.1.logs.countP (fun l => (picked.map LogRow.id).contains l.id) ≠ 0 := by
      rw [Ne, List.countP_eq_zero]
      intro hnone
      have hmem := (hpicked.trans List.filter_sublist).subset hl
      exact hnone l hmem (List.contains_iff_mem.mpr (List.mem_map_of_mem hl))
    simp only [logBatch, afterLogs, if_neg hsome]
  keeps := fun p picked h _ => { h with logs := h.logs.sublist (List.filter_sublist.map _) }
  fewer := fun p picked _ hpicked hne => (oldLogs_split hpicked).length_second_lt hne
  whole := fun p picked _ hpicked => afterLogs_split (oldLogs_split hpicked)

/-- A batch of events, as the loop counts it. -/
theorem eventBatch_eq {picked : List EventRow} (hne : picked ≠ []) :
    eventBatch projectId p picked = some (afterEvents projectId p picked) := by
  have hsome : picked.isEmpty = false := by simpa using hne
  have hissues : ((deletePicked (subtractBatch p.1.db projectId picked) picked).issues.filter
      fun i => (batchEmptied p.1.db projectId picked).contains i.id).length =
        batchRemoves p.1.db projectId picked := by
    unfold batchRemoves deletePicked subtractBatch
    rw [← List.countP_eq_length_filter, List.countP_map]
    rfl
  have hevents : (p.1.db.events.filter fun e =>
      (picked.map EventRow.key).contains e.key).length = batchTakes p.1.db picked :=
    List.countP_eq_length_filter.symm
  unfold batchEmptied at hissues
  simp only [eventBatch, deleteEventBatch, hsome, Bool.false_eq_true, if_false, Option.map_some,
    hissues, hevents]
  rfl

theorem drains_events (projectId cutoff : Int) :
    Drains (fun p : Purging => expired p.1.db projectId cutoff) (eventBatch projectId)
      (afterEvents projectId) fun p => Keyed p.1 where
  stop := fun p => rfl
  nil := by
    intro p _
    simp [afterEvents, afterBatch_nil, batchTakes, batchRemoves, batchEmptied, emptied]
  batch := fun p picked _ _ hne => eventBatch_eq hne
  keeps := by
    intro p picked h _
    have hprojects : (afterBatch p.1.db projectId picked).projects.map Project.id =
        p.1.db.projects.map Project.id := map_key_modify fun _ => rfl
    exact
      { db := h.db.afterBatch
        projects := hprojects ▸ h.projects
        transactions := h.transactions
        logs := h.logs }
  fewer := fun p picked _ hpicked hne => (expired_split hpicked).length_second_lt hne
  whole := fun p picked h hpicked => afterEvents_split (expired_split hpicked) h.db

/-! ## All that one project loses -/

section

variable (cutoff : Int) (filter : CleanupFilter) (projectId : Int) (p : Purging)

def lessTransactions : Purging :=
  if filter.includeTransactions then afterTransactions p (oldTransactions projectId cutoff p.1)
  else p

def lessLogs : Purging :=
  if filter.includeLogs then afterLogs p (oldLogs projectId cutoff p.1) else p

def lessEvents : Purging :=
  if filter.includeEvents then afterEvents projectId p (expired p.1.db projectId cutoff) else p

/-- After the loops of a project. -/
def purged : Purging :=
  lessEvents cutoff filter projectId
    (lessLogs cutoff filter projectId (lessTransactions cutoff filter projectId p))

end

/-- As many rows as there may be batches. -/
def Storage.size (s : Storage) : Nat :=
  s.transactions.length + s.logs.length + s.db.events.length

theorem lessTransactions_keyed (h : Keyed p.1) :
    Keyed (lessTransactions cutoff filter projectId p).1 := by
  unfold lessTransactions
  split
  · exact (drains_transactions projectId cutoff).keeps p _ h (.refl _)
  · exact h

theorem lessLogs_keyed (h : Keyed p.1) : Keyed (lessLogs cutoff filter projectId p).1 := by
  unfold lessLogs
  split
  · exact (drains_logs projectId cutoff).keeps p _ h (.refl _)
  · exact h

theorem lessEvents_keyed (h : Keyed p.1) : Keyed (lessEvents cutoff filter projectId p).1 := by
  unfold lessEvents
  split
  · exact (drains_events projectId cutoff).keeps p _ h (.refl _)
  · exact h

theorem purged_keyed (h : Keyed p.1) : Keyed (purged cutoff filter projectId p).1 :=
  lessEvents_keyed (lessLogs_keyed (lessTransactions_keyed h))

theorem purged_transactions :
    (purged cutoff filter projectId p).1.transactions =
      if filter.includeTransactions then
        p.1.transactions.filter fun t =>
          !((oldTransactions projectId cutoff p.1).map TransactionRow.id).contains t.id
      else p.1.transactions := by
  unfold purged lessEvents lessLogs lessTransactions
  split_ifs <;> rfl

theorem purged_logs :
    (purged cutoff filter projectId p).1.logs =
      if filter.includeLogs then
        p.1.logs.filter fun l => !((oldLogs projectId cutoff p.1).map LogRow.id).contains l.id
      else p.1.logs := by
  unfold purged lessEvents lessLogs lessTransactions
  split_ifs <;> rfl

theorem purged_db :
    (purged cutoff filter projectId p).1.db =
      if filter.includeEvents then
        afterBatch p.1.db projectId (expired p.1.db projectId cutoff)
      else p.1.db := by
  unfold purged lessEvents lessLogs lessTransactions
  split_ifs <;> rfl

theorem oldTransactions_le_size : (oldTransactions projectId cutoff s).length ≤ s.size := by
  have hle : (oldTransactions projectId cutoff s).length ≤ s.transactions.length :=
    List.length_filter_le _ _
  unfold Storage.size
  omega

theorem oldLogs_le_size : (oldLogs projectId cutoff s).length ≤ s.size := by
  have hle : (oldLogs projectId cutoff s).length ≤ s.logs.length := List.length_filter_le _ _
  unfold Storage.size
  omega

theorem expired_le_size : (expired s.db projectId cutoff).length ≤ s.size := by
  have hle : (expired s.db projectId cutoff).length ≤ s.db.events.length :=
    List.length_filter_le _ _
  unfold Storage.size
  omega

theorem lessTransactions_size : (lessTransactions cutoff filter projectId p).1.size ≤ p.1.size := by
  unfold lessTransactions
  split_ifs
  · have hle : (afterTransactions p (oldTransactions projectId cutoff p.1)).1.transactions.length ≤
        p.1.transactions.length := List.length_filter_le _ _
    unfold Storage.size
    simp only [afterTransactions] at hle ⊢
    omega
  · exact Nat.le_refl _

theorem lessLogs_size : (lessLogs cutoff filter projectId p).1.size ≤ p.1.size := by
  unfold lessLogs
  split_ifs
  · have hle : (afterLogs p (oldLogs projectId cutoff p.1)).1.logs.length ≤ p.1.logs.length :=
      List.length_filter_le _ _
    unfold Storage.size
    simp only [afterLogs] at hle ⊢
    omega
  · exact Nat.le_refl _

theorem lessEvents_size : (lessEvents cutoff filter projectId p).1.size ≤ p.1.size := by
  unfold lessEvents
  split_ifs
  · have hle : (afterBatch p.1.db projectId (expired p.1.db projectId cutoff)).events.length ≤
        p.1.db.events.length := by
      rw [afterBatch_events]
      exact List.length_filter_le _ _
    unfold Storage.size
    simp only [afterEvents]
    omega
  · exact Nat.le_refl _

theorem purged_size : (purged cutoff filter projectId p).1.size ≤ p.1.size :=
  calc (purged cutoff filter projectId p).1.size
      ≤ (lessLogs cutoff filter projectId (lessTransactions cutoff filter projectId p)).1.size :=
        lessEvents_size
    _ ≤ (lessTransactions cutoff filter projectId p).1.size := lessLogs_size
    _ ≤ p.1.size := lessTransactions_size

section

variable {limit : Nat} (hlimit : 0 < limit) (pick : Pickers limit) {fuel : Nat}
  (h : Keyed p.1) (hfuel : p.1.size < fuel)
include hlimit h hfuel

theorem purgeTransactions_eq : purgeTransactions pick cutoff projectId filter fuel p =
    some (lessTransactions cutoff filter projectId p) := by
  unfold purgeTransactions lessTransactions
  split
  · exact (drains_transactions projectId cutoff).drain_eq hlimit pick.transactions h
      (Nat.lt_of_le_of_lt oldTransactions_le_size hfuel)
  · rfl

theorem purgeLogs_eq : purgeLogs pick cutoff projectId filter fuel p =
    some (lessLogs cutoff filter projectId p) := by
  unfold purgeLogs lessLogs
  split
  · exact (drains_logs projectId cutoff).drain_eq hlimit pick.logs h
      (Nat.lt_of_le_of_lt oldLogs_le_size hfuel)
  · rfl

theorem purgeEvents_eq : purgeEvents pick cutoff projectId filter fuel p =
    some (lessEvents cutoff filter projectId p) := by
  unfold purgeEvents lessEvents
  split
  · exact (drains_events projectId cutoff).drain_eq hlimit pick.events h
      (Nat.lt_of_le_of_lt expired_le_size hfuel)
  · rfl

/-- The loops of a project end, and leave what one batch of everything would. -/
theorem purge_cons (rest : List Int) :
    purge pick cutoff filter fuel (projectId :: rest) p =
      purge pick cutoff filter fuel rest (purged cutoff filter projectId p) := by
  have hlogs : (lessTransactions cutoff filter projectId p).1.size < fuel :=
    Nat.lt_of_le_of_lt lessTransactions_size hfuel
  have hevents : (lessLogs cutoff filter projectId
      (lessTransactions cutoff filter projectId p)).1.size < fuel :=
    Nat.lt_of_le_of_lt lessLogs_size hlogs
  rw [purge, purgeTransactions_eq hlimit pick h hfuel, Option.bind_eq_bind, Option.bind_some,
    purgeLogs_eq hlimit pick (lessTransactions_keyed h) hlogs, Option.bind_some, purgeEvents_eq hlimit pick (lessLogs_keyed (lessTransactions_keyed h)) hevents]
  rfl

end

end Rustrak.Retention
