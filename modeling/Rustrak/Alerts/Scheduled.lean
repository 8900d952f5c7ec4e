import Rustrak.Alerts.Deletions

/-!
# Every pending row is scheduled

Every statement that leaves a row pending writes the next attempt with it, no later than a lease
or an hour from then, and an attempt counter below the limit (`OwnedRow.Waiting`).
-/

namespace Rustrak.Alerts

open Rustrak.Transition

variable {b : Backend} {s s' : RetryState} {label : RetryLabel} {t t' : RetryTask} {p : Pick}
  {row row' : OwnedRow} {id i k : Nat}

/-! ## What a step does -/

/-- What a task has after it went on by one row. -/
inductive TaskMove (s : RetryState) (t : RetryTask) : RetryTask → Prop
  | rests {queue : List Pick} (hqueue : queue ⊆ t.queue) :
      TaskMove s t { t with queue := queue, turn := .idle }
  | finds {p : Pick} {queue : List Pick} (hqueue : t.queue = p :: queue)
      (hworker : t.worker = true) (hkeep : s.givesUp p = none) :
      TaskMove s t { t with queue := queue, turn := .found p }
  | sends {p : Pick} {queue : List Pick} (hqueue : queue ⊆ t.queue) (hready : p ∈ t.ready)
      (hloads : s.loads p = true) : TaskMove s t { t with queue := queue, turn := .sending p }

/-- What a task writes to a row. -/
inductive TaskWrite (s : RetryState) (t : RetryTask) : Nat → (OwnedRow → OwnedRow) → Prop
  | nothing : TaskWrite s t 0 fun row => row
  | givesUp (id : Nat) (clears : Bool) (message : String) :
      TaskWrite s t id (OwnedRow.giveUp clears message s.now)
  | records {p : Pick} (hturn : t.turn = .sending p) (result : SendResult)
      (message : Option String) : TaskWrite s t p.row (result.record p.toQueued message s.now)

/-- The labels by which one task goes on. -/
def RetryLabel.task : RetryLabel → Option Nat
  | .look i _ | .unreadable i _ _ | .send i _ | .finish i _ _ | .abort i => some i
  | _ => none

/-- A task goes on. -/
def TaskStep (s : RetryState) (i : Nat) (s' : RetryState) : Prop :=
  ∃ t t' id f, s.tasks[i]? = some t ∧ TaskMove s t t' ∧ TaskWrite s t id f ∧
    s' = (s.put i t').write id f

theorem TaskStep.put (ht : s.tasks[i]? = some t) (hmove : TaskMove s t t') :
    TaskStep s i (s.put i t') := by
  refine ⟨t, t', 0, fun row => row, ht, hmove, .nothing, ?_⟩
  have hsame : (s.put i t').rows.modify 0 (fun row => row) = (s.put i t').rows :=
    List.modify_id 0 _
  unfold RetryState.write
  rw [hsame]

theorem TaskStep.write {f : OwnedRow → OwnedRow} (ht : s.tasks[i]? = some t)
    (hmove : TaskMove s t t') (hwrite : TaskWrite s t id f) :
    TaskStep s i ((s.put i t').write id f) :=
  ⟨t, t', id, f, ht, hmove, hwrite, rfl⟩

theorem taskStep_of_look {recorded : Bool} (hstep : RetrySteps b s (.look i recorded) s') :
    TaskStep s i s' := by
  obtain ⟨t, ht, hlook⟩ := Option.bind_eq_some_iff.mp hstep
  obtain ⟨process, worker, queue, turn⟩ := t
  cases worker with
  | false => contradiction
  | true =>
      cases queue with
      | nil => contradiction
      | cons p queue =>
          cases turn with
          | found p => contradiction
          | sending p => contradiction
          | idle =>
              cases hgives : s.givesUp p with
              | none =>
                  simp only [hgives] at hlook
                  obtain rfl := Option.some.inj hlook
                  exact .put ht (.finds rfl rfl hgives)
              | some message =>
                  simp only [hgives] at hlook
                  split at hlook
                  · obtain rfl := Option.some.inj hlook
                    exact .write ht (.rests (List.subset_cons_self ..)) (.givesUp ..)
                  · obtain rfl := Option.some.inj hlook
                    exact .put ht (.rests (List.nil_subset _))

theorem taskStep_of_unreadable {error : String} {recorded : Bool}
    (hstep : RetrySteps b s (.unreadable i error recorded) s') : TaskStep s i s' := by
  obtain ⟨t, ht, hread⟩ := Option.bind_eq_some_iff.mp hstep
  split at hread
  · obtain rfl := Option.some.inj hread
    split
    · exact .write ht (.rests (List.Subset.refl _)) (.givesUp ..)
    · exact .put ht (.rests (List.Subset.refl _))
  · contradiction

theorem TaskMove.opens {queue : List Pick} {loaded : Bool} (hqueue : queue ⊆ t.queue)
    (hready : p ∈ t.ready) : TaskMove s t
      ⟨t.process, t.worker, queue, if loaded && s.loads p then .sending p else .idle⟩ := by
  by_cases hloads : (loaded && s.loads p) = true
  · rw [if_pos hloads]
    exact .sends hqueue hready (Bool.and_eq_true_iff.mp hloads).2
  · rw [if_neg hloads]
    exact .rests hqueue

theorem taskStep_of_send {loaded : Bool} (hstep : RetrySteps b s (.send i loaded) s') :
    TaskStep s i s' := by
  obtain ⟨t, ht, hsend⟩ := Option.bind_eq_some_iff.mp hstep
  obtain ⟨process, worker, queue, turn⟩ := t
  split at hsend
  · next heq =>
      obtain ⟨rfl, rfl, rfl, rfl⟩ := RetryTask.mk.inj heq
      obtain rfl := Option.some.inj hsend
      exact .put ht (TaskMove.opens (List.Subset.refl _) (List.mem_cons_self ..))
  · next heq =>
      obtain ⟨rfl, rfl, rfl, rfl⟩ := RetryTask.mk.inj heq
      obtain rfl := Option.some.inj hsend
      exact .put ht (TaskMove.opens (List.subset_cons_self ..) (List.mem_cons_self ..))
  · contradiction

theorem taskStep_of_finish {result : SendResult} {message : Option String}
    (hstep : RetrySteps b s (.finish i result message) s') : TaskStep s i s' := by
  obtain ⟨t, ht, hfinish⟩ := Option.bind_eq_some_iff.mp hstep
  split at hfinish
  · next p hturn =>
      obtain rfl := Option.some.inj hfinish
      exact .write ht (.rests (List.Subset.refl _)) (.records hturn result message)
  · contradiction

theorem taskStep_of_abort (hstep : RetrySteps b s (.abort i) s') : TaskStep s i s' := by
  obtain ⟨t, ht, habort⟩ := Option.bind_eq_some_iff.mp hstep
  obtain ⟨⟨_, hidle⟩, habort⟩ := Option.ite_none_right_eq_some.mp habort
  obtain rfl := Option.some.inj habort
  rw [show ({ t with queue := [] } : RetryTask) = { t with queue := [], turn := .idle } by
    rw [← hidle]]
  exact .put ht (.rests (List.nil_subset _))

theorem taskStep_of_task (hstep : RetrySteps b s label s') (htask : label.task = some i) :
    TaskStep s i s' := by
  cases label with
  | look j recorded =>
      obtain rfl := Option.some.inj htask
      exact taskStep_of_look hstep
  | unreadable j error recorded =>
      obtain rfl := Option.some.inj htask
      exact taskStep_of_unreadable hstep
  | send j loaded =>
      obtain rfl := Option.some.inj htask
      exact taskStep_of_send hstep
  | finish j result message =>
      obtain rfl := Option.some.inj htask
      exact taskStep_of_finish hstep
  | abort j =>
      obtain rfl := Option.some.inj htask
      exact taskStep_of_abort hstep
  | _ => contradiction

/-- What was in the place of a row that is written. -/
theorem getElem?_write {f : OwnedRow → OwnedRow}
    (h : (s.write k f).rows[id]? = some row') :
    ∃ row, s.rows[id]? = some row ∧ (row' = row ∨ k = id ∧ row' = f row) := by
  obtain ⟨row, hrow, rfl⟩ := Option.map_eq_some_iff.mp (List.getElem?_modify f k s.rows id ▸ h)
  refine ⟨row, hrow, ?_⟩
  split
  · next heq => exact .inr ⟨heq, rfl⟩
  · exact .inl rfl

/-! ## A pending row is scheduled -/

/-- A row that is pending has its next attempt before it. -/
def OwnedRow.Waiting (row : OwnedRow) : Prop :=
  row.status = .pending → row.attemptCount < maxAlertRetries ∧
    ∃ due, row.nextRetryAt = some due ∧ due ≤ row.writtenAt + max retryClaimLease (3600 * 10 ^ 6)

theorem retryDelay_le (attempts : Int) (id : Nat) : retryDelay attempts id ≤ 3600 :=
  Nat.min_le_right _ _

theorem OwnedRow.Waiting.congr (h : row.Waiting) (hfields : row'.toHistoryRow = row.toHistoryRow)
    (hwritten : row'.writtenAt = row.writtenAt) : row'.Waiting := by
  unfold OwnedRow.Waiting at *
  rwa [hfields, hwritten]

theorem OwnedRow.Waiting.lease (h : row.Waiting) (now : Nat) : (row.lease now).Waiting := by
  intro hpending
  refine ⟨(h hpending).1, now + retryClaimLease, rfl, ?_⟩
  exact Nat.add_le_add_left (Nat.le_max_left _ _) now

theorem OwnedRow.Waiting.record (h : row.Waiting) (result : SendResult) (q : Queued)
    (message : Option String) (now : Nat) : (result.record q message now row).Waiting := by
  cases result with
  | unrecorded => exact h
  | success =>
      intro hpending
      exact absurd (show AlertStatus.sent = .pending from hpending) (by decide)
  | failure =>
      intro hpending
      by_cases hspent : maxAlertRetries ≤ nextAttemptCount q.attempts
      · have hfailed : (SendResult.failure.record q message now row).status = .failed := by
          simp only [SendResult.record, SendResult.apply, if_pos hspent]
        rw [hfailed] at hpending
        contradiction
      · simp only [SendResult.record, SendResult.apply, if_neg hspent]
        refine ⟨Int.not_le.mp hspent, _, rfl, ?_⟩
        have hdelay := retryDelay_le (nextAttemptCount q.attempts) q.row
        have hmax := Nat.le_max_right retryClaimLease (3600 * 10 ^ 6)
        omega

theorem OwnedRow.Waiting.write {f : OwnedRow → OwnedRow} (h : row.Waiting)
    (hwrite : TaskWrite s t k f) : (f row).Waiting := by
  cases hwrite with
  | nothing => exact h
  | givesUp _ clears message =>
      intro hpending
      exact absurd (show AlertStatus.failed = .pending from hpending) (by decide)
  | records hturn result message => exact h.record result _ message s.now

def AllWaiting (s : RetryState) : Prop := ∀ row ∈ s.rows, row.Waiting

theorem AllWaiting.taskStep (h : AllWaiting s) (hstep : TaskStep s i s') : AllWaiting s' := by
  obtain ⟨t, t', k, f, _, _, hwrite, rfl⟩ := hstep
  intro row hrow
  obtain ⟨id, hid⟩ := List.mem_iff_getElem?.mp hrow
  obtain ⟨old, hold, rfl | ⟨_, rfl⟩⟩ := getElem?_write hid
  · exact h row (List.mem_of_getElem? hold)
  · exact (h old (List.mem_of_getElem? hold)).write hwrite

theorem AllWaiting.map {f : OwnedRow → OwnedRow} (h : AllWaiting s)
    (hrows : s'.rows = s.rows.map f) (hfields : ∀ row, (f row).toHistoryRow = row.toHistoryRow)
    (hwritten : ∀ row, (f row).writtenAt = row.writtenAt) : AllWaiting s' := by
  intro row hrow
  rw [hrows] at hrow
  obtain ⟨old, hold, rfl⟩ := List.mem_map.mp hrow
  exact (h old hold).congr (hfields old) (hwritten old)

/-- Rows are born skipped or leased. -/
theorem AllWaiting.fire {process rule : Nat} {integrations : List Nat} {suppressed : Bool}
    (h : AllWaiting s) (hstep : RetrySteps b s (.fire process rule integrations suppressed) s') :
    AllWaiting s' := by
  obtain ⟨_, hfire⟩ := Option.ite_none_right_eq_some.mp hstep
  intro row hrow
  cases suppressed with
  | true =>
      obtain rfl := Option.some.inj hfire
      rcases List.mem_append.mp hrow with hold | hnew
      · exact h row hold
      · obtain ⟨integration, _, rfl⟩ := List.mem_map.mp hnew
        exact fun hpending =>
          absurd (show AlertStatus.skipped = .pending from hpending) (by decide)
  | false =>
      obtain rfl := Option.some.inj hfire
      rcases List.mem_append.mp hrow with hold | hnew
      · exact h row hold
      · obtain ⟨integration, _, rfl⟩ := List.mem_map.mp hnew
        refine fun _ => ⟨show (0 : Int) < maxAlertRetries by decide, _, rfl, ?_⟩
        exact Nat.add_le_add_left (Nat.le_max_left _ _) s.now

theorem AllWaiting.claim {process : Nat} {batch : List Nat} (h : AllWaiting s)
    (hstep : RetrySteps b s (.claim process batch) s') : AllWaiting s' := by
  obtain ⟨_, hclaim⟩ := Option.ite_none_right_eq_some.mp hstep
  obtain rfl := Option.some.inj hclaim
  intro row hrow
  obtain ⟨k, hk, rfl⟩ := List.mem_mapIdx.mp hrow
  have hold := h _ (List.getElem_mem hk)
  split
  · exact hold.lease s.now
  · exact hold

theorem AllWaiting.step (h : AllWaiting s) (hstep : RetrySteps b s label s') : AllWaiting s' := by
  cases label with
  | wait micros | createRule | createIntegration | crash process =>
      obtain rfl := Option.some.inj hstep
      exact h
  | setChannels rule integrations =>
      obtain ⟨_, hset⟩ := Option.ite_none_right_eq_some.mp hstep
      obtain rfl := Option.some.inj hset
      exact h
  | deleteRule rule =>
      obtain rfl := Option.some.inj hstep
      exact h.map rfl (fun _ => rfl) fun _ => rfl
  | deleteIntegration integration =>
      obtain rfl := Option.some.inj hstep
      exact h.map rfl (fun _ => rfl) fun _ => rfl
  | fire process rule integrations suppressed => exact h.fire hstep
  | claim process batch => exact h.claim hstep
  | look j _ | unreadable j _ _ | send j _ | finish j _ _ | abort j =>
      exact h.taskStep (taskStep_of_task hstep rfl)

/-- What has run out on the clock of the database. -/
theorem due_of_le {due now : Nat} (h : due ≤ now) : b.due (some due) now = true :=
  decide_eq_true (Nat.div_le_div_right h)

theorem AllWaiting.scheduled (h : AllWaiting s) (hrow : s.rows[id]? = some row)
    (hpending : row.status = .pending) : s.Scheduled b id row := by
  obtain ⟨hattempts, due, hnext, hdue⟩ := h row (List.mem_of_getElem? hrow) hpending
  refine ⟨hattempts, due, hnext, hdue, fun now hnow => ?_⟩
  have hold : (s.rows.map OwnedRow.toHistoryRow)[id]? = some row.toHistoryRow := by
    rw [List.getElem?_map, hrow]
    rfl
  refine List.mem_filter.mpr ⟨List.mem_range.mpr (List.getElem?_eq_some_iff.mp hold).1, ?_⟩
  have hready := due_of_le (b := b) hnow
  simp [RetryState.delivery, hrow, hpending, hnext, hready, hattempts]

end Rustrak.Alerts
