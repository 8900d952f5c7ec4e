import Rustrak.Alerts.ShortBatches

/-!
# A delivery in one pair of hands

The lease is all that keeps two tasks from one row, for a result is written by id and neither
the status nor the lease is looked at then.  Where rows are worked on only while their lease
lasts (`Prompt`), the leases that are alive exclude each other and what they have is pending
(`InHand`), and everything else follows from that.
-/

namespace Rustrak.Alerts

open Rustrak.Claiming Rustrak.Transition

/-- The row waits for its delivery, and is not due before `t`. -/
def DeliveryState.Stands (s : DeliveryState) (id t : Nat) : Prop :=
  ∃ row, s.rows[id]? = some row ∧ row.status = .pending ∧ row.nextRetryAt = some t

/-- What prompt work keeps. -/
structure InHand (b : Backend) (s : DeliveryState) : Prop where
  exclusive : Exclusive (Alive b s.now) s.Stands (s.tasks.map DispatchTask.toLease)
  sending : ∀ t ∈ s.tasks, t.sending.isSome → Alive b s.now t.lease

variable {b : Backend} {s s' : DeliveryState} {id id' i : Nat} {t t' : DispatchTask} {q : Queued}

theorem alive_of_later {now now' lease : Nat} (hle : now ≤ now') (h : Alive b now' lease) :
    Alive b now lease := by
  unfold Alive Backend.due at *
  simp only [Option.all_some, decide_eq_false_iff_not] at *
  exact fun hdue => h (Nat.le_trans hdue (Nat.div_le_div_right hle))

theorem map_put (s : DeliveryState) (i : Nat) (t : DispatchTask) :
    (s.put i t).tasks.map DispatchTask.toLease =
      (s.tasks.map DispatchTask.toLease).set i ⟨t.rows, t.lease⟩ :=
  List.map_set

theorem leases_getElem? (h : s.tasks[i]? = some t) :
    (s.tasks.map DispatchTask.toLease)[i]? = some t.toLease := by
  rw [List.getElem?_map, h]
  rfl

/-- Another row is as it was. -/
theorem getElem?_record_ne {f : HistoryRow → HistoryRow} (hne : id ≠ id') :
    (s.record id f).rows[id']? = s.rows[id']? := by
  simp only [DeliveryState.record, List.getElem?_modify, if_neg hne]
  simp

theorem stands_record {f : HistoryRow → HistoryRow} {k : Nat} (hne : k ≠ id)
    (h : s.Stands k i) : (s.record id f).Stands k i := by
  unfold DeliveryState.Stands at *
  rwa [getElem?_record_ne (Ne.symm hne)]

/-- A task that gives up rows and changes nothing. -/
theorem InHand.put (h : InHand b s) (ht : s.tasks[i]? = some t) (hlease : t'.lease = t.lease)
    (hrows : t'.rows.Sublist t.rows) (hsending : t'.sending.isSome → Alive b s.now t.lease) :
    InHand b (s.put i t') where
  exclusive := by
    rw [map_put, hlease]
    exact h.exclusive.set (leases_getElem? ht) hrows
  sending := by
    intro u hu hsome
    rcases mem_put hu with hu | rfl
    · exact h.sending u hu hsome
    · rw [hlease]
      exact hsending hsome

/-- A task that is done with a row whose lease has not run out. -/
theorem InHand.done (h : InHand b s) (ht : s.tasks[i]? = some t) (halive : Alive b s.now t.lease)
    (t' : DispatchTask) (hlease : t'.lease = t.lease) (hrows : t.rows = id :: t'.rows)
    (hsending : t'.sending = none) (f : HistoryRow → HistoryRow) :
    InHand b ((s.put i t').record id f) where
  exclusive := by
    have hmap : ((s.put i t').record id f).tasks.map DispatchTask.toLease =
        (s.tasks.map DispatchTask.toLease).set i ⟨t'.rows, t.lease⟩ := by
      rw [← hlease]
      exact map_put s i t'
    rw [hmap]
    exact h.exclusive.done (leases_getElem? ht) halive hrows
      fun k t hne hstands => stands_record (s := s.put i t') hne hstands
  sending := by
    intro u hu hsome
    rcases mem_put hu with hu | rfl
    · exact h.sending u hu hsome
    · rw [hsending] at hsome
      contradiction

theorem InHand.wait {micros : Nat} (h : InHand b s)
    (hprompt : ∀ t ∈ s.tasks, t.sending.isSome → Alive b (s.now + micros) t.lease) :
    InHand b { s with now := s.now + micros } where
  exclusive := h.exclusive.later fun _ => alive_of_later (Nat.le_add_right _ _)
  sending := hprompt

theorem stands_append {rows : List HistoryRow} {k : Nat} (h : s.Stands id k) :
    DeliveryState.Stands { s with rows := s.rows ++ rows } id k := by
  obtain ⟨row, hrow, hrest⟩ := h
  exact ⟨row, by rw [List.getElem?_append_left (List.getElem?_eq_some_iff.mp hrow).1]; exact hrow,
    hrest⟩

/-- New rows are leased to the task that wrote them. -/
theorem InHand.fire (h : InHand b s) (process channels : Nat) :
    InHand b { s with
      rows := s.rows ++ List.replicate channels ⟨.pending, 0, some (s.now + retryClaimLease)⟩
      tasks := s.tasks ++ [⟨process, false, s.now + retryClaimLease,
        (List.range' s.rows.length channels).map fun id => ⟨id, 0⟩, none⟩] } where
  exclusive := by
    have hrows : ((List.range' s.rows.length channels).map fun id => (⟨id, 0⟩ : Queued)).map
        Queued.row = List.range' s.rows.length channels := by
      simp [Function.comp_def]
    rw [List.map_append, List.map_singleton]
    unfold DispatchTask.toLease DispatchTask.rows
    dsimp only
    rw [hrows]
    apply h.exclusive.take List.nodup_range'
    · rintro k hk t ⟨row, hrow, _⟩
      have hlt := (List.getElem?_eq_some_iff.mp hrow).1
      have hge := (List.mem_range'_1.mp hk).1
      omega
    · intro k hk
      obtain ⟨hge, hlt⟩ := List.mem_range'_1.mp hk
      refine ⟨⟨.pending, 0, some (s.now + retryClaimLease)⟩, ?_, rfl, rfl⟩
      show (s.rows ++ _)[k]? = _
      rw [List.getElem?_append_right hge, List.getElem?_replicate, if_pos (by omega)]
    · intro k t _ hstands
      exact stands_append hstands
  sending := by
    intro u hu hsome
    rcases List.mem_append.mp hu with hu | hu
    · exact h.sending u hu hsome
    · obtain rfl := List.mem_singleton.mp hu
      contradiction

theorem mem_eligible (h : id ∈ s.eligible b) : ∃ row, s.rows[id]? = some row ∧
    row.status = .pending ∧ b.due row.nextRetryAt s.now = true := by
  obtain ⟨_, hrow⟩ := List.mem_filter.mp h
  obtain ⟨row, hget, hrow⟩ := (Option.any_eq_true _ _).mp hrow
  simp only [Bool.and_eq_true, beq_iff_eq] at hrow
  exact ⟨row, hget, hrow.1.1, hrow.1.2⟩

theorem getElem?_leaseRows {rows : List HistoryRow} {batch : List Nat} {lease : Nat} :
    (leaseRows rows batch lease)[id]? = rows[id]?.map fun row =>
      if id ∈ batch then { row with nextRetryAt := some lease } else row := by
  rw [leaseRows, List.getElem?_mapIdx]

/-- What is claimed was due, so no lease that lasts has it. -/
theorem InHand.claim {batch : List Nat} (h : InHand b s) (hclaim : Claimable b s batch)
    (process : Nat) (queue : List Queued) (hqueue : queue.map Queued.row = batch) :
    InHand b { s with
      rows := leaseRows s.rows batch (s.now + retryClaimLease)
      tasks := s.tasks ++ [⟨process, true, s.now + retryClaimLease, queue, none⟩] } where
  exclusive := by
    obtain ⟨hnodup, heligible, _⟩ := hclaim
    rw [List.map_append, List.map_singleton]
    unfold DispatchTask.toLease DispatchTask.rows
    dsimp only
    rw [hqueue]
    apply h.exclusive.take hnodup
    · rintro k hk t ⟨row, hrow, _, hnext⟩ halive
      obtain ⟨row', hrow', _, hdue⟩ := mem_eligible (heligible k hk)
      obtain rfl := Option.some.inj (hrow.symm.trans hrow')
      rw [hnext, halive] at hdue
      contradiction
    · intro k hk
      obtain ⟨row, hrow, hpending, _⟩ := mem_eligible (heligible k hk)
      refine ⟨{ row with nextRetryAt := some (s.now + retryClaimLease) }, ?_, hpending, rfl⟩
      show (leaseRows s.rows batch _)[k]? = _
      rw [getElem?_leaseRows, hrow, Option.map_some, if_pos hk]
    · rintro k t hk ⟨row, hrow, hrest⟩
      refine ⟨row, ?_, hrest⟩
      show (leaseRows s.rows batch _)[k]? = _
      rw [getElem?_leaseRows, hrow, Option.map_some, if_neg hk]
  sending := by
    intro u hu hsome
    rcases List.mem_append.mp hu with hu | hu
    · exact h.sending u hu hsome
    · obtain rfl := List.mem_singleton.mp hu
      contradiction

theorem InHand.crash (h : InHand b s) (process : Nat) :
    InHand b { s with tasks := s.tasks.map fun t =>
      if t.process = process then { t with queue := [], sending := none } else t } where
  exclusive := by
    apply h.exclusive.shrink
    intro i l' hl'
    rw [List.getElem?_map, List.getElem?_map, Option.map_map] at hl'
    obtain ⟨t, ht, rfl⟩ := Option.map_eq_some_iff.mp hl'
    refine ⟨t.toLease, leases_getElem? ht, ?_⟩
    simp only [Function.comp]
    split_ifs
    · exact ⟨rfl, List.nil_sublist _⟩
    · exact ⟨rfl, List.Sublist.refl _⟩
  sending := by
    intro u hu hsome
    obtain ⟨t, ht, rfl⟩ := List.mem_map.mp hu
    split_ifs at hsome ⊢ with hprocess
    · contradiction
    · exact h.sending t ht hsome

/-- What the steps of the tasks do, once. -/
theorem InHand.step {label : DeliveryLabel} (h : InHand b s) (hstep : PromptSteps b s label s') :
    InHand b s' := by
  obtain ⟨hstep, hprompt⟩ := hstep
  cases label with
  | wait micros =>
      obtain ⟨_, hstep⟩ := Option.ite_none_right_eq_some.mp hstep
      obtain rfl := Option.some.inj hstep
      exact h.wait hprompt
  | fire process channels suppressed =>
      cases suppressed with
      | true =>
          obtain rfl := Option.some.inj hstep
          exact ⟨h.exclusive.mono fun _ _ => stands_append, h.sending⟩
      | false =>
          obtain rfl := Option.some.inj hstep
          exact h.fire process channels
  | claim process batch =>
      obtain ⟨⟨hclaim, _⟩, hstep⟩ := Option.ite_none_right_eq_some.mp hstep
      obtain rfl := Option.some.inj hstep
      refine h.claim hclaim process _ ?_
      rw [List.map_map]
      exact List.map_id' batch
  | send i =>
      obtain ⟨⟨t, q⟩, hnext, rfl⟩ := Option.map_eq_some_iff.mp hstep
      obtain ⟨hnone, ht⟩ := next_eq_some hnext
      refine h.put ht rfl ?_ fun _ => hprompt _ ht
      simp [DispatchTask.rows, hnone]
  | giveUp i clears =>
      obtain ⟨⟨t, q⟩, hnext, hstep⟩ := Option.bind_eq_some_iff.mp hstep
      obtain ⟨hnone, ht⟩ := next_eq_some hnext
      obtain ⟨_, hstep⟩ := Option.ite_none_right_eq_some.mp hstep
      obtain rfl := Option.some.inj hstep
      refine h.done ht (hprompt _ ht) t rfl ?_ hnone _
      simp [DispatchTask.rows, hnone]
  | skip i =>
      obtain ⟨⟨t, q⟩, hnext, rfl⟩ := Option.map_eq_some_iff.mp hstep
      obtain ⟨hnone, ht⟩ := next_eq_some hnext
      refine h.put ht rfl ?_ fun hsome => ?_
      · simp [DispatchTask.rows, hnone]
      · rw [hnone] at hsome
        contradiction
  | finish i result =>
      obtain ⟨t, ht, hstep⟩ := Option.bind_eq_some_iff.mp hstep
      obtain ⟨⟨q, since⟩, hsends, rfl⟩ := Option.map_eq_some_iff.mp hstep
      have halive := h.sending t (List.mem_of_getElem? ht) (by simp [hsends])
      refine h.done ht halive { t with sending := none } rfl ?_ rfl _
      simp [DispatchTask.rows, hsends]
  | abort i =>
      obtain ⟨t, ht, hstep⟩ := Option.bind_eq_some_iff.mp hstep
      obtain ⟨_, hstep⟩ := Option.ite_none_right_eq_some.mp hstep
      obtain rfl := Option.some.inj hstep
      refine h.put ht rfl ?_ fun hsome => ?_
      · exact List.Sublist.append_left (List.nil_sublist _) _
      · exact h.sending t (List.mem_of_getElem? ht) hsome
  | crash process =>
      obtain rfl := Option.some.inj hstep
      exact h.crash process

variable {status : AlertStatus}

theorem mem_rows_of_dispatches (h : t.dispatches = some id) : t.sending.isSome ∧ id ∈ t.rows := by
  obtain ⟨⟨q, since⟩, hsends, rfl⟩ := Option.map_eq_some_iff.mp h
  simp [DispatchTask.rows, hsends]

/-- A row that a task may still work on is pending. -/
theorem InHand.pending (h : InHand b s) (ht : t ∈ s.tasks) (halive : Alive b s.now t.lease)
    (hid : id ∈ t.rows) : s.statusOf id = some .pending := by
  obtain ⟨row, hrow, hpending, _⟩ :=
    h.exclusive.stands t.toLease (List.mem_map_of_mem ht) halive id hid
  rw [DeliveryState.statusOf, hrow, Option.map_some, hpending]

theorem InHand.oneHand (h : InHand b s) : s.OneHand := by
  intro i j id t t' ht ht' hid hid'
  obtain ⟨hsome, hmem⟩ := mem_rows_of_dispatches hid
  obtain ⟨hsome', hmem'⟩ := mem_rows_of_dispatches hid'
  by_contra hne
  have halive := h.sending t (List.mem_of_getElem? ht) hsome
  have halive' := h.sending t' (List.mem_of_getElem? ht') hsome'
  exact h.exclusive.disjoint i j _ _ hne (leases_getElem? ht) (leases_getElem? ht') halive halive'
    id hmem hmem'

/-- A row that is not pending is in no dispatch. -/
theorem InHand.not_dispatches (h : InHand b s) (hstatus : s.statusOf id = some status)
    (hsettled : status ≠ .pending) (ht : t ∈ s.tasks) : t.dispatches ≠ some id := by
  intro hid
  obtain ⟨hsome, hmem⟩ := mem_rows_of_dispatches hid
  have hpending := h.pending ht (h.sending t ht hsome) hmem
  exact hsettled (Option.some.inj (hstatus.symm.trans hpending))

theorem statusOf_append {rows : List HistoryRow} (h : s.statusOf id = some status) :
    DeliveryState.statusOf { s with rows := s.rows ++ rows } id = some status := by
  obtain ⟨row, hrow, rfl⟩ := Option.map_eq_some_iff.mp h
  have hlt := (List.getElem?_eq_some_iff.mp hrow).1
  show (s.rows ++ rows)[id]?.map HistoryRow.status = _
  rw [List.getElem?_append_left hlt, hrow, Option.map_some]

/-- What is written of a pending row leaves the others their status. -/
theorem statusOf_record {f : HistoryRow → HistoryRow} (hpending : s.statusOf id' = some .pending)
    (h : s.statusOf id = some status) (hsettled : status ≠ .pending) :
    (s.record id' f).statusOf id = some status := by
  have hne : id' ≠ id := by
    rintro rfl
    exact hsettled (Option.some.inj (h.symm.trans hpending))
  rwa [DeliveryState.statusOf, getElem?_record_ne hne]

/-- A row that is not pending any more keeps its status. -/
theorem InHand.statusOf_step {label : DeliveryLabel} (h : InHand b s)
    (hstep : PromptSteps b s label s') (hstatus : s.statusOf id = some status)
    (hsettled : status ≠ .pending) : s'.statusOf id = some status := by
  obtain ⟨hstep, hprompt⟩ := hstep
  cases label with
  | wait micros =>
      obtain ⟨_, hstep⟩ := Option.ite_none_right_eq_some.mp hstep
      obtain rfl := Option.some.inj hstep
      exact hstatus
  | fire process channels suppressed =>
      cases suppressed <;> obtain rfl := Option.some.inj hstep <;> exact statusOf_append hstatus
  | claim process batch =>
      obtain ⟨_, hstep⟩ := Option.ite_none_right_eq_some.mp hstep
      obtain rfl := Option.some.inj hstep
      obtain ⟨row, hrow, rfl⟩ := Option.map_eq_some_iff.mp hstatus
      show (leaseRows s.rows batch _)[id]?.map HistoryRow.status = _
      rw [getElem?_leaseRows, hrow, Option.map_some, Option.map_some]
      split_ifs <;> rfl
  | send i =>
      obtain ⟨⟨t, q⟩, _, rfl⟩ := Option.map_eq_some_iff.mp hstep
      exact hstatus
  | giveUp i clears =>
      obtain ⟨⟨t, q⟩, hnext, hstep⟩ := Option.bind_eq_some_iff.mp hstep
      obtain ⟨hnone, ht⟩ := next_eq_some hnext
      obtain ⟨_, hstep⟩ := Option.ite_none_right_eq_some.mp hstep
      obtain rfl := Option.some.inj hstep
      have hpending := h.pending (List.mem_of_getElem? ht) (hprompt _ ht)
        (show q.row ∈ DispatchTask.rows { t with queue := q :: t.queue } by simp [DispatchTask.rows])
      exact statusOf_record (s := s.put i t) hpending hstatus hsettled
  | skip i =>
      obtain ⟨⟨t, q⟩, _, rfl⟩ := Option.map_eq_some_iff.mp hstep
      exact hstatus
  | finish i result =>
      obtain ⟨t, ht, hstep⟩ := Option.bind_eq_some_iff.mp hstep
      obtain ⟨⟨q, since⟩, hsends, rfl⟩ := Option.map_eq_some_iff.mp hstep
      have hmem := List.mem_of_getElem? ht
      have hpending := h.pending hmem (h.sending t hmem (by simp [hsends]))
        (show q.row ∈ t.rows by simp [DispatchTask.rows, hsends])
      exact statusOf_record (s := s.put i _) hpending hstatus hsettled
  | abort i =>
      obtain ⟨t, _, hstep⟩ := Option.bind_eq_some_iff.mp hstep
      obtain ⟨_, hstep⟩ := Option.ite_none_right_eq_some.mp hstep
      obtain rfl := Option.some.inj hstep
      exact hstatus
  | crash process =>
      obtain rfl := Option.some.inj hstep
      exact hstatus

theorem InHand.nil (h : s.tasks = []) : InHand b s where
  exclusive := by
    rw [h]
    exact Exclusive.nil
  sending := by simp [h]

/-- Where rows are worked on while their lease lasts, a delivery is in one pair of hands. -/
theorem in_one_pair_of_hands {start mid final : DeliveryState} {before after : List DeliveryLabel}
    (hstart : start.tasks = []) (hbefore : Run (PromptSteps b) start before mid)
    (hafter : Run (PromptSteps b) mid after final) :
    final.OneHand ∧ ∀ id status, mid.statusOf id = some status → status ≠ .pending →
      final.statusOf id = some status ∧ ∀ t ∈ final.tasks, t.dispatches ≠ some id := by
  have hmid := hbefore.invariant (InHand b) (fun _ _ _ h hstep => h.step hstep) (.nil hstart)
  have hfinal := hafter.invariant (InHand b) (fun _ _ _ h hstep => h.step hstep) hmid
  refine ⟨hfinal.oneHand, fun id status hstatus hsettled => ?_⟩
  obtain ⟨_, hkept⟩ := hafter.invariant (fun s => InHand b s ∧ s.statusOf id = some status)
    (fun _ _ _ h hstep => ⟨h.1.step hstep, h.1.statusOf_step hstep h.2 hsettled⟩) ⟨hmid, hstatus⟩
  exact ⟨hkept, fun _ ht => hfinal.not_dispatches hkept hsettled ht⟩

/-- A crash in the middle of the second send, and another process takes the row over when the
lease has run out. -/
theorem in_one_pair_of_hands_crash : ∃ mid final,
    steps .sqlite ⟨0, [], []⟩ [.fire 0 2 false, .send 0, .wait 10000000, .finish 0 .success,
      .send 0] = some mid ∧
    steps .sqlite mid [.wait 5000000, .crash 0, .wait 120000000, .claim 1 [1], .send 1] =
      some final ∧
    mid.statusOf 0 = some .sent ∧ final.OneHand ∧ final.statusOf 0 = some .sent ∧
    ∀ t ∈ final.tasks, t.dispatches ≠ some 0 := by
  let before : List DeliveryLabel :=
    [.fire 0 2 false, .send 0, .wait 10000000, .finish 0 .success, .send 0]
  let after : List DeliveryLabel :=
    [.wait 5000000, .crash 0, .wait 120000000, .claim 1 [1], .send 1]
  have hruns : (steps .sqlite ⟨0, [], []⟩ before).any (fun mid =>
      mid.statusOf 0 == some .sent && (steps .sqlite mid after).isSome) = true := by
    decide +kernel
  obtain ⟨mid, hbefore, hmid⟩ := (Option.any_eq_true _ _).mp hruns
  obtain ⟨hsent, hafter⟩ := Bool.and_eq_true_iff.mp hmid
  obtain ⟨final, hafter⟩ := Option.isSome_iff_exists.mp hafter
  obtain ⟨hfits, hfirst⟩ := (DeliveryState.Fits.nil rfl).run (Run.of_foldlM hbefore)
    (by simp [before, DeliveryLabel.Short])
  obtain ⟨_, hsecond⟩ := hfits.run (Run.of_foldlM hafter) (by simp [after, DeliveryLabel.Short])
  have hsent := beq_iff_eq.mp hsent
  obtain ⟨hone, hkept⟩ := in_one_pair_of_hands rfl hfirst hsecond
  exact ⟨mid, final, hbefore, hafter, hsent, hone, hkept 0 .sent hsent (by decide)⟩

/-! ## A lease that does not outlast the work -/

theorem not_oneHand (h : s.tasks.map DispatchTask.dispatches = [some id, some id]) : ¬s.OneHand := by
  intro hone
  have htask : ∀ i : Nat, [some id, some id][i]? = some (some id) →
      ∃ t : DispatchTask, s.tasks[i]? = some t ∧ t.dispatches = some id := by
    intro i hi
    rw [← h, List.getElem?_map] at hi
    exact Option.map_eq_some_iff.mp hi
  obtain ⟨t, ht, hid⟩ := htask 0 rfl
  obtain ⟨t', ht', hid'⟩ := htask 1 rfl
  exact absurd (hone 0 1 id t t' ht ht' hid hid') (by decide)

/-- Five channels of one rule, the first four of which take thirty seconds each: the lease of
the fifth row runs out when its turn comes, and the worker of another process claims it. -/
def fifthChannel : List DeliveryLabel :=
  [.fire 0 5 false,
    .send 0, .wait 30000000, .finish 0 .success, .send 0, .wait 30000000, .finish 0 .success,
    .send 0, .wait 30000000, .finish 0 .success, .send 0, .wait 30000000, .finish 0 .success,
    .send 0, .claim 1 [4], .send 1]

/-- The fifth row is in two dispatches, and when the worker has recorded its success the
failure of the other makes it pending again. -/
theorem fifth_channel_in_two_hands :
    (∃ s, Run (Steps .postgres) ⟨0, [], []⟩ fifthChannel s ∧ ¬s.OneHand) ∧
    ∃ s s', Run (Steps .postgres) ⟨0, [], []⟩ (fifthChannel ++ [.finish 1 .success]) s ∧
      s.statusOf 4 = some .sent ∧ Run (Steps .postgres) s [.finish 0 .failure] s' ∧
      s'.statusOf 4 = some .pending := by
  constructor
  · have htwice : (steps .postgres ⟨0, [], []⟩ fifthChannel).any (fun s =>
        s.tasks.map DispatchTask.dispatches == [some 4, some 4]) = true := by
      decide +kernel
    obtain ⟨s, hsteps, htwice⟩ := (Option.any_eq_true _ _).mp htwice
    exact ⟨s, Run.of_foldlM hsteps, not_oneHand (beq_iff_eq.mp htwice)⟩
  · have hover : (steps .postgres ⟨0, [], []⟩ (fifthChannel ++ [.finish 1 .success])).any (fun s =>
        s.statusOf 4 == some .sent && (steps .postgres s [.finish 0 .failure]).any (fun s' =>
          s'.statusOf 4 == some .pending)) = true := by
      decide +kernel
    obtain ⟨s, hsteps, hs⟩ := (Option.any_eq_true _ _).mp hover
    obtain ⟨hsent, hlate⟩ := Bool.and_eq_true_iff.mp hs
    obtain ⟨s', hlate, hpending⟩ := (Option.any_eq_true _ _).mp hlate
    exact ⟨s, s', Run.of_foldlM hsteps, beq_iff_eq.mp hsent, Run.of_foldlM hlate,
      beq_iff_eq.mp hpending⟩

end Rustrak.Alerts
