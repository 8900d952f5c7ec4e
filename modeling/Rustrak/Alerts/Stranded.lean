import Rustrak.Alerts.Owners

/-!
# No delivery is stranded

A row that is gone is failed by the worker that looks at it, for what the worker has read of it is
gone too (`Linked`).  It stays failed unless another task still has it to send (`GivenUp`).
-/

namespace Rustrak.Alerts

open Rustrak.Transition

variable {b : Backend} {s s' : RetryState} {label : RetryLabel} {t t' : RetryTask} {p : Pick}
  {row row' : OwnedRow} {id i k : Nat}

variable {live : List Bool} {stored : Option Nat}

/-! ## A row that is gone and that no task may send -/

theorem SameOwners.gone (h : SameOwners s s') (id : Nat) : s'.gone id = s.gone id := by
  have hgone : ∀ u : RetryState, u.gone id = (u.rows[id]?.map fun row =>
      (row.ruleId, row.integrationId)).any fun ids => !(ids.1.bind fun rule =>
        ids.2.map fun integration => (rule, integration)).any (· ∈ u.channels) := by
    intro u
    unfold RetryState.gone
    rw [Option.any_map]
    rfl
  rw [hgone, hgone, h.rows, h.channels]

/-- An id that was read and is there is stored. -/
theorem Read.eq_of_live (h : Read live (some k) stored) (hlive : live[k]? = some true) :
    stored = some k := by
  rcases h with h | ⟨_, j, hj, hdead⟩
  · exact h.symm
  · obtain rfl := Option.some.inj hj
    rw [hlive] at hdead
    contradiction

/-- A worker finds no channel for a row that is gone. -/
theorem Linked.givesUp_ne_none (h : Linked s) (hgone : s.gone p.row = true)
    (hp : PickLinked s p) : s.givesUp p ≠ none := by
  intro hgives
  obtain ⟨row, hrow, hreadRule, hreadIntegration⟩ := hp
  obtain ⟨⟨id, attempts⟩, ruleId, integrationId⟩ := p
  cases integrationId with
  | none => contradiction
  | some integration =>
      cases ruleId with
      | none => contradiction
      | some rule =>
          by_cases hmem : (rule, integration) ∈ s.channels
          · obtain ⟨hrule, hintegration⟩ := h.channels _ hmem
            have hruleId := hreadRule.eq_of_live (beq_iff_eq.mp hrule)
            have hintegrationId := hreadIntegration.eq_of_live (beq_iff_eq.mp hintegration)
            unfold RetryState.gone at hgone
            rw [hrow] at hgone
            simp [OwnedRow.channel, hruleId, hintegrationId, hmem] at hgone
          · simp only [RetryState.givesUp, if_neg hmem] at hgives
            contradiction

theorem maySend_iff : t.maySend s id = true ↔ (∃ p, t.turn = .sending p ∧ p.row = id) ∨
    ∃ p ∈ t.ready, p.row = id ∧ s.loads p = true := by
  unfold RetryTask.maySend
  rw [Bool.or_eq_true, List.any_eq_true]
  apply or_congr
  · split
    · next p hturn => simp [hturn]
    · next hturn =>
        refine ⟨fun h => absurd h (by decide), ?_⟩
        rintro ⟨p, hp, _⟩
        exact absurd hp (hturn p)
  · simp only [Bool.and_eq_true, beq_iff_eq]

/-- Where fewer integrations load, a task may send no more. -/
theorem maySend_mono (hloads : ∀ p ∈ t.picks, s'.loads p = true → s.loads p = true)
    (h : t.maySend s' id = true) : t.maySend s id = true := by
  refine maySend_iff.mpr ((maySend_iff.mp h).imp_right ?_)
  rintro ⟨p, hp, hrow, hload⟩
  exact ⟨p, hp, hrow, hloads p (mem_picks_of_ready hp) hload⟩

theorem mem_ready_of_queue (hworker : t.worker = false) (h : p ∈ t.queue) : p ∈ t.ready := by
  refine List.mem_append_right _ ?_
  rwa [if_neg (by rw [hworker]; decide)]

/-- A task that went on may send what it might have sent, and a row whose channel it has found. -/
theorem TaskMove.maySend (h : TaskMove s t t') (hmay : t'.maySend s id = true) :
    t.maySend s id = true ∨ ∃ p ∈ t.picks, p.row = id ∧ s.givesUp p = none := by
  have hold : ∀ p ∈ t.ready, p.row = id → s.loads p = true → t.maySend s id = true :=
    fun p hready hrow hloads => maySend_iff.mpr (.inr ⟨p, hready, hrow, hloads⟩)
  have hrest : ∀ {queue : List Pick}, queue ⊆ t.queue →
      ∀ p ∈ (if t.worker then [] else queue), p ∈ t.ready := by
    intro queue hqueue p hp
    split at hp
    · contradiction
    · next hworker => exact mem_ready_of_queue (Bool.eq_false_iff.mpr hworker) (hqueue hp)
  cases h with
  | rests hqueue =>
      rcases maySend_iff.mp hmay with ⟨p, hturn, _⟩ | ⟨p, hp, hrow, hloads⟩
      · contradiction
      · exact .inl (hold p (hrest hqueue p hp) hrow hloads)
  | @finds p queue hqueue hworker hkeep =>
      rcases maySend_iff.mp hmay with ⟨p, hturn, _⟩ | ⟨q, hq, hrow, _⟩
      · contradiction
      · have hready : q ∈ [p] := by
          rcases List.mem_append.mp hq with hq | hq
          · exact hq
          · rw [if_pos hworker] at hq
            contradiction
        obtain rfl := List.mem_singleton.mp hready
        exact .inr ⟨q, mem_picks_of_queue (by rw [hqueue]; exact List.mem_cons_self ..), hrow, hkeep⟩
  | @sends p queue hqueue hready hloads =>
      rcases maySend_iff.mp hmay with ⟨q, hturn, hrow⟩ | ⟨q, hq, hrow, hload⟩
      · obtain rfl := Turn.sending.inj hturn
        exact .inl (hold _ hready hrow hloads)
      · exact .inl (hold q (hrest hqueue q hq) hrow hload)

/-- A row that is gone, and that no task may send. -/
structure GivenUp (s : RetryState) (id : Nat) : Prop where
  gone : s.gone id = true
  unsent : ∀ t ∈ s.tasks, t.maySend s id = false

theorem GivenUp.lt_length (h : GivenUp s id) : id < s.rows.length := by
  obtain ⟨row, hrow, _⟩ := (Option.any_eq_true _ _).mp h.gone
  exact (List.getElem?_eq_some_iff.mp hrow).1

/-- The tasks are the same, and no more integrations load. -/
theorem GivenUp.unsent_of_loads (h : GivenUp s id) (htasks : s'.tasks = s.tasks)
    (hloads : ∀ t ∈ s.tasks, ∀ p ∈ t.picks, s'.loads p = true → s.loads p = true) :
    ∀ t ∈ s'.tasks, t.maySend s' id = false := by
  intro t ht
  rw [htasks] at ht
  refine Bool.eq_false_iff.mpr fun hmay => ?_
  have hmay := maySend_mono (hloads t ht) hmay
  rw [h.unsent t ht] at hmay
  contradiction

theorem GivenUp.unsent_taskStep (h : GivenUp s id) (hlinked : Linked s) (hstep : TaskStep s i s') :
    ∀ t ∈ s'.tasks, t.maySend s' id = false := by
  obtain ⟨t, t', k, f, ht, hmove, _, rfl⟩ := hstep
  have ht := List.mem_of_getElem? ht
  intro u hu
  rcases List.mem_or_eq_of_mem_set hu with hu | rfl
  · exact h.unsent u hu
  · refine Bool.eq_false_iff.mpr fun hmay => ?_
    rcases hmove.maySend hmay with hold | ⟨p, hp, rfl, hkeep⟩
    · rw [h.unsent t ht] at hold
      contradiction
    · exact hlinked.givesUp_ne_none h.gone (hlinked.picks t ht p hp) hkeep

/-- The id of an integration that was read is one that was given out. -/
theorem Linked.lt_length (h : Linked s) (hp : PickLinked s p) (hk : p.integrationId = some k) :
    k < s.integrations.length := by
  obtain ⟨row, hrow, _, hread⟩ := hp
  rw [hk] at hread
  rcases hread with hread | ⟨_, j, hj, hdead⟩
  · have hlive := (h.rows row (List.mem_of_getElem? hrow)).integration k hread.symm
    exact (List.getElem?_eq_some_iff.mp (beq_iff_eq.mp hlive)).1
  · obtain rfl := Option.some.inj hj
    exact (List.getElem?_eq_some_iff.mp hdead).1

theorem GivenUp.unsent_step (h : GivenUp s id) (hlinked : Linked s)
    (hstep : RetrySteps b s label s') : ∀ t ∈ s'.tasks, t.maySend s' id = false := by
  cases label with
  | wait micros | createRule | deleteRule rule =>
      obtain rfl := Option.some.inj hstep
      exact h.unsent
  | createIntegration =>
      obtain rfl := Option.some.inj hstep
      refine h.unsent_of_loads rfl fun t ht p hp hload => ?_
      obtain ⟨k, hk, hlive⟩ := (Option.any_eq_true _ _).mp hload
      have hlt := hlinked.lt_length (hlinked.picks t ht p hp) hk
      refine (Option.any_eq_true _ _).mpr ⟨k, hk, ?_⟩
      unfold RetryState.hasIntegration at *
      rwa [List.getElem?_append_left hlt] at hlive
  | setChannels rule integrations =>
      obtain ⟨_, hset⟩ := Option.ite_none_right_eq_some.mp hstep
      obtain rfl := Option.some.inj hset
      exact h.unsent
  | deleteIntegration integration =>
      obtain rfl := Option.some.inj hstep
      refine h.unsent_of_loads rfl fun t ht p hp hload => ?_
      obtain ⟨k, hk, hlive⟩ := (Option.any_eq_true _ _).mp hload
      refine (Option.any_eq_true _ _).mpr ⟨k, hk, ?_⟩
      have hlive := beq_iff_eq.mp hlive
      by_cases hsame : integration = k
      · subst hsame
        rw [List.getElem?_set] at hlive
        split at hlive
        · split at hlive
          · contradiction
          · contradiction
        · contradiction
      · rw [List.getElem?_set_ne hsame] at hlive
        exact beq_iff_eq.mpr hlive
  | fire process rule integrations suppressed =>
      obtain ⟨_, hfire⟩ := Option.ite_none_right_eq_some.mp hstep
      cases suppressed with
      | true =>
          obtain rfl := Option.some.inj hfire
          exact h.unsent
      | false =>
          obtain rfl := Option.some.inj hfire
          intro t ht
          rcases List.mem_append.mp ht with ht | hnew
          · exact h.unsent t ht
          · obtain rfl := List.mem_singleton.mp hnew
            refine Bool.eq_false_iff.mpr fun hmay => ?_
            rcases maySend_iff.mp hmay with ⟨p, hturn, _⟩ | ⟨p, hp, hrow, _⟩
            · contradiction
            · -- the rows it has are new
              obtain ⟨j, hj, rfl⟩ := List.mem_mapIdx.mp hp
              have hlt := h.lt_length
              dsimp only at hrow
              omega
  | claim process batch =>
      obtain ⟨_, hclaim⟩ := Option.ite_none_right_eq_some.mp hstep
      obtain rfl := Option.some.inj hclaim
      intro t ht
      rcases List.mem_append.mp ht with ht | hnew
      · exact h.unsent t ht
      · obtain rfl := List.mem_singleton.mp hnew
        rfl
  | crash process =>
      obtain rfl := Option.some.inj hstep
      intro t ht
      obtain ⟨t, hold, rfl⟩ := List.mem_map.mp ht
      split
      · refine Bool.eq_false_iff.mpr fun hmay => ?_
        rcases maySend_iff.mp hmay with ⟨p, hturn, _⟩ | ⟨p, hp, _⟩
        · contradiction
        · have hnone := mem_picks_of_ready hp
          contradiction
      · exact h.unsent t hold
  | look j _ | unreadable j _ _ | send j _ | finish j _ _ | abort j =>
      exact h.unsent_taskStep hlinked (taskStep_of_task hstep rfl)

/-! ## A row that is given up is failed -/

theorem statusOf_map {f : OwnedRow → OwnedRow}
    (hstatus : ∀ row, s.rows[id]? = some row → (f row).status = row.status) :
    ((s.rows[id]?.map f).map fun row => row.status) = s.statusOf id := by
  unfold RetryState.statusOf
  cases hrow : s.rows[id]? with
  | none => rfl
  | some row => exact congrArg some (hstatus row hrow)

/-- A step leaves the row as it is, or fails it. -/
theorem GivenUp.statusOf_taskStep (h : GivenUp s id) (hstep : TaskStep s i s') :
    s'.statusOf id = s.statusOf id ∨ s'.statusOf id = some .failed := by
  obtain ⟨t, t', k, f, ht, _, hwrite, rfl⟩ := hstep
  obtain ⟨row, hrow, _⟩ := (Option.any_eq_true _ _).mp h.gone
  have hstatus : ((s.put i t').write k f).statusOf id =
      some (if k = id then f row else row).status := by
    show ((s.rows.modify k f)[id]?.map _) = _
    rw [List.getElem?_modify, hrow]
    rfl
  have hold : s.statusOf id = some row.status := by
    unfold RetryState.statusOf
    rw [hrow]
    rfl
  rw [hstatus, hold]
  by_cases hk : k = id
  · subst hk
    rw [if_pos rfl]
    cases hwrite with
    | nothing => exact .inl rfl
    | givesUp => exact .inr rfl
    | records hturn =>
        have hmay : t.maySend s _ = true := maySend_iff.mpr (.inl ⟨_, hturn, rfl⟩)
        rw [h.unsent t (List.mem_of_getElem? ht)] at hmay
        contradiction
  · rw [if_neg hk]
    exact .inl rfl

theorem GivenUp.statusOf_step (h : GivenUp s id) (hstep : RetrySteps b s label s') :
    s'.statusOf id = s.statusOf id ∨ s'.statusOf id = some .failed := by
  cases label with
  | wait micros | createRule | createIntegration | crash process =>
      obtain rfl := Option.some.inj hstep
      exact .inl rfl
  | setChannels rule integrations =>
      obtain ⟨_, hset⟩ := Option.ite_none_right_eq_some.mp hstep
      obtain rfl := Option.some.inj hset
      exact .inl rfl
  | deleteRule rule | deleteIntegration integration =>
      obtain rfl := Option.some.inj hstep
      refine .inl ?_
      show ((s.rows.map _)[id]?.map _) = _
      rw [List.getElem?_map]
      exact statusOf_map fun _ _ => rfl
  | fire process rule integrations suppressed =>
      obtain ⟨_, hfire⟩ := Option.ite_none_right_eq_some.mp hstep
      refine .inl ?_
      cases suppressed with
      | true =>
          obtain rfl := Option.some.inj hfire
          show ((s.rows ++ _)[id]?.map _) = _
          rw [List.getElem?_append_left h.lt_length]
          rfl
      | false =>
          obtain rfl := Option.some.inj hfire
          show ((s.rows ++ _)[id]?.map _) = _
          rw [List.getElem?_append_left h.lt_length]
          rfl
  | claim process batch =>
      obtain ⟨_, hclaim⟩ := Option.ite_none_right_eq_some.mp hstep
      obtain rfl := Option.some.inj hclaim
      refine .inl ?_
      show ((s.rows.mapIdx _)[id]?.map _) = _
      rw [List.getElem?_mapIdx]
      refine statusOf_map fun row _ => ?_
      split
      · rfl
      · rfl
  | look j _ | unreadable j _ _ | send j _ | finish j _ _ | abort j =>
      exact h.statusOf_taskStep (taskStep_of_task hstep rfl)

/-- What holds of a failed row holds of a row that was given up as long as it stays gone. -/
theorem GivenUp.run (good : Option AlertStatus → Prop) {labels : List RetryLabel}
    (h : GivenUp s id) (hlinked : Linked s) (hfailed : good (some .failed))
    (hgood : good (s.statusOf id)) (hrun : Run (StaysGone (AloneSteps b) id) s labels s') :
    good (s'.statusOf id) := by
  have hinv : Linked s' ∧ GivenUp s' id ∧ good (s'.statusOf id) := by
    refine hrun.invariant (fun u => Linked u ∧ GivenUp u id ∧ good (u.statusOf id)) ?_
      ⟨hlinked, h, hgood⟩
    rintro u label v ⟨hlinked, hgiven, hgood⟩ ⟨⟨hstep, _⟩, hgone⟩
    refine ⟨hlinked.step hstep, ⟨hgone, hgiven.unsent_step hlinked hstep⟩, ?_⟩
    rcases hgiven.statusOf_step hstep with hsame | hfail
    · rwa [hsame]
    · rwa [hfail]
  exact hinv.2.2

/-- A row that is claimed is pending. -/
theorem statusOf_of_claim {process : Nat} {batch : List Nat}
    (hstep : RetrySteps b s (.claim process batch) s') (hid : id ∈ batch) :
    s.statusOf id = some .pending := by
  obtain ⟨⟨⟨_, heligible, _⟩, _⟩, _⟩ := Option.ite_none_right_eq_some.mp hstep
  obtain ⟨_, hready⟩ := List.mem_filter.mp (heligible id hid)
  obtain ⟨fields, hrow, hready⟩ := (Option.any_eq_true _ _).mp hready
  have hread : (s.rows.map OwnedRow.toHistoryRow)[id]? = some fields := hrow
  rw [List.getElem?_map] at hread
  obtain ⟨row, hstored, rfl⟩ := Option.map_eq_some_iff.mp hread
  simp only [Bool.and_eq_true, beq_iff_eq] at hready
  unfold RetryState.statusOf
  rw [hstored]
  exact congrArg some hready.1.1

theorem Linked.claimed {process : Nat} {batch : List Nat} {labels : List RetryLabel}
    {u v : RetryState} (h : Linked u) (hstep : AloneSteps b u (.claim process batch) v)
    (hgone : u.gone id = true) (hid : id ∈ batch)
    (hrun : Run (StaysGone (AloneSteps b) id) v labels s) :
    s.statusOf id = some .pending ∨ s.statusOf id = some .failed := by
  obtain ⟨hstep, halone⟩ := hstep
  have hpending := statusOf_of_claim hstep hid
  have hlt := (List.getElem?_eq_some_iff.mp (Option.map_eq_some_iff.mp hpending).choose_spec.1).1
  have hgiven : GivenUp u id := ⟨hgone, halone id hlt hgone (decide_eq_true hid)⟩
  have hgiven' : GivenUp v id :=
    ⟨(sameOwners_claim hstep).gone id ▸ hgone, hgiven.unsent_step h hstep⟩
  refine hgiven'.run (fun status => status = some .pending ∨ status = some .failed)
    (h.step hstep) (.inr rfl) ?_ hrun
  exact (hgiven.statusOf_step hstep).imp_left (·.trans hpending)

/-- The worker fails a row that is gone. -/
theorem Linked.statusOf_of_look {u v : RetryState} (h : Linked u)
    (hstep : RetrySteps b u (.look i true) v) (hgone : u.gone id = true)
    (htakes : (RetryLabel.look i true).takes u id = true) : v.statusOf id = some .failed := by
  obtain ⟨t, ht, hhead⟩ := (Option.any_eq_true _ _).mp htakes
  obtain ⟨p, hp, hid⟩ := (Option.any_eq_true _ _).mp hhead
  obtain rfl := beq_iff_eq.mp hid
  obtain ⟨t', ht', hlook⟩ := Option.bind_eq_some_iff.mp hstep
  obtain rfl := Option.some.inj (ht.symm.trans ht')
  obtain ⟨process, worker, queue, turn⟩ := t
  cases worker with
  | false => contradiction
  | true =>
      cases queue with
      | nil => contradiction
      | cons q queue =>
          obtain rfl := Option.some.inj hp
          have hlinked := h.picks _ (List.mem_of_getElem? ht) q
            (mem_picks_of_queue (List.mem_cons_self ..))
          cases turn with
          | found p => contradiction
          | sending p => contradiction
          | idle =>
              cases hgives : u.givesUp q with
              | none => exact absurd hgives (h.givesUp_ne_none hgone hlinked)
              | some message =>
                  simp only [hgives, if_true] at hlook
                  obtain rfl := Option.some.inj hlook
                  obtain ⟨row, hrow, _⟩ := hlinked
                  show ((u.rows.modify q.row _)[q.row]?.map _) = _
                  rw [List.getElem?_modify, hrow]
                  simp [OwnedRow.giveUp, HistoryRow.giveUp]

theorem Linked.looked {labels : List RetryLabel} {u v : RetryState} (h : Linked u)
    (hstep : AloneSteps b u (.look i true) v) (hgone : u.gone id = true)
    (htakes : (RetryLabel.look i true).takes u id = true)
    (hrun : Run (StaysGone (AloneSteps b) id) v labels s) : s.statusOf id = some .failed := by
  obtain ⟨hstep, halone⟩ := hstep
  have hlt : id < u.rows.length := by
    obtain ⟨row, hrow, _⟩ := (Option.any_eq_true _ _).mp hgone
    exact (List.getElem?_eq_some_iff.mp hrow).1
  have hgiven : GivenUp u id := ⟨hgone, halone id hlt hgone htakes⟩
  have hgiven' : GivenUp v id :=
    ⟨(sameOwners_taskStep (taskStep_of_look hstep)).gone id ▸ hgone, hgiven.unsent_step h hstep⟩
  exact hgiven'.run (fun status => status = some .failed) (h.step hstep) rfl
    (h.statusOf_of_look hstep hgone htakes) hrun

/-- Nothing is stored yet. -/
def RetryState.empty (now : Nat) : RetryState := ⟨now, [], [], [], [], []⟩

theorem linked_empty (now : Nat) : Linked (.empty now) where
  channels _ hc := absurd hc List.not_mem_nil
  rows _ hrow := absurd hrow List.not_mem_nil
  picks _ ht := absurd ht List.not_mem_nil

/-- Whatever the steps are, a pending row is scheduled. -/
theorem pending_scheduled {now : Nat} {labels : List RetryLabel}
    (hrun : Run (RetrySteps b) (.empty now) labels s) (hrow : s.rows[id]? = some row)
    (hpending : row.status = .pending) : s.Scheduled b id row := by
  have hwaiting : AllWaiting s :=
    hrun.invariant AllWaiting (fun _ _ _ h hstep => h.step hstep)
      fun _ hmem => absurd hmem List.not_mem_nil
  exact hwaiting.scheduled hrow hpending

/-- No delivery is stranded where a worker takes a row that is gone only while no other task may
send it. -/
theorem none_stranded_of_alone (b : Backend) (now : Nat) :
    NoneStranded b (AloneSteps b) (.empty now) := by
  have hsteps : ∀ {labels s}, Run (AloneSteps b) (.empty now) labels s →
      Run (RetrySteps b) (.empty now) labels s := Run.mono fun _ _ _ h => h.1
  constructor
  · intro labels s hrun id row hrow hpending
    exact pending_scheduled (hsteps hrun) hrow hpending
  · intro before u label v after s id hbefore hstep hgone htakes hafter
    have hlinked : Linked u :=
      (hsteps hbefore).invariant Linked (fun _ _ _ h hstep => h.step hstep) (linked_empty now)
    cases label with
    | claim process batch =>
        exact hlinked.claimed hstep hgone (of_decide_eq_true htakes) hafter
    | look j recorded =>
        intro hrecorded
        subst hrecorded
        exact hlinked.looked hstep hgone htakes hafter
    | _ => trivial

/-- A firing that crashes, and a rule that is deleted before the worker of another process claims
the row. -/
def ruleDeleted : List RetryLabel :=
  [.createRule, .createIntegration, .setChannels 0 [0], .fire 0 0 [0] false, .send 0 true,
    .crash 0, .wait 120000000, .deleteRule 0, .claim 1 [0]]

theorem none_stranded_of_alone_ruleDeleted : ∃ u v s,
    Run (AloneSteps .postgres) (.empty 0) ruleDeleted u ∧
    Run (StaysGone (AloneSteps .postgres) 0) v [.wait 60000000] s ∧
    v.statusOf 0 = some .failed ∧ s.statusOf 0 = some .failed := by
  have hrun : (ruleDeleted.foldlM (fun s label =>
      if Alone s label then retryStep .postgres s label else none) (.empty 0)).any (fun u =>
        u.gone 0 && (RetryLabel.look 1 true).takes u 0 && decide (Alone u (.look 1 true)) &&
        (retryStep .postgres u (.look 1 true)).any fun v =>
          v.statusOf 0 == some .failed &&
          (retryStep .postgres v (.wait 60000000)).any fun s =>
            s.gone 0 && decide (Alone v (.wait 60000000))) = true := by
    decide +kernel
  obtain ⟨u, hbefore, hu⟩ := (Option.any_eq_true _ _).mp hrun
  simp only [Bool.and_eq_true, decide_eq_true_eq] at hu
  obtain ⟨⟨⟨hgone, htakes⟩, halone⟩, hu⟩ := hu
  obtain ⟨v, hstep, hv⟩ := (Option.any_eq_true _ _).mp hu
  obtain ⟨hfailed, hv⟩ := Bool.and_eq_true_iff.mp hv
  obtain ⟨s, hwait, hs⟩ := (Option.any_eq_true _ _).mp hv
  obtain ⟨hstays, hwaits⟩ := Bool.and_eq_true_iff.mp hs
  have hbefore := Run.of_foldlM_guard hbefore
  have hafter : Run (StaysGone (AloneSteps .postgres) 0) v [.wait 60000000] s :=
    .single ⟨⟨hwait, of_decide_eq_true hwaits⟩, hstays⟩
  exact ⟨u, v, s, hbefore, hafter, beq_iff_eq.mp hfailed,
    (none_stranded_of_alone .postgres 0).2 _ u (.look 1 true) v _ s 0 hbefore ⟨hstep, halone⟩
      hgone htakes hafter rfl⟩

/-! ## A lease that runs out -/

/-- Five channels of one rule, the first four of which take thirty seconds each.  Then the rule is
deleted, and the worker of another process claims the fifth row. -/
def fifthChannelOfDeleted : List RetryLabel :=
  [.createRule, .createIntegration, .createIntegration, .createIntegration, .createIntegration,
    .createIntegration, .setChannels 0 [0, 1, 2, 3, 4], .fire 0 0 [0, 1, 2, 3, 4] false,
    .send 0 true, .wait 30000000, .finish 0 .success none,
    .send 0 true, .wait 30000000, .finish 0 .success none,
    .send 0 true, .wait 30000000, .finish 0 .success none,
    .send 0 true, .wait 30000000, .finish 0 .success none,
    .deleteRule 0, .claim 1 [4]]

/-- The worker fails the fifth row, and the firing sends it. -/
theorem deleted_rule_is_sent : ¬NoneStranded .postgres (RetrySteps .postgres) (.empty 0) := by
  intro hnone
  have hrun : (fifthChannelOfDeleted.foldlM (retryStep .postgres) (.empty 0)).any (fun u =>
      u.gone 4 && (RetryLabel.look 1 true).takes u 4 &&
      (retryStep .postgres u (.look 1 true)).any fun v =>
        ([RetryLabel.send 0 true, .finish 0 .success none].foldlM (fun s label =>
          (retryStep .postgres s label).filter (·.gone 4)) v).any fun s =>
            s.statusOf 4 == some .sent) = true := by
    decide +kernel
  obtain ⟨u, hbefore, hu⟩ := (Option.any_eq_true _ _).mp hrun
  simp only [Bool.and_eq_true] at hu
  obtain ⟨⟨hgone, htakes⟩, hu⟩ := hu
  obtain ⟨v, hstep, hv⟩ := (Option.any_eq_true _ _).mp hu
  obtain ⟨s, hafter, hsent⟩ := (Option.any_eq_true _ _).mp hv
  have hafter : Run (StaysGone (RetrySteps .postgres) 4) v
      [.send 0 true, .finish 0 .success none] s := by
    refine Run.mono (fun s label s' h => ?_) (Run.of_foldlM hafter)
    exact Option.filter_eq_some_iff.mp h
  have hfailed := hnone.2 _ u (.look 1 true) v _ s 4 (Run.of_foldlM hbefore) hstep hgone htakes
    hafter rfl
  rw [beq_iff_eq.mp hsent] at hfailed
  contradiction

end Rustrak.Alerts
