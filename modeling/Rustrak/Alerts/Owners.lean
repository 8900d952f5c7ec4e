import Rustrak.Alerts.Scheduled

/-!
# Whose a row is

What a task has read of a row is stored, or it is the id of what was deleted since (`Read`).
-/

namespace Rustrak.Alerts

variable {b : Backend} {s s' : RetryState} {label : RetryLabel} {t t' : RetryTask} {p : Pick}
  {row row' : OwnedRow} {id i k : Nat}

/-! ## What a task has read of a row -/

/-- What was read of an id that is not there any more is the id of a deleted row. -/
def Read (live : List Bool) (read stored : Option Nat) : Prop :=
  read = stored ∨ stored = none ∧ ∃ k, read = some k ∧ live[k]? = some false

def RetryTask.picks (t : RetryTask) : List Pick :=
  (match t.turn with
    | .found p | .sending p => [p]
    | .idle => []) ++ t.queue

/-- The ids of a row are of a rule and an integration that are there. -/
structure RowLinked (s : RetryState) (row : OwnedRow) : Prop where
  rule : ∀ rule, row.ruleId = some rule → s.hasRule rule = true
  integration : ∀ integration, row.integrationId = some integration →
    s.hasIntegration integration = true

def PickLinked (s : RetryState) (p : Pick) : Prop :=
  ∃ row, s.rows[p.row]? = some row ∧ Read s.rules p.ruleId row.ruleId ∧
    Read s.integrations p.integrationId row.integrationId

/-- The foreign keys, and what the tasks have read. -/
structure Linked (s : RetryState) : Prop where
  channels : ∀ c ∈ s.channels, s.hasRule c.1 = true ∧ s.hasIntegration c.2 = true
  rows : ∀ row ∈ s.rows, RowLinked s row
  picks : ∀ t ∈ s.tasks, ∀ p ∈ t.picks, PickLinked s p

variable {live : List Bool} {read stored : Option Nat}

theorem Read.append (h : Read live read stored) : Read (live ++ [true]) read stored := by
  rcases h with h | ⟨hnone, k, hread, hdead⟩
  · exact .inl h
  · refine .inr ⟨hnone, k, hread, ?_⟩
    rwa [List.getElem?_append_left (List.getElem?_eq_some_iff.mp hdead).1]

theorem dead_set (j : Nat) (h : live[k]? = some false) : (live.set j false)[k]? = some false := by
  rw [List.getElem?_set]
  split
  · next heq =>
      subst heq
      rw [if_pos (List.getElem?_eq_some_iff.mp h).1]
  · exact h

/-- The id that is deleted is cleared. -/
theorem Read.delete (j : Nat) (h : Read live read stored)
    (hlive : ∀ k, stored = some k → live[k]? = some true) :
    Read (live.set j false) read (clearId j stored) := by
  rcases h with rfl | ⟨rfl, k, hread, hdead⟩
  · unfold clearId
    split
    · next heq =>
        refine .inr ⟨rfl, j, heq, ?_⟩
        exact List.getElem?_set_self (List.getElem?_eq_some_iff.mp (hlive j heq)).1
    · exact .inl rfl
  · exact .inr ⟨rfl, k, hread, dead_set j hdead⟩

theorem live_append (h : live[k]? = some true) : (live ++ [true])[k]? = some true := by
  rwa [List.getElem?_append_left (List.getElem?_eq_some_iff.mp h).1]

theorem live_set {j : Nat} (hne : k ≠ j) (h : live[k]? = some true) :
    (live.set j false)[k]? = some true := by
  rwa [List.getElem?_set_ne hne.symm]

theorem clearId_eq_some (h : clearId k stored = some i) : stored = some i ∧ i ≠ k := by
  unfold clearId at h
  split at h
  · contradiction
  · next hne => exact ⟨h, fun heq => hne (heq ▸ h)⟩

theorem mem_picks_of_queue (h : p ∈ t.queue) : p ∈ t.picks := List.mem_append_right _ h

theorem mem_picks_of_ready (h : p ∈ t.ready) : p ∈ t.picks := by
  rcases List.mem_append.mp h with hfound | hqueue
  · refine List.mem_append_left _ ?_
    split at hfound
    · next hturn => rwa [hturn]
    · contradiction
  · split at hqueue
    · contradiction
    · exact mem_picks_of_queue hqueue

/-- A task that went on has nothing it did not have. -/
theorem TaskMove.picks_subset (h : TaskMove s t t') : t'.picks ⊆ t.picks := by
  intro p hp
  cases h with
  | rests hqueue => exact mem_picks_of_queue (hqueue hp)
  | finds hqueue _ _ =>
      refine mem_picks_of_queue ?_
      rw [hqueue]
      exact hp
  | sends hqueue hready _ =>
      rcases List.mem_cons.mp hp with rfl | hp
      · exact mem_picks_of_ready hready
      · exact mem_picks_of_queue (hqueue hp)

theorem TaskWrite.ids {f : OwnedRow → OwnedRow} (h : TaskWrite s t k f) (row : OwnedRow) :
    (f row).ruleId = row.ruleId ∧ (f row).integrationId = row.integrationId := by
  cases h with
  | nothing => exact ⟨rfl, rfl⟩
  | givesUp => exact ⟨rfl, rfl⟩
  | records _ result _ =>
      cases result with
      | success => exact ⟨rfl, rfl⟩
      | failure => exact ⟨rfl, rfl⟩
      | unrecorded => exact ⟨rfl, rfl⟩

/-- A step that changes neither rules nor integrations nor whose a row is. -/
structure SameOwners (s s' : RetryState) : Prop where
  rules : s'.rules = s.rules
  integrations : s'.integrations = s.integrations
  channels : s'.channels = s.channels
  rows : ∀ id : Nat, (s'.rows[id]?.map fun row => (row.ruleId, row.integrationId)) =
    s.rows[id]?.map fun row => (row.ruleId, row.integrationId)

theorem sameOwners_taskStep (hstep : TaskStep s i s') : SameOwners s s' := by
  obtain ⟨t, t', k, f, _, _, hwrite, rfl⟩ := hstep
  refine ⟨rfl, rfl, rfl, fun id => ?_⟩
  show (((s.rows.modify k f)[id]?).map _) = _
  rw [List.getElem?_modify]
  cases s.rows[id]? with
  | none => rfl
  | some row =>
      obtain ⟨hrule, hintegration⟩ := hwrite.ids row
      by_cases hk : k = id
      · simp only [Option.map_eq_map, Option.map_some, if_pos hk, hrule, hintegration]
      · simp only [Option.map_eq_map, Option.map_some, if_neg hk]

theorem sameOwners_claim {process : Nat} {batch : List Nat}
    (hstep : RetrySteps b s (.claim process batch) s') : SameOwners s s' := by
  obtain ⟨_, hclaim⟩ := Option.ite_none_right_eq_some.mp hstep
  obtain rfl := Option.some.inj hclaim
  refine ⟨rfl, rfl, rfl, fun id => ?_⟩
  show ((s.rows.mapIdx _)[id]?.map _) = _
  rw [List.getElem?_mapIdx, Option.map_map]
  cases s.rows[id]? with
  | none => rfl
  | some row =>
      by_cases hid : id ∈ batch
      · simp only [Function.comp_apply, Option.map_some, if_pos hid, OwnedRow.lease]
      · simp only [Function.comp_apply, Option.map_some, if_neg hid]

theorem SameOwners.exists_row (h : SameOwners s s') (hrow : s.rows[id]? = some row) :
    ∃ row', s'.rows[id]? = some row' ∧ row'.ruleId = row.ruleId ∧
      row'.integrationId = row.integrationId := by
  have hids := h.rows id
  rw [hrow] at hids
  obtain ⟨row', hrow', hpair⟩ := Option.map_eq_some_iff.mp hids
  exact ⟨row', hrow', congrArg Prod.fst hpair, congrArg Prod.snd hpair⟩

theorem SameOwners.exists_old (h : SameOwners s s') (hrow : s'.rows[id]? = some row') :
    ∃ row, s.rows[id]? = some row ∧ row'.ruleId = row.ruleId ∧
      row'.integrationId = row.integrationId := by
  have hids := (h.rows id).symm
  rw [hrow] at hids
  obtain ⟨row, hold, hpair⟩ := Option.map_eq_some_iff.mp hids
  exact ⟨row, hold, (congrArg Prod.fst hpair).symm, (congrArg Prod.snd hpair).symm⟩

theorem Linked.sameOwners (h : Linked s) (hsame : SameOwners s s')
    (hpicks : ∀ t ∈ s'.tasks, ∀ p ∈ t.picks, PickLinked s p) : Linked s' where
  channels := by
    intro c hc
    rw [hsame.channels] at hc
    unfold RetryState.hasRule RetryState.hasIntegration
    rw [hsame.rules, hsame.integrations]
    exact h.channels c hc
  rows := by
    intro row' hrow'
    obtain ⟨id, hid⟩ := List.mem_iff_getElem?.mp hrow'
    obtain ⟨row, hrow, hrule, hintegration⟩ := hsame.exists_old hid
    obtain ⟨hrules, hintegrations⟩ := h.rows row (List.mem_of_getElem? hrow)
    constructor
    · intro rule heq
      unfold RetryState.hasRule
      rw [hsame.rules]
      exact hrules rule (hrule ▸ heq)
    · intro integration heq
      unfold RetryState.hasIntegration
      rw [hsame.integrations]
      exact hintegrations integration (hintegration ▸ heq)
  picks := by
    intro t ht p hp
    obtain ⟨row, hrow, hreadRule, hreadIntegration⟩ := hpicks t ht p hp
    obtain ⟨row', hrow', hrule, hintegration⟩ := hsame.exists_row hrow
    refine ⟨row', hrow', ?_, ?_⟩
    · rwa [hsame.rules, hrule]
    · rwa [hsame.integrations, hintegration]

theorem Linked.taskStep (h : Linked s) (hstep : TaskStep s i s') : Linked s' := by
  refine h.sameOwners (sameOwners_taskStep hstep) ?_
  obtain ⟨t, t', k, f, ht, hmove, _, rfl⟩ := hstep
  intro u hu p hp
  rcases List.mem_or_eq_of_mem_set hu with hu | rfl
  · exact h.picks u hu p hp
  · exact h.picks t (List.mem_of_getElem? ht) p (hmove.picks_subset hp)

/-- A claim reads of a row what is stored. -/
theorem pickLinked_of_pick (h : s.pick id = some p) : PickLinked s p := by
  obtain ⟨row, hrow, rfl⟩ := Option.map_eq_some_iff.mp h
  exact ⟨row, hrow, .inl rfl, .inl rfl⟩

theorem Linked.claim {process : Nat} {batch : List Nat} (h : Linked s)
    (hstep : RetrySteps b s (.claim process batch) s') : Linked s' := by
  refine h.sameOwners (sameOwners_claim hstep) ?_
  obtain ⟨_, hclaim⟩ := Option.ite_none_right_eq_some.mp hstep
  obtain rfl := Option.some.inj hclaim
  intro t ht p hp
  rcases List.mem_append.mp ht with ht | hnew
  · exact h.picks t ht p hp
  · obtain rfl := List.mem_singleton.mp hnew
    obtain ⟨id, _, hpick⟩ := List.mem_filterMap.mp hp
    exact pickLinked_of_pick hpick

theorem Linked.crash {process : Nat} (h : Linked s)
    (hstep : RetrySteps b s (.crash process) s') : Linked s' := by
  obtain rfl := Option.some.inj hstep
  refine h.sameOwners ⟨rfl, rfl, rfl, fun _ => rfl⟩ ?_
  intro t ht p hp
  obtain ⟨t, hold, rfl⟩ := List.mem_map.mp ht
  split at hp
  · contradiction
  · exact h.picks t hold p hp

/-- A rule is made. -/
theorem Linked.createRule (h : Linked s) : Linked { s with rules := s.rules ++ [true] } where
  channels c hc := by
    obtain ⟨hrule, hintegration⟩ := h.channels c hc
    exact ⟨beq_iff_eq.mpr (live_append (beq_iff_eq.mp hrule)), hintegration⟩
  rows row hrow := by
    obtain ⟨hrules, hintegrations⟩ := h.rows row hrow
    exact ⟨fun rule heq => beq_iff_eq.mpr (live_append (beq_iff_eq.mp (hrules rule heq))),
      hintegrations⟩
  picks t ht p hp := by
    obtain ⟨row, hrow, hrule, hintegration⟩ := h.picks t ht p hp
    exact ⟨row, hrow, hrule.append, hintegration⟩

theorem Linked.createIntegration (h : Linked s) :
    Linked { s with integrations := s.integrations ++ [true] } where
  channels c hc := by
    obtain ⟨hrule, hintegration⟩ := h.channels c hc
    exact ⟨hrule, beq_iff_eq.mpr (live_append (beq_iff_eq.mp hintegration))⟩
  rows row hrow := by
    obtain ⟨hrules, hintegrations⟩ := h.rows row hrow
    exact ⟨hrules, fun integration heq =>
      beq_iff_eq.mpr (live_append (beq_iff_eq.mp (hintegrations integration heq)))⟩
  picks t ht p hp := by
    obtain ⟨row, hrow, hrule, hintegration⟩ := h.picks t ht p hp
    exact ⟨row, hrow, hrule, hintegration.append⟩

theorem Linked.setChannels {rule : Nat} {integrations : List Nat} (h : Linked s)
    (hstep : RetrySteps b s (.setChannels rule integrations) s') : Linked s' := by
  obtain ⟨⟨hrule, hintegrations⟩, hset⟩ := Option.ite_none_right_eq_some.mp hstep
  obtain rfl := Option.some.inj hset
  refine ⟨fun c hc => ?_, fun row hrow => ?_, h.picks⟩
  · rcases List.mem_append.mp hc with hc | hnew
    · exact h.channels c (List.mem_of_mem_filter hc)
    · obtain ⟨integration, hmem, rfl⟩ := List.mem_map.mp hnew
      exact ⟨hrule, List.all_eq_true.mp hintegrations integration hmem⟩
  · exact ⟨(h.rows row hrow).rule, (h.rows row hrow).integration⟩

theorem Linked.deleteRule {rule : Nat} (h : Linked s)
    (hstep : RetrySteps b s (.deleteRule rule) s') : Linked s' := by
  obtain rfl := Option.some.inj hstep
  refine ⟨fun c hc => ?_, fun row hrow => ?_, fun t ht p hp => ?_⟩
  · obtain ⟨hmem, hne⟩ := List.mem_filter.mp hc
    obtain ⟨hrule, hintegration⟩ := h.channels c hmem
    exact ⟨beq_iff_eq.mpr (live_set (of_decide_eq_true hne) (beq_iff_eq.mp hrule)), hintegration⟩
  · obtain ⟨old, hold, rfl⟩ := List.mem_map.mp hrow
    obtain ⟨hrules, hintegrations⟩ := h.rows old hold
    refine ⟨fun k heq => ?_, hintegrations⟩
    obtain ⟨heq, hne⟩ := clearId_eq_some heq
    exact beq_iff_eq.mpr (live_set hne (beq_iff_eq.mp (hrules k heq)))
  · obtain ⟨row, hrow, hread, hintegration⟩ := h.picks t ht p hp
    refine ⟨{ row with ruleId := clearId rule row.ruleId }, ?_, ?_, hintegration⟩
    · show (s.rows.map _)[p.row]? = _
      rw [List.getElem?_map, hrow]
      rfl
    · refine hread.delete rule fun k hk => ?_
      exact beq_iff_eq.mp ((h.rows row (List.mem_of_getElem? hrow)).rule k hk)

theorem Linked.deleteIntegration {integration : Nat} (h : Linked s)
    (hstep : RetrySteps b s (.deleteIntegration integration) s') : Linked s' := by
  obtain rfl := Option.some.inj hstep
  refine ⟨fun c hc => ?_, fun row hrow => ?_, fun t ht p hp => ?_⟩
  · obtain ⟨hmem, hne⟩ := List.mem_filter.mp hc
    obtain ⟨hrule, hintegration⟩ := h.channels c hmem
    exact ⟨hrule, beq_iff_eq.mpr (live_set (of_decide_eq_true hne) (beq_iff_eq.mp hintegration))⟩
  · obtain ⟨old, hold, rfl⟩ := List.mem_map.mp hrow
    obtain ⟨hrules, hintegrations⟩ := h.rows old hold
    refine ⟨hrules, fun k heq => ?_⟩
    obtain ⟨heq, hne⟩ := clearId_eq_some heq
    exact beq_iff_eq.mpr (live_set hne (beq_iff_eq.mp (hintegrations k heq)))
  · obtain ⟨row, hrow, hrule, hread⟩ := h.picks t ht p hp
    refine ⟨{ row with integrationId := clearId integration row.integrationId }, ?_, hrule, ?_⟩
    · show (s.rows.map _)[p.row]? = _
      rw [List.getElem?_map, hrow]
      rfl
    · refine hread.delete integration fun k hk => ?_
      exact beq_iff_eq.mp ((h.rows row (List.mem_of_getElem? hrow)).integration k hk)

/-- What was read of a row stays as right when rows are added. -/
theorem PickLinked.append {rows : List OwnedRow} {tasks : List RetryTask} (h : PickLinked s p) :
    PickLinked { s with rows := s.rows ++ rows, tasks := tasks } p := by
  obtain ⟨row, hrow, hrest⟩ := h
  refine ⟨row, ?_, hrest⟩
  rwa [List.getElem?_append_left (List.getElem?_eq_some_iff.mp hrow).1]

theorem Linked.fire {process rule : Nat} {integrations : List Nat} {suppressed : Bool}
    (h : Linked s) (hstep : RetrySteps b s (.fire process rule integrations suppressed) s') :
    Linked s' := by
  obtain ⟨⟨hrule, hintegrations⟩, hfire⟩ := Option.ite_none_right_eq_some.mp hstep
  have hnew : ∀ fields, ∀ row ∈ integrations.map fun integration =>
      (⟨fields, some rule, some integration, none, s.now⟩ : OwnedRow), RowLinked s row := by
    intro fields row hrow
    obtain ⟨integration, hmem, rfl⟩ := List.mem_map.mp hrow
    refine ⟨fun k hk => ?_, fun k hk => ?_⟩
    · exact Option.some.inj hk ▸ hrule
    · exact Option.some.inj hk ▸ List.all_eq_true.mp hintegrations integration hmem
  cases suppressed with
  | true =>
      obtain rfl := Option.some.inj hfire
      refine ⟨h.channels, fun row hrow => ?_, fun t ht p hp => (h.picks t ht p hp).append⟩
      rcases List.mem_append.mp hrow with hold | hrow
      · exact ⟨(h.rows row hold).rule, (h.rows row hold).integration⟩
      · exact ⟨(hnew _ row hrow).rule, (hnew _ row hrow).integration⟩
  | false =>
      obtain rfl := Option.some.inj hfire
      refine ⟨h.channels, fun row hrow => ?_, fun t ht p hp => ?_⟩
      · rcases List.mem_append.mp hrow with hold | hrow
        · exact ⟨(h.rows row hold).rule, (h.rows row hold).integration⟩
        · exact ⟨(hnew _ row hrow).rule, (hnew _ row hrow).integration⟩
      · rcases List.mem_append.mp ht with ht | hfired
        · exact (h.picks t ht p hp).append
        · obtain rfl := List.mem_singleton.mp hfired
          obtain ⟨j, hj, rfl⟩ := List.mem_mapIdx.mp hp
          refine ⟨⟨⟨.pending, 0, some (s.now + retryClaimLease)⟩, some rule, some integrations[j],
            none, s.now⟩, ?_, .inl rfl, .inl rfl⟩
          show (s.rows ++ _)[s.rows.length + j]? = _
          rw [List.getElem?_append_right (Nat.le_add_right _ _), Nat.add_sub_cancel_left,
            List.getElem?_map, List.getElem?_eq_getElem hj]
          rfl

theorem Linked.step (h : Linked s) (hstep : RetrySteps b s label s') : Linked s' := by
  cases label with
  | wait micros =>
      obtain rfl := Option.some.inj hstep
      exact h.sameOwners ⟨rfl, rfl, rfl, fun _ => rfl⟩ h.picks
  | createRule =>
      obtain rfl := Option.some.inj hstep
      exact h.createRule
  | createIntegration =>
      obtain rfl := Option.some.inj hstep
      exact h.createIntegration
  | setChannels rule integrations => exact h.setChannels hstep
  | deleteRule rule => exact h.deleteRule hstep
  | deleteIntegration integration => exact h.deleteIntegration hstep
  | fire process rule integrations suppressed => exact h.fire hstep
  | claim process batch => exact h.claim hstep
  | crash process => exact h.crash hstep
  | look j _ | unreadable j _ _ | send j _ | finish j _ _ | abort j =>
      exact h.taskStep (taskStep_of_task hstep rfl)

end Rustrak.Alerts
