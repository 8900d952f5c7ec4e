import Rustrak.Alerts.Digests
import Rustrak.Alerts.Keys

/-!
# What the history keeps

A step either records the rows of one firing or leaves the rows as they are, but for the
rule or the issue of a row, which may be deleted (`alertStep_history`).  So no row ever goes,
every row is one that a firing wrote, and no key is there twice.
-/

namespace Rustrak.Alerts

open Rustrak.Core Rustrak.Digest Rustrak.Quota Rustrak.Relational Rustrak.Transition

variable {config : RateLimitConfig} {b : Backend} {s s' : AlertServer} {label : AlertLabel}
  {key : Int × Uuid} {freshId : Uuid} {now : Int} {suppressed : Bool} {row row' : AlertRow}

/-! ## What a digest does to the server -/

/-- Everything but a write, a transaction of a rule and the deletion of a file only moves the
digest on. -/
inductive Advances (config : RateLimitConfig) (b : Backend) (s : AlertServer) (key : Int × Uuid) :
    DigestStage → AlertServer → DigestStage → Prop
  | moves {stage next : DigestStage} : Advances config b s key stage s next
  | writes {event : PendingEvent} {db : Db} {freshId : Uuid} {now : Int} {landing : Landing}
      {issue : Issue} :
      Written config s.db event.write freshId now db landing →
      db.issue landing.issueId = some issue →
      Advances config b s key (.writing event)
        { s with
          db
          marks := s.marks ++ [⟨event.key,
            alertTypeForLifecycle landing.created landing.regressed event.isFeedback,
            if isMuted issue then none else some issue.digestedEventCount⟩] }
        (.triggering ⟨event, landing.issueId, issue.digestedEventCount⟩
          (eventAlertTypes
            (alertTypeForLifecycle landing.created landing.regressed event.isFeedback)
            (isMuted issue) event.isFeedback))
  | records {trigger : Trigger} {alertType : AlertType} {rule : AlertRule} {channels : List Int}
      {rules : List AlertRule} {failed : Bool} {rest : List AlertType} {suppressed : Bool} :
      s.references trigger rule = true →
      Advances config b s key (.recording trigger alertType rule channels rules failed rest)
        (s.record trigger alertType rule channels suppressed)
        (.firing trigger alertType rules failed rest)
  | deletes {stage : DigestStage} :
      stage = .releasing ∨ stage = .dropping ∨ stage = .rejecting →
      Advances config b s key stage (s.deleteFile key) .ended

theorem writeDigestOnce_written {w : DigestWrite} {db after : Db} {issueId : Uuid}
    {created regressed : Bool}
    (h : writeDigestOnce config db w freshId now = (after, .ok (.written issueId created regressed))) :
    Written config db w freshId now after ⟨issueId, created, regressed⟩ := by
  apply writeDigestRows_written
  unfold writeDigestOnce at h
  split at h <;> simp_all

private theorem write_advances (event : PendingEvent) :
    Advances config b s key (.writing event) (s.write config event freshId now).1
      (s.write config event freshId now).2 := by
  unfold AlertServer.write
  split
  · next db issueId created regressed hwrite =>
      split
      · exact .moves
      · next issue hissue => exact .writes (writeDigestOnce_written hwrite) hissue
  · exact .moves
  · exact .moves

theorem advance_advances (freshId : Uuid) (now : Int) (suppressed : Bool) (stage : DigestStage) :
    Advances config b s key stage (s.advance config b key freshId now suppressed stage).1
      (s.advance config b key freshId now suppressed stage).2 := by
  cases stage with
  | reading => exact .moves
  | checking event project => exact .moves
  | measuring event project => exact .moves
  | writing event => exact write_advances event
  | triggering trigger types => cases types <;> exact .moves
  | firing trigger alertType rules failed rest => cases rules <;> exact .moves
  | recording trigger alertType rule channels rules failed rest =>
      unfold AlertServer.advance
      dsimp only
      split_ifs with hrefs
      · exact .records hrefs
      · exact .moves
  | releasing => exact .deletes (.inl rfl)
  | dropping => exact .deletes (.inr (.inl rfl))
  | rejecting => exact .deletes (.inr (.inr rfl))
  | ended => exact .moves

/-- Whether a digest is yet to commit what a rule fires. -/
def DigestStage.isRecording : DigestStage → Bool
  | .recording _ _ _ _ _ _ _ => true
  | _ => false

theorem isRecording_stageAfter (e : AppError) :
    (AlertServer.stageAfter e).isRecording = false := by
  unfold AlertServer.stageAfter
  split_ifs <;> rfl

theorem isRecording_replay (event : PendingEvent) (row : EventRow) :
    (s.replay event row).isRecording = false := by
  unfold AlertServer.replay
  split
  · split
    · exact isRecording_stageAfter _
    · split <;> rfl
  · rfl

/-- A digest is to record where it has found that a rule is to fire. -/
theorem recording_of_advance {stage : DigestStage} {trigger : Trigger} {alertType : AlertType}
    {rule : AlertRule} {channels : List Int} {rules : List AlertRule} {failed : Bool}
    {rest : List AlertType}
    (h : (s.advance config b key freshId now suppressed stage).2 =
      .recording trigger alertType rule channels rules failed rest) :
    stage = .firing trigger alertType (rule :: rules) failed rest ∧
      s.evaluate b trigger alertType rule = channels ∧ channels ≠ [] := by
  have hnone : ∀ {next : DigestStage}, next.isRecording = false →
      next ≠ .recording trigger alertType rule channels rules failed rest := by
    rintro next hnext rfl
    contradiction
  cases stage with
  | firing trigger' alertType' rules' failed' rest' =>
      cases rules' with
      | nil => cases failed' <;> cases h
      | cons rule' rules' =>
          change s.fire b trigger' alertType' rule' rules' failed' rest' = _ at h
          unfold AlertServer.fire at h
          split at h
          · cases h
          · next hfires =>
              obtain ⟨rfl, rfl, rfl, rfl, rfl, rfl, rfl⟩ := DigestStage.recording.inj h
              exact ⟨rfl, rfl, hfires⟩
  | reading =>
      refine absurd h (hnone ?_)
      show (s.read key).isRecording = false
      unfold AlertServer.read
      split
      · exact isRecording_stageAfter _
      · exact isRecording_stageAfter _
      · split_ifs
        · exact isRecording_stageAfter _
        · rfl
  | checking event project =>
      refine absurd h (hnone ?_)
      show (s.check event project).isRecording = false
      unfold AlertServer.check
      split
      · exact isRecording_replay event _
      · rfl
  | measuring event project =>
      refine absurd h (hnone ?_)
      show (s.measure config event project now).isRecording = false
      unfold AlertServer.measure
      split_ifs <;> rfl
  | writing event =>
      refine absurd h (hnone ?_)
      show (s.write config event freshId now).2.isRecording = false
      unfold AlertServer.write
      split
      · split <;> rfl
      · rfl
      · exact isRecording_stageAfter _
  | triggering trigger types => cases types <;> cases h
  | recording trigger' alertType' rule' channels' rules' failed' rest' =>
      refine absurd h (hnone ?_)
      unfold AlertServer.advance
      dsimp only
      split_ifs <;> rfl
  | releasing => cases h
  | dropping => cases h
  | rejecting => cases h
  | ended => cases h

theorem isRecording_failRule {stage next : DigestStage} (h : stage.failRule = some next) :
    next.isRecording = false := by
  unfold DigestStage.failRule at h
  split at h
  · obtain rfl := Option.some.inj h
    rfl
  · obtain rfl := Option.some.inj h
    rfl
  · contradiction

/-- Where a digest comes from: it was there, has just begun or ended, lost a rule, or is the
one that went on. -/
inductive TaskChange (config : RateLimitConfig) (b : Backend) (s : AlertServer) :
    AlertLabel → DigestTask → Prop
  | same {label : AlertLabel} {t : DigestTask} : t ∈ s.tasks → TaskChange config b s label t
  | begun {label : AlertLabel} {key : Int × Uuid} : TaskChange config b s label ⟨key, .reading⟩
  | ended {label : AlertLabel} {t : DigestTask} : t ∈ s.tasks →
      TaskChange config b s label { t with stage := .ended }
  | failed {label : AlertLabel} {t : DigestTask} {stage : DigestStage} : t ∈ s.tasks →
      t.stage.failRule = some stage → TaskChange config b s label { t with stage }
  | advanced {i : Nat} {freshId : Uuid} {now : Int} {suppressed : Bool} {t : DigestTask} :
      s.tasks[i]? = some t →
      TaskChange config b s (.advance i freshId now suppressed)
        { t with stage := (s.advance config b t.key freshId now suppressed t.stage).2 }

/-- A digest does not touch the list of the digests. -/
theorem Advances.tasks {stage next : DigestStage} (h : Advances config b s key stage s' next) :
    s'.tasks = s.tasks := by
  cases h <;> rfl

theorem alertStep_task (h : AlertSteps config b s label s') {t' : DigestTask}
    (ht' : t' ∈ s'.tasks) : TaskChange config b s label t' := by
  cases label with
  | deliver event =>
      obtain rfl := Option.some.inj h
      rcases List.mem_append.mp ht' with ht' | ht'
      · exact .same ht'
      · rw [List.mem_singleton.mp ht']
        exact .begun
  | recover key =>
      obtain ⟨_, h⟩ := Option.ite_none_right_eq_some.mp h
      obtain rfl := Option.some.inj h
      rcases List.mem_append.mp ht' with ht' | ht'
      · exact .same ht'
      · rw [List.mem_singleton.mp ht']
        exact .begun
  | advance i freshId now suppressed =>
      obtain ⟨t, ht, rfl⟩ := Option.map_eq_some_iff.mp h
      have htasks : (s.advance config b t.key freshId now suppressed t.stage).1.tasks = s.tasks :=
        (advance_advances freshId now suppressed t.stage).tasks
      rcases List.mem_or_eq_of_mem_set ht' with ht' | rfl
      · exact .same (htasks ▸ ht')
      · exact .advanced ht
  | failRule i =>
      obtain ⟨t, ht, h⟩ := Option.bind_eq_some_iff.mp h
      obtain ⟨stage, hstage, rfl⟩ := Option.map_eq_some_iff.mp h
      rcases List.mem_or_eq_of_mem_set ht' with ht' | rfl
      · exact .same ht'
      · exact .failed (List.mem_of_getElem? ht) hstage
  | crash i =>
      obtain ⟨t, ht, rfl⟩ := Option.map_eq_some_iff.mp h
      rcases List.mem_or_eq_of_mem_set ht' with ht' | rfl
      · exact .same ht'
      · exact .ended (List.mem_of_getElem? ht)
  | setStatus issueId status inNextRelease =>
      obtain rfl := Option.some.inj h
      exact .same ht'
  | setRules rules =>
      obtain ⟨_, h⟩ := Option.ite_none_right_eq_some.mp h
      obtain rfl := Option.some.inj h
      exact .same ht'
  | setFeedback projectId keeps =>
      obtain rfl := Option.some.inj h
      exact .same ht'
  | retain projectId cutoff limit picked =>
      obtain ⟨_, h⟩ := Option.ite_none_right_eq_some.mp h
      obtain rfl := Option.some.inj h
      refine .same ?_
      split at ht' <;> exact ht'
  | deleteIssue issueId =>
      unfold AlertSteps alertStep at h
      dsimp only at h
      split at h
      · obtain rfl := Option.some.inj h
        exact .same ht'
      · contradiction

/-! ## Rows -/

/-- The rule of a row may be gone, and its issue. -/
structure Fades (row row' : AlertRow) : Prop where
  ruleId : ∀ id, row'.ruleId = some id → row.ruleId = some id
  issueId : ∀ id, row'.issueId = some id → row.issueId = some id
  rest : row' = { row with ruleId := row'.ruleId, issueId := row'.issueId }

theorem Fades.sameKey (h : Fades row row') : row'.idempotencyKey = row.idempotencyKey := by
  rw [h.rest]

theorem Fades.proper (h : Fades row row') (hproper : ProperRow row) : ProperRow row' := by
  obtain ⟨hid, ⟨ruleId, hserial, hkey, hrule⟩, hchannel⟩ := hproper
  rw [h.rest]
  exact ⟨hid, ⟨ruleId, hserial, hkey, fun id hid => hrule id (h.ruleId id hid)⟩, hchannel⟩

/-- The steps that delete rows a history row may refer to. -/
def AlertLabel.deletes : AlertLabel → Bool
  | .setRules _ | .retain _ _ _ _ | .deleteIssue _ => true
  | _ => false

/-- What a step does to the rows: nothing, they fade, or those of one firing are recorded. -/
inductive HistoryChange (s : AlertServer) : AlertLabel → List AlertRow → Prop
  | same {label : AlertLabel} : HistoryChange s label s.history
  | fade {label : AlertLabel} (f : AlertRow → AlertRow) : label.deletes = true →
      (∀ row, Fades row (f row)) → HistoryChange s label (s.history.map f)
  | record {label : AlertLabel} {t : DigestTask} {trigger : Trigger} {alertType : AlertType}
      {rule : AlertRule} {channels : List Int} {rules : List AlertRule} {failed : Bool}
      {rest : List AlertType} {suppressed : Bool} : t ∈ s.tasks →
      t.stage = .recording trigger alertType rule channels rules failed rest →
      HistoryChange s label (s.record trigger alertType rule channels suppressed).history

theorem detach_history (db : Db) (hdeletes : label.deletes = true) :
    HistoryChange s label (s.detach db).history := by
  refine .fade _ hdeletes fun row => ⟨fun _ h => h, fun id hid => ?_, rfl⟩
  exact (Option.filter_eq_some_iff.mp hid).1

theorem alertStep_history (h : AlertSteps config b s label s') :
    HistoryChange s label s'.history := by
  cases label with
  | deliver event =>
      obtain rfl := Option.some.inj h
      have hsame : (s.storeFile event).history = s.history := by
        unfold AlertServer.storeFile
        split_ifs <;> rfl
      show HistoryChange s _ (s.storeFile event).history
      rw [hsame]
      exact .same
  | recover key =>
      obtain ⟨_, h⟩ := Option.ite_none_right_eq_some.mp h
      obtain rfl := Option.some.inj h
      exact .same
  | advance i freshId now suppressed =>
      obtain ⟨t, ht, rfl⟩ := Option.map_eq_some_iff.mp h
      have hadvance : Advances config b s t.key t.stage _ _ :=
        advance_advances freshId now suppressed t.stage
      show HistoryChange s _ (s.advance config b t.key freshId now suppressed t.stage).1.history
      generalize s.advance config b t.key freshId now suppressed t.stage = after at hadvance ⊢
      obtain ⟨after, next⟩ := after
      generalize hstage : t.stage = stage at hadvance
      cases hadvance with
      | moves => exact .same
      | writes _ _ => exact .same
      | records _ => exact .record (List.mem_of_getElem? ht) hstage
      | deletes _ => exact .same
  | failRule i =>
      obtain ⟨t, _, h⟩ := Option.bind_eq_some_iff.mp h
      obtain ⟨_, _, rfl⟩ := Option.map_eq_some_iff.mp h
      exact .same
  | crash i =>
      obtain ⟨t, _, rfl⟩ := Option.map_eq_some_iff.mp h
      exact .same
  | setStatus issueId status inNextRelease =>
      obtain rfl := Option.some.inj h
      exact .same
  | setRules rules =>
      obtain ⟨_, h⟩ := Option.ite_none_right_eq_some.mp h
      obtain rfl := Option.some.inj h
      refine .fade _ rfl fun row => ⟨fun id hid => ?_, fun _ h => h, rfl⟩
      exact (Option.filter_eq_some_iff.mp hid).1
  | setFeedback projectId keeps =>
      obtain rfl := Option.some.inj h
      exact .same
  | retain projectId cutoff limit picked =>
      obtain ⟨_, h⟩ := Option.ite_none_right_eq_some.mp h
      obtain rfl := Option.some.inj h
      split
      · exact .same
      · exact detach_history _ rfl
  | deleteIssue issueId =>
      unfold AlertSteps alertStep at h
      dsimp only at h
      split at h
      · obtain rfl := Option.some.inj h
        exact detach_history _ rfl
      · contradiction

structure SoundHistory (s : AlertServer) : Prop where
  proper : ∀ row ∈ s.history, ProperRow row
  keys : (s.history.map AlertRow.idempotencyKey).Nodup
  channels : ∀ t ∈ s.tasks, ∀ trigger alertType rule channels rules failed rest,
    t.stage = .recording trigger alertType rule channels rules failed rest →
      ∀ channel ∈ channels, 0 < channel

theorem proper_alertRow (trigger : Trigger) (alertType : AlertType) (rule : AlertRule)
    (status : AlertStatus) {channel : Int} (hchannel : 0 < channel) :
    ProperRow (alertRow trigger.event.write.projectId trigger.issueId alertType
      (trigger.alertId alertType) rule status channel) where
  alertId := ⟨_, _, trigger.event.serial, trigger.event.uuid, rfl⟩
  key := ⟨rule.id, rule.serial.1, rfl, fun _ h => (Option.some.inj h).symm⟩
  channel := hchannel

theorem channelsOf_pos {ruleId channel : Int} (h : channel ∈ s.channelsOf ruleId) : 0 < channel := by
  unfold AlertServer.channelsOf at h
  cases hrule : lookup AlertRule.id ruleId s.rules with
  | none => simp [hrule] at h
  | some rule =>
      rw [hrule] at h
      exact rule.serial.2 channel h

theorem mem_evaluate {trigger : Trigger} {alertType : AlertType} {rule : AlertRule} {channel : Int}
    (h : channel ∈ s.evaluate b trigger alertType rule) : channel ∈ s.channelsOf rule.id := by
  unfold AlertServer.evaluate at h
  split_ifs at h
  · cases h
  · cases h
  · cases h
  · exact h

theorem SoundHistory.step (h : SoundHistory s) (hstep : AlertSteps config b s label s') :
    SoundHistory s' := by
  have hchange := alertStep_history hstep
  refine ⟨?_, ?_, ?_⟩
  · generalize s'.history = history at hchange
    intro row hrow
    cases hchange with
    | same => exact h.proper row hrow
    | fade f _ hf =>
        obtain ⟨old, hold, rfl⟩ := List.mem_map.mp hrow
        exact (hf old).proper (h.proper old hold)
    | record ht hstage =>
        rcases mem_recordRows hrow with hold | ⟨channel, hchannel, rfl⟩
        · exact h.proper row hold
        · exact proper_alertRow _ _ _ _ (h.channels _ ht _ _ _ _ _ _ _ hstage channel hchannel)
  · generalize s'.history = history at hchange
    cases hchange with
    | same => exact h.keys
    | fade f _ hf =>
        rw [List.map_map]
        have hsame : AlertRow.idempotencyKey ∘ f = AlertRow.idempotencyKey :=
          funext fun row => (hf row).sameKey
        rw [hsame]
        exact h.keys
    | record _ _ => exact nodup_recordRows h.keys
  · intro t ht trigger alertType rule channels rules failed rest hstage
    have hnone : ∀ {stage : DigestStage}, stage.isRecording = false →
        stage = .recording trigger alertType rule channels rules failed rest →
        ∀ channel ∈ channels, 0 < channel := by
      rintro stage hstage rfl
      contradiction
    cases alertStep_task hstep ht with
    | same ht => exact h.channels t ht _ _ _ _ _ _ _ hstage
    | begun => exact hnone rfl hstage
    | ended _ => exact hnone rfl hstage
    | failed _ hfail => exact hnone (isRecording_failRule hfail) hstage
    | advanced _ =>
        obtain ⟨_, rfl, _⟩ := recording_of_advance hstage
        exact fun channel hchannel => channelsOf_pos (mem_evaluate hchannel)

theorem SoundHistory.fresh (projectIds : List Int) : SoundHistory (.fresh projectIds) where
  proper := by simp [AlertServer.fresh]
  keys := by simp [AlertServer.fresh]
  channels := by simp [AlertServer.fresh]

/-- A row of an alert that still has its rule is told by its rule and channel. -/
theorem SoundHistory.eq_of_same (h : SoundHistory s) (hrow : row ∈ s.history)
    (hrow' : row' ∈ s.history) {ruleId : Int} (hrule : row.ruleId = some ruleId)
    (hrule' : row'.ruleId = some ruleId) (hchannel : row.integrationId = row'.integrationId)
    (halert : row.alertId = row'.alertId) : row = row' := by
  obtain ⟨_, ⟨id, _, hkey, hid⟩, _⟩ := h.proper row hrow
  obtain ⟨_, ⟨id', _, hkey', hid'⟩, _⟩ := h.proper row' hrow'
  apply List.inj_on_of_nodup_map h.keys hrow hrow'
  rw [hkey, hkey', ← hid ruleId hrule, ← hid' ruleId hrule', hchannel, halert]

end Rustrak.Alerts
