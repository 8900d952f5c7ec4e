import Rustrak.Alerts.Reading
import Rustrak.Alerts.Stored

/-!
# What a digest leaves behind it

Each digest of an event walks through the rules, and what it has left behind it is settled:
the rows of a rule are recorded, or the rule does not fire.  `StageOk` says so of the place it
has come to, and since rows stay, that remains true whatever the others do.  A digest that
starts again takes the same types and the same count from the tables, and so comes to settle
the same rules.
-/

namespace Rustrak.Alerts

open Rustrak.Core Rustrak.Digest Rustrak.Quota Rustrak.Relational Rustrak.Transition

/-- The rule is to fire for the event. -/
structure Matches (e : PendingEvent) (l : Landed) (rule : AlertRule) : Prop where
  enabled : rule.isEnabled = true
  project : rule.projectId = e.write.projectId
  alertType : rule.alertType ∈ l.types e
  conditions : rule.conditions.matches rule.alertType e.facts l.count = true

/-- A row of the rule for each of its channels. -/
def Recorded (history : List AlertRow) (alertId : String) (rule : AlertRule) : Prop :=
  ∀ channel ∈ rule.channels, ∃ row ∈ history, row.ruleId = some rule.id ∧
    row.integrationId = channel ∧ row.alertId = alertId

/-- A new-issue rule has fired for the issue, for another event. -/
def FiredForOther (e : PendingEvent) (l : Landed) (history : List AlertRow) (rule : AlertRule) :
    Prop :=
  rule.alertType = .newIssue ∧ ∃ row ∈ history, row.ruleId = some rule.id ∧
    row.issueId = some l.issueId ∧ row.alertType = .newIssue ∧
    ∀ alertType, row.alertId ≠ e.alertId alertType

def Settled (e : PendingEvent) (l : Landed) (history : List AlertRow) (rule : AlertRule) : Prop :=
  Matches e l rule → Recorded history (e.alertId rule.alertType) rule ∨
    FiredForOther e l history rule

/-- What the digest of a stored event has left behind it. -/
def StageOk (e : PendingEvent) (l : Landed) (rules : List AlertRule) (history : List AlertRow) :
    DigestStage → Prop
  | .reading | .dropping | .rejecting | .ended => True
  | .checking event _ | .measuring event _ | .writing event => event = e
  | .triggering trigger types =>
      trigger.event = e ∧ (types = [] ∨ trigger = ⟨e, l.issueId, l.count⟩) ∧
        (∀ alertType ∈ types, alertType ∈ l.types e) ∧
        ∀ rule ∈ rules, rule.alertType ∉ types → Settled e l history rule
  | .firing trigger alertType todo failed rest =>
      trigger = ⟨e, l.issueId, l.count⟩ ∧ (∀ other ∈ alertType :: rest, other ∈ l.types e) ∧
        (∀ rule ∈ todo, rule ∈ rules ∧ rule.projectId = e.write.projectId ∧
          rule.alertType = alertType ∧ rule.isEnabled = true) ∧
        (failed = false → ∀ rule ∈ rules, rule.alertType ∉ rest → rule ∉ todo →
          Settled e l history rule)
  | .recording trigger alertType next channels todo failed rest =>
      trigger = ⟨e, l.issueId, l.count⟩ ∧ (∀ other ∈ alertType :: rest, other ∈ l.types e) ∧
        (∀ rule ∈ next :: todo, rule ∈ rules ∧ rule.projectId = e.write.projectId ∧
          rule.alertType = alertType ∧ rule.isEnabled = true) ∧
        (next.conditions.matches alertType e.facts l.count = true ∧ channels = next.channels) ∧
        (failed = false → ∀ rule ∈ rules, rule.alertType ∉ rest → rule ∉ next :: todo →
          Settled e l history rule)
  | .releasing => ∀ rule ∈ rules, Settled e l history rule

/-- Every row about the event is of a rule that is to fire for it, and has the rows of the
rule's other channels beside it. -/
def RowsOk (e : PendingEvent) (l : Landed) (rules : List AlertRule) (history : List AlertRow) :
    Prop :=
  ∀ row ∈ history, ∀ alertType, row.alertId = e.alertId alertType →
    ∃ rule ∈ rules, Matches e l rule ∧ rule.alertType = alertType ∧ row.ruleId = some rule.id ∧
      row.integrationId ∈ rule.channels ∧ Recorded history (e.alertId alertType) rule

variable {config : RateLimitConfig} {b : Backend} {s s' : AlertServer} {label : AlertLabel}
  {e f : PendingEvent} {l : Landed} {rules : List AlertRule} {history history' : List AlertRow}
  {rule : AlertRule} {stage : DigestStage} {alertId : String}

/-! ## Rows stay -/

theorem Recorded.mono (h : Recorded history alertId rule)
    (hsub : ∀ row ∈ history, row ∈ history') : Recorded history' alertId rule := by
  intro channel hchannel
  obtain ⟨row, hrow, hrest⟩ := h channel hchannel
  exact ⟨row, hsub row hrow, hrest⟩

theorem Settled.mono (h : Settled e l history rule) (hsub : ∀ row ∈ history, row ∈ history') :
    Settled e l history' rule := by
  intro hmatches
  rcases h hmatches with hrecorded | ⟨htype, row, hrow, hrest⟩
  · exact .inl (hrecorded.mono hsub)
  · exact .inr ⟨htype, row, hsub row hrow, hrest⟩

theorem StageOk.mono (h : StageOk e l rules history stage)
    (hsub : ∀ row ∈ history, row ∈ history') : StageOk e l rules history' stage := by
  cases stage with
  | reading => trivial
  | checking event project => exact h
  | measuring event project => exact h
  | writing event => exact h
  | triggering trigger types =>
      obtain ⟨hevent, htrigger, htypes, hsettled⟩ := h
      exact ⟨hevent, htrigger, htypes, fun rule hrule hout => (hsettled rule hrule hout).mono hsub⟩
  | firing trigger alertType todo failed rest =>
      obtain ⟨htrigger, htypes, htodo, hsettled⟩ := h
      exact ⟨htrigger, htypes, htodo, fun hfailed rule hrule hrest hout =>
        (hsettled hfailed rule hrule hrest hout).mono hsub⟩
  | recording trigger alertType next channels todo failed rest =>
      obtain ⟨htrigger, htypes, htodo, hnext, hsettled⟩ := h
      exact ⟨htrigger, htypes, htodo, hnext, fun hfailed rule hrule hrest hout =>
        (hsettled hfailed rule hrule hrest hout).mono hsub⟩
  | releasing => exact fun rule hrule => (h rule hrule).mono hsub
  | dropping => trivial
  | rejecting => trivial
  | ended => trivial

/-! ## One rule -/

theorem eq_of_id {rule' : AlertRule} (hnodup : (rules.map AlertRule.id).Nodup) (hrule : rule ∈ rules)
    (hrule' : rule' ∈ rules) (hid : rule.id = rule'.id) : rule = rule' :=
  List.inj_on_of_nodup_map hnodup hrule hrule' hid

theorem channelsOf_eq (hnodup : (s.rules.map AlertRule.id).Nodup) (hrule : rule ∈ s.rules) :
    s.channelsOf rule.id = rule.channels := by
  unfold AlertServer.channelsOf
  rw [lookup_of_mem hnodup hrule]
  rfl

theorem conditions_of_evaluate {trigger : Trigger} {alertType : AlertType}
    (h : s.evaluate b trigger alertType rule ≠ []) :
    rule.conditions.matches alertType trigger.event.facts trigger.count = true := by
  by_contra hunmatched
  refine h ?_
  unfold AlertServer.evaluate
  rw [if_pos (by simpa using hunmatched)]

theorem channels_of_evaluate {trigger : Trigger} {alertType : AlertType}
    (hnodup : (s.rules.map AlertRule.id).Nodup) (hrule : rule ∈ s.rules)
    (h : s.evaluate b trigger alertType rule ≠ []) :
    s.evaluate b trigger alertType rule = rule.channels := by
  rw [← channelsOf_eq hnodup hrule]
  unfold AlertServer.evaluate at h ⊢
  split_ifs at h ⊢
  · contradiction
  · contradiction
  · contradiction
  · rfl

/-- A rule that does not fire is settled: it does not match, has recorded the event, has fired
for the issue, or has no channel. -/
theorem settled_of_evaluate (hsound : SoundHistory s) (hnodup : (s.rules.map AlertRule.id).Nodup)
    (hrows : RowsOk e l s.rules s.history) (hrule : rule ∈ s.rules)
    (h : s.evaluate b ⟨e, l.issueId, l.count⟩ rule.alertType rule = []) :
    Settled e l s.history rule := by
  intro hmatches
  have hrecordedIff : recorded b s.history rule e.write.projectId (e.alertId rule.alertType) = true ↔
      ∃ row ∈ s.history, row.ruleId = some rule.id ∧ row.alertId = e.alertId rule.alertType :=
    recorded_iff hsound.proper e.serial e.uuid
  -- The rule of a row about the event that has this rule's id.
  have hsame : ∀ row ∈ s.history, row.ruleId = some rule.id → ∀ alertType,
      row.alertId = e.alertId alertType →
      rule.alertType = alertType ∧ Recorded s.history (e.alertId alertType) rule := by
    intro row hrow hid alertType halert
    obtain ⟨rule', hrule', _, htype, hid', _, hrecorded⟩ := hrows row hrow alertType halert
    obtain rfl := eq_of_id hnodup hrule hrule' (Option.some.inj (hid.symm.trans hid'))
    exact ⟨htype, hrecorded⟩
  unfold AlertServer.evaluate at h
  split_ifs at h with hunmatched hrecorded hfired
  · rw [hmatches.conditions] at hunmatched
    contradiction
  · obtain ⟨row, hrow, hid, halert⟩ := hrecordedIff.mp hrecorded
    exact .inl (hsame row hrow hid _ halert).2
  · obtain ⟨htype, hfired⟩ := Bool.and_eq_true_iff.mp hfired
    obtain ⟨row, hrow, hfields⟩ := List.any_eq_true.mp hfired
    simp only [Bool.and_eq_true, beq_iff_eq] at hfields htype
    obtain ⟨⟨hid, hissue⟩, hrowType⟩ := hfields
    refine .inr ⟨htype, row, hrow, hid, hissue, hrowType.trans htype, fun alertType halert => ?_⟩
    obtain ⟨rfl, _⟩ := hsame row hrow hid alertType halert
    exact hrecorded (hrecordedIff.mpr ⟨row, hrow, hid, halert⟩)
  · rw [channelsOf_eq hnodup hrule] at h
    left
    rw [Recorded, h]
    simp

/-! ## One record -/

section Record

variable {suppressed : Bool}

/-- What the event's digests record of a rule. -/
theorem mem_record {row : AlertRow}
    (h : row ∈ (s.record ⟨e, l.issueId, l.count⟩ rule.alertType rule rule.channels suppressed).history) :
    row ∈ s.history ∨ ∃ channel ∈ rule.channels, row.ruleId = some rule.id ∧
      row.integrationId = channel ∧ row.alertId = e.alertId rule.alertType ∧
      row.idempotencyKey = idempotencyKey (e.alertId rule.alertType) rule.id channel := by
  rcases mem_recordRows h with hold | ⟨channel, hchannel, rfl⟩
  · exact .inl hold
  · exact .inr ⟨channel, hchannel, rfl, rfl, rfl, rfl⟩

theorem recorded_record (hsound : SoundHistory s) (hrows : RowsOk e l rules s.history) :
    Recorded (s.record ⟨e, l.issueId, l.count⟩ rule.alertType rule rule.channels suppressed).history
      (e.alertId rule.alertType) rule := by
  intro channel hchannel
  have hpos := rule.serial.2
  obtain ⟨row, hrow, hkey⟩ : ∃ row ∈ (s.record ⟨e, l.issueId, l.count⟩ rule.alertType rule
      rule.channels suppressed).history,
      row.idempotencyKey = idempotencyKey (e.alertId rule.alertType) rule.id channel :=
    exists_recordRows hchannel
  refine ⟨row, hrow, ?_⟩
  rcases mem_record hrow with hold | ⟨channel', hchannel', hid, hsame, halert, hkey'⟩
  · -- The key is taken: by a row of the same alert, which another digest has recorded.
    obtain ⟨⟨p, u, hp, hu, hid⟩, ⟨ruleId, hserial, hkey', hruleId⟩, hrowPos⟩ := hsound.proper row hold
    rw [hkey', hid] at hkey
    obtain ⟨halert, hsame, hsameChannel⟩ := idempotencyKey_inj hp e.serial hu e.uuid hserial
      rule.serial.1 hrowPos (hpos channel hchannel) hkey
    rw [← hid] at halert
    obtain ⟨rule', _, _, _, hid', _⟩ := hrows row hold rule.alertType halert
    refine ⟨?_, hsameChannel, halert⟩
    rw [hid', hruleId _ hid', hsame]
  · rw [hkey'] at hkey
    obtain ⟨_, _, rfl⟩ := idempotencyKey_inj e.serial e.serial e.uuid e.uuid rule.serial.1
      rule.serial.1 (hpos channel' hchannel') (hpos channel hchannel) hkey
    exact ⟨hid, hsame, halert⟩

theorem alertId_inj {t t' : AlertType} (h : e.alertId t = f.alertId t') : e.key = f.key ∧ t = t' := by
  obtain ⟨hp, hu, ht⟩ := (eventAlertId_inj e.serial f.serial e.uuid f.uuid).mp h
  exact ⟨Prod.ext hp hu, ht⟩

theorem RowsOk.record (h : RowsOk e l rules s.history) (hsound : SoundHistory s)
    (hrule : rule ∈ rules) (hmatches : Matches e l rule) :
    RowsOk e l rules
      (s.record ⟨e, l.issueId, l.count⟩ rule.alertType rule rule.channels suppressed).history := by
  intro row hrow alertType halert
  rcases mem_record hrow with hold | ⟨channel, hchannel, hid, hsame, hrowAlert, _⟩
  · obtain ⟨rule', hrule', hmatches', htype, hid, hchannel, hrecorded⟩ := h row hold alertType halert
    exact ⟨rule', hrule', hmatches', htype, hid, hchannel,
      hrecorded.mono fun _ => subset_recordRows⟩
  · obtain ⟨_, rfl⟩ := alertId_inj (hrowAlert.symm.trans halert)
    exact ⟨rule, hrule, hmatches, rfl, hid, hsame ▸ hchannel, recorded_record hsound h⟩

/-- The rows of another event say nothing of this one. -/
theorem RowsOk.record_other {trigger : Trigger} {alertType : AlertType} {channels : List Int}
    (h : RowsOk e l rules s.history) (hne : trigger.event.key ≠ e.key) :
    RowsOk e l rules (s.record trigger alertType rule channels suppressed).history := by
  intro row hrow alertType' halert
  rcases mem_recordRows hrow with hold | ⟨channel, _, rfl⟩
  · obtain ⟨rule', hrule', hmatches', htype, hid, hchannel, hrecorded⟩ := h row hold alertType' halert
    exact ⟨rule', hrule', hmatches', htype, hid, hchannel,
      hrecorded.mono fun _ => subset_recordRows⟩
  · exact absurd (alertId_inj halert).1 hne

end Record

/-! ## One digest -/

/-- A digest that finds the event stored starts with the types and the count of the first. -/
theorem StageOk.replay (h : Stored s e l) (hmuted : l.muted = true → l.lifecycle = none)
    {row : EventRow} (hrow : lookup EventRow.key e.key s.db.events = some row) :
    StageOk e l rules history (s.replay e row) := by
  obtain ⟨row', hrow', hissueId⟩ := h.row
  obtain rfl := Option.some.inj (hrow.symm.trans hrow')
  obtain ⟨issue, hissue, hmute, hcategory⟩ := h.issue
  have hnone : ∀ types : List AlertType, (∀ alertType ∈ l.types e, alertType ∈ types) → ∀ rule ∈ rules,
      rule.alertType ∉ types → Settled e l history rule := by
    intro types hsub rule _ hout hmatches
    exact absurd (hsub _ hmatches.alertType) hout
  unfold AlertServer.replay
  rw [hissueId, h.mark]
  simp only [hissue]
  cases hl : l.muted with
  | true =>
      have hlifecycle := hmuted hl
      have htypes : l.types e = [] := by
        unfold Landed.types eventAlertTypes
        rw [hlifecycle, hl]
        simp
      simp only [if_true, hlifecycle]
      refine ⟨rfl, .inl rfl, by simp, hnone _ ?_⟩
      simp [htypes]
  | false =>
      have htypes : eventAlertTypes l.lifecycle (isMuted issue) (issue.category == .feedback) =
          l.types e := by
        rw [hmute, hcategory]
        rfl
      simp only [Bool.false_eq_true, if_false, htypes]
      exact ⟨rfl, .inr rfl, fun _ h => h, hnone _ fun _ h => h⟩

theorem stageOk_stageAfter (error : AppError) :
    StageOk e l rules history (AlertServer.stageAfter error) := by
  unfold AlertServer.stageAfter
  split_ifs <;> trivial

/-- What a digest of the event needs of the server. -/
structure Surviving (e : PendingEvent) (l : Landed) (s : AlertServer) : Prop extends Kept e s where
  stored : Stored s e l
  muted : l.muted = true → l.lifecycle = none
  stages : ∀ t ∈ s.tasks, t.key = e.key → StageOk e l s.rules s.history t.stage
  rows : RowsOk e l s.rules s.history
  gone : s.file e.key = none → ∀ rule ∈ s.rules, Settled e l s.history rule

/-- A rule that a digest is behind: it was settled before, or is the one at hand. -/
theorem settled_cons (next : AlertRule) {todo : List AlertRule} {rest : List AlertType}
    (hnext : Settled e l history next)
    (hsettled : ∀ rule ∈ rules, rule.alertType ∉ rest → rule ∉ next :: todo →
      Settled e l history rule) :
    ∀ rule ∈ rules, rule.alertType ∉ rest → rule ∉ todo → Settled e l history rule := by
  intro rule hrule hrest hout
  by_cases hsame : rule = next
  · rwa [hsame]
  · exact hsettled rule hrule hrest (by simp [hsame, hout])

/-- The step of a digest of the event. -/
theorem Surviving.advance (h : Surviving e l s) (freshId : Uuid) (now : Int) (suppressed : Bool)
    (hstage : StageOk e l s.rules s.history stage) :
    StageOk e l s.rules (s.advance config b e.key freshId now suppressed stage).1.history
      (s.advance config b e.key freshId now suppressed stage).2 := by
  cases stage with
  | reading =>
      show StageOk e l s.rules s.history (s.read e.key)
      unfold AlertServer.read
      split
      · exact stageOk_stageAfter _
      · exact stageOk_stageAfter _
      · next project f _ hfile =>
          split_ifs
          · exact stageOk_stageAfter _
          · exact h.files f (mem_of_lookup hfile) (key_of_lookup hfile)
  | checking event project =>
      obtain rfl : event = e := hstage
      show StageOk event l s.rules s.history (s.check event project)
      unfold AlertServer.check
      split
      · next row hrow => exact StageOk.replay h.stored h.muted hrow
      · rfl
  | measuring event project =>
      obtain rfl : event = e := hstage
      show StageOk event l s.rules s.history (s.measure config event project now)
      unfold AlertServer.measure
      split_ifs
      · trivial
      · rfl
  | writing event =>
      obtain rfl : event = e := hstage
      show StageOk event l s.rules (s.write config event freshId now).1.history
        (s.write config event freshId now).2
      unfold AlertServer.write
      split
      · next hwrite =>
          -- The transaction of an event that is stored does not come to its end.
          exact absurd h.stored.hasEvent (Bool.eq_false_iff.mp (writeDigestOnce_written hwrite).fresh)
      · trivial
      · exact stageOk_stageAfter _
  | triggering trigger types =>
      obtain ⟨hevent, htrigger, htypes, hsettled⟩ := hstage
      cases types with
      | nil => exact fun rule hrule => hsettled rule hrule (List.not_mem_nil)
      | cons alertType rest =>
          have htrigger := htrigger.resolve_left (List.cons_ne_nil _ _)
          refine ⟨htrigger, htypes, ?_, ?_⟩
          · intro rule hrule
            obtain ⟨hmem, hfields⟩ := List.mem_filter.mp hrule
            simp only [Bool.and_eq_true, beq_iff_eq] at hfields
            exact ⟨hmem, hfields.1.1, hfields.1.2, hfields.2⟩
          · rintro - rule hrule hrest hout hmatches
            by_cases htype : rule.alertType = alertType
            · refine absurd (List.mem_filter.mpr ⟨hrule, ?_⟩) hout
              simp only [Bool.and_eq_true, beq_iff_eq]
              exact ⟨⟨hmatches.project, htype⟩, hmatches.enabled⟩
            · exact hsettled rule hrule (by simp [htype, hrest]) hmatches
  | firing trigger alertType todo failed rest =>
      obtain ⟨htrigger, htypes, htodo, hsettled⟩ := hstage
      cases todo with
      | nil =>
          cases failed with
          | true => trivial
          | false =>
              refine ⟨by rw [htrigger], .inr htrigger,
                fun other hother => htypes other (List.mem_cons_of_mem _ hother), ?_⟩
              exact fun rule hrule hrest => hsettled rfl rule hrule hrest (List.not_mem_nil)
      | cons next todo =>
          obtain ⟨hmem, hproject, htype, henabled⟩ := htodo next (List.mem_cons_self ..)
          show StageOk e l s.rules s.history (s.fire b trigger alertType next todo failed rest)
          unfold AlertServer.fire
          split
          · next hnone =>
              rw [htrigger, ← htype] at hnone
              refine ⟨htrigger, htypes, fun rule hrule => htodo rule (List.mem_cons_of_mem _ hrule),
                fun hfailed => settled_cons next ?_ (hsettled hfailed)⟩
              exact settled_of_evaluate h.sound h.nodup h.rows hmem hnone
          · next hfires =>
              rw [htrigger] at hfires ⊢
              exact ⟨rfl, htypes, htodo, ⟨conditions_of_evaluate hfires,
                channels_of_evaluate h.nodup hmem hfires⟩, hsettled⟩
  | recording trigger alertType next channels todo failed rest =>
      obtain ⟨htrigger, htypes, htodo, ⟨hconditions, hchannels⟩, hsettled⟩ := hstage
      obtain ⟨hmem, hproject, htype, henabled⟩ := htodo next (List.mem_cons_self ..)
      have hrest : ∀ rule ∈ todo, rule ∈ s.rules ∧ rule.projectId = e.write.projectId ∧
          rule.alertType = alertType ∧ rule.isEnabled = true :=
        fun rule hrule => htodo rule (List.mem_cons_of_mem _ hrule)
      unfold AlertServer.advance
      dsimp only
      split_ifs
      · refine ⟨htrigger, htypes, hrest, fun hfailed => settled_cons next ?_ ?_⟩
        · intro _
          subst htype hchannels
          rw [htrigger]
          exact .inl (recorded_record h.sound h.rows)
        · intro rule hrule hrest hout
          exact (hsettled hfailed rule hrule hrest hout).mono fun _ => subset_recordRows
      · exact ⟨htrigger, htypes, hrest, fun hfailed => absurd hfailed (by decide)⟩
  | releasing => trivial
  | dropping => trivial
  | rejecting => trivial
  | ended => trivial

end Rustrak.Alerts
