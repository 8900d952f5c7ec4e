import Rustrak.Alerts.Settled

/-!
# No alert is lost by a crash

The file of an event is deleted behind the last rule, and by a digest that drops the event.
The second is harmless only where nobody else has the event in hand (`Careful`).  So before the
commit whoever has read the event has its file behind it (`Unstored`), and after the commit the
file is there until the rules are settled (`Surviving`).
-/

namespace Rustrak.Alerts

open Rustrak.Core Rustrak.Digest Rustrak.Quota Rustrak.Relational Rustrak.Transition

/-- A digest deletes the file of an event it drops only while the event is not stored and no
other digest has read it. -/
def Careful (key : Int × Uuid) (s : AlertServer) : AlertLabel → Prop
  | .advance i _ _ _ => ∀ t, s.tasks[i]? = some t → t.key = key →
      t.stage = .dropping ∨ t.stage = .rejecting →
      s.db.hasEvent key.1 key.2 = false ∧ ∀ t' ∈ s.tasks, t'.key = key → t'.stage.event = none
  | _ => True

/-- A step before the event is stored. -/
def BeforeSteps (config : RateLimitConfig) (b : Backend) (e : PendingEvent) (s : AlertServer)
    (label : AlertLabel) (s' : AlertServer) : Prop :=
  AlertSteps config b s label s' ∧ SameEvent e label ∧ Careful e.key s label ∧
    s'.db.hasEvent e.key.1 e.key.2 = false

/-- A step after the event is stored. -/
def AfterSteps (config : RateLimitConfig) (b : Backend) (e : PendingEvent) (l : Landed)
    (s : AlertServer) (label : AlertLabel) (s' : AlertServer) : Prop :=
  AlertSteps config b s label s' ∧ SameEvent e label ∧ Careful e.key s label ∧ Fixed l label

variable {config : RateLimitConfig} {b : Backend} {s s' : AlertServer} {label : AlertLabel}
  {e : PendingEvent} {l : Landed} {stage : DigestStage}

/-! ## After the commit -/

theorem deletes_of_fixed (h : Fixed l label) : label.deletes = false := by
  cases label with
  | setRules rules => exact h.elim
  | retain projectId cutoff limit picked => exact h.elim
  | deleteIssue issueId => exact h.elim
  | _ => rfl

theorem mem_history_of_fixed (hstep : AlertSteps config b s label s') (hfixed : Fixed l label) :
    ∀ row ∈ s.history, row ∈ s'.history := by
  have hchange := alertStep_history hstep
  generalize s'.history = history at hchange
  cases hchange with
  | same => exact fun _ h => h
  | fade f hdeletes _ => exact absurd hdeletes (Bool.eq_false_iff.mp (deletes_of_fixed hfixed))
  | record _ _ => exact fun _ => subset_recordRows

theorem StageOk.failRule {rules : List AlertRule} {history : List AlertRow} {next : DigestStage}
    (h : StageOk e l rules history stage) (hfail : stage.failRule = some next) :
    StageOk e l rules history next := by
  unfold DigestStage.failRule at hfail
  split at hfail
  · obtain rfl := Option.some.inj hfail
    obtain ⟨htrigger, htypes, htodo, _⟩ := h
    exact ⟨htrigger, htypes, fun rule hrule => htodo rule (List.mem_cons_of_mem _ hrule),
      fun hfailed => absurd hfailed (by decide)⟩
  · obtain rfl := Option.some.inj hfail
    obtain ⟨htrigger, htypes, htodo, _⟩ := h
    exact ⟨htrigger, htypes, fun rule hrule => htodo rule (List.mem_cons_of_mem _ hrule),
      fun hfailed => absurd hfailed (by decide)⟩
  · contradiction

theorem Surviving.step_stages (h : Surviving e l s) (hstep : AlertSteps config b s label s')
    (hrules : s'.rules = s.rules) (hhistory : ∀ row ∈ s.history, row ∈ s'.history) :
    ∀ t ∈ s'.tasks, t.key = e.key → StageOk e l s'.rules s'.history t.stage := by
  intro t ht hkey
  rw [hrules]
  cases alertStep_task hstep ht with
  | same hold => exact (h.stages t hold hkey).mono hhistory
  | begun => trivial
  | ended _ => trivial
  | failed hold hfail => exact ((h.stages _ hold hkey).failRule hfail).mono hhistory
  | @advanced i freshId now suppressed t hold =>
      obtain ⟨t', ht', rfl⟩ := Option.map_eq_some_iff.mp hstep
      obtain rfl := Option.some.inj (hold.symm.trans ht')
      have hadvance : StageOk e l s.rules (s.advance config b e.key freshId now suppressed
          t.stage).1.history _ :=
        h.advance freshId now suppressed (h.stages t (List.mem_of_getElem? hold) hkey)
      rw [← hkey] at hadvance
      exact hadvance

theorem Surviving.step_rows (h : Surviving e l s) (hstep : AlertSteps config b s label s')
    (hfixed : Fixed l label) : RowsOk e l s.rules s'.history := by
  have hchange := alertStep_history hstep
  generalize s'.history = history at hchange
  cases hchange with
  | same => exact h.rows
  | fade f hdeletes _ => exact absurd hdeletes (Bool.eq_false_iff.mp (deletes_of_fixed hfixed))
  | @record t trigger alertType next channels todo failed rest suppressed ht hstage =>
      by_cases hkey : t.key = e.key
      · have hok := h.stages t ht hkey
        rw [hstage] at hok
        obtain ⟨htrigger, htypes, htodo, ⟨hconditions, hchannels⟩, _⟩ := hok
        obtain ⟨hmem, hproject, htype, henabled⟩ := htodo next (List.mem_cons_self ..)
        subst htype hchannels
        rw [htrigger]
        exact h.rows.record h.sound hmem
          ⟨henabled, hproject, htypes _ (List.mem_cons_self ..), hconditions⟩
      · refine h.rows.record_other fun hsame => hkey ?_
        rw [← hsame]
        exact (h.keyed t ht _ (by rw [hstage]; rfl)).symm

theorem Surviving.step (h : Surviving e l s) (hstep : AfterSteps config b e l s label s') :
    Surviving e l s' := by
  obtain ⟨hstep, hsame, hcareful, hfixed⟩ := hstep
  have hframe := alertStep_frame hstep
  have hhistory := mem_history_of_fixed hstep hfixed
  have hrules : s'.rules = s.rules := by
    rcases hframe.rules with hrules | ⟨rfl, _⟩
    · exact hrules
    · exact hfixed.elim
  refine ⟨h.toKept.step hstep hsame, h.stored.step hstep hfixed, h.muted,
    h.step_stages hstep hrules hhistory, hrules ▸ h.step_rows hstep hfixed, ?_⟩
  intro hgone rule hrule
  rw [hrules] at hrule
  refine Settled.mono ?_ hhistory
  cases hfile : s.file e.key with
  | none => exact h.gone hfile rule hrule
  | some f =>
      obtain ⟨i, freshId, now, suppressed, t, rfl, ht, hkey, hdeleting⟩ :=
        hframe.gone e.key (by rw [hfile]; rfl) hgone
      have hok := h.stages t (List.mem_of_getElem? ht) hkey
      have hdrops : t.stage ≠ .dropping ∧ t.stage ≠ .rejecting := by
        refine not_or.mp fun hdrops => ?_
        have hunstored := (hcareful t ht hkey hdrops).1
        rw [h.stored.hasEvent] at hunstored
        contradiction
      cases hstage : t.stage with
      | releasing =>
          rw [hstage] at hok
          exact hok rule hrule
      | dropping => exact absurd hstage hdrops.1
      | rejecting => exact absurd hstage hdrops.2
      | _ =>
          rw [hstage] at hdeleting
          contradiction

/-! ## Before the commit -/

/-- Where a digest of an event can be that is not stored. -/
def StageEarly (e : PendingEvent) : DigestStage → Prop
  | .checking event _ | .measuring event _ | .writing event => event = e
  | .reading | .dropping | .rejecting | .ended => True
  | .triggering _ _ | .firing _ _ _ _ _ | .recording _ _ _ _ _ _ _ | .releasing => False

structure Unstored (e : PendingEvent) (s : AlertServer) : Prop extends Kept e s where
  absent : s.db.hasEvent e.key.1 e.key.2 = false
  early : ∀ t ∈ s.tasks, t.key = e.key → StageEarly e t.stage
  /-- Whoever has read the event has its file behind it. -/
  file : ∀ t ∈ s.tasks, t.key = e.key → t.stage.event ≠ none → (s.file e.key).isSome = true
  rows : ∀ row ∈ s.history, ∀ alertType, row.alertId ≠ e.alertId alertType

theorem Unstored.fresh (e : PendingEvent) (projectIds : List Int) :
    Unstored e (.fresh projectIds) where
  toKept := .fresh e projectIds
  absent := rfl
  early := by simp [AlertServer.fresh]
  file := by simp [AlertServer.fresh]
  rows := by simp [AlertServer.fresh]

theorem stageEarly_stageAfter (error : AppError) : StageEarly e (AlertServer.stageAfter error) := by
  unfold AlertServer.stageAfter
  split_ifs <;> trivial

theorem StageEarly.stageOk (h : StageEarly e stage) {rules : List AlertRule}
    {history : List AlertRow} : StageOk e l rules history stage := by
  cases stage <;> first | exact h | exact h.elim

/-- A digest of the event that does not commit stays early. -/
theorem Unstored.advance (h : Unstored e s) {freshId : Uuid} {now : Int} {suppressed : Bool}
    (hstage : StageEarly e stage)
    (habsent : (s.advance config b e.key freshId now suppressed stage).1.db.hasEvent e.key.1 e.key.2 =
      false) : StageEarly e (s.advance config b e.key freshId now suppressed stage).2 := by
  cases stage with
  | reading =>
      show StageEarly e (s.read e.key)
      unfold AlertServer.read
      split
      · exact stageEarly_stageAfter _
      · exact stageEarly_stageAfter _
      · next project f _ hfile =>
          split_ifs
          · exact stageEarly_stageAfter _
          · exact h.files f (mem_of_lookup hfile) (key_of_lookup hfile)
  | checking event project =>
      obtain rfl : event = e := hstage
      show StageEarly event (s.check event project)
      unfold AlertServer.check
      split
      · next row hrow =>
          have hpresent : s.db.hasEvent event.key.1 event.key.2 = true :=
            Option.isSome_iff_exists.mpr ⟨row, hrow⟩
          rw [h.absent] at hpresent
          contradiction
      · rfl
  | measuring event project =>
      obtain rfl : event = e := hstage
      show StageEarly event (s.measure config event project now)
      unfold AlertServer.measure
      split_ifs
      · trivial
      · rfl
  | writing event =>
      obtain rfl : event = e := hstage
      change (s.write config event freshId now).1.db.hasEvent event.key.1 event.key.2 = false at habsent
      show StageEarly event (s.write config event freshId now).2
      unfold AlertServer.write at habsent ⊢
      split
      · next db issueId created regressed hwrite =>
          simp only [hwrite] at habsent
          split
          · trivial
          · next issue hissue =>
              simp only [hissue] at habsent
              have hpresent : db.hasEvent event.key.1 event.key.2 = true :=
                hasEvent_written (writeDigestOnce_written hwrite)
              rw [habsent] at hpresent
              contradiction
      · trivial
      · exact stageEarly_stageAfter _
  | triggering trigger types => exact hstage.elim
  | firing trigger alertType todo failed rest => exact hstage.elim
  | recording trigger alertType next channels todo failed rest => exact hstage.elim
  | releasing => exact hstage.elim
  | dropping => trivial
  | rejecting => trivial
  | ended => trivial

theorem Unstored.step (h : Unstored e s) (hstep : BeforeSteps config b e s label s') :
    Unstored e s' := by
  obtain ⟨hstep, hsame, hcareful, habsent⟩ := hstep
  refine ⟨h.toKept.step hstep hsame, habsent, ?_, ?_, ?_⟩
  · intro t ht hkey
    cases alertStep_task hstep ht with
    | same hold => exact h.early t hold hkey
    | begun => trivial
    | ended _ => trivial
    | @failed _ t stage hold hfail =>
        have hearly := h.early t hold hkey
        unfold DigestStage.failRule at hfail
        split at hfail
        · next hstage =>
            rw [hstage] at hearly
            exact hearly.elim
        · next hstage =>
            rw [hstage] at hearly
            exact hearly.elim
        · contradiction
    | @advanced i freshId now suppressed t hold =>
        obtain ⟨t', ht', rfl⟩ := Option.map_eq_some_iff.mp hstep
        obtain rfl := Option.some.inj (hold.symm.trans ht')
        change t.key = e.key at hkey
        show StageEarly e (s.advance config b t.key freshId now suppressed t.stage).2
        change (s.advance config b t.key freshId now suppressed t.stage).1.db.hasEvent _ _ = false
          at habsent
        rw [hkey] at habsent ⊢
        exact h.advance (h.early t (List.mem_of_getElem? hold) hkey) habsent
  · intro t ht hkey hread
    by_contra hgone
    rw [Option.not_isSome_iff_eq_none] at hgone
    have hold : ∀ t ∈ s.tasks, t.key = e.key → t.stage.event = none := by
      intro t ht hkey
      by_contra hread
      obtain ⟨i, freshId, now, suppressed, t₀, rfl, ht₀, hkey₀, hdeleting⟩ :=
        (alertStep_frame hstep).gone e.key (h.file t ht hkey hread) hgone
      have hearly := h.early t₀ (List.mem_of_getElem? ht₀) hkey₀
      have hdrops : t₀.stage = .dropping ∨ t₀.stage = .rejecting := by
        cases hstage : t₀.stage with
        | dropping => exact .inl rfl
        | rejecting => exact .inr rfl
        | releasing =>
            rw [hstage] at hearly
            exact hearly.elim
        | _ =>
            rw [hstage] at hdeleting
            contradiction
      exact hread ((hcareful t₀ ht₀ hkey₀ hdrops).2 t ht hkey)
    cases alertStep_task hstep ht with
    | same hmem => exact hread (hold t hmem hkey)
    | begun => exact hread rfl
    | ended _ => exact hread rfl
    | failed hmem hfail => exact hread ((event_failRule hfail).trans (hold _ hmem hkey))
    | @advanced i freshId now suppressed t hmem =>
        obtain ⟨f, hf⟩ := Option.ne_none_iff_exists'.mp hread
        rcases event_of_advance hf with hf | ⟨hstage, hfile⟩
        · rw [hold t (List.mem_of_getElem? hmem) hkey] at hf
          contradiction
        · -- Reading deletes no file.
          rw [show t.key = e.key from hkey] at hfile
          obtain ⟨i', _, _, _, t', hlabel, ht', _, hdeleting⟩ :=
            (alertStep_frame hstep).gone e.key (by rw [hfile]; rfl) hgone
          obtain ⟨rfl, _, _, _⟩ := AlertLabel.advance.inj hlabel
          obtain rfl := Option.some.inj (hmem.symm.trans ht')
          rw [hstage] at hdeleting
          contradiction
  · have hchange := alertStep_history hstep
    generalize s'.history = history at hchange
    intro row hrow alertType
    cases hchange with
    | same => exact h.rows row hrow alertType
    | fade f _ hf =>
        obtain ⟨old, hold, rfl⟩ := List.mem_map.mp hrow
        rw [(hf old).rest]
        exact h.rows old hold alertType
    | @record t trigger alertType' next channels todo failed rest suppressed ht hstage =>
        rcases mem_recordRows hrow with hold | ⟨channel, _, rfl⟩
        · exact h.rows row hold alertType
        · intro halert
          have hkey : t.key = e.key := by
            rw [← (alertId_inj halert).1]
            exact (h.keyed t ht _ (by rw [hstage]; rfl)).symm
          have hearly := h.early t ht hkey
          rw [hstage] at hearly
          exact hearly.elim

/-- What a digest finds that commits the event. -/
theorem Unstored.commit (h : Unstored e s) (hcommit : Commits config b s label s' e l)
    (hcategory : ∀ issue, s'.db.issue l.issueId = some issue →
      (issue.category == .feedback) = e.isFeedback) : Surviving e l s' := by
  have hmarks : lookup EventMark.key e.key s.marks = none := by
    rw [lookup_eq_none_iff]
    intro m hm hkey
    have hpresent := h.marks m hm
    rw [hkey, h.absent] at hpresent
    contradiction
  have hstored := hcommit.stored hmarks hcategory
  have hmuted := hcommit.lifecycle_of_muted
  have hsame : SameEvent e label := by
    obtain ⟨_, _, _, _, _, _, _, _, _, _, _, rfl, _⟩ := hcommit
    trivial
  have hkept := h.toKept.step hcommit.1 hsame
  obtain ⟨i, t, db, freshId, now, landing, ht, hstage, hwritten, hid, _, rfl⟩ := hcommit.eq
  have hmem := List.mem_of_getElem? ht
  have hkey : e.key = t.key := h.keyed t hmem e (by rw [hstage]; rfl)
  refine ⟨hkept, hstored, hmuted, ?_, ?_, ?_⟩
  · intro t' ht' hkey'
    rcases List.mem_or_eq_of_mem_set ht' with ht' | rfl
    · exact (h.early t' ht' hkey').stageOk
    · refine ⟨rfl, .inr rfl, fun _ htype => htype, fun rule _ hout hmatches => ?_⟩
      exact absurd hmatches.alertType hout
  · intro row hrow alertType halert
    exact absurd halert (h.rows row hrow alertType)
  · intro hgone
    have hfile := h.file t hmem hkey.symm (by rw [hstage]; exact Option.some_ne_none e)
    rw [show s.file e.key = none from hgone] at hfile
    contradiction

/-! ## The rows of an event -/

/-- Every rule that is to fire has one row for each of its channels, but for a new-issue rule
that had fired for the issue, and no other rule has a row. -/
def AlertServer.AlertedOnce (s : AlertServer) (e : PendingEvent) (l : Landed) : Prop :=
  (∀ rule ∈ s.rules, Matches e l rule →
    (∀ channel ∈ rule.channels, (s.history.countP fun row => row.ruleId == some rule.id &&
      row.integrationId == channel && row.alertId == e.alertId rule.alertType) = 1) ∨
    FiredForOther e l s.history rule) ∧
  ∀ row ∈ s.history, ∀ alertType, row.alertId = e.alertId alertType →
    ∃ rule ∈ s.rules, Matches e l rule ∧ rule.alertType = alertType ∧ row.ruleId = some rule.id ∧
      row.integrationId ∈ rule.channels

theorem count_eq_one (hsound : SoundHistory s) {rule : AlertRule} {alertId : String}
    (h : Recorded s.history alertId rule) : ∀ channel ∈ rule.channels,
    (s.history.countP fun row => row.ruleId == some rule.id && row.integrationId == channel &&
      row.alertId == alertId) = 1 := by
  intro channel hchannel
  obtain ⟨row, hrow, hrule, hsame, halert⟩ := h channel hchannel
  have hone : s.history.count row = 1 :=
    List.count_eq_one_of_mem (List.Nodup.of_map _ hsound.keys) hrow
  rw [← hone]
  refine List.countP_congr fun other hother => ?_
  simp only [Bool.and_eq_true, beq_iff_eq]
  constructor
  · rintro ⟨⟨hotherRule, hotherSame⟩, hotherAlert⟩
    exact hsound.eq_of_same hother hrow hotherRule hrule (hotherSame.trans hsame.symm)
      (hotherAlert.trans halert.symm)
  · rintro rfl
    exact ⟨⟨hrule, hsame⟩, halert⟩

theorem Surviving.alertedOnce (h : Surviving e l s) (hgone : s.file e.key = none) :
    s.AlertedOnce e l := by
  constructor
  · intro rule hrule hmatches
    rcases h.gone hgone rule hrule hmatches with hrecorded | hfired
    · exact .inl (count_eq_one h.sound hrecorded)
    · exact .inr hfired
  · intro row hrow alertType halert
    obtain ⟨rule, hrule, hmatches, htype, hid, hchannel, _⟩ := h.rows row hrow alertType halert
    exact ⟨rule, hrule, hmatches, htype, hid, hchannel⟩

/-! ## Runs -/

/-- What the step of a digest commits, computed. -/
def committed (config : RateLimitConfig) (s : AlertServer) : AlertLabel → Option (PendingEvent × Landed)
  | .advance i freshId now _ => s.tasks[i]?.bind fun t =>
      match t.stage with
      | .writing event =>
          match writeDigestRows config s.db event.write freshId now with
          | .ok (db, .written issueId created regressed) => (db.issue issueId).map fun issue =>
              (event, ⟨issueId, alertTypeForLifecycle created regressed event.isFeedback,
                isMuted issue, issue.digestedEventCount⟩)
          | _ => none
      | _ => none
  | _ => none

theorem commits_of_committed (hstep : AlertSteps config b s label s')
    (h : committed config s label = some (e, l)) : Commits config b s label s' e l := by
  refine ⟨hstep, ?_⟩
  cases label with
  | advance i freshId now suppressed =>
      obtain ⟨t, ht, h⟩ := Option.bind_eq_some_iff.mp h
      split at h
      · next event hstage =>
          split at h
          · next db issueId created regressed hwrite =>
              obtain ⟨issue, hissue, heq⟩ := Option.map_eq_some_iff.mp h
              obtain ⟨rfl, rfl⟩ := Prod.mk.inj heq
              exact ⟨i, freshId, now, suppressed, t, db, issueId, created, regressed, issue, rfl, ht,
                hstage, hwrite, hissue, rfl⟩
          · contradiction
      · contradiction
  | _ => contradiction

instance (e : PendingEvent) (label : AlertLabel) : Decidable (SameEvent e label) := by
  cases label with
  | deliver event => exact inferInstanceAs (Decidable (event.key = e.key → event = e))
  | _ => exact isTrue trivial

instance (key : Int × Uuid) (s : AlertServer) (label : AlertLabel) :
    Decidable (Careful key s label) := by
  cases label with
  | advance i freshId now suppressed =>
      exact inferInstanceAs (Decidable (∀ t ∈ s.tasks[i]?, t.key = key →
        t.stage = .dropping ∨ t.stage = .rejecting →
        s.db.hasEvent key.1 key.2 = false ∧
          ∀ t' ∈ s.tasks, t'.key = key → t'.stage.event = none))
  | _ => exact isTrue trivial

instance (l : Landed) (label : AlertLabel) : Decidable (Fixed l label) := by
  cases label with
  | setStatus issueId status inNextRelease =>
      exact inferInstanceAs (Decidable (issueId = l.issueId → (status == .ignored) = l.muted))
  | setRules rules => exact isFalse id
  | retain projectId cutoff limit picked => exact isFalse id
  | deleteIssue issueId => exact isFalse id
  | _ => exact isTrue trivial

/-- A run to a commit and one from it, computed. -/
theorem runs_of_any (config : RateLimitConfig) (b : Backend) (e : PendingEvent) (l : Landed)
    (guardBefore guardAfter : AlertServer → AlertLabel → Prop)
    [∀ s label, Decidable (guardBefore s label)] [∀ s label, Decidable (guardAfter s label)]
    (before : List AlertLabel) (label : AlertLabel) (after : List AlertLabel)
    (P : AlertServer → Bool)
    (h : (before.foldlM (fun s label =>
        if guardBefore s label then alertStep config b s label else none) (.fresh [1])).any (fun s =>
      (alertStep config b s label).any fun mid => decide (committed config s label = some (e, l)) &&
        (mid.db.issue l.issueId).all (fun issue => (issue.category == .feedback) == e.isFeedback) &&
        (after.foldlM (fun s label =>
          if guardAfter s label then alertStep config b s label else none) mid).any P) = true) :
    ∃ s mid final,
      Run (fun s label s' => AlertSteps config b s label s' ∧ guardBefore s label) (.fresh [1])
        before s ∧
      Commits config b s label mid e l ∧
      (∀ issue, mid.db.issue l.issueId = some issue → (issue.category == .feedback) = e.isFeedback) ∧
      Run (fun s label s' => AlertSteps config b s label s' ∧ guardAfter s label) mid after final ∧
      P final = true := by
  obtain ⟨s, hs, h⟩ := (Option.any_eq_true _ _).mp h
  obtain ⟨mid, hmid, h⟩ := (Option.any_eq_true _ _).mp h
  obtain ⟨h, hafter⟩ := Bool.and_eq_true_iff.mp h
  obtain ⟨hcommitted, hcategory⟩ := Bool.and_eq_true_iff.mp h
  obtain ⟨final, hfinal, hP⟩ := (Option.any_eq_true _ _).mp hafter
  have hcommit := commits_of_committed hmid (of_decide_eq_true hcommitted)
  refine ⟨s, mid, final, Run.of_foldlM_guard hs, hcommit, fun issue hissue => ?_,
    Run.of_foldlM_guard hfinal, hP⟩
  rw [hissue] at hcategory
  exact beq_iff_eq.mp hcategory

/-- What the first error of a fresh project brings about. -/
def firstLanding : Landed := ⟨"issue", some .newIssue, false, 1⟩

/-- Where no digest drops an event that is stored or in another's hands, every rule that is to
fire for a stored event has its rows once the file is gone, whatever crashed on the way. -/
theorem alerts_survive_crashes {projectIds : List Int} {before after : List AlertLabel}
    {mid final : AlertServer} (hbefore : Run (BeforeSteps config b e) (.fresh projectIds) before s)
    (hcommit : Commits config b s label mid e l)
    (hcategory : ∀ issue, mid.db.issue l.issueId = some issue →
      (issue.category == .feedback) = e.isFeedback)
    (hafter : Run (AfterSteps config b e l) mid after final) (hgone : final.file e.key = none) :
    final.AlertedOnce e l := by
  have hunstored := hbefore.invariant (Unstored e) (fun _ _ _ h hstep => h.step hstep)
    (.fresh e projectIds)
  have hmid := hunstored.commit hcommit hcategory
  have hfinal := hafter.invariant (Surviving e l) (fun _ _ _ h hstep => h.step hstep) hmid
  exact hfinal.alertedOnce hgone

/-- The digest crashes as soon as it has committed, and the file is taken up again. -/
def recovered : List AlertLabel :=
  [.crash 0, .recover firstEvent.key] ++ advances 1 8

theorem alerts_survive_crashes_recovered : ∃ s mid final,
    Run (BeforeSteps ⟨⟨1000, 10000⟩, ⟨1000, 10000⟩⟩ .postgres firstEvent) (.fresh [1])
      ([.setRules [newIssueRule 1], .deliver firstEvent] ++ advances 0 3) s ∧
    Commits ⟨⟨1000, 10000⟩, ⟨1000, 10000⟩⟩ .postgres s (.advance 0 "issue" 0 false) mid firstEvent
      firstLanding ∧
    Run (AfterSteps ⟨⟨1000, 10000⟩, ⟨1000, 10000⟩⟩ .postgres firstEvent firstLanding) mid
      recovered final ∧
    final.history.length = 1 ∧ final.AlertedOnce firstEvent firstLanding := by
  obtain ⟨s, mid, final, hbefore, hcommit, hcategory, hafter, hend⟩ := runs_of_any
    ⟨⟨1000, 10000⟩, ⟨1000, 10000⟩⟩ .postgres firstEvent firstLanding
    (fun s label => SameEvent firstEvent label ∧ Careful firstEvent.key s label ∧
      ∀ s' ∈ alertStep ⟨⟨1000, 10000⟩, ⟨1000, 10000⟩⟩ .postgres s label,
        s'.db.hasEvent firstEvent.key.1 firstEvent.key.2 = false)
    (fun s label => SameEvent firstEvent label ∧ Careful firstEvent.key s label ∧
      Fixed firstLanding label)
    ([.setRules [newIssueRule 1], .deliver firstEvent] ++ advances 0 3) (.advance 0 "issue" 0 false)
    recovered (fun final => (final.file firstEvent.key).isNone && final.history.length == 1)
    (by decide +kernel)
  have hbefore := hbefore.mono fun s label s' ⟨hstep, hsame, hcareful, hfree⟩ =>
    (⟨hstep, hsame, hcareful, hfree s' hstep⟩ : BeforeSteps _ _ _ s label s')
  obtain ⟨hgone, hlength⟩ := Bool.and_eq_true_iff.mp hend
  exact ⟨s, mid, final, hbefore, hcommit, hafter, beq_iff_eq.mp hlength,
    alerts_survive_crashes hbefore hcommit hcategory hafter (Option.isNone_iff_eq_none.mp hgone)⟩

/-- Two digests of one delivery each find the event not stored.  The first commits, which fills
the quota of the installation, the second drops the event, and the first crashes before it
fires. -/
def dropped : List AlertLabel := advances 1 2 ++ [.crash 0]

theorem dropped_alert_is_lost : ∃ s mid final,
    Run (fun s label s' => AlertSteps ⟨⟨1, 10000⟩, ⟨1000, 10000⟩⟩ .postgres s label s' ∧
      SameEvent firstEvent label) (.fresh [1])
      ([.setRules [newIssueRule 1], .deliver firstEvent, .deliver firstEvent] ++ advances 0 2 ++
        advances 1 2 ++ advances 0 1) s ∧
    Commits ⟨⟨1, 10000⟩, ⟨1000, 10000⟩⟩ .postgres s (.advance 0 "issue" 0 false) mid firstEvent
      firstLanding ∧
    Run (fun s label s' => AlertSteps ⟨⟨1, 10000⟩, ⟨1000, 10000⟩⟩ .postgres s label s' ∧
      SameEvent firstEvent label ∧ Fixed firstLanding label) mid dropped final ∧
    final.db.hasEvent firstEvent.key.1 firstEvent.key.2 = true ∧
    final.file firstEvent.key = none ∧ Matches firstEvent firstLanding (newIssueRule 1) ∧
    final.history = [] ∧ ¬final.AlertedOnce firstEvent firstLanding := by
  obtain ⟨s, mid, final, hbefore, hcommit, _, hafter, hend⟩ := runs_of_any
    ⟨⟨1, 10000⟩, ⟨1000, 10000⟩⟩ .postgres firstEvent firstLanding
    (fun _ label => SameEvent firstEvent label)
    (fun _ label => SameEvent firstEvent label ∧ Fixed firstLanding label)
    ([.setRules [newIssueRule 1], .deliver firstEvent, .deliver firstEvent] ++ advances 0 2 ++
      advances 1 2 ++ advances 0 1) (.advance 0 "issue" 0 false) dropped
    (fun final => final.db.hasEvent firstEvent.key.1 firstEvent.key.2 &&
      (final.file firstEvent.key).isNone && final.history == [] && final.rules == [newIssueRule 1])
    (by decide +kernel)
  simp only [Bool.and_eq_true, Option.isNone_iff_eq_none, beq_iff_eq] at hend
  obtain ⟨⟨⟨hstored, hgone⟩, hhistory⟩, hrules⟩ := hend
  have hmatches : Matches firstEvent firstLanding (newIssueRule 1) :=
    ⟨rfl, rfl, by decide, by decide⟩
  refine ⟨s, mid, final, hbefore, hcommit, hafter, hstored, hgone, hmatches, hhistory, fun honce => ?_⟩
  rcases honce.1 (newIssueRule 1) (by rw [hrules]; exact List.mem_singleton_self _) hmatches with
    hrows | ⟨_, row, hrow, _⟩
  · have hone := hrows 7 (List.mem_singleton_self _)
    rw [hhistory] at hone
    contradiction
  · rw [hhistory] at hrow
    contradiction

end Rustrak.Alerts
