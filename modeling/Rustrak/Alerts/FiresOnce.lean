import Rustrak.Alerts.History

/-!
# A rule fires once for a new issue

Whether a rule has fired for an issue is asked before the transaction that records it, and
nothing in that transaction asks again.  A rule is spoken for an issue (`Claims`) from the
moment a digest has got its answer: by that digest while it is yet to commit, and by the rows
from then on.  Where no digest asks while one of another event stands in between (`Serial`),
a rule is spoken for one alert of an issue only, and whatever counts the events had is of no
matter.
-/

namespace Rustrak.Alerts

open Rustrak.Core Rustrak.Digest Rustrak.Quota Rustrak.Relational Rustrak.Transition

/-- The rule and the issue a new-issue row is of. -/
def AlertRow.firing (row : AlertRow) : Option (Int × Uuid) :=
  match row.alertType, row.ruleId, row.issueId with
  | .newIssue, some ruleId, some issueId => some (ruleId, issueId)
  | _, _, _ => none

/-- The rule, the issue and the alert a digest is to record. -/
def DigestStage.recordingFor : DigestStage → Option ((Int × Uuid) × String)
  | .recording trigger .newIssue rule _ _ _ _ =>
      some ((rule.id, trigger.issueId), trigger.alertId .newIssue)
  | _ => none

/-- The rule, the issue and the alert a digest is about to ask for. -/
def DigestStage.askingFor : DigestStage → Option ((Int × Uuid) × String)
  | .firing trigger .newIssue (rule :: _) _ _ =>
      some ((rule.id, trigger.issueId), trigger.alertId .newIssue)
  | _ => none

/-- The rule is spoken for: it has fired for the issue with this alert, or is about to. -/
def AlertServer.Claims (s : AlertServer) (firing : Int × Uuid) (alertId : String) : Prop :=
  (∃ row ∈ s.history, row.firing = some firing ∧ row.alertId = alertId) ∨
    ∃ t ∈ s.tasks, t.stage.recordingFor = some (firing, alertId)

/-- A digest asks whether a rule has fired for an issue only while no digest of another event
has its answer and is yet to commit. -/
def Serial (s : AlertServer) : AlertLabel → Prop
  | .advance i _ _ _ => ∀ t firing alertId other, s.tasks[i]? = some t →
      t.stage.askingFor = some (firing, alertId) →
      (∃ t' ∈ s.tasks, t'.stage.recordingFor = some (firing, other)) → other = alertId
  | _ => True

def SerialSteps (config : RateLimitConfig) (b : Backend) (s : AlertServer) (label : AlertLabel)
    (s' : AlertServer) : Prop :=
  AlertSteps config b s label s' ∧ Serial s label

/-- Each new-issue rule has recorded at most one alert for each issue, with one row for a
channel. -/
def AlertServer.FiresOnce (s : AlertServer) : Prop :=
  ∀ row ∈ s.history, ∀ row' ∈ s.history, ∀ firing,
    row.firing = some firing → row'.firing = some firing →
      row.alertId = row'.alertId ∧ (row.integrationId = row'.integrationId → row = row')

variable {config : RateLimitConfig} {b : Backend} {s s' : AlertServer} {label : AlertLabel}
  {row row' : AlertRow} {firing : Int × Uuid} {alertId alertId' : String}

theorem firing_eq_some : row.firing = some firing ↔ row.alertType = .newIssue ∧
    row.ruleId = some firing.1 ∧ row.issueId = some firing.2 := by
  unfold AlertRow.firing
  obtain ⟨ruleId, issueId⟩ := firing
  split
  · next htype hrule hissue => simp [htype, hrule, hissue]
  · next h =>
      constructor
      · intro hnone
        contradiction
      · rintro ⟨htype, hrule, hissue⟩
        exact absurd hissue (h _ _ htype hrule)

theorem Fades.firing_of_firing (h : Fades row row') (hfiring : row'.firing = some firing) :
    row.firing = some firing := by
  obtain ⟨htype, hrule, hissue⟩ := firing_eq_some.mp hfiring
  have hsame : row'.alertType = row.alertType := by rw [h.rest]
  exact firing_eq_some.mpr ⟨hsame ▸ htype, h.ruleId _ hrule, h.issueId _ hissue⟩

/-- The digest that is to record has asked, and the rule had not fired. -/
theorem recordingFor_advance {key : Int × Uuid} {freshId : Uuid} {now : Int} {suppressed : Bool}
    {stage : DigestStage} (h : (s.advance config b key freshId now suppressed stage).2.recordingFor =
      some (firing, alertId)) :
    stage.askingFor = some (firing, alertId) ∧ ∀ row ∈ s.history, row.firing ≠ some firing := by
  generalize hnext : (s.advance config b key freshId now suppressed stage).2 = next at h
  unfold DigestStage.recordingFor at h
  split at h
  · next trigger rule channels rules failed rest =>
      obtain ⟨rfl, hchannels, hfires⟩ := recording_of_advance hnext
      obtain ⟨rfl, rfl⟩ := Prod.mk.inj (Option.some.inj h)
      refine ⟨rfl, fun row hrow hsame => hfires ?_⟩
      obtain ⟨htype, hrule, hissue⟩ := firing_eq_some.mp hsame
      have hfired : fired s.history rule trigger.issueId .newIssue = true :=
        List.any_eq_true.mpr ⟨row, hrow, by simp [hrule, hissue, htype]⟩
      rw [← hchannels]
      unfold AlertServer.evaluate
      split_ifs <;> simp_all
  · contradiction

theorem recordingFor_failRule {stage next : DigestStage} (h : stage.failRule = some next) :
    next.recordingFor = none := by
  unfold DigestStage.failRule at h
  split at h
  · obtain rfl := Option.some.inj h
    rfl
  · obtain rfl := Option.some.inj h
    rfl
  · contradiction

/-- A rule that is spoken for after a step was so before, or the digest that went on has asked
and got the answer that it was not. -/
theorem claims_step (hstep : AlertSteps config b s label s') (h : s'.Claims firing alertId) :
    s.Claims firing alertId ∨ ∃ i freshId now suppressed t,
      label = .advance i freshId now suppressed ∧ s.tasks[i]? = some t ∧
      t.stage.askingFor = some (firing, alertId) ∧ ∀ row ∈ s.history, row.firing ≠ some firing := by
  rcases h with ⟨row, hrow, hfiring, halert⟩ | ⟨t', ht', hrecording⟩
  · left
    have hchange := alertStep_history hstep
    generalize s'.history = history at hchange hrow
    cases hchange with
    | same => exact .inl ⟨row, hrow, hfiring, halert⟩
    | fade f _ hf =>
        obtain ⟨old, hold, rfl⟩ := List.mem_map.mp hrow
        have hsame : (f old).alertId = old.alertId := by rw [(hf old).rest]
        exact .inl ⟨old, hold, (hf old).firing_of_firing hfiring, hsame ▸ halert⟩
    | record ht hstage =>
        rcases mem_recordRows hrow with hold | ⟨channel, _, rfl⟩
        · exact .inl ⟨row, hold, hfiring, halert⟩
        · refine .inr ⟨_, ht, ?_⟩
          obtain ⟨htype, hrule, hissue⟩ := firing_eq_some.mp hfiring
          obtain ⟨ruleId, issueId⟩ := firing
          obtain rfl : _ = AlertType.newIssue := htype
          obtain rfl : _ = ruleId := Option.some.inj hrule
          obtain rfl : _ = issueId := Option.some.inj hissue
          rw [hstage, ← halert]
          rfl
  · cases alertStep_task hstep ht' with
    | same ht => exact .inl (.inr ⟨t', ht, hrecording⟩)
    | begun => cases hrecording
    | ended ht => cases hrecording
    | failed ht hfail =>
        rw [recordingFor_failRule hfail] at hrecording
        contradiction
    | advanced ht =>
        obtain ⟨hasking, hrows⟩ := recordingFor_advance hrecording
        exact .inr ⟨_, _, _, _, _, rfl, ht, hasking, hrows⟩

/-- A rule is spoken for one alert of an issue. -/
def AlertServer.OneClaim (s : AlertServer) : Prop :=
  ∀ firing alertId alertId', s.Claims firing alertId → s.Claims firing alertId' →
    alertId = alertId'

/-- Who asks while nobody of another event stands in between has the same alert as whoever
speaks for the rule. -/
theorem eq_of_asked {i : Nat} {t : DigestTask} {freshId : Uuid} {now : Int} {suppressed : Bool}
    (hserial : Serial s (.advance i freshId now suppressed)) (ht : s.tasks[i]? = some t)
    (hasking : t.stage.askingFor = some (firing, alertId))
    (hrows : ∀ row ∈ s.history, row.firing ≠ some firing) (hother : s.Claims firing alertId') :
    alertId' = alertId := by
  rcases hother with ⟨row, hrow, hfiring, _⟩ | hrecording
  · exact absurd hfiring (hrows row hrow)
  · exact hserial t firing alertId alertId' ht hasking hrecording

theorem AlertServer.OneClaim.step (h : s.OneClaim) (hstep : SerialSteps config b s label s') :
    s'.OneClaim := by
  obtain ⟨hstep, hserial⟩ := hstep
  intro firing alertId alertId' hclaims hclaims'
  rcases claims_step hstep hclaims with hold | ⟨i, freshId, now, suppressed, t, rfl, ht, hasking, hrows⟩
  · rcases claims_step hstep hclaims' with hold' | ⟨i, _, _, _, t, rfl, ht, hasking, hrows⟩
    · exact h firing alertId alertId' hold hold'
    · exact eq_of_asked hserial ht hasking hrows hold
  · rcases claims_step hstep hclaims' with hold' | ⟨i', _, _, _, t', hlabel, ht', hasking', _⟩
    · exact (eq_of_asked hserial ht hasking hrows hold').symm
    · obtain ⟨rfl, _, _, _⟩ := AlertLabel.advance.inj hlabel
      obtain rfl := Option.some.inj (ht.symm.trans ht')
      exact (Prod.mk.inj (Option.some.inj (hasking.symm.trans hasking'))).2

theorem firesOnce_of_oneClaim (hsound : SoundHistory s) (h : s.OneClaim) : s.FiresOnce := by
  intro row hrow row' hrow' firing hfiring hfiring'
  have halert : row.alertId = row'.alertId :=
    h firing _ _ (.inl ⟨row, hrow, hfiring, rfl⟩) (.inl ⟨row', hrow', hfiring', rfl⟩)
  refine ⟨halert, fun hchannel => ?_⟩
  obtain ⟨_, hrule, _⟩ := firing_eq_some.mp hfiring
  obtain ⟨_, hrule', _⟩ := firing_eq_some.mp hfiring'
  exact hsound.eq_of_same hrow hrow' hrule hrule' hchannel halert

/-! ## Runs -/

/-- `Serial`, computed. -/
def serialCheck (s : AlertServer) : AlertLabel → Bool
  | .advance i _ _ _ =>
      match s.tasks[i]?.bind fun t => t.stage.askingFor with
      | none => true
      | some (firing, alertId) => s.tasks.all fun t =>
          t.stage.recordingFor.all fun (other, otherId) => other != firing || otherId == alertId
  | _ => true

theorem serialCheck_iff : serialCheck s label = true ↔ Serial s label := by
  cases label with
  | advance i freshId now suppressed =>
      unfold serialCheck Serial
      dsimp only
      cases hasking : s.tasks[i]?.bind fun t => t.stage.askingFor with
      | none =>
          refine iff_of_true rfl fun t firing alertId other ht hfiring => ?_
          rw [ht, Option.bind_some, hfiring] at hasking
          contradiction
      | some asked =>
          obtain ⟨firing, alertId⟩ := asked
          obtain ⟨t, ht, hfiring⟩ := Option.bind_eq_some_iff.mp hasking
          simp only [List.all_eq_true, Option.all_eq_true, Bool.or_eq_true, bne_iff_ne, beq_iff_eq]
          constructor
          · rintro hall t' firing' alertId' other ht' hfiring' ⟨u, hu, hrecording⟩
            obtain rfl := Option.some.inj (ht.symm.trans ht')
            obtain ⟨rfl, rfl⟩ := Prod.mk.inj (Option.some.inj (hfiring.symm.trans hfiring'))
            exact (hall u hu _ hrecording).resolve_left fun hne => hne rfl
          · rintro hserial u hu ⟨firing', other⟩ hrecording
            by_cases hsame : firing' = firing
            · subst hsame
              exact .inr (hserial t firing' alertId other ht hfiring ⟨u, hu, hrecording⟩)
            · exact .inl hsame
  | _ => exact iff_of_true rfl trivial

instance (s : AlertServer) (label : AlertLabel) : Decidable (Serial s label) :=
  decidable_of_iff _ serialCheck_iff

/-- Where the questions of different events take turns with their commits, a new-issue rule
fires once for an issue, whatever is resolved, deleted, replayed or counted down. -/
theorem fires_once_for_new_issue {projectIds : List Int} {labels : List AlertLabel}
    (hrun : Run (SerialSteps config b) (.fresh projectIds) labels s) : s.FiresOnce := by
  have hfresh : (AlertServer.fresh projectIds).OneClaim := by
    intro firing alertId alertId' h
    rcases h with ⟨row, hrow, _⟩ | ⟨t, ht, _⟩
    · cases hrow
    · cases ht
  have hsound := hrun.invariant SoundHistory (fun _ _ _ h hstep => h.step hstep.1)
    (.fresh projectIds)
  have hone := hrun.invariant AlertServer.OneClaim (fun _ _ _ h hstep => h.step hstep) hfresh
  exact firesOnce_of_oneClaim hsound hone

/-- The second event brings the issue to two and fires, is replayed after a crash, and does not
fire again; retention deletes the first, and the third brings the issue to two once more. -/
def countedTwice : List AlertLabel :=
  [.setRules [newIssueRule 2], .deliver firstEvent] ++ advances 0 9 ++ [.deliver secondEvent] ++
    advances 1 7 ++ [.crash 1, .recover secondEvent.key] ++ advances 2 7 ++
    [.retain 1 50 100 [firstEvent.write.row "issue"], .deliver thirdEvent] ++ advances 3 9

theorem fires_once_counted_twice : ∃ s,
    Run (SerialSteps ⟨⟨1000, 10000⟩, ⟨1000, 10000⟩⟩ .sqlite) (.fresh [1]) countedTwice s ∧
    s.marks.map EventMark.issueEventCount = [some 2, some 2] ∧ s.history.length = 1 ∧
    s.FiresOnce := by
  have hruns : (countedTwice.foldlM (fun s label =>
      if Serial s label then alertStep ⟨⟨1000, 10000⟩, ⟨1000, 10000⟩⟩ .sqlite s label else none)
        (AlertServer.fresh [1])).any (fun s =>
      s.marks.map EventMark.issueEventCount == [some 2, some 2] && s.history.length == 1) = true := by
    decide +kernel
  obtain ⟨s, hs, hend⟩ := (Option.any_eq_true _ _).mp hruns
  obtain ⟨hmarks, hlength⟩ := Bool.and_eq_true_iff.mp hend
  have hrun : Run (SerialSteps ⟨⟨1000, 10000⟩, ⟨1000, 10000⟩⟩ .sqlite) (.fresh [1]) countedTwice s :=
    Run.of_foldlM_guard hs
  exact ⟨s, hrun, beq_iff_eq.mp hmarks, beq_iff_eq.mp hlength, fires_once_for_new_issue hrun⟩

/-- The second and the third event both brought the issue to two, and both ask before either
commits. -/
def askedTogether : List AlertLabel :=
  [.setRules [newIssueRule 2], .deliver firstEvent] ++ advances 0 9 ++ [.deliver secondEvent] ++
    advances 1 4 ++ [.retain 1 50 100 [firstEvent.write.row "issue"], .deliver thirdEvent] ++
    advances 2 4 ++ advances 1 2 ++ advances 2 2 ++ advances 1 1 ++ advances 2 1

theorem asked_together_fires_twice : ∃ s,
    Run (AlertSteps ⟨⟨1000, 10000⟩, ⟨1000, 10000⟩⟩ .postgres) (.fresh [1]) askedTogether s ∧
    s.history.map AlertRow.status = [.pending, .pending] ∧ ¬s.FiresOnce := by
  have hfires : (alertSteps ⟨⟨1000, 10000⟩, ⟨1000, 10000⟩⟩ .postgres (.fresh [1])
      askedTogether).any (fun s => s.history.map (fun row => (row.firing, row.alertId, row.status)) ==
        [(some (1, "issue"), secondEvent.alertId .newIssue, .pending),
          (some (1, "issue"), thirdEvent.alertId .newIssue, .pending)]) = true := by
    decide +kernel
  obtain ⟨s, hs, hrows⟩ := (Option.any_eq_true _ _).mp hfires
  have hrows := beq_iff_eq.mp hrows
  refine ⟨s, Run.of_foldlM hs, ?_, fun hone => ?_⟩
  · have hstatus := congrArg (List.map fun r => r.2.2) hrows
    rw [List.map_map] at hstatus
    exact hstatus
  · have hmem : ∀ row ∈ s.history.map fun row => (row.firing, row.alertId, row.status), ∃ row' ∈
        s.history, (row'.firing, row'.alertId, row'.status) = row := fun row => List.mem_map.mp
    rw [hrows] at hmem
    obtain ⟨row, hrow, hsame⟩ := hmem _ (List.mem_cons_self ..)
    obtain ⟨row', hrow', hsame'⟩ := hmem _ (List.mem_cons_of_mem _ (List.mem_cons_self ..))
    simp only [Prod.mk.injEq] at hsame hsame'
    have halert := (hone row hrow row' hrow' _ hsame.1 hsame'.1).1
    rw [hsame.2.1, hsame'.2.1] at halert
    exact absurd halert (by decide +kernel)

end Rustrak.Alerts
