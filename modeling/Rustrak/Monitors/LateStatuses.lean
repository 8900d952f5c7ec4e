import Rustrak.Monitors.Opening

/-!
# Who writes that a check-in is late

`missed` and `timeout` are for the sweep to write.  `CheckIn::new` turns a `missed` that a client
sends into `unknown` and lets a `timeout` through, which then stands for a run that the sweep
has never seen (`client_timeout_stored`).

* `Origin.late`: a late status that is new was written by the sweep, or sent by a client for a
  run without a result;
* `late_statuses_written_by_sweep`: so in a run in which no client does that, every one was
  written by its sweep, and check-ins fail their environments by reporting an error.
-/

namespace Rustrak.Monitors

open Rustrak.Core Rustrak.Relational Rustrak.Transition

variable {p : Platform} {t t' : Tables} {w w' : World} {label : Label} {labels : List Label}
  {row : CheckInRow} {failures : List MonitorFailure}

/-- A step in which no client says of a run without a result that it has timed out. -/
def ServerStep (p : Platform) (w : World) (label : Label) (w' : World) : Prop :=
  Step p w label w' ∧ OnCheckIn p w label fun t monitor env checkIn _ =>
    ¬(checkIn.status = .timeout ∧ Unfinished p t monitor env checkIn)

/-- The status of a check-in was written by a step of the run, which has such a label. -/
def WrittenBy (step : World → Label → World → Prop) (labels : List Label) (w : World)
    (row : CheckInRow) (written : Label → Prop) : Prop :=
  ∃ before label after u v, labels = before ++ label :: after ∧ Run step .start before u ∧
    step u label v ∧ Run step v after w ∧ written label ∧
    (∀ old ∈ u.tables.checkins, old.id = row.id → old.status ≠ row.status) ∧
    ∃ new ∈ v.tables.checkins, new.id = row.id ∧ new.status = row.status

/-- Where a late status comes from that was not there before. -/
theorem Origin.late (h : Origin p w label row)
    (hlate : row.status = .missed ∨ row.status = .timeout)
    (hnew : ∀ old ∈ w.tables.checkins, old.id = row.id → old.status ≠ row.status)
    (hclients : OnCheckIn p w label fun t monitor env checkIn _ =>
      ¬(checkIn.status = .timeout ∧ Unfinished p t monitor env checkIn)) :
    row.status = .missed ∧ (∃ environmentId now, label = .sweepMissed environmentId now) ∨
      row.status = .timeout ∧ ∃ now, label = .sweepTimeout row.id now := by
  cases h with
  | kept hold => exact absurd rfl (hnew row hold rfl)
  | @created projectId now received item checkIn t monitor env _ hparse hprepare hnone hdrawn
      hstatus =>
      rw [hstatus] at hlate
      have htimeout := hlate.resolve_left (status_ne_missed hparse)
      refine absurd ⟨htimeout, fun old hold => ?_⟩ (hclients checkIn t monitor env hparse hprepare)
      rw [hnone] at hold
      cases hold
  | @updated projectId now received item checkIn t monitor env old _ hparse hprepare hexisting
      hold henv hupdates =>
      cases hupdates with
      | late durationMs hstatus => exact absurd rfl (hnew old hold rfl)
      | alive hstatus halive => exact absurd rfl (hnew old hold rfl)
      | result durationMs hstatus hresult =>
          have htimeout := hlate.resolve_left (status_ne_missed hparse)
          refine absurd ⟨htimeout, fun other hother => ?_⟩
            (hclients checkIn t monitor env hparse hprepare)
          rw [hexisting] at hother
          obtain rfl := Option.some.inj hother
          exact ⟨henv, hstatus⟩
  | missed hdrawn hstatus henv => exact .inl ⟨hstatus, _, _, rfl⟩
  | timedOut hold hstatus => exact .inr ⟨rfl, _, rfl⟩

/-- Every late status was written by its sweep. -/
theorem written_of_late (hrun : Run (ServerStep p) .start labels w) (hrow : row ∈ w.tables.checkins)
    (hlate : row.status = .missed ∨ row.status = .timeout) :
    WrittenBy (ServerStep p) labels w row fun label =>
      row.status = .missed ∧ (∃ environmentId now, label = .sweepMissed environmentId now) ∨
        row.status = .timeout ∧ ∃ now, label = .sweepTimeout row.id now := by
  obtain ⟨before, label, after, u, v, hlabels, hbefore, hstep, hafter, hnot, new, hnew, hid,
    hstatus⟩ := hrun.exists_step
      (P := fun s => ∃ c ∈ s.tables.checkins, c.id = row.id ∧ c.status = row.status)
      (by simp [World.start, Tables.empty]) ⟨row, hrow, rfl, rfl⟩
  have hsound : u.Sound p := hbefore.invariant (World.Sound p)
    (fun _ _ _ hs hnext => hs.step hnext.1) (.start p)
  have hunwritten : ∀ old ∈ u.tables.checkins, old.id = row.id → old.status ≠ row.status :=
    fun old hold holdId holdStatus => hnot ⟨old, hold, holdId, holdStatus⟩
  refine ⟨before, label, after, u, v, hlabels, hbefore, hstep, hafter, ?_, hunwritten, new, hnew,
    hid, hstatus⟩
  have hwritten := (hstep.1.origin hsound hnew).late (by rw [hstatus]; exact hlate)
    (fun old hold holdId => by rw [hstatus]; exact hunwritten old hold (holdId.trans hid)) hstep.2
  rwa [hstatus, hid] at hwritten

theorem reason_of_mem_markFailed {monitor : Monitor} {env : Environment} {failed : CheckInRow}
    {reason : FailureReason} {f : MonitorFailure}
    (hf : f ∈ (markFailed p t monitor env failed reason).2) : f.reason = reason := by
  rw [eq_failureOf_of_mem hf]
  rfl

/-- A check-in reports errors and nothing else. -/
theorem reason_of_receive {projectId now received : Int} {item : CheckInPayload}
    (hok : receive p t projectId item now received = .ok (t', failures)) :
    ∀ f ∈ failures, f.reason = .error := by
  obtain ⟨checkIn, -, hprocess⟩ := bind_eq_ok hok
  obtain ⟨t₁, monitor, env, -, ⟨-, rfl⟩ | ⟨t₂, stored, -, hsettle⟩⟩ := processCheckIn_spec hprocess
  · simp
  · cases settleCheckin_spec hsettle with
    | stale => simp
    | failed => exact fun f hf => reason_of_mem_markFailed hf
    | other => simp

/-- In a run in which no client says that a run has timed out, every `missed` and every
`timeout` was written by its sweep, and a check-in makes none, reports no failure as one and
opens no incident but with an error. -/
theorem late_statuses_written_by_sweep (hrun : Run (ServerStep p) .start labels w) :
    (∀ row ∈ w.tables.checkins, row.status = .missed →
      WrittenBy (ServerStep p) labels w row fun label =>
        ∃ environmentId now, label = .sweepMissed environmentId now) ∧
    (∀ row ∈ w.tables.checkins, row.status = .timeout →
      WrittenBy (ServerStep p) labels w row fun label => ∃ now, label = .sweepTimeout row.id now) ∧
    ∀ projectId item now received w', ServerStep p w (.checkIn projectId item now received) w' →
      (∀ row ∈ w'.tables.checkins, row.status = .missed ∨ row.status = .timeout →
        ∃ old ∈ w.tables.checkins, old.id = row.id ∧ old.status = row.status) ∧
      (∀ id, Opens w w' id → ∃ row ∈ w'.tables.checkinsOf id, row.status = .error) ∧
      ∀ t failures, transact p w (.checkIn projectId item now received) = .ok (t, failures) →
        ∀ f ∈ failures, f.reason = .error := by
  have hsound : w.Sound p := hrun.invariant (World.Sound p)
    (fun _ _ _ hs hnext => hs.step hnext.1) (.start p)
  refine ⟨fun row hrow hmissed => ?_, fun row hrow htimeout => ?_, ?_⟩
  · obtain ⟨before, label, after, u, v, hlabels, hbefore, hstep, hafter, hwritten, hrest⟩ :=
      written_of_late hrun hrow (.inl hmissed)
    refine ⟨before, label, after, u, v, hlabels, hbefore, hstep, hafter, ?_, hrest⟩
    rcases hwritten with ⟨-, hlabel⟩ | ⟨hother, -⟩
    · exact hlabel
    · rw [hmissed] at hother
      cases hother
  · obtain ⟨before, label, after, u, v, hlabels, hbefore, hstep, hafter, hwritten, hrest⟩ :=
      written_of_late hrun hrow (.inr htimeout)
    refine ⟨before, label, after, u, v, hlabels, hbefore, hstep, hafter, ?_, hrest⟩
    rcases hwritten with ⟨hother, -⟩ | ⟨-, hlabel⟩
    · rw [htimeout] at hother
      cases hother
    · exact hlabel
  · intro projectId item now received w' hstep
    refine ⟨fun row hrow hlate => ?_, fun id hopens => ?_, fun t failures hok =>
      reason_of_receive hok⟩
    · by_contra hnone
      push Not at hnone
      rcases (hstep.1.origin hsound hrow).late hlate hnone hstep.2 with
        ⟨-, environmentId, now', hlabel⟩ | ⟨-, now', hlabel⟩
      · cases hlabel
      · cases hlabel
    · obtain ⟨t, monitor, env, failed, hfails, rfl, -, -, hbeside⟩ := hstep.1.opens hsound hopens
      have hmem := hfails.mem.1
      cases hfails with
      | error hparse hprepare hstore hstatus hnewer =>
          refine ⟨failed, ?_, hstatus⟩
          rw [Tables.checkinsOf, hbeside.checkins]
          exact hmem

/-- A check-in that is started and left is missed and timed out. -/
theorem late_statuses_written_by_sweep_left : ∃ labels w,
    w.tables.checkins.map CheckInRow.status = [.timeout, .missed] ∧
      ∀ row ∈ w.tables.checkins, row.status = .timeout →
        WrittenBy (ServerStep .utc) labels w row fun label => ∃ now, label = .sweepTimeout row.id now := by
  have hrun : ∃ w, Run (ServerStep .utc) .start
      [.checkIn 1 (tenMinutely 7 "in_progress") 0 0, .sweepMissed 9 (11 * minute),
        .sweepTimeout 10 (30 * minute)] w ∧
      w.tables.checkins.map CheckInRow.status = [.timeout, .missed] := by
    refine ⟨_, .cons ⟨rfl, ?_⟩ <| .cons ⟨rfl, trivial⟩ <| .cons ⟨rfl, trivial⟩ <| .nil _, ?_⟩
    · rintro checkIn t monitor env hparse - ⟨htimeout, -⟩
      rw [status_of_parse hparse] at htimeout
      revert htimeout
      decide
    · decide +kernel
  obtain ⟨w, hrun, hstatuses⟩ := hrun
  exact ⟨_, w, hstatuses, (late_statuses_written_by_sweep hrun).2.1⟩

/-- A client starts a run that has timed out. -/
theorem client_timeout_stored :
    ¬∀ (p : Platform) (labels : List Label) (w : World), Run (Step p) .start labels w →
      ∀ row ∈ w.tables.checkins, row.status = .timeout →
        WrittenBy (Step p) labels w row fun label => ∃ now, label = .sweepTimeout row.id now := by
  intro hall
  have hstored : ∃ w, Run (Step .utc) .start [.checkIn 1 (tenMinutely 7 "timeout") 0 0] w ∧
      ∃ row ∈ w.tables.checkins, row.status = .timeout := by
    refine ⟨_, .cons rfl <| .nil _, ?_⟩
    decide +kernel
  obtain ⟨w, hrun, row, hrow, hstatus⟩ := hstored
  obtain ⟨before, label, after, u, v, hlabels, -, -, -, ⟨now, rfl⟩, -⟩ :=
    hall .utc _ w hrun row hrow hstatus
  have hmem : Label.sweepTimeout row.id now ∈ [Label.checkIn 1 (tenMinutely 7 "timeout") 0 0] := by
    rw [hlabels]
    simp
  cases List.mem_singleton.mp hmem

end Rustrak.Monitors
