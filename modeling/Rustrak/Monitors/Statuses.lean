import Rustrak.Monitors.Soundness

/-!
# Who writes the status of a check-in

Clients create check-ins and report results for them, and the sweep writes what did not come:
`missed` for a check-in that was not sent, `timeout` for one that was left open.

`Origin` says of a check-in in the tables what the last step had to do with it.  From that
follows that a check-in with a result keeps it, and that none stays open past the ceiling
(`terminal_checkins_final`).
-/

namespace Rustrak.Monitors

open Rustrak.Core Rustrak.Relational Rustrak.Transition

variable {p : Platform} {t t' : Tables} {w w' : World} {label : Label} {labels : List Label}
  {row : CheckInRow} {failures : List MonitorFailure}

/-- What a step has had to do with a check-in that is there after it. -/
inductive Origin (p : Platform) (w : World) : Label → CheckInRow → Prop
  | kept {label : Label} {row : CheckInRow} : row ∈ w.tables.checkins → Origin p w label row
  | created {projectId now received : Int} {item : CheckInPayload} {checkIn : CheckIn}
      {t : Tables} {monitor : Monitor} {env : Environment} {row : CheckInRow} :
      CheckIn.parse item = .ok checkIn →
      prepare p w.tables now projectId checkIn = .ok (t, monitor, env) →
      existingCheckin p t monitor.id env.id checkIn.checkInId = none →
      w.tables.drawn ≤ row.id → row.status = checkIn.status →
      Origin p w (.checkIn projectId item now received) row
  | updated {projectId now received : Int} {item : CheckInPayload} {checkIn : CheckIn}
      {t : Tables} {monitor : Monitor} {env : Environment} {old row : CheckInRow} :
      CheckIn.parse item = .ok checkIn →
      prepare p w.tables now projectId checkIn = .ok (t, monitor, env) →
      existingCheckin p t monitor.id env.id checkIn.checkInId = some old →
      old ∈ w.tables.checkins → old.environmentId = env.id →
      Updates checkIn monitor.config received old row →
      Origin p w (.checkIn projectId item now received) row
  | missed {environmentId : Uuid} {now : Int} {row : CheckInRow} :
      w.tables.drawn ≤ row.id → row.status = .missed → row.environmentId = environmentId →
      Origin p w (.sweepMissed environmentId now) row
  | timedOut {old : CheckInRow} {now : Int} : old ∈ w.tables.checkins → old.status = .inProgress →
      Origin p w (.sweepTimeout old.id now) { old with status := .timeout }

/-! ## Where a check-in comes from -/

theorem origin_receive (h : Sound p w.tables) {projectId now received : Int}
    {item : CheckInPayload}
    (hok : receive p w.tables projectId item now received = .ok (t', failures))
    (hrow : row ∈ t'.checkins) : Origin p w (.checkIn projectId item now received) row := by
  obtain ⟨checkIn, hparse, hprocess⟩ := bind_eq_ok hok
  obtain ⟨t₁, monitor, env, hprepare, hrest⟩ := processCheckIn_spec hprocess
  have hprepared := prepare_spec h hprepare
  rcases hrest with ⟨rfl, -⟩ | ⟨t₂, stored, hstore, hsettle⟩
  · rw [hprepared.checkins] at hrow
    exact .kept hrow
  · rw [(settleCheckin_spec hsettle).beside.checkins] at hrow
    cases storeCheckin_spec hstore with
    | created durationMs hnone =>
        rcases List.mem_append.mp hrow with hold | hnew
        · rw [hprepared.checkins] at hold
          exact .kept hold
        · rw [List.mem_singleton.mp hnew]
          exact .created hparse hprepare hnone hprepared.drawn rfl
    | updated hexisting hmem henv hupdates =>
        rw [hprepared.checkins] at hmem
        rcases mem_updateCheckin hrow with rfl | ⟨hold, -⟩
        · exact .updated hparse hprepare hexisting hmem henv hupdates
        · rw [hprepared.checkins] at hold
          exact .kept hold

theorem origin_sweepMissed {environmentId : Uuid} {now later : Int}
    (hok : sweepMissed p w.tables environmentId now = .ok (t', failures))
    (hrow : row ∈ t'.checkins) : Origin p w (.sweepMissed environmentId later) row := by
  cases sweepMissed_spec hok with
  | idle => exact .kept hrow
  | off hready hid hexpected hlatest hdue hoff => exact .kept hrow
  | missed hready hid hexpected hlatest hdue hon hmoved henv =>
      rw [(beside_markFailed _ _ _ _ _).checkins, hmoved] at hrow
      rcases List.mem_append.mp hrow with hold | hnew
      · exact .kept hold
      · rw [List.mem_singleton.mp hnew]
        exact .missed le_rfl rfl hid

theorem origin_sweepTimeout {checkinId : Uuid} {now later : Int}
    (hok : sweepTimeout p w.tables checkinId now = .ok (t', failures))
    (hrow : row ∈ t'.checkins) : Origin p w (.sweepTimeout checkinId later) row := by
  have hcases : ∀ {old : CheckInRow}, old ∈ w.tables.checkins → old.id = checkinId →
      old.status = .inProgress →
      row ∈ (w.tables.updateCheckin { old with status := .timeout }).checkins →
      Origin p w (.sweepTimeout checkinId later) row := by
    intro old hold hid hstatus hrow
    rcases mem_updateCheckin hrow with rfl | ⟨hkept, -⟩
    · subst hid
      exact .timedOut hold hstatus
    · exact .kept hkept
  cases sweepTimeout_spec hok with
  | idle => exact .kept hrow
  | silent hold hid hstatus htimeout hlate => exact hcases hold hid hstatus hrow
  | failed hold hid hstatus htimeout hlate hnewer hmonitor hmonitorId henv henvId =>
      rw [(beside_markFailed _ _ _ _ _).checkins] at hrow
      exact hcases hold hid hstatus hrow

theorem Step.origin (h : w.Sound p) (hstep : Step p w label w')
    (hrow : row ∈ w'.tables.checkins) : Origin p w label row := by
  rcases hstep.tables with ⟨failures, hok⟩ | hsame
  · generalize w'.tables = t' at hok hrow
    cases label with
    | checkIn projectId item now received => exact origin_receive h.tables hok hrow
    | sweepMissed environmentId now => exact origin_sweepMissed hok hrow
    | sweepTimeout checkinId now => exact origin_sweepTimeout hok hrow
    | deleteExpired now =>
        rw [← (Prod.mk.inj (Except.ok.inj hok)).1] at hrow
        exact .kept (List.mem_of_mem_filter hrow)
    | createMonitor projectId input now =>
        rw [(createMonitor_rows (quiet_eq_ok hok)).checkins] at hrow
        exact .kept hrow
    | writeMonitor request now =>
        simp only [transact] at hok
        split at hok
        · rw [← (Prod.mk.inj (Except.ok.inj hok)).1] at hrow
          exact .kept hrow
        · rw [(updateMonitor_rows (quiet_eq_ok hok)).checkins] at hrow
          exact .kept hrow
    | setMuted projectId slug muted =>
        rw [(setMuted_rows (quiet_eq_ok hok)).checkins] at hrow
        exact .kept hrow
    | deleteMonitor projectId slug =>
        obtain ⟨gone, rfl⟩ := deleteMonitor_spec (quiet_eq_ok hok)
        exact .kept (List.mem_of_mem_filter hrow)
    | deleteProject projectId =>
        rw [← (Prod.mk.inj (Except.ok.inj hok)).1] at hrow
        exact .kept (List.mem_of_mem_filter hrow)
    | readMonitor | setCronsOff | digest =>
        rw [← (Prod.mk.inj (Except.ok.inj hok)).1] at hrow
        exact .kept hrow
  · rw [hsame] at hrow
    exact .kept hrow

/-! ## Results are final -/

/-- The tables go on from others: no id is drawn again, and what had a result has it. -/
structure Follows (t t' : Tables) : Prop where
  drawn : t.drawn ≤ t'.drawn
  checkin : ∀ row ∈ t'.checkins, row.id < t.drawn →
    ∃ old ∈ t.checkins, old.id = row.id ∧ (old.status.isResult → row.status = old.status)

theorem Follows.refl (t : Tables) : Follows t t :=
  ⟨le_rfl, fun row hrow _ => ⟨row, hrow, rfl, fun _ => rfl⟩⟩

theorem Follows.trans {t'' : Tables} (h : Follows t t') (h' : Follows t' t'') : Follows t t'' where
  drawn := h.drawn.trans h'.drawn
  checkin := by
    intro row hrow hid
    obtain ⟨mid, hmid, hmidId, hmidStatus⟩ := h'.checkin row hrow (hid.trans_le h.drawn)
    obtain ⟨old, hold, holdId, holdStatus⟩ := h.checkin mid hmid (by rw [hmidId]; exact hid)
    refine ⟨old, hold, holdId.trans hmidId, fun hresult => ?_⟩
    have hsame := holdStatus hresult
    rw [hmidStatus (by rw [hsame]; exact hresult), hsame]

/-- An update of a check-in that has a result leaves it. -/
theorem Updates.status_eq {checkIn : CheckIn} {config : MonitorConfig} {received : Int}
    {old : CheckInRow} (h : Updates checkIn config received old row)
    (hresult : old.status.isResult) : row.status = old.status := by
  cases h with
  | late durationMs hstatus => rfl
  | alive hstatus halive => rfl
  | result durationMs hstatus halive =>
      rcases hstatus with hstatus | hstatus <;> rw [hstatus] at hresult <;> cases hresult

theorem Stores.drawn {monitor : Monitor} {env : Environment} {checkIn : CheckIn} {received : Int}
    (hstores : Stores p t monitor env checkIn received t' row) : t.drawn ≤ t'.drawn := by
  cases hstores with
  | created durationMs hnone => exact Nat.le_add_right t.drawn 2
  | updated hexisting hmem henv hupdates => exact le_rfl

/-- Ids are drawn upwards. -/
theorem Step.drawn (h : w.Sound p) (hstep : Step p w label w') :
    w.tables.drawn ≤ w'.tables.drawn := by
  rcases hstep.tables with ⟨failures, hok⟩ | hsame
  · generalize w'.tables = t' at hok ⊢
    cases label with
    | checkIn projectId item now received =>
        obtain ⟨checkIn, -, hprocess⟩ := bind_eq_ok hok
        obtain ⟨t₁, monitor, env, hprepare, hrest⟩ := processCheckIn_spec hprocess
        have hprepared := prepare_spec h.tables hprepare
        rcases hrest with ⟨rfl, -⟩ | ⟨t₂, stored, hstore, hsettle⟩
        · exact hprepared.drawn
        · calc w.tables.drawn ≤ t₁.drawn := hprepared.drawn
            _ ≤ t₂.drawn := (storeCheckin_spec hstore).drawn
            _ = t'.drawn := (settleCheckin_spec hsettle).beside.drawn.symm
    | sweepMissed environmentId now =>
        cases sweepMissed_spec hok with
        | idle => exact le_rfl
        | off hready hid hexpected hlatest hdue hoff => exact le_rfl
        | missed hready hid hexpected hlatest hdue hon hmoved henv =>
            rw [(beside_markFailed _ _ _ _ _).drawn, hmoved]
            exact Nat.le_add_right _ 2
    | sweepTimeout checkinId now =>
        cases sweepTimeout_spec hok with
        | idle => exact le_rfl
        | silent hold hid hstatus htimeout hlate => exact le_rfl
        | failed hold hid hstatus htimeout hlate hnewer hmonitor hmonitorId henv henvId =>
            rw [(beside_markFailed _ _ _ _ _).drawn]
            exact le_rfl
    | createMonitor projectId input now => exact (createMonitor_rows (quiet_eq_ok hok)).drawn
    | writeMonitor request now =>
        simp only [transact] at hok
        split at hok
        · rw [← (Prod.mk.inj (Except.ok.inj hok)).1]
        · exact (updateMonitor_rows (quiet_eq_ok hok)).drawn
    | setMuted projectId slug muted => exact (setMuted_rows (quiet_eq_ok hok)).drawn
    | deleteMonitor projectId slug =>
        obtain ⟨gone, rfl⟩ := deleteMonitor_spec (quiet_eq_ok hok)
        exact le_rfl
    | deleteExpired | readMonitor | deleteProject | setCronsOff | digest =>
        exact (congrArg Tables.drawn (Prod.mk.inj (Except.ok.inj hok)).1).le
  · rw [hsame]

theorem Step.follows (h : w.Sound p) (hstep : Step p w label w') :
    Follows w.tables w'.tables where
  drawn := hstep.drawn h
  checkin := by
    intro row hrow hid
    cases hstep.origin h hrow with
    | kept hold => exact ⟨row, hold, rfl, fun _ => rfl⟩
    | created hparse hprepare hnone hdrawn hstatus => exact absurd hid (not_lt.mpr hdrawn)
    | updated hparse hprepare hexisting hold henv hupdates =>
        exact ⟨_, hold, hupdates.sameRun.id.symm, hupdates.status_eq⟩
    | missed hdrawn hstatus henv => exact absurd hid (not_lt.mpr hdrawn)
    | timedOut hold hstatus =>
        refine ⟨_, hold, rfl, fun hresult => ?_⟩
        rw [hstatus] at hresult
        cases hresult

/-- Once a check-in has a result (ok, error, missed or timeout), its status never changes, and
no check-in is left open past the hard ceiling. -/
theorem terminal_checkins_final {later : List Label} (hrun : Run (Step p) .start labels w)
    (hlater : Run (Step p) w later w') :
    (∀ row ∈ w.tables.checkins, row.status.isResult →
      ∀ row' ∈ w'.tables.checkins, row'.id = row.id → row'.status = row.status) ∧
    ∀ row ∈ w'.tables.checkins, ∀ timeoutAt ∈ row.timeoutAt,
      timeoutAt ≤ truncateToMinute row.dateAdded + maxMaxRuntime * minute := by
  have hsound : w.Sound p := (World.Sound.start p).run hrun
  have hfollows : Follows w.tables w'.tables :=
    hlater.relates (World.Sound p) (fun u v => Follows u.tables v.tables) (fun u => .refl u.tables)
      (fun _ _ _ => Follows.trans) (fun _ _ _ hs hstep => hs.step hstep)
      (fun _ _ _ hs hstep => hstep.follows hs) hsound
  refine ⟨fun row hrow hresult row' hrow' hid => ?_, (hsound.run hlater).tables.timeout⟩
  have hdrawn : row'.id < w.tables.drawn := by
    rw [hid]
    exact hsound.tables.checkinDrawn row hrow
  obtain ⟨old, hold, holdId, hstatus⟩ := hfollows.checkin row' hrow' hdrawn
  have hsame : old = row :=
    List.inj_on_of_nodup_map hsound.tables.checkinIds hold hrow (holdId.trans hid)
  rw [hsame] at hstatus
  exact hstatus hresult

/-- A check-in of a monitor that runs every ten minutes. -/
def tenMinutely (id : Uuid) (status : String) : CheckInPayload where
  checkInId := some id
  monitorSlug := "job"
  status
  environment := none
  durationMs := none
  monitorConfig := some ⟨some (.interval 10 .minute), none, none, none, none, none⟩

/-- A run succeeds, and then reports an error and is left to time out. -/
theorem terminal_checkins_final_reported_twice : ∃ w w' : World,
    w.tables.checkins.map CheckInRow.status = [.ok] ∧
      ∀ row ∈ w'.tables.checkins, row.id = 10 → row.status = .ok := by
  have hrun : ∃ w, Run (Step .utc) .start
      [.checkIn 1 (tenMinutely 7 "in_progress") 0 0, .checkIn 1 (tenMinutely 7 "ok") 0 minute] w ∧
      w.tables.checkins.map CheckInRow.status = [.ok] ∧
      ∃ row ∈ w.tables.checkins, row.id = 10 ∧ row.status = .ok := by
    refine ⟨_, .cons rfl <| .cons rfl <| .nil _, ?_, ?_⟩
    · decide +kernel
    · decide +kernel
  obtain ⟨w, hrun, hstatuses, row, hrow, hid, hstatus⟩ := hrun
  have hlater : ∃ w', Run (Step .utc) w
      [.checkIn 1 (tenMinutely 7 "error") 0 (2 * minute), .sweepTimeout 10 day] w' :=
    ⟨_, .cons rfl <| .cons rfl <| .nil _⟩
  obtain ⟨w', hlater⟩ := hlater
  refine ⟨w, w', hstatuses, fun row' hrow' hid' => ?_⟩
  rw [← hstatus]
  exact (terminal_checkins_final hrun hlater).1 row hrow (by rw [hstatus]; rfl) row' hrow'
    (hid'.trans hid.symm)

end Rustrak.Monitors
