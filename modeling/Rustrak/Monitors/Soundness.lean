import Rustrak.Monitors.Transactions
import Rustrak.Transition.Run

/-!
# The tables stay sound

Requests of the dashboard change nothing but monitors.  With what check-ins and sweeps do, every
transaction keeps the tables sound (`World.Sound.transact`), and so does every run
(`World.Sound.run`).
-/

namespace Rustrak.Monitors

open Rustrak.Core Rustrak.Relational Rustrak.Transition

variable {p : Platform} {t t' : Tables} {now projectId : Int} {failures : List MonitorFailure}

/-! ## The dashboard -/

/-- Only monitors have changed. -/
structure OnlyMonitors (t t' : Tables) : Prop where
  checkins : t'.checkins = t.checkins
  environments : t'.environments = t.environments
  drawn : t.drawn ≤ t'.drawn

theorem inField_eq_ok {α : Type} {field : String} {code : FieldErrorCode} {x : AppResult α} {a : α}
    (h : inField field code x = .ok a) : x = .ok a :=
  mapError_eq_ok h

theorem Sound.createMonitor (h : Sound p t) {input : CreateMonitor}
    (hok : createMonitor p t projectId input now = .ok t') : Sound p t' := by
  unfold Monitors.createMonitor at hok
  obtain ⟨name, -, hok⟩ := bind_eq_ok hok
  dsimp only at hok
  obtain ⟨_, -, hok⟩ := bind_eq_ok hok
  obtain ⟨config, hconfig, hok⟩ := bind_eq_ok hok
  obtain ⟨_, -, hok⟩ := bind_eq_ok hok
  obtain rfl := Except.ok.inj hok
  exact h.insertMonitor rfl (valid_of_validate (by simp) (inField_eq_ok hconfig))

theorem createMonitor_rows {input : CreateMonitor}
    (hok : createMonitor p t projectId input now = .ok t') :
    OnlyMonitors t t' := by
  unfold createMonitor at hok
  obtain ⟨name, -, hok⟩ := bind_eq_ok hok
  dsimp only at hok
  obtain ⟨_, -, hok⟩ := bind_eq_ok hok
  obtain ⟨config, -, hok⟩ := bind_eq_ok hok
  obtain ⟨_, -, hok⟩ := bind_eq_ok hok
  obtain rfl := Except.ok.inj hok
  exact ⟨rfl, rfl, Nat.le_succ _⟩

theorem Sound.updateMonitor (h : Sound p t) {current : Monitor} {input : UpdateMonitor}
    (hcurrent : current.config.Valid p.clocks)
    (hok : updateMonitor p t current input now = .ok t') : Sound p t' := by
  unfold Monitors.updateMonitor at hok
  obtain ⟨name, -, hok⟩ := bind_eq_ok hok
  obtain ⟨config, hconfig, hok⟩ := bind_eq_ok hok
  obtain ⟨_, -, hok⟩ := bind_eq_ok hok
  obtain rfl := Except.ok.inj hok
  refine h.modifyMonitor (fun _ => rfl) fun m _ _ => ?_
  show config.Valid p.clocks
  cases hinput : input.config with
  | none =>
      rw [hinput] at hconfig
      obtain rfl := Except.ok.inj hconfig
      exact hcurrent
  | some given =>
      rw [hinput] at hconfig
      refine valid_of_validate (fun c hc => ?_) (inField_eq_ok hconfig)
      obtain rfl := Option.some.inj hc
      exact hcurrent

theorem updateMonitor_rows {current : Monitor} {input : UpdateMonitor}
    (hok : updateMonitor p t current input now = .ok t') :
    OnlyMonitors t t' := by
  unfold updateMonitor at hok
  obtain ⟨name, -, hok⟩ := bind_eq_ok hok
  obtain ⟨config, -, hok⟩ := bind_eq_ok hok
  obtain ⟨_, -, hok⟩ := bind_eq_ok hok
  obtain rfl := Except.ok.inj hok
  exact ⟨rfl, rfl, le_rfl⟩

theorem Sound.setMuted (h : Sound p t) {slug : String} {muted : Bool}
    (hok : setMuted t projectId slug muted = .ok t') : Sound p t' := by
  unfold Monitors.setMuted at hok
  split at hok
  · cases hok
  · obtain rfl := Except.ok.inj hok
    exact h.modifyMonitor (fun _ => rfl) fun m hm _ => h.config m hm

theorem setMuted_rows {slug : String} {muted : Bool}
    (hok : setMuted t projectId slug muted = .ok t') :
    OnlyMonitors t t' := by
  unfold setMuted at hok
  split at hok
  · cases hok
  · obtain rfl := Except.ok.inj hok
    exact ⟨rfl, rfl, le_rfl⟩

theorem deleteMonitor_spec {slug : String} (hok : deleteMonitor t projectId slug = .ok t') :
    ∃ gone, t' = deleteMonitors t gone := by
  unfold deleteMonitor at hok
  split at hok
  · cases hok
  · exact ⟨_, (Except.ok.inj hok).symm⟩

theorem Sound.deleteMonitor (h : Sound p t) {slug : String}
    (hok : deleteMonitor t projectId slug = .ok t') : Sound p t' := by
  obtain ⟨gone, rfl⟩ := deleteMonitor_spec hok
  exact h.deleteMonitors gone

/-! ## Runs -/

/-- The tables are sound, and what requests have read of them was. -/
structure World.Sound (p : Platform) (w : World) : Prop where
  tables : Monitors.Sound p w.tables
  read : ∀ request current input, w.updates request = some (current, input) →
    current.config.Valid p.clocks

variable {w w' : World} {label : Label} {labels : List Label}

/-- A transaction that reports no failures, ever. -/
theorem quiet_eq_ok {x : AppResult Tables}
    (h : x.map (·, ([] : List MonitorFailure)) = .ok (t', failures)) : x = .ok t' := by
  obtain ⟨t₁, hx, hpair⟩ := map_eq_ok h
  rw [hx, (Prod.mk.inj hpair).1]

/-- A transaction that commits keeps the tables sound. -/
theorem World.Sound.transact (h : w.Sound p) (hok : transact p w label = .ok (t', failures)) :
    Monitors.Sound p t' := by
  cases label with
  | checkIn projectId item now received =>
      obtain ⟨checkIn, -, hprocess⟩ := bind_eq_ok hok
      exact h.tables.processCheckIn hprocess
  | sweepMissed environmentId now => exact (sweepMissed_spec hok).sound h.tables
  | sweepTimeout checkinId now => exact (sweepTimeout_spec hok).sound h.tables
  | deleteExpired now =>
      rw [← (Prod.mk.inj (Except.ok.inj hok)).1]
      exact h.tables.filterCheckins _
  | createMonitor projectId input now => exact h.tables.createMonitor (quiet_eq_ok hok)
  | readMonitor request projectId slug input =>
      rw [← (Prod.mk.inj (Except.ok.inj hok)).1]
      exact h.tables
  | writeMonitor request now =>
      simp only [Monitors.transact] at hok
      split at hok
      · rw [← (Prod.mk.inj (Except.ok.inj hok)).1]
        exact h.tables
      · next current input hread =>
          exact h.tables.updateMonitor (h.read request current input hread) (quiet_eq_ok hok)
  | setMuted projectId slug muted => exact h.tables.setMuted (quiet_eq_ok hok)
  | deleteMonitor projectId slug => exact h.tables.deleteMonitor (quiet_eq_ok hok)
  | deleteProject projectId =>
      rw [← (Prod.mk.inj (Except.ok.inj hok)).1]
      exact h.tables.deleteMonitors _
  | setCronsOff projects =>
      rw [← (Prod.mk.inj (Except.ok.inj hok)).1]
      exact h.tables.withCronsOff _
  | digest db =>
      rw [← (Prod.mk.inj (Except.ok.inj hok)).1]
      exact h.tables.withDb _

/-- A step commits its transaction or leaves the tables as they were. -/
theorem Step.tables (hstep : Step p w label w') :
    (∃ failures, transact p w label = .ok (w'.tables, failures)) ∨ w'.tables = w.tables := by
  rw [hstep]
  cases htransact : transact p w label with
  | ok outcome => exact .inl ⟨outcome.2, rfl⟩
  | error e => exact .inr rfl

theorem World.Sound.step (h : w.Sound p) (hstep : Step p w label w') : w'.Sound p where
  tables := by
    rcases hstep.tables with ⟨failures, hok⟩ | hsame
    · exact h.transact hok
    · rw [hsame]
      exact h.tables
  read := by
    intro request current input hread
    rw [hstep] at hread
    cases label with
    | readMonitor request' projectId slug given =>
        simp only [World.updatesAfter] at hread
        by_cases hrequest : request = request'
        · rw [hrequest, Function.update_self] at hread
          obtain ⟨m, hm, hpair⟩ := Option.map_eq_some_iff.mp hread
          obtain ⟨rfl, -⟩ := Prod.mk.inj hpair
          exact h.tables.config m (List.mem_of_find?_eq_some hm)
        · rw [Function.update_of_ne hrequest] at hread
          exact h.read request current input hread
    | writeMonitor request' now =>
        simp only [World.updatesAfter] at hread
        by_cases hrequest : request = request'
        · rw [hrequest, Function.update_self] at hread
          cases hread
        · rw [Function.update_of_ne hrequest] at hread
          exact h.read request current input hread
    | _ => exact h.read request current input hread

theorem World.Sound.start (p : Platform) : World.start.Sound p where
  tables := .empty p
  read := by simp [World.start]

theorem World.Sound.run (h : w.Sound p) (hrun : Run (Step p) w labels w') : w'.Sound p :=
  hrun.invariant (World.Sound p) (fun _ _ _ hs hstep => hs.step hstep) h

end Rustrak.Monitors
