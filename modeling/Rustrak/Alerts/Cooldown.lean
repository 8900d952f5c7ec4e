import Rustrak.Alerts.Reading

/-!
# Cooldowns

`reserve_cooldown` of `services/alert.rs`: the transaction that records what a rule fires first
takes the rule's cooldown, with one update of its row, and skips the deliveries where it is not
over.  Here the server of the digests (`AlertServer`) has that update decide, at any time it comes
to, where it was left open before.

The time an alert is stamped with is the database's, and the time it asks with the server's, read
before the update is run: the update may wait for others.  PostgreSQL stamps with the time its
transaction began, SQLite with the second of the update.
-/

namespace Rustrak.Alerts

open Rustrak.Digest Rustrak.Quota Rustrak.Relational Rustrak.Transition

/-- What a rule's row says of its cooldown. -/
structure RuleClock where
  ruleId : Int
  cooldownMinutes : Int
  lastTriggeredAt : Option Int
  deriving DecidableEq, Repr

/-- Of a transaction that recorded what a rule fires. -/
structure Firing where
  ruleId : Int
  alertId : String
  cooldownMinutes : Int
  /-- The server's time, as it was read for the update. -/
  asked : Int
  /-- `CURRENT_TIMESTAMP`. -/
  stamp : Int
  suppressed : Bool
  deriving DecidableEq, Repr

/-- In microseconds. -/
def minute : Int := 60 * 10 ^ 6

def Backend.trunc (b : Backend) (t : Int) : Int := t / b.resolution * b.resolution

/-- `CURRENT_TIMESTAMP`, in a transaction begun so long ago. -/
def Backend.stamp (b : Backend) (now : Int) (begun : Nat) : Int :=
  match b with
  | .postgres => now - begun
  | .sqlite => Backend.trunc .sqlite now

/-- Whether the update of `reserve_cooldown` finds the row. -/
def RuleClock.reserves (b : Backend) (clock : RuleClock) (asked : Int) : Bool :=
  clock.cooldownMinutes ≤ 0 || clock.lastTriggeredAt.all fun last =>
    b.trunc last < b.trunc asked - clock.cooldownMinutes * minute

structure CooldownServer where
  alerts : AlertServer
  now : Int
  /-- The rows of the rules, as far as they are about cooldowns. -/
  clocks : List RuleClock
  /-- The ids of the rules there have been: none is given twice. -/
  used : List Int
  /-- The newest first. -/
  firings : List Firing
  deriving DecidableEq

def CooldownServer.fresh (projectIds : List Int) (now : Int) : CooldownServer :=
  ⟨.fresh projectIds, now, [], [], []⟩

inductive CooldownLabel
  | tick (elapsed : Nat)
  /-- A step that has nothing to do with cooldowns. -/
  | other (label : AlertLabel)
  /-- The rules are edited, and their cooldowns. -/
  | setRules (rules : List (AlertRule × Int))
  /-- A digest goes on.  If it commits what a rule fires, its transaction was `begun` so long ago,
  and the time it asks with `asked`. -/
  | advance (task : Nat) (freshId : Uuid) (quotaNow : Int) (begun asked : Nat)
  deriving DecidableEq

namespace CooldownServer

/-- What the next step of a digest fires, if it commits what a rule fires. -/
def firing (b : Backend) (s : CooldownServer) (i begun asked : Nat) : Option Firing := do
  let t ← s.alerts.tasks[i]?
  match t.stage with
  | .recording trigger alertType rule _ _ _ _ =>
      if s.alerts.references trigger rule then
        let clock ← lookup RuleClock.ruleId rule.id s.clocks
        return {
          ruleId := rule.id
          alertId := trigger.alertId alertType
          cooldownMinutes := clock.cooldownMinutes
          asked := s.now - asked
          stamp := b.stamp s.now begun
          suppressed := !clock.reserves b (s.now - asked) }
      else none
  | _ => none

/-- A rule that has its cooldown is stamped. -/
def fires (s : CooldownServer) (f : Firing) : CooldownServer :=
  { s with
    clocks := if f.suppressed then s.clocks else
      modify RuleClock.ruleId f.ruleId (fun c => { c with lastTriggeredAt := some f.stamp })
        s.clocks
    firings := f :: s.firings }

/-- One step of the system, if it can be taken. -/
def step (config : RateLimitConfig) (b : Backend) (s : CooldownServer) :
    CooldownLabel → Option CooldownServer
  | .tick elapsed => some { s with now := s.now + elapsed }
  | .other label =>
      match label with
      | .advance _ _ _ _ | .setRules _ => none
      | label => (alertStep config b s.alerts label).map fun alerts => { s with alerts }
  | .setRules rules =>
      let ids := rules.map fun r => r.1.id
      if ∀ id ∈ ids, id ∈ s.used → id ∈ s.alerts.rules.map AlertRule.id then
        (alertStep config b s.alerts (.setRules (rules.map Prod.fst))).map fun alerts =>
          { s with
            alerts
            clocks := rules.map fun r =>
              ⟨r.1.id, r.2,
                (lookup RuleClock.ruleId r.1.id s.clocks).bind RuleClock.lastTriggeredAt⟩
            used := s.used ++ ids }
      else none
  | .advance i freshId quotaNow begun asked =>
      if asked ≤ begun then
        match s.firing b i begun asked with
        | none =>
            (alertStep config b s.alerts (.advance i freshId quotaNow false)).map fun alerts =>
              { s with alerts }
        | some f =>
            let label := AlertLabel.advance i freshId quotaNow f.suppressed
            (alertStep config b s.alerts label).map fun alerts => { s with alerts }.fires f
      else none

end CooldownServer

/-- `CooldownServer.step` as a relation. -/
def CooldownSteps (config : RateLimitConfig) (b : Backend) (s : CooldownServer)
    (label : CooldownLabel) (s' : CooldownServer) : Prop :=
  s.step config b label = some s'

/-- The last of these firings that the rule's cooldown let through. -/
def lastFired (firings : List Firing) (ruleId : Int) : Option Firing :=
  firings.find? fun f => f.ruleId = ruleId && !f.suppressed

/-- The rule has no cooldown, or it is over since the last firing it let through. -/
def Firing.Allowed (b : Backend) (f : Firing) (earlier : List Firing) : Prop :=
  f.cooldownMinutes ≤ 0 ∨ ∀ last, lastFired earlier f.ruleId = some last →
    b.trunc last.stamp + f.cooldownMinutes * minute < b.trunc f.asked

/-- The row is one of the firing's. -/
structure Firing.Wrote (f : Firing) (row : AlertRow) : Prop where
  alertId : row.alertId = f.alertId
  key : row.idempotencyKey = idempotencyKey f.alertId f.ruleId row.integrationId
  status : row.status = if f.suppressed then .skipped else .pending

variable {config : RateLimitConfig} {b : Backend} {s s' : AlertServer} {label : AlertLabel}

/-! ## What becomes of rules and rows -/

theorem Fades.refl (row : AlertRow) : Fades row row := ⟨fun _ h => h, fun _ h => h, rfl⟩

theorem Firing.Wrote.fades {f : Firing} {row row' : AlertRow} (h : f.Wrote row)
    (hfades : Fades row row') : f.Wrote row' := by
  obtain ⟨halert, hkey, hstatus⟩ := h
  rw [hfades.rest]
  exact ⟨halert, hkey, hstatus⟩

/-- But for a digest that goes on, a step has the rows fade at most. -/
theorem alertStep_fades (h : AlertSteps config b s label s')
    (hlabel : ∀ i freshId now suppressed, label ≠ .advance i freshId now suppressed) :
    ∃ f, (∀ row, Fades row (f row)) ∧ s'.history = s.history.map f := by
  have hsame : ∀ {after : AlertServer}, after.history = s.history →
      ∃ f, (∀ row, Fades row (f row)) ∧ after.history = s.history.map f :=
    fun heq => ⟨id, Fades.refl, by rw [heq, List.map_id]⟩
  have hdetach : ∀ db, ∃ f, (∀ row, Fades row (f row)) ∧
      (s.detach db).history = s.history.map f := by
    intro db
    refine ⟨_, ?_, rfl⟩
    intro row
    refine ⟨fun _ h => h, fun id hid => ?_, rfl⟩
    exact (Option.filter_eq_some_iff.mp hid).1
  cases label with
  | deliver event =>
      obtain rfl := Option.some.inj h
      apply hsame
      show (s.storeFile event).history = s.history
      unfold AlertServer.storeFile
      split_ifs <;> rfl
  | recover key =>
      obtain ⟨_, h⟩ := Option.ite_none_right_eq_some.mp h
      obtain rfl := Option.some.inj h
      exact hsame rfl
  | advance i freshId now suppressed => exact absurd rfl (hlabel i freshId now suppressed)
  | failRule i =>
      obtain ⟨t, _, h⟩ := Option.bind_eq_some_iff.mp h
      obtain ⟨_, _, rfl⟩ := Option.map_eq_some_iff.mp h
      exact hsame rfl
  | crash i =>
      obtain ⟨t, _, rfl⟩ := Option.map_eq_some_iff.mp h
      exact hsame rfl
  | setStatus issueId status inNextRelease =>
      obtain rfl := Option.some.inj h
      exact hsame rfl
  | setRules rules =>
      obtain ⟨_, h⟩ := Option.ite_none_right_eq_some.mp h
      obtain rfl := Option.some.inj h
      refine ⟨_, ?_, rfl⟩
      intro row
      refine ⟨fun id hid => ?_, fun _ h => h, rfl⟩
      exact (Option.filter_eq_some_iff.mp hid).1
  | setFeedback projectId keeps =>
      obtain rfl := Option.some.inj h
      exact hsame rfl
  | retain projectId cutoff limit picked =>
      obtain ⟨_, h⟩ := Option.ite_none_right_eq_some.mp h
      obtain rfl := Option.some.inj h
      split
      · exact hsame rfl
      · exact hdetach _
  | deleteIssue issueId =>
      unfold AlertSteps alertStep at h
      dsimp only at h
      split at h
      · obtain rfl := Option.some.inj h
        exact hdetach _
      · contradiction

/-! ## What a digest fires -/

variable {c c' : CooldownServer} {f : Firing} {i begun asked : Nat} {freshId : Uuid}
  {quotaNow : Int} {suppressed : Bool} {earlier firings : List Firing}

/-- The firing is of the transaction the digest is at. -/
theorem CooldownServer.firing_eq_some (h : c.firing b i begun asked = some f) :
    ∃ t trigger alertType rule channels rules failed rest clock,
      c.alerts.tasks[i]? = some t ∧
      t.stage = .recording trigger alertType rule channels rules failed rest ∧
      lookup RuleClock.ruleId rule.id c.clocks = some clock ∧
      f = ⟨rule.id, trigger.alertId alertType, clock.cooldownMinutes, c.now - asked,
        b.stamp c.now begun, !clock.reserves b (c.now - asked)⟩ := by
  unfold CooldownServer.firing at h
  obtain ⟨t, ht, h⟩ := Option.bind_eq_some_iff.mp h
  split at h
  · next trigger alertType rule channels rules failed rest hstage =>
      split_ifs at h
      obtain ⟨clock, hclock, h⟩ := Option.bind_eq_some_iff.mp h
      exact ⟨t, trigger, alertType, rule, channels, rules, failed, rest, clock, ht, hstage, hclock,
        (Option.some.inj h).symm⟩
  · contradiction

/-- What a digest that goes on leaves of the rows and the rules, if it fires nothing. -/
theorem alertStep_of_firing_none
    (hclocks : c.clocks.map RuleClock.ruleId = c.alerts.rules.map AlertRule.id)
    (hfiring : c.firing b i begun asked = none)
    (h : AlertSteps config b c.alerts (.advance i freshId quotaNow suppressed) s') :
    s'.history = c.alerts.history := by
  obtain ⟨t, ht, rfl⟩ := Option.map_eq_some_iff.mp h
  have hadvance : Advances config b c.alerts t.key t.stage _ _ :=
    advance_advances freshId quotaNow suppressed t.stage
  show (c.alerts.advance config b t.key freshId quotaNow suppressed t.stage).1.history = _
  generalize c.alerts.advance config b t.key freshId quotaNow suppressed t.stage = after
    at hadvance ⊢
  obtain ⟨after, next⟩ := after
  generalize hstage : t.stage = stage at hadvance
  cases hadvance with
  | moves => rfl
  | writes _ _ => rfl
  | records hrefs =>
      -- A rule that is there has its clock, so it fires.
      exfalso
      rename_i trigger _ rule _ _ _ _ _
      have hrule : (lookup AlertRule.id rule.id c.alerts.rules).isSome = true :=
        (Bool.and_eq_true_iff.mp hrefs).1
      obtain ⟨r, hr, hid⟩ := lookup_isSome_iff.mp hrule
      have hmem : rule.id ∈ c.clocks.map RuleClock.ruleId := by
        rw [hclocks, ← hid]
        exact List.mem_map_of_mem hr
      obtain ⟨clock, hclock, hclockId⟩ := List.mem_map.mp hmem
      have hsome : (lookup RuleClock.ruleId rule.id c.clocks).isSome = true :=
        lookup_isSome_iff.mpr ⟨clock, hclock, hclockId⟩
      obtain ⟨found, hfound⟩ := Option.isSome_iff_exists.mp hsome
      simp [CooldownServer.firing, ht, hstage, hrefs, hfound] at hfiring
  | deletes _ => rfl

/-- A row there is after a digest fired was there, or is one of the firing's. -/
theorem alertStep_of_firing_some (hfiring : c.firing b i begun asked = some f)
    (h : AlertSteps config b c.alerts (.advance i freshId quotaNow f.suppressed) s') :
    ∀ row ∈ s'.history, row ∈ c.alerts.history ∨ f.Wrote row := by
  obtain ⟨t, trigger, alertType, rule, channels, rules, failed, rest, clock, ht, hstage, _, hf⟩ :=
    CooldownServer.firing_eq_some hfiring
  obtain ⟨t', ht', rfl⟩ := Option.map_eq_some_iff.mp h
  obtain rfl := Option.some.inj (ht'.symm.trans ht)
  intro row hrow
  change row ∈ (c.alerts.advance config b t'.key freshId quotaNow f.suppressed t'.stage).1.history
    at hrow
  rw [hstage] at hrow
  unfold AlertServer.advance at hrow
  dsimp only at hrow
  split_ifs at hrow with hrefs
  · rcases mem_recordRows hrow with hold | ⟨channel, _, rfl⟩
    · exact .inl hold
    · refine .inr ⟨?_, ?_, rfl⟩ <;> rw [hf] <;> rfl
  · exact .inl hrow

/-! ## What the clocks say -/

theorem lastFired_cons (f : Firing) (firings : List Firing) (ruleId : Int) :
    lastFired (f :: firings) ruleId =
      if f.ruleId = ruleId ∧ f.suppressed = false then some f else lastFired firings ruleId := by
  unfold lastFired
  rw [List.find?_cons]
  split_ifs with h
  · simp [h]
  · split
    · next hfound => simp_all
    · rfl

/-- The update finds the row where the cooldown is over since the stamp of the row. -/
theorem RuleClock.reserves_iff {clock : RuleClock} {last : Option Firing} {asked : Int}
    (hlast : clock.lastTriggeredAt = last.map Firing.stamp) :
    clock.reserves b asked = true ↔ clock.cooldownMinutes ≤ 0 ∨ ∀ f, last = some f →
      b.trunc f.stamp + clock.cooldownMinutes * minute < b.trunc asked := by
  unfold RuleClock.reserves
  rw [hlast]
  cases last with
  | none => simp
  | some f => simp [Int.lt_sub_right_iff_add_lt]

structure SoundClocks (b : Backend) (c : CooldownServer) : Prop where
  clocks : c.clocks.map RuleClock.ruleId = c.alerts.rules.map AlertRule.id
  nodup : (c.alerts.rules.map AlertRule.id).Nodup
  rules : ∀ id ∈ c.alerts.rules.map AlertRule.id, id ∈ c.used
  firings : ∀ f ∈ c.firings, f.ruleId ∈ c.used
  last : ∀ clock ∈ c.clocks,
    clock.lastTriggeredAt = (lastFired c.firings clock.ruleId).map Firing.stamp
  decided : ∀ f earlier, f :: earlier <:+ c.firings → (f.suppressed = false ↔ f.Allowed b earlier)
  rows : ∀ row ∈ c.alerts.history, ∃ f ∈ c.firings, f.Wrote row

theorem SoundClocks.fresh (projectIds : List Int) (now : Int) :
    SoundClocks b (.fresh projectIds now) where
  clocks := rfl
  nodup := List.nodup_nil
  rules := by simp [CooldownServer.fresh, AlertServer.fresh]
  firings := by simp [CooldownServer.fresh]
  last := by simp [CooldownServer.fresh]
  decided := by simp [CooldownServer.fresh]
  rows := by simp [CooldownServer.fresh, AlertServer.fresh]

/-- A row that fades is still one of its firing's. -/
theorem SoundClocks.wrote_of_fades (h : SoundClocks b c)
    (hrows : ∃ g, (∀ row, Fades row (g row)) ∧ s'.history = c.alerts.history.map g) :
    ∀ row ∈ s'.history, ∃ f ∈ c.firings, f.Wrote row := by
  obtain ⟨g, hg, hhistory⟩ := hrows
  rw [hhistory]
  intro row hrow
  obtain ⟨old, hold, rfl⟩ := List.mem_map.mp hrow
  obtain ⟨f, hf, hwrote⟩ := h.rows old hold
  exact ⟨f, hf, hwrote.fades (hg old)⟩

/-- What has nothing to do with cooldowns. -/
theorem SoundClocks.keep (h : SoundClocks b c) {now : Int} (hrules : s'.rules = c.alerts.rules)
    (hrows : ∃ g, (∀ row, Fades row (g row)) ∧ s'.history = c.alerts.history.map g) :
    SoundClocks b { c with alerts := s', now } where
  clocks := by rw [hrules]; exact h.clocks
  nodup := by rw [hrules]; exact h.nodup
  rules := by rw [hrules]; exact h.rules
  firings := h.firings
  last := h.last
  decided := h.decided
  rows := h.wrote_of_fades hrows

/-- A rule that is new has not fired: its id has not been given before. -/
theorem SoundClocks.last_of_rule (h : SoundClocks b c) {id : Int}
    (hid : id ∈ c.used → id ∈ c.alerts.rules.map AlertRule.id) :
    (lookup RuleClock.ruleId id c.clocks).bind RuleClock.lastTriggeredAt =
      (lastFired c.firings id).map Firing.stamp := by
  cases hclock : lookup RuleClock.ruleId id c.clocks with
  | some clock =>
      rw [← key_of_lookup hclock]
      exact h.last clock (mem_of_lookup hclock)
  | none =>
      have hnew : id ∉ c.used := by
        intro hused
        have hmem : id ∈ c.clocks.map RuleClock.ruleId := h.clocks ▸ hid hused
        obtain ⟨clock, hclockMem, hclockId⟩ := List.mem_map.mp hmem
        exact lookup_eq_none_iff.mp hclock clock hclockMem hclockId
      have hnone : lastFired c.firings id = none := by
        refine List.find?_eq_none.mpr fun f hf => ?_
        have hne : f.ruleId ≠ id := fun heq => hnew (heq ▸ h.firings f hf)
        simp [hne]
      rw [hnone]
      rfl

theorem SoundClocks.setRules (h : SoundClocks b c) {rules : List (AlertRule × Int)}
    (hids : ∀ id ∈ rules.map fun r => r.1.id, id ∈ c.used →
      id ∈ c.alerts.rules.map AlertRule.id)
    (hrules : s'.rules = rules.map Prod.fst) (hnodup : (s'.rules.map AlertRule.id).Nodup)
    (hrows : ∃ g, (∀ row, Fades row (g row)) ∧ s'.history = c.alerts.history.map g) :
    SoundClocks b { c with
      alerts := s'
      clocks := rules.map fun r =>
        ⟨r.1.id, r.2, (lookup RuleClock.ruleId r.1.id c.clocks).bind RuleClock.lastTriggeredAt⟩
      used := c.used ++ rules.map fun r => r.1.id } where
  clocks := by simp [hrules, Function.comp_def]
  nodup := hnodup
  rules := by
    intro id hid
    refine List.mem_append_right _ ?_
    simpa [hrules, Function.comp_def] using hid
  firings := fun f hf => List.mem_append_left _ (h.firings f hf)
  last := by
    intro clock hclock
    obtain ⟨r, hr, rfl⟩ := List.mem_map.mp hclock
    exact h.last_of_rule (hids r.1.id (List.mem_map_of_mem hr))
  decided := h.decided
  rows := h.wrote_of_fades hrows

theorem SoundClocks.fires (h : SoundClocks b c) (hfiring : c.firing b i begun asked = some f)
    (hrules : s'.rules = c.alerts.rules)
    (hrows : ∀ row ∈ s'.history, row ∈ c.alerts.history ∨ f.Wrote row) :
    SoundClocks b ({ c with alerts := s' }.fires f) := by
  obtain ⟨_, _, _, rule, _, _, _, _, clock, _, _, hclock, hf⟩ :=
    CooldownServer.firing_eq_some hfiring
  have hclockMem : clock ∈ c.clocks := mem_of_lookup hclock
  have hclockId : clock.ruleId = rule.id := key_of_lookup hclock
  have hruleId : f.ruleId = clock.ruleId := by rw [hf, hclockId]
  have hids : ({ c with alerts := s' }.fires f).clocks.map RuleClock.ruleId =
      c.clocks.map RuleClock.ruleId := by
    unfold CooldownServer.fires
    dsimp only
    split_ifs
    · rfl
    · exact map_key_modify fun _ => rfl
  refine ⟨?_, ?_, ?_, ?_, ?_, ?_, ?_⟩
  · rw [hids]
    show _ = s'.rules.map AlertRule.id
    rw [hrules]
    exact h.clocks
  · show (s'.rules.map AlertRule.id).Nodup
    rw [hrules]
    exact h.nodup
  · show ∀ id ∈ s'.rules.map AlertRule.id, id ∈ c.used
    rw [hrules]
    exact h.rules
  · intro f' hf'
    rcases List.mem_cons.mp hf' with rfl | hf'
    · refine h.rules _ ?_
      rw [← h.clocks, hruleId]
      exact List.mem_map_of_mem hclockMem
    · exact h.firings f' hf'
  · intro clock' hclock'
    show _ = (lastFired (f :: c.firings) clock'.ruleId).map Firing.stamp
    rw [lastFired_cons]
    unfold CooldownServer.fires at hclock'
    dsimp only at hclock'
    split_ifs at hclock' with hsuppressed
    -- Only a rule whose cooldown let it through is stamped, and then it is the last that was.
    · rw [if_neg (by simp [hsuppressed])]
      exact h.last clock' hclock'
    · obtain ⟨old, hold, rfl⟩ := List.mem_map.mp hclock'
      have hthrough : f.suppressed = false := Bool.eq_false_iff.mpr hsuppressed
      split_ifs with hid hcond hcond
      · rfl
      · exact absurd ⟨hid.symm, hthrough⟩ hcond
      · exact absurd hcond.1.symm hid
      · exact h.last old hold
  · intro f' earlier hsuffix
    rcases List.suffix_cons_iff.mp hsuffix with heq | hsuffix
    -- What was decided by the row's clock was decided by the last firing, whose stamp it has.
    · obtain ⟨rfl, rfl⟩ := List.cons.inj heq
      have hlast := h.last clock hclockMem
      have hreserves : clock.reserves b (c.now - asked) = true ↔ _ := clock.reserves_iff hlast
      rw [hclockId] at hreserves
      rw [hf]
      simpa [Firing.Allowed] using hreserves
    · exact h.decided f' earlier hsuffix
  · intro row hrow
    rcases hrows row hrow with hold | hwrote
    · obtain ⟨f', hf', hwrote⟩ := h.rows row hold
      exact ⟨f', List.mem_cons_of_mem _ hf', hwrote⟩
    · exact ⟨f, List.mem_cons_self, hwrote⟩

theorem SoundClocks.step {label : CooldownLabel} (h : SoundClocks b c)
    (hstep : CooldownSteps config b c label c') : SoundClocks b c' := by
  cases label with
  | tick elapsed =>
      obtain rfl := Option.some.inj hstep
      exact h.keep rfl ⟨id, Fades.refl, (List.map_id _).symm⟩
  | other label =>
      unfold CooldownSteps CooldownServer.step at hstep
      dsimp only at hstep
      split at hstep
      · contradiction
      · contradiction
      · next hadvance hsetRules =>
          obtain ⟨after, hafter, rfl⟩ := Option.map_eq_some_iff.mp hstep
          refine h.keep ?_ (alertStep_fades hafter hadvance)
          rcases (alertStep_frame hafter).rules with hrules | ⟨hlabel, _⟩
          · exact hrules
          · exact absurd hlabel (hsetRules after.rules)
  | setRules rules =>
      obtain ⟨hids, hstep⟩ := Option.ite_none_right_eq_some.mp hstep
      obtain ⟨after, hafter, rfl⟩ := Option.map_eq_some_iff.mp hstep
      have hfades := alertStep_fades hafter (by intro _ _ _ _ heq; contradiction)
      obtain ⟨hnodup, hafter⟩ := Option.ite_none_right_eq_some.mp hafter
      obtain rfl := Option.some.inj hafter
      exact h.setRules hids rfl hnodup hfades
  | advance i freshId quotaNow begun asked =>
      obtain ⟨_, hstep⟩ := Option.ite_none_right_eq_some.mp hstep
      have hrules : ∀ {suppressed : Bool} {after : AlertServer},
          AlertSteps config b c.alerts (.advance i freshId quotaNow suppressed) after →
          after.rules = c.alerts.rules := by
        intro suppressed after hafter
        rcases (alertStep_frame hafter).rules with hrules | ⟨hlabel, _⟩
        · exact hrules
        · contradiction
      split at hstep
      · next hfiring =>
          obtain ⟨after, hafter, rfl⟩ := Option.map_eq_some_iff.mp hstep
          refine h.keep (hrules hafter) ⟨id, Fades.refl, ?_⟩
          rw [List.map_id]
          exact alertStep_of_firing_none h.clocks hfiring hafter
      · next f hfiring =>
          obtain ⟨after, hafter, rfl⟩ := Option.map_eq_some_iff.mp hstep
          exact h.fires hfiring (hrules hafter) (alertStep_of_firing_some hfiring hafter)

/-- However digests, edits of the rules and the clock interleave, what a rule fires is skipped
exactly where the cooldown its row has by then is not over since the last firing of the rule that
was let through, and every row of the history is one a firing wrote. -/
theorem cooldown_decides {projectIds : List Int} {start : Int} {labels : List CooldownLabel}
    (hrun : Run (CooldownSteps config b) (.fresh projectIds start) labels c) :
    (∀ f earlier, f :: earlier <:+ c.firings →
      (f.suppressed = false ↔ f.Allowed b earlier)) ∧
    ∀ row ∈ c.alerts.history, ∃ f ∈ c.firings, f.Wrote row := by
  have hsound : SoundClocks b c :=
    Run.invariant _ (fun _ _ _ h hstep => h.step hstep) hrun (.fresh projectIds start)
  exact ⟨hsound.decided, hsound.rows⟩

/-- The second event, of another issue. -/
def otherIssueEvent : PendingEvent :=
  { secondEvent with write := { secondEvent.write with
      groupingKey := "other", groupingKeyHash := "other", legacyGroupingKeyHash := "other" } }

/-- Two new issues five minutes apart, and a cooldown of ten minutes. -/
def withinCooldown : List CooldownLabel :=
  [.setRules [(newIssueRule 1, 10)], .other (.deliver firstEvent)] ++
    List.replicate 9 (.advance 0 "issue" 0 2 1) ++
    [.tick (5 * 60 * 10 ^ 6), .other (.deliver otherIssueEvent)] ++
    List.replicate 9 (.advance 1 "other" 0 2 1)

theorem cooldown_decides_withinCooldown : ∃ c,
    Run (CooldownSteps ⟨⟨1000, 10000⟩, ⟨1000, 10000⟩⟩ .postgres) (.fresh [1] 0) withinCooldown c ∧
    c.firings.map Firing.suppressed = [true, false] ∧
    c.alerts.history.map AlertRow.status = [.pending, .skipped] ∧
    (∀ f earlier, f :: earlier <:+ c.firings →
      (f.suppressed = false ↔ f.Allowed .postgres earlier)) ∧
    ∀ row ∈ c.alerts.history, ∃ f ∈ c.firings, f.Wrote row := by
  have hruns : (withinCooldown.foldlM
      (CooldownServer.step ⟨⟨1000, 10000⟩, ⟨1000, 10000⟩⟩ .postgres) (.fresh [1] 0)).any (fun c =>
      c.firings.map Firing.suppressed == [true, false] &&
        c.alerts.history.map AlertRow.status == [.pending, .skipped]) = true := by
    decide +kernel
  obtain ⟨c, hc, hend⟩ := (Option.any_eq_true _ _).mp hruns
  obtain ⟨hfirings, hstatus⟩ := Bool.and_eq_true_iff.mp hend
  have hrun : Run (CooldownSteps ⟨⟨1000, 10000⟩, ⟨1000, 10000⟩⟩ .postgres) (.fresh [1] 0)
      withinCooldown c := Run.of_foldlM hc
  exact ⟨c, hrun, beq_iff_eq.mp hfirings, beq_iff_eq.mp hstatus, cooldown_decides hrun⟩

end Rustrak.Alerts
