import Rustrak.Alerts.History

/-!
# Events and their files

A digest has its event from the file of its key (`event_of_advance`), and a file goes only
behind a digest that is done with it or drops it (`Frame.gone`).  So where every delivery of an
event is of the same event, every digest of it has read the same (`Kept`).
-/

namespace Rustrak.Alerts

open Rustrak.Core Rustrak.Digest Rustrak.Quota Rustrak.Relational Rustrak.Transition

/-- The event a digest has read. -/
def DigestStage.event : DigestStage → Option PendingEvent
  | .checking event _ | .measuring event _ | .writing event => some event
  | .triggering trigger _ | .firing trigger _ _ _ _ | .recording trigger _ _ _ _ _ _ =>
      some trigger.event
  | .reading | .releasing | .dropping | .rejecting | .ended => none

/-- The stages that delete the file. -/
def DigestStage.isDeleting : DigestStage → Bool
  | .releasing | .dropping | .rejecting => true
  | _ => false

/-- Every delivery of the event has the same contents. -/
def SameEvent (e : PendingEvent) : AlertLabel → Prop
  | .deliver event => event.key = e.key → event = e
  | _ => True

variable {config : RateLimitConfig} {b : Backend} {s s' : AlertServer} {label : AlertLabel}
  {e f : PendingEvent} {stage : DigestStage} {key : Int × Uuid} {freshId : Uuid} {now : Int}
  {suppressed : Bool}

/-! ## What a digest has read -/

theorem event_stageAfter (error : AppError) : (AlertServer.stageAfter error).event = none := by
  unfold AlertServer.stageAfter
  split_ifs <;> rfl

theorem event_replay {row : EventRow} (h : (s.replay e row).event = some f) : e = f := by
  unfold AlertServer.replay at h
  split at h
  · split at h
    · rw [event_stageAfter] at h
      contradiction
    · split at h <;> exact Option.some.inj h
  · contradiction

/-- A digest keeps to its event, which it has from the file. -/
theorem event_of_advance
    (h : (s.advance config b key freshId now suppressed stage).2.event = some f) :
    stage.event = some f ∨ stage = .reading ∧ s.file key = some f := by
  cases stage with
  | reading =>
      change (s.read key).event = some f at h
      unfold AlertServer.read at h
      split at h
      · rw [event_stageAfter] at h
        contradiction
      · rw [event_stageAfter] at h
        contradiction
      · next hfile =>
          split_ifs at h
          · rw [event_stageAfter] at h
            contradiction
          · obtain rfl := Option.some.inj h
            exact .inr ⟨rfl, hfile⟩
  | checking event project =>
      change (s.check event project).event = some f at h
      unfold AlertServer.check at h
      split at h
      · exact .inl (congrArg some (event_replay h))
      · exact .inl h
  | measuring event project =>
      change (s.measure config event project now).event = some f at h
      unfold AlertServer.measure at h
      split_ifs at h
      · contradiction
      · exact .inl h
  | writing event =>
      change (s.write config event freshId now).2.event = some f at h
      unfold AlertServer.write at h
      split at h
      · split at h
        · contradiction
        · exact .inl h
      · contradiction
      · rw [event_stageAfter] at h
        contradiction
  | triggering trigger types =>
      cases types with
      | nil => contradiction
      | cons alertType rest => exact .inl h
  | firing trigger alertType todo failed rest =>
      cases todo with
      | nil =>
          cases failed with
          | false => exact .inl h
          | true => contradiction
      | cons next todo =>
          change (s.fire b trigger alertType next todo failed rest).event = some f at h
          unfold AlertServer.fire at h
          split at h <;> exact .inl h
  | recording trigger alertType next channels todo failed rest =>
      unfold AlertServer.advance at h
      dsimp only at h
      split_ifs at h <;> exact .inl h
  | releasing => contradiction
  | dropping => contradiction
  | rejecting => contradiction
  | ended => contradiction

theorem event_failRule {next : DigestStage} (h : stage.failRule = some next) :
    next.event = stage.event := by
  unfold DigestStage.failRule at h
  split at h
  · obtain rfl := Option.some.inj h
    rfl
  · obtain rfl := Option.some.inj h
    rfl
  · contradiction

/-! ## What a step leaves -/

/-- Every mark is of an event that is stored. -/
def AlertServer.MarksStored (s : AlertServer) : Prop :=
  ∀ m ∈ s.marks, s.db.hasEvent m.key.1 m.key.2 = true

structure Frame (s : AlertServer) (label : AlertLabel) (s' : AlertServer) : Prop where
  rules : s'.rules = s.rules ∨ label = .setRules s'.rules ∧ (s'.rules.map AlertRule.id).Nodup
  files : ∀ f ∈ s'.files, f ∈ s.files ∨ label = .deliver f
  gone : ∀ key, (s.file key).isSome = true → s'.file key = none →
    ∃ i freshId now suppressed t, label = .advance i freshId now suppressed ∧
      s.tasks[i]? = some t ∧ t.key = key ∧ t.stage.isDeleting = true
  marks : s.MarksStored → s'.MarksStored

/-- A step that leaves the files. -/
theorem Frame.of_files
    (hrules : s'.rules = s.rules ∨ label = .setRules s'.rules ∧ (s'.rules.map AlertRule.id).Nodup)
    (hfiles : s'.files = s.files) (hmarks : s.MarksStored → s'.MarksStored) :
    Frame s label s' where
  rules := hrules
  files := by
    intro f hf
    rw [hfiles] at hf
    exact .inl hf
  gone := by
    intro key hfile hgone
    unfold AlertServer.file at hfile hgone
    rw [← hfiles, hgone] at hfile
    contradiction
  marks := hmarks

theorem Frame.storeFile (tasks : List DigestTask) :
    Frame s (.deliver f) { s.storeFile f with tasks } := by
  unfold AlertServer.storeFile
  split_ifs with hfile
  · exact .of_files (.inl rfl) rfl id
  · refine ⟨.inl rfl, fun f' hf' => ?_, fun key hpresent hgone => ?_, id⟩
    · rcases List.mem_append.mp hf' with hf' | hf'
      · exact .inl hf'
      · rw [List.mem_singleton.mp hf']
        exact .inr rfl
    · obtain ⟨f', hf'⟩ := Option.isSome_iff_exists.mp hpresent
      have hkept : lookup PendingEvent.key key (s.files ++ [f]) = some f' := by
        rw [lookup_append]
        unfold AlertServer.file at hf'
        rw [hf', Option.some_or]
      exact absurd (hkept.symm.trans hgone) (Option.some_ne_none f')

theorem Frame.deleteFile {i : Nat} {t : DigestTask} (ht : s.tasks[i]? = some t)
    (hstage : t.stage.isDeleting = true) (tasks : List DigestTask) :
    Frame s (.advance i freshId now suppressed) { s.deleteFile t.key with tasks } where
  rules := .inl rfl
  files := fun f hf => .inl (List.mem_filter.mp hf).1
  gone := by
    intro key hfile hgone
    refine ⟨i, freshId, now, suppressed, t, rfl, ht, ?_, hstage⟩
    by_contra hne
    have hkept : lookup PendingEvent.key key (s.files.filter fun f => f.key ≠ t.key) =
        lookup PendingEvent.key key s.files := by
      rw [lookup_filter_key (fun k => k ≠ t.key), if_pos (by simpa using Ne.symm hne)]
    obtain ⟨f', hf'⟩ := Option.isSome_iff_exists.mp hfile
    exact absurd (hf'.symm.trans (hkept.symm.trans hgone)) (Option.some_ne_none f')
  marks := id

theorem hasEvent_written {w : DigestWrite} {db : Db} {landing : Landing}
    (h : Written config s.db w freshId now db landing) :
    db.hasEvent w.projectId w.eventId = true := by
  have hfree : lookup EventRow.key w.key s.db.events = none := by
    rw [← Option.not_isSome_iff_eq_none, Bool.not_eq_true]
    exact h.fresh
  show (lookup EventRow.key w.key db.events).isSome = true
  rw [h.events, lookup_insert_self hfree rfl]
  rfl

/-- The event of a mark is stored with it. -/
theorem marksStored_written {w : DigestWrite} {db : Db} {landing : Landing} {m : EventMark}
    (hwritten : Written config s.db w freshId now db landing) (hm : m.key = w.key)
    (h : s.MarksStored) : AlertServer.MarksStored { s with db, marks := s.marks ++ [m] } := by
  intro m' hm'
  rcases List.mem_append.mp hm' with hm' | hm'
  · obtain ⟨row, hrow⟩ := Option.isSome_iff_exists.mp (h m' hm')
    change lookup EventRow.key m'.key s.db.events = some row at hrow
    show (lookup EventRow.key m'.key db.events).isSome = true
    rw [hwritten.events, lookup_append, hrow, Option.some_or]
    rfl
  · rw [List.mem_singleton.mp hm', hm]
    exact hasEvent_written hwritten

theorem marksStored_detach (db : Db) : (s.detach db).MarksStored :=
  fun _ hm => (List.mem_filter.mp hm).2

theorem alertStep_frame (h : AlertSteps config b s label s') : Frame s label s' := by
  cases label with
  | deliver event =>
      obtain rfl := Option.some.inj h
      exact .storeFile _
  | recover key =>
      obtain ⟨_, h⟩ := Option.ite_none_right_eq_some.mp h
      obtain rfl := Option.some.inj h
      exact .of_files (.inl rfl) rfl id
  | advance i freshId now suppressed =>
      obtain ⟨t, ht, rfl⟩ := Option.map_eq_some_iff.mp h
      have hadvance : Advances config b s t.key t.stage _ _ :=
        advance_advances freshId now suppressed t.stage
      dsimp only
      generalize s.advance config b t.key freshId now suppressed t.stage = after at hadvance ⊢
      obtain ⟨after, next⟩ := after
      generalize hstage : t.stage = stage at hadvance
      cases hadvance with
      | moves => exact .of_files (.inl rfl) rfl id
      | writes hwritten _ => exact .of_files (.inl rfl) rfl (marksStored_written hwritten rfl)
      | records _ => exact .of_files (.inl rfl) rfl id
      | deletes hdeletes =>
          refine .deleteFile ht ?_ _
          rw [hstage]
          rcases hdeletes with rfl | rfl | rfl <;> rfl
  | failRule i =>
      obtain ⟨t, _, h⟩ := Option.bind_eq_some_iff.mp h
      obtain ⟨_, _, rfl⟩ := Option.map_eq_some_iff.mp h
      exact .of_files (.inl rfl) rfl id
  | crash i =>
      obtain ⟨t, _, rfl⟩ := Option.map_eq_some_iff.mp h
      exact .of_files (.inl rfl) rfl id
  | setStatus issueId status inNextRelease =>
      obtain rfl := Option.some.inj h
      exact .of_files (.inl rfl) rfl id
  | setRules rules =>
      obtain ⟨hnodup, h⟩ := Option.ite_none_right_eq_some.mp h
      obtain rfl := Option.some.inj h
      exact .of_files (.inr ⟨rfl, hnodup⟩) rfl id
  | setFeedback projectId keeps =>
      obtain rfl := Option.some.inj h
      exact .of_files (.inl rfl) rfl id
  | retain projectId cutoff limit picked =>
      obtain ⟨_, h⟩ := Option.ite_none_right_eq_some.mp h
      obtain rfl := Option.some.inj h
      split
      · exact .of_files (.inl rfl) rfl id
      · exact .of_files (.inl rfl) rfl fun _ => marksStored_detach _
  | deleteIssue issueId =>
      unfold AlertSteps alertStep at h
      dsimp only at h
      split at h
      · obtain rfl := Option.some.inj h
        exact .of_files (.inl rfl) rfl fun _ => marksStored_detach _
      · contradiction

/-! ## One event under its key -/

structure Kept (e : PendingEvent) (s : AlertServer) : Prop where
  sound : SoundHistory s
  nodup : (s.rules.map AlertRule.id).Nodup
  marks : s.MarksStored
  files : ∀ f ∈ s.files, f.key = e.key → f = e
  /-- A digest has read the event of its key. -/
  keyed : ∀ t ∈ s.tasks, ∀ f, t.stage.event = some f → f.key = t.key

theorem Kept.fresh (e : PendingEvent) (projectIds : List Int) : Kept e (.fresh projectIds) where
  sound := .fresh projectIds
  nodup := List.nodup_nil
  marks := by simp [AlertServer.MarksStored, AlertServer.fresh]
  files := by simp [AlertServer.fresh]
  keyed := by simp [AlertServer.fresh]

theorem Kept.step (h : Kept e s) (hstep : AlertSteps config b s label s')
    (hsame : SameEvent e label) : Kept e s' := by
  have hframe := alertStep_frame hstep
  refine ⟨h.sound.step hstep, ?_, hframe.marks h.marks, ?_, ?_⟩
  · rcases hframe.rules with hrules | ⟨_, hnodup⟩
    · rw [hrules]
      exact h.nodup
    · exact hnodup
  · intro f hf hkey
    rcases hframe.files f hf with hf | rfl
    · exact h.files f hf hkey
    · exact hsame hkey
  · intro t ht f hf
    cases alertStep_task hstep ht with
    | same hold => exact h.keyed t hold f hf
    | begun => contradiction
    | ended _ => contradiction
    | failed hold hfail => exact h.keyed _ hold f ((event_failRule hfail).symm.trans hf)
    | advanced hold =>
        rcases event_of_advance hf with hf | ⟨_, hfile⟩
        · exact h.keyed _ (List.mem_of_getElem? hold) f hf
        · exact key_of_lookup hfile

end Rustrak.Alerts
