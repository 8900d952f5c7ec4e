import Rustrak.Files.Directory
import Rustrak.Ingest.Pending
import Rustrak.Transition.Run

/-!
# Publishing a pending record

`publish_pending_file` in `ingest/storage.rs`: a record is written to a temporary file and
linked to its name.  A name that is taken is inspected, and if what is there is no
complete record of the event, it is linked to another name and the temporary file renamed
over it.  Between two calls to the file system any number of other stores can do
anything, and the digest can delete the file.

A store that finds a complete record keeps to it, and a link does not replace anything.
The rename does: what was judged may not be what is there any more.

* `first_wins_iff`: the first record wins in every interleaving just when the name is not
  taken by something malformed at the start;
* `first_wins_of_clean`, `second_rename`: its two directions.
-/

namespace Rustrak.Ingest

open Rustrak.Files Rustrak.Transition

variable {Bytes Uuid : Type}

/-- The event a file is for. -/
structure Target (format : PendingFormat Bytes Uuid) where
  projectId : Int
  eventId : String
  uuid : Uuid
  parse : format.parseUuid eventId = some uuid

/-- What a store of that event is called with. -/
structure Submission {format : PendingFormat Bytes Uuid} (target : Target format) where
  eventId : String
  metadata : EventMetadata
  eventData : List UInt8
  aims : format.parseUuid eventId = some target.uuid
  project : metadata.projectId = target.projectId

/-- The names a store uses: the canonical one, and its own. -/
inductive FileName
  | canonical
  | temporary (store : Nat)
  | corrupt (store : Nat)
  deriving DecidableEq

/-- What a store does next. -/
inductive StoreStage
  | writing
  | linking
  | inspecting
  | reading
  | quarantining
  | replacing
  | syncing
  | returned (ok : Bool)
  deriving DecidableEq, Repr

structure Ingesting (Bytes : Type) where
  directory : Directory FileName Bytes
  stage : Nat → StoreStage

/-- Nothing is there but what the canonical name may stand for. -/
def Ingesting.start (existing : Option (Entry Bytes)) : Ingesting Bytes where
  directory
    | .canonical => existing
    | .temporary _ | .corrupt _ => none
  stage := fun _ => .writing

variable [DecidableEq Uuid] {format : PendingFormat Bytes Uuid} {target : Target format}

/-- Whether an existing file is a complete record of the event. -/
def isComplete (format : PendingFormat Bytes Uuid) (existing : Bytes) (eventId : String)
    (projectId : Int) : Bool :=
  match format.fromSlice existing with
  | some record => (validatePendingRecord format record eventId (some projectId)).isSome
  | none => false

/-- The next call of a store to the file system, when nothing but what is in the
directory makes it fail. -/
def advance (submission : Submission target) (i : Nat) (directory : Directory FileName Bytes) :
    StoreStage → Directory FileName Bytes × StoreStage
  | .writing =>
      if sameEventId format submission.metadata.eventId submission.eventId then
        (directory.put (.temporary i)
          (.file (writePendingRecord format submission.metadata submission.eventData)), .linking)
      else (directory, .returned false)
  | .linking =>
      match directory.hardLink (.temporary i) .canonical with
      | .ok linked => (linked.remove (.temporary i), .syncing)
      | .error .alreadyExists => (directory, .inspecting)
      | .error .notFound => (directory, .returned false)
  | .inspecting =>
      match directory .canonical with
      | none => (directory.remove (.temporary i), .returned false)
      | some .symlink => (directory, .quarantining)
      | some (.file _) => (directory, .reading)
  | .reading =>
      match directory .canonical with
      | none | some .symlink => (directory.remove (.temporary i), .returned false)
      | some (.file existing) =>
          if isComplete format existing submission.eventId submission.metadata.projectId then
            (directory.remove (.temporary i), .returned true)
          else (directory, .quarantining)
  | .quarantining =>
      match directory.hardLink .canonical (.corrupt i) with
      | .ok linked => (linked, .replacing)
      | .error _ => (directory.remove (.temporary i), .returned false)
  | .replacing =>
      match directory.rename (.temporary i) .canonical with
      | some renamed => (renamed, .syncing)
      | none => (directory, .returned false)
  | .syncing => (directory, .returned true)
  | .returned ok => (directory, .returned ok)

inductive PublishLabel
  | call (store : Nat)
  /-- A call fails with an error of its own. -/
  | fails (store : Nat)
  /-- The digest is done with the event. -/
  | delete
  /-- A temporary file that has been there for long is removed. -/
  | cleanup (store : Nat)
  deriving DecidableEq

variable (submission : Nat → Submission target)

inductive PublishStep : Ingesting Bytes → PublishLabel → Ingesting Bytes → Prop
  | call (w : Ingesting Bytes) (i : Nat) :
      PublishStep w (.call i)
        { directory := (advance (submission i) i w.directory (w.stage i)).1
          stage := Function.update w.stage i
            (advance (submission i) i w.directory (w.stage i)).2 }
  | fails {w : Ingesting Bytes} {i : Nat} : (∀ ok, w.stage i ≠ .returned ok) →
      PublishStep w (.fails i)
        { directory := w.directory.remove (.temporary i)
          stage := Function.update w.stage i (.returned false) }
  | delete (w : Ingesting Bytes) :
      PublishStep w .delete { w with directory := w.directory.remove .canonical }
  | cleanup (w : Ingesting Bytes) (i : Nat) :
      PublishStep w (.cleanup i) { w with directory := w.directory.remove (.temporary i) }

/-- A step of anyone but the digest. -/
def KeepingStep (w : Ingesting Bytes) (label : PublishLabel) (w' : Ingesting Bytes) : Prop :=
  PublishStep submission w label w' ∧ label ≠ .delete

variable (target) in
/-- What the canonical name stands for is no complete record of the event. -/
def Malformed : Option (Entry Bytes) → Prop
  | none => False
  | some .symlink => True
  | some (.file existing) => isComplete format existing target.eventId target.projectId = false

/-- Once a store has returned without an error, the file holds a complete record, and
the same one until the digest deletes it.  A store that was past its link when the file
was last deleted promises nothing for the time after. -/
def FirstWins (existing : Option (Entry Bytes)) : Prop :=
  ∀ labels w, Run (PublishStep submission) (.start existing) labels w →
    ∀ i, w.stage i = .writing ∨ w.stage i = .linking →
      ∀ labels' w', Run (KeepingStep submission) w labels' w' → w'.stage i = .returned true →
        ∃ record, isComplete format record target.eventId target.projectId = true ∧
          ∀ labels'' w'', Run (KeepingStep submission) w' labels'' w'' →
            w''.directory .canonical = some (.file record)

variable {submission}

/-! ## Records -/

/-- All stores of the event agree on what a complete record of it is. -/
theorem isComplete_submission (s : Submission target) (existing : Bytes) :
    isComplete format existing s.eventId s.metadata.projectId =
      isComplete format existing target.eventId target.projectId := by
  unfold isComplete
  cases format.fromSlice existing with
  | none => rfl
  | some record =>
      rw [Bool.eq_iff_iff, validatePendingRecord_isSome, validatePendingRecord_isSome, s.aims,
        target.parse, s.project]

theorem isComplete_written (s : Submission target)
    (hsame : sameEventId format s.metadata.eventId s.eventId = true) :
    isComplete format (writePendingRecord format s.metadata s.eventData) target.eventId
      target.projectId = true := by
  unfold isComplete
  rw [writePendingRecord_eq, format.fromSlice_text]
  refine validatePendingRecord_isSome.mpr ⟨rfl, ?_, s.project, ?_⟩
  · rw [of_decide_eq_true hsame, s.aims, target.parse]
  · rw [format.decode_encode]
    rfl

theorem exists_record_of_not_malformed {entry : Entry Bytes}
    (h : ¬Malformed target (some entry)) :
    ∃ record, entry = .file record ∧
      isComplete format record target.eventId target.projectId = true := by
  cases entry with
  | symlink => exact absurd trivial h
  | file record => exact ⟨record, rfl, Bool.of_not_eq_false h⟩

/-! ## No store has anything to replace -/

/-- Nothing malformed is in the directory, and no store has seen any. -/
structure Ingesting.Clean (target : Target format) (w : Ingesting Bytes) : Prop where
  canonical : ¬Malformed target (w.directory .canonical)
  temporary : ∀ i, ¬Malformed target (w.directory (.temporary i))
  stage : ∀ i, w.stage i ≠ .quarantining ∧ w.stage i ≠ .replacing

@[simp] theorem remove_temporary_canonical (d : Directory FileName Bytes) (i : Nat) :
    d.remove (.temporary i) .canonical = d .canonical :=
  Directory.remove_of_ne (by simp)

@[simp] theorem remove_canonical_temporary (d : Directory FileName Bytes) (i : Nat) :
    d.remove .canonical (.temporary i) = d (.temporary i) :=
  Directory.remove_of_ne (by simp)

@[simp] theorem put_temporary_canonical (d : Directory FileName Bytes) (i : Nat)
    (entry : Entry Bytes) : d.put (.temporary i) entry .canonical = d .canonical :=
  Directory.put_of_ne (by simp)

@[simp] theorem put_canonical_temporary (d : Directory FileName Bytes) (i : Nat)
    (entry : Entry Bytes) : d.put .canonical entry (.temporary i) = d (.temporary i) :=
  Directory.put_of_ne (by simp)

private theorem not_malformed_remove {d : Directory FileName Bytes}
    (h : ∀ i, ¬Malformed target (d (.temporary i))) (i j : Nat) :
    ¬Malformed target (d.remove (.temporary i) (.temporary j)) := by
  by_cases hj : j = i
  · subst hj
    rw [Directory.remove_self]
    exact id
  · rw [Directory.remove_of_ne fun heq => hj (FileName.temporary.inj heq)]
    exact h j

/-- A store that has its record, or another's, where it belongs. -/
def StoreStage.Settled (s : StoreStage) : Prop := s = .syncing ∨ s = .returned true

/-- What one call does in a clean directory. -/
structure CleanCall (target : Target format) (d : Directory FileName Bytes) (s : StoreStage)
    (d' : Directory FileName Bytes) (s' : StoreStage) : Prop where
  canonical : d' .canonical = d .canonical ∨
    d .canonical = none ∧ ¬Malformed target (d' .canonical)
  temporary : ∀ j, d' (.temporary j) = d (.temporary j) ∨ ¬Malformed target (d' (.temporary j))
  stage : s' ≠ .quarantining ∧ s' ≠ .replacing
  settled : s'.Settled → s.Settled ∨ (d' .canonical).isSome

/-- A call that only gives up, or goes on to look. -/
private theorem cleanCall_remove (d : Directory FileName Bytes) (i : Nat) (s : StoreStage)
    {s' : StoreStage} (hstage : s' ≠ .quarantining ∧ s' ≠ .replacing)
    (hsettled : s'.Settled → s.Settled ∨ (d .canonical).isSome) :
    CleanCall target d s (d.remove (.temporary i)) s' where
  canonical := .inl (remove_temporary_canonical d i)
  temporary := by
    intro j
    by_cases hj : j = i
    · subst hj
      refine .inr ?_
      rw [Directory.remove_self]
      exact id
    · exact .inl (Directory.remove_of_ne fun h => hj (FileName.temporary.inj h))
  stage := hstage
  settled := by
    rw [remove_temporary_canonical]
    exact hsettled

private theorem cleanCall_link {d : Directory FileName Bytes} {i : Nat} {s : StoreStage}
    {entry : Entry Bytes} (hfree : d .canonical = none) (hgood : ¬Malformed target (some entry)) :
    CleanCall target d s ((d.put .canonical entry).remove (.temporary i)) .syncing := by
  have hlinked : (d.put .canonical entry).remove (.temporary i) .canonical = some entry := by
    rw [remove_temporary_canonical, Directory.put_self]
  refine ⟨.inr ⟨hfree, hlinked ▸ hgood⟩, fun j => ?_, by simp, fun _ => .inr ?_⟩
  · by_cases hj : j = i
    · subst hj
      refine .inr ?_
      rw [Directory.remove_self]
      exact id
    · refine .inl ?_
      rw [Directory.remove_of_ne fun heq => hj (FileName.temporary.inj heq),
        put_canonical_temporary]
  · rw [hlinked]
    rfl

private theorem cleanCall_put {d : Directory FileName Bytes} {i : Nat} {s : StoreStage}
    {entry : Entry Bytes} (hgood : ¬Malformed target (some entry)) :
    CleanCall target d s (d.put (.temporary i) entry) .linking where
  canonical := .inl (put_temporary_canonical d i entry)
  temporary := by
    intro j
    by_cases hj : j = i
    · subst hj
      refine .inr ?_
      rw [Directory.put_self]
      exact hgood
    · exact .inl (Directory.put_of_ne fun heq => hj (FileName.temporary.inj heq))
  stage := by simp
  settled := by simp [StoreStage.Settled]

private theorem cleanCall_same (d : Directory FileName Bytes) (s : StoreStage) {s' : StoreStage}
    (hstage : s' ≠ .quarantining ∧ s' ≠ .replacing)
    (hsettled : s'.Settled → s.Settled ∨ (d .canonical).isSome) : CleanCall target d s d s' where
  canonical := .inl rfl
  temporary := fun _ => .inl rfl
  stage := hstage
  settled := hsettled

theorem Ingesting.Clean.advance {w : Ingesting Bytes} (h : w.Clean target)
    (submission : Submission target) (i : Nat) :
    CleanCall target w.directory (w.stage i)
      (Ingest.advance submission i w.directory (w.stage i)).1
      (Ingest.advance submission i w.directory (w.stage i)).2 := by
  have hstage := h.stage i
  generalize hs : w.stage i = s at hstage
  unfold Ingest.advance
  cases s with
  | writing =>
      dsimp only
      split_ifs with hsame
      · exact cleanCall_put (fun h => absurd h (by simp [isComplete_written submission hsame,
          Malformed]))
      · exact cleanCall_same _ _ (by simp) (by simp [StoreStage.Settled])
  | linking =>
      dsimp only
      cases hlink : w.directory.hardLink (.temporary i) .canonical with
      | error e =>
          cases e with
          | alreadyExists => exact cleanCall_same _ _ (by simp) (by simp [StoreStage.Settled])
          | notFound => exact cleanCall_same _ _ (by simp) (by simp [StoreStage.Settled])
      | ok linked =>
          obtain ⟨entry, htemporary, hfree, rfl⟩ := Directory.hardLink_eq_ok hlink
          exact cleanCall_link hfree (htemporary ▸ h.temporary i)
  | inspecting =>
      dsimp only
      have hcanonical := h.canonical
      cases hentry : w.directory .canonical with
      | none => exact cleanCall_remove _ _ _ (by simp) (by simp [StoreStage.Settled])
      | some entry =>
          rw [hentry] at hcanonical
          obtain ⟨record, rfl, -⟩ := exists_record_of_not_malformed hcanonical
          exact cleanCall_same _ _ (by simp) (by simp [StoreStage.Settled])
  | reading =>
      dsimp only
      have hcanonical := h.canonical
      cases hentry : w.directory .canonical with
      | none => exact cleanCall_remove _ _ _ (by simp) (by simp [StoreStage.Settled])
      | some entry =>
          rw [hentry] at hcanonical
          obtain ⟨record, rfl, hcomplete⟩ := exists_record_of_not_malformed hcanonical
          dsimp only
          rw [isComplete_submission, if_pos hcomplete]
          refine cleanCall_remove _ _ _ (by simp) fun _ => .inr ?_
          rw [hentry]
          rfl
  | quarantining => exact absurd rfl hstage.1
  | replacing => exact absurd rfl hstage.2
  | syncing => exact cleanCall_same _ _ (by simp) fun _ => .inl (.inl rfl)
  | returned ok => exact cleanCall_same _ _ (by simp) fun hsettled => .inl hsettled

variable {w w' : Ingesting Bytes} {label : PublishLabel}

theorem PublishStep.clean (hstep : PublishStep submission w label w') (h : w.Clean target) :
    w'.Clean target := by
  cases hstep with
  | call i =>
      obtain ⟨hcanonical, htemporary, hstage, -⟩ := h.advance (submission i) i
      refine ⟨?_, fun j => ?_, fun j => ?_⟩
      · rcases hcanonical with hsame | ⟨-, hgood⟩
        · dsimp only
          rw [hsame]
          exact h.canonical
        · exact hgood
      · rcases htemporary j with hsame | hgood
        · dsimp only
          rw [hsame]
          exact h.temporary j
        · exact hgood
      · dsimp only
        by_cases hj : j = i
        · subst hj
          rw [Function.update_self]
          exact hstage
        · rw [Function.update_of_ne hj]
          exact h.stage j
  | @fails i hrunning =>
      refine ⟨?_, fun j => ?_, fun j => ?_⟩
      · dsimp only
        rw [remove_temporary_canonical]
        exact h.canonical
      · exact not_malformed_remove h.temporary i j
      · dsimp only
        by_cases hj : j = i
        · subst hj
          rw [Function.update_self]
          simp
        · rw [Function.update_of_ne hj]
          exact h.stage j
  | delete =>
      refine ⟨?_, fun j => ?_, h.stage⟩
      · dsimp only
        rw [Directory.remove_self]
        exact id
      · dsimp only
        rw [remove_canonical_temporary]
        exact h.temporary j
  | cleanup i =>
      refine ⟨?_, fun j => not_malformed_remove h.temporary i j, h.stage⟩
      dsimp only
      rw [remove_temporary_canonical]
      exact h.canonical

theorem clean_start {existing : Option (Entry Bytes)} (h : ¬Malformed target existing) :
    (Ingesting.start existing).Clean target where
  canonical := h
  temporary := fun _ => id
  stage := fun _ => by simp [Ingesting.start]

/-- What has the canonical name keeps it. -/
theorem KeepingStep.canonical (hstep : KeepingStep submission w label w') (h : w.Clean target)
    {entry : Entry Bytes} (hentry : w.directory .canonical = some entry) :
    w'.directory .canonical = some entry := by
  obtain ⟨hstep, hlabel⟩ := hstep
  cases hstep with
  | call i =>
      rcases (h.advance (submission i) i).canonical with hsame | ⟨hfree, -⟩
      · exact hsame.trans hentry
      · rw [hfree] at hentry
        cases hentry
  | @fails i hrunning => exact (remove_temporary_canonical w.directory i).trans hentry
  | delete => exact absurd rfl hlabel
  | cleanup i => exact (remove_temporary_canonical w.directory i).trans hentry

/-- A store that settles leaves a record under the canonical name. -/
theorem KeepingStep.settled (hstep : KeepingStep submission w label w') (h : w.Clean target)
    {i : Nat} (hsettled : (w.stage i).Settled → (w.directory .canonical).isSome)
    (hstage : (w'.stage i).Settled) : (w'.directory .canonical).isSome := by
  by_cases hbefore : (w.stage i).Settled
  · obtain ⟨entry, hentry⟩ := Option.isSome_iff_exists.mp (hsettled hbefore)
    rw [hstep.canonical h hentry]
    rfl
  obtain ⟨hstep, -⟩ := hstep
  cases hstep with
  | call j =>
      dsimp only at hstage
      by_cases hj : i = j
      · subst hj
        rw [Function.update_self] at hstage
        exact ((h.advance (submission i) i).settled hstage).resolve_left hbefore
      · rw [Function.update_of_ne hj] at hstage
        exact absurd hstage hbefore
  | @fails j hrunning =>
      dsimp only at hstage
      by_cases hj : i = j
      · subst hj
        rw [Function.update_self] at hstage
        simp [StoreStage.Settled] at hstage
      · rw [Function.update_of_ne hj] at hstage
        exact absurd hstage hbefore
  | delete => exact absurd hstage hbefore
  | cleanup j => exact absurd hstage hbefore

theorem first_wins_of_clean {existing : Option (Entry Bytes)} (h : ¬Malformed target existing) :
    FirstWins submission existing := by
  intro labels w hrun i hstage labels' w' hrun' hreturned
  have hclean : w.Clean target :=
    hrun.invariant (Ingesting.Clean target) (fun _ _ _ hs hstep => hstep.clean hs) (clean_start h)
  have hunsettled : (w.stage i).Settled → (w.directory .canonical).isSome := by
    rcases hstage with hstage | hstage
    · simp [hstage, StoreStage.Settled]
    · simp [hstage, StoreStage.Settled]
  obtain ⟨hclean', hsettled⟩ := hrun'.invariant
    (fun w => w.Clean target ∧ ((w.stage i).Settled → (w.directory .canonical).isSome))
    (fun _ _ _ hs hstep => ⟨hstep.1.clean hs.1, hstep.settled hs.1 hs.2⟩) ⟨hclean, hunsettled⟩
  obtain ⟨entry, hentry⟩ := Option.isSome_iff_exists.mp (hsettled (.inr hreturned))
  have hgood := hclean'.canonical
  rw [hentry] at hgood
  obtain ⟨record, rfl, hcomplete⟩ := exists_record_of_not_malformed hgood
  refine ⟨record, hcomplete, fun labels'' w'' hrun'' => ?_⟩
  exact (hrun''.invariant
    (fun w => w.Clean target ∧ w.directory .canonical = some (.file record))
    (fun _ _ _ hs hstep => ⟨hstep.1.clean hs.1, hstep.canonical hs.1 hs.2⟩)
    ⟨hclean', hentry⟩).2

/-! ## Two stores that have seen the same malformed file -/

/-- A store gets to a stage by calls of its own. -/
def Gets (submission : Nat → Submission target) (w : Ingesting Bytes) (i : Nat)
    (directory : Directory FileName Bytes) (stage : StoreStage) : Prop :=
  ∃ labels, Run (KeepingStep submission) w labels ⟨directory, Function.update w.stage i stage⟩

private theorem gets_here (submission : Nat → Submission target) (w : Ingesting Bytes) (i : Nat) :
    Gets submission w i w.directory (w.stage i) := by
  refine ⟨[], ?_⟩
  rw [Function.update_eq_self]
  exact .nil w

private theorem Gets.call {i : Nat} {d d' : Directory FileName Bytes} {s s' : StoreStage}
    (h : Gets submission w i d s) (hcall : advance (submission i) i d s = (d', s')) :
    Gets submission w i d' s' := by
  obtain ⟨labels, hrun⟩ := h
  have hstep : PublishStep submission ⟨d, Function.update w.stage i s⟩ (.call i) _ := .call _ i
  simp only [Function.update_self, hcall, Function.update_idem] at hstep
  exact ⟨_, hrun.append (.single ⟨hstep, by simp⟩)⟩

/-- A store that finds something malformed gets ready to replace it. -/
private theorem gets_replacing {i : Nat} {entry : Entry Bytes} (hstage : w.stage i = .writing)
    (hsame : sameEventId format (submission i).metadata.eventId (submission i).eventId = true)
    (hentry : w.directory .canonical = some entry) (hbad : Malformed target (some entry))
    (hcorrupt : w.directory (.corrupt i) = none) :
    Gets submission w i ((w.directory.put (.temporary i) (.file (writePendingRecord format
      (submission i).metadata (submission i).eventData))).put (.corrupt i) entry) .replacing := by
  set record := writePendingRecord format (submission i).metadata (submission i).eventData
  set d := w.directory.put (.temporary i) (.file record) with hd
  have hcanonical : d .canonical = some entry := (put_temporary_canonical _ _ _).trans hentry
  have hwritten : Gets submission w i d .linking := by
    have hhere := gets_here submission w i
    rw [hstage] at hhere
    apply hhere.call
    unfold advance
    exact if_pos hsame
  have hinspecting : Gets submission w i d .inspecting := by
    apply hwritten.call
    have htemporary : d (.temporary i) = some (.file record) := Directory.put_self
    simp [advance, Directory.hardLink, htemporary, hcanonical]
  have hquarantining : Gets submission w i d .quarantining := by
    cases entry with
    | symlink =>
        apply hinspecting.call
        simp [advance, hcanonical]
    | file existing =>
        have hreading : Gets submission w i d .reading := by
          apply hinspecting.call
          simp [advance, hcanonical]
        apply hreading.call
        have hincomplete : isComplete format existing (submission i).eventId
            (submission i).metadata.projectId = false :=
          (isComplete_submission (submission i) existing).trans hbad
        simp [advance, hcanonical, hincomplete]
  apply hquarantining.call
  have hfree : d (.corrupt i) = none := (Directory.put_of_ne (by simp)).trans hcorrupt
  simp [advance, Directory.hardLink, hcanonical, hfree]

/-- A store ready to replace what is there returns without an error. -/
private theorem gets_returned {i : Nat} {entry : Entry Bytes} (hstage : w.stage i = .replacing)
    (htemporary : w.directory (.temporary i) = some entry) :
    Gets submission w i ((w.directory.put .canonical entry).remove (.temporary i))
      (.returned true) := by
  have hhere := gets_here submission w i
  rw [hstage] at hhere
  have hsyncing : Gets submission w i
      ((w.directory.put .canonical entry).remove (.temporary i)) .syncing := by
    apply hhere.call
    simp [advance, Directory.rename, htemporary]
  exact hsyncing.call rfl

variable (target) in
/-- Stores of the event with a payload of their own each. -/
def rivals (i : Nat) : Submission target where
  eventId := target.eventId
  metadata := ⟨target.eventId, target.projectId, 0, none⟩
  eventData := List.replicate i 0
  aims := target.parse
  project := rfl

theorem rivals_sameEventId (i : Nat) :
    sameEventId format (rivals target i).metadata.eventId (rivals target i).eventId = true :=
  decide_eq_true rfl

omit [DecidableEq Uuid] in
theorem rivals_differ :
    writePendingRecord format (rivals target 0).metadata (rivals target 0).eventData ≠
      writePendingRecord format (rivals target 1).metadata (rivals target 1).eventData := by
  intro heq
  rw [writePendingRecord_eq, writePendingRecord_eq] at heq
  have hread := congrArg format.fromSlice heq
  rw [format.fromSlice_text, format.fromSlice_text] at hread
  have hdata := congrArg format.decode
    (congrArg PendingEventRecord.eventData (Option.some.inj hread))
  dsimp only at hdata
  rw [format.decode_encode, format.decode_encode] at hdata
  exact absurd (Option.some.inj hdata) (by simp [rivals])

/-- Two stores judge the same malformed file, and the second replaces the record of the
first after it has returned. -/
theorem second_replaces {existing : Option (Entry Bytes)} (h : Malformed target existing) :
    ¬FirstWins (rivals target) existing := by
  intro hwins
  obtain ⟨entry, rfl⟩ : ∃ entry, existing = some entry := by
    cases existing with
    | none => exact absurd h id
    | some entry => exact ⟨entry, rfl⟩
  set record := fun i => writePendingRecord format (rivals target i).metadata
    (rivals target i).eventData with hrecord
  -- Store 1 judges the file, and store 0 after it.
  obtain ⟨first, hfirst⟩ : Gets (rivals target) (.start (some entry)) 1 _ .replacing :=
    gets_replacing rfl (rivals_sameEventId 1) rfl h rfl
  set w₁ : Ingesting Bytes := ⟨_, Function.update _ 1 .replacing⟩ with hw₁
  have hentry₁ : w₁.directory .canonical = some entry := by simp [w₁, Ingesting.start]
  have hown₁ : w₁.directory (.temporary 1) = some (.file (record 1)) := by simp [w₁, record]
  obtain ⟨second, hsecond⟩ : Gets (rivals target) w₁ 0 _ .replacing :=
    gets_replacing rfl (rivals_sameEventId 0) hentry₁ h (by simp [w₁, Ingesting.start])
  set w₂ : Ingesting Bytes := ⟨_, Function.update _ 0 .replacing⟩ with hw₂
  have hown₂ : w₂.directory (.temporary 0) = some (.file (record 0)) := by simp [w₂, record]
  have hrival₂ : w₂.directory (.temporary 1) = some (.file (record 1)) := by simp [w₂, hown₁]
  -- Store 0 replaces it and returns.
  obtain ⟨third, hthird⟩ : Gets (rivals target) w₂ 0 _ (.returned true) :=
    gets_returned (by simp [w₂]) hown₂
  set w₃ : Ingesting Bytes := ⟨_, Function.update _ 0 (.returned true)⟩ with hw₃
  obtain ⟨kept, -, hkept⟩ := hwins [] (.start (some entry)) (.nil _) 0 (.inl rfl) _ w₃
    ((hfirst.append hsecond).append hthird) (by simp [w₃])
  have hzero : w₃.directory .canonical = some (.file (record 0)) := by simp [w₃]
  -- Store 1 still replaces what it has judged.
  obtain ⟨fourth, hfourth⟩ : Gets (rivals target) w₃ 1 _ (.returned true) :=
    gets_returned (by simp [w₃, w₂, w₁]) (by simpa [w₃] using hrival₂)
  have hone : some (Entry.file (record 1)) = some (.file kept) := by
    simpa using hkept fourth _ hfourth
  have hfirst : some (Entry.file (record 0)) = some (.file kept) :=
    hzero.symm.trans (hkept [] w₃ (.nil w₃))
  exact rivals_differ (Entry.file.inj (Option.some.inj (hfirst.trans hone.symm)))

/-- The first record wins in every interleaving of any stores just when the canonical name
does not stand for something malformed at the start. -/
theorem first_wins_iff (existing : Option (Entry Bytes)) :
    (∀ submission : Nat → Submission target, FirstWins submission existing) ↔
      ¬Malformed target existing :=
  ⟨fun hwins hbad => second_replaces hbad (hwins _), fun h _ => first_wins_of_clean h⟩

/-- A format in which a file is what its JSON reads as, and base64 has a character for
each byte. -/
def plainFormat : PendingFormat (Option PendingEventRecord) String where
  parseUuid s := if s.length = 36 then some s else none
  fromSlice := id
  text version metadata data := some ⟨version, metadata, data⟩
  encode data := String.ofList (data.map fun byte => Char.ofNat byte.toNat)
  decode text := some (text.toList.map fun c => UInt8.ofNat c.toNat)
  encode_append a b _ := by rw [List.map_append, String.ofList_append]
  decode_encode data := by
    rw [String.toList_ofList, List.map_map]
    refine congrArg some (List.map_id'' (fun byte => ?_) data)
    have hbyte := byte.toNat_lt
    have hvalid : (byte.toNat).isValidChar := .inl (by omega)
    rw [Function.comp_apply]
    unfold Char.ofNat
    rw [dif_pos hvalid]
    exact UInt8.ofNat_toNat
  fromSlice_text _ _ _ := rfl

/-- An event of project 7. -/
def eventOfSeven : Target plainFormat where
  projectId := 7
  eventId := "9ec79c33-ec99-42ab-8353-589fcb2e04dc"
  uuid := "9ec79c33-ec99-42ab-8353-589fcb2e04dc"
  parse := by decide

/-- A file that is cut short costs the first record that replaces it. -/
theorem malformed_file_costs_first_record :
    ¬FirstWins (rivals eventOfSeven) (some (.file none)) :=
  second_replaces rfl

end Rustrak.Ingest
