import Mathlib.Data.List.Induction
import Mathlib.Data.List.Nodup
import Rustrak.Ingest.Storage

/-!
# What recovery finds

The ingest directory over any sequence of calls, against what it is for: a shelf with at
most one payload for each project and event.  Recovery never sees the shelf.  It takes
names apart that others built, among files it does not know.

## Strategy

* **Runs.**  `Shelved` relates directory and shelf and is kept by every call
  (`Shelved.call`).
* **The listing.**  A fold that remembers what it has seen lists every pair once
  (`Listed`); what it lists is what some file says, whose name speaks for it
  (`pendingIn_spec`).
-/

namespace Rustrak.Ingest

open Rustrak.Core Rustrak.Files

variable {Bytes Uuid : Type} {format : StorageFormat Bytes Uuid} {projectId other : Int}
  {uuid uuid' : Uuid}

/-! ## Runs -/

section Runs

variable [DecidableEq Uuid]

/-- A call, or what somebody else does to a name. -/
inductive StorageCall (Bytes : Type)
  | store (token corrupt eventId : String) (eventData : List UInt8) (metadata : EventMetadata)
  | storeFlat (token eventId : String) (eventData : List UInt8)
  | read (projectId : Int) (eventId : String)
  | delete (projectId : Int) (eventId : String) (location : EventStorageLocation)
  | deleteFlat (eventId : String)
  | list (expired : String → Bool)
  | foreign (name : String) (entry : Option (Entry Bytes))

/-- Nobody else uses the names of pending records. -/
def StorageCall.Allowed (format : StorageFormat Bytes Uuid) : StorageCall Bytes → Prop
  | .store _ _ _ _ metadata => IsI32 metadata.projectId
  | .read projectId _ | .delete projectId _ _ => IsI32 projectId
  | .foreign name _ =>
      ∀ projectId uuid, IsI32 projectId → name ≠ projectPendingEventName format projectId uuid
  | .storeFlat _ _ _ | .deleteFlat _ | .list _ => True

def IngestDir.call (format : StorageFormat Bytes Uuid) (dir : IngestDir Bytes) :
    StorageCall Bytes → IngestDir Bytes
  | .store token corrupt eventId eventData metadata =>
      (storeEventWithMetadata format dir token corrupt eventId eventData metadata).1
  | .storeFlat token eventId eventData => (storeEvent format dir token eventId eventData).1
  | .read _ _ => dir
  | .delete projectId eventId location => deleteEventAt format dir projectId eventId location
  | .deleteFlat eventId => deleteEvent format dir eventId
  | .list expired => cleanupOrphanedTemporaryFiles expired dir
  | .foreign name entry => dir.update (Function.update dir.entries name entry)

/-- What the directory is for: the first payload of every event of every project, until it
is deleted. -/
abbrev Shelf (Uuid : Type) := Int × Uuid → Option (List UInt8)

def Shelf.put (shelf : Shelf Uuid) (key : Int × Uuid) (eventData : List UInt8) : Shelf Uuid :=
  if (shelf key).isSome then shelf else Function.update shelf key (some eventData)

/-- What a call does to the shelf; a store counts if it succeeds in `dir`. -/
def Shelf.call (format : StorageFormat Bytes Uuid) (dir : IngestDir Bytes) (shelf : Shelf Uuid) :
    StorageCall Bytes → Shelf Uuid
  | .store token corrupt eventId eventData metadata =>
      match format.parseUuid eventId,
        (storeEventWithMetadata format dir token corrupt eventId eventData metadata).2 with
      | some uuid, true => shelf.put (metadata.projectId, uuid) eventData
      | _, _ => shelf
  | .delete projectId eventId .project =>
      match format.parseUuid eventId with
      | some uuid => Function.update shelf (projectId, uuid) none
      | none => shelf
  | .delete _ _ .legacy | .storeFlat _ _ _ | .read _ _ | .deleteFlat _ | .list _ | .foreign _ _ =>
      shelf

variable (format) in
/-- The directory and the shelf after some calls, the shelf being empty at first. -/
def afterCalls (start : IngestDir Bytes) (calls : List (StorageCall Bytes)) :
    IngestDir Bytes × Shelf Uuid :=
  calls.foldl (fun now call => (now.1.call format call, now.2.call format now.1 call))
    (start, fun _ => none)

variable (format) in
/-- The directory has what is on the shelf, and no complete record else. -/
def Shelved (entries : Directory String Bytes) (shelf : Shelf Uuid) : Prop :=
  ∀ projectId uuid, IsI32 projectId →
    match shelf (projectId, uuid) with
    | some eventData =>
        ∃ metadata : EventMetadata, metadata.projectId = projectId ∧
          format.parseUuid metadata.eventId = some uuid ∧
          entries (projectPendingEventName format projectId uuid) =
            some (.file (writePendingRecord format.toPendingFormat metadata eventData))
    | none =>
        isCompleteAt format entries (projectPendingEventName format projectId uuid)
          (format.simple uuid) projectId = false

/-- A record of a store is a complete one of its event, however the event is spelled. -/
theorem isComplete_writePendingRecord {metadata : EventMetadata} {eventId : String}
    (hevent : format.parseUuid metadata.eventId = format.parseUuid eventId)
    (eventData : List UInt8) :
    isComplete format.toPendingFormat
      (writePendingRecord format.toPendingFormat metadata eventData) eventId
      metadata.projectId = true := by
  unfold isComplete
  rw [writePendingRecord_eq, format.fromSlice_text]
  refine validatePendingRecord_isSome.mpr ⟨rfl, hevent, rfl, ?_⟩
  rw [format.decode_encode]
  rfl

theorem isComplete_congr {eventId eventId' : String}
    (h : format.parseUuid eventId = format.parseUuid eventId') (content : Bytes)
    (projectId : Int) :
    isComplete format.toPendingFormat content eventId projectId =
      isComplete format.toPendingFormat content eventId' projectId := by
  unfold isComplete
  cases format.fromSlice content with
  | none => rfl
  | some record =>
      rw [Bool.eq_iff_iff, validatePendingRecord_isSome, validatePendingRecord_isSome, h]

theorem isCompleteAt_congr {eventId eventId' : String}
    (h : format.parseUuid eventId = format.parseUuid eventId')
    (entries : Directory String Bytes) (name : String) (projectId : Int) :
    isCompleteAt format entries name eventId projectId =
      isCompleteAt format entries name eventId' projectId := by
  unfold isCompleteAt
  split
  · exact isComplete_congr h _ _
  · rfl
  · rfl

variable {entries entries' : Directory String Bytes} {shelf : Shelf Uuid}

/-- Only the names of pending records matter. -/
theorem Shelved.congr (h : Shelved format entries shelf)
    (hsame : ∀ projectId uuid, IsI32 projectId →
      entries' (projectPendingEventName format projectId uuid) =
        entries (projectPendingEventName format projectId uuid)) :
    Shelved format entries' shelf := by
  intro projectId uuid hproject
  have hentry := h projectId uuid hproject
  unfold isCompleteAt at hentry ⊢
  rw [hsame projectId uuid hproject]
  exact hentry

private theorem Shelved.hidden (h : Shelved format entries shelf)
    (hsame : ∀ name, initial name = some 'p' → entries' name = entries name) :
    Shelved format entries' shelf :=
  h.congr fun _ _ _ => hsame _ initial_projectPendingEventName

/-- A store that succeeds puts its payload on the shelf if there is none. -/
private theorem Shelved.stores (h : Shelved format entries shelf) {metadata : EventMetadata}
    {eventId : String} {eventData : List UInt8} {result : Directory String Bytes × Bool}
    (hproject : IsI32 metadata.projectId) (hevent : format.parseUuid eventId = some uuid)
    (hmetadata : format.parseUuid metadata.eventId = some uuid)
    (hstores : Stores format entries (projectPendingEventName format metadata.projectId uuid)
      eventId metadata eventData result) :
    Shelved format result.1
      (if result.2 then shelf.put (metadata.projectId, uuid) eventData else shelf) := by
  intro projectId uuid' hother
  by_cases hkey : (projectId, uuid') = (metadata.projectId, uuid)
  · obtain ⟨rfl, rfl⟩ := Prod.mk.inj hkey
    have hentry := h metadata.projectId uuid' hproject
    cases hshelf : shelf (metadata.projectId, uuid') with
    | some old =>
        rw [hshelf] at hentry
        obtain ⟨first, hfirst, hfirstId, hfile⟩ := hentry
        have hcomplete : isCompleteAt format entries
            (projectPendingEventName format metadata.projectId uuid') eventId
            metadata.projectId = true := by
          rw [isCompleteAt, hfile, ← hfirst]
          exact isComplete_writePendingRecord (hfirstId.trans hevent.symm) old
        have hshelf' : (if result.2 then shelf.put (metadata.projectId, uuid') eventData
            else shelf) (metadata.projectId, uuid') = some old := by
          split_ifs <;> simp [Shelf.put, hshelf]
        rw [hshelf', hstores.kept (.inl hcomplete)]
        exact ⟨first, hfirst, hfirstId, hfile⟩
    | none =>
        rw [hshelf] at hentry
        have hspelled : format.parseUuid (format.simple uuid') = format.parseUuid eventId :=
          (format.parse_simple uuid').trans hevent.symm
        cases hok : result.2 with
        | false =>
            simp only [Bool.false_eq_true, if_false, hshelf]
            unfold isCompleteAt at hentry ⊢
            rw [hstores.kept (.inr hok)]
            exact hentry
        | true =>
            have hshelf' : shelf.put (metadata.projectId, uuid') eventData
                (metadata.projectId, uuid') = some eventData := by
              simp [Shelf.put, hshelf]
            simp only [if_true, hshelf']
            rw [isCompleteAt_congr hspelled] at hentry
            exact ⟨metadata, rfl, hmetadata, hstores.stored hentry hok⟩
  · have hname : projectPendingEventName format projectId uuid' ≠
        projectPendingEventName format metadata.projectId uuid := by
      intro heq
      obtain ⟨rfl, rfl⟩ := projectPendingEventName_inj hother hproject heq
      exact hkey rfl
    have hshelf' : (if result.2 then shelf.put (metadata.projectId, uuid) eventData
        else shelf) (projectId, uuid') = shelf (projectId, uuid') := by
      unfold Shelf.put
      split_ifs
      · rfl
      · exact Function.update_of_ne hkey _ _
      · rfl
    have hentry := h projectId uuid' hother
    unfold isCompleteAt at hentry ⊢
    rw [hshelf', hstores.frame _ hname (by simp)]
    exact hentry

variable (format) in
/-- A store does nothing, or is that of a valid event. -/
theorem storeEventWithMetadata_cases (dir : IngestDir Bytes) (token corrupt eventId : String)
    (eventData : List UInt8) (metadata : EventMetadata) :
    storeEventWithMetadata format dir token corrupt eventId eventData metadata = (dir, false) ∨
      ∃ uuid result, format.parseUuid eventId = some uuid ∧
        format.parseUuid metadata.eventId = some uuid ∧
        Stores format dir.entries (projectPendingEventName format metadata.projectId uuid)
          eventId metadata eventData result ∧
        storeEventWithMetadata format dir token corrupt eventId eventData metadata =
          (dir.update result.1, result.2) := by
  unfold storeEventWithMetadata
  split_ifs with hsame
  · cases hevent : format.parseUuid eventId with
    | none => exact .inl rfl
    | some uuid =>
        refine .inr ⟨uuid, _, rfl, (of_decide_eq_true hsame).trans hevent, ?_, rfl⟩
        exact writePendingRecordAtomically_spec (by simp) token corrupt
  · exact .inl rfl

theorem Shelved.store {dir : IngestDir Bytes} (h : Shelved format dir.entries shelf)
    {metadata : EventMetadata} (hproject : IsI32 metadata.projectId)
    (token corrupt eventId : String) (eventData : List UInt8) :
    Shelved format
      (dir.call format (.store token corrupt eventId eventData metadata)).entries
      (shelf.call format dir (.store token corrupt eventId eventData metadata)) := by
  simp only [IngestDir.call, Shelf.call]
  rcases storeEventWithMetadata_cases format dir token corrupt eventId eventData
    metadata with hnothing | ⟨uuid, result, hevent, hmetadata, hstores, hresult⟩
  · rw [hnothing]
    split
    · next heq => contradiction
    · exact h
  · rw [hresult, hevent]
    have hstored := h.stores hproject hevent hmetadata hstores
    cases hok : result.2 with
    | true => simpa [hok, IngestDir.update] using hstored
    | false => simpa [hok, IngestDir.update] using hstored

/-- The names of the flat layout, and hidden ones, are not those of pending records. -/
theorem Shelved.storeFlat {dir : IngestDir Bytes} (h : Shelved format dir.entries shelf)
    (token eventId : String) (eventData : List UInt8) :
    Shelved format (storeEvent format dir token eventId eventData).1.entries shelf := by
  unfold storeEvent
  cases format.parseUuid eventId with
  | none => exact h
  | some uuid =>
      have hhidden : ∀ name, initial name = some 'p' →
          name ≠ temporaryName (eventName format uuid) token ∧ name ≠ eventName format uuid := by
        intro name hname
        refine ⟨ne_of_initial (by simp [hname]) (initial_temporaryName _ _), ?_⟩
        rintro rfl
        exact initial_simple_append uuid _ hname
      dsimp only
      cases dir.entries (temporaryName (eventName format uuid) token) with
      | some _ => exact h.hidden fun name hname => Directory.remove_of_ne (hhidden name hname).1
      | none =>
          dsimp only
          rw [Directory.rename, Directory.put_self, Option.map_some]
          apply h.hidden
          intro name hname
          obtain ⟨htemporary, hflat⟩ := hhidden name hname
          exact (Directory.remove_of_ne htemporary).trans <|
            (Directory.put_of_ne hflat).trans (Directory.put_of_ne htemporary)

theorem Shelved.deleteFlat {dir : IngestDir Bytes} (h : Shelved format dir.entries shelf)
    (projectId : Int) (eventId : String) :
    Shelved format (deleteEventAt format dir projectId eventId .legacy).entries shelf := by
  unfold deleteEventAt eventPathsAt
  cases format.parseUuid eventId with
  | none => exact h
  | some uuid =>
      apply h.hidden
      intro name hname
      have hne : ∀ rest, name ≠ format.simple uuid ++ rest := by
        rintro rest rfl
        exact initial_simple_append uuid rest hname
      simp only [IngestDir.deletePaths, IngestDir.update, List.foldl_cons, List.foldl_nil]
      rw [Directory.remove_of_ne, Directory.remove_of_ne, Directory.remove_of_ne]
      · exact hne _
      · rw [eventMetadataName_eq]
        exact hne _
      · rw [pendingEventName_eq]
        exact hne _

/-- A deletion takes the event of one project and nothing of any other. -/
theorem Shelved.delete {dir : IngestDir Bytes} (h : Shelved format dir.entries shelf)
    (hproject : IsI32 projectId) (eventId : String) :
    Shelved format (dir.call format (.delete projectId eventId .project)).entries
      (shelf.call format dir (.delete projectId eventId .project)) := by
  simp only [IngestDir.call, Shelf.call, deleteEventAt, eventPathsAt]
  cases format.parseUuid eventId with
  | none => exact h
  | some uuid =>
      simp only [IngestDir.deletePaths, IngestDir.update, List.foldl_cons, List.foldl_nil]
      intro other uuid' hother
      by_cases hkey : (other, uuid') = (projectId, uuid)
      · obtain ⟨rfl, rfl⟩ := Prod.mk.inj hkey
        rw [Function.update_self, isCompleteAt, Directory.remove_self]
      · have hname : projectPendingEventName format other uuid' ≠
            projectPendingEventName format projectId uuid := by
          intro heq
          obtain ⟨rfl, rfl⟩ := projectPendingEventName_inj hother hproject heq
          exact hkey rfl
        have hentry := h other uuid' hother
        unfold isCompleteAt at hentry ⊢
        rw [Function.update_of_ne hkey, Directory.remove_of_ne hname,
          Directory.remove_of_ne projectEventName_ne.symm]
        exact hentry

theorem Shelved.call {dir : IngestDir Bytes} (h : Shelved format dir.entries shelf)
    (call : StorageCall Bytes) (hallowed : call.Allowed format) :
    Shelved format (dir.call format call).entries (shelf.call format dir call) := by
  cases call with
  | store token corrupt eventId eventData metadata => exact h.store hallowed _ _ _ _
  | storeFlat token eventId eventData => exact h.storeFlat _ _ _
  | read projectId eventId => exact h
  | delete projectId eventId location =>
      cases location with
      | project => exact h.delete hallowed eventId
      | legacy => exact h.deleteFlat projectId eventId
  | deleteFlat eventId => exact h.deleteFlat 0 eventId
  | list expired =>
      apply h.hidden
      intro name hname
      simp [IngestDir.call, cleanupOrphanedTemporaryFiles, IngestDir.update,
        isOrphanedTemporaryFile_of_initial hname]
  | foreign name entry =>
      apply h.congr
      intro projectId uuid hproject
      have hne := (hallowed projectId uuid hproject).symm
      simp only [IngestDir.call, IngestDir.update, Function.update_of_ne hne]

theorem shelved_afterCalls {start : IngestDir Bytes}
    (hstart : Shelved format start.entries fun _ => none) (calls : List (StorageCall Bytes))
    (hallowed : ∀ call ∈ calls, call.Allowed format) :
    Shelved format (afterCalls format start calls).1.entries (afterCalls format start calls).2 := by
  unfold afterCalls
  generalize (fun _ => none : Shelf Uuid) = shelf at hstart ⊢
  induction calls generalizing start shelf with
  | nil => exact hstart
  | cons call rest ih =>
      rw [List.foldl_cons]
      apply ih
      · exact fun later hlater => hallowed later (List.mem_cons_of_mem _ hlater)
      · exact hstart.call _ (hallowed call List.mem_cons_self)

/-! ## Reading -/

variable (format) in
theorem decode_writePendingRecord {metadata : EventMetadata} {eventId : String}
    (hevent : format.parseUuid metadata.eventId = format.parseUuid eventId)
    (eventData : List UInt8) :
    decodePendingRecord format (writePendingRecord format.toPendingFormat metadata eventData)
      eventId metadata.projectId = .ok eventData := by
  have hvalid : validatePendingRecord format.toPendingFormat
      ⟨pendingEventVersion, metadata, format.encode eventData⟩ eventId
      (some metadata.projectId) = some eventData := by
    simp [validatePendingRecord, sameEventId, hevent, format.decode_encode]
  rw [decodePendingRecord, writePendingRecord_eq, format.fromSlice_text]
  dsimp only
  rw [hvalid]

theorem Shelved.read {dir : IngestDir Bytes} (h : Shelved format dir.entries shelf)
    (hproject : IsI32 projectId) {eventId : String} (hevent : format.parseUuid eventId = some uuid)
    {eventData : List UInt8} (hshelf : shelf (projectId, uuid) = some eventData) :
    readEventWithLocation format dir projectId eventId = .ok (eventData, .project) := by
  have hentry := h projectId uuid hproject
  rw [hshelf] at hentry
  obtain ⟨metadata, rfl, hmetadata, hfile⟩ := hentry
  have hread : dir.read (projectPendingEventName format metadata.projectId uuid) =
      some (writePendingRecord format.toPendingFormat metadata eventData) := by
    rw [IngestDir.read, hfile]
  have hdecode := decode_writePendingRecord format
    (hmetadata.trans hevent.symm) eventData
  rw [readEventWithLocation, hevent]
  dsimp only
  rw [hread]
  dsimp only
  rw [hdecode]
  rfl

/-! ## Listing -/

variable (format) in
/-- How a file name can speak for an event: it is that of a record of the project, that of
a record of the flat layout, or that of flat metadata, which is not compared. -/
inductive Speaks (fileName : String) (metadata : EventMetadata) (uuid : Uuid) : Prop
  | project : parseProjectPendingFilename format fileName = some (metadata.projectId, uuid) →
      Speaks fileName metadata uuid
  | flat (eventId : String) : stripSuffix fileName ".pending.json" = some eventId →
      format.parseUuid eventId = some uuid → Speaks fileName metadata uuid
  | metadata : endsWith fileName ".meta.json" = true → Speaks fileName metadata uuid

theorem pendingFilenameMatches_speaks {fileName : String} {metadata : EventMetadata}
    (h : pendingFilenameMatches format fileName metadata uuid = true) :
    Speaks format fileName metadata uuid := by
  unfold pendingFilenameMatches at h
  split at h
  · next filenameProject filenameId hparse =>
      rw [Bool.and_eq_true, beq_iff_eq, beq_iff_eq] at h
      obtain ⟨rfl, rfl⟩ := h
      exact .project hparse
  · obtain ⟨eventId, hstem, hparse⟩ := Option.bind_eq_some_iff.mp (beq_iff_eq.mp h)
    exact .flat eventId hstem hparse

omit [DecidableEq Uuid] in
theorem Speaks.endsWith_json {fileName : String} {metadata : EventMetadata}
    (h : Speaks format fileName metadata uuid) : endsWith fileName ".json" = true := by
  have hpending : ∀ stem, stripSuffix fileName ".pending.json" = some stem →
      endsWith fileName ".json" = true := by
    intro stem hstem
    unfold stripSuffix at hstem
    split_ifs at hstem with hends
    obtain ⟨rest, rfl⟩ := endsWith_iff.mp hends
    have hsplit : (".pending.json" : String) = ".pending" ++ ".json" := by decide
    exact endsWith_iff.mpr ⟨rest ++ ".pending", by rw [hsplit, String.append_assoc]⟩
  cases h with
  | project hparse =>
      obtain ⟨stem, hstem, -⟩ := Option.bind_eq_some_iff.mp hparse
      exact hpending stem hstem
  | flat eventId hstem => exact hpending eventId hstem
  | metadata hends =>
      obtain ⟨rest, rfl⟩ := endsWith_iff.mp hends
      have hsplit : (".meta.json" : String) = ".meta" ++ ".json" := by decide
      exact endsWith_iff.mpr ⟨rest ++ ".meta", by rw [hsplit, String.append_assoc]⟩

omit [DecidableEq Uuid] in
private theorem not_speaks_of_token {start token : String} (htoken : 'n' ∉ token.toList)
    (metadata : EventMetadata) (uuid : Uuid) :
    ¬Speaks format (start ++ "-" ++ token) metadata uuid := by
  intro h
  obtain ⟨rest, hrest⟩ := endsWith_iff.mp h.endsWith_json
  have hlast := congrArg (fun s => s.toList.getLast?) hrest
  simp only [String.toList_append] at hlast
  rw [@List.getLast?_append_of_ne_nil _ _ ".json".toList (by decide)] at hlast
  by_cases hempty : token.toList = []
  · rw [hempty, List.append_nil, List.getLast?_append_of_ne_nil _ (by decide)] at hlast
    exact absurd hlast (by decide)
  · rw [List.getLast?_append_of_ne_nil _ hempty] at hlast
    exact htoken (List.mem_of_getLast? hlast)

omit [DecidableEq Uuid] in
/-- A temporary or quarantined file speaks for nothing: its name ends in a UUID, which has
no `n`. -/
theorem Speaks.not_hidden {fileName : String} {metadata : EventMetadata}
    (h : Speaks format fileName metadata uuid) (written : String) {token : String}
    (htoken : 'n' ∉ token.toList) :
    fileName ≠ temporaryName written token ∧ fileName ≠ quarantineName written token := by
  constructor
  · rintro rfl
    have hsplit : temporaryName written token = "." ++ written ++ ".tmp" ++ "-" ++ token := by
      simp only [temporaryName, String.append_assoc]
      rfl
    exact not_speaks_of_token htoken metadata uuid (hsplit ▸ h)
  · rintro rfl
    have hsplit : quarantineName written token =
        "." ++ written ++ ".corrupt" ++ "-" ++ token := by
      simp only [quarantineName, String.append_assoc]
      rfl
    exact not_speaks_of_token htoken metadata uuid (hsplit ▸ h)

variable {dir : IngestDir Bytes} {owned : Int → Uuid → Bool} {names : List String}

/-- What a file says is pending is an event whose name it has. -/
theorem pendingIn_spec {fileName : String} {metadata : EventMetadata}
    (h : pendingIn format dir owned fileName = some (metadata, uuid)) :
    format.parseUuid metadata.eventId = some uuid ∧ (dir.read fileName).isSome ∧
      Speaks format fileName metadata uuid := by
  unfold pendingIn at h
  dsimp only at h
  split_ifs at h with hneither howned hrecord
  · cases hread : dir.read fileName with
    | none => simp [hread] at h
    | some content =>
        cases hslice : format.fromSlice content with
        | none => simp [hread, hslice] at h
        | some record =>
            simp only [hread, hslice] at h
            split_ifs at h with hversion
            cases hparse : format.parseUuid record.metadata.eventId with
            | none => simp [hparse] at h
            | some metadataId =>
                simp only [hparse] at h
                split_ifs at h with hmatches
                obtain ⟨rfl, rfl⟩ := Prod.mk.inj (Option.some.inj h)
                exact ⟨hparse, rfl, pendingFilenameMatches_speaks hmatches⟩
  · have hmeta : endsWith fileName ".meta.json" = true := by
      simpa [hrecord] using hneither
    cases hread : dir.read fileName with
    | none => simp [hread] at h
    | some content =>
        cases hslice : format.metadataFromSlice content with
        | none => simp [hread, hslice] at h
        | some found =>
            simp only [hread, hslice, Option.map_eq_some_iff, Prod.mk.injEq] at h
            obtain ⟨eventId, hparse, rfl, rfl⟩ := h
            exact ⟨hparse, rfl, .metadata hmeta⟩

/-- The record of a store speaks for its event. -/
theorem pendingIn_projectPendingEventName (hproject : IsI32 projectId) {metadata : EventMetadata}
    (hmetadata : metadata.projectId = projectId)
    (hevent : format.parseUuid metadata.eventId = some uuid) {eventData : List UInt8}
    (hfile : dir.entries (projectPendingEventName format projectId uuid) =
      some (.file (writePendingRecord format.toPendingFormat metadata eventData)))
    (howned : owned projectId uuid = false) :
    pendingIn format dir owned (projectPendingEventName format projectId uuid) =
      some (metadata, uuid) := by
  have hsuffix : endsWith (projectPendingEventName format projectId uuid) ".pending.json" =
      true := by
    rw [projectPendingEventName_eq]
    exact endsWith_append _ _
  have hparse := parse_projectPendingEventName format hproject uuid
  have hread : dir.read (projectPendingEventName format projectId uuid) =
      some (writePendingRecord format.toPendingFormat metadata eventData) := by
    rw [IngestDir.read, hfile]
  have hmatches : pendingFilenameMatches format (projectPendingEventName format projectId uuid)
      metadata uuid = true := by
    simp [pendingFilenameMatches, hparse, hmetadata]
  simp [pendingIn, hsuffix, hparse, howned, hread, writePendingRecord_eq, format.fromSlice_text,
    hevent, hmatches]

/-- What a listing has come to. -/
structure Listed (format : StorageFormat Bytes Uuid) (dir : IngestDir Bytes)
    (owned : Int → Uuid → Bool) (names : List String)
    (seen : List (Int × Uuid) × List EventMetadata) : Prop where
  keys : seen.2.map (fun m => (m.projectId, format.parseUuid m.eventId)) =
    seen.1.reverse.map fun key => (key.1, some key.2)
  nodup : seen.1.Nodup
  from_file : ∀ m ∈ seen.2, ∃ name ∈ names, ∃ uuid,
    pendingIn format dir owned name = some (m, uuid)
  complete : ∀ name ∈ names, ∀ m uuid, pendingIn format dir owned name = some (m, uuid) →
    (m.projectId, uuid) ∈ seen.1

private theorem Listed.entry {seen : List (Int × Uuid) × List EventMetadata}
    (h : Listed format dir owned names seen) (fileName : String) :
    Listed format dir owned (names ++ [fileName]) (listEntry format dir owned seen fileName) := by
  have hold : ∀ m ∈ seen.2, ∃ name ∈ names ++ [fileName], ∃ uuid,
      pendingIn format dir owned name = some (m, uuid) := by
    intro m hm
    obtain ⟨name, hname, hpending⟩ := h.from_file m hm
    exact ⟨name, List.mem_append_left _ hname, hpending⟩
  unfold listEntry
  cases hpending : pendingIn format dir owned fileName with
  | none =>
      refine ⟨h.keys, h.nodup, hold, ?_⟩
      intro name hname m uuid hm
      rcases List.mem_append.mp hname with hname | hname
      · exact h.complete name hname m uuid hm
      · obtain rfl := List.mem_singleton.mp hname
        rw [hpending] at hm
        contradiction
  | some found =>
      obtain ⟨metadata, uuid⟩ := found
      dsimp only
      have hnew : ∀ keys : List (Int × Uuid), (metadata.projectId, uuid) ∈ keys →
          (∀ key ∈ seen.1, key ∈ keys) → ∀ name ∈ names ++ [fileName], ∀ m uuid,
          pendingIn format dir owned name = some (m, uuid) → (m.projectId, uuid) ∈ keys := by
        intro keys hmem hkeys name hname m uuid hm
        rcases List.mem_append.mp hname with hname | hname
        · exact hkeys _ (h.complete name hname m uuid hm)
        · obtain rfl := List.mem_singleton.mp hname
          rw [hpending] at hm
          obtain ⟨rfl, rfl⟩ := Prod.mk.inj (Option.some.inj hm)
          exact hmem
      split_ifs with hseen
      · exact ⟨h.keys, h.nodup, hold,
          hnew _ (List.contains_iff_mem.mp hseen) fun _ hkey => hkey⟩
      · have hfresh : (metadata.projectId, uuid) ∉ seen.1 := mt List.contains_iff_mem.mpr hseen
        refine ⟨?_, List.nodup_cons.mpr ⟨hfresh, h.nodup⟩, ?_,
          hnew _ List.mem_cons_self fun _ hkey => List.mem_cons_of_mem _ hkey⟩
        · simp [h.keys, (pendingIn_spec hpending).1]
        · intro m hm
          rcases List.mem_append.mp hm with hm | hm
          · exact hold m hm
          · obtain rfl := List.mem_singleton.mp hm
            exact ⟨fileName, by simp, uuid, hpending⟩

variable (format) (dir) (owned) in
theorem listed_foldl (names : List String) :
    Listed format dir owned names (names.foldl (listEntry format dir owned) ([], [])) := by
  induction names using List.reverseRecOn with
  | nil => exact ⟨rfl, List.nodup_nil, by simp, by simp⟩
  | append_singleton names fileName ih =>
      rw [List.foldl_append]
      exact ih.entry fileName

/-- No event is listed twice. -/
theorem Listed.nodup_keys {seen : List (Int × Uuid) × List EventMetadata}
    (h : Listed format dir owned names seen) :
    (seen.2.map fun m => (m.projectId, format.parseUuid m.eventId)).Nodup := by
  rw [h.keys]
  refine List.Nodup.map ?_ (List.nodup_reverse.mpr h.nodup)
  intro key key' heq
  obtain ⟨hproject, huuid⟩ := Prod.mk.inj heq
  exact Prod.ext hproject (Option.some.inj huuid)

/-! ## The shelf and the directory -/

/-- The one entry of a list whose entries differ in what is asked for. -/
private theorem filter_eq_singleton {α β : Type} [DecidableEq β] {f : α → β} {l : List α}
    (hnodup : (l.map f).Nodup) {b : β} (hmem : b ∈ l.map f) :
    ∃ a, l.filter (fun a => f a = b) = [a] := by
  induction l with
  | nil => simp at hmem
  | cons head rest ih =>
      rw [List.map_cons, List.nodup_cons] at hnodup
      by_cases hhead : f head = b
      · have hrest : rest.filter (fun a => f a = b) = [] := by
          rw [List.filter_eq_nil_iff]
          intro a ha heq
          refine hnodup.1 ?_
          rw [hhead, ← of_decide_eq_true heq]
          exact List.mem_map_of_mem ha
        exact ⟨head, by simp [hhead, hrest]⟩
      · have hmem : b ∈ rest.map f := by
          rcases List.mem_cons.mp hmem with heq | hmem
          · exact absurd heq.symm hhead
          · exact hmem
        obtain ⟨a, ha⟩ := ih hnodup.2 hmem
        exact ⟨a, by simp [hhead, ha]⟩

/-- A listing has every event of the shelf that nobody owns, once. -/
theorem Shelved.listed (h : Shelved format dir.entries shelf)
    (hnames : ∀ name, dir.entries name ≠ none → name ∈ names) (hproject : IsI32 projectId)
    (hshelf : (shelf (projectId, uuid)).isSome) (howned : owned projectId uuid = false) :
    ∃ m, (listPendingEventMetadataExcept format dir owned names).filter (fun m =>
      (m.projectId, format.parseUuid m.eventId) = (projectId, some uuid)) = [m] := by
  have hlisted := listed_foldl format dir owned names
  refine filter_eq_singleton hlisted.nodup_keys ?_
  obtain ⟨eventData, hdata⟩ := Option.isSome_iff_exists.mp hshelf
  have hentry := h projectId uuid hproject
  rw [hdata] at hentry
  obtain ⟨metadata, hmetadata, hevent, hfile⟩ := hentry
  have hname := hnames _ (by rw [hfile]; simp)
  have hseen := hlisted.complete _ hname _ _
    (pendingIn_projectPendingEventName hproject hmetadata hevent hfile howned)
  rw [hlisted.keys, List.mem_map]
  exact ⟨_, List.mem_reverse.mpr hseen, by rw [hmetadata]⟩

/-- Deleting or reading an event of one project leaves those of the others. -/
theorem Shelf.call_delete_of_ne {projectId other : Int} (hne : projectId ≠ other)
    (dir : IngestDir Bytes) (shelf : Shelf Uuid) (eventId : String)
    (location : EventStorageLocation) (uuid : Uuid) :
    shelf.call format dir (.delete projectId eventId location) (other, uuid) =
      shelf (other, uuid) := by
  cases location with
  | legacy => rfl
  | project =>
      simp only [Shelf.call]
      cases format.parseUuid eventId with
      | none => rfl
      | some deleted =>
          apply Function.update_of_ne
          rintro heq
          exact hne (Prod.mk.inj heq).1.symm

/-- What becomes of stored events, whatever calls came before.  A store of a valid event
whose random names are free succeeds; a read returns the first payload stored; a listing has
every stored event that nobody owns once, and nothing but what a file says whose name speaks
for it, no temporary or quarantined one; a deletion or a read leaves the events of other projects. -/
theorem pending_storage {start : IngestDir Bytes}
    (hstart : Shelved format start.entries fun _ => none) {calls : List (StorageCall Bytes)}
    (hallowed : ∀ call ∈ calls, call.Allowed format) :
    let now := (afterCalls format start calls).1
    let shelf := (afterCalls format start calls).2
    (∀ token corrupt eventId eventData metadata uuid,
      format.parseUuid eventId = some uuid → format.parseUuid metadata.eventId = some uuid →
      now.entries (temporaryName
        (projectPendingEventName format metadata.projectId uuid) token) = none →
      now.entries (quarantineName
        (projectPendingEventName format metadata.projectId uuid) corrupt) = none →
      (storeEventWithMetadata format now token corrupt eventId eventData metadata).2 = true) ∧
    (∀ projectId uuid eventId eventData, IsI32 projectId →
      format.parseUuid eventId = some uuid → shelf (projectId, uuid) = some eventData →
      readEventWithLocation format now projectId eventId = .ok (eventData, .project)) ∧
    (∀ expired owned names,
      (∀ name, name ∈ names ↔ (cleanupOrphanedTemporaryFiles expired now).entries name ≠ none) →
      let listed := listPendingEventMetadataExcept format
        (cleanupOrphanedTemporaryFiles expired now) owned names
      (∀ projectId uuid, IsI32 projectId → (shelf (projectId, uuid)).isSome →
        owned projectId uuid = false → ∃ m, listed.filter (fun m =>
          (m.projectId, format.parseUuid m.eventId) = (projectId, some uuid)) = [m]) ∧
      ∀ m ∈ listed, ∃ name ∈ names, ∃ uuid,
        pendingIn format (cleanupOrphanedTemporaryFiles expired now) owned name =
          some (m, uuid) ∧
        format.parseUuid m.eventId = some uuid ∧ Speaks format name m uuid ∧
        ∀ written token, 'n' ∉ token.toList →
          name ≠ temporaryName written token ∧ name ≠ quarantineName written token) ∧
    ∀ projectId other, IsI32 projectId → IsI32 other → projectId ≠ other → ∀ eventId,
      now.call format (.read projectId eventId) = now ∧
      ∀ location uuid eventId' eventData, format.parseUuid eventId' = some uuid →
        shelf (other, uuid) = some eventData →
        shelf.call format now (.delete projectId eventId location) (other, uuid) =
          some eventData ∧
        readEventWithLocation format (deleteEventAt format now projectId eventId location) other
          eventId' = .ok (eventData, .project) := by
  intro now shelf
  have hshelved : Shelved format now.entries shelf := shelved_afterCalls hstart calls hallowed
  refine ⟨?_, ?_, ?_, ?_⟩
  · intro token corrupt eventId eventData metadata uuid hevent hmetadata htoken hcorrupt
    have hsame : sameEventId format.toPendingFormat metadata.eventId eventId = true :=
      decide_eq_true (hmetadata.trans hevent.symm)
    rw [storeEventWithMetadata, if_pos hsame, hevent]
    exact writePendingRecordAtomically_ok (by simp) htoken hcorrupt
  · intro projectId uuid eventId eventData hproject hevent hdata
    exact hshelved.read hproject hevent hdata
  · intro expired owned names hnames listed
    have hcleaned : Shelved format (cleanupOrphanedTemporaryFiles expired now).entries shelf :=
      hshelved.call (.list expired) trivial
    refine ⟨fun projectId uuid hproject hdata howned => ?_, fun m hm => ?_⟩
    · exact hcleaned.listed (fun name hname => (hnames name).mpr hname) hproject hdata howned
    · obtain ⟨name, hname, uuid, hpending⟩ := (listed_foldl format _ owned names).from_file m hm
      obtain ⟨hevent, -, hspeaks⟩ := pendingIn_spec hpending
      exact ⟨name, hname, uuid, hpending, hevent, hspeaks,
        fun written _ htoken => hspeaks.not_hidden written htoken⟩
  · intro projectId other hproject hother hne eventId
    refine ⟨rfl, fun location uuid eventId' eventData hevent hdata => ?_⟩
    have hkept : shelf.call format now (.delete projectId eventId location) (other, uuid) =
        some eventData := by
      rw [Shelf.call_delete_of_ne hne, hdata]
    refine ⟨hkept, ?_⟩
    have hdeleted := hshelved.call (.delete projectId eventId location) hproject
    exact hdeleted.read hother hevent hkept

end Runs

/-! ## A format -/

/-- The 32 digits of a UUID. -/
abbrev SimpleUuid := {s : String // s.length = 32 ∧ s.toList.all isLowerHex = true}

private def simpleUuid (digits : List Char) : Option SimpleUuid :=
  let lower := String.ofList (digits.map Char.toLower)
  if h : lower.length = 32 ∧ lower.toList.all isLowerHex = true then some ⟨lower, h⟩ else none

private def hyphenatedUuid (cs : List Char) : Option SimpleUuid :=
  if [8, 13, 18, 23].all fun i => cs[i]? == some '-' then simpleUuid (cs.filter (· != '-'))
  else none

/-- `Uuid::parse_str`: simple, hyphenated, braced or a URN, in either case. -/
def parseSimpleUuid (s : String) : Option SimpleUuid :=
  let cs := s.toList
  if s.length = 32 then simpleUuid cs
  else if s.length = 36 then hyphenatedUuid cs
  else if s.length = 38 then
    if cs.head? == some '{' && cs.getLast? == some '}' then hyphenatedUuid (cs.drop 1).dropLast
    else none
  else if s.length = 45 then (stripPrefix s "urn:uuid:").bind fun rest => hyphenatedUuid rest.toList
  else none

private theorem toLower_of_isLowerHex {c : Char} (hc : isLowerHex c = true) : c.toLower = c := by
  have hupper : ¬(c.val ≥ 'A'.val ∧ c.val ≤ 'Z'.val) := by
    rintro ⟨hge, hle⟩
    rw [isLowerHex, Bool.or_eq_true, Bool.and_eq_true, decide_eq_true_eq, decide_eq_true_eq] at hc
    rw [ge_iff_le, UInt32.le_iff_toNat_le] at hge
    rw [UInt32.le_iff_toNat_le] at hle
    rcases hc with hdigit | ⟨hletter, -⟩
    · have hnine : c.val ≤ '9'.val := by
        simp only [Char.isDigit, Bool.and_eq_true, decide_eq_true_eq] at hdigit
        exact hdigit.2
      rw [UInt32.le_iff_toNat_le] at hnine
      have hdigits : '9'.val.toNat < 'A'.val.toNat := by decide
      omega
    · have hsmall : 'a'.val ≤ c.val := hletter
      rw [UInt32.le_iff_toNat_le] at hsmall
      have hcases : 'Z'.val.toNat < 'a'.val.toNat := by decide
      omega
  exact dif_neg hupper

theorem parseSimpleUuid_val (uuid : SimpleUuid) : parseSimpleUuid uuid.val = some uuid := by
  obtain ⟨s, hlength, hhex⟩ := uuid
  have hlower : s.toList.map Char.toLower = s.toList := by
    conv_rhs => rw [← List.map_id s.toList]
    apply List.map_congr_left
    intro c hc
    exact toLower_of_isLowerHex (List.all_eq_true.mp hhex c hc)
  have hself : String.ofList (s.toList.map Char.toLower) = s := by
    rw [hlower, String.ofList_toList]
  unfold parseSimpleUuid
  dsimp only
  rw [if_pos hlength]
  unfold simpleUuid
  simp only [hself]
  rw [dif_pos ⟨hlength, hhex⟩]

/-- The content of a file, by what its JSON reads as. -/
inductive PlainContent
  | record (record : PendingEventRecord)
  | metadata (metadata : EventMetadata)
  | other (bytes : List UInt8)
  deriving DecidableEq

def plainStorage : StorageFormat PlainContent SimpleUuid where
  parseUuid := parseSimpleUuid
  fromSlice
    | .record record => some record
    | .metadata _ | .other _ => none
  text version metadata data := .record ⟨version, metadata, data⟩
  encode := plainFormat.encode
  decode := plainFormat.decode
  encode_append := plainFormat.encode_append
  decode_encode := plainFormat.decode_encode
  fromSlice_text _ _ _ := rfl
  simple := Subtype.val
  metadataFromSlice
    | .metadata metadata => some metadata
    | .record _ | .other _ => none
  bytes
    | .other bytes => bytes
    | .record _ | .metadata _ => []
  file := .other
  parse_simple := parseSimpleUuid_val
  simple_hex uuid := List.all_eq_true.mp uuid.property.2
  simple_length uuid := uuid.property.1

/-- An empty directory. -/
def IngestDir.empty : IngestDir Bytes := ⟨fun _ => none, fun _ => none⟩

theorem shelved_empty :
    Shelved plainStorage (IngestDir.empty : IngestDir PlainContent).entries fun _ => none := by
  intro projectId uuid _
  rfl

/-- One event of two projects, one of them with a negative id, stored, repeated and deleted
for the other. -/
private def twoProjects : List (StorageCall PlainContent) :=
  [.store "t0" "c0" "9ec79c33-ec99-42ab-8353-589fcb2e04dc" [1, 2]
      ⟨"9EC79C33EC9942AB8353589FCB2E04DC", -7, 0, none⟩,
    .store "t1" "c1" "9ec79c33ec9942ab8353589fcb2e04dc" [3]
      ⟨"9ec79c33ec9942ab8353589fcb2e04dc", 7, 0, none⟩,
    .store "t2" "c2" "9ec79c33ec9942ab8353589fcb2e04dc" [4]
      ⟨"9ec79c33ec9942ab8353589fcb2e04dc", -7, 0, none⟩,
    .delete 7 "9ec79c33ec9942ab8353589fcb2e04dc" .project]

theorem pending_storage_two_projects :
    readEventWithLocation plainStorage (afterCalls plainStorage .empty twoProjects).1 (-7)
      "9ec79c33-ec99-42ab-8353-589fcb2e04dc" = .ok ([1, 2], .project) := by
  have hallowed : ∀ call ∈ twoProjects, call.Allowed plainStorage := by
    simp only [twoProjects, List.forall_mem_cons, StorageCall.Allowed]
    exact ⟨by decide, by decide, by decide, by decide, by simp⟩
  exact (pending_storage shelved_empty hallowed).2.1 (-7)
    ⟨"9ec79c33ec9942ab8353589fcb2e04dc", by decide +kernel⟩ _ _ (by decide +kernel)
    (by decide +kernel) (by decide +kernel)

/-- Flat metadata under a name that no event has is listed, though nothing is stored. -/
theorem foreign_metadata_listed :
    let metadata : EventMetadata := ⟨"9ec79c33-ec99-42ab-8353-589fcb2e04dc", 7, 0, none⟩
    let now := (afterCalls plainStorage .empty
      [.foreign "notes.meta.json" (some (.file (.metadata metadata)))]).1
    listPendingEventMetadataExcept plainStorage now (fun _ _ => false) ["notes.meta.json"] =
        [metadata] ∧
      readEventWithLocation plainStorage now 7 metadata.eventId =
        .error (.missing metadata.eventId) := by
  decide +kernel

end Rustrak.Ingest
