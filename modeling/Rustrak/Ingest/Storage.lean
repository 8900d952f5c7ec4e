import Rustrak.Core.Affix
import Rustrak.Core.Error
import Rustrak.Ingest.Publish

/-!
# The ingest directory

`ingest/storage.rs`: where the pending record of an event lies, and how recovery finds
it again.  A store builds a name from the project and the event, a read and a deletion
build it again, and the recovery worker takes the names it lists apart.  In the same
directory lie temporary and quarantined files, those of the flat layout before project
names, and anything else that somebody put there.

One call is at work at a time here; what stores of one event do to each other is
`Rustrak.Ingest.Publish`.

`parseProjectPendingFilename` undoes `projectPendingEventName`, so the names of two events
differ (`projectPendingEventName_inj`); every other name the code uses begins with another
character or ends otherwise.  `writePendingRecordAtomically_spec` says what a store does to
its own name, and that it does nothing to the name of another event.
-/

namespace Rustrak.Ingest

open Rustrak.Core Rustrak.Files

/-- A hexadecimal digit as `uuid` writes them. -/
def isLowerHex (c : Char) : Bool := c.isDigit || ('a' ≤ c && c ≤ 'f')

/-- What is used of UUIDs and of JSON beside `PendingFormat`. -/
structure StorageFormat (Bytes Uuid : Type) extends PendingFormat Bytes Uuid where
  /-- `Uuid::as_simple`. -/
  simple : Uuid → String
  /-- `serde_json::from_slice::<EventMetadata>`. -/
  metadataFromSlice : Bytes → Option EventMetadata
  /-- The bytes of a file, and a file of these bytes. -/
  bytes : Bytes → List UInt8
  file : List UInt8 → Bytes
  parse_simple : ∀ uuid, parseUuid (simple uuid) = some uuid
  simple_hex : ∀ uuid, ∀ c ∈ (simple uuid).toList, isLowerHex c = true
  simple_length : ∀ uuid, (simple uuid).length = 32

inductive EventStorageLocation
  | project
  | legacy
  deriving DecidableEq, Repr

/-- Why an event cannot be read, where the file system reads what is there. -/
inductive StorageError
  | invalidEventId
  /-- A record that is not whole, or not of this event. -/
  | corrupt
  | missing (eventId : String)
  deriving DecidableEq, Repr

def missingEventFile : String := "Event file not found"

/-- The error, with what the parser says. -/
def StorageError.error (text : String) : StorageError → AppError
  | .invalidEventId => .validation "Invalid event_id format"
  | .corrupt => .internal ("Invalid pending event " ++ text)
  | .missing eventId => .internal (missingEventFile ++ ": " ++ eventId)

/-- The directory, with what its symbolic links resolve to. -/
structure IngestDir (Bytes : Type) where
  entries : Directory String Bytes
  resolve : String → Option Bytes

variable {Bytes Uuid : Type}

namespace IngestDir

/-- `fs::read`, which follows links. -/
def read (dir : IngestDir Bytes) (name : String) : Option Bytes :=
  match dir.entries name with
  | some (.file content) => some content
  | some .symlink => dir.resolve name
  | none => none

def update (dir : IngestDir Bytes) (entries : Directory String Bytes) : IngestDir Bytes :=
  { dir with entries }

/-- `delete_paths`. -/
def deletePaths (dir : IngestDir Bytes) (names : List String) : IngestDir Bytes :=
  dir.update (names.foldl Directory.remove dir.entries)

end IngestDir

/-! ## Names -/

section Names

variable (format : StorageFormat Bytes Uuid)

/-- `get_event_path`, in the flat layout. -/
def eventName (uuid : Uuid) : String := format.simple uuid ++ ".json"

def eventMetadataName (uuid : Uuid) : String := withExtension (eventName format uuid) "meta.json"

def pendingEventName (uuid : Uuid) : String :=
  withExtension (eventName format uuid) "pending.json"

def projectEventName (projectId : Int) (uuid : Uuid) : String :=
  "project-" ++ toString projectId ++ "-" ++ format.simple uuid ++ ".json"

def projectPendingEventName (projectId : Int) (uuid : Uuid) : String :=
  withExtension (projectEventName format projectId uuid) "pending.json"

/-- The names of a write: the token is a random UUID. -/
def temporaryName (name token : String) : String := "." ++ name ++ ".tmp-" ++ token

def quarantineName (name token : String) : String := "." ++ name ++ ".corrupt-" ++ token

/-- Every name an event's durable copy may have at `location`. -/
def eventPathsAt (projectId : Int) (eventId : String) (location : EventStorageLocation) :
    Except StorageError (List String) :=
  match format.parseUuid eventId with
  | none => .error .invalidEventId
  | some uuid =>
      match location with
      | .project =>
          .ok [projectEventName format projectId uuid, projectPendingEventName format projectId uuid]
      | .legacy =>
          .ok [eventName format uuid, eventMetadataName format uuid, pendingEventName format uuid]

def isOrphanedTemporaryFile (fileName : String) : Bool :=
  startsWith fileName "." && containsText fileName ".tmp-"

def parseProjectPendingFilename (fileName : String) : Option (Int × Uuid) := do
  let stem ← stripSuffix fileName ".pending.json"
  let stem ← stripPrefix stem "project-"
  let (projectId, eventId) ← rsplitOnce stem '-'
  return (← parseI32 projectId, ← format.parseUuid eventId)

def pendingFilenameMatches [DecidableEq Uuid] (fileName : String) (metadata : EventMetadata)
    (eventId : Uuid) : Bool :=
  match parseProjectPendingFilename format fileName with
  | some (projectId, filenameId) => projectId == metadata.projectId && filenameId == eventId
  | none => (stripSuffix fileName ".pending.json").bind format.parseUuid == some eventId

end Names

/-! ## Storing -/

section Storing

variable [DecidableEq Uuid] (format : StorageFormat Bytes Uuid)

/-- Whether what has the name is a complete record of the event; a link is none. -/
def isCompleteAt (entries : Directory String Bytes) (name eventId : String) (projectId : Int) :
    Bool :=
  match entries name with
  | some (.file existing) => isComplete format.toPendingFormat existing eventId projectId
  | some .symlink | none => false

/-- `publish_pending_file`, undisturbed. -/
def publishPendingFile (entries : Directory String Bytes) (name temporary quarantine : String)
    (eventId : String) (projectId : Int) : Directory String Bytes × Bool :=
  match entries.hardLink temporary name with
  | .ok linked => (linked.remove temporary, true)
  | .error .notFound => (entries.remove temporary, false)
  | .error .alreadyExists =>
      if isCompleteAt format entries name eventId projectId then (entries.remove temporary, true)
      else
        match entries.hardLink name quarantine with
        | .error _ => (entries.remove temporary, false)
        | .ok linked =>
            match linked.rename temporary name with
            | some renamed => (renamed, true)
            | none => (linked.remove temporary, false)

def writePendingRecordAtomically (entries : Directory String Bytes) (name token corrupt : String)
    (eventId : String) (metadata : EventMetadata) (eventData : List UInt8) :
    Directory String Bytes × Bool :=
  let temporary := temporaryName name token
  match entries temporary with
  | some _ => (entries.remove temporary, false)
  | none =>
      let record := writePendingRecord format.toPendingFormat metadata eventData
      publishPendingFile format (entries.put temporary (.file record)) name temporary
        (quarantineName name corrupt) eventId metadata.projectId

/-- `store_event_with_metadata`, and whether it succeeds. -/
def storeEventWithMetadata (dir : IngestDir Bytes) (token corrupt eventId : String)
    (eventData : List UInt8) (metadata : EventMetadata) : IngestDir Bytes × Bool :=
  if sameEventId format.toPendingFormat metadata.eventId eventId then
    match format.parseUuid eventId with
    | none => (dir, false)
    | some uuid =>
        let (entries, ok) := writePendingRecordAtomically format dir.entries
          (projectPendingEventName format metadata.projectId uuid) token corrupt eventId metadata
          eventData
        (dir.update entries, ok)
  else (dir, false)

/-- `store_event`, in the flat layout. -/
def storeEvent (dir : IngestDir Bytes) (token eventId : String) (eventData : List UInt8) :
    IngestDir Bytes × Bool :=
  match format.parseUuid eventId with
  | none => (dir, false)
  | some uuid =>
      let temporary := temporaryName (eventName format uuid) token
      match dir.entries temporary with
      | some _ => (dir.update (dir.entries.remove temporary), false)
      | none =>
          let written := dir.entries.put temporary (.file (format.file eventData))
          match written.rename temporary (eventName format uuid) with
          | some renamed => (dir.update renamed, true)
          | none => (dir.update (written.remove temporary), false)

/-- `decode_pending_record`. -/
def decodePendingRecord (content : Bytes) (eventId : String) (projectId : Int) :
    Except StorageError (List UInt8) :=
  match format.fromSlice content with
  | none => .error .corrupt
  | some record =>
      match validatePendingRecord format.toPendingFormat record eventId (some projectId) with
      | none => .error .corrupt
      | some eventData => .ok eventData

/-- `read_if_present`: a link to nothing is as good as absent. -/
def readEventWithLocation (dir : IngestDir Bytes) (projectId : Int) (eventId : String) :
    Except StorageError (List UInt8 × EventStorageLocation) :=
  match format.parseUuid eventId with
  | none => .error .invalidEventId
  | some uuid =>
      match dir.read (projectPendingEventName format projectId uuid) with
      | some content => (decodePendingRecord format content eventId projectId).map (·, .project)
      | none =>
      match dir.read (projectEventName format projectId uuid) with
      | some content => .ok (format.bytes content, .project)
      | none =>
      match dir.read (pendingEventName format uuid) with
      | some content => (decodePendingRecord format content eventId projectId).map (·, .legacy)
      | none =>
      match dir.read (eventName format uuid) with
      | some content => .ok (format.bytes content, .legacy)
      | none => .error (.missing eventId)

/-- `delete_event_at`. -/
def deleteEventAt (dir : IngestDir Bytes) (projectId : Int) (eventId : String)
    (location : EventStorageLocation) : IngestDir Bytes :=
  match eventPathsAt format projectId eventId location with
  | .ok names => dir.deletePaths names
  | .error _ => dir

/-- `delete_event`. -/
def deleteEvent (dir : IngestDir Bytes) (eventId : String) : IngestDir Bytes :=
  deleteEventAt format dir 0 eventId .legacy

end Storing

/-! ## Listing -/

section Listing

variable [DecidableEq Uuid] (format : StorageFormat Bytes Uuid)

/-- `cleanup_orphaned_temporary_files`. -/
def cleanupOrphanedTemporaryFiles (expired : String → Bool) (dir : IngestDir Bytes) :
    IngestDir Bytes :=
  dir.update fun name =>
    if isOrphanedTemporaryFile name && expired name then none else dir.entries name

/-- What a file says is pending, if it is what its name says. -/
def pendingIn (dir : IngestDir Bytes) (owned : Int → Uuid → Bool) (fileName : String) :
    Option (EventMetadata × Uuid) :=
  let isPendingRecord := endsWith fileName ".pending.json"
  let isLegacyMetadata := endsWith fileName ".meta.json"
  if !isPendingRecord && !isLegacyMetadata then none
  else if isPendingRecord && (parseProjectPendingFilename format fileName).any
      (fun (projectId, eventId) => owned projectId eventId) then none
  else
    match dir.read fileName with
    | none => none
    | some content =>
        if isPendingRecord then
          match format.fromSlice content with
          | none => none
          | some record =>
              if record.version = pendingEventVersion then
                match format.parseUuid record.metadata.eventId with
                | none => none
                | some metadataId =>
                    if pendingFilenameMatches format fileName record.metadata metadataId then
                      some (record.metadata, metadataId)
                    else none
              else none
        else
          match format.metadataFromSlice content with
          | none => none
          | some metadata =>
              (format.parseUuid metadata.eventId).map fun eventId => (metadata, eventId)

/-- One entry of the directory: an event is listed the first time it is seen. -/
def listEntry (dir : IngestDir Bytes) (owned : Int → Uuid → Bool)
    (seen : List (Int × Uuid) × List EventMetadata) (fileName : String) :
    List (Int × Uuid) × List EventMetadata :=
  match pendingIn format dir owned fileName with
  | none => seen
  | some (metadata, eventId) =>
      if seen.1.contains (metadata.projectId, eventId) then seen
      else ((metadata.projectId, eventId) :: seen.1, seen.2 ++ [metadata])

/-- `list_pending_event_metadata_except`; `names` is what `read_dir` yields. -/
def listPendingEventMetadataExcept (dir : IngestDir Bytes) (owned : Int → Uuid → Bool)
    (names : List String) : List EventMetadata :=
  (names.foldl (listEntry format dir owned) ([], [])).2

end Listing

variable {format : StorageFormat Bytes Uuid} {projectId other : Int} {uuid uuid' : Uuid}

/-! ## Names are told apart -/

variable (format) in
private theorem simple_ne_empty (uuid : Uuid) : format.simple uuid ≠ "" := by
  intro h
  have hlength := format.simple_length uuid
  rw [h] at hlength
  exact absurd hlength (by decide)

private theorem notMem_simple {c : Char} (hc : isLowerHex c = false) (uuid : Uuid) :
    c ∉ (format.simple uuid).toList := by
  intro hmem
  rw [format.simple_hex uuid c hmem] at hc
  contradiction

private theorem json_extension {stem : String} (hstem : stem ≠ "") (extension : String) :
    withExtension (stem ++ ".json") extension = stem ++ "." ++ extension := by
  have hdot : (".json" : String) = "." ++ "json" := by decide
  rw [hdot, ← String.append_assoc]
  exact withExtension_append hstem (by decide)

theorem projectPendingEventName_eq (projectId : Int) (uuid : Uuid) :
    projectPendingEventName format projectId uuid =
      "project-" ++ (toString projectId ++ "-" ++ format.simple uuid) ++ ".pending.json" := by
  unfold projectPendingEventName projectEventName
  rw [json_extension (by simp)]
  have hdot : (".pending.json" : String) = "." ++ "pending.json" := by decide
  simp only [hdot, String.append_assoc]

variable (format) in
/-- What recovery reads in the name of a pending record is what a store put there. -/
theorem parse_projectPendingEventName (hproject : IsI32 projectId) (uuid : Uuid) :
    parseProjectPendingFilename format (projectPendingEventName format projectId uuid) =
      some (projectId, uuid) := by
  have hsplit : rsplitOnce (toString projectId ++ "-" ++ format.simple uuid) '-' =
      some (toString projectId, format.simple uuid) :=
    rsplitOnce_append (toString projectId) (notMem_simple (by decide) uuid)
  rw [projectPendingEventName_eq, parseProjectPendingFilename, stripSuffix_append]
  simp only [Option.bind_eq_bind, Option.bind_some, stripPrefix_append, hsplit,
    parseI32_toString hproject, format.parse_simple, Option.pure_def]

theorem projectPendingEventName_inj (hproject : IsI32 projectId) (hother : IsI32 other)
    (h : projectPendingEventName format projectId uuid =
      projectPendingEventName format other uuid') :
    projectId = other ∧ uuid = uuid' := by
  have hparse := parse_projectPendingEventName format hproject uuid
  rw [h, parse_projectPendingEventName format hother] at hparse
  exact ⟨(Prod.mk.inj (Option.some.inj hparse)).1.symm,
    (Prod.mk.inj (Option.some.inj hparse)).2.symm⟩

/-- The first character of a name, which tells the names of a directory apart. -/
def initial (name : String) : Option Char := name.toList.head?

@[simp] theorem initial_projectPendingEventName :
    initial (projectPendingEventName format projectId uuid) = some 'p' := by
  rw [projectPendingEventName_eq]
  simp [initial]

@[simp] theorem initial_temporaryName (name token : String) :
    initial (temporaryName name token) = some '.' := by
  simp [initial, temporaryName]

@[simp] theorem initial_quarantineName (name token : String) :
    initial (quarantineName name token) = some '.' := by
  simp [initial, quarantineName]

theorem isOrphanedTemporaryFile_of_initial {name : String}
    (hname : initial name = some 'p') : isOrphanedTemporaryFile name = false := by
  have hstart : startsWith name "." = false := by
    unfold initial at hname
    unfold startsWith
    cases hlist : name.toList with
    | nil => rfl
    | cons c cs =>
        rw [hlist] at hname
        obtain rfl : c = 'p' := Option.some.inj hname
        rfl
  rw [isOrphanedTemporaryFile, hstart, Bool.false_and]

/-- A name that begins with an event id is not that of a pending record of a project. -/
theorem initial_simple_append (uuid : Uuid) (rest : String) :
    initial (format.simple uuid ++ rest) ≠ some 'p' := by
  have hne : (format.simple uuid).toList ≠ [] := by
    simpa using simple_ne_empty format uuid
  intro h
  rw [initial, String.toList_append, List.head?_append_of_ne_nil _ hne] at h
  exact notMem_simple (by decide) uuid (List.mem_of_head? h)

theorem pendingEventName_eq (uuid : Uuid) :
    pendingEventName format uuid = format.simple uuid ++ ".pending.json" := by
  rw [pendingEventName, eventName, json_extension (simple_ne_empty format uuid), String.append_assoc]
  exact congrArg _ (by decide)

theorem eventMetadataName_eq (uuid : Uuid) :
    eventMetadataName format uuid = format.simple uuid ++ ".meta.json" := by
  rw [eventMetadataName, eventName, json_extension (simple_ne_empty format uuid), String.append_assoc]
  exact congrArg _ (by decide)

/-- A payload file ends in the event id, a pending record does not. -/
theorem projectEventName_ne :
    projectEventName format projectId uuid ≠ projectPendingEventName format other uuid' := by
  intro h
  rw [projectPendingEventName_eq, projectEventName] at h
  have hsplit : (".pending.json" : String) = ".pending" ++ ".json" := by decide
  rw [hsplit, ← String.append_assoc] at h
  have hstem := (String.append_left_inj _).mp h
  have hlast := congrArg (fun s => s.toList.getLast?) hstem
  have hne : (format.simple uuid).toList ≠ [] := by
    simpa using simple_ne_empty format uuid
  simp only [String.toList_append] at hlast
  rw [List.getLast?_append_of_ne_nil _ hne, List.getLast?_append_of_ne_nil _ (by decide)] at hlast
  exact notMem_simple (by decide) uuid (List.mem_of_getLast? hlast)

/-! ## One store -/

section Store

variable [DecidableEq Uuid] {entries : Directory String Bytes} {name eventId : String}
  {eventData : List UInt8} {metadata : EventMetadata}

variable (format) in
/-- What a store does to the names of pending records: it keeps to a complete record, and
puts its own where there is none. -/
structure Stores (entries : Directory String Bytes) (name eventId : String)
    (metadata : EventMetadata) (eventData : List UInt8)
    (result : Directory String Bytes × Bool) : Prop where
  frame : ∀ other, other ≠ name → initial other ≠ some '.' → result.1 other = entries other
  kept : isCompleteAt format entries name eventId metadata.projectId = true ∨ result.2 = false →
    result.1 name = entries name
  stored : isCompleteAt format entries name eventId metadata.projectId = false →
    result.2 = true → result.1 name = some (.file (writePendingRecord format.toPendingFormat metadata eventData))

/-- A store that leaves the name alone. -/
private theorem stores_kept {entries' : Directory String Bytes} {ok : Bool}
    (hframe : ∀ other, initial other ≠ some '.' → entries' other = entries other)
    (hname : initial name ≠ some '.')
    (hok : ok = true → isCompleteAt format entries name eventId metadata.projectId = true) :
    Stores format entries name eventId metadata eventData (entries', ok) where
  frame other _ hother := hframe other hother
  kept _ := hframe name hname
  stored hincomplete h := absurd (hok h) (by simp [hincomplete])

theorem ne_of_initial {other hidden : String} (hother : initial other ≠ some '.')
    (hhidden : initial hidden = some '.') : other ≠ hidden := by
  rintro rfl
  exact hother hhidden

/-- The record is in a temporary file, and all that is not hidden is as it was. -/
private theorem publishPendingFile_spec {written : Directory String Bytes}
    {temporary quarantine : String} (hname : initial name ≠ some '.')
    (htemporary : initial temporary = some '.') (hquarantine : initial quarantine = some '.')
    (hsame : ∀ other, initial other ≠ some '.' → written other = entries other)
    (hsource : written temporary =
      some (.file (writePendingRecord format.toPendingFormat metadata eventData))) :
    Stores format entries name eventId metadata eventData
      (publishPendingFile format written name temporary quarantine eventId
        metadata.projectId) := by
  have hdropped : ∀ other, initial other ≠ some '.' →
      (written.remove temporary) other = entries other := by
    intro other hother
    rw [Directory.remove_of_ne (ne_of_initial hother htemporary), hsame other hother]
  unfold publishPendingFile
  cases hlink : written.hardLink temporary name with
  | ok linked =>
      obtain ⟨entry, hentry, hvacant, rfl⟩ := Directory.hardLink_eq_ok hlink
      obtain rfl := Option.some.inj (hsource.symm.trans hentry)
      rw [hsame name hname] at hvacant
      refine ⟨fun other hother hinitial => ?_, fun hkept => ?_, fun _ _ => ?_⟩
      · dsimp only
        rw [Directory.remove_of_ne (ne_of_initial hinitial htemporary),
          Directory.put_of_ne hother, hsame other hinitial]
      · rcases hkept with hcomplete | hfailed
        · simp [isCompleteAt, hvacant] at hcomplete
        · contradiction
      · dsimp only
        rw [Directory.remove_of_ne (ne_of_initial hname htemporary), Directory.put_self]
  | error e =>
      cases e with
      | notFound => exact stores_kept hdropped hname (by simp)
      | alreadyExists =>
          have hcomplete : isCompleteAt format written name eventId metadata.projectId =
              isCompleteAt format entries name eventId metadata.projectId := by
            rw [isCompleteAt, isCompleteAt, hsame name hname]
          dsimp only
          rw [hcomplete]
          split_ifs with hdone
          · exact stores_kept hdropped hname fun _ => hdone
          · cases hquarantined : written.hardLink name quarantine with
            | error e => exact stores_kept hdropped hname (by simp)
            | ok linked =>
                obtain ⟨old, -, hvacant, rfl⟩ := Directory.hardLink_eq_ok hquarantined
                -- What is hidden under the temporary name is the record, still.
                have hdistinct : temporary ≠ quarantine := by
                  rintro rfl
                  rw [hsource] at hvacant
                  contradiction
                have hrenamed : (written.put quarantine old).rename temporary name =
                    some (((written.put quarantine old).put name (.file (writePendingRecord
                      format.toPendingFormat metadata eventData))).remove temporary) := by
                  rw [Directory.rename, Directory.put_of_ne hdistinct, hsource, Option.map_some]
                simp only [hrenamed]
                refine ⟨fun other hother hinitial => ?_, fun hkept => ?_, fun _ _ => ?_⟩
                · dsimp only
                  rw [Directory.remove_of_ne (ne_of_initial hinitial htemporary),
                    Directory.put_of_ne hother,
                    Directory.put_of_ne (ne_of_initial hinitial hquarantine),
                    hsame other hinitial]
                · rcases hkept with hkept | hfailed
                  · exact absurd hkept hdone
                  · contradiction
                · dsimp only
                  rw [Directory.remove_of_ne (ne_of_initial hname htemporary),
                    Directory.put_self]

theorem writePendingRecordAtomically_spec (hname : initial name ≠ some '.')
    (token corrupt : String) :
    Stores format entries name eventId metadata eventData
      (writePendingRecordAtomically format entries name token corrupt eventId metadata
        eventData) := by
  have htemporary := initial_temporaryName name token
  unfold writePendingRecordAtomically
  dsimp only
  cases hfree : entries (temporaryName name token) with
  | some _ =>
      exact stores_kept (fun other hother =>
        Directory.remove_of_ne (ne_of_initial hother htemporary)) hname (by simp)
  | none =>
      exact publishPendingFile_spec hname htemporary (initial_quarantineName name corrupt)
        (fun other hother => Directory.put_of_ne (ne_of_initial hother htemporary))
        Directory.put_self

theorem temporaryName_ne_quarantineName (name token corrupt : String) :
    temporaryName name token ≠ quarantineName name corrupt := by
  intro h
  have hlist := congrArg String.toList h
  simp [temporaryName, quarantineName] at hlist

/-- A store whose random names are free succeeds. -/
theorem writePendingRecordAtomically_ok (hname : initial name ≠ some '.') {token corrupt : String}
    (htoken : entries (temporaryName name token) = none)
    (hcorrupt : entries (quarantineName name corrupt) = none) :
    (writePendingRecordAtomically format entries name token corrupt eventId metadata
      eventData).2 = true := by
  have hne : name ≠ temporaryName name token :=
    ne_of_initial hname (initial_temporaryName name token)
  have hdistinct := temporaryName_ne_quarantineName name token corrupt
  unfold writePendingRecordAtomically publishPendingFile
  simp only [htoken, Directory.hardLink, Directory.put_self, Directory.put_of_ne hne]
  cases hentry : entries name with
  | none => rfl
  | some entry =>
      simp only [hcorrupt, Directory.put_of_ne hdistinct.symm]
      split_ifs
      · rfl
      · simp [Directory.rename, Directory.put_of_ne hdistinct]

end Store

end Rustrak.Ingest
