import Rustrak.Core.Affix
import Rustrak.Core.Error
import Rustrak.Core.Json
import Rustrak.Files.Directory
import Rustrak.SourceMaps.Collector

/-!
# From uploaded chunks to what a debug id serves

`chunk_upload` of `routes/sourcemaps.rs` stores chunks under the SHA-1 of their bytes.  An assembly
joins those a request names, takes the zip archive they make apart in a directory of its own, and
stores the files its manifest lists, each under its SHA-1, and a row for each debug id
(`services/sourcemap.rs`).  `locate` finds the row, and the store has the bytes.

The formats that other people's code reads are left open (`BundleFormat`), and so is what a debug
information file turns into.  The jobs and who owns the chunks are elsewhere: here an assembly is
begun for any job, fails at any time, and chunks, rows and objects are deleted by anyone.
-/

namespace Rustrak.SourceMaps

open Rustrak.Core Rustrak.Files Rustrak.Relational Rustrak.Transition

abbrev Bytes := List UInt8

/-! ## Chunks -/

/-- A named part of a multipart request, as it comes in. -/
structure UploadField where
  name : String
  data : List Bytes
  deriving DecidableEq, Repr

def maxParts : Nat := 64

/-- `saturating_mul`, of 64 bits. -/
def maxTotalBytes (maxChunkSize : Nat) : Nat := min (maxChunkSize * maxParts) (2 ^ 64 - 1)

def readField (maxChunkSize : Nat) : Bytes → List Bytes → AppResult Bytes
  | buf, [] => .ok buf
  | buf, data :: rest =>
      let length := buf.length + data.length
      if maxChunkSize < length then
        .error (.validation s!"chunk too large: {length} bytes exceeds limit {maxChunkSize}")
      else readField maxChunkSize (buf ++ data) rest

def isAsciiHexdigit (c : Char) : Bool :=
  ('0' ≤ c && c ≤ '9') || ('a' ≤ c && c ≤ 'f') || ('A' ≤ c && c ≤ 'F')

/-- Forty digits: a SHA-1 in hex. -/
def isSha1 (s : String) : Bool := s.toList.length = 40 && s.toList.all isAsciiHexdigit

def eqIgnoreAsciiCase (s t : String) : Bool := s.toList.map Char.toLower = t.toList.map Char.toLower

def chunkStorageKey (fieldName computed : String) : AppResult String := do
  ensure (!isSha1 fieldName || eqIgnoreAsciiCase computed fieldName)
    (.validation s!"checksum mismatch for field '{fieldName}': content SHA1 is {computed}")
  return computed

variable (sha1 : Sha1)

/-- The fields of `chunk_upload`: the parts to store, each under its key. -/
def readParts (maxChunkSize : Nat) (parts : List (String × Bytes)) (total : Nat) :
    List UploadField → AppResult (List (String × Bytes))
  | [] => do
      ensure (parts ≠ []) (.validation "no valid file parts found in multipart request")
      return parts
  | field :: rest =>
      if field.name = "" then readParts maxChunkSize parts total rest
      else do
        ensure (parts.length < maxParts)
          (.validation s!"too many parts: request has more than {maxParts} chunks")
        let buf ← readField maxChunkSize [] field.data
        let total := total + buf.length
        let most := maxTotalBytes maxChunkSize
        ensure (total ≤ most)
          (.validation s!"request too large: {total} bytes exceeds maximum {most} bytes")
        let key ← chunkStorageKey field.name (sha1 buf)
        readParts maxChunkSize (parts ++ [(key, buf)]) total rest

/-- What `dif_upload` stores of a mapping. -/
def difParts (chunkSize : Nat) (data : Bytes) : List (String × Bytes) :=
  (data.toChunks (max chunkSize 1)).map fun chunk => (sha1 chunk, chunk)

/-! ## Paths -/

inductive Component
  | rootDir
  | curDir
  | parentDir
  | normal (name : String)
  deriving DecidableEq, Repr

def segments (path : String) : List String := (path.toList.splitOn '/').map String.ofList

def component (segment : String) : Option Component :=
  if segment = "" ∨ segment = "." then none
  else if segment = ".." then some .parentDir
  else some (.normal segment)

/-- `Path::components`. -/
def components (path : String) : List Component :=
  match segments path with
  | "." :: rest => .curDir :: rest.filterMap component
  | [""] => []
  | "" :: rest => .rootDir :: rest.filterMap component
  | all => all.filterMap component

/-- Where an entry goes, from the directory it is extracted to. -/
def resolve (dir : List String) (path : List Component) : List String :=
  path.foldl (fun resolved component => match component with
    | .parentDir => resolved.dropLast
    | .normal name => resolved ++ [name]
    | .rootDir | .curDir => resolved) dir

def trimStarts (start : String) : Nat → String → String
  | 0, s => s
  | n + 1, s => match stripPrefix s start with
    | some rest => trimStarts start n rest
    | none => s

def trimStartMatches (s start : String) : String := trimStarts start s.toList.length s

/-! ## A bundle -/

structure ArchiveFile where
  isSymlink : Bool
  name : Except String String
  content : Bytes
  /-- The error its content breaks off with. -/
  broken : Option String
  deriving Repr

/-- What other people's code reads. -/
structure BundleFormat where
  /-- The entries, where one can be opened. -/
  zipArchive : Bytes → Except String (List (Except String ArchiveFile))
  /-- `serde_json::from_slice`. -/
  fromSlice : Bytes → Except String Value
  /-- `Uuid::parse_str`, in the form it is stored in. -/
  parseUuid : String → Option String

def ioMessage : IoError → String
  | .alreadyExists => "File exists (os error 17)"
  | .notADirectory => "Not a directory (os error 20)"
  | .isADirectory => "Is a directory (os error 21)"
  | .notFound => "No such file or directory (os error 2)"

def extractFile (dir : List String) (t : Tree String Bytes) (name : String) (file : ArchiveFile) :
    Tree String Bytes × AppResult Unit :=
  let name := trimStartMatches name "~/"
  let resolved := resolve dir (components name)
  if dir <+: resolved then
    match t.createDirAll resolved.dropLast with
    | (t, some e) => (t, .error (.internal (ioMessage e)))
    | (t, none) =>
        if endsWith name "/" then (t, .ok ())
        else match t.create resolved file.content with
          | .error e => (t, .error (.internal (ioMessage e)))
          | .ok t => (t, match file.broken with
            | some e => .error (.internal e)
            | none => .ok ())
  else (t, .error (.validation "path traversal in archive"))

/-- Up to the first entry that fails. -/
def extract (dir : List String) (t : Tree String Bytes) :
    List (Except String ArchiveFile) → Tree String Bytes × AppResult Unit
  | [] => (t, .ok ())
  | .error e :: _ => (t, .error (.internal e))
  | .ok file :: rest =>
      if file.isSymlink then extract dir t rest
      else match file.name with
        | .error e => (t, .error (.internal e))
        | .ok name => match extractFile dir t name file with
          | (t, .error e) => (t, .error e)
          | (t, .ok _) => extract dir t rest

/-- A file to store. -/
structure DebugFile where
  debugId : String
  fileType : String
  bytes : Bytes
  deriving DecidableEq, Repr

def manifestFiles (manifest : Value) : List (String × Value) :=
  match manifest.get "files" with
  | some (.object files) => files
  | _ => []

/-- The debug id and the type of a manifest's entry. -/
def BundleFormat.named (format : BundleFormat) (info : Value) : Option (String × String) := do
  let headers ← (info.get "headers").filter Value.isObject
  let text ← ((headers.get "debug-id").or (headers.get "debug_id")).bind Value.asStr
  let debugId ← format.parseUuid text
  let fileType ← info.str "type"
  return (debugId, fileType)

def Component.leaves : Component → Bool
  | .parentDir | .rootDir => true
  | .curDir | .normal _ => false

/-- What the system reads at a relative path: a last `/` or `/.` asks for a directory. -/
def readRelative (t : Tree String Bytes) (dir : List String) (relative : String) : Option Bytes :=
  match (segments relative).getLast? with
  | some "" | some "." | none => none
  | some _ => t.read (resolve dir (components relative))

def BundleFormat.manifestEntry (format : BundleFormat) (t : Tree String Bytes) (dir : List String)
    (path : String) (info : Value) : AppResult (Option DebugFile) :=
  match format.named info with
  | none => .ok none
  | some (debugId, fileType) =>
      let relative := trimStartMatches (trimStartMatches path "~/") "/"
      if (components relative).any Component.leaves then
        .error (.validation s!"invalid manifest file path: {path}")
      else .ok ((readRelative t dir relative).map fun bytes => ⟨debugId, fileType, bytes⟩)

/-- The files to store before the manifest ends, or is refused. -/
def BundleFormat.manifestEntries (format : BundleFormat) (t : Tree String Bytes)
    (dir : List String) : List (String × Value) → List DebugFile × AppResult Unit
  | [] => ([], .ok ())
  | (path, info) :: rest =>
      match format.manifestEntry t dir path info with
      | .error e => ([], .error e)
      | .ok found =>
          let others := format.manifestEntries t dir rest
          (found.toList ++ others.1, others.2)

/-- Takes a bundle apart in `dir`. -/
def BundleFormat.bundleFiles (format : BundleFormat) (dir : List String) (t : Tree String Bytes)
    (bundle : Bytes) : Tree String Bytes × List DebugFile × AppResult Unit :=
  match format.zipArchive bundle with
  | .error e => (t, [], .error (.validation s!"invalid ZIP archive: {e}"))
  | .ok archive =>
      match t.createDirAll dir with
      | (t, some e) => (t, [], .error (.internal (ioMessage e)))
      | (t, none) =>
          match extract dir t archive with
          | (t, .error e) => (t, [], .error e)
          | (t, .ok _) =>
              match t.read (dir ++ ["manifest.json"]) with
              | none =>
                  (t, [], .error (.validation "manifest.json not found in artifact bundle"))
              | some bytes =>
                  match format.fromSlice bytes with
                  | .error e => (t, [], .error (.validation s!"invalid manifest.json: {e}"))
                  | .ok manifest => (t, format.manifestEntries t dir (manifestFiles manifest))

/-! ## Inside the directory -/

section Inside

open Rustrak.Files.Tree

variable {format : BundleFormat} {dir : List String} {t t' : Tree String Bytes}

/-- Without `..` a path stays below. -/
theorem prefix_resolve {path : List Component} (hstays : path.any Component.leaves = false) :
    dir <+: resolve dir path := by
  suffices hgeneral : ∀ resolved, dir <+: resolved → dir <+: resolve resolved path from
    hgeneral dir (List.prefix_refl _)
  induction path with
  | nil => exact fun _ h => h
  | cons component rest ih =>
      intro resolved h
      rw [List.any_cons, Bool.or_eq_false_iff] at hstays
      cases component with
      | rootDir => cases hstays.1
      | parentDir => cases hstays.1
      | curDir => exact ih hstays.2 resolved h
      | normal name => exact ih hstays.2 _ (h.trans (List.prefix_append _ _))

theorem extractFile_confined (h : Under dir t t') (name : String) (file : ArchiveFile) :
    Confined dir t (extractFile dir t name file) (extractFile dir t' name file) := by
  simp only [extractFile]
  by_cases hin : dir <+: resolve dir (components (trimStartMatches name "~/"))
  · rw [if_pos hin, if_pos hin]
    have hmade := h.createDirAll (List.dropLast_prefix _) hin
    rcases hu : t.createDirAll _ with ⟨u, e⟩
    rcases hu' : t'.createDirAll _ with ⟨u', e'⟩
    rw [hu, hu'] at hmade
    obtain ⟨rfl, hunder, helsewhere⟩ := hmade
    cases e with
    | some e => exact ⟨rfl, hunder, helsewhere⟩
    | none =>
        dsimp only at hunder helsewhere ⊢
        split
        next => exact ⟨rfl, hunder, helsewhere⟩
        next =>
          rcases hunder.create hin file.content with
            ⟨e, hleft, hright⟩ | ⟨hleft, hright, hput⟩
          · rw [hleft, hright]
            exact ⟨rfl, hunder, helsewhere⟩
          · rw [hleft, hright]
            refine ⟨rfl, hput, fun path hpath => ?_⟩
            exact (put_elsewhere hin path hpath).trans (helsewhere path hpath)
  · rw [if_neg hin, if_neg hin]
    exact h.confined _

theorem extract_confined (h : Under dir t t') (archive : List (Except String ArchiveFile)) :
    Confined dir t (extract dir t archive) (extract dir t' archive) := by
  induction archive generalizing t t' with
  | nil => exact h.confined _
  | cons entry rest ih =>
      cases entry with
      | error e =>
          simp only [extract]
          exact h.confined _
      | ok file =>
          simp only [extract]
          split
          next => exact ih h
          next =>
            cases file.name with
            | error e => exact h.confined _
            | ok name =>
                have hfile := extractFile_confined h name file
                rcases hu : extractFile dir t name file with ⟨u, r⟩
                rcases hu' : extractFile dir t' name file with ⟨u', r'⟩
                rw [hu, hu'] at hfile
                obtain ⟨hresult, hunder, helsewhere⟩ := hfile
                dsimp only at hresult hunder helsewhere
                subst hresult
                cases r with
                | error e =>
                    simp only [hu, hu']
                    exact ⟨rfl, hunder, helsewhere⟩
                | ok _ =>
                    simp only [hu, hu']
                    exact (ih hunder).trans helsewhere

theorem manifestEntry_eq (h : Under dir t t') (path : String) (info : Value) :
    format.manifestEntry t dir path info = format.manifestEntry t' dir path info := by
  unfold BundleFormat.manifestEntry
  split
  · rfl
  · dsimp only
    split_ifs with hleaves
    · rfl
    · have hread := h.read (prefix_resolve (Bool.eq_false_iff.mpr hleaves))
      unfold readRelative
      rw [hread]

theorem manifestEntries_eq (h : Under dir t t') (files : List (String × Value)) :
    format.manifestEntries t dir files = format.manifestEntries t' dir files := by
  induction files with
  | nil => rfl
  | cons file rest ih =>
      simp only [BundleFormat.manifestEntries]
      rw [manifestEntry_eq h, ih]

/-- A bundle neither writes nor reads anything outside the directory it is taken apart in, whatever
its entries and its manifest are named, and whether or not it is refused half-way: on any two hosts
where the directory is new it gives the same files and the same error, and everything else stays as
it was. -/
theorem bundle_stays_inside (format : BundleFormat) {parent : List String} {name : String}
    (bundle : Bytes)
    (ht : t.HasDir parent) (ht' : t'.HasDir parent)
    (hnew : ∀ path, parent ++ [name] <+: path → t path = none)
    (hnew' : ∀ path, parent ++ [name] <+: path → t' path = none) :
    (format.bundleFiles (parent ++ [name]) t bundle).2 =
        (format.bundleFiles (parent ++ [name]) t' bundle).2 ∧
      ∀ path, ¬parent ++ [name] <+: path →
        (format.bundleFiles (parent ++ [name]) t bundle).1 path = t path := by
  obtain ⟨hmade, hdir⟩ := createDirAll_of_hasDir ht hnew
  obtain ⟨hmade', hdir'⟩ := createDirAll_of_hasDir ht' hnew'
  simp only [BundleFormat.bundleFiles, hmade, hmade']
  cases format.zipArchive bundle with
  | error e => exact ⟨rfl, fun _ _ => rfl⟩
  | ok archive =>
      -- Below the new directory there is nothing on either host.
      have hunder : Under (parent ++ [name]) (t.put (parent ++ [name]) .dir)
          (t'.put (parent ++ [name]) .dir) := by
        refine ⟨hdir, hdir', fun path hpath => ?_⟩
        by_cases heq : path = parent ++ [name]
        · rw [heq, put_apply_self, put_apply_self]
        · rw [put_apply_of_ne heq, put_apply_of_ne heq, hnew path hpath, hnew' path hpath]
      have hextract := (extract_confined hunder archive).trans (put_elsewhere (List.prefix_refl _))
      rcases hu : extract (parent ++ [name]) (t.put (parent ++ [name]) .dir) archive with ⟨u, r⟩
      rcases hu' : extract (parent ++ [name]) (t'.put (parent ++ [name]) .dir) archive with ⟨u', r'⟩
      rw [hu, hu'] at hextract
      obtain ⟨hresult, hinside, helsewhere⟩ := hextract
      dsimp only at hresult hinside helsewhere
      subst hresult
      have hmanifest := hinside.read (List.prefix_append (parent ++ [name]) ["manifest.json"])
      cases r with
      | error e =>
          simp only [hu, hu']
          exact ⟨trivial, helsewhere⟩
      | ok _ =>
          simp only [hu, hu', ← hmanifest]
          cases u.read (parent ++ [name] ++ ["manifest.json"]) with
          | none => exact ⟨rfl, helsewhere⟩
          | some bytes =>
              dsimp only
              cases format.fromSlice bytes with
              | error e => exact ⟨rfl, helsewhere⟩
              | ok manifest => exact ⟨manifestEntries_eq hinside _, helsewhere⟩

/-- A bundle of one source map, and one that climbs out of its directory. -/
def sampleFormat : BundleFormat where
  zipArchive bundle :=
    if bundle = [1, 2] then
      .ok [.ok ⟨false, .ok "manifest.json", [9], none⟩, .ok ⟨false, .ok "~/app.js.map", [3], none⟩]
    else .ok [.ok ⟨false, .ok "a/../manifest.json", [9], none⟩,
      .ok ⟨false, .ok "../secret", [5], none⟩]
  fromSlice _ :=
    .ok (.object [("files", .object [("~/app.js.map",
      .object [("headers", .object [("debug-id", .string "D1")]),
        ("type", .string "source_map")])])])
  parseUuid text := if text = "D1" then some "d1" else none

/-- A host on which the directory above has something else in it. -/
def hostWithSecret : Tree String Bytes := fun path =>
  if path <+: ["tmp"] then some .dir
  else if path = ["tmp", "secret"] then some (.file [4]) else none

theorem bundle_stays_inside_secret :
    (sampleFormat.bundleFiles ["tmp", "extracted"] hostWithSecret [6]).2.2 =
        .error (.validation "path traversal in archive") ∧
      (sampleFormat.bundleFiles ["tmp", "extracted"] hostWithSecret [6]).1 ["tmp", "secret"] =
        some (.file [4]) := by
  have hdir : hostWithSecret.HasDir ["tmp"] := fun path hpath => if_pos hpath
  have hnew : ∀ path, ["tmp"] ++ ["extracted"] <+: path → hostWithSecret path = none := by
    rintro path ⟨rest, rfl⟩
    simp [hostWithSecret]
  have hinside := bundle_stays_inside sampleFormat [6] hdir hdir hnew hnew
  exact ⟨by decide +kernel, (hinside.2 ["tmp", "secret"] (by decide)).trans (by decide)⟩

end Inside

/-! ## The server -/

/-- What an assembly is asked for: an `artifact_bundle`, or a `dif`. -/
structure BundleJob where
  projectId : Int
  checksum : String
  chunks : List String
  kind : String
  name : Option String
  debugId : Option String
  deriving DecidableEq, Repr

def difJobKind : String := "dif"

/-- An assembly, where it has come to. -/
inductive AssemblyTask
  /-- The chunks read, and those to come. -/
  | joining (job : BundleJob) (parts : List Bytes) (rest : List String)
  | joined (job : BundleJob) (parts : List Bytes)
  /-- The files put into the store, those to come, and how the manifest ends. -/
  | storing (job : BundleJob) (parts : List Bytes) (dir : List String) (done : List FileEntry)
      (rest : List DebugFile) (ended : AppResult Unit)
  | committed
  | failed (e : AppError)

/-- A bundle that was stored: its bytes as they were joined, and its files. -/
structure StoredBundle where
  job : BundleJob
  parts : List Bytes
  dir : List String
  files : List DebugFile

/-- Project, debug id and type. -/
abbrev FileKey := Int × String × String

def FileEntry.file (e : FileEntry) : DebugFile := ⟨e.debugId, e.fileType, e.bytes⟩

def FileEntry.key (e : FileEntry) : FileKey := (e.projectId, e.debugId, e.fileType)

def FileEntry.recorded (e : FileEntry) : FileKey × String := (e.key, e.storageKey sha1)

structure SourceMapServer where
  /-- The table `chunk`. -/
  chunks : List (String × Bytes)
  tables : Tables
  /-- The store. -/
  objects : String → Option Bytes
  /-- The parts that requests still have to store. -/
  uploads : List (List (String × Bytes))
  tasks : List AssemblyTask
  stored : List StoredBundle
  /-- Which content was recorded for which key, the newest first. -/
  record : List (FileKey × String)

def SourceMapServer.start : SourceMapServer := ⟨[], ⟨[], []⟩, fun _ => none, [], [], [], []⟩

inductive SourceMapLabel
  | upload (fields : List UploadField)
  | difUpload (data : Bytes)
  /-- A request stores its next part. -/
  | storeChunk (upload : Nat)
  | deleteChunks (checksums : List String)
  | assemble (job : BundleJob)
  /-- An assembly reads its next chunk, or has them all. -/
  | join (task : Nat)
  /-- Takes the bundle apart in a new directory. -/
  | takeApart (task : Nat) (dir : List String)
  /-- Puts the next file; the id is that of its row if there is none of the content. -/
  | put (task : Nat) (newId : Nat)
  | commit (task : Nat)
  /-- Something fails: the database, the disk. -/
  | fail (task : Nat) (e : AppError)
  | deleteFile (id : Nat)
  | unlink (storagePath : String)
  | aliasMapping (projectId : Int) (source target : String)
  | deleteProject (projectId : Int)

structure ServerConfig where
  maxChunkSize : Nat
  maxBundleSize : Nat
  sha1 : Sha1
  format : BundleFormat
  /-- What `assemble_dif_for_job` makes of a debug information file. -/
  difFiles : Tables → BundleJob → Bytes → AppResult (List DebugFile)

/-- A host where the directory is to be made. -/
def hostOf (dir : List String) : Tree String Bytes := fun path =>
  if path <+: dir.dropLast then some .dir else none

/-- What one statement of an alias records. -/
def aliasRecordOf (t : Tables) (projectId : Int) (source target fileType : String) :
    List (FileKey × String) :=
  match lookup SourceFileMetadata.key (projectId, source, fileType) t.metadata with
  | none => []
  | some m => match lookup SourceFile.id m.fileId t.files with
    | none => []
    | some file => [((projectId, target, fileType), file.checksum)]

/-- `alias_proguard_mapping` records what is recorded for a debug id for another as well. -/
def aliasRecord (t : Tables) (projectId : Int) (source target : String) :
    List (FileKey × String) :=
  [proguardFileType, proguardCacheFileType].flatMap (aliasRecordOf t projectId source target)

namespace SourceMapServer

variable (config : ServerConfig) (w : SourceMapServer)

def setTask (i : Nat) (task : AssemblyTask) : SourceMapServer :=
  { w with tasks := w.tasks.set i task }

/-- A part of `store_chunks`: `ON CONFLICT DO NOTHING`. -/
def storeChunk (i : Nat) : SourceMapServer :=
  match w.uploads[i]? with
  | some ((key, bytes) :: rest) =>
      if config.maxChunkSize < bytes.length then { w with uploads := w.uploads.set i [] }
      else { w with
        uploads := w.uploads.set i rest
        chunks := if w.chunks.any (·.1 = key) then w.chunks else w.chunks ++ [(key, bytes)] }
  | _ => w

/-- `join_chunks`. -/
def join (job : BundleJob) (parts : List Bytes) : List String → AssemblyTask
  | [] =>
      let computed := config.sha1 parts.flatten
      if computed = job.checksum then .joined job parts
      else .failed (.validation s!"checksum mismatch: expected {job.checksum}, got {computed}")
  | chunk :: rest =>
      match lookup Prod.fst chunk w.chunks with
      | none => .failed (.validation s!"chunk not found: {chunk}")
      | some (_, data) =>
          if config.maxBundleSize < parts.flatten.length + data.length then
            .failed (.validation s!"bundle too large: exceeds {config.maxBundleSize} bytes limit")
          else .joining job (parts ++ [data]) rest

def takeApart (job : BundleJob) (parts : List Bytes) (dir : List String) : AssemblyTask :=
  if job.kind = difJobKind then
    match config.difFiles w.tables job parts.flatten with
    | .ok files => .storing job parts dir [] files (.ok ())
    | .error e => .failed e
  else
    let found := (config.format.bundleFiles dir (hostOf dir) parts.flatten).2
    .storing job parts dir [] found.1 found.2

/-- `LocalSourceMapStore::put`: what is there stays. -/
def storePut (key : String) (bytes : Bytes) : Option (String → Option Bytes) :=
  if !isSha1 key then none
  else if (w.objects key).isSome then some w.objects
  else some (Function.update w.objects key (some bytes))

/-- `LocalSourceMapStore::get`. -/
def storeGet (key : String) : Option Bytes := if isSha1 key then w.objects key else none

def entryOf (job : BundleJob) (file : DebugFile) (newId : Nat) : FileEntry :=
  ⟨job.projectId, file.debugId, file.fileType, file.bytes, newId⟩

def put (i newId : Nat) (job : BundleJob) (parts : List Bytes) (dir : List String)
    (done : List FileEntry) (ended : AppResult Unit) : List DebugFile → SourceMapServer
  | [] => w
  | file :: rest =>
      match w.storePut (config.sha1 file.bytes) file.bytes with
      | none =>
          let key := config.sha1 file.bytes
          w.setTask i (.failed
            (.internal s!"failed to store source file: io error: invalid store key: {key}"))
      | some objects =>
          { w with objects }.setTask i
            (.storing job parts dir (done ++ [entryOf job file newId]) rest ended)

/-- The rows of the files, in one transaction; the chunks it releases go by `deleteChunks`. -/
def commit (i : Nat) (job : BundleJob) (parts : List Bytes) (dir : List String)
    (done : List FileEntry) : AppResult Unit → SourceMapServer
  | .error e => w.setTask i (.failed e)
  | .ok _ =>
      match done.foldlM (storeFile config.sha1) w.tables with
      | none => w.setTask i (.failed (.database .uniqueViolation))
      | some tables =>
          let bundle : StoredBundle := ⟨job, parts, dir, done.map FileEntry.file⟩
          let record := (done.map (FileEntry.recorded config.sha1)).reverse ++ w.record
          { w with tables, stored := w.stored ++ [bundle], record }.setTask i .committed

/-- The next step of an assembly. -/
def advance (i : Nat) (task : AssemblyTask) : SourceMapLabel → SourceMapServer
  | .join _ => match task with
    | .joining job parts rest => w.setTask i (w.join config job parts rest)
    | _ => w
  | .takeApart _ dir => match task with
    | .joined job parts => w.setTask i (w.takeApart config job parts dir)
    | _ => w
  | .put _ newId => match task with
    | .storing job parts dir done rest ended => w.put config i newId job parts dir done ended rest
    | _ => w
  | .commit _ => match task with
    | .storing job parts dir done [] ended => w.commit config i job parts dir done ended
    | _ => w
  | .fail _ e => match task with
    | .committed => w
    | _ => w.setTask i (.failed e)
  | _ => w

def step (label : SourceMapLabel) : SourceMapServer :=
  match label with
  | .upload fields =>
      match readParts config.sha1 config.maxChunkSize [] 0 fields with
      | .ok parts => { w with uploads := w.uploads ++ [parts] }
      | .error _ => w
  | .difUpload data =>
      { w with uploads := w.uploads ++ [difParts config.sha1 config.maxChunkSize data] }
  | .storeChunk i => w.storeChunk config i
  | .deleteChunks checksums =>
      { w with chunks := w.chunks.filter fun chunk => chunk.1 ∉ checksums }
  | .assemble job => { w with tasks := w.tasks ++ [.joining job [] job.chunks] }
  | .join i | .takeApart i _ | .put i _ | .commit i | .fail i _ =>
      (w.tasks[i]?).elim w fun task => w.advance config i task label
  | .deleteFile id => { w with tables := w.tables.deleteFile id }
  | .unlink storagePath => { w with objects := Function.update w.objects storagePath none }
  | .aliasMapping projectId source target =>
      { w with
        tables := w.tables.aliasProguardMapping projectId source target
        record := (aliasRecord w.tables projectId source target).reverse ++ w.record }
  | .deleteProject projectId => { w with tables := w.tables.deleteProject projectId }

/-- Which stored file serves a debug id. -/
def locate (projectId : Int) (debugId fileType : String) : Option String := do
  let uuid ← config.format.parseUuid debugId
  let m ← lookup SourceFileMetadata.key (projectId, uuid, fileType) w.tables.metadata
  let file ← lookup SourceFile.id m.fileId w.tables.files
  return file.storagePath

end SourceMapServer

/-- `SourceMapServer.step` as a relation. -/
def SourceMapStep (config : ServerConfig) (w : SourceMapServer) (label : SourceMapLabel)
    (w' : SourceMapServer) : Prop :=
  w' = w.step config label

/-! ## What the rows record -/

/-- The rows of a debug id lead to the content that was recorded for it last. -/
structure Tables.Recorded (t : Tables) (record : List (FileKey × String)) : Prop where
  ids : (t.files.map SourceFile.id).Nodup
  path : ∀ file ∈ t.files, file.storagePath = file.checksum
  newest : ∀ m ∈ t.metadata, ∃ file, lookup SourceFile.id m.fileId t.files = some file ∧
    lookup Prod.fst m.key record = some (m.key, file.checksum)

section Rows

variable {t t' : Tables} {record : List (FileKey × String)} {m row : SourceFileMetadata}
  {metadata : List SourceFileMetadata}

theorem mem_upsert (hrow : row ∈ upsert metadata m) :
    row ∈ metadata ∧ row.key ≠ m.key ∨ row.key = m.key ∧ row.fileId = m.fileId := by
  unfold upsert at hrow
  split_ifs at hrow with hknown
  · obtain ⟨old, hold, rfl⟩ := List.mem_map.mp hrow
    by_cases hkey : old.key = m.key
    · simp only [if_pos hkey]
      exact .inr ⟨hkey, trivial⟩
    · simp only [if_neg hkey]
      exact .inl ⟨hold, hkey⟩
  · rcases List.mem_append.mp hrow with hold | hnew
    · refine .inl ⟨hold, fun hkey => hknown ?_⟩
      exact List.any_eq_true.mpr ⟨row, hold, by simpa using hkey⟩
    · rw [List.mem_singleton.mp hnew]
      exact .inr ⟨rfl, rfl⟩

/-- A row that comes, or is changed, with what is recorded. -/
theorem Tables.Recorded.upsert (h : t.Recorded record) {file : SourceFile}
    (hfile : lookup SourceFile.id m.fileId t.files = some file) :
    Tables.Recorded { t with metadata := upsert t.metadata m }
      ((m.key, file.checksum) :: record) where
  ids := h.ids
  path := h.path
  newest := by
    intro row hrow
    rcases mem_upsert hrow with ⟨hold, hkey⟩ | ⟨hkey, hid⟩
    · obtain ⟨found, hfound, hnewest⟩ := h.newest row hold
      refine ⟨found, hfound, ?_⟩
      rw [← hnewest]
      simp [lookup, Ne.symm hkey]
    · exact ⟨file, by rw [hid]; exact hfile, by simp [lookup, hkey]⟩

theorem Tables.Recorded.insertFile (h : t.Recorded record) {sha1 : Sha1} {e : FileEntry}
    {files : List SourceFile} (hinsert : insertFile sha1 t.files e = some files) :
    Tables.Recorded { t with files } record := by
  unfold SourceMaps.insertFile at hinsert
  split_ifs at hinsert with hknown htaken
  · obtain rfl := Option.some.inj hinsert
    exact h
  · obtain rfl := Option.some.inj hinsert
    have hfree : lookup SourceFile.id e.newId t.files = none := by
      refine lookup_eq_none_iff.mpr fun file hfile hid => htaken ?_
      exact List.any_eq_true.mpr ⟨file, hfile, by simpa using hid⟩
    refine ⟨nodup_insert h.ids hfree, ?_, fun m hm => ?_⟩
    · intro file hfile
      rcases List.mem_append.mp hfile with hold | hnew
      · exact h.path file hold
      · rw [List.mem_singleton.mp hnew]
    · obtain ⟨file, hfile, hnewest⟩ := h.newest m hm
      exact ⟨file, by rw [lookup_append, hfile, Option.some_or], hnewest⟩

theorem Tables.Recorded.storeFile (h : t.Recorded record) {sha1 : Sha1} {e : FileEntry}
    (hstore : storeFile sha1 t e = some t') : t'.Recorded (e.recorded sha1 :: record) := by
  simp only [SourceMaps.storeFile, Option.bind_eq_bind, Option.bind_eq_some_iff,
    Option.pure_def] at hstore
  obtain ⟨files, hfiles, file, hfile, ht⟩ := hstore
  obtain rfl := Option.some.inj ht
  have hinserted := h.insertFile hfiles
  have hlookup : lookup SourceFile.id file.id files = some file :=
    lookup_of_mem hinserted.ids (mem_of_lookup hfile)
  have hrecorded := hinserted.upsert (m := ⟨e.projectId, e.debugId, e.fileType, file.id⟩) hlookup
  rw [key_of_lookup hfile] at hrecorded
  exact hrecorded

theorem Tables.Recorded.foldlM {sha1 : Sha1} {entries : List FileEntry} (h : t.Recorded record)
    (hstore : entries.foldlM (SourceMaps.storeFile sha1) t = some t') :
    t'.Recorded ((entries.map (FileEntry.recorded sha1)).reverse ++ record) := by
  induction entries generalizing t record with
  | nil =>
      obtain rfl := Option.some.inj hstore
      exact h
  | cons e rest ih =>
      rw [List.foldlM_cons, Option.bind_eq_bind, Option.bind_eq_some_iff] at hstore
      obtain ⟨mid, hmid, hrest⟩ := hstore
      have hlater := ih (h.storeFile hmid) hrest
      rw [List.map_cons, List.reverse_cons, List.append_assoc]
      exact hlater

theorem Tables.Recorded.deleteFile (h : t.Recorded record) (id : Nat) :
    (t.deleteFile id).Recorded record where
  ids := h.ids.sublist (List.Sublist.map _ List.filter_sublist)
  path := fun file hfile => h.path file (List.mem_of_mem_filter hfile)
  newest := by
    intro m hm
    obtain ⟨hmem, hid⟩ := List.mem_filter.mp hm
    obtain ⟨file, hfile, hnewest⟩ := h.newest m hmem
    refine ⟨file, ?_, hnewest⟩
    have hother : m.fileId ≠ id := by simpa using hid
    rw [Tables.deleteFile, lookup_filter_key (fun k => decide (k ≠ id))]
    simp [hother, hfile]

theorem Tables.Recorded.deleteProject (h : t.Recorded record) (projectId : Int) :
    (t.deleteProject projectId).Recorded record :=
  ⟨h.ids, h.path, fun m hm => h.newest m (List.mem_of_mem_filter hm)⟩

theorem Tables.Recorded.aliasFile (h : t.Recorded record) (projectId : Int)
    (source target fileType : String) :
    (t.aliasFile projectId source target fileType).Recorded
      ((aliasRecordOf t projectId source target fileType).reverse ++ record) := by
  unfold Tables.aliasFile aliasRecordOf
  cases hsource : lookup SourceFileMetadata.key (projectId, source, fileType) t.metadata with
  | none => exact h
  | some m =>
      obtain ⟨file, hfile, -⟩ := h.newest m (mem_of_lookup hsource)
      simp only [hfile]
      exact h.upsert (m := ⟨projectId, target, fileType, m.fileId⟩) hfile

theorem lookup_upsert_ne {key : FileKey} (hkey : key ≠ m.key) :
    lookup SourceFileMetadata.key key (upsert metadata m) =
      lookup SourceFileMetadata.key key metadata := by
  unfold upsert
  split_ifs
  · exact lookup_modify_ne (fun _ => rfl) hkey
  · exact lookup_insert_ne (Ne.symm hkey)

/-- The alias of one type leaves the other as it was. -/
theorem aliasRecordOf_aliasFile {projectId : Int} {source target fileType other : String}
    (hne : fileType ≠ other) :
    aliasRecordOf (t.aliasFile projectId source target other) projectId source target fileType =
      aliasRecordOf t projectId source target fileType := by
  unfold Tables.aliasFile
  cases lookup SourceFileMetadata.key (projectId, source, other) t.metadata with
  | none => rfl
  | some m =>
      unfold aliasRecordOf
      dsimp only
      rw [lookup_upsert_ne (by simp [SourceFileMetadata.key, hne])]

theorem Tables.Recorded.aliasProguardMapping (h : t.Recorded record) (projectId : Int)
    (source target : String) :
    (t.aliasProguardMapping projectId source target).Recorded
      ((aliasRecord t projectId source target).reverse ++ record) := by
  have hfirst := h.aliasFile projectId source target proguardFileType
  have hsecond := hfirst.aliasFile projectId source target proguardCacheFileType
  rw [aliasRecordOf_aliasFile (by decide)] at hsecond
  simpa [aliasRecord, Tables.aliasProguardMapping] using hsecond

/-- A row for a key stays, and the one that is stored is there. -/
theorem exists_key_upsert {key : FileKey}
    (hkey : (∃ row ∈ metadata, row.key = key) ∨ key = m.key) :
    ∃ row ∈ upsert metadata m, row.key = key := by
  unfold upsert
  split_ifs with hknown
  · have hold : ∃ row ∈ metadata, row.key = key := by
      rcases hkey with hold | rfl
      · exact hold
      · obtain ⟨row, hrow, hsame⟩ := List.any_eq_true.mp hknown
        exact ⟨row, hrow, by simpa using hsame⟩
    obtain ⟨row, hrow, rfl⟩ := hold
    refine ⟨_, List.mem_map_of_mem hrow, ?_⟩
    split_ifs <;> rfl
  · rcases hkey with ⟨row, hrow, rfl⟩ | rfl
    · exact ⟨row, List.mem_append_left _ hrow, rfl⟩
    · exact ⟨m, List.mem_append_right _ List.mem_cons_self, rfl⟩

theorem exists_key_storeFile {sha1 : Sha1} {e : FileEntry} {key : FileKey}
    (hstore : storeFile sha1 t e = some t')
    (hkey : (∃ row ∈ t.metadata, row.key = key) ∨ key = e.key) :
    ∃ row ∈ t'.metadata, row.key = key := by
  simp only [SourceMaps.storeFile, Option.bind_eq_bind, Option.bind_eq_some_iff,
    Option.pure_def] at hstore
  obtain ⟨files, hfiles, file, hfile, ht⟩ := hstore
  obtain rfl := Option.some.inj ht
  exact exists_key_upsert hkey

theorem exists_key_foldlM {sha1 : Sha1} {entries : List FileEntry} {key : FileKey}
    (hstore : entries.foldlM (storeFile sha1) t = some t')
    (hkey : (∃ row ∈ t.metadata, row.key = key) ∨ ∃ e ∈ entries, key = e.key) :
    ∃ row ∈ t'.metadata, row.key = key := by
  induction entries generalizing t with
  | nil =>
      obtain rfl := Option.some.inj hstore
      exact hkey.resolve_right (by simp)
  | cons e rest ih =>
      rw [List.foldlM_cons, Option.bind_eq_bind, Option.bind_eq_some_iff] at hstore
      obtain ⟨mid, hmid, hrest⟩ := hstore
      rcases hkey with hold | ⟨other, hother, hsame⟩
      · exact ih hrest (.inl (exists_key_storeFile hmid (.inl hold)))
      · rcases List.mem_cons.mp hother with rfl | hlater
        · exact ih hrest (.inl (exists_key_storeFile hmid (.inr hsame)))
        · exact ih hrest (.inr ⟨other, hlater, hsame⟩)

end Rows

/-! ## What is stored, and where it came from -/

variable (config : ServerConfig)

/-- The chunks are those the job lists, and together the bundle it names. -/
def Joined (job : BundleJob) (parts : List Bytes) : Prop :=
  parts.map config.sha1 = job.chunks ∧ config.sha1 parts.flatten = job.checksum

def AssemblyTask.Sound : AssemblyTask → Prop
  | .joining job parts rest => parts.map config.sha1 ++ rest = job.chunks
  | .joined job parts => Joined config job parts
  | .storing job parts dir done rest ended => Joined config job parts ∧
      (∀ e ∈ done, e.projectId = job.projectId) ∧
      (job.kind ≠ difJobKind → (config.format.bundleFiles dir (hostOf dir) parts.flatten).2 =
        (done.map FileEntry.file ++ rest, ended))
  | .committed | .failed _ => True

/-- A bundle of the chunks and the checksum its job names, whose files are all those its manifest
lists. -/
structure StoredBundle.Genuine (b : StoredBundle) : Prop where
  joined : Joined config b.job b.parts
  files : b.job.kind ≠ difJobKind →
    (config.format.bundleFiles b.dir (hostOf b.dir) b.parts.flatten).2 = (b.files, .ok ())

/-- The content that is recorded is that of a file of the bundle, for the same project, type and
debug id; a ProGuard mapping may have been recorded for another debug id. -/
def StoredBundle.Has (b : StoredBundle) (recorded : FileKey × String) : Prop :=
  b.job.projectId = recorded.1.1 ∧ ∃ file ∈ b.files, file.fileType = recorded.1.2.2 ∧
    config.sha1 file.bytes = recorded.2 ∧
    (file.debugId = recorded.1.2.1 ∨ recorded.1.2.2 = proguardFileType ∨
      recorded.1.2.2 = proguardCacheFileType)

structure SourceMapServer.Sound (w : SourceMapServer) : Prop where
  chunks : ∀ chunk ∈ w.chunks, config.sha1 chunk.2 = chunk.1
  uploads : ∀ parts ∈ w.uploads, ∀ chunk ∈ parts, config.sha1 chunk.2 = chunk.1
  objects : ∀ key bytes, w.objects key = some bytes → config.sha1 bytes = key
  tasks : ∀ task ∈ w.tasks, task.Sound config
  stored : ∀ b ∈ w.stored, b.Genuine config
  sourced : ∀ recorded ∈ w.record, ∃ b ∈ w.stored, b.Has config recorded
  tables : w.tables.Recorded w.record

variable {config} {w w' : SourceMapServer} {label : SourceMapLabel}

theorem readParts_sound {sha1 : Sha1} {maxChunkSize total : Nat} {fields : List UploadField}
    {parts found : List (String × Bytes)} (hparts : ∀ chunk ∈ parts, sha1 chunk.2 = chunk.1)
    (hread : readParts sha1 maxChunkSize parts total fields = .ok found) :
    ∀ chunk ∈ found, sha1 chunk.2 = chunk.1 := by
  induction fields generalizing parts total with
  | nil =>
      obtain ⟨-, -, hfound⟩ := bind_eq_ok hread
      obtain rfl := Except.ok.inj hfound
      exact hparts
  | cons field rest ih =>
      rw [readParts] at hread
      split_ifs at hread with hunnamed
      · exact ih hparts hread
      · obtain ⟨-, -, hread⟩ := bind_eq_ok hread
        obtain ⟨buf, -, hread⟩ := bind_eq_ok hread
        obtain ⟨-, -, hread⟩ := bind_eq_ok hread
        obtain ⟨key, hkey, hread⟩ := bind_eq_ok hread
        obtain ⟨-, -, hkey⟩ := bind_eq_ok hkey
        obtain rfl := Except.ok.inj hkey
        refine ih (fun chunk hchunk => ?_) hread
        rcases List.mem_append.mp hchunk with hold | hnew
        · exact hparts chunk hold
        · rw [List.mem_singleton.mp hnew]

namespace SourceMapServer

theorem Sound.setTask (h : w.Sound config) (i : Nat) {task : AssemblyTask}
    (htask : task.Sound config) : (w.setTask i task).Sound config := by
  refine { h with tasks := fun other hother => ?_ }
  rcases List.mem_or_eq_of_mem_set hother with hold | rfl
  · exact h.tasks other hold
  · exact htask

theorem Sound.storeChunk (h : w.Sound config) (i : Nat) : (w.storeChunk config i).Sound config := by
  unfold SourceMapServer.storeChunk
  split
  next key bytes rest hupload =>
    have hparts := h.uploads _ (List.mem_of_getElem? hupload)
    have hset : ∀ left, (∀ chunk ∈ left, config.sha1 chunk.2 = chunk.1) →
        ∀ parts ∈ w.uploads.set i left, ∀ chunk ∈ parts, config.sha1 chunk.2 = chunk.1 := by
      intro left hleft parts hmem
      rcases List.mem_or_eq_of_mem_set hmem with hold | rfl
      · exact h.uploads parts hold
      · exact hleft
    have hrest := hset rest fun chunk hchunk => hparts chunk (List.mem_cons_of_mem _ hchunk)
    split_ifs with hlarge hthere
    · exact { h with uploads := hset [] (by simp) }
    · exact { h with uploads := hrest }
    · refine { h with uploads := hrest, chunks := fun chunk hchunk => ?_ }
      rcases List.mem_append.mp hchunk with hold | hnew
      · exact h.chunks chunk hold
      · rw [List.mem_singleton.mp hnew]
        exact hparts _ List.mem_cons_self
  next => exact h

theorem Sound.join (h : w.Sound config) {job : BundleJob} {parts : List Bytes}
    {rest : List String} (htask : (AssemblyTask.joining job parts rest).Sound config) :
    (w.join config job parts rest).Sound config := by
  cases rest with
  | nil =>
      simp only [SourceMapServer.join]
      split_ifs with hsum
      · exact ⟨by simpa [AssemblyTask.Sound] using htask, hsum⟩
      · trivial
  | cons chunk rest =>
      simp only [SourceMapServer.join]
      split
      next => trivial
      next found data hfound =>
        have hkey := key_of_lookup hfound
        have hdata := h.chunks _ (mem_of_lookup hfound)
        dsimp only at hkey hdata
        split_ifs with hlarge
        · trivial
        · simpa [AssemblyTask.Sound, hdata, hkey] using htask

theorem takeApart_sound {job : BundleJob} {parts : List Bytes} (dir : List String)
    (htask : (AssemblyTask.joined job parts).Sound config) :
    (w.takeApart config job parts dir).Sound config := by
  unfold SourceMapServer.takeApart
  split_ifs with hdif
  · split
    next => exact ⟨htask, by simp, fun hkind => absurd hdif hkind⟩
    next => trivial
  · exact ⟨htask, by simp, fun _ => rfl⟩

theorem Sound.put (h : w.Sound config) {job : BundleJob} {parts : List Bytes} {dir : List String}
    {done : List FileEntry} {rest : List DebugFile} {ended : AppResult Unit} (i newId : Nat)
    (htask : (AssemblyTask.storing job parts dir done rest ended).Sound config) :
    (w.put config i newId job parts dir done ended rest).Sound config := by
  cases rest with
  | nil => exact h
  | cons file rest =>
      simp only [SourceMapServer.put]
      split
      next => exact h.setTask i trivial
      next objects hput =>
        unfold storePut at hput
        have hobjects : ∀ key bytes, objects key = some bytes → config.sha1 bytes = key := by
          split_ifs at hput with hinvalid hthere
          · obtain rfl := Option.some.inj hput
            exact h.objects
          · obtain rfl := Option.some.inj hput
            intro key bytes hbytes
            by_cases hkey : key = config.sha1 file.bytes
            · subst hkey
              rw [Function.update_self] at hbytes
              rw [Option.some.inj hbytes]
            · rw [Function.update_of_ne hkey] at hbytes
              exact h.objects key bytes hbytes
        have hput : Sound config { w with objects } := { h with objects := hobjects }
        refine hput.setTask i ⟨htask.1, ?_, ?_⟩
        · intro e he
          rcases List.mem_append.mp he with hold | hnew
          · exact htask.2.1 e hold
          · rw [List.mem_singleton.mp hnew]
            rfl
        · intro hkind
          rw [htask.2.2 hkind]
          simp [entryOf, FileEntry.file]

/-- A committed bundle has what it records. -/
theorem Sound.commit (h : w.Sound config) {job : BundleJob} {parts : List Bytes}
    {dir : List String} {done : List FileEntry} {ended : AppResult Unit} (i : Nat)
    (htask : (AssemblyTask.storing job parts dir done [] ended).Sound config) :
    (w.commit config i job parts dir done ended).Sound config := by
  cases ended with
  | error e => exact h.setTask i trivial
  | ok _ =>
      simp only [SourceMapServer.commit]
      split
      next => exact h.setTask i trivial
      next tables htables =>
        refine Sound.setTask ?_ i trivial
        refine { h with stored := ?_, sourced := ?_, tables := h.tables.foldlM htables }
        · intro b hb
          rcases List.mem_append.mp hb with hold | hnew
          · exact h.stored b hold
          · rw [List.mem_singleton.mp hnew]
            exact ⟨htask.1, fun hkind => by simpa using htask.2.2 hkind⟩
        · intro recorded hrecorded
          rcases List.mem_append.mp hrecorded with hnew | hold
          · obtain ⟨e, he, rfl⟩ := List.mem_map.mp (List.mem_reverse.mp hnew)
            refine ⟨⟨job, parts, dir, done.map FileEntry.file⟩, by simp, ?_⟩
            exact ⟨(htask.2.1 e he).symm, e.file, List.mem_map_of_mem he, rfl, rfl, .inl rfl⟩
          · obtain ⟨b, hb, hhas⟩ := h.sourced recorded hold
            exact ⟨b, List.mem_append_left _ hb, hhas⟩

/-- An alias records what is recorded already. -/
theorem Sound.aliased (h : w.Sound config) (projectId : Int) (source target : String) :
    ∀ recorded ∈ aliasRecord w.tables projectId source target,
      ∃ b ∈ w.stored, b.Has config recorded := by
  intro recorded hrecorded
  obtain ⟨fileType, htype, hrecorded⟩ := List.mem_flatMap.mp hrecorded
  unfold aliasRecordOf at hrecorded
  split at hrecorded
  · cases hrecorded
  next m hm =>
    obtain ⟨file, hfile, hnewest⟩ := h.tables.newest m (mem_of_lookup hm)
    simp only [hfile, List.mem_singleton] at hrecorded
    obtain ⟨b, hb, hproject, found, hfound, hsame, hsum, -⟩ :=
      h.sourced _ (mem_of_lookup hnewest)
    have hkey := key_of_lookup hm
    rw [hkey] at hproject hsame
    subst hrecorded
    exact ⟨b, hb, hproject, found, hfound, hsame, hsum, .inr (by simpa using htype)⟩

theorem Sound.advance (h : w.Sound config) {i : Nat} {task : AssemblyTask}
    (htask : task.Sound config) : (w.advance config i task label).Sound config := by
  unfold SourceMapServer.advance
  cases label with
  | join _ => cases task with
    | joining job parts rest => exact h.setTask i (h.join htask)
    | _ => exact h
  | takeApart _ dir => cases task with
    | joined job parts => exact h.setTask i (takeApart_sound dir htask)
    | _ => exact h
  | put _ newId => cases task with
    | storing job parts dir done rest ended => exact h.put i newId htask
    | _ => exact h
  | commit _ => cases task with
    | storing job parts dir done rest ended => cases rest with
      | nil => exact h.commit i htask
      | cons file rest => exact h
    | _ => exact h
  | fail _ e => cases task with
    | committed => exact h
    | _ => exact h.setTask i trivial
  | _ => exact h

theorem Sound.go (h : w.Sound config) (i : Nat) (label : SourceMapLabel) :
    ((w.tasks[i]?).elim w fun task => w.advance config i task label).Sound config := by
  cases hi : w.tasks[i]? with
  | none => exact h
  | some task => exact h.advance (h.tasks task (List.mem_of_getElem? hi))

theorem Sound.step (h : w.Sound config) (hstep : SourceMapStep config w label w') :
    w'.Sound config := by
  subst hstep
  cases label with
  | upload fields =>
      simp only [SourceMapServer.step]
      split
      next parts hparts =>
        refine { h with uploads := fun other hother => ?_ }
        rcases List.mem_append.mp hother with hold | hnew
        · exact h.uploads other hold
        · rw [List.mem_singleton.mp hnew]
          exact readParts_sound (by simp) hparts
      next => exact h
  | difUpload data =>
      refine { h with uploads := fun other hother => ?_ }
      rcases List.mem_append.mp hother with hold | hnew
      · exact h.uploads other hold
      · rw [List.mem_singleton.mp hnew]
        simp [difParts]
  | storeChunk i => exact h.storeChunk i
  | deleteChunks checksums =>
      exact { h with chunks := fun chunk hchunk => h.chunks chunk (List.mem_of_mem_filter hchunk) }
  | assemble job =>
      refine { h with tasks := fun task htask => ?_ }
      rcases List.mem_append.mp htask with hold | hnew
      · exact h.tasks task hold
      · rw [List.mem_singleton.mp hnew]
        rfl
  | join i => exact h.go i _
  | takeApart i dir => exact h.go i _
  | put i newId => exact h.go i _
  | commit i => exact h.go i _
  | fail i e => exact h.go i _
  | deleteFile id => exact { h with tables := h.tables.deleteFile id }
  | unlink storagePath =>
      refine { h with objects := fun key bytes hbytes => h.objects key bytes ?_ }
      by_cases hkey : key = storagePath
      · simp [SourceMapServer.step, hkey] at hbytes
      · simpa [SourceMapServer.step, hkey] using hbytes
  | aliasMapping projectId source target =>
      refine { h with
        sourced := fun recorded hrecorded => ?_
        tables := h.tables.aliasProguardMapping projectId source target }
      rcases List.mem_append.mp hrecorded with hnew | hold
      · exact h.aliased projectId source target recorded (List.mem_reverse.mp hnew)
      · exact h.sourced recorded hold
  | deleteProject projectId => exact { h with tables := h.tables.deleteProject projectId }

theorem sound_start : start.Sound config where
  chunks := by simp [start]
  uploads := by simp [start]
  objects := by simp [start]
  tasks := by simp [start]
  stored := by simp [start]
  sourced := by simp [start]
  tables := ⟨by simp [start], by simp [start], by simp [start]⟩

theorem sound_of_run {labels : List SourceMapLabel}
    (hrun : Run (SourceMapStep config) start labels w) : w.Sound config :=
  hrun.invariant (Sound config) (fun _ _ _ h hstep => h.step hstep) sound_start

theorem locate_eq_some {projectId : Int} {debugId fileType path : String} (h : w.Sound config)
    (hlocate : w.locate config projectId debugId fileType = some path) :
    ∃ uuid, config.format.parseUuid debugId = some uuid ∧
      lookup Prod.fst (projectId, uuid, fileType) w.record =
        some ((projectId, uuid, fileType), path) := by
  simp only [locate, Option.bind_eq_bind, Option.bind_eq_some_iff, Option.pure_def] at hlocate
  obtain ⟨uuid, huuid, m, hm, file, hfile, hpath⟩ := hlocate
  obtain ⟨found, hfound, hnewest⟩ := h.tables.newest m (mem_of_lookup hm)
  rw [hfile] at hfound
  obtain rfl := Option.some.inj hfound
  obtain rfl := Option.some.inj hpath
  rw [key_of_lookup hm] at hnewest
  exact ⟨uuid, huuid, by rw [h.tables.path file (mem_of_lookup hfile)]; exact hnewest⟩

/-- A file that is served was uploaded: the bytes read for a debug id of a project have the SHA-1 of
a file, for that debug id and type, of a bundle assembled for that project, which is made of the
chunks its request lists and has the checksum it names. -/
theorem served_file_was_uploaded {u v : SourceMapServer} {labels later : List SourceMapLabel}
    {projectId : Int} {debugId fileType path : String} {bytes : Bytes}
    (hrun : Run (SourceMapStep config) start labels u)
    (hlater : Run (SourceMapStep config) u later v)
    (hlocate : u.locate config projectId debugId fileType = some path)
    (hget : v.storeGet path = some bytes) :
    ∃ uuid, config.format.parseUuid debugId = some uuid ∧ ∃ b ∈ u.stored, b.Genuine config ∧
      b.Has config ((projectId, uuid, fileType), config.sha1 bytes) := by
  have hsound := sound_of_run hrun
  obtain ⟨uuid, huuid, hnewest⟩ := locate_eq_some hsound hlocate
  obtain ⟨b, hb, hhas⟩ := hsound.sourced _ (mem_of_lookup hnewest)
  have hsum : config.sha1 bytes = path := by
    unfold storeGet at hget
    split_ifs at hget
    exact (sound_of_run (hrun.append hlater)).objects path bytes hget
  exact ⟨uuid, huuid, b, hb, hsound.stored b hb, by rw [hsum]; exact hhas⟩

def sampleSha1 : Sha1 := fun bytes => String.ofList (List.replicate 40
  (if bytes = [1] then 'a' else if bytes = [2] then 'b' else if bytes = [3] then 'c' else 'd'))

def sampleConfig : ServerConfig where
  maxChunkSize := 8
  maxBundleSize := 64
  sha1 := sampleSha1
  format := sampleFormat
  difFiles _ _ _ := .ok []

/-- Two chunks are uploaded, and the bundle they make is assembled but for its commit. -/
def sampleUpload : List SourceMapLabel :=
  [.upload [⟨"file", [[1]]⟩, ⟨"file", [[2]]⟩], .storeChunk 0, .storeChunk 0,
    .assemble ⟨1, sampleSha1 [1, 2], [sampleSha1 [1], sampleSha1 [2]], "artifact_bundle", none, none⟩,
    .join 0, .join 0, .join 0, .takeApart 0 ["tmp", "extracted"], .put 0 7]

def sampleReady : SourceMapServer := sampleUpload.foldl (step sampleConfig) start

def sampleServed : SourceMapServer := sampleReady.step sampleConfig (.commit 0)

theorem sampleServed_run :
    Run (SourceMapStep sampleConfig) start (sampleUpload ++ [.commit 0]) sampleServed :=
  (Run.of_foldl sampleUpload start).append (.single rfl)

theorem served_file_was_uploaded_sample :
    ∃ uuid, sampleFormat.parseUuid "D1" = some uuid ∧
      ∃ b ∈ sampleServed.stored, b.Genuine sampleConfig ∧
        b.Has sampleConfig ((1, uuid, "source_map"), sampleSha1 [3]) := by
  have hlocate : sampleServed.locate sampleConfig 1 "D1" "source_map" = some (sampleSha1 [3]) := by
    decide +kernel
  exact served_file_was_uploaded sampleServed_run (.nil _) hlocate (by decide +kernel)

/-! ## The newest upload -/

/-- A step that commits the files of an assembly. -/
structure Commits (config : ServerConfig) (w : SourceMapServer) (i : Nat) (job : BundleJob)
    (parts : List Bytes) (dir : List String) (done : List FileEntry) (tables : Tables)
    (w' : SourceMapServer) : Prop where
  task : AssemblyTask.storing job parts dir done [] (.ok ()) ∈ w.tasks
  rows : done.foldlM (storeFile config.sha1) w.tables = some tables
  after : w' = setTask { w with
    tables
    stored := w.stored ++ [⟨job, parts, dir, done.map FileEntry.file⟩]
    record := (done.map (FileEntry.recorded config.sha1)).reverse ++ w.record } i .committed

theorem advance_cases {i : Nat} {task : AssemblyTask} (htask : task ∈ w.tasks) :
    ((w.advance config i task label).stored = w.stored ∧
      (w.advance config i task label).record = w.record) ∨
    ∃ job parts dir done tables, Commits config w i job parts dir done tables
      (w.advance config i task label) := by
  unfold SourceMapServer.advance
  cases label with
  | join _ => cases task <;> exact .inl ⟨rfl, rfl⟩
  | takeApart _ dir => cases task <;> exact .inl ⟨rfl, rfl⟩
  | fail _ e => cases task <;> exact .inl ⟨rfl, rfl⟩
  | put _ newId => cases task with
    | storing job parts dir done rest ended => cases rest with
      | nil => exact .inl ⟨rfl, rfl⟩
      | cons file rest =>
          simp only [SourceMapServer.put]
          split <;> exact .inl ⟨rfl, rfl⟩
    | _ => exact .inl ⟨rfl, rfl⟩
  | commit _ => cases task with
    | storing job parts dir done rest ended => cases rest with
      | cons file rest => exact .inl ⟨rfl, rfl⟩
      | nil => cases ended with
        | error e => exact .inl ⟨rfl, rfl⟩
        | ok _ =>
            simp only [SourceMapServer.commit]
            split
            next => exact .inl ⟨rfl, rfl⟩
            next tables htables => exact .inr ⟨job, parts, dir, done, tables, htask, htables, rfl⟩
    | _ => exact .inl ⟨rfl, rfl⟩
  | _ => exact .inl ⟨rfl, rfl⟩

theorem go_cases (i : Nat) (label : SourceMapLabel) {w' : SourceMapServer}
    (hstep : w' = (w.tasks[i]?).elim w fun task => w.advance config i task label) :
    (w'.stored = w.stored ∧ w'.record = w.record) ∨
      ∃ job parts dir done tables, Commits config w i job parts dir done tables w' := by
  subst hstep
  cases hi : w.tasks[i]? with
  | none => exact .inl ⟨rfl, rfl⟩
  | some task => exact advance_cases (List.mem_of_getElem? hi)

/-- What is recorded stays, behind what is recorded later. -/
theorem record_suffix (hstep : SourceMapStep config w label w') : w.record <:+ w'.record := by
  have hgo : ∀ i label, w' = ((w.tasks[i]?).elim w fun task => w.advance config i task label) →
      w.record <:+ w'.record := by
    intro i label hstep
    rcases go_cases i label hstep with ⟨-, hsame⟩ | ⟨job, parts, dir, done, tables, -, -, hafter⟩
    · rw [hsame]
    · rw [hafter]
      exact List.suffix_append _ _
  cases label with
  | join i => exact hgo i _ hstep
  | takeApart i dir => exact hgo i _ hstep
  | put i newId => exact hgo i _ hstep
  | commit i => exact hgo i _ hstep
  | fail i e => exact hgo i _ hstep
  | aliasMapping projectId source target =>
      rw [hstep]
      exact List.suffix_append _ _
  | upload fields =>
      rw [hstep, SourceMapServer.step]
      split <;> exact List.suffix_refl _
  | storeChunk i =>
      rw [hstep, SourceMapServer.step, SourceMapServer.storeChunk]
      split
      · split_ifs <;> exact List.suffix_refl _
      · exact List.suffix_refl _
  | _ =>
      rw [hstep]
      exact List.suffix_refl _

theorem record_suffix_of_run {labels : List SourceMapLabel}
    (hrun : Run (SourceMapStep config) w labels w') : w.record <:+ w'.record :=
  hrun.relates (fun _ => True) (fun s t => s.record <:+ t.record) (fun _ => List.suffix_refl _)
    (fun _ _ _ => List.IsSuffix.trans) (fun _ _ _ _ _ => trivial)
    (fun _ _ _ _ hstep => record_suffix hstep) trivial

/-- What has a row is found. -/
theorem exists_locate {projectId : Int} {debugId uuid fileType : String} (h : w.Sound config)
    (huuid : config.format.parseUuid debugId = some uuid)
    (hrow : ∃ row ∈ w.tables.metadata, row.key = (projectId, uuid, fileType)) :
    ∃ path, w.locate config projectId debugId fileType = some path := by
  obtain ⟨m, hm⟩ := Option.isSome_iff_exists.mp (lookup_isSome_iff.mpr hrow)
  obtain ⟨file, hfile, -⟩ := h.tables.newest m (mem_of_lookup hm)
  refine ⟨file.storagePath, ?_⟩
  simp [locate, huuid, hm, hfile]

/-- The newest upload is served: once an assembly commits, each file of its bundle is found under
its debug id, and from then on, whatever is deleted, collected or uploaded at the same time, what is
found there is never from an older upload; it is a file of this bundle, or it was recorded for that
debug id since. -/
theorem newest_upload_is_served {r s u : SourceMapServer} {labels later : List SourceMapLabel}
    {i : Nat} (hrun : Run (SourceMapStep config) start labels r)
    (hcommit : SourceMapStep config r (.commit i) s) (hstored : s.stored ≠ r.stored)
    (hlater : Run (SourceMapStep config) s later u) :
    ∃ b newer, s.stored = r.stored ++ [b] ∧ u.record = newer ++ s.record ∧
      ∀ file ∈ b.files, ∀ debugId, config.format.parseUuid debugId = some file.debugId →
        (∃ path, s.locate config b.job.projectId debugId file.fileType = some path) ∧
        ∀ path, u.locate config b.job.projectId debugId file.fileType = some path →
          (∃ other ∈ b.files, other.debugId = file.debugId ∧ other.fileType = file.fileType ∧
            config.sha1 other.bytes = path) ∨
          ((b.job.projectId, file.debugId, file.fileType), path) ∈ newer := by
  have hsound := sound_of_run hrun
  have hcommitted := hsound.step hcommit
  obtain ⟨newer, hnewer⟩ := record_suffix_of_run hlater
  rcases go_cases i _ hcommit with ⟨hsame, -⟩ | ⟨job, parts, dir, done, tables, htask, hrows, hafter⟩
  · exact absurd hsame hstored
  obtain ⟨-, hproject, -⟩ := hsound.tasks _ htask
  have hkey : ∀ e ∈ done, e.key = (job.projectId, e.debugId, e.fileType) := by
    intro e he
    rw [FileEntry.key, hproject e he]
  refine ⟨⟨job, parts, dir, done.map FileEntry.file⟩, newer, by rw [hafter]; rfl, hnewer.symm, ?_⟩
  intro file hfile debugId huuid
  obtain ⟨e, he, rfl⟩ := List.mem_map.mp hfile
  constructor
  · refine exists_locate hcommitted huuid ?_
    rw [hafter]
    exact exists_key_foldlM hrows (.inr ⟨e, he, (hkey e he).symm⟩)
  · intro path hpath
    obtain ⟨uuid, huuid', hnewest⟩ :=
      locate_eq_some (sound_of_run ((hrun.append (.single hcommit)).append hlater)) hpath
    obtain rfl : e.file.debugId = uuid := Option.some.inj (huuid.symm.trans huuid')
    rw [← hnewer, lookup_append, Option.or_eq_some_iff] at hnewest
    rcases hnewest with hnew | ⟨-, hold⟩
    · exact .inr (mem_of_lookup hnew)
    · -- The bundle itself records the key, so nothing older is reached.
      have hrecord : s.record =
          (done.map (FileEntry.recorded config.sha1)).reverse ++ r.record := by rw [hafter]; rfl
      rw [hrecord, lookup_append, Option.or_eq_some_iff] at hold
      rcases hold with hthis | ⟨hnone, -⟩
      · obtain ⟨other, hother, hrecorded⟩ :=
          List.mem_map.mp (List.mem_reverse.mp (mem_of_lookup hthis))
        obtain ⟨hsame, hsum⟩ := Prod.mk.inj hrecorded
        rw [hkey other hother] at hsame
        simp only [Prod.mk.injEq, true_and] at hsame
        exact .inl ⟨other.file, List.mem_map_of_mem hother, hsame.1, hsame.2, hsum⟩
      · refine absurd ?_ (lookup_eq_none_iff.mp hnone (e.recorded config.sha1)
          (List.mem_reverse.mpr (List.mem_map_of_mem he)))
        exact hkey e he

theorem newest_upload_is_served_sample :
    ∃ b newer, sampleServed.stored = sampleReady.stored ++ [b] ∧
      sampleServed.record = newer ++ sampleServed.record ∧
      ∀ file ∈ b.files, ∀ debugId, sampleFormat.parseUuid debugId = some file.debugId →
        (∃ path, sampleServed.locate sampleConfig b.job.projectId debugId file.fileType =
          some path) ∧
        ∀ path, sampleServed.locate sampleConfig b.job.projectId debugId file.fileType =
            some path →
          (∃ other ∈ b.files, other.debugId = file.debugId ∧ other.fileType = file.fileType ∧
            sampleSha1 other.bytes = path) ∨
          ((b.job.projectId, file.debugId, file.fileType), path) ∈ newer :=
  newest_upload_is_served (i := 0) (Run.of_foldl sampleUpload start) rfl
    (fun hsame => absurd (congrArg List.length hsame) (by decide +kernel)) (.nil _)

end SourceMapServer

end Rustrak.SourceMaps
