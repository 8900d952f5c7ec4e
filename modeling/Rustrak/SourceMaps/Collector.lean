import Mathlib.Data.Finset.Basic
import Rustrak.Relational.Table
import Rustrak.Transition.Run

/-!
# Source maps and their garbage collector

`store_file` in `services/sourcemap.rs` puts the bytes of a file into a store of objects
named by their content, and the rows that refer to it into the database, in a
transaction that commits later.  `gc_source_maps` in `services/storage.rs` deletes the
rows of files that nothing refers to, one by one, and unlinks each object after its row.

Neither waits for the other.  A row that was deleted can be back before its object is
unlinked, with the object found in its place by the upload that brought it back.

* `Stored.step`: in a step that unlinks nothing that has come back, every file has its
  object, and every upload what it has put;
* `referenced_files_stored`: so it is in a run of such steps;
* `upload_between_delete_and_unlink`: the interleaving that loses an object.
-/

namespace Rustrak.SourceMaps

open Rustrak.Relational Rustrak.Transition

/-- A `source_file` row; its object is at `storagePath`. -/
structure SourceFile where
  id : Nat
  checksum : String
  size : Nat
  storagePath : String
  deriving DecidableEq

structure SourceFileMetadata where
  projectId : Int
  debugId : String
  fileType : String
  fileId : Nat
  deriving DecidableEq

/-- The columns a file is looked up by. -/
def SourceFileMetadata.key (m : SourceFileMetadata) : Int × String × String :=
  (m.projectId, m.debugId, m.fileType)

structure Tables where
  files : List SourceFile
  metadata : List SourceFileMetadata
  deriving DecidableEq

/-- A file of an upload, with the id its row gets if there is none of the content. -/
structure FileEntry where
  projectId : Int
  debugId : String
  fileType : String
  bytes : List UInt8
  newId : Nat
  deriving DecidableEq

/-- The name of a content in the store, in hex: `sha1` is other people's code. -/
abbrev Sha1 := List UInt8 → String

variable (sha1 : Sha1)

def FileEntry.storageKey (e : FileEntry) : String := sha1 e.bytes

/-- `ON CONFLICT(project_id, debug_id, file_type) DO UPDATE SET file_id = EXCLUDED.file_id` -/
def upsert (metadata : List SourceFileMetadata) (m : SourceFileMetadata) :
    List SourceFileMetadata :=
  if metadata.any (·.key = m.key) then
    modify SourceFileMetadata.key m.key (fun row => { row with fileId := m.fileId }) metadata
  else metadata ++ [m]

/-- `ON CONFLICT(checksum) DO NOTHING`; `none` when the new id is taken. -/
def insertFile (files : List SourceFile) (e : FileEntry) : Option (List SourceFile) :=
  if files.any (·.checksum = e.storageKey sha1) then some files
  else if files.any (·.id = e.newId) then none
  else some (files ++ [⟨e.newId, e.storageKey sha1, e.bytes.length, e.storageKey sha1⟩])

/-- The statements of `store_file`; `none` when one of them fails. -/
def storeFile (t : Tables) (e : FileEntry) : Option Tables := do
  let files ← insertFile sha1 t.files e
  let row ← lookup SourceFile.checksum (e.storageKey sha1) files
  -- A re-upload for the same debug ID wins.
  return { files, metadata := upsert t.metadata ⟨e.projectId, e.debugId, e.fileType, row.id⟩ }

/-- Whether any metadata refers to a file. -/
def Tables.references (t : Tables) (id : Nat) : Bool := t.metadata.any (·.fileId = id)

/-- `source_file` rows with no metadata pointing at them. -/
def Tables.orphans (t : Tables) : List SourceFile := t.files.filter fun f => !t.references f.id

/-- Deletes a file, and the metadata that refers to it. -/
def Tables.deleteFile (t : Tables) (id : Nat) : Tables where
  files := t.files.filter fun f => f.id ≠ id
  metadata := t.metadata.filter fun m => m.fileId ≠ id

/-- Deletes a project's metadata, with the project. -/
def Tables.deleteProject (t : Tables) (projectId : Int) : Tables :=
  { t with metadata := t.metadata.filter fun m => m.projectId ≠ projectId }

/-- One statement of `alias_proguard_mapping`: what is stored for a debug ID is recorded
for another as well. -/
def Tables.aliasFile (t : Tables) (projectId : Int) (source target fileType : String) : Tables :=
  match lookup SourceFileMetadata.key (projectId, source, fileType) t.metadata with
  | none => t
  | some m =>
      let copy : SourceFileMetadata := ⟨projectId, target, fileType, m.fileId⟩
      { t with metadata := upsert t.metadata copy }

def proguardFileType : String := "proguard"

def proguardCacheFileType : String := "proguard_cache"

/-- The mapping and its cache, for the same mapping uploaded again under another UUID. -/
def Tables.aliasProguardMapping (t : Tables) (projectId : Int) (source target : String) : Tables :=
  [proguardFileType, proguardCacheFileType].foldl
    (fun t fileType => t.aliasFile projectId source target fileType) t

inductive Upload
  | idle
  /-- The files that have been put, and those that are left. -/
  | storing (done rest : List FileEntry)
  deriving DecidableEq

inductive Collector
  | idle
  /-- The checksums it saw without references and has not been through. -/
  | selected (orphans : List String)
  /-- The delete of a file has found it without references. -/
  | deleting (id : Nat) (orphans : List String)
  /-- The row is gone, the object not yet. -/
  | unlinking (storagePath : String) (orphans : List String)
  deriving DecidableEq

structure World where
  tables : Tables
  objects : Finset String
  uploads : Nat → Upload
  collectors : Nat → Collector

def World.start : World := ⟨⟨[], []⟩, ∅, fun _ => .idle, fun _ => .idle⟩

namespace World

variable (w : World)

def upload (u : Nat) (next : Upload) : World :=
  { w with uploads := Function.update w.uploads u next }

def collector (g : Nat) (next : Collector) : World :=
  { w with collectors := Function.update w.collectors g next }

end World

inductive Label
  | begin (upload : Nat) (entries : List FileEntry)
  | put (upload : Nat)
  | commit (upload : Nat)
  /-- An upload fails; its transaction is rolled back. -/
  | abort (upload : Nat)
  | select (collector : Nat)
  /-- The delete of the next row looks for references. -/
  | check (collector : Nat)
  | delete (collector : Nat)
  /-- The object goes; the store may fail to. -/
  | unlink (collector : Nat) (ok : Bool)
  /-- A collector is through, or a statement of it failed. -/
  | stop (collector : Nat)
  | aliasMapping (projectId : Int) (source target : String)
  | deleteProject (projectId : Int)

/-- Uploads and collectors, in any order.  What a transaction has inserted shows when it
commits. -/
inductive Step : World → Label → World → Prop
  | begin {w : World} {u : Nat} (entries : List FileEntry) : w.uploads u = .idle →
      Step w (.begin u entries) (w.upload u (.storing [] entries))
  | put {w : World} {u : Nat} {done rest : List FileEntry} {e : FileEntry} :
      w.uploads u = .storing done (e :: rest) →
      Step w (.put u)
        { w.upload u (.storing (done ++ [e]) rest) with
          objects := insert (e.storageKey sha1) w.objects }
  | commit {w : World} {u : Nat} {done : List FileEntry} {tables : Tables} :
      w.uploads u = .storing done [] → done.foldlM (storeFile sha1) w.tables = some tables →
      Step w (.commit u) { w.upload u .idle with tables }
  | abort {w : World} {u : Nat} {done rest : List FileEntry} :
      w.uploads u = .storing done rest → Step w (.abort u) (w.upload u .idle)
  | select {w : World} {g : Nat} : w.collectors g = .idle →
      Step w (.select g) (w.collector g (.selected (w.tables.orphans.map SourceFile.checksum)))
  | found {w : World} {g : Nat} {checksum : String} {rest : List String} {f : SourceFile} :
      w.collectors g = .selected (checksum :: rest) →
      lookup SourceFile.checksum checksum w.tables.files = some f →
      w.tables.references f.id = false →
      Step w (.check g) (w.collector g (.deleting f.id rest))
  | kept {w : World} {g : Nat} {checksum : String} {rest : List String} :
      w.collectors g = .selected (checksum :: rest) →
      (∀ f, lookup SourceFile.checksum checksum w.tables.files = some f →
        w.tables.references f.id = true) →
      Step w (.check g) (w.collector g (.selected rest))
  | deleted {w : World} {g id : Nat} {rest : List String} {f : SourceFile} :
      w.collectors g = .deleting id rest → lookup SourceFile.id id w.tables.files = some f →
      Step w (.delete g)
        { w.collector g (.unlinking f.storagePath rest) with tables := w.tables.deleteFile id }
  | gone {w : World} {g id : Nat} {rest : List String} :
      w.collectors g = .deleting id rest → lookup SourceFile.id id w.tables.files = none →
      Step w (.delete g) (w.collector g (.selected rest))
  | unlinked {w : World} {g : Nat} {storagePath : String} {rest : List String} :
      w.collectors g = .unlinking storagePath rest →
      Step w (.unlink g true)
        { w.collector g (.selected rest) with objects := w.objects.erase storagePath }
  | unlinkFailed {w : World} {g : Nat} {storagePath : String} {rest : List String} :
      w.collectors g = .unlinking storagePath rest →
      Step w (.unlink g false) (w.collector g (.selected rest))
  | stop (w : World) (g : Nat) : Step w (.stop g) (w.collector g .idle)
  | aliasMapping (w : World) (projectId : Int) (source target : String) :
      Step w (.aliasMapping projectId source target)
        { w with tables := w.tables.aliasProguardMapping projectId source target }
  | deleteProject (w : World) (projectId : Int) :
      Step w (.deleteProject projectId) { w with tables := w.tables.deleteProject projectId }

/-- No operation is half-way. -/
def World.Quiet (w : World) : Prop := (∀ u, w.uploads u = .idle) ∧ ∀ g, w.collectors g = .idle

/-- Every file that is referred to has its object. -/
def World.Backed (w : World) : Prop :=
  ∀ f ∈ w.tables.files, w.tables.references f.id → f.storagePath ∈ w.objects

/-- An object that is unlinked has not come back: no file has its path, and no upload has
put it that may still commit. -/
def UnlinksGone (w : World) : Label → Prop
  | .unlink g true => ∀ storagePath rest, w.collectors g = .unlinking storagePath rest →
      (∀ f ∈ w.tables.files, f.storagePath ≠ storagePath) ∧
        ∀ u done rest, w.uploads u = .storing done rest →
          ∀ e ∈ done, e.storageKey sha1 ≠ storagePath
  | .begin _ _ | .put _ | .commit _ | .abort _ | .select _ | .check _ | .delete _
  | .unlink _ false | .stop _ | .aliasMapping _ _ _ | .deleteProject _ => True

def GoneStep (w : World) (label : Label) (w' : World) : Prop :=
  Step sha1 w label w' ∧ UnlinksGone sha1 w label

variable {sha1} {w w' : World} {label : Label} {labels : List Label}

/-! ## What an upload adds -/

/-- A file that a stored entry added has its object under the entry's key. -/
theorem mem_files_of_storeFile {t t' : Tables} {e : FileEntry} (h : storeFile sha1 t e = some t')
    {f : SourceFile} (hf : f ∈ t'.files) : f ∈ t.files ∨ f.storagePath = e.storageKey sha1 := by
  simp only [storeFile, Option.bind_eq_bind, Option.bind_eq_some_iff, Option.pure_def] at h
  obtain ⟨files, hfiles, row, -, ht⟩ := h
  obtain rfl := Option.some.inj ht
  simp only [insertFile] at hfiles
  split_ifs at hfiles with hknown hclash
  · obtain rfl := Option.some.inj hfiles
    exact .inl hf
  · obtain rfl := Option.some.inj hfiles
    rcases List.mem_append.mp hf with hold | hnew
    · exact .inl hold
    · rw [List.mem_singleton.mp hnew]
      exact .inr rfl

theorem mem_files_of_foldlM {entries : List FileEntry} {t t' : Tables}
    (h : entries.foldlM (storeFile sha1) t = some t') {f : SourceFile} (hf : f ∈ t'.files) :
    f ∈ t.files ∨ ∃ e ∈ entries, f.storagePath = e.storageKey sha1 := by
  induction entries generalizing t with
  | nil =>
      obtain rfl := Option.some.inj h
      exact .inl hf
  | cons e rest ih =>
      rw [List.foldlM_cons, Option.bind_eq_bind, Option.bind_eq_some_iff] at h
      obtain ⟨mid, hmid, hrest⟩ := h
      rcases ih hrest with hold | ⟨other, hother, hpath⟩
      · rcases mem_files_of_storeFile hmid hold with hstart | hpath
        · exact .inl hstart
        · exact .inr ⟨e, List.mem_cons_self, hpath⟩
      · exact .inr ⟨other, List.mem_cons_of_mem _ hother, hpath⟩

@[simp] theorem Tables.aliasFile_files (t : Tables) (projectId : Int)
    (source target fileType : String) :
    (t.aliasFile projectId source target fileType).files = t.files := by
  unfold Tables.aliasFile
  split <;> rfl

@[simp] theorem Tables.aliasProguardMapping_files (t : Tables) (projectId : Int)
    (source target : String) :
    (t.aliasProguardMapping projectId source target).files = t.files := by
  simp [Tables.aliasProguardMapping]

/-! ## What is stored stays -/

variable (sha1 w) in
/-- Every file has its object, referred to or not, and so has what an upload has put. -/
structure Stored : Prop where
  file : ∀ f ∈ w.tables.files, f.storagePath ∈ w.objects
  put : ∀ u done rest, w.uploads u = .storing done rest →
    ∀ e ∈ done, e.storageKey sha1 ∈ w.objects

theorem Stored.start : Stored sha1 .start where
  file := by simp [World.start]
  put := by simp [World.start]

/-- An upload that goes on has put what it had put. -/
theorem Stored.upload (h : Stored sha1 w) {u : Nat} {next : Upload}
    (hnext : ∀ done rest, next = .storing done rest → ∀ e ∈ done, e.storageKey sha1 ∈ w.objects) :
    Stored sha1 (w.upload u next) where
  file := h.file
  put := by
    intro v done rest hv
    by_cases huv : v = u
    · subst huv
      have hv : next = .storing done rest := by simpa [World.upload] using hv
      exact hnext done rest hv
    · have hv : w.uploads v = .storing done rest := by simpa [World.upload, huv] using hv
      exact h.put v done rest hv

theorem Stored.collector (h : Stored sha1 w) (g : Nat) (next : Collector) :
    Stored sha1 (w.collector g next) :=
  ⟨h.file, h.put⟩

/-- Tables whose files have their objects. -/
theorem Stored.tables (h : Stored sha1 w) {tables : Tables}
    (hfiles : ∀ f ∈ tables.files, f.storagePath ∈ w.objects) :
    Stored sha1 { w with tables } :=
  ⟨hfiles, h.put⟩

theorem Stored.step (h : Stored sha1 w) (hstep : GoneStep sha1 w label w') : Stored sha1 w' := by
  obtain ⟨hstep, hgone⟩ := hstep
  cases hstep with
  | begin entries hidle => exact h.upload (by simp)
  | @put u done rest e hu =>
      have hgrown : Stored sha1 { w with objects := insert (e.storageKey sha1) w.objects } :=
        ⟨fun f hf => Finset.mem_insert_of_mem (h.file f hf),
          fun v done' rest' hv other hother =>
            Finset.mem_insert_of_mem (h.put v done' rest' hv other hother)⟩
      apply hgrown.upload
      intro done' rest' hnext other hother
      obtain ⟨rfl, -⟩ := Upload.storing.inj hnext
      rcases List.mem_append.mp hother with hold | hnew
      · exact Finset.mem_insert_of_mem (h.put u done (e :: rest) hu other hold)
      · rw [List.mem_singleton.mp hnew]
        exact Finset.mem_insert_self _ _
  | @commit u done tables hu hcommit =>
      refine (h.upload (by simp)).tables fun f hf => ?_
      rcases mem_files_of_foldlM hcommit hf with hold | ⟨e, he, hpath⟩
      · exact h.file f hold
      · rw [hpath]
        exact h.put u done [] hu e he
  | abort hu => exact h.upload (by simp)
  | select hg => exact h.collector _ _
  | found hg hf hrefs => exact h.collector _ _
  | kept hg hf => exact h.collector _ _
  | deleted hg hf =>
      exact (h.collector _ _).tables fun f hmem => h.file f (List.mem_of_mem_filter hmem)
  | gone hg hf => exact h.collector _ _
  | @unlinked g storagePath rest hg =>
      obtain ⟨hnofile, hnoput⟩ := hgone storagePath rest hg
      exact
        { file := fun f hf => Finset.mem_erase_of_ne_of_mem (hnofile f hf) (h.file f hf)
          put := fun u done rest' hu e he =>
            Finset.mem_erase_of_ne_of_mem (hnoput u done rest' hu e he)
              (h.put u done rest' hu e he) }
  | unlinkFailed hg => exact h.collector _ _
  | stop g => exact h.collector _ _
  | aliasMapping projectId source target =>
      exact h.tables fun f hf => h.file f (by simpa using hf)
  | deleteProject projectId => exact h.tables h.file

/-- As long as no collector unlinks what has come back, every file that is referred to
has its object, in the middle of an upload or a collection as well. -/
theorem referenced_files_stored (h : Run (GoneStep sha1) .start labels w) : w.Backed := by
  have hstored : Stored sha1 w :=
    h.invariant (Stored sha1) (fun _ _ _ hs hstep => hs.step hstep) .start
  exact fun f hf _ => hstored.file f hf

/-- A file is uploaded again under its debug id with another content, and the first content
is collected. -/
theorem exists_run_reupload : ∃ w : World,
    Run (GoneStep fun bytes => if bytes = [1] then "86f7" else "e9d7") .start
      [.begin 0 [⟨1, "d0", "source_map", [1], 0⟩], .put 0, .commit 0,
        .begin 0 [⟨1, "d0", "source_map", [2], 1⟩], .put 0, .commit 0,
        .select 0, .check 0, .delete 0, .unlink 0 true, .stop 0] w ∧
      w.tables.files = [⟨1, "e9d7", 1, "e9d7"⟩] := by
  refine ⟨_, .cons ⟨.begin _ rfl, trivial⟩ <| .cons ⟨.put rfl, trivial⟩ <|
    .cons ⟨.commit rfl rfl, trivial⟩ <| .cons ⟨.begin _ rfl, trivial⟩ <|
    .cons ⟨.put rfl, trivial⟩ <| .cons ⟨.commit rfl rfl, trivial⟩ <|
    .cons ⟨.select rfl, trivial⟩ <| .cons ⟨.found rfl rfl rfl, trivial⟩ <|
    .cons ⟨.deleted rfl rfl, trivial⟩ <| .cons ⟨.unlinked rfl, ?_⟩ <|
    .cons ⟨.stop _ _, trivial⟩ <| .nil _, rfl⟩
  intro storagePath rest hunlinking
  obtain ⟨rfl, -⟩ := Collector.unlinking.inj hunlinking
  refine ⟨by decide, fun u done rest' hu => ?_⟩
  simp [World.upload, World.collector, World.start] at hu

theorem referenced_files_stored_reupload : ∃ w : World,
    w.tables.files = [⟨1, "e9d7", 1, "e9d7"⟩] ∧ w.Backed := by
  obtain ⟨w, hrun, hfiles⟩ := exists_run_reupload
  exact ⟨w, hfiles, referenced_files_stored hrun⟩

/-- The same content is uploaded again after its row has been deleted and before its object
is unlinked: the object found is the one that goes. -/
theorem upload_between_delete_and_unlink :
    ¬∀ (sha1 : Sha1) (labels : List Label) (w : World),
      Run (Step sha1) .start labels w → w.Quiet → w.Backed := by
  intro hall
  have hbacked := hall (fun bytes => if bytes = [1] then "86f7" else "e9d7")
    [.begin 0 [⟨1, "d0", "source_map", [1], 0⟩], .put 0, .commit 0,
      .begin 0 [⟨1, "d0", "source_map", [2], 1⟩], .put 0, .commit 0,
      .select 0, .check 0, .delete 0,
      .begin 0 [⟨1, "d1", "source_map", [1], 2⟩], .put 0, .commit 0,
      .unlink 0 true, .stop 0] _
    (.cons (.begin _ rfl) <| .cons (.put rfl) <| .cons (.commit rfl rfl) <|
      .cons (.begin _ rfl) <| .cons (.put rfl) <| .cons (.commit rfl rfl) <|
      .cons (.select rfl) <| .cons (.found rfl rfl rfl) <| .cons (.deleted rfl rfl) <|
      .cons (.begin _ rfl) <| .cons (.put rfl) <| .cons (.commit rfl rfl) <|
      .cons (.unlinked rfl) <| .cons (.stop _ _) <| .nil _)
    ⟨fun u => ?uploads, fun g => ?collectors⟩
  · exact absurd (hbacked ⟨2, "86f7", 1, "86f7"⟩ (by decide) (by decide)) (by decide)
  · by_cases huz : u = 0 <;> simp [World.upload, World.collector, World.start, huz]
  · by_cases hgz : g = 0 <;> simp [World.upload, World.collector, World.start, hgz]

end Rustrak.SourceMaps
