import Rustrak.SourceMaps.Collector

/-!
# Objects that nothing refers to

`gc_source_maps` finds what it may delete in the rows, and deletes the row first.  An object
whose row is gone is found by no later run, so an interrupted run leaves it for good, and so
does an upload that fails after it has put a file.

As long as neither happens (`LeavesNothing`) an object has a row, or an upload that has put it
and is to commit, or a collector that is about to unlink it (`Accounted`).
-/

namespace Rustrak.SourceMaps

open Rustrak.Relational Rustrak.Transition

variable {sha1 : Sha1} {w w' : World} {label : Label} {labels : List Label}

/-- A row has the path. -/
def World.HasFile (w : World) (path : String) : Prop := ∃ f ∈ w.tables.files, f.storagePath = path

variable (sha1) in
/-- A collector unlinks the object of each row it has deleted, and an upload that has put
files commits, unless a row has the path anyway. -/
def LeavesNothing (w : World) : Label → Prop
  | .abort u => ∀ done rest, w.uploads u = .storing done rest →
      ∀ e ∈ done, w.HasFile (e.storageKey sha1)
  | .unlink g false | .stop g => ∀ path rest, w.collectors g = .unlinking path rest →
      w.HasFile path
  | .begin _ _ | .put _ | .commit _ | .select _ | .check _ | .delete _ | .unlink _ true
  | .aliasMapping _ _ _ | .deleteProject _ => True

variable (sha1) in
def TidyStep (w : World) (label : Label) (w' : World) : Prop :=
  Step sha1 w label w' ∧ LeavesNothing sha1 w label

variable (sha1 w) in
structure Accounted : Prop where
  ids : (w.tables.files.map SourceFile.id).Nodup
  paths : ∀ f ∈ w.tables.files, f.storagePath = f.checksum
  objects : ∀ path ∈ w.objects, w.HasFile path ∨
    (∃ u done rest, w.uploads u = .storing done rest ∧ ∃ e ∈ done, e.storageKey sha1 = path) ∨
    ∃ g rest, w.collectors g = .unlinking path rest

/-! ## What a commit adds -/

/-- Rows stay, and keep their ids and paths apart. -/
structure Grows (t t' : Tables) : Prop where
  kept : ∀ f ∈ t.files, f ∈ t'.files
  ids : (t.files.map SourceFile.id).Nodup → (t'.files.map SourceFile.id).Nodup
  paths : (∀ f ∈ t.files, f.storagePath = f.checksum) → ∀ f ∈ t'.files, f.storagePath = f.checksum

theorem grows_of_storeFile {t t' : Tables} {e : FileEntry} (h : storeFile sha1 t e = some t') :
    Grows t t' ∧ ∃ f ∈ t'.files, f.checksum = e.storageKey sha1 := by
  simp only [storeFile, Option.bind_eq_bind, Option.bind_eq_some_iff, Option.pure_def] at h
  obtain ⟨files, hfiles, row, hrow, ht⟩ := h
  obtain rfl := Option.some.inj ht
  refine ⟨?_, row, mem_of_lookup hrow, key_of_lookup hrow⟩
  unfold insertFile at hfiles
  split_ifs at hfiles with hknown hclash
  · obtain rfl := Option.some.inj hfiles
    exact ⟨fun _ hf => hf, id, id⟩
  · obtain rfl := Option.some.inj hfiles
    refine ⟨fun f hf => List.mem_append_left _ hf, fun hids => ?_, fun hpaths f hf => ?_⟩
    · refine nodup_insert hids (lookup_eq_none_iff.mpr fun f hf hid => hclash ?_)
      exact List.any_eq_true.mpr ⟨f, hf, decide_eq_true hid⟩
    · rcases List.mem_append.mp hf with hold | hnew
      · exact hpaths f hold
      · rw [List.mem_singleton.mp hnew]

theorem grows_of_foldlM {entries : List FileEntry} {t t' : Tables}
    (h : entries.foldlM (storeFile sha1) t = some t') :
    Grows t t' ∧ ∀ e ∈ entries, ∃ f ∈ t'.files, f.checksum = e.storageKey sha1 := by
  induction entries generalizing t with
  | nil =>
      obtain rfl := Option.some.inj h
      exact ⟨⟨fun _ hf => hf, id, id⟩, by simp⟩
  | cons e rest ih =>
      rw [List.foldlM_cons, Option.bind_eq_bind, Option.bind_eq_some_iff] at h
      obtain ⟨mid, hmid, hrest⟩ := h
      obtain ⟨hfirst, f, hf, hchecksum⟩ := grows_of_storeFile hmid
      obtain ⟨hgrows, hall⟩ := ih hrest
      refine ⟨⟨fun f hf => hgrows.kept f (hfirst.kept f hf), fun hids => hgrows.ids (hfirst.ids hids),
        fun hpaths => hgrows.paths (hfirst.paths hpaths)⟩, fun other hother => ?_⟩
      rcases List.mem_cons.mp hother with rfl | hother
      · exact ⟨f, hgrows.kept f hf, hchecksum⟩
      · exact hall other hother

/-! ## Steps -/

theorem Accounted.start : Accounted sha1 .start where
  ids := List.nodup_nil
  paths := by simp [World.start]
  objects := by simp [World.start]

/-- A collector goes on whose object, if it was to unlink one, has a row. -/
theorem Accounted.collector (h : Accounted sha1 w) {g : Nat} (next : Collector)
    (hleft : ∀ path rest, w.collectors g = .unlinking path rest → w.HasFile path) :
    Accounted sha1 (w.collector g next) where
  ids := h.ids
  paths := h.paths
  objects := by
    intro path hpath
    rcases h.objects path hpath with hfile | hupload | ⟨g', rest, hg'⟩
    · exact .inl hfile
    · exact .inr (.inl hupload)
    · by_cases hsame : g' = g
      · subst hsame
        exact .inl (hleft path rest hg')
      · refine .inr (.inr ⟨g', rest, ?_⟩)
        simpa [World.collector, hsame] using hg'

/-- An upload goes on with what it has put, or with rows for it. -/
theorem Accounted.upload (h : Accounted sha1 w) {u : Nat} {next : Upload}
    (hleft : ∀ done rest, w.uploads u = .storing done rest → ∀ e ∈ done,
      w.HasFile (e.storageKey sha1) ∨
        ∃ done' rest', next = .storing done' rest' ∧ e ∈ done') :
    Accounted sha1 (w.upload u next) where
  ids := h.ids
  paths := h.paths
  objects := by
    intro path hpath
    rcases h.objects path hpath with hfile | ⟨u', done, rest, hu', e, he, rfl⟩ | hcollector
    · exact .inl hfile
    · by_cases hsame : u' = u
      · subst hsame
        rcases hleft done rest hu' e he with hfile | ⟨done', rest', rfl, he'⟩
        · exact .inl hfile
        · exact .inr (.inl ⟨u', done', rest', by simp [World.upload], e, he', rfl⟩)
      · exact .inr (.inl ⟨u', done, rest, by simpa [World.upload, hsame] using hu', e, he, rfl⟩)
    · exact .inr (.inr hcollector)

/-- More rows. -/
theorem Accounted.grow (h : Accounted sha1 w) {tables : Tables} (hgrows : Grows w.tables tables) :
    Accounted sha1 { w with tables } where
  ids := hgrows.ids h.ids
  paths := hgrows.paths h.paths
  objects := by
    intro path hpath
    rcases h.objects path hpath with ⟨f, hf, hfpath⟩ | hrest
    · exact .inl ⟨f, hgrows.kept f hf, hfpath⟩
    · exact .inr hrest

theorem Accounted.put (h : Accounted sha1 w) {u : Nat} {done rest : List FileEntry} {e : FileEntry}
    (hu : w.uploads u = .storing done (e :: rest)) :
    Accounted sha1 { w.upload u (.storing (done ++ [e]) rest) with
      objects := insert (e.storageKey sha1) w.objects } := by
  have hup : Accounted sha1 (w.upload u (.storing (done ++ [e]) rest)) := by
    refine h.upload fun done' rest' hu' other hother => .inr ⟨_, _, rfl, ?_⟩
    obtain ⟨rfl, -⟩ := Upload.storing.inj (hu.symm.trans hu')
    exact List.mem_append_left _ hother
  refine ⟨hup.ids, hup.paths, fun path hpath => ?_⟩
  rcases Finset.mem_insert.mp hpath with rfl | hpath
  · exact .inr (.inl ⟨u, done ++ [e], rest, by simp [World.upload], e, by simp, rfl⟩)
  · exact hup.objects path hpath

theorem Accounted.commit (h : Accounted sha1 w) {u : Nat} {done : List FileEntry} {tables : Tables}
    (hu : w.uploads u = .storing done []) (hcommit : done.foldlM (storeFile sha1) w.tables = some tables) :
    Accounted sha1 { w.upload u .idle with tables } := by
  obtain ⟨hgrows, hrows⟩ := grows_of_foldlM hcommit
  have hgrown := h.grow hgrows
  refine hgrown.upload fun done' rest' hu' e he => .inl ?_
  obtain ⟨rfl, -⟩ := Upload.storing.inj (hu.symm.trans hu')
  obtain ⟨f, hf, hchecksum⟩ := hrows e he
  exact ⟨f, hf, (hgrown.paths f hf).trans hchecksum⟩

/-- The object of a deleted row is the one the collector is to unlink. -/
theorem Accounted.deleted (h : Accounted sha1 w) {g id : Nat} {rest : List String} {f : SourceFile}
    (hg : w.collectors g = .deleting id rest)
    (hf : lookup SourceFile.id id w.tables.files = some f) :
    Accounted sha1 { w.collector g (.unlinking f.storagePath rest) with
      tables := w.tables.deleteFile id } where
  ids := h.ids.sublist (List.filter_sublist.map _)
  paths := fun f' hf' => h.paths f' (List.mem_of_mem_filter hf')
  objects := by
    intro path hpath
    rcases h.objects path hpath with ⟨f', hf', rfl⟩ | hupload | ⟨g', rest', hg'⟩
    · by_cases hid : f'.id = id
      · have hsame : f' = f :=
          List.inj_on_of_nodup_map h.ids hf' (mem_of_lookup hf) (hid.trans (key_of_lookup hf).symm)
        refine .inr (.inr ⟨g, rest, ?_⟩)
        rw [hsame]
        simp [World.collector]
      · exact .inl ⟨f', List.mem_filter.mpr ⟨hf', decide_eq_true hid⟩, rfl⟩
    · exact .inr (.inl hupload)
    · have hne : g' ≠ g := by
        rintro rfl
        rw [hg] at hg'
        contradiction
      exact .inr (.inr ⟨g', rest', by simpa [World.collector, hne] using hg'⟩)

theorem Accounted.unlinked (h : Accounted sha1 w) {g : Nat} {storagePath : String}
    {rest : List String} (hg : w.collectors g = .unlinking storagePath rest) :
    Accounted sha1 { w.collector g (.selected rest) with
      objects := w.objects.erase storagePath } where
  ids := h.ids
  paths := h.paths
  objects := by
    intro path hpath
    obtain ⟨hother, hpath⟩ := Finset.mem_erase.mp hpath
    rcases h.objects path hpath with hfile | hupload | ⟨g', rest', hg'⟩
    · exact .inl hfile
    · exact .inr (.inl hupload)
    · have hne : g' ≠ g := by
        rintro rfl
        rw [hg] at hg'
        exact hother (Collector.unlinking.inj hg').1.symm
      exact .inr (.inr ⟨g', rest', by simpa [World.collector, hne] using hg'⟩)

theorem Accounted.step (h : Accounted sha1 w) (hstep : TidyStep sha1 w label w') :
    Accounted sha1 w' := by
  obtain ⟨hstep, htidy⟩ := hstep
  cases hstep with
  | begin entries hidle => exact h.upload fun done rest hu => by simp [hidle] at hu
  | put hu => exact h.put hu
  | commit hu hcommit => exact h.commit hu hcommit
  | abort hu => exact h.upload fun done rest hu e he => .inl (htidy done rest hu e he)
  | select hg => exact h.collector _ fun path rest hunlinking => by simp [hg] at hunlinking
  | found hg hf hrefs =>
      exact h.collector _ fun path rest hunlinking => by simp [hg] at hunlinking
  | kept hg hf => exact h.collector _ fun path rest hunlinking => by simp [hg] at hunlinking
  | deleted hg hf => exact h.deleted hg hf
  | gone hg hf => exact h.collector _ fun path rest hunlinking => by simp [hg] at hunlinking
  | unlinked hg => exact h.unlinked hg
  | unlinkFailed hg => exact h.collector _ htidy
  | stop g => exact h.collector _ htidy
  | aliasMapping projectId source target =>
      exact h.grow ⟨by simp, by simp, by simp⟩
  | deleteProject projectId => exact ⟨h.ids, h.paths, h.objects⟩

/-- Where every interrupted run leaves rows for what it leaves in the store, each object is
referred to by a row whenever no upload is under way and no collector about to unlink. -/
theorem collected_objects_have_files (h : Run (TidyStep sha1) .start labels w)
    (huploads : ∀ u, w.uploads u = .idle)
    (hcollectors : ∀ g path rest, w.collectors g ≠ .unlinking path rest) :
    ∀ path ∈ w.objects, ∃ f ∈ w.tables.files, f.storagePath = path := by
  have haccounted : Accounted sha1 w :=
    h.invariant (Accounted sha1) (fun _ _ _ hs hstep => hs.step hstep) .start
  intro path hpath
  rcases haccounted.objects path hpath with hfile | ⟨u, done, rest, hu, _⟩ | ⟨g, rest, hg⟩
  · exact hfile
  · rw [huploads u] at hu
    contradiction
  · exact absurd hg (hcollectors g path rest)

/-- A file is uploaded again with another content, and the collector goes through to its end. -/
theorem collected_objects_have_files_reupload : ∃ w : World,
    w.objects = {"e9d7"} ∧ ∀ path ∈ w.objects, ∃ f ∈ w.tables.files, f.storagePath = path := by
  have hrun : ∃ w : World, Run (TidyStep fun bytes => if bytes = [1] then "86f7" else "e9d7") .start
      [.begin 0 [⟨1, "d0", "source_map", [1], 0⟩], .put 0, .commit 0,
        .begin 0 [⟨1, "d0", "source_map", [2], 1⟩], .put 0, .commit 0,
        .select 0, .check 0, .delete 0, .unlink 0 true, .stop 0] w ∧
      w.objects = {"e9d7"} ∧ (∀ u, w.uploads u = .idle) ∧
      ∀ g path rest, w.collectors g ≠ .unlinking path rest := by
    refine ⟨_, .cons ⟨.begin _ rfl, trivial⟩ <| .cons ⟨.put rfl, trivial⟩ <|
      .cons ⟨.commit rfl rfl, trivial⟩ <| .cons ⟨.begin _ rfl, trivial⟩ <|
      .cons ⟨.put rfl, trivial⟩ <| .cons ⟨.commit rfl rfl, trivial⟩ <|
      .cons ⟨.select rfl, trivial⟩ <| .cons ⟨.found rfl rfl rfl, trivial⟩ <|
      .cons ⟨.deleted rfl rfl, trivial⟩ <| .cons ⟨.unlinked rfl, trivial⟩ <|
      .cons ⟨.stop _ _, fun path rest hunlinking => ?_⟩ <| .nil _, ?_, fun u => ?_, fun g path rest => ?_⟩
    · simp [World.upload, World.collector] at hunlinking
    · decide
    · by_cases huz : u = 0 <;> simp [World.upload, World.collector, World.start, huz]
    · by_cases hgz : g = 0 <;> simp [World.upload, World.collector, World.start, hgz]
  obtain ⟨w, hrun, hobjects, huploads, hcollectors⟩ := hrun
  exact ⟨w, hobjects, collected_objects_have_files hrun huploads hcollectors⟩

/-- A collector crashes when it has deleted the row, and the next finds nothing to collect. -/
theorem crash_before_unlink_leaves_stray : ∃ v w x : World,
    Run (Step fun bytes => if bytes = [1] then "86f7" else "e9d7") .start
      [.begin 0 [⟨1, "d0", "source_map", [1], 0⟩], .put 0, .commit 0,
        .begin 0 [⟨1, "d0", "source_map", [2], 1⟩], .put 0, .commit 0,
        .select 0, .check 0, .delete 0, .stop 0] v ∧ v.Quiet ∧
    Run (Step fun bytes => if bytes = [1] then "86f7" else "e9d7") v [.select 0] w ∧
    w.collectors 0 = .selected [] ∧
    Run (Step fun bytes => if bytes = [1] then "86f7" else "e9d7") w [.stop 0] x ∧ x.Quiet ∧
    "86f7" ∈ x.objects ∧ ∀ f ∈ x.tables.files, f.storagePath ≠ "86f7" := by
  refine ⟨_, _, _, .cons (.begin _ rfl) <| .cons (.put rfl) <| .cons (.commit rfl rfl) <|
    .cons (.begin _ rfl) <| .cons (.put rfl) <| .cons (.commit rfl rfl) <|
    .cons (.select rfl) <| .cons (.found rfl rfl rfl) <| .cons (.deleted rfl rfl) <|
    .cons (.stop _ _) <| .nil _, ⟨fun u => ?_, fun g => ?_⟩, .single (.select rfl), rfl,
    .single (.stop _ _), ⟨fun u => ?_, fun g => ?_⟩, by decide, by decide⟩
  · by_cases huz : u = 0 <;> simp [World.upload, World.collector, World.start, huz]
  · by_cases hgz : g = 0 <;> simp [World.upload, World.collector, World.start, hgz]
  · by_cases huz : u = 0 <;> simp [World.upload, World.collector, World.start, huz]
  · by_cases hgz : g = 0 <;> simp [World.upload, World.collector, World.start, hgz]

end Rustrak.SourceMaps
