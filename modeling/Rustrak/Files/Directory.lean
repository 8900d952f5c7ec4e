import Mathlib.Logic.Function.Basic
import Mathlib.Tactic.Common

/-!
# A directory

Names and what they stand for, with the calls that change them: a hard link, which takes
no name that is taken, a rename, which replaces what is there in one go, and a removal.
A link and its original are one file; the content of a file does not change, so two names
of it are two entries with the same content.

A tree has directories within directories.  `Tree.Under dir` relates two trees in both of which
`dir` is a directory, with the same below it: what is done below `dir` depends on that alone, keeps
it so and changes nothing elsewhere (`Under.createDirAll`, `Under.create`, `Under.read`).
-/

namespace Rustrak.Files

inductive Entry (Content : Type*)
  | file (content : Content)
  | symlink
  deriving DecidableEq

/-- What the names of a directory stand for. -/
abbrev Directory (Name Content : Type*) := Name → Option (Entry Content)

inductive LinkError
  | notFound
  | alreadyExists
  deriving DecidableEq

namespace Directory

variable {Name Content : Type*} [DecidableEq Name]

def put (d : Directory Name Content) (name : Name) (entry : Entry Content) :
    Directory Name Content :=
  Function.update d name (some entry)

def hardLink (d : Directory Name Content) (original link : Name) :
    Except LinkError (Directory Name Content) :=
  match d original, d link with
  | none, _ => .error .notFound
  | some _, some _ => .error .alreadyExists
  | some entry, none => .ok (d.put link entry)

def remove (d : Directory Name Content) (name : Name) : Directory Name Content :=
  Function.update d name none

/-- The renamed directory, if there is something to rename. -/
def rename (d : Directory Name Content) (source target : Name) :
    Option (Directory Name Content) :=
  (d source).map fun entry => (d.put target entry).remove source

variable {d d' : Directory Name Content} {name other source target : Name}

@[simp] theorem remove_of_ne (h : other ≠ name) : d.remove name other = d other :=
  Function.update_of_ne h _ _

@[simp] theorem remove_self : d.remove name name = none := Function.update_self _ _ _

@[simp] theorem put_of_ne {entry : Entry Content} (h : other ≠ name) :
    d.put name entry other = d other := Function.update_of_ne h _ _

@[simp] theorem put_self {entry : Entry Content} : d.put name entry name = some entry :=
  Function.update_self _ _ _

/-- A link that is made names what its original names, where there was nothing. -/
theorem hardLink_eq_ok (h : d.hardLink source target = .ok d') :
    ∃ entry, d source = some entry ∧ d target = none ∧ d' = d.put target entry := by
  unfold hardLink at h
  cases hsource : d source with
  | none => simp [hsource] at h
  | some entry =>
      cases htarget : d target with
      | some taken => simp [hsource, htarget] at h
      | none =>
          simp only [hsource, htarget, Except.ok.injEq] at h
          exact ⟨entry, rfl, rfl, h.symm⟩

end Directory

/-! ## Directories within directories -/

inductive Node (Content : Type*)
  | file (content : Content)
  | dir
  deriving DecidableEq

/-- What stands at the paths of a file system. -/
abbrev Tree (Name Content : Type*) := List Name → Option (Node Content)

inductive IoError
  | alreadyExists
  | notADirectory
  | isADirectory
  | notFound
  deriving DecidableEq

namespace Tree

variable {Name Content : Type*} [DecidableEq Name]

def put (t : Tree Name Content) (path : List Name) (node : Node Content) : Tree Name Content :=
  Function.update t path (some node)

/-- Makes the directory `made`, and in it those of `rest`, each in the one before; the error is
that of the last call. -/
def makeDirs (t : Tree Name Content) (made : List Name) :
    List Name → Tree Name Content × Option IoError
  | [] =>
      match t made with
      | none => (t.put made .dir, none)
      | some .dir => (t, none)
      | some (.file _) => (t, some .alreadyExists)
  | name :: rest =>
      match t made with
      | none => makeDirs (t.put made .dir) (made ++ [name]) rest
      | some .dir => makeDirs t (made ++ [name]) rest
      | some (.file _) => (t, some .notADirectory)

/-- Makes a directory and those it is in, as far as they are not there. -/
def createDirAll (t : Tree Name Content) (path : List Name) :
    Tree Name Content × Option IoError :=
  t.makeDirs [] path

/-- Writes a file, over one that is there. -/
def create (t : Tree Name Content) (path : List Name) (content : Content) :
    Except IoError (Tree Name Content) :=
  match t path, t path.dropLast with
  | some .dir, _ => .error .isADirectory
  | _, some .dir => .ok (t.put path (.file content))
  | _, some (.file _) => .error .notADirectory
  | _, none => .error .notFound

def read (t : Tree Name Content) (path : List Name) : Option Content :=
  match t path with
  | some (.file content) => some content
  | _ => none

/-- The directory is there, and those it is in. -/
def HasDir (t : Tree Name Content) (dir : List Name) : Prop :=
  ∀ path, path <+: dir → t path = some .dir

/-- The directory is in both, with the same below it. -/
structure Under (dir : List Name) (t t' : Tree Name Content) : Prop where
  left : t.HasDir dir
  right : t'.HasDir dir
  same : ∀ path, dir <+: path → t path = t' path

/-- What a call does in two trees: the same below the directory, with the same result, and
nothing elsewhere. -/
structure Confined {Result : Type*} (dir : List Name) (t : Tree Name Content)
    (done done' : Tree Name Content × Result) : Prop where
  result : done.2 = done'.2
  under : Under dir done.1 done'.1
  elsewhere : ∀ path, ¬dir <+: path → done.1 path = t path

section Below

omit [DecidableEq Name]

variable {t t' u : Tree Name Content} {dir path made : List Name}

/-- On the way to something below the directory, the trees answer the same. -/
theorem Under.eq_of_way (h : Under dir t t') (hway : made <+: path) (hbelow : dir <+: path) :
    t made = t' made := by
  rcases List.prefix_or_prefix_of_prefix hway hbelow with habove | hunder
  · rw [h.left made habove, h.right made habove]
  · exact h.same made hunder

/-- What is not there yet, on that way, is below the directory. -/
theorem HasDir.below_of_none (h : t.HasDir dir) (hway : made <+: path) (hbelow : dir <+: path)
    (hnone : t made = none) : dir <+: made := by
  rcases List.prefix_or_prefix_of_prefix hway hbelow with habove | hunder
  · rw [h made habove] at hnone
    cases hnone
  · exact hunder

theorem Under.refl (h : t.HasDir dir) : Under dir t t := ⟨h, h, fun _ _ => rfl⟩

variable {Result : Type*} {r : Result} {done done' : Tree Name Content × Result}

theorem Under.confined (h : Under dir t t') (r : Result) : Confined dir t (t, r) (t', r) :=
  ⟨rfl, h, fun _ _ => rfl⟩

theorem Confined.trans (hfirst : ∀ path, ¬dir <+: path → u path = t path)
    (h : Confined dir u done done') : Confined dir t done done' :=
  ⟨h.result, h.under, fun path hpath => (h.elsewhere path hpath).trans (hfirst path hpath)⟩

end Below

variable {t t' : Tree Name Content} {dir path made : List Name} {node : Node Content}

@[simp] theorem put_apply_self : t.put path node path = some node := Function.update_self _ _ _

@[simp] theorem put_apply_of_ne {other : List Name} (h : other ≠ path) :
    t.put path node other = t other :=
  Function.update_of_ne h _ _

/-- What is put below the directory is put nowhere else. -/
theorem put_elsewhere (hpath : dir <+: path) :
    ∀ other, ¬dir <+: other → t.put path node other = t other := by
  intro other hother
  refine put_apply_of_ne ?_
  rintro rfl
  exact hother hpath

/-- What was no directory on the way to the other is none of those it is in. -/
theorem HasDir.put (h : t.HasDir dir) (hpath : t path ≠ some .dir) :
    (t.put path node).HasDir dir := by
  intro other hother
  rw [put_apply_of_ne, h other hother]
  rintro rfl
  exact hpath (h other hother)

theorem Under.put (h : Under dir t t') (hpath : t path ≠ some .dir) (hpath' : t' path ≠ some .dir) :
    Under dir (t.put path node) (t'.put path node) where
  left := h.left.put hpath
  right := h.right.put hpath'
  same := by
    intro other hother
    by_cases heq : other = path
    · rw [heq, put_apply_self, put_apply_self]
    · rw [put_apply_of_ne heq, put_apply_of_ne heq, h.same other hother]

/-- Directories on the way to something below the directory. -/
theorem Under.makeDirs {rest : List Name} (h : Under dir t t') (hway : made ++ rest <+: path)
    (hbelow : dir <+: path) : Confined dir t (t.makeDirs made rest) (t'.makeDirs made rest) := by
  induction rest generalizing t t' made with
  | nil =>
      rw [List.append_nil] at hway
      have hsame := h.eq_of_way hway hbelow
      unfold Tree.makeDirs
      rw [← hsame]
      rcases hmade : t made with _ | node
      · have hnot : t' made ≠ some .dir := by simp [← hsame, hmade]
        exact ⟨rfl, h.put (by simp [hmade]) hnot,
          put_elsewhere (h.left.below_of_none hway hbelow hmade)⟩
      · cases node <;> exact h.confined _
  | cons name rest ih =>
      have hmade := (List.prefix_append made (name :: rest)).trans hway
      have hsame := h.eq_of_way hmade hbelow
      have hnext : (made ++ [name]) ++ rest <+: path := by simpa using hway
      unfold Tree.makeDirs
      rw [← hsame]
      rcases hnone : t made with _ | node
      · have hnot : t' made ≠ some .dir := by simp [← hsame, hnone]
        exact (ih (h.put (by simp [hnone]) hnot) hnext).trans
          (put_elsewhere (h.left.below_of_none hmade hbelow hnone))
      · cases node with
        | dir => exact ih h hnext
        | file content => exact h.confined _

theorem Under.createDirAll {way : List Name} (h : Under dir t t') (hway : way <+: path)
    (hbelow : dir <+: path) : Confined dir t (t.createDirAll way) (t'.createDirAll way) :=
  h.makeDirs (by simpa using hway) hbelow

/-- A directory is made in one that is there. -/
theorem makeDirs_of_hasDir (made : List Name) {rest : List Name} {name : Name}
    (h : t.HasDir (made ++ rest)) (hnone : t (made ++ rest ++ [name]) = none) :
    t.makeDirs made (rest ++ [name]) = (t.put (made ++ rest ++ [name]) .dir, none) := by
  induction rest generalizing made with
  | nil =>
      have hmade : t made = some .dir := h made (by simp)
      rw [List.append_nil] at hnone ⊢
      simp only [List.nil_append, makeDirs, hmade, hnone]
  | cons other rest ih =>
      have hmade : t made = some .dir := h made (List.prefix_append _ _)
      have hassoc : made ++ other :: rest = (made ++ [other]) ++ rest := by simp
      rw [hassoc] at h hnone ⊢
      simp only [List.cons_append, makeDirs, hmade]
      exact ih _ h hnone

/-- It is then the same as any other with nothing in it. -/
theorem createDirAll_of_hasDir {name : Name} (h : t.HasDir dir)
    (hnone : ∀ path, dir ++ [name] <+: path → t path = none) :
    t.createDirAll (dir ++ [name]) = (t.put (dir ++ [name]) .dir, none) ∧
      (t.put (dir ++ [name]) .dir).HasDir (dir ++ [name]) := by
  refine ⟨makeDirs_of_hasDir [] h (hnone _ (List.prefix_refl _)), ?_⟩
  intro path hpath
  by_cases heq : path = dir ++ [name]
  · rw [heq, put_apply_self]
  · rw [put_apply_of_ne heq]
    exact h path ((List.prefix_concat_iff.mp hpath).resolve_left heq)

/-- A file below the directory. -/
theorem Under.create (h : Under dir t t') (hbelow : dir <+: path) (content : Content) :
    (∃ e, t.create path content = .error e ∧ t'.create path content = .error e) ∨
      t.create path content = .ok (t.put path (.file content)) ∧
      t'.create path content = .ok (t'.put path (.file content)) ∧
      Under dir (t.put path (.file content)) (t'.put path (.file content)) := by
  have hsame := h.same path hbelow
  have hparent := h.eq_of_way (List.dropLast_prefix path) hbelow
  unfold Tree.create
  rw [← hsame, ← hparent]
  by_cases hdir : t path = some .dir
  · exact .inl ⟨.isADirectory, by simp [hdir], by simp [hdir]⟩
  · have hdir' : t' path ≠ some .dir := by rwa [← hsame]
    have hput : Under dir (t.put path (.file content)) (t'.put path (.file content)) :=
      h.put hdir hdir'
    rcases hmade : t path with _ | node
    · cases hup : t path.dropLast with
      | none => exact .inl ⟨_, rfl, rfl⟩
      | some node => cases node with
        | file content => exact .inl ⟨_, rfl, rfl⟩
        | dir => exact .inr ⟨rfl, rfl, hput⟩
    · cases node with
      | dir => exact absurd hmade hdir
      | file old => cases hup : t path.dropLast with
        | none => exact .inl ⟨_, rfl, rfl⟩
        | some node => cases node with
          | file content => exact .inl ⟨_, rfl, rfl⟩
          | dir => exact .inr ⟨rfl, rfl, hput⟩

omit [DecidableEq Name] in
theorem Under.read (h : Under dir t t') (hbelow : dir <+: path) : t.read path = t'.read path := by
  unfold Tree.read
  rw [h.same path hbelow]

end Tree

end Rustrak.Files
