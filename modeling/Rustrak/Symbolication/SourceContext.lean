import Rustrak.Symbolication.Jvm
import Rustrak.Symbolication.Native
import Rustrak.Trimming.Databag

/-!
# The lines around a frame

`services/source_bundle.rs` cuts the lines around a frame's out of a source.  Line zero is what an
unknown line is written as; only the frames of the JVM are asked for it first.
-/

namespace Rustrak.Symbolication

open Rustrak.Core
open Rustrak.Trimming (isCharBoundary backOff charsWithin)

/-- Symbolicator's `DEFAULT_CONTEXT_LINES`. -/
def contextLines : ℕ := 5

/-- A line of over 150 bytes is cut to its first 140. -/
def trimContextLine (line : String) : String :=
  let len := byteLength line
  if len ≤ 150 then line
  else
    let stop := min 140 len
    let stop := if stop > len - 5 then len else stop
    let stop := backOff line stop
    let out := String.ofList (charsWithin stop line.toList)
    if stop < len then out ++ " \x7bsnip\x7d" else out

/-- The lines before a line, the line and those after it. -/
def getContextLines (source : String) (lineno : ℕ) :
    Option (List String × String × List String) :=
  let startLine := lineno - contextLines - 1
  let lineDiff := (lineno - startLine) - 1
  let rest := (lines source).drop startLine
  let pre := (rest.take lineDiff).map trimContextLine
  match rest.drop lineDiff with
  | [] => none
  | line :: rest => some (pre, trimContextLine line, (rest.take contextLines).map trimContextLine)

/-- What native frames find in the bundle of an image, by its path. -/
def nativeContext (sources : String → String → Option String) :
    String → String → ℕ → Option (List String × String × List String) :=
  fun id path lineno => (sources id path).bind fun source => getContextLines source lineno

/-- What frames of the JVM find in the first bundle that has it. -/
def jvmContext (bundles : List (String → Option String)) :
    String → ℕ → Option (List String × String × List String) :=
  fun url lineno => bundles.findSome? fun sources =>
    (sources url).bind fun source => getContextLines source lineno

/-! ## Cut lines -/

/-- A line as it is shown. -/
inductive Shown (line : String) : String → Prop
  | whole (h : byteLength line ≤ 150) : Shown line line
  | snipped {kept : String} (h : 150 < byteLength line) (hkept : kept.toList <+: line.toList)
      (hlength : byteLength kept ≤ 140) (hboundary : isCharBoundary line (byteLength kept) = true) :
      Shown line (kept ++ " \x7bsnip\x7d")

theorem backOff_le (line : String) (n : ℕ) : backOff line n ≤ n := by
  induction n with
  | zero => exact Nat.le_refl 0
  | succ n ih =>
      rw [backOff]
      split_ifs
      · exact Nat.le_refl _
      · exact Nat.le_succ_of_le ih

theorem trimContextLine_shown (line : String) : Shown line (trimContextLine line) := by
  rw [trimContextLine]
  dsimp only
  by_cases hshort : byteLength line ≤ 150
  · rw [if_pos hshort]
    exact .whole hshort
  · have hmin : min 140 (byteLength line) = 140 := by omega
    have hstop := backOff_le line 140
    rw [if_neg hshort, hmin, if_neg (show ¬140 > byteLength line - 5 by omega), if_pos (by omega),
      Trimming.charsWithin_backOff]
    apply Shown.snipped (by omega)
    · rw [String.toList_ofList]
      exact Trimming.charsWithin_isPrefix 140 line.toList
    · rw [byteLength_ofList]
      exact Trimming.bytes_charsWithin_le 140 line.toList
    · apply List.any_eq_true.mpr
      refine ⟨_, (List.mem_inits _ _).mpr (Trimming.charsWithin_isPrefix 140 line.toList), ?_⟩
      rw [byteLength_ofList, beq_self_eq_true]

/-! ## Lines by number -/

/-- The lines from one to another, counted from one. -/
def linesBetween (source : String) (first last : ℕ) : List String :=
  (List.range' first (last + 1 - first)).filterMap fun number => (lines source)[number - 1]?

variable {source : String} {n : ℕ}

theorem filterMap_range' {α : Type} (xs : List α) (start count : ℕ) :
    (List.range' (start + 1) count).filterMap (fun number => xs[number - 1]?) =
      (xs.drop start).take count := by
  induction count generalizing start with
  | zero => rfl
  | succ count ih =>
      rw [List.range'_succ, List.filterMap_cons, ih, Nat.add_sub_cancel]
      cases hget : xs[start]? with
      | none =>
          have hle := List.getElem?_eq_none_iff.mp hget
          rw [List.drop_of_length_le hle, List.drop_of_length_le (by omega), List.take_nil,
            List.take_nil]
      | some x =>
          obtain ⟨hlt, rfl⟩ := List.getElem?_eq_some_iff.mp hget
          rw [List.drop_eq_getElem_cons hlt, List.take_succ_cons]

/-- The lines before a line, itself and those after it, as they are shown. -/
structure IsContext (source : String) (n : ℕ) (context : List String × String × List String) :
    Prop where
  before : List.Forall₂ Shown (linesBetween source (max 1 (n - 5)) (n - 1)) context.1
  at_line : ∃ line, (lines source)[n - 1]? = some line ∧ Shown line context.2.1
  after : List.Forall₂ Shown
    (linesBetween source (n + 1) (min (n + 5) (lines source).length)) context.2.2

theorem forall₂_shown (shown : List String) : List.Forall₂ Shown shown (shown.map trimContextLine) := by
  induction shown with
  | nil => exact .nil
  | cons line rest ih => exact .cons (trimContextLine_shown line) ih

/-- What is attached to a line: its context, if there is such a line. -/
def Attaches (source : String) (n : ℕ) (context : Option (List String × String × List String)) :
    Prop :=
  (context.isSome = true ↔ 1 ≤ n ∧ n ≤ (lines source).length) ∧
    ∀ found, context = some found → IsContext source n found

theorem getContextLines_attaches (hn : n ≠ 0) : Attaches source n (getContextLines source n) := by
  have hstart : n - 5 - 1 = n - 6 := by omega
  have hskip : n - 6 + (n - (n - 6) - 1) = n - 1 := by omega
  rw [getContextLines, contextLines, hstart, List.drop_drop, hskip]
  cases hrest : (lines source).drop (n - 1) with
  | nil =>
      have hle := List.drop_eq_nil_iff.mp hrest
      refine ⟨?_, nofun⟩
      simp only [Option.isSome_none, Bool.false_eq_true, false_iff]
      omega
  | cons line rest =>
      have hlt : n - 1 < (lines source).length := by
        have hlength := congrArg List.length hrest
        rw [List.length_drop, List.length_cons] at hlength
        omega
      rw [List.drop_eq_getElem_cons hlt, Nat.sub_add_cancel (by omega), List.cons.injEq] at hrest
      obtain ⟨hline, hafter⟩ := hrest
      refine ⟨?_, ?_⟩
      · simp only [Option.isSome_some, true_iff]
        omega
      · rintro _ ⟨⟩
        constructor
        · have hfirst : max 1 (n - 5) = (n - 6) + 1 := by omega
          have hcount : n - 1 + 1 - ((n - 6) + 1) = n - (n - 6) - 1 := by omega
          rw [linesBetween, hfirst, filterMap_range', hcount]
          exact forall₂_shown _
        · exact ⟨line, List.getElem?_eq_some_iff.mpr ⟨hlt, hline⟩, trimContextLine_shown line⟩
        · have hcount : min (n + 5) (lines source).length + 1 - (n + 1) =
              min 5 ((lines source).length - n) := by omega
          have hlength : rest.length = (lines source).length - n := by
            rw [← hafter, List.length_drop]
          rw [linesBetween, filterMap_range', hcount, hafter, ← hlength, ← List.take_eq_take_min]
          exact forall₂_shown _

/-- Line zero is asked for as the first line. -/
theorem getContextLines_zero : (getContextLines source 0).isSome = true ↔ lines source ≠ [] := by
  rw [getContextLines]
  cases lines source with
  | nil => simp
  | cons line rest => simp

/-! ## The two callers -/

variable {Data : Type}

/-- What is shown around a native frame. -/
def nativeShown (frame : CompleteFrame) : Option (List String × String × List String) :=
  frame.contextLine.map fun line => (frame.preContext, line, frame.postContext)

/-- What is shown around a frame of the JVM. -/
def jvmShown (frame : Jvm.JvmFrame) : Option (List String × String × List String) :=
  frame.contextLine.map fun line => (frame.preContext, line, frame.postContext)

/-- A native frame at a line of a source, without a context yet. -/
structure NativeFrameAt (files : Native.NativeFiles Data) (frame : CompleteFrame) (source : String)
    (n : ℕ) : Prop where
  found : ∃ sources id path, files.context = nativeContext sources ∧ frame.debugId = some id ∧
    frame.absPath = some path ∧ sources id path = some source
  at_line : frame.lineno = some n
  bare : frame.contextLine = none

/-- A frame of the JVM at a line of a source, without a context yet. -/
structure JvmFrameAt (files : Jvm.JvmFiles Data) (frame : Jvm.JvmFrame) (source : String) (n : ℕ) :
    Prop where
  found : ∃ bundles : List (String → Option String), files.context = jvmContext bundles ∧
    bundles.filterMap (· (Jvm.buildSourceFileName frame)) = [source]
  at_line : frame.lineno = some n
  bare : frame.contextLine = none

/-- A native frame is asked for the lines around its line, whatever it is. -/
theorem NativeFrameAt.shown {files : Native.NativeFiles Data} {frame : CompleteFrame}
    (h : NativeFrameAt files frame source n) :
    nativeShown (Native.applySourceContext files frame) = getContextLines source n := by
  obtain ⟨sources, id, path, hfiles, hid, hpath, hsource⟩ := h.found
  have hcontext : files.context id path n = getContextLines source n := by
    rw [hfiles, nativeContext, hsource, Option.bind_some]
  rw [Native.applySourceContext, hid, hpath, h.at_line]
  dsimp only
  rw [hcontext]
  cases getContextLines source n with
  | none =>
      rw [nativeShown, h.bare]
      rfl
  | some context => rfl

theorem findSome?_bind {α β γ : Type} (xs : List α) (f : α → Option β) (g : β → Option γ) :
    xs.findSome? (fun x => (f x).bind g) = (xs.filterMap f).findSome? g := by
  induction xs with
  | nil => rfl
  | cons x xs ih =>
      rw [List.findSome?_cons, List.filterMap_cons, ih]
      cases f x with
      | none => rfl
      | some y => rw [List.findSome?_cons]; rfl

/-- A frame of the JVM is asked for nothing at line zero. -/
theorem JvmFrameAt.shown {files : Jvm.JvmFiles Data} {frame : Jvm.JvmFrame}
    (h : JvmFrameAt files frame source n) :
    jvmShown (Jvm.applySourceContext files frame) =
      if n = 0 then none else getContextLines source n := by
  obtain ⟨bundles, hfiles, hsource⟩ := h.found
  have hcontext : files.context (Jvm.buildSourceFileName frame) n = getContextLines source n := by
    rw [hfiles, jvmContext, findSome?_bind, hsource, List.findSome?_singleton]
  rw [Jvm.applySourceContext, h.at_line]
  split_ifs with hn
  · rw [hn, Option.filter_some_neg (by simp), jvmShown, h.bare]
    rfl
  · rw [Option.filter_some_pos (by simpa using hn)]
    dsimp only
    rw [hcontext]
    cases getContextLines source n with
    | none =>
        rw [jvmShown, h.bare]
        rfl
    | some context => rfl

/-- Both callers attach the context of a line of a source, and nothing where there is none. -/
structure BothAttach (source : String) (n : ℕ) : Prop where
  native : ∀ {Data : Type} (files : Native.NativeFiles Data) (frame : CompleteFrame),
    NativeFrameAt files frame source n →
      Attaches source n (nativeShown (Native.applySourceContext files frame))
  jvm : ∀ {Data : Type} (files : Jvm.JvmFiles Data) (frame : Jvm.JvmFrame),
    JvmFrameAt files frame source n →
      Attaches source n (jvmShown (Jvm.applySourceContext files frame))

/-- The only file of a bundle. -/
def onlySource (source : String) : Native.NativeFiles Unit where
  symcaches := []
  context := nativeContext fun _ _ => some source

def frameAtLine (n : ℕ) : CompleteFrame where
  originalIndex := 0
  status := "symbolicated"
  instructionAddr := none
  addrMode := none
  function := none
  symbol := none
  package := none
  absPath := some "/src/main.c"
  filename := none
  lineno := some n
  preContext := []
  contextLine := none
  postContext := []
  debugId := some "d"

theorem frameAtLine_at (source : String) (n : ℕ) :
    NativeFrameAt (onlySource source) (frameAtLine n) source n where
  found := ⟨fun _ _ => some source, "d", "/src/main.c", rfl, rfl, rfl, rfl⟩
  at_line := rfl
  bare := rfl

/-- The context is the frame's line, unless the line is unknown and the source has one. -/
theorem bothAttach_iff (source : String) (n : ℕ) :
    BothAttach source n ↔ n ≠ 0 ∨ lines source = [] := by
  constructor
  · intro h
    by_contra hnot
    obtain ⟨hzero, hsome⟩ := not_or.mp hnot
    obtain rfl : n = 0 := not_not.mp hzero
    have hattach := (h.native (onlySource source) (frameAtLine 0) (frameAtLine_at source 0)).1
    rw [(frameAtLine_at source 0).shown, getContextLines_zero] at hattach
    exact absurd (hattach.mp hsome).1 (by omega)
  · intro h
    have hzero : n = 0 → getContextLines source n = none := by
      rintro rfl
      have hnone := h.resolve_left (not_not_intro rfl)
      rw [← Option.not_isSome_iff_eq_none, getContextLines_zero]
      exact not_not_intro hnone
    have hnothing : n = 0 → Attaches source n none := fun hn => ⟨⟨nofun, fun hle => by omega⟩, nofun⟩
    constructor
    · intro Data files frame hframe
      rw [hframe.shown]
      by_cases hn : n = 0
      · rw [hzero hn]
        exact hnothing hn
      · exact getContextLines_attaches hn
    · intro Data files frame hframe
      rw [hframe.shown]
      split_ifs with hn
      · exact hnothing hn
      · exact getContextLines_attaches hn

/-- A native frame at an unknown line gets the first line of its source. -/
theorem bothAttach_zero : ¬∀ source n, BothAttach source n := by
  intro h
  have hattach := ((h "int main" 0).native (onlySource "int main") (frameAtLine 0)
    (frameAtLine_at "int main" 0)).1
  rw [(frameAtLine_at "int main" 0).shown, getContextLines_zero] at hattach
  exact absurd (hattach.mp (by decide)).1 (by omega)

end Rustrak.Symbolication
