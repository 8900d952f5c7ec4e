import Rustrak.GitHub.CodeOwners
import Mathlib.Data.List.TakeWhile

/-!
# CODEOWNERS paths

`codeowners_matches` of `services/github/mod.rs` splits a rule and a path at the slashes and
matches segments against segments with a table (`globSegmentsWith_iff`).  Whatever a rule owns,
it owns all below it, unless it ends in a `*` (`codeownersMatches_below`).
-/

namespace Rustrak.GitHub

open Rustrak.Globs

abbrev Text := List Char

/-! ## The table -/

/-- The segment `**`. -/
def IsDeep (part : Text) : Prop := part = ['*', '*']

instance (part : Text) : Decidable (IsDeep part) := inferInstanceAs (Decidable (part = _))

section Table

variable {τ : Type} (one : Text → τ → Bool)

/-- `here[j]`, from the row of the segments after this one and from `here[j + 1]`. -/
def cell (part : Text) (path : List τ) (rest here : List Bool) (j : ℕ) : Bool :=
  if IsDeep part then rest[j]?.getD false || (j < path.length && here[j + 1]?.getD false)
  else path[j]?.any (one part) && rest[j + 1]?.getD false

/-- The loop over `j`, from the cells before `left` on down. -/
def fillRow (part : Text) (path : List τ) (rest : List Bool) : ℕ → List Bool → List Bool
  | 0, here => here
  | left + 1, here =>
      fillRow part path rest left (here.set left (cell one part path rest here left))

def emptyRow (path : List τ) : List Bool := List.replicate (path.length + 1) false

/-- The row of a segment, from the row of those after it. -/
def tableRow (path : List τ) (rest : List Bool) (part : Text) : List Bool :=
  fillRow one part path rest (path.length + 1) (emptyRow path)

/-- `glob_segments`, for any way to match one segment. -/
def globSegmentsWith (pattern : List Text) (path : List τ) : Bool :=
  (pattern.reverse.foldl (tableRow one path) ((emptyRow path).set path.length true))[0]?.getD false

end Table

def globSegments : List Text → List Text → Bool := globSegmentsWith globSegment

/-! ## Rules -/

/-- `trim_matches('/')`. -/
def trimSlashes (s : Text) : Text :=
  ((s.dropWhile (· == '/')).reverse.dropWhile (· == '/')).reverse

/-- The segments of a rule. -/
def ruleSegments (pattern : Text) : List Text := (trimSlashes pattern).splitOn '/'

/-- The segments of a path. -/
def pathSegments (path : Text) : List Text := (path.dropWhile (· == '/')).splitOn '/'

def codeownersMatches (pattern path : Text) : Bool :=
  let pathParts := pathSegments path
  let directory := pattern.getLast? == some '/'
  let trimmed := trimSlashes pattern
  if trimmed.isEmpty || pattern == ['*'] then true
  else
    let anchored := pattern.head? == some '/' || trimmed.contains '/'
    let parts := ruleSegments pattern
    let ownsBelow := directory || parts.getLast? != some ['*']
    let starts := if anchored then List.range 1 else List.range pathParts.length
    starts.any fun start =>
      let rest := pathParts.drop start
      (List.range' 1 rest.length).any fun stop =>
        let whole := stop == rest.length
        if (whole && directory) || (!whole && !ownsBelow) then false
        else globSegments parts (rest.take stop)

/-! ## What the table holds -/

section Table

variable {τ : Type} {one : Text → τ → Bool} {part : Text} {parts : List Text} {path : List τ}
variable {rest here : List Bool} {j : ℕ}

/-- The recursive definition, with the segments that `one` finds to match. -/
abbrev CoversBy (one : Text → τ → Bool) : List Text → List τ → Prop :=
  Covers IsDeep fun part x => one part x = true

/-- The cells from `left` on say what the segments match. -/
structure IsRowFrom (one : Text → τ → Bool) (parts : List Text) (path : List τ) (left : ℕ)
    (row : List Bool) : Prop where
  length : row.length = path.length + 1
  cells : ∀ j, left ≤ j → j ≤ path.length →
    (row[j]?.getD false = true ↔ CoversBy one parts (path.drop j))

theorem isRowFrom_last : IsRowFrom one [] path 0 ((emptyRow path).set path.length true) where
  length := by simp [emptyRow]
  cells j _ hj := by
    rw [CoversBy, Covers, List.drop_eq_nil_iff, List.getElem?_set]
    rcases hj.eq_or_lt with rfl | hlt
    · simp [emptyRow]
    · simp [emptyRow, hlt.ne', hlt, Nat.lt_succ_of_lt hlt]

/-- One cell, from the cells that it looks at. -/
theorem cell_iff (hrest : IsRowFrom one parts path 0 rest)
    (hhere : IsRowFrom one (part :: parts) path (j + 1) here) (hj : j ≤ path.length) :
    cell one part path rest here j = true ↔ CoversBy one (part :: parts) (path.drop j) := by
  have hbelow := hrest.cells j (Nat.zero_le j) hj
  unfold CoversBy at hbelow ⊢
  by_cases hdeep : IsDeep part
  · rw [cell, if_pos hdeep, Bool.or_eq_true, Bool.and_eq_true, decide_eq_true_eq, hbelow]
    rcases hj.eq_or_lt with rfl | hlt
    · rw [List.drop_length, covers_deep_nil hdeep]
      simp
    · rw [List.drop_eq_getElem_cons hlt, covers_deep_cons hdeep, hhere.cells (j + 1) le_rfl hlt,
        and_iff_right hlt]
  · rw [cell, if_neg hdeep, Bool.and_eq_true]
    rcases hj.eq_or_lt with rfl | hlt
    · rw [List.drop_length]
      simp [not_covers_one_nil hdeep]
    · rw [List.drop_eq_getElem_cons hlt, covers_one_cons hdeep,
        hrest.cells (j + 1) (Nat.zero_le _) hlt]
      simp [hlt]

/-- The row is filled from its end. -/
theorem isRowFrom_fillRow (hrest : IsRowFrom one parts path 0 rest) {left : ℕ}
    (hleft : left ≤ path.length + 1) (hhere : IsRowFrom one (part :: parts) path left here) :
    IsRowFrom one (part :: parts) path 0 (fillRow one part path rest left here) := by
  induction left generalizing here with
  | zero => exact hhere
  | succ left ih =>
      have hcell := cell_iff hrest hhere (Nat.le_of_succ_le_succ hleft)
      refine ih (Nat.le_of_succ_le hleft) ⟨by rw [List.length_set, hhere.length], ?_⟩
      intro k hk hlast
      rcases hk.eq_or_lt with rfl | hlt
      · rw [List.getElem?_set_self (by rw [hhere.length]; omega)]
        exact hcell
      · rw [List.getElem?_set_ne hlt.ne]
        exact hhere.cells k hlt hlast

theorem isRowFrom_tableRow (hrest : IsRowFrom one parts path 0 rest) :
    IsRowFrom one (part :: parts) path 0 (tableRow one path rest part) := by
  apply isRowFrom_fillRow hrest le_rfl
  constructor
  · simp [emptyRow]
  · intro j hlast hj
    omega

/-- The table is the recursive definition. -/
theorem globSegmentsWith_iff (one : Text → τ → Bool) (pattern : List Text) (path : List τ) :
    globSegmentsWith one pattern path = true ↔ CoversBy one pattern path := by
  have hrow : IsRowFrom one pattern path 0
      (pattern.reverse.foldl (tableRow one path) ((emptyRow path).set path.length true)) := by
    rw [List.foldl_reverse]
    induction pattern with
    | nil => exact isRowFrom_last
    | cons part parts ih => exact isRowFrom_tableRow ih
  exact hrow.cells 0 le_rfl (Nat.zero_le _)

end Table

theorem globSegments_iff {parts path : List Text} :
    globSegments parts path = true ↔ CoversBy globSegment parts path :=
  globSegmentsWith_iff _ _ _

/-! ## Everything below -/

variable {pattern p q path : Text} {parts more : List Text} {start stop : ℕ}

def isDirectory (pattern : Text) : Bool := pattern.getLast? == some '/'

/-- The rule does not end in a `*`. -/
def OwnsBelow (pattern : Text) : Prop :=
  isDirectory pattern = true ∨ (ruleSegments pattern).getLast? ≠ some ['*']

/-- The segments that the rule is found to match: `stop` of them, from `start` on. -/
structure Found (pattern : Text) (parts : List Text) (start stop : ℕ) : Prop where
  starts : start < parts.length
  stops : start + stop ≤ parts.length
  positive : 0 < stop
  anchored : (pattern.head? == some '/' || (trimSlashes pattern).contains '/') = true → start = 0
  directory : isDirectory pattern = true → start + stop < parts.length
  below : start + stop < parts.length → OwnsBelow pattern
  matched : globSegments (ruleSegments pattern) ((parts.drop start).take stop) = true

/-- What the special cases leave: a whole path for no directory, and a part of one for a rule
that owns what is below. -/
theorem spot_iff {n : ℕ} (hstop : stop ≤ n) (directory ownsBelow found : Bool) :
    (if (stop == n && directory) || (!(stop == n) && !ownsBelow) then false else found) = true ↔
      (directory = true → stop < n) ∧ (stop < n → ownsBelow = true) ∧ found = true := by
  rcases hstop.eq_or_lt with rfl | hlt
  · cases directory <;> simp
  · cases ownsBelow <;> simp [hlt, hlt.ne]

theorem ownsBelow_iff : (pattern.getLast? == some '/' ||
    (ruleSegments pattern).getLast? != some ['*']) = true ↔ OwnsBelow pattern := by
  rw [Bool.or_eq_true, bne_iff_ne]
  rfl

theorem codeownersMatches_iff (hempty : trimSlashes pattern ≠ []) (hstar : pattern ≠ ['*']) :
    codeownersMatches pattern path = true ↔
      ∃ start stop, Found pattern (pathSegments path) start stop := by
  have hone : ((trimSlashes pattern).isEmpty || pattern == ['*']) = false := by
    simp [hempty, hstar]
  have hlength : 0 < (pathSegments path).length :=
    List.length_pos_iff.mpr (List.splitOn_ne_nil _ _)
  have hstarts : ∀ start, start ∈ (if (pattern.head? == some '/' ||
      (trimSlashes pattern).contains '/') = true then List.range 1
        else List.range (pathSegments path).length) ↔ start < (pathSegments path).length ∧
      ((pattern.head? == some '/' || (trimSlashes pattern).contains '/') = true → start = 0) := by
    intro start
    split_ifs with hanchored
    · simp only [List.mem_range, Nat.lt_one_iff, hanchored, forall_const]
      exact ⟨fun h => ⟨by rwa [h], h⟩, fun h => h.2⟩
    · exact List.mem_range.trans ⟨fun h => ⟨h, fun h' => absurd h' hanchored⟩, And.left⟩
  rw [codeownersMatches]
  simp only [hone, Bool.false_eq_true, if_false, List.any_eq_true, hstarts, List.mem_range'_1]
  constructor
  · rintro ⟨start, ⟨hstart, hanchored⟩, stop, ⟨hpositive, hstop⟩, hmatch⟩
    rw [List.length_drop] at hstop
    rw [spot_iff (by rw [List.length_drop]; omega), ownsBelow_iff, List.length_drop] at hmatch
    obtain ⟨hdirectory, hbelow, hfound⟩ := hmatch
    refine ⟨start, stop, hstart, by omega, hpositive, hanchored, fun h => ?_, fun h => ?_, hfound⟩
    · have := hdirectory h
      omega
    · exact hbelow (by omega)
  · rintro ⟨start, stop, h⟩
    have hstop := h.stops
    refine ⟨start, ⟨h.starts, h.anchored⟩, stop, ⟨h.positive, ?_⟩, ?_⟩
    · rw [List.length_drop]
      omega
    · rw [spot_iff (by rw [List.length_drop]; omega), ownsBelow_iff, List.length_drop]
      refine ⟨fun hdirectory => ?_, fun hlt => h.below (by omega), h.matched⟩
      have := h.directory hdirectory
      omega

/-- What is found in a path is found in every path below it. -/
theorem Found.append (h : Found pattern parts start stop) (hbelow : OwnsBelow pattern)
    (hmore : more ≠ []) : Found pattern (parts ++ more) start stop := by
  have hlength : parts.length < (parts ++ more).length := by
    rw [List.length_append]
    exact Nat.lt_add_of_pos_right (List.length_pos_iff.mpr hmore)
  have hstop := h.stops
  have htake : ((parts ++ more).drop start).take stop = (parts.drop start).take stop := by
    rw [List.drop_append_of_le_length h.starts.le, List.take_append_of_le_length]
    rw [List.length_drop]
    omega
  exact {
    starts := h.starts.trans hlength
    stops := hstop.trans hlength.le
    positive := h.positive
    anchored := h.anchored
    directory := fun _ => hstop.trans_lt hlength
    below := fun _ => hbelow
    matched := htake ▸ h.matched }

theorem pathSegments_below (hp : ∃ c ∈ p, c ≠ '/') (q : Text) :
    pathSegments (p ++ '/' :: q) = pathSegments p ++ q.splitOn '/' := by
  have hne : (p.dropWhile (· == '/')).isEmpty = false := by
    obtain ⟨c, hc, hslash⟩ := hp
    rw [List.isEmpty_eq_false_iff, Ne, List.dropWhile_eq_nil_iff]
    intro hall
    exact hslash (beq_iff_eq.mp (hall c hc))
  rw [pathSegments, List.dropWhile_append, hne, if_neg Bool.false_ne_true,
    List.splitOn_append_cons_self]
  rfl

theorem codeownersMatches_below (hbelow : OwnsBelow pattern) (hp : ∃ c ∈ p, c ≠ '/')
    (h : codeownersMatches pattern p = true) :
    codeownersMatches pattern (p ++ '/' :: q) = true := by
  by_cases hall : trimSlashes pattern = [] ∨ pattern = ['*']
  · rw [codeownersMatches, if_pos]
    rw [Bool.or_eq_true, List.isEmpty_iff, beq_iff_eq]
    exact hall
  · obtain ⟨hempty, hstar⟩ := not_or.mp hall
    obtain ⟨start, stop, hfound⟩ := (codeownersMatches_iff hempty hstar).mp h
    rw [codeownersMatches_iff hempty hstar, pathSegments_below hp]
    exact ⟨start, stop, hfound.append hbelow (List.splitOn_ne_nil _ _)⟩

/-- The table is the recursive definition for any way to match one segment, and what owns a path
owns every path below it, if the path names anything and the rule does not end in a `*`. -/
theorem table_and_below :
    (∀ (τ : Type) (one : Text → τ → Bool) (pattern : List Text) (path : List τ),
      globSegmentsWith one pattern path = true ↔ CoversBy one pattern path) ∧
    ∀ pattern p q : Text, OwnsBelow pattern → (∃ c ∈ p, c ≠ '/') →
      codeownersMatches pattern p = true → codeownersMatches pattern (p ++ '/' :: q) = true :=
  ⟨fun _ => globSegmentsWith_iff, fun _ _ _ => codeownersMatches_below⟩

/-- The rule `src` owns `src`, and so `src/a`. -/
theorem table_and_below_src :
    codeownersMatches ['s', 'r', 'c'] ['s', 'r', 'c', '/', 'a'] = true := by
  have hrule : ruleSegments ['s', 'r', 'c'] = [['s', 'r', 'c']] := by decide +kernel
  have hpath : pathSegments ['s', 'r', 'c'] = [['s', 'r', 'c']] := by decide +kernel
  have hsegment : globSegment ['s', 'r', 'c'] ['s', 'r', 'c'] = true := by
    simp [globSegment, globLoop]
  have howned : codeownersMatches ['s', 'r', 'c'] ['s', 'r', 'c'] = true := by
    rw [codeownersMatches_iff (by decide) (by decide), hpath]
    refine ⟨0, 1, by decide, le_rfl, by decide, fun _ => rfl, ?_, ?_, ?_⟩
    · exact fun h => absurd h (by decide)
    · exact fun h => absurd h (by decide)
    · rw [globSegments_iff, hrule]
      exact (covers_one_cons (by decide)).mpr ⟨hsegment, rfl⟩
  exact table_and_below.2 _ ['s', 'r', 'c'] ['a'] (.inr (by decide +kernel)) ⟨'s', by decide⟩ howned

/-- The rule `**//**` matches the empty path and no name: the slash before a path is dropped, so
that nothing is below the empty path. -/
theorem empty_path_differs :
    ¬∀ pattern p q : Text, OwnsBelow pattern → codeownersMatches pattern p = true →
      codeownersMatches pattern (p ++ '/' :: q) = true := by
  intro hall
  have hrule : ruleSegments ['*', '*', '/', '/', '*', '*'] = [['*', '*'], [], ['*', '*']] := by
    decide +kernel
  have hdeep : IsDeep ['*', '*'] := rfl
  have howned : codeownersMatches ['*', '*', '/', '/', '*', '*'] [] = true := by
    rw [codeownersMatches_iff (by decide) (by decide)]
    refine ⟨0, 1, by decide, le_rfl, by decide, fun _ => rfl, ?_, ?_, ?_⟩
    · exact fun h => absurd h (by decide)
    · exact fun h => absurd h (by decide)
    · have hempty : globSegment [] [] = true := by simp [globSegment, globLoop]
      rw [globSegments_iff, hrule]
      refine (covers_deep hdeep).mpr ⟨[[]], List.suffix_refl _, ?_⟩
      exact (covers_one_cons (by decide)).mpr ⟨hempty, (covers_deep_nil hdeep).mpr rfl⟩
  have hbelow := hall _ [] ['a'] (.inr (by decide +kernel)) howned
  rw [codeownersMatches_iff (by decide) (by decide)] at hbelow
  obtain ⟨start, stop, h⟩ := hbelow
  have hparts : pathSegments ([] ++ '/' :: ['a']) = [['a']] := by decide +kernel
  have hmatched := h.matched
  have hstart := h.starts
  have hstop := h.stops
  have hpositive := h.positive
  rw [hparts] at hmatched hstart hstop
  rw [List.length_singleton] at hstart hstop
  obtain rfl : start = 0 := by omega
  obtain rfl : stop = 1 := by omega
  have hname : globSegment [] ['a'] = false := by simp [globSegment, globLoop]
  rw [globSegments_iff, hrule] at hmatched
  rcases (covers_deep_cons hdeep).mp hmatched with hname' | hname'
  · have := ((covers_one_cons (by decide)).mp hname').1
    rw [hname] at this
    contradiction
  · exact not_covers_one_nil (by decide) ((covers_deep_nil hdeep).mp hname')

end Rustrak.GitHub
