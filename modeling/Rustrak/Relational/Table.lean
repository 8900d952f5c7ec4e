import Mathlib.Algebra.GroupWithZero.Nat
import Mathlib.Data.List.Nodup
import Mathlib.Tactic.Common

/-!
# Tables as lists of rows

A table is a list of rows and `key` reads the columns a statement selects by.
`lookup` is `SELECT … WHERE key = k`, `modify` is `UPDATE … WHERE key = k` and
`List.filter` is `DELETE`.  The lemmas say what a lookup sees after each of them,
so that a development on top never reasons about positions in a list.

None of them needs the keys to be unique: a lookup is the first row of its key,
and a statement that updates by key updates that row among others.
-/

namespace Rustrak.Relational

variable {Row Key : Type*} [DecidableEq Key] (key : Row → Key)

/-- The row with this key. -/
def lookup (k : Key) (rows : List Row) : Option Row :=
  rows.find? fun row => key row = k

/-- Rewrites the rows with this key. -/
def modify (k : Key) (f : Row → Row) (rows : List Row) : List Row :=
  rows.map fun row => if key row = k then f row else row

variable {key} {k k' : Key} {rows : List Row} {row : Row}

theorem key_of_lookup (h : lookup key k rows = some row) : key row = k := by
  simpa using List.find?_some h

theorem mem_of_lookup (h : lookup key k rows = some row) : row ∈ rows :=
  List.mem_of_find?_eq_some h

theorem lookup_isSome_iff : (lookup key k rows).isSome = true ↔ ∃ row ∈ rows, key row = k := by
  simp [lookup]

theorem lookup_eq_none_iff : lookup key k rows = none ↔ ∀ row ∈ rows, key row ≠ k := by
  simp [lookup]

/-- With unique keys, a row of the table is the one a lookup of its key finds. -/
theorem lookup_of_mem (hnodup : (rows.map key).Nodup) (hrow : row ∈ rows) :
    lookup key (key row) rows = some row := by
  cases hfind : lookup key (key row) rows with
  | none => exact absurd rfl (lookup_eq_none_iff.mp hfind row hrow)
  | some other =>
      have hother : other = row :=
        List.inj_on_of_nodup_map hnodup (mem_of_lookup hfind) hrow (key_of_lookup hfind)
      rw [hother]

theorem lookup_append (rows others : List Row) :
    lookup key k (rows ++ others) = (lookup key k rows).or (lookup key k others) := by
  simp [lookup, List.find?_append]

/-- An inserted row is found under its key when the key was free. -/
theorem lookup_insert_self (hfree : lookup key k rows = none) (hrow : key row = k) :
    lookup key k (rows ++ [row]) = some row := by
  rw [lookup_append, hfree, Option.none_or]
  simp [lookup, hrow]

theorem lookup_insert_ne (hrow : key row ≠ k) :
    lookup key k (rows ++ [row]) = lookup key k rows := by
  rw [lookup_append]
  simp [lookup, hrow]

theorem nodup_insert (hnodup : (rows.map key).Nodup) (hfree : lookup key (key row) rows = none) :
    ((rows ++ [row]).map key).Nodup := by
  rw [List.map_append, List.nodup_append]
  refine ⟨hnodup, by simp, ?_⟩
  intro k hk k' hk'
  obtain ⟨old, hold, rfl⟩ := List.mem_map.mp hk
  have hrow : k' = key row := by simpa using hk'
  rw [hrow]
  exact lookup_eq_none_iff.mp hfree old hold

/-- What a lookup sees after an update that keeps the key. -/
theorem lookup_modify {f : Row → Row} (hf : ∀ row, key (f row) = key row) :
    lookup key k' (modify key k f rows) =
      if k' = k then (lookup key k' rows).map f else lookup key k' rows := by
  have hkey : ∀ row, key (if key row = k then f row else row) = key row := by
    intro row
    split
    · exact hf row
    · rfl
  have hcomp : ((fun row => decide (key row = k')) ∘ fun row =>
      if key row = k then f row else row) = fun row => decide (key row = k') := by
    funext row
    simp only [Function.comp, hkey row]
  simp only [lookup, modify, List.find?_map, hcomp]
  cases hfind : rows.find? fun row => decide (key row = k') with
  | none => simp
  | some row =>
      have hrow : key row = k' := by simpa using List.find?_some hfind
      by_cases h : k' = k <;> simp [hrow, h]

/-- What a lookup sees after rewriting every row, the keys apart. -/
theorem lookup_map {f : Row → Row} (hf : ∀ row, key (f row) = key row) :
    lookup key k (rows.map f) = (lookup key k rows).map f := by
  have hcomp : ((fun row => decide (key row = k)) ∘ f) = fun row => decide (key row = k) := by
    funext row
    simp only [Function.comp, hf row]
  simp only [lookup, List.find?_map, hcomp]

theorem lookup_modify_self {f : Row → Row} (hf : ∀ row, key (f row) = key row) :
    lookup key k (modify key k f rows) = (lookup key k rows).map f := by
  rw [lookup_modify hf, if_pos rfl]

theorem lookup_modify_ne {f : Row → Row} (hf : ∀ row, key (f row) = key row) (hne : k' ≠ k) :
    lookup key k' (modify key k f rows) = lookup key k' rows := by
  rw [lookup_modify hf, if_neg hne]

theorem map_key_modify {f : Row → Row} (hf : ∀ row, key (f row) = key row) :
    (modify key k f rows).map key = rows.map key := by
  rw [modify, List.map_map]
  apply List.map_congr_left
  intro row _
  simp only [Function.comp]
  split
  · exact hf row
  · rfl

/-- What a lookup sees after deleting by key. -/
theorem lookup_filter_key (p : Key → Bool) :
    lookup key k (rows.filter fun row => p (key row)) =
      if p k then lookup key k rows else none := by
  simp only [lookup, List.find?_filter]
  by_cases hp : p k = true
  · rw [if_pos hp]
    congr 1
    funext row
    by_cases h : key row = k <;> simp [h, hp]
  · rw [if_neg hp, List.find?_eq_none]
    intro row _
    simp only [decide_eq_true_eq]
    rintro ⟨hrow, hk⟩
    rw [hk] at hrow
    exact hp hrow

/-- Two updates of the same rows are one. -/
theorem modify_modify {f g : Row → Row} (hf : ∀ row, key (f row) = key row) :
    modify key k g (modify key k f rows) = modify key k (fun row => g (f row)) rows := by
  simp only [modify, List.map_map]
  apply List.map_congr_left
  intro row _
  simp only [Function.comp]
  by_cases h : key row = k
  · simp [h, hf]
  · simp [h]

theorem mem_modify {f : Row → Row} :
    row ∈ modify key k f rows ↔ ∃ old ∈ rows, (if key old = k then f old else old) = row := by
  simp [modify]

/-! ## Counting rows -/

theorem countP_or_of_disjoint {p q : Row → Bool} (rows : List Row)
    (hdisjoint : ∀ row ∈ rows, ¬(p row = true ∧ q row = true)) :
    (rows.countP fun row => p row || q row) = rows.countP p + rows.countP q := by
  induction rows with
  | nil => rfl
  | cons row rest ih =>
      have hrest := ih fun r hr => hdisjoint r (List.mem_cons_of_mem _ hr)
      have hrow := hdisjoint row (by simp)
      simp only [List.countP_cons, hrest]
      cases hp : p row <;> cases hq : q row
      · simp
      · simp only [Bool.false_or, if_true, Bool.false_eq_true, if_false]
        omega
      · simp only [Bool.or_false, if_true, Bool.false_eq_true, if_false]
        omega
      · exact absurd ⟨hp, hq⟩ hrow

/-- The rows that refer to one of some distinct keys are as many as the rows of each
taken together. -/
theorem countP_any_eq_sum (ref : Row → Option Key) (rows : List Row) {keys : List Key}
    (hnodup : keys.Nodup) :
    (rows.countP fun row => (ref row).any keys.contains) =
      (keys.map fun k => rows.countP fun row => ref row = some k).sum := by
  induction keys with
  | nil =>
      rw [List.map_nil, List.sum_nil, List.countP_eq_zero]
      intro row _
      cases ref row <;> simp
  | cons k rest ih =>
      obtain ⟨hk, hrest⟩ := List.nodup_cons.mp hnodup
      have hsplit : (rows.countP fun row => (ref row).any (k :: rest).contains) =
          rows.countP fun row => decide (ref row = some k) || (ref row).any rest.contains := by
        apply List.countP_congr
        intro row _
        cases hrow : ref row with
        | none => simp
        | some k' => simp
      have hdisjoint : ∀ row ∈ rows,
          ¬(decide (ref row = some k) = true ∧ (ref row).any rest.contains = true) := by
        rintro row _ ⟨hrow, hmem⟩
        rw [of_decide_eq_true hrow] at hmem
        simp only [Option.any_some, List.contains_iff_mem] at hmem
        exact hk hmem
      rw [hsplit, countP_or_of_disjoint rows hdisjoint, ih hrest, List.map_cons, List.sum_cons]

omit [DecidableEq Key] in
/-- Deleting some of the rows by key leaves the others. -/
theorem countP_filter_not_mem {picked : List Row} {gone : Row → Bool}
    (hnodup : (rows.map key).Nodup) (hpicked : picked.Sublist rows)
    (hgone : ∀ row ∈ rows, gone row = true ↔ key row ∈ picked.map key) (q : Row → Bool) :
    (rows.filter fun row => !gone row).countP q + picked.countP q = rows.countP q := by
  induction hpicked with
  | slnil => rfl
  | @cons picked rest row hsub ih =>
      obtain ⟨hrow, hrest⟩ := List.nodup_cons.mp hnodup
      have hkept : gone row = false := by
        rw [Bool.eq_false_iff, Ne, hgone row (by simp)]
        exact fun hmem => hrow ((hsub.map key).subset hmem)
      have hothers := ih hrest fun r hr => hgone r (List.mem_cons_of_mem _ hr)
      rw [List.filter_cons, hkept]
      simp only [Bool.not_false, if_true, List.countP_cons]
      omega
  | @cons_cons picked rest row hsub ih =>
      obtain ⟨hrow, hrest⟩ := List.nodup_cons.mp hnodup
      have hdeleted : gone row = true := (hgone row (by simp)).mpr (by simp)
      have hothers := ih hrest fun r hr => by
        have hne : key r ≠ key row := fun heq => hrow (heq ▸ List.mem_map_of_mem hr)
        rw [hgone r (List.mem_cons_of_mem _ hr), List.map_cons, List.mem_cons]
        exact or_iff_right hne
      rw [List.filter_cons, hdeleted]
      simp only [Bool.not_true, Bool.false_eq_true, if_false, List.countP_cons]
      omega

end Rustrak.Relational
