import Mathlib.Data.List.Sort
import Mathlib.Order.Basic

/-!
# Paging by a key

Rows are read in the order of a key no two of them share, a page at a time: as many as the
limit allows of those after the last row read.  One row more is asked for, to tell whether
anything is left.  `Pages` is what a reader is given who goes on from page to page.
-/

namespace Rustrak.Relational

variable {Row K : Type*} [LinearOrder K] (key : Row → K)

/-- `ORDER BY key`. -/
def orderBy (rows : List Row) : List Row :=
  rows.insertionSort fun a b => key a ≤ key b

/-- The rows after the key, or all. -/
def beyond (last : Option K) (rows : List Row) : List Row :=
  match last with
  | none => rows
  | some k => rows.filter fun row => decide (k < key row)

/-- The rows of a page and whether there are more, from what is left to read. -/
def pageOf (limit : ℕ) (left : List Row) : List Row × Bool :=
  ((left.take (limit + 1)).take limit, decide (limit < (left.take (limit + 1)).length))

/-- The pages of what is left to read. -/
inductive Pages (limit : ℕ) : List Row → List (List Row × Bool) → Prop
  | last {left : List Row} : left.length ≤ limit → Pages limit left [(left, false)]
  | more {page left : List Row} {pages : List (List Row × Bool)} :
      page.length = limit → left ≠ [] → Pages limit left pages →
        Pages limit (page ++ left) ((page, true) :: pages)

variable {key} {rows done left : List Row} {last : Row} {limit : ℕ}

theorem orderBy_perm (rows : List Row) : (orderBy key rows).Perm rows :=
  List.perm_insertionSort _ _

theorem pairwise_orderBy (hnodup : (rows.map key).Nodup) :
    (orderBy key rows).Pairwise fun a b => key a < key b := by
  have : Std.Total fun a b : Row => key a ≤ key b := ⟨fun a b => le_total (key a) (key b)⟩
  have : IsTrans Row fun a b => key a ≤ key b := ⟨fun _ _ _ => le_trans⟩
  have hle : (orderBy key rows).Pairwise fun a b => key a ≤ key b :=
    List.pairwise_insertionSort (fun a b => key a ≤ key b) rows
  have hne : (orderBy key rows).Pairwise fun a b => key a ≠ key b :=
    List.pairwise_map.mp ((orderBy_perm rows).map key |>.nodup_iff.mpr hnodup)
  exact (hle.and hne).imp fun h => lt_of_le_of_ne h.1 h.2

/-- Asking for what comes after the last row read gives what is left. -/
theorem orderBy_beyond (hnodup : (rows.map key).Nodup)
    (hread : orderBy key rows = done ++ last :: left) :
    orderBy key (beyond key (some (key last)) rows) = left := by
  have hsorted := pairwise_orderBy hnodup
  rw [hread, List.pairwise_append] at hsorted
  obtain ⟨-, hleft, hdone⟩ := hsorted
  obtain ⟨hlast, hleft⟩ := List.pairwise_cons.mp hleft
  have hbeyond : (beyond key (some (key last)) rows).Perm left := by
    have hfilter : (done ++ last :: left).filter (fun row => decide (key last < key row)) = left := by
      have hnone : done.filter (fun row => decide (key last < key row)) = [] := by
        refine List.filter_eq_nil_iff.mpr fun row hrow => ?_
        simpa using (hdone row hrow last (List.mem_cons_self ..)).le
      have hall : left.filter (fun row => decide (key last < key row)) = left :=
        List.filter_eq_self.mpr fun row hrow => by simpa using hlast row hrow
      rw [List.filter_append, hnone, List.nil_append, List.filter_cons_of_neg (by simp), hall]
    rw [← hfilter, ← hread]
    exact (orderBy_perm rows).symm.filter _
  have hpage := pairwise_orderBy (hnodup.sublist (List.filter_sublist.map key) :
    ((beyond key (some (key last)) rows).map key).Nodup)
  exact ((orderBy_perm _).trans hbeyond).eq_of_pairwise
    (fun a b _ _ hab hba => absurd hba (lt_asymm hab)) hpage hleft

theorem pageOf_of_le (h : left.length ≤ limit) : pageOf limit left = (left, false) := by
  rw [pageOf, List.take_of_length_le (Nat.le_succ_of_le h), List.take_of_length_le h]
  simpa using h

theorem pageOf_of_lt (h : limit < left.length) : pageOf limit left = (left.take limit, true) := by
  rw [pageOf, List.take_take, List.length_take]
  simp
  omega

/-! ## What the pages hold -/

namespace Pages

variable {pages : List (List Row × Bool)}

theorem flatMap (h : Pages limit left pages) : pages.flatMap Prod.fst = left := by
  induction h with
  | last => simp
  | more _ _ _ ih => rw [List.flatMap_cons, ih]

theorem ne_nil (h : Pages limit left pages) : pages ≠ [] := by
  cases h <;> simp

/-- There is more after every page but the last. -/
theorem more_iff (h : Pages limit left pages) {i : ℕ} {page : List Row × Bool}
    (hpage : pages[i]? = some page) : page.2 = true ↔ i + 1 < pages.length := by
  induction h generalizing i with
  | last =>
      obtain ⟨hi, rfl⟩ := List.getElem?_eq_some_iff.mp hpage
      obtain rfl : i = 0 := by simpa using hi
      simp
  | more _ _ h ih =>
      cases i with
      | zero =>
          obtain rfl : _ = page := by simpa using hpage
          simpa using List.length_pos_iff.mpr h.ne_nil
      | succ i => simpa using ih (by simpa using hpage)

/-- A page after which there is more is full. -/
theorem length_of_more (h : Pages limit left pages) {page : List Row × Bool} (hpage : page ∈ pages)
    (hmore : page.2 = true) : page.1.length = limit := by
  induction h with
  | last =>
      obtain rfl : page = _ := by simpa using hpage
      cases hmore
  | more hlength _ _ ih =>
      rcases List.mem_cons.mp hpage with rfl | hpage
      · exact hlength
      · exact ih hpage

/-- Only where there is nothing at all is a page empty. -/
theorem ne_nil_of_mem (h : Pages limit left pages) (hlimit : 1 ≤ limit) (hleft : left ≠ [])
    {page : List Row × Bool} (hpage : page ∈ pages) : page.1 ≠ [] := by
  induction h with
  | last =>
      obtain rfl : page = _ := by simpa using hpage
      exact hleft
  | more hlength hmore _ ih =>
      rcases List.mem_cons.mp hpage with rfl | hpage
      · refine List.ne_nil_of_length_pos ?_
        rwa [hlength]
      · exact ih hmore hpage

end Pages

end Rustrak.Relational
