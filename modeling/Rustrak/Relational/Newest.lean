import Mathlib.Data.List.Perm.Basic
import Mathlib.Data.List.Sort
import Mathlib.Order.Bounds.Basic
import Mathlib.Order.MinMax
import Mathlib.Tactic.Common

/-!
# The newest rows of a table

`ORDER BY date DESC LIMIT n` takes rows no other of which is newer, and the rows of one date
in any order.  So a row that is not taken has `n` others that are as new or newer, the ones
that are.
-/

namespace Rustrak.Relational

variable {Row Date : Type*} [LinearOrder Date]

/-- How a statement orders rows, the newest first. -/
structure Newest (date : Row → Date) where
  order : List Row → List Row
  perm : ∀ rows, (order rows).Perm rows
  sorted : ∀ rows, (order rows).Pairwise fun a b => date b ≤ date a

/-- Rows of one date stay in the order they were inserted in. -/
def Newest.stable (date : Row → Date) : Newest date where
  order := List.insertionSort fun a b => date b ≤ date a
  perm := List.perm_insertionSort _
  sorted rows :=
    haveI : Std.Total fun a b : Row => date b ≤ date a := ⟨fun a b => le_total (date b) (date a)⟩
    haveI : IsTrans Row fun a b => date b ≤ date a := ⟨fun _ _ _ hab hbc => hbc.trans hab⟩
    List.pairwise_insertionSort _ rows

namespace Newest

variable {date : Row → Date} (newest : Newest date) {rows : List Row} {row : Row} {n : Nat}

/-- `LIMIT n`. -/
def limit (rows : List Row) (n : Nat) : List Row :=
  (newest.order rows).take n

@[simp] theorem mem_order : row ∈ newest.order rows ↔ row ∈ rows := (newest.perm rows).mem_iff

theorem mem_of_mem_limit (h : row ∈ newest.limit rows n) : row ∈ rows :=
  newest.mem_order.mp (List.mem_of_mem_take h)

theorem length_limit : (newest.limit rows n).length = min n rows.length := by
  rw [Newest.limit, List.length_take, (newest.perm rows).length_eq]

/-- A row that is not taken is not newer than any that is. -/
theorem le_of_mem_limit (hrow : row ∈ rows) (hnot : row ∉ newest.limit rows n) {taken : Row}
    (htaken : taken ∈ newest.limit rows n) : date row ≤ date taken := by
  have hsorted := newest.sorted rows
  have hsplit := List.take_append_drop n (newest.order rows)
  rw [← hsplit, List.pairwise_append] at hsorted
  have hrest : row ∈ (newest.order rows).drop n := by
    have hmem : row ∈ (newest.order rows).take n ++ (newest.order rows).drop n := by
      rw [hsplit]
      exact newest.mem_order.mpr hrow
    exact (List.mem_append.mp hmem).resolve_left hnot
  exact hsorted.2.2 taken htaken row hrest

/-- When some of the rows are not taken, as many are as may be. -/
theorem length_limit_of_not_mem (hrow : row ∈ rows) (hnot : row ∉ newest.limit rows n) :
    (newest.limit rows n).length = n := by
  rw [newest.length_limit, min_eq_left]
  by_contra hshort
  apply hnot
  rw [Newest.limit, List.take_of_length_le (by rw [(newest.perm rows).length_eq]; omega)]
  exact newest.mem_order.mpr hrow

/-- What holds of all that are taken holds of as many rows as may be, each at least as new as
one that is not taken. -/
theorem le_countP {p : Row → Bool} (htaken : ∀ r ∈ newest.limit rows n, p r = true)
    (hrow : row ∈ rows) (hnot : row ∉ newest.limit rows n) :
    n ≤ rows.countP fun r => p r && decide (date row ≤ date r) := by
  have hsub : ((newest.limit rows n).countP fun r => p r && decide (date row ≤ date r)) ≤
      rows.countP fun r => p r && decide (date row ≤ date r) := by
    rw [← (newest.perm rows).countP_eq]
    exact (List.take_sublist _ _).countP_le
  have hall : ((newest.limit rows n).countP fun r => p r && decide (date row ≤ date r)) =
      (newest.limit rows n).length := by
    rw [List.countP_eq_length]
    intro r hr
    simp [htaken r hr, newest.le_of_mem_limit hrow hnot hr]
  rw [hall, newest.length_limit_of_not_mem hrow hnot] at hsub
  exact hsub

/-- What holds of all that are taken holds of as many rows, if there are. -/
theorem le_countP_of_length {p : Row → Bool} (htaken : ∀ r ∈ newest.limit rows n, p r = true)
    (hlength : n ≤ (newest.limit rows n).length) : n ≤ rows.countP p := by
  calc n ≤ (newest.limit rows n).length := hlength
    _ = (newest.limit rows n).countP p := (List.countP_eq_length.mpr htaken).symm
    _ ≤ (newest.order rows).countP p := (List.take_sublist _ _).countP_le
    _ = rows.countP p := (newest.perm rows).countP_eq p

end Newest

end Rustrak.Relational

namespace Rustrak.Relational

/-! ## The least, the greatest and the number

What a row keeps of the values it has seen when it counts them and moves two bounds, each in
its own direction.  The three numbers only depend on the values, not on their order.
-/

variable {α : Type*} [LinearOrder α]

structure Tally (values : List α) (least greatest : α) (count : Int) : Prop where
  least : IsLeast {x | x ∈ values} least
  greatest : IsGreatest {x | x ∈ values} greatest
  count : count = values.length

namespace Tally

variable {values values' : List α} {least greatest x : α} {count : Int}

theorem single (x : α) : Tally [x] x x 1 where
  least := ⟨List.mem_singleton_self x, fun _ hy => (List.mem_singleton.mp hy).ge⟩
  greatest := ⟨List.mem_singleton_self x, fun _ hy => (List.mem_singleton.mp hy).le⟩
  count := rfl

/-- One more value. -/
theorem add (h : Tally values least greatest count) (x : α) :
    Tally (values ++ [x]) (min least x) (max greatest x) (count + 1) where
  least := by
    refine ⟨?_, fun y hy => ?_⟩
    · change min least x ∈ values ++ [x]
      rcases min_choice least x with hmin | hmin
      · rw [hmin]
        exact List.mem_append_left _ h.least.1
      · rw [hmin]
        exact List.mem_append_right _ (List.mem_singleton_self x)
    · rcases List.mem_append.mp hy with hy | hy
      · exact (min_le_left least x).trans (h.least.2 hy)
      · exact (min_le_right least x).trans (List.mem_singleton.mp hy).ge
  greatest := by
    refine ⟨?_, fun y hy => ?_⟩
    · change max greatest x ∈ values ++ [x]
      rcases max_choice greatest x with hmax | hmax
      · rw [hmax]
        exact List.mem_append_left _ h.greatest.1
      · rw [hmax]
        exact List.mem_append_right _ (List.mem_singleton_self x)
    · rcases List.mem_append.mp hy with hy | hy
      · exact (h.greatest.2 hy).trans (le_max_left greatest x)
      · exact (List.mem_singleton.mp hy).le.trans (le_max_right greatest x)
  count := by
    rw [h.count, List.length_append, List.length_singleton]
    rfl

theorem perm (h : Tally values least greatest count) (hperm : values.Perm values') :
    Tally values' least greatest count where
  least := by simpa only [hperm.mem_iff] using h.least
  greatest := by simpa only [hperm.mem_iff] using h.greatest
  count := by rw [h.count, hperm.length_eq]

end Tally

end Rustrak.Relational
