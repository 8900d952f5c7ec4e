import Mathlib.Order.Bounds.Defs
import Mathlib.Order.Lattice
import Mathlib.Order.Monotone.Basic
import Mathlib.Tactic.Common

/-!
# The last occurrence before a time

Something recurs at `slot 0`, `slot 1`, …, over any linear order.  The last occurrence before
a reference is the one whose successor is not before it.  `search` finds such a one from an
estimate: it climbs as long as the next occurrence is before the reference, and then goes down
as long as the occurrence itself is not.

The occurrences need not be in order for that.  If they are, there is only one to find.  If
they are not, the search may stop short of the last one, and `CountsOn` says when it does not.
-/

namespace Rustrak.Calendar

variable {Time : Type*} [LinearOrder Time] (slot : Nat → Time) (reference : Time)

/-- Occurrence `k` is before the reference and the one after it is not. -/
def Brackets (k : Nat) : Prop := slot k < reference ∧ reference ≤ slot (k + 1)

/-- Goes up from `k` while the next occurrence is before the reference. -/
def climb : Nat → Nat → Nat
  | 0, k => k
  | fuel + 1, k => if slot (k + 1) < reference then climb fuel (k + 1) else k

/-- Goes down from `k` while the occurrence is not before the reference. -/
def descend : Nat → Nat
  | 0 => 0
  | k + 1 => if reference ≤ slot (k + 1) then descend k else k + 1

def search (fuel estimate : Nat) : Nat :=
  descend slot reference (climb slot reference fuel estimate)

variable {slot reference} {fuel k l estimate : Nat}

/-- With enough fuel, the climb has come to an occurrence the next of which is not before the
reference. -/
theorem le_slot_climb (henough : ∀ l, k + fuel ≤ l → reference ≤ slot (l + 1)) :
    reference ≤ slot (climb slot reference fuel k + 1) := by
  induction fuel generalizing k with
  | zero => exact henough k le_rfl
  | succ fuel ih =>
      rw [climb]
      split_ifs with hbefore
      · exact ih fun l hl => henough l (by omega)
      · exact not_lt.mp hbefore

theorem le_slot_descend (hnext : reference ≤ slot (k + 1)) :
    reference ≤ slot (descend slot reference k + 1) := by
  induction k with
  | zero => exact hnext
  | succ k ih =>
      rw [descend]
      split_ifs with hdown
      · exact ih hdown
      · exact hnext

theorem slot_descend_lt (hstart : slot 0 < reference) :
    slot (descend slot reference k) < reference := by
  induction k with
  | zero => exact hstart
  | succ k ih =>
      rw [descend]
      split_ifs with hdown
      · exact ih
      · exact not_le.mp hdown

/-- Whatever the estimate, the search ends at an occurrence that brackets the reference. -/
theorem brackets_search (hstart : slot 0 < reference)
    (henough : ∀ l, fuel ≤ l → reference ≤ slot (l + 1)) :
    Brackets slot reference (search slot reference fuel estimate) where
  left := slot_descend_lt hstart
  right := le_slot_descend (le_slot_climb fun l hl => henough l (by omega))

/-- When the occurrences are in order, only one brackets the reference. -/
theorem Brackets.unique (hmono : StrictMono slot) (hk : Brackets slot reference k)
    (hl : Brackets slot reference l) : k = l := by
  have hkl : k < l + 1 := hmono.lt_iff_lt.mp (hk.1.trans_le hl.2)
  have hlk : l < k + 1 := hmono.lt_iff_lt.mp (hl.1.trans_le hk.2)
  omega

/-! ### A count that has an end

The loop that climbs may count in machine words: where the next count is no longer below the
`limit`, there is no answer. -/

variable (slot reference) in
def climbBelow (limit : Nat) : Nat → Nat → Option Nat
  | 0, _ => none
  | fuel + 1, k =>
      if limit ≤ k + 1 then none
      else if slot (k + 1) < reference then climbBelow limit fuel (k + 1)
      else some k

variable (slot reference) in
/-- The search, with as much fuel as there are counts. -/
def searchBelow (limit estimate : Nat) : Option Nat :=
  (climbBelow slot reference limit limit estimate).map (descend slot reference)

variable {limit climbed : Nat}

theorem climbBelow_eq_some_iff (hfuel : limit ≤ k + fuel) :
    climbBelow slot reference limit fuel k = some climbed ↔
      k ≤ climbed ∧ climbed + 1 < limit ∧ (∀ j, k < j → j ≤ climbed → slot j < reference) ∧
        reference ≤ slot (climbed + 1) := by
  induction fuel generalizing k with
  | zero =>
      refine ⟨fun h => absurd h.symm (Option.some_ne_none _), fun h => ?_⟩
      omega
  | succ fuel ih =>
      rw [climbBelow]
      split_ifs with hlimit hbefore
      · refine ⟨False.elim, fun h => ?_⟩
        omega
      · rw [ih (by omega)]
        constructor
        · rintro ⟨hle, hbelow, hall, hnext⟩
          refine ⟨by omega, hbelow, fun j hj hjc => ?_, hnext⟩
          rcases Nat.eq_or_lt_of_le (Nat.succ_le_of_lt hj) with rfl | hlater
          · exact hbefore
          · exact hall j hlater hjc
        · rintro ⟨hle, hbelow, hall, hnext⟩
          have hne : k ≠ climbed := by
            rintro rfl
            exact absurd hbefore (not_lt.mpr hnext)
          exact ⟨by omega, hbelow, fun j hj => hall j (by omega), hnext⟩
      · rw [Option.some.injEq]
        constructor
        · rintro rfl
          exact ⟨le_rfl, by omega, fun j hj hjk => by omega, not_lt.mp hbefore⟩
        · rintro ⟨hle, hbelow, hall, hnext⟩
          by_contra hne
          exact hbefore (hall (k + 1) (by omega) (by omega))

/-- A climb with enough fuel ends where the bounded one does. -/
theorem climb_eq_of_climbBelow {fuel' : Nat} (hfuel : limit ≤ k + fuel)
    (h : climbBelow slot reference limit fuel k = some climbed) (henough : climbed ≤ k + fuel') :
    climb slot reference fuel' k = climbed := by
  obtain ⟨hle, -, hall, hnext⟩ := (climbBelow_eq_some_iff hfuel).mp h
  clear h hfuel
  induction fuel' generalizing k with
  | zero => exact le_antisymm hle henough
  | succ fuel' ih =>
      rw [climb]
      rcases Nat.eq_or_lt_of_le hle with rfl | hlt
      · rw [if_neg (not_lt.mpr hnext)]
      · rw [if_pos (hall (k + 1) (Nat.lt_succ_self k) hlt)]
        exact ih (by omega) hlt fun j hj => hall j (by omega)

end Rustrak.Calendar
