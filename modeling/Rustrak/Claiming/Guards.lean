import Mathlib.Data.List.AList
import Mathlib.Data.List.Count
import Mathlib.Tactic.Common

/-!
# Counted guards

A registry of keys somebody holds.  Taking a guard on a key counts it up, dropping the
guard counts it down, and the key is gone with its last guard.  `Counts` relates the
registry to the guards there are, in any order: while it holds, a key is in the registry
exactly as long as one of its guards lives.
-/

namespace Rustrak.Claiming

variable {K : Type*} [DecidableEq K]

/-- The number of guards on each key that has one. -/
abbrev Guards (K : Type*) := AList fun _ : K => Nat

namespace Guards

def register (guards : Guards K) (k : K) : Guards K :=
  guards.insert k ((guards.lookup k).getD 0 + 1)

/-- A guard on the key is dropped. -/
def release (guards : Guards K) (k : K) : Guards K :=
  match guards.lookup k with
  | none => guards
  | some count => if count - 1 = 0 then guards.erase k else guards.insert k (count - 1)

def releaseAll (guards : Guards K) (keys : List K) : Guards K := keys.foldl release guards

def contains (guards : Guards K) (k : K) : Bool := (guards.lookup k).isSome

/-- The registry counts these guards. -/
def Counts (guards : Guards K) (held : List K) : Prop :=
  ∀ k, guards.lookup k = if held.count k = 0 then none else some (held.count k)

variable {guards : Guards K} {held held' : List K} {k : K}

theorem counts_empty : Counts (∅ : Guards K) [] := by
  intro k
  rfl

theorem Counts.perm (h : Counts guards held) (hperm : held.Perm held') : Counts guards held' := by
  intro k
  rw [h k, hperm.count_eq]

theorem Counts.contains_iff (h : Counts guards held) : guards.contains k = true ↔ k ∈ held := by
  rw [contains, h k, ← List.count_pos_iff]
  split_ifs with hzero
  · simp [hzero]
  · simpa using Nat.pos_of_ne_zero hzero

theorem Counts.register (h : Counts guards held) (k : K) :
    Counts (guards.register k) (k :: held) := by
  intro k'
  unfold Guards.register
  by_cases hk : k' = k
  · subst hk
    have hcount : (guards.lookup k').getD 0 = held.count k' := by
      rw [h k']
      split_ifs with hzero
      · exact hzero.symm
      · rfl
    rw [AList.lookup_insert, hcount, List.count_cons_self, if_neg (Nat.succ_ne_zero _)]
  · rw [AList.lookup_insert_ne hk, h k', List.count_cons_of_ne (Ne.symm hk)]

theorem Counts.release (h : Counts guards held) (hk : k ∈ held) :
    Counts (guards.release k) (held.erase k) := by
  have hpos : 0 < held.count k := List.count_pos_iff.mpr hk
  have hlookup : guards.lookup k = some (held.count k) := by
    rw [h k, if_neg (Nat.pos_iff_ne_zero.mp hpos)]
  intro k'
  unfold Guards.release
  rw [hlookup]
  dsimp only
  by_cases hkey : k' = k
  · subst hkey
    rw [List.count_erase_self]
    split_ifs with hzero
    · rw [AList.lookup_erase]
    · rw [AList.lookup_insert]
  · rw [List.count_erase_of_ne hkey]
    split_ifs with hzero hcount hcount
    · rw [AList.lookup_erase_ne hkey, h k', if_pos hcount]
    · rw [AList.lookup_erase_ne hkey, h k', if_neg hcount]
    · rw [AList.lookup_insert_ne hkey, h k', if_pos hcount]
    · rw [AList.lookup_insert_ne hkey, h k', if_neg hcount]

/-- Of the guards there are, some are dropped one after the other. -/
theorem Counts.releaseAll (keys : List K) {rest : List K}
    (h : Counts guards (keys ++ rest)) :
    Counts (guards.releaseAll keys) rest := by
  induction keys generalizing guards with
  | nil => exact h
  | cons k keys ih =>
      have hreleased := h.release (k := k) (by simp)
      rw [List.cons_append, List.erase_cons_head] at hreleased
      exact ih hreleased

end Guards

end Rustrak.Claiming
