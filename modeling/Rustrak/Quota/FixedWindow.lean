import Mathlib.Order.Lattice
import Mathlib.Tactic.Common

/-!
# Fixed-window counters

One stored window and how many were counted in it.  `bump` counts one more: in
the stored window it adds to the count, in any other window it starts over at
one.  The counter forgets every window but the last, so it bounds what was taken
per window only while windows come in order: `Bounds.bump` is the one step, and
its hypothesis `counter.window ≤ w` cannot be dropped.

Windows are any linear order; nothing here knows what a window is.
-/

namespace Rustrak.Quota

structure FixedWindow (Window : Type*) where
  window : Window
  count : Int
  deriving DecidableEq, Repr

namespace FixedWindow

variable {Window : Type*} [LinearOrder Window]

/-- Another one fits: the stored window is another one, or has room. -/
def hasRoom (counter : FixedWindow Window) (w : Window) (limit : Int) : Bool :=
  decide (counter.window ≠ w) || decide (counter.count < limit)

def bump (counter : FixedWindow Window) (w : Window) : FixedWindow Window :=
  { window := w, count := if counter.window = w then counter.count + 1 else 1 }

/-- What a counter knows about the windows of everything it let through. -/
structure Bounds (limit : Int) (taken : List Window) (counter : FixedWindow Window) : Prop where
  nonneg : 0 ≤ counter.count
  latest : ∀ w ∈ taken, w ≤ counter.window
  counted : (taken.count counter.window : Int) ≤ counter.count
  within : ∀ w, (taken.count w : Int) ≤ limit

theorem Bounds.start {limit : Int} (hlimit : 1 ≤ limit) {counter : FixedWindow Window}
    (hcount : 0 ≤ counter.count) : Bounds limit [] counter where
  nonneg := hcount
  latest := by simp
  counted := by simpa using hcount
  within := by
    intro w
    simp only [List.count_nil]
    omega

/-- One more, in the stored window or a later one. -/
theorem Bounds.bump {limit : Int} (hlimit : 1 ≤ limit) {taken : List Window}
    {counter : FixedWindow Window} (h : Bounds limit taken counter) {w : Window}
    (hroom : counter.hasRoom w limit = true) (hle : counter.window ≤ w) :
    Bounds limit (taken ++ [w]) (counter.bump w) := by
  have hcount : ∀ v, (taken ++ [w]).count v = taken.count v + if w = v then 1 else 0 := by
    intro v
    by_cases hv : w = v <;> simp [List.count_append, hv]
  -- In a later window nothing was taken yet.
  have hbumped : (taken.count w : Int) + 1 ≤ (counter.bump w).count ∧
      (counter.bump w).count ≤ limit := by
    unfold FixedWindow.bump
    simp only [hasRoom, Bool.or_eq_true, decide_eq_true_eq] at hroom
    by_cases hsame : counter.window = w
    · have hcounted := h.counted
      rw [hsame] at hcounted
      have hlt : counter.count < limit := by
        rcases hroom with hne | hlt
        · exact absurd hsame hne
        · exact hlt
      rw [if_pos hsame]
      dsimp only
      omega
    · have hnone : taken.count w = 0 := by
        refine List.count_eq_zero.mpr fun hmem => hsame ?_
        exact le_antisymm hle (h.latest w hmem)
      rw [if_neg hsame, hnone]
      dsimp only
      omega
  refine ⟨?_, ?_, ?_, ?_⟩
  · have hpos : 0 ≤ (taken.count w : Int) := Int.natCast_nonneg _
    omega
  · intro v hv
    rcases List.mem_append.mp hv with hv | hv
    · exact le_trans (h.latest v hv) hle
    · rw [List.mem_singleton.mp hv]
      exact le_refl _
  · change (((taken ++ [w]).count w : Nat) : Int) ≤ _
    rw [hcount, if_pos rfl]
    push_cast
    exact hbumped.1
  · intro v
    rw [hcount]
    by_cases hv : w = v
    · subst hv
      rw [if_pos rfl]
      push_cast
      omega
    · have hwithin := h.within v
      rw [if_neg hv]
      simpa using hwithin

end FixedWindow

end Rustrak.Quota
