import Mathlib.MeasureTheory.Measure.Lebesgue.Basic
import Mathlib.MeasureTheory.Measure.Real

/-!
# How much a list of intervals covers

A single pass over intervals in the order of their starts adds up what each covers past the
frontier.  The sum is the measure of their union.
-/

namespace Rustrak.Intervals

open MeasureTheory Set

/-- What has been covered so far, and the end of it. -/
structure Frontier where
  covered : ℝ
  reached : ℝ

/-- Add one interval, cut at `hi`. -/
noncomputable def sweep (hi : ℝ) (front : Frontier) (interval : ℝ × ℝ) : Frontier where
  covered := front.covered + max (min interval.2 hi - max interval.1 front.reached) 0
  reached := max front.reached (min interval.2 hi)

/-- An interval inside another. -/
def clip (lo hi : ℝ) (interval : ℝ × ℝ) : Set ℝ := Icc interval.1 interval.2 ∩ Icc lo hi

/-- The same without its first point. -/
def part (lo hi : ℝ) (interval : ℝ × ℝ) : Set ℝ := Ioc (max interval.1 lo) (min interval.2 hi)

def parts (lo hi : ℝ) (intervals : List (ℝ × ℝ)) : Set ℝ := ⋃ i ∈ intervals, part lo hi i

variable {lo hi : ℝ} {front : Frontier} {done rest : List (ℝ × ℝ)} {interval : ℝ × ℝ} {x : ℝ}

theorem mem_parts : x ∈ parts lo hi done ↔ ∃ i ∈ done, x ∈ part lo hi i := by
  simp [parts]

theorem parts_append_singleton :
    parts lo hi (done ++ [interval]) = parts lo hi done ∪ part lo hi interval := by
  ext x
  simp [mem_parts, or_and_right, exists_or]

theorem part_ae_eq_clip : part lo hi interval =ᵐ[volume] clip lo hi interval := by
  rw [part, clip, Icc_inter_Icc]
  exact Ioc_ae_eq_Icc

theorem volume_parts (intervals : List (ℝ × ℝ)) :
    volume.real (parts lo hi intervals) = volume.real (⋃ i ∈ intervals, clip lo hi i) := by
  apply measureReal_congr
  exact Filter.EventuallyEq.countable_bUnion (S := {i | i ∈ intervals})
    intervals.finite_toSet.countable fun i _ => part_ae_eq_clip

/-- What the pass knows after some intervals. -/
structure Sweeps (lo hi : ℝ) (done : List (ℝ × ℝ)) (front : Frontier) : Prop where
  started : lo ≤ front.reached
  within : parts lo hi done ⊆ Ioc lo front.reached
  filled : ∀ x, (∀ i ∈ done, i.1 < x) → lo < x → x ≤ front.reached → x ∈ parts lo hi done
  measured : front.covered = volume.real (parts lo hi done)

theorem sweeps_nil : Sweeps lo hi [] ⟨0, lo⟩ where
  started := le_rfl
  within := by simp [parts]
  filled := fun x _ hlo hreached => absurd hlo hreached.not_gt
  measured := by simp [parts, measureReal_empty]

namespace Sweeps

/-- What is new in the next interval lies past the frontier. -/
theorem part_diff (h : Sweeps lo hi done front) (hnext : ∀ i ∈ done, i.1 ≤ interval.1) :
    part lo hi interval \ parts lo hi done =
      Ioc (max interval.1 front.reached) (min interval.2 hi) := by
  ext x
  constructor
  · rintro ⟨⟨hstart, hfinish⟩, hnew⟩
    obtain ⟨hstart, hlo⟩ := max_lt_iff.mp hstart
    refine ⟨max_lt hstart ?_, hfinish⟩
    by_contra hreached
    exact hnew (h.filled x (fun i hi => (hnext i hi).trans_lt hstart) hlo (not_lt.mp hreached))
  · rintro ⟨hstart, hfinish⟩
    obtain ⟨hstart, hreached⟩ := max_lt_iff.mp hstart
    refine ⟨⟨max_lt hstart (h.started.trans_lt hreached), hfinish⟩, fun hold => ?_⟩
    exact absurd (h.within hold).2 hreached.not_ge

theorem next (h : Sweeps lo hi done front) (hnext : ∀ i ∈ done, i.1 ≤ interval.1) :
    Sweeps lo hi (done ++ [interval]) (sweep hi front interval) where
  started := h.started.trans (le_max_left _ _)
  within := by
    rw [parts_append_singleton]
    apply union_subset
    · exact h.within.trans (Ioc_subset_Ioc_right (le_max_left _ _))
    · exact Ioc_subset_Ioc (le_max_right _ _) (le_max_right _ _)
  filled := by
    intro x hstarts hlo hreached
    rw [parts_append_singleton]
    rcases le_max_iff.mp hreached with hold | hnew
    · left
      exact h.filled x (fun i hi => hstarts i (List.mem_append_left _ hi)) hlo hold
    · right
      have hstart : interval.1 < x := hstarts interval (List.mem_append_right _ List.mem_cons_self)
      exact ⟨max_lt hstart hlo, hnew⟩
  measured := by
    rw [parts_append_singleton, ← union_sdiff_self, h.part_diff hnext]
    have hbounded : volume (parts lo hi done) ≠ ⊤ :=
      measure_ne_top_of_subset h.within measure_Ioc_lt_top.ne
    have hnew : Disjoint (parts lo hi done) (Ioc (max interval.1 front.reached) (min interval.2 hi)) :=
      h.part_diff hnext ▸ disjoint_sdiff_right
    calc front.covered + max (min interval.2 hi - max interval.1 front.reached) 0
        = volume.real (parts lo hi done) +
            volume.real (Ioc (max interval.1 front.reached) (min interval.2 hi)) := by
          rw [h.measured, Real.volume_real_Ioc]
      _ = volume.real (parts lo hi done ∪ Ioc (max interval.1 front.reached) (min interval.2 hi)) :=
          (measureReal_union hnew measurableSet_Ioc hbounded measure_Ioc_lt_top.ne).symm

theorem foldl (h : Sweeps lo hi done front)
    (hsorted : (done ++ rest).Pairwise fun a b => a.1 ≤ b.1) :
    Sweeps lo hi (done ++ rest) (rest.foldl (sweep hi) front) := by
  induction rest generalizing done front with
  | nil => simpa using h
  | cons interval rest ih =>
      rw [List.append_cons] at hsorted ⊢
      refine ih (h.next fun i hi => ?_) hsorted
      have hfirst := (List.pairwise_append.mp hsorted).1
      exact (List.pairwise_append.mp hfirst).2.2 i hi interval List.mem_cons_self

end Sweeps

/-- A pass over sorted intervals measures their union. -/
theorem covered_eq_volume {intervals : List (ℝ × ℝ)}
    (hsorted : intervals.Pairwise fun a b => a.1 ≤ b.1) :
    (intervals.foldl (sweep hi) ⟨0, lo⟩).covered =
      volume.real (⋃ i ∈ intervals, clip lo hi i) :=
  ((sweeps_nil.foldl hsorted).measured).trans (volume_parts intervals)

end Rustrak.Intervals
