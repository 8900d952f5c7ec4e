import Mathlib.Data.Rat.Cast.Lemmas
import Rustrak.Intervals.Sweep
import Rustrak.Waterfall.Payload

/-!
# Self time is duration less covered time

The children of a row, sorted by their starts, are swept once.  What the sweep adds up is the measure
of the union of their intervals inside the row's.
-/

namespace Rustrak.Waterfall

open MeasureTheory Rustrak.Intervals

namespace Sweep

/-- A sweep's times as reals. -/
def frontier (sweep : Sweep) : Frontier := ⟨sweep.covered, sweep.reached⟩

end Sweep

namespace PlainRow

def interval (row : PlainRow) : ℝ × ℝ := (row.startMs, row.endMs)

end PlainRow

variable {rows : List PlainRow} {row child : PlainRow}

theorem frontier_sweepChild (endMs : ℚ) (state : Sweep) :
    (sweepChild endMs state child).frontier = sweep endMs state.frontier child.interval := by
  have hcovered : ((sweepChild endMs state child).covered : ℝ) = state.covered +
      max (min (child.endMs : ℝ) endMs - max (child.startMs : ℝ) state.reached) 0 := by
    rw [sweepChild]
    dsimp only
    split_ifs with hafter
    · have hlong : 0 ≤ min (child.endMs : ℝ) endMs - max (child.startMs : ℝ) state.reached :=
        sub_nonneg.mpr (by exact_mod_cast hafter.le)
      rw [max_eq_left hlong]
      push_cast
      rfl
    · have hshort : min (child.endMs : ℝ) endMs - max (child.startMs : ℝ) state.reached ≤ 0 :=
        sub_nonpos.mpr (by exact_mod_cast not_lt.mp hafter)
      rw [max_eq_right hshort, add_zero]
  have hreached : ((sweepChild endMs state child).reached : ℝ) =
      max (state.reached : ℝ) (min (child.endMs : ℝ) endMs) := by
    rw [sweepChild]
    push_cast
    rfl
  rw [Sweep.frontier, hcovered, hreached]
  rfl

theorem frontier_foldl (endMs : ℚ) (state : Sweep) (children : List PlainRow) :
    (children.foldl (sweepChild endMs) state).frontier =
      (children.map PlainRow.interval).foldl (sweep endMs) state.frontier := by
  induction children generalizing state with
  | nil => rfl
  | cons child children ih =>
      rw [List.foldl_cons, List.map_cons, List.foldl_cons, ih, frontier_sweepChild]

theorem mem_childrenOf : child ∈ childrenOf rows row ↔ child ∈ rows ∧ child.parentId = some row.id := by
  simp [childrenOf]

theorem childrenOf_sorted : (childrenOf rows row).Pairwise fun a b => a.startMs ≤ b.startMs := by
  have hsorted := @List.pairwise_mergeSort _ (fun a b : PlainRow => decide (a.startMs ≤ b.startMs))
    (fun a b c hab hbc => decide_eq_true ((of_decide_eq_true hab).trans (of_decide_eq_true hbc)))
    (fun a b => by simpa using le_total a.startMs b.startMs)
    (rows.filter fun child => child.parentId = some row.id)
  exact hsorted.imp of_decide_eq_true

/-- The time of a row that its children are running in. -/
def childTime (rows : List WaterfallRow) (row : WaterfallRow) : Set ℝ :=
  ⋃ child ∈ {child | child ∈ rows ∧ child.parentId = some row.id},
    Set.Icc (child.startMs : ℝ) child.endMs ∩ Set.Icc (row.startMs : ℝ) row.endMs

theorem childTime_map (all : List PlainRow) :
    childTime (rows.map (withSelfMs all)) (withSelfMs all row) =
      ⋃ i ∈ (childrenOf rows row).map PlainRow.interval, clip row.startMs row.endMs i := by
  ext x
  simp only [childTime, Set.mem_iUnion, Set.mem_ofPred_eq, List.mem_map, exists_prop, mem_childrenOf]
  constructor
  · rintro ⟨_, ⟨⟨child, hchild, rfl⟩, hparent⟩, hx⟩
    exact ⟨child.interval, ⟨child, ⟨hchild, hparent⟩, rfl⟩, hx⟩
  · rintro ⟨_, ⟨child, ⟨hchild, hparent⟩, rfl⟩, hx⟩
    exact ⟨withSelfMs all child, ⟨⟨child, hchild, rfl⟩, hparent⟩, hx⟩

theorem coveredBy_eq_volume :
    (coveredBy rows row : ℝ) =
      volume.real (⋃ i ∈ (childrenOf rows row).map PlainRow.interval, clip row.startMs row.endMs i) := by
  have hsorted : ((childrenOf rows row).map PlainRow.interval).Pairwise fun a b => a.1 ≤ b.1 := by
    apply List.pairwise_map.mpr
    exact childrenOf_sorted.imp fun h => Rat.cast_le.mpr h
  have hstart : (Sweep.frontier ⟨0, row.startMs⟩) = ⟨0, row.startMs⟩ := by
    rw [Sweep.frontier]
    norm_num
  calc (coveredBy rows row : ℝ)
      = ((childrenOf rows row).foldl (sweepChild row.endMs) ⟨0, row.startMs⟩).frontier.covered := rfl
    _ = (((childrenOf rows row).map PlainRow.interval).foldl (sweep row.endMs)
          ⟨0, row.startMs⟩).covered := by rw [frontier_foldl, hstart]
    _ = _ := covered_eq_volume hsorted

/-- A row without an exclusive time has the time that none of its children runs in. -/
theorem selfMs_eq_duration_sub_childTime (payload : TransactionPayload) (name : String) (i : ℕ)
    (plain : PlainRow) (row : WaterfallRow) (hplain : (payload.plainRows name)[i]? = some plain)
    (hrow : (waterfallSpans payload name)[i]? = some row) (hexclusive : plain.exclusive = none) :
    (row.selfMs : ℝ) = max 0 ((row.endMs : ℝ) - row.startMs -
      volume.real (childTime (waterfallSpans payload name) row)) := by
  have hshown : row = withSelfMs (payload.plainRows name) plain := by
    rw [waterfallSpans, List.getElem?_map, hplain, Option.map_some, Option.some.injEq] at hrow
    exact hrow.symm
  rw [hshown, waterfallSpans, childTime_map, ← coveredBy_eq_volume]
  show ((selfMs (payload.plainRows name) plain : ℚ) : ℝ) = _
  rw [selfMs, hexclusive, Option.getD_none]
  push_cast
  rfl

def overlapping : TransactionPayload where
  traceSpanId := some "r"
  spans := [⟨some "a", some "r", none, none, none, some 1, some 3, none⟩,
    ⟨some "b", some "r", none, none, none, some 2, some 9, none⟩]
  transactionStart := 0
  transactionEnd := 4
  op := none
  status := none

/-- The row of the transaction itself. -/
def overlappingRoot : WaterfallRow :=
  withSelfMs (overlapping.plainRows "GET /") (overlapping.rootRow "GET /")

theorem selfMs_eq_duration_sub_childTime_overlapping :
    (overlappingRoot.selfMs : ℝ) =
      max 0 ((overlappingRoot.endMs : ℝ) - overlappingRoot.startMs -
        volume.real (childTime (waterfallSpans overlapping "GET /") overlappingRoot)) :=
  selfMs_eq_duration_sub_childTime overlapping "GET /" 0 (overlapping.rootRow "GET /")
    overlappingRoot rfl rfl rfl

end Rustrak.Waterfall
