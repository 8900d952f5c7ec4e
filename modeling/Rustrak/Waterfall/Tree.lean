import Mathlib.Data.Rat.Defs
import Rustrak.Forest.Grow

/-!
# The tree of a waterfall

`buildTree` of `components/waterfall/waterfall.tsx`.  Spans come with the id of a parent, which may
be missing, unknown, their own, or lead around in a circle.  Times are rationals.
-/

namespace Rustrak.Waterfall

open Rustrak.Forest

structure WaterfallSpan where
  id : String
  parentId : Option String
  op : Option String
  description : Option String
  startMs : ℚ
  endMs : ℚ
  status : Option String
  deriving DecidableEq

abbrev TreeNode := Forest.Tree WaterfallSpan

def rootKey : String := "__root__"

/-- What a span is listed under: its parent, or the root if that is not another known span. -/
def parentOf (spans : List WaterfallSpan) (span : WaterfallSpan) : String :=
  match span.parentId with
  | none => rootKey
  | some parent =>
      if parent ≠ "" ∧ parent ∈ spans.map (·.id) ∧ parent ≠ span.id then parent else rootKey

/-- `byParent`, sorted by start. -/
def byParent (spans : List WaterfallSpan) (parent : String) : List WaterfallSpan :=
  (spans.filter fun span => parentOf spans span = parent).mergeSort fun a b => a.startMs ≤ b.startMs

/-- `build`, so many levels deep at most: the nodes under a parent, and the ids visited. -/
def build (spans : List WaterfallSpan) (depth : ℕ) (parent : String) (visited : List String) :
    Option (List TreeNode × List String) :=
  grow (·.id) (byParent spans) depth parent visited

/-- The tree: what was not visited is attached to the root. -/
def buildTree (spans : List WaterfallSpan) : Option (List TreeNode) :=
  (build spans (spans.length + 1) rootKey []).map fun (roots, visited) =>
    withOthers (·.id) spans roots visited

/-! ## No span is lost -/

/-- Known spans with ids of their own, of which none is the root's. -/
structure Distinct (spans : List WaterfallSpan) : Prop where
  nodup : (spans.map (·.id)).Nodup
  root : rootKey ∉ spans.map (·.id)

/-- The parents of a span lead to a span at the top. -/
inductive Anchored (spans : List WaterfallSpan) : WaterfallSpan → Prop
  | top {span : WaterfallSpan} (hspan : span ∈ spans) (h : parentOf spans span = rootKey) :
      Anchored spans span
  | under {parent span : WaterfallSpan} (hparent : Anchored spans parent) (hspan : span ∈ spans)
      (h : parentOf spans span = parent.id) : Anchored spans span

variable {spans : List WaterfallSpan} {span parent : WaterfallSpan} {k : String}

theorem mem_byParent : span ∈ byParent spans k ↔ span ∈ spans ∧ parentOf spans span = k := by
  rw [byParent, List.mem_mergeSort, List.mem_filter, decide_eq_true_eq]

theorem Distinct.links (h : Distinct spans) : Links (·.id) (byParent spans) spans rootKey where
  mem _ _ hspan := (mem_byParent.mp hspan).1
  nodup := h.nodup
  parent _ _ _ hk hl := (mem_byParent.mp hk).2.symm.trans (mem_byParent.mp hl).2
  root _ hspan hroot := h.root (hroot ▸ List.mem_map_of_mem hspan)

theorem Anchored.reached (h : Anchored spans span) : Reached (·.id) (byParent spans) rootKey span := by
  induction h with
  | top hspan h => exact .top (mem_byParent.mpr ⟨hspan, h⟩)
  | under _ hspan h ih => exact .under ih (mem_byParent.mpr ⟨hspan, h⟩)

/-- The tree of some spans: each stands in it, once, and under its parent if this leads to the
top. -/
structure TreeOf (spans : List WaterfallSpan) (forest : List TreeNode) : Prop where
  perm : (Forest.Tree.allValues forest).Perm spans
  top : ∀ span ∈ spans, parentOf spans span = rootKey → span ∈ forest.map Forest.Tree.value
  under : ∀ span ∈ spans, ∀ parent, Anchored spans parent → parentOf spans span = parent.id →
    (parent, span) ∈ edges forest

/-- It is built, however the spans are linked. -/
theorem exists_buildTree (h : Distinct spans) :
    ∃ forest, buildTree spans = some forest ∧ TreeOf spans forest := by
  have hbelow : ∀ k, ∀ span ∈ byParent spans k, span ∈ spans := h.links.mem
  have hunvisited : unvisited (·.id) spans [] < spans.length + 1 :=
    Nat.lt_succ_of_le List.countP_le_length
  obtain ⟨⟨roots, visited⟩, hbuild⟩ :=
    Option.isSome_iff_exists.mp (@grow_isSome _ _ _ _ _ _ spans hbelow _ rootKey hunvisited)
  have hgrown := grown_grow hbuild
  refine ⟨withOthers (·.id) spans roots visited, ?_, h.links.perm_withOthers hgrown, ?_, ?_⟩
  · rw [buildTree, build, hbuild, Option.map_some]
  · intro span hspan hroot
    rw [withOthers, List.map_append]
    apply List.mem_append_left
    exact h.links.top_of_below hgrown (mem_byParent.mpr ⟨hspan, hroot⟩)
  · intro span hspan parent hparent hunder
    rw [withOthers, edges_append]
    apply List.mem_append_left
    exact h.links.edge_of_reached hgrown hparent.reached (mem_byParent.mpr ⟨hspan, hunder⟩)

end Rustrak.Waterfall
