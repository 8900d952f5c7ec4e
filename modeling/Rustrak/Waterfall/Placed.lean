import Rustrak.Waterfall.Rows

/-!
# Every span has its place

The rows of a forest, with what is folded into a group and what is below a collapsed row, are the
spans of the forest in its order.
-/

namespace Rustrak.Waterfall

open Rustrak.Forest

/-- The spans that have their place in a row: its own, those folded into it, and those below it
that have no rows. -/
def Row.places (forest : List TreeNode) : Row → List WaterfallSpan
  | .span _ own _ _ _ collapsed _ => own :: if collapsed then under forest own else []
  | .group _ _ _ spans _ _ _ => spans
  | .gap .. => []

/-- A row's count is that of the spans below it, and it is collapsed only if it was asked to be. -/
def Row.Counts (forest : List TreeNode) (state : FlattenState) : Row → Prop
  | .span _ own _ _ _ collapsed count =>
      count = (under forest own).length ∧ (collapsed = true → own.id ∈ state.collapsed)
  | _ => True

/-- Rows in which all of some trees have their place. -/
structure Placed (forest : List TreeNode) (state : FlattenState) (spans : List WaterfallSpan)
    (rows : List Row) : Prop where
  places : rows.flatMap (Row.places forest) = spans
  counts : ∀ row ∈ rows, row.Counts forest state

/-- Trees of the forest, in which no span comes twice. -/
def PartOf (forest trees : List TreeNode) : Prop :=
  ∀ node ∈ Forest.Tree.allSubtrees trees, under forest node.value = Forest.Tree.allValues node.children

variable {forest trees : List TreeNode} {state : FlattenState} {spans others : List WaterfallSpan}
  {rows rows' : List Row} {depth : ℕ} {guides : List Bool} {last : Bool}

theorem Placed.append (h : Placed forest state spans rows) (h' : Placed forest state others rows') :
    Placed forest state (spans ++ others) (rows ++ rows') where
  places := by rw [List.flatMap_append, h.places, h'.places]
  counts row hrow := by
    rcases List.mem_append.mp hrow with hrow | hrow
    · exact h.counts row hrow
    · exact h'.counts row hrow

theorem Placed.nil : Placed forest state [] [] := ⟨rfl, nofun⟩

theorem placed_gapRows (entry : SiblingUnit) (previousEnd : Option ℚ) :
    Placed forest state [] (gapRows state entry depth guides previousEnd) := by
  cases previousEnd with
  | none => exact Placed.nil
  | some previousEnd =>
      rw [gapRows]
      split_ifs
      · exact ⟨rfl, fun row hrow => by rw [List.mem_singleton.mp hrow]; trivial⟩
      · exact Placed.nil

theorem allValues_of_folds {nodes : List TreeNode} (h : ∀ node ∈ nodes, node.children = []) :
    Forest.Tree.allValues nodes = nodes.map Forest.Tree.value := by
  induction nodes with
  | nil => rfl
  | cons node nodes ih =>
      obtain ⟨hnode, hnodes⟩ := List.forall_mem_cons.mp h
      rw [allValues_cons, values_eq, hnode, ih hnodes, allValues_nil, List.map_cons,
        List.singleton_append]

theorem mem_allSubtrees_of_mem {node : TreeNode} (h : node ∈ trees) :
    node ∈ Forest.Tree.allSubtrees trees := by
  induction trees with
  | nil => cases h
  | cons first trees ih =>
      rw [allSubtrees_cons]
      rcases List.mem_cons.mp h with rfl | h
      · cases node
        exact List.mem_append_left _ List.mem_cons_self
      · exact List.mem_append_right _ (ih h)

/-- A run, whether it is open or folded. -/
theorem placed_emitRun {head : TreeNode} {rest : List TreeNode}
    (hfolds : (SiblingUnit.run head rest).Folds) (hpart : PartOf forest (head :: rest)) :
    Placed forest state (Forest.Tree.allValues (head :: rest))
      (emitRun state head rest depth guides last) := by
  rw [allValues_of_folds hfolds, emitRun]
  split_ifs
  · refine ⟨?_, fun row hrow => ?_⟩
    · rw [List.flatMap_map]
      exact List.flatMap_singleton' _
    · obtain ⟨span, hspan, rfl⟩ := List.mem_map.mp hrow
      obtain ⟨node, hnode, rfl⟩ := List.mem_map.mp hspan
      refine ⟨?_, nofun⟩
      rw [hpart node (mem_allSubtrees_of_mem hnode), hfolds node hnode]
      rfl
  · refine ⟨List.append_nil _, fun row hrow => ?_⟩
    rw [List.mem_singleton.mp hrow]
    trivial

theorem allDescendants_eq (nodes : List TreeNode) :
    allDescendants nodes = (Forest.Tree.allValues nodes).length := by
  induction nodes using Forest.Tree.rec_forest with
  | nil => rfl
  | cons span children nodes ihchildren ih =>
      rw [allDescendants, descendants, ihchildren, ih, allValues_cons, Forest.Tree.values,
        List.length_append, List.length_cons]
      omega

/-- A node with the rows of its children. -/
theorem placed_nodeRow {node : TreeNode} (hpart : PartOf forest [node])
    (hrows : Placed forest state (Forest.Tree.allValues node.children) rows) :
    Placed forest state node.values
      (nodeRow state node depth guides last ::
        if !node.children.isEmpty && node.value.id ∉ state.collapsed then rows else []) := by
  have hunder := hpart node (mem_allSubtrees_of_mem (List.mem_singleton_self node))
  have hcount : (nodeRow state node depth guides last).Counts forest state := by
    refine ⟨?_, of_decide_eq_true⟩
    rw [hunder, ← allDescendants_eq]
    cases node
    rfl
  rw [values_eq]
  by_cases hcollapsed : node.value.id ∈ state.collapsed
  · refine ⟨?_, fun row hrow => ?_⟩
    · simp [nodeRow, Row.places, hcollapsed, hunder]
    · simp only [hcollapsed, not_true_eq_false, decide_false, Bool.and_false, Bool.false_eq_true,
        if_false, List.mem_singleton] at hrow
      rwa [hrow]
  · refine ⟨?_, fun row hrow => ?_⟩
    · cases hchildren : node.children with
      | nil => simp [nodeRow, Row.places, hcollapsed]
      | cons child children =>
          rw [← hchildren]
          have hplaces : (nodeRow state node depth guides last :: rows).flatMap
              (Row.places forest) = node.value :: Forest.Tree.allValues node.children := by
            rw [List.flatMap_cons, hrows.places]
            simp [nodeRow, Row.places, hcollapsed]
          simpa [hcollapsed, hchildren] using hplaces
    · rcases List.mem_cons.mp hrow with rfl | hrow
      · exact hcount
      · split_ifs at hrow with hopen
        · exact hrows.counts row hrow
        · cases hrow

theorem PartOf.append_left {others : List TreeNode} (h : PartOf forest (trees ++ others)) :
    PartOf forest trees := fun node hnode =>
  h node (by rw [allSubtrees_append]; exact List.mem_append_left _ hnode)

theorem PartOf.append_right {others : List TreeNode} (h : PartOf forest (trees ++ others)) :
    PartOf forest others := fun node hnode =>
  h node (by rw [allSubtrees_append]; exact List.mem_append_right _ hnode)

theorem PartOf.children {node : TreeNode} (h : PartOf forest [node]) :
    PartOf forest node.children := by
  intro child hchild
  cases node with
  | node span children =>
      apply h
      rw [allSubtrees_cons]
      exact List.mem_append_left _ (List.mem_cons_of_mem _ hchild)

theorem length_children_lt (node : TreeNode) (rest : List SiblingUnit) :
    (Forest.Tree.allValues node.children).length < (unitValues (.node node :: rest)).length := by
  rw [unitValues_cons, SiblingUnit.nodes, allValues_cons, values_eq]
  simp only [List.length_append, List.length_cons]
  omega

/-- Units are walked into rows in which they have their place, if the forests below them are. -/
theorem placed_walkUnits {units : List SiblingUnit} (depth : ℕ) (guides : List Bool)
    (previousEnd : Option ℚ)
    (hwalk : ∀ list depth guides, (Forest.Tree.allValues list).length < (unitValues units).length →
      PartOf forest list → Placed forest state (Forest.Tree.allValues list) (walk state list depth guides))
    (hpart : PartOf forest (units.flatMap SiblingUnit.nodes))
    (hfolds : ∀ entry ∈ units, entry.Folds) :
    Placed forest state (unitValues units) (walkUnits state units depth guides previousEnd) := by
  induction units generalizing previousEnd with
  | nil =>
      rw [walkUnits]
      exact Placed.nil
  | cons entry rest ih =>
      rw [List.flatMap_cons] at hpart
      obtain ⟨hentry, hrest⟩ := List.forall_mem_cons.mp hfolds
      have hothers := ih (some (advanceUnit previousEnd entry)) (fun list depth guides hlt => by
        apply hwalk
        rw [unitValues_cons, List.length_append]
        omega) hpart.append_right hrest
      have hown := hpart.append_left
      rw [walkUnits.eq_def, unitValues_cons]
      refine Placed.append ?_ hothers
      refine @Placed.append forest state [] _ _ _ (placed_gapRows entry previousEnd) ?_
      cases entry with
      | node node =>
          rw [SiblingUnit.nodes] at hown ⊢
          have hchildren := hwalk node.children (depth + 1) (guides ++ [!rest.isEmpty])
            (length_children_lt node rest) hown.children
          rw [allValues_cons, allValues_nil, List.append_nil]
          exact placed_nodeRow hown hchildren
      | run head nodes => exact placed_emitRun hentry hown

/-- A forest is walked into rows in which it all has its place. -/
theorem placed_walk {list : List TreeNode} (depth : ℕ) (guides : List Bool)
    (hpart : PartOf forest list) :
    Placed forest state (Forest.Tree.allValues list) (walk state list depth guides) := by
  induction hlength : (Forest.Tree.allValues list).length using Nat.strong_induction_on
    generalizing list depth guides with
  | _ n ih =>
      have hvalues : unitValues (partitionSiblings list) = Forest.Tree.allValues list := by
        rw [unitValues, nodes_partitionSiblings]
      have hunits := @placed_walkUnits forest state (partitionSiblings list) depth guides none
        (fun other depth guides hlt hother => by
          rw [hvalues, hlength] at hlt
          exact ih _ hlt depth guides hother rfl)
        (by rwa [nodes_partitionSiblings]) (folds_partitionSiblings list)
      rw [walk]
      rwa [hvalues] at hunits

/-! ## The waterfall of some spans -/

/-- Every span has its place in a row, and one place only. -/
structure Shown (spans : List WaterfallSpan) (forest : List TreeNode) (state : FlattenState) :
    Prop where
  places : ((flatten forest state).flatMap (Row.places forest)).Perm spans
  counts : ∀ row ∈ flatten forest state, row.Counts forest state

theorem Distinct.nodup_spans (h : Distinct spans) : spans.Nodup := h.nodup.of_map _

theorem TreeOf.shown (h : TreeOf spans forest) (hspans : spans.Nodup) (state : FlattenState) :
    Shown spans forest state := by
  have hnodup := h.perm.nodup_iff.mpr hspans
  have hplaced := @placed_walk forest state forest 0 [] fun _ => under_value hnodup
  exact ⟨hplaced.places.symm ▸ h.perm, hplaced.counts⟩

/-- However spans are linked, they are built into a tree with each of them once, under its parent
if the parents lead to the top; and whatever is collapsed or opened, each has one place in the
rows. -/
theorem waterfall_loses_no_span (spans : List WaterfallSpan) (h : Distinct spans) :
    ∃ forest, buildTree spans = some forest ∧ TreeOf spans forest ∧
      ∀ state, Shown spans forest state := by
  obtain ⟨forest, hforest, htree⟩ := exists_buildTree h
  exact ⟨forest, hforest, htree, htree.shown h.nodup_spans⟩

def spanOf (id : String) (parentId : Option String) : WaterfallSpan where
  id := id
  parentId := parentId
  op := some "db.query"
  description := none
  startMs := 0
  endMs := 1
  status := none

/-- Two spans that are each other's parents, with one below them, and one that is at the top. -/
def circle : List WaterfallSpan :=
  [spanOf "a" (some "b"), spanOf "b" (some "a"), spanOf "c" (some "a"), spanOf "d" none]

theorem circle_loses_no_span : ∃ forest, buildTree circle = some forest ∧ TreeOf circle forest ∧
    ∀ state, Shown circle forest state :=
  waterfall_loses_no_span circle ⟨by decide, by decide⟩

end Rustrak.Waterfall
