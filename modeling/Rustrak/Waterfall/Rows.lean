import Mathlib.Algebra.Order.Ring.Rat
import Mathlib.Data.Finset.Basic
import Rustrak.Waterfall.Tree

/-!
# The rows of a waterfall

`flatten` of `components/waterfall/waterfall.tsx`: the tree is walked into rows.  Runs of leaves
that are alike are one row until they are opened, and what is below a collapsed span has no rows.
-/

namespace Rustrak.Waterfall

open Rustrak.Forest

mutual

def descendants : TreeNode → ℕ
  | .node _ children => allDescendants children

/-- The children with their descendants. -/
def allDescendants : List TreeNode → ℕ
  | [] => 0
  | child :: children => 1 + descendants child + allDescendants children

end

def autogroupMin : ℕ := 5

def gapMinMs : ℚ := 100

inductive Row
  | span (id : String) (span : WaterfallSpan) (depth : ℕ) (guides : List Bool)
      (hasChildren collapsed : Bool) (count : ℕ)
  | group (id op : String) (description : Option String) (spans : List WaterfallSpan) (depth : ℕ)
      (guides : List Bool) (failed : Bool)
  | gap (id : String) (depth : ℕ) (guides : List Bool) (startMs endMs : ℚ)
  deriving DecidableEq

structure FlattenState where
  collapsed : Finset String
  openGroups : Finset String
  showGaps : Bool

/-- The coverage frontier. -/
def advance (frontier : Option ℚ) (first : ℚ) (ends : List ℚ) : ℚ :=
  ends.foldl max (match frontier with
    | none => first
    | some frontier => max frontier first)

/-! ## Siblings -/

/-- One sibling, or a run of them. -/
inductive SiblingUnit
  | node (node : TreeNode)
  | run (head : TreeNode) (nodes : List TreeNode)

def SiblingUnit.nodes : SiblingUnit → List TreeNode
  | .node sibling => [sibling]
  | .run head rest => head :: rest

/-- A key of a node, in which what is missing is written out. -/
def keyOf (node : TreeNode) : String :=
  node.value.op.getD "undefined" ++ " " ++ node.value.description.getD "undefined"

/-- How many siblings continue a run. -/
def runLength (node : TreeNode) : List TreeNode → ℕ
  | [] => 0
  | next :: rest =>
      if !next.children.isEmpty || !node.children.isEmpty || keyOf next != keyOf node then 0
      else runLength node rest + 1

def partitionSiblings : List TreeNode → List SiblingUnit
  | [] => []
  | node :: rest =>
      if runLength node rest + 1 ≥ autogroupMin then
        .run node (rest.take (runLength node rest)) ::
          partitionSiblings (rest.drop (runLength node rest))
      else .node node :: partitionSiblings rest
termination_by list => list.length

theorem nodes_partitionSiblings (list : List TreeNode) :
    (partitionSiblings list).flatMap SiblingUnit.nodes = list := by
  induction list using partitionSiblings.induct with
  | case1 => simp [partitionSiblings]
  | case2 node rest h ih =>
      rw [partitionSiblings, if_pos h, List.flatMap_cons, ih, SiblingUnit.nodes, List.cons_append,
        List.take_append_drop]
  | case3 node rest h ih =>
      rw [partitionSiblings, if_neg h, List.flatMap_cons, ih, SiblingUnit.nodes,
        List.singleton_append]

/-- What folds has nothing below it. -/
def SiblingUnit.Folds : SiblingUnit → Prop
  | .node _ => True
  | .run head nodes => ∀ node ∈ head :: nodes, node.children = []

theorem children_of_runLength {node : TreeNode} {rest : List TreeNode} :
    ∀ next ∈ rest.take (runLength node rest), next.children = [] := by
  induction rest with
  | nil => simp
  | cons first rest ih =>
      rw [runLength]
      split_ifs with hbreaks
      · simp
      · simp only [Bool.or_eq_true, Bool.not_eq_true', not_or, Bool.not_eq_false,
          List.isEmpty_iff] at hbreaks
        rw [List.take_succ_cons]
        exact List.forall_mem_cons.mpr ⟨hbreaks.1.1, ih⟩

theorem children_of_runLength_pos {node : TreeNode} {rest : List TreeNode}
    (h : 0 < runLength node rest) : node.children = [] := by
  cases rest with
  | nil => cases h
  | cons first rest =>
      rw [runLength] at h
      split_ifs at h with hbreaks
      · omega
      · simp only [Bool.or_eq_true, Bool.not_eq_true', not_or, Bool.not_eq_false,
          List.isEmpty_iff] at hbreaks
        exact hbreaks.1.2

theorem folds_partitionSiblings (list : List TreeNode) :
    ∀ entry ∈ partitionSiblings list, entry.Folds := by
  induction list using partitionSiblings.induct with
  | case1 => simp [partitionSiblings]
  | case2 node rest h ih =>
      have hpos : 0 < runLength node rest := by
        unfold autogroupMin at h
        omega
      rw [partitionSiblings, if_pos h]
      exact List.forall_mem_cons.mpr ⟨List.forall_mem_cons.mpr
        ⟨children_of_runLength_pos hpos, children_of_runLength⟩, ih⟩
  | case3 node rest h ih =>
      rw [partitionSiblings, if_neg h]
      exact List.forall_mem_cons.mpr ⟨trivial, ih⟩

/-! ## Walking -/

def unitStart : SiblingUnit → WaterfallSpan
  | .node sibling => sibling.value
  | .run head _ => head.value

/-- Unclaimed time before a unit. -/
def gapRows (state : FlattenState) (entry : SiblingUnit) (depth : ℕ) (guides : List Bool)
    (previousEnd : Option ℚ) : List Row :=
  match previousEnd with
  | none => []
  | some previousEnd =>
      if state.showGaps ∧ gapMinMs ≤ (unitStart entry).startMs - previousEnd then
        [.gap ("gap-" ++ (unitStart entry).id) depth (guides ++ [true]) previousEnd
          (unitStart entry).startMs]
      else []

def isFailed (span : WaterfallSpan) : Bool :=
  span.status.any fun status => status ≠ "" ∧ status ≠ "ok"

/-- One run, open or folded. -/
def emitRun (state : FlattenState) (head : TreeNode) (rest : List TreeNode) (depth : ℕ)
    (guides : List Bool) (last : Bool) : List Row :=
  let spans := (head :: rest).map Forest.Tree.value
  let groupId := "group-" ++ head.value.id
  if groupId ∈ state.openGroups then
    spans.map fun span => .span span.id span depth (guides ++ [!last]) false false 0
  else
    [.group groupId (head.value.op.getD "span") head.value.description spans depth
      (guides ++ [!last]) (spans.any isFailed)]

def nodeRow (state : FlattenState) (node : TreeNode) (depth : ℕ) (guides : List Bool)
    (last : Bool) : Row :=
  .span node.value.id node.value depth (guides ++ [!last]) (!node.children.isEmpty)
    (node.value.id ∈ state.collapsed) (descendants node)

/-- The frontier after a unit. -/
def advanceUnit (previousEnd : Option ℚ) : SiblingUnit → ℚ
  | .node sibling => advance previousEnd sibling.value.endMs []
  | .run head rest => advance previousEnd head.value.endMs (rest.map fun node => node.value.endMs)

/-- The spans of some units, for which walking them ends. -/
def unitValues (units : List SiblingUnit) : List WaterfallSpan :=
  Forest.Tree.allValues (units.flatMap SiblingUnit.nodes)

theorem unitValues_cons (entry : SiblingUnit) (units : List SiblingUnit) :
    unitValues (entry :: units) = Forest.Tree.allValues entry.nodes ++ unitValues units := by
  rw [unitValues, List.flatMap_cons, allValues_append, unitValues]

theorem values_eq (node : TreeNode) :
    node.values = node.value :: Forest.Tree.allValues node.children := by
  cases node
  rfl

theorem allValues_nodes_pos (entry : SiblingUnit) : 0 < (Forest.Tree.allValues entry.nodes).length := by
  cases entry with
  | node sibling =>
      rw [SiblingUnit.nodes, allValues_cons, values_eq]
      exact Nat.succ_pos _
  | run head rest =>
      rw [SiblingUnit.nodes, allValues_cons, values_eq]
      exact Nat.succ_pos _

mutual

def walk (state : FlattenState) (list : List TreeNode) (depth : ℕ) (guides : List Bool) :
    List Row :=
  walkUnits state (partitionSiblings list) depth guides none
termination_by ((Forest.Tree.allValues list).length, 1)
decreasing_by
  rw [unitValues, nodes_partitionSiblings]
  exact .right _ Nat.one_pos

def walkUnits (state : FlattenState) (units : List SiblingUnit) (depth : ℕ) (guides : List Bool)
    (previousEnd : Option ℚ) : List Row :=
  match units with
  | [] => []
  | entry :: rest =>
      gapRows state entry depth guides previousEnd ++
        (match entry with
          | .node node =>
              nodeRow state node depth guides rest.isEmpty ::
                (if !node.children.isEmpty && node.value.id ∉ state.collapsed then
                  walk state node.children (depth + 1) (guides ++ [!rest.isEmpty])
                else [])
          | .run head nodes => emitRun state head nodes depth guides rest.isEmpty) ++
        walkUnits state rest depth guides (some (advanceUnit previousEnd entry))
termination_by ((unitValues units).length, 0)
decreasing_by
  · apply Prod.Lex.left
    rw [unitValues_cons, SiblingUnit.nodes, allValues_cons, values_eq]
    simp only [List.length_append, List.length_cons]
    omega
  · apply Prod.Lex.left
    have hpos := allValues_nodes_pos entry
    rw [unitValues_cons, List.length_append]
    omega

end

def flatten (nodes : List TreeNode) (state : FlattenState) : List Row := walk state nodes 0 []

end Rustrak.Waterfall
