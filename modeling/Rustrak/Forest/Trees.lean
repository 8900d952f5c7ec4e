import Mathlib.Data.Fintype.Card
import Mathlib.Data.List.Basic
import Mathlib.Data.List.Nodup
import Mathlib.Data.Set.Finite.List
import Mathlib.Logic.Relation

/-!
# Trees and forests

A tree has a value and some children, and a forest is a list of trees.  Their values are listed
parents first; their edges are the pairs of a value and one directly under it.
-/

namespace Rustrak.Forest

inductive Tree (A : Type*)
  | node (value : A) (children : List (Tree A))

variable {A : Type*}

namespace Tree

def value : Tree A → A
  | node value _ => value

def children : Tree A → List (Tree A)
  | node _ children => children

/-- What holds of a forest if it does of the first tree's children and of the other trees. -/
theorem rec_forest {P : List (Tree A) → Prop} (nil : P [])
    (cons : ∀ value children trees, P children → P trees → P (node value children :: trees)) :
    ∀ trees, P trees
  | [] => nil
  | node value children :: trees =>
      cons value children trees (rec_forest nil cons children) (rec_forest nil cons trees)

mutual

def values : Tree A → List A
  | node value children => value :: allValues children

/-- The values of a forest. -/
def allValues : List (Tree A) → List A
  | [] => []
  | tree :: trees => tree.values ++ allValues trees

end

mutual

/-- A tree and those in it. -/
def subtrees : Tree A → List (Tree A)
  | node value children => node value children :: allSubtrees children

def allSubtrees : List (Tree A) → List (Tree A)
  | [] => []
  | tree :: trees => tree.subtrees ++ allSubtrees trees

end

end Tree

open Tree

/-- The pairs of a value and one directly under it. -/
def edges (trees : List (Tree A)) : List (A × A) :=
  (allSubtrees trees).flatMap fun tree => tree.children.map fun child => (tree.value, child.value)

variable {tree : Tree A} {trees others : List (Tree A)} {a b : A}

@[simp] theorem allValues_nil : allValues ([] : List (Tree A)) = [] := rfl

@[simp] theorem allValues_cons : allValues (tree :: trees) = tree.values ++ allValues trees := rfl

@[simp] theorem allSubtrees_cons :
    allSubtrees (tree :: trees) = tree.subtrees ++ allSubtrees trees := rfl

@[simp] theorem allValues_append :
    allValues (trees ++ others) = allValues trees ++ allValues others := by
  induction trees with
  | nil => rfl
  | cons tree trees ih =>
      rw [List.cons_append, allValues_cons, ih, allValues_cons, List.append_assoc]

@[simp] theorem allSubtrees_append :
    allSubtrees (trees ++ others) = allSubtrees trees ++ allSubtrees others := by
  induction trees with
  | nil => rfl
  | cons tree trees ih =>
      rw [List.cons_append, allSubtrees_cons, ih, allSubtrees_cons, List.append_assoc]

/-- Trees without children. -/
theorem allValues_leaves (as : List A) : allValues (as.map fun a => node a []) = as := by
  induction as with
  | nil => rfl
  | cons a as ih => rw [List.map_cons, allValues_cons, ih]; rfl

/-- Every value stands at a tree of the forest. -/
theorem map_value_allSubtrees (trees : List (Tree A)) :
    (allSubtrees trees).map value = allValues trees := by
  induction trees using rec_forest with
  | nil => rfl
  | cons a children trees ihchildren ih =>
      rw [allSubtrees_cons, subtrees, allValues_cons, values, List.map_append, List.map_cons,
        ihchildren, ih, value]

@[simp] theorem edges_append : edges (trees ++ others) = edges trees ++ edges others := by
  rw [edges, allSubtrees_append, List.flatMap_append, edges, edges]

theorem edges_node_cons (children : List (Tree A)) :
    edges (node a children :: trees) =
      children.map (fun child => (a, child.value)) ++ edges children ++ edges trees := by
  rw [edges, allSubtrees_cons, subtrees, List.cons_append, List.flatMap_cons, List.flatMap_append,
    List.append_assoc]
  rfl

/-- A value is at the top or directly under another. -/
theorem top_or_under (h : b ∈ allValues trees) :
    b ∈ trees.map value ∨ ∃ a ∈ allValues trees, (a, b) ∈ edges trees := by
  induction trees using rec_forest with
  | nil => cases h
  | cons a children trees ihchildren ih =>
      have hedges := @edges_node_cons A trees a children
      rw [allValues_cons, values, List.cons_append] at h ⊢
      rcases List.mem_cons.mp h with rfl | h
      · exact .inl List.mem_cons_self
      rcases List.mem_append.mp h with h | h
      · right
        rcases ihchildren h with htop | ⟨c, hc, hedge⟩
        · refine ⟨a, List.mem_cons_self, ?_⟩
          obtain ⟨child, hchild, rfl⟩ := List.mem_map.mp htop
          rw [hedges]
          exact List.mem_append_left _ (List.mem_append_left _ (List.mem_map_of_mem hchild))
        · refine ⟨c, List.mem_cons_of_mem _ (List.mem_append_left _ hc), ?_⟩
          rw [hedges]
          exact List.mem_append_left _ (List.mem_append_right _ hedge)
      · rcases ih h with htop | ⟨c, hc, hedge⟩
        · exact .inl (List.mem_cons_of_mem _ htop)
        · refine .inr ⟨c, List.mem_cons_of_mem _ (List.mem_append_right _ hc), ?_⟩
          rw [hedges]
          exact List.mem_append_right _ hedge

/-- The values anywhere under a value. -/
def under [DecidableEq A] (trees : List (Tree A)) (a : A) : List A :=
  ((allSubtrees trees).filter fun tree => tree.value = a).flatMap fun tree =>
    allValues tree.children

/-- Where no value comes twice, those under one are those of its tree. -/
theorem under_value [DecidableEq A] (hnodup : (allValues trees).Nodup)
    (htree : tree ∈ allSubtrees trees) : under trees tree.value = allValues tree.children := by
  rw [← map_value_allSubtrees] at hnodup
  rw [under]
  obtain ⟨before, after, hsplit⟩ := List.append_of_mem htree
  rw [hsplit] at hnodup ⊢
  rw [List.map_append, List.map_cons] at hnodup
  have hbefore : before.filter (fun other => other.value = tree.value) = [] := by
    refine List.filter_eq_nil_iff.mpr fun other hother heq => ?_
    exact (List.nodup_append.mp hnodup).2.2 _ (List.mem_map_of_mem hother) _ List.mem_cons_self
      (of_decide_eq_true heq)
  have hafter : after.filter (fun other => other.value = tree.value) = [] := by
    refine List.filter_eq_nil_iff.mpr fun other hother heq => ?_
    have hfresh := (List.nodup_cons.mp (List.nodup_append.mp hnodup).2.1).1
    exact hfresh (of_decide_eq_true heq ▸ List.mem_map_of_mem hother)
  rw [List.filter_append, hbefore, List.nil_append, List.filter_cons_of_pos (by simp), hafter,
    List.flatMap_singleton]

end Rustrak.Forest

namespace Rustrak.Forest

/-! ## Chains that end

Every node either stops or has one next node.  Of finitely many, all come to a stop just if none
comes to itself again.
-/

open Relation

variable {A : Type*} {stop : A → Prop} {next : A → A → Prop} {nodes : List A} {a b : A}

/-- From a node one comes to a stop. -/
inductive Ends (stop : A → Prop) (next : A → A → Prop) : A → Prop
  | stop {a : A} (h : stop a) : Ends stop next a
  | step {a b : A} (h : next a b) (hb : Ends stop next b) : Ends stop next a

/-- A chain that ends does not come around. -/
theorem Ends.not_cycle (hnext : ∀ a b c, next a b → next a c → b = c)
    (hstop : ∀ a b, stop a → ¬next a b) (h : Ends stop next a) : ¬TransGen next a a := by
  induction h with
  | stop h =>
      intro hcycle
      obtain ⟨b, hstep, -⟩ := TransGen.head'_iff.mp hcycle
      exact hstop _ _ h hstep
  | step h _ ih =>
      intro hcycle
      obtain ⟨c, hstep, hback⟩ := TransGen.head'_iff.mp hcycle
      obtain rfl := hnext _ _ _ h hstep
      exact ih (TransGen.tail' hback h)

/-- Where nothing comes around, everything ends. -/
theorem ends_of_acyclic (hlive : ∀ a ∈ nodes, stop a ∨ ∃ b ∈ nodes, next a b)
    (hacyclic : ∀ a ∈ nodes, ¬TransGen next a a) : ∀ a ∈ nodes, Ends stop next a := by
  let Node := { a // a ∈ nodes }
  let before (b a : Node) : Prop := TransGen next a.1 b.1
  have hfinite : Finite Node := nodes.finite_toSet
  have htrans : IsTrans Node before := ⟨fun _ _ _ hba hcb => hcb.trans hba⟩
  have hirrefl : Std.Irrefl before := ⟨fun a => hacyclic a.1 a.2⟩
  have hwf : WellFounded before := Finite.wellFounded_of_trans_of_irrefl before
  intro a ha
  induction hnode : (⟨a, ha⟩ : Node) using hwf.induction generalizing a with
  | _ node ih =>
      subst hnode
      rcases hlive a ha with hstop | ⟨b, hb, hstep⟩
      · exact .stop hstop
      · exact .step hstep (ih ⟨b, hb⟩ (TransGen.single hstep) b hb rfl)

/-- All chains end just if none comes around. -/
theorem forall_ends_iff (hnext : ∀ a b c, next a b → next a c → b = c)
    (hstop : ∀ a b, stop a → ¬next a b)
    (hlive : ∀ a ∈ nodes, stop a ∨ ∃ b ∈ nodes, next a b) :
    (∀ a ∈ nodes, Ends stop next a) ↔ ∀ a ∈ nodes, ¬TransGen next a a :=
  ⟨fun h a ha => (h a ha).not_cycle hnext hstop, ends_of_acyclic hlive⟩

end Rustrak.Forest
