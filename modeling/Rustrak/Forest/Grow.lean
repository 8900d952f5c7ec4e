import Mathlib.Data.List.Perm.Basic
import Rustrak.Forest.Trees

/-!
# Forests grown from links

Every node has a key, and the nodes below a key are listed.  From a root the nodes below it are
taken in turn, and with each those below it, but no key is come to twice.  Links can be anything:
a cycle is never come to, or is cut at the first key that comes again.

`Grown` is what has been grown; what was not come to is put beside it (`perm_of_grown`).
-/

namespace Rustrak.Forest

open Tree hiding node

variable {Node Key : Type*} (key : Node → Key) (below : Key → List Node)

/-- The trees of some nodes, but of none whose key has been visited, and the keys visited. -/
def growEach [DecidableEq Key] (grow : Key → List Key → Option (List (Tree Node) × List Key)) :
    List Node → List Key → Option (List (Tree Node) × List Key)
  | [], visited => some ([], visited)
  | node :: nodes, visited =>
      if key node ∈ visited then growEach grow nodes visited
      else
        (grow (key node) (key node :: visited)).bind fun (children, visited) =>
          (growEach grow nodes visited).map fun (trees, visited) =>
            (.node node children :: trees, visited)

/-- The trees below a key, so many levels deep at most. -/
def grow [DecidableEq Key] : ℕ → Key → List Key → Option (List (Tree Node) × List Key)
  | 0, _, _ => none
  | depth + 1, k, visited => growEach key (grow depth) (below k) visited

/-! ## What is grown -/

/-- Trees from some nodes: no key comes twice, an edge is a link, and all that is linked has been
visited. -/
structure Grown (starts : List Node) (visited : List Key) (trees : List (Tree Node))
    (visited' : List Key) : Prop where
  visited_iff : ∀ k, k ∈ visited' ↔ k ∈ visited ∨ k ∈ (allValues trees).map key
  nodup : ((allValues trees).map key).Nodup
  fresh : ∀ node ∈ allValues trees, key node ∉ visited
  tops : ∀ node ∈ trees.map value, node ∈ starts
  linked : ∀ a b, (a, b) ∈ edges trees → b ∈ below (key a)
  covered : ∀ node ∈ starts, key node ∈ visited'
  closed : ∀ a ∈ allValues trees, ∀ b ∈ below (key a), key b ∈ visited'

variable {key below} {visited mid visited' : List Key} {nodes : List Node} {node : Node}
  {children trees : List (Tree Node)}

theorem Grown.nil : Grown key below [] visited [] visited where
  visited_iff := by simp
  nodup := List.nodup_nil
  fresh := nofun
  tops := nofun
  linked := nofun
  covered := nofun
  closed := nofun

theorem Grown.subset {starts : List Node} (h : Grown key below starts visited trees visited') :
    ∀ k ∈ visited, k ∈ visited' := fun k hk => (h.visited_iff k).mpr (.inl hk)

theorem Grown.visit {starts : List Node} (h : Grown key below starts visited trees visited') :
    ∀ a ∈ allValues trees, key a ∈ visited' :=
  fun _ ha => (h.visited_iff _).mpr (.inr (List.mem_map_of_mem ha))

/-- A node that has been visited. -/
theorem Grown.skip (hnode : key node ∈ visited) (h : Grown key below nodes visited trees visited') :
    Grown key below (node :: nodes) visited trees visited' where
  visited_iff := h.visited_iff
  nodup := h.nodup
  fresh := h.fresh
  tops a ha := List.mem_cons_of_mem _ (h.tops a ha)
  linked := h.linked
  covered := List.forall_mem_cons.mpr ⟨h.subset _ hnode, h.covered⟩
  closed := h.closed

/-- A node with what grows below it, and then the others. -/
theorem Grown.cons (hnode : key node ∉ visited)
    (hchildren : Grown key below (below (key node)) (key node :: visited) children mid)
    (htrees : Grown key below nodes mid trees visited') :
    Grown key below (node :: nodes) visited (.node node children :: trees) visited' where
  visited_iff k := by
    rw [htrees.visited_iff, hchildren.visited_iff, allValues_cons, values, List.cons_append,
      List.map_cons, List.map_append, List.mem_cons, List.mem_cons, List.mem_append]
    tauto
  nodup := by
    rw [allValues_cons, values, List.cons_append, List.map_cons, List.map_append]
    refine List.nodup_cons.mpr ⟨fun hmem => ?_, List.nodup_append.mpr
      ⟨hchildren.nodup, htrees.nodup, ?_⟩⟩
    · rcases List.mem_append.mp hmem with hmem | hmem
      · obtain ⟨a, ha, hkey⟩ := List.mem_map.mp hmem
        exact hchildren.fresh a ha (hkey ▸ List.mem_cons_self)
      · obtain ⟨a, ha, hkey⟩ := List.mem_map.mp hmem
        exact htrees.fresh a ha (hkey ▸ hchildren.subset _ List.mem_cons_self)
    · rintro k hk l hl rfl
      obtain ⟨a, ha, rfl⟩ := List.mem_map.mp hk
      obtain ⟨b, hb, hkey⟩ := List.mem_map.mp hl
      exact htrees.fresh b hb (hkey ▸ hchildren.visit a ha)
  fresh := by
    rw [allValues_cons, values, List.cons_append]
    refine List.forall_mem_cons.mpr ⟨hnode, fun a ha hmem => ?_⟩
    rcases List.mem_append.mp ha with ha | ha
    · exact hchildren.fresh a ha (List.mem_cons_of_mem _ hmem)
    · exact htrees.fresh a ha (hchildren.subset _ (List.mem_cons_of_mem _ hmem))
  tops := by
    rw [List.map_cons, value]
    exact List.forall_mem_cons.mpr
      ⟨List.mem_cons_self, fun a ha => List.mem_cons_of_mem _ (htrees.tops a ha)⟩
  linked a b hab := by
    rw [edges_node_cons] at hab
    rcases List.mem_append.mp hab with hab | hab
    · rcases List.mem_append.mp hab with hab | hab
      · obtain ⟨child, hchild, heq⟩ := List.mem_map.mp hab
        cases heq
        exact hchildren.tops _ (List.mem_map_of_mem hchild)
      · exact hchildren.linked a b hab
    · exact htrees.linked a b hab
  covered := List.forall_mem_cons.mpr
    ⟨htrees.subset _ (hchildren.subset _ List.mem_cons_self), htrees.covered⟩
  closed := by
    rw [allValues_cons, values, List.cons_append]
    refine List.forall_mem_cons.mpr
      ⟨fun b hb => htrees.subset _ (hchildren.covered b hb), fun a ha b hb => ?_⟩
    rcases List.mem_append.mp ha with ha | ha
    · exact htrees.subset _ (hchildren.closed a ha b hb)
    · exact htrees.closed a ha b hb

section

variable [DecidableEq Key]

theorem grown_growEach {next : Key → List Key → Option (List (Tree Node) × List Key)}
    (hnext : ∀ k visited trees visited', next k visited = some (trees, visited') →
      Grown key below (below k) visited trees visited')
    (h : growEach key next nodes visited = some (trees, visited')) :
    Grown key below nodes visited trees visited' := by
  induction nodes generalizing visited trees with
  | nil =>
      cases h
      exact .nil
  | cons node nodes ih =>
      rw [growEach] at h
      split_ifs at h with hnode
      · exact (ih h).skip hnode
      · obtain ⟨⟨children, mid⟩, hchildren, h⟩ := Option.bind_eq_some_iff.mp h
        obtain ⟨⟨rest, last⟩, hrest, heq⟩ := Option.map_eq_some_iff.mp h
        cases heq
        exact .cons hnode (hnext _ _ _ _ hchildren) (ih hrest)

theorem grown_grow {depth : ℕ} {k : Key}
    (h : grow key below depth k visited = some (trees, visited')) :
    Grown key below (below k) visited trees visited' := by
  induction depth generalizing k visited trees visited' with
  | zero => cases h
  | succ depth ih => exact grown_growEach (fun _ _ _ _ => ih) h

/-! ## It ends -/

/-- How many nodes have not been visited. -/
def unvisited (key : Node → Key) (all : List Node) (visited : List Key) : ℕ :=
  all.countP fun node => key node ∉ visited

theorem unvisited_le {all : List Node} (h : ∀ k ∈ visited, k ∈ visited') :
    unvisited key all visited' ≤ unvisited key all visited := by
  apply List.countP_mono_left
  intro node _ hnode
  simp only [decide_eq_true_eq] at hnode ⊢
  exact fun hmem => hnode (h _ hmem)

theorem unvisited_lt {all : List Node} (hnode : node ∈ all) (hfresh : key node ∉ visited) :
    unvisited key all (key node :: visited) < unvisited key all visited := by
  obtain ⟨before, after, rfl⟩ := List.append_of_mem hnode
  have hbefore := @unvisited_le _ _ key visited (key node :: visited) _ before
    fun _ => List.mem_cons_of_mem _
  have hafter := @unvisited_le _ _ key visited (key node :: visited) _ after
    fun _ => List.mem_cons_of_mem _
  unfold unvisited at *
  rw [List.countP_append, List.countP_append, List.countP_cons_of_neg (by simp),
    List.countP_cons_of_pos (by simpa using hfresh)]
  omega

/-- The levels are enough if there is one for each node that has not been visited. -/
theorem growEach_isSome {all : List Node} {depth : ℕ}
    {next : Key → List Key → Option (List (Tree Node) × List Key)}
    (hnext : ∀ k visited, unvisited key all visited < depth → (next k visited).isSome = true)
    (hgrown : ∀ k visited trees visited', next k visited = some (trees, visited') →
      ∀ k ∈ visited, k ∈ visited')
    (hnodes : ∀ node ∈ nodes, node ∈ all) (h : unvisited key all visited ≤ depth) :
    (growEach key next nodes visited).isSome = true := by
  induction nodes generalizing visited with
  | nil => rfl
  | cons node nodes ih =>
      obtain ⟨hnode, hnodes⟩ := List.forall_mem_cons.mp hnodes
      rw [growEach]
      split_ifs with hvisited
      · exact ih hnodes h
      · have hlt := unvisited_lt hnode hvisited
        obtain ⟨⟨children, mid⟩, hchildren⟩ :=
          Option.isSome_iff_exists.mp (hnext (key node) (key node :: visited) (by omega))
        have hmid := @unvisited_le _ _ key _ _ _ all (hgrown _ _ _ _ hchildren)
        rw [hchildren, Option.bind_some, Option.isSome_map]
        exact ih hnodes (by omega)

theorem grow_isSome {all : List Node} (hbelow : ∀ k, ∀ node ∈ below k, node ∈ all) {depth : ℕ}
    {k : Key} (h : unvisited key all visited < depth) :
    (grow key below depth k visited).isSome = true := by
  induction depth generalizing k visited with
  | zero => omega
  | succ depth ih =>
      exact growEach_isSome (fun _ _ => ih) (fun _ _ _ _ hgrow => (grown_grow hgrow).subset)
        (hbelow k) (by omega)

end

/-! ## Nothing is lost -/

/-- Every node is below one key at most, and the root is no node's. -/
structure Links (key : Node → Key) (below : Key → List Node) (all : List Node) (root : Key) :
    Prop where
  mem : ∀ k, ∀ node ∈ below k, node ∈ all
  nodup : (all.map key).Nodup
  parent : ∀ k l node, node ∈ below k → node ∈ below l → k = l
  root : ∀ node ∈ all, key node ≠ root

/-- Links lead from the root to the node. -/
inductive Reached (key : Node → Key) (below : Key → List Node) (root : Key) : Node → Prop
  | top {node : Node} (h : node ∈ below root) : Reached key below root node
  | under {a b : Node} (ha : Reached key below root a) (h : b ∈ below (key a)) :
      Reached key below root b

variable {all : List Node} {root : Key} {a b : Node}

/-- The trees, and beside them what was not come to. -/
def withOthers [DecidableEq Key] (key : Node → Key) (all : List Node) (trees : List (Tree Node))
    (visited : List Key) : List (Tree Node) :=
  trees ++ (all.filter fun node => key node ∉ visited).map fun node => .node node []

namespace Links

theorem eq_of_key (h : Links key below all root) (ha : a ∈ all) (hb : b ∈ all)
    (hkey : key a = key b) : a = b :=
  List.inj_on_of_nodup_map h.nodup ha hb hkey

theorem mem_all (h : Links key below all root)
    (hgrown : Grown key below (below root) [] trees visited) : ∀ a ∈ allValues trees, a ∈ all := by
  intro a ha
  rcases top_or_under ha with htop | ⟨b, -, hedge⟩
  · exact h.mem root a (hgrown.tops a htop)
  · exact h.mem (key b) a (hgrown.linked b a hedge)

/-- A node that has been visited has a tree. -/
theorem mem_values (h : Links key below all root)
    (hgrown : Grown key below (below root) [] trees visited) (ha : a ∈ all)
    (hvisited : key a ∈ visited) : a ∈ allValues trees := by
  rcases (hgrown.visited_iff _).mp hvisited with hnil | hmem
  · cases hnil
  · obtain ⟨b, hb, hkey⟩ := List.mem_map.mp hmem
    rwa [← h.eq_of_key (h.mem_all hgrown b hb) ha hkey]

/-- Every node stands in the forest, once. -/
theorem perm_withOthers [DecidableEq Key] (h : Links key below all root)
    (hgrown : Grown key below (below root) [] trees visited) :
    (allValues (withOthers key all trees visited)).Perm all := by
  have hall := h.nodup.of_map key
  rw [withOthers, allValues_append, allValues_leaves]
  have hnodup : (allValues trees ++ all.filter fun node => key node ∉ visited).Nodup := by
    refine List.nodup_append.mpr ⟨hgrown.nodup.of_map key, hall.filter _, ?_⟩
    rintro a ha b hb rfl
    have hfresh := of_decide_eq_true (List.mem_filter.mp hb).2
    exact hfresh (hgrown.visit a ha)
  refine (List.perm_ext_iff_of_nodup hnodup hall).mpr fun a => ?_
  rw [List.mem_append, List.mem_filter, decide_eq_true_eq]
  constructor
  · rintro (ha | ⟨ha, -⟩)
    · exact h.mem_all hgrown a ha
    · exact ha
  · intro ha
    by_cases hvisited : key a ∈ visited
    · exact .inl (h.mem_values hgrown ha hvisited)
    · exact .inr ⟨ha, hvisited⟩

theorem mem_of_reached (h : Links key below all root) (ha : Reached key below root a) :
    a ∈ all := by
  cases ha with
  | top hmem => exact h.mem root a hmem
  | under hb hmem => exact h.mem _ a hmem

/-- What is reached is visited. -/
theorem visit_of_reached (h : Links key below all root)
    (hgrown : Grown key below (below root) [] trees visited) (ha : Reached key below root a) :
    key a ∈ visited := by
  induction ha with
  | top hmem => exact hgrown.covered _ hmem
  | under hb hmem ih =>
      exact hgrown.closed _ (h.mem_values hgrown (h.mem_of_reached hb) ih) _ hmem

/-- What is below the root is at the top. -/
theorem top_of_below (h : Links key below all root)
    (hgrown : Grown key below (below root) [] trees visited) (hb : b ∈ below root) :
    b ∈ trees.map value := by
  have hvalue := h.mem_values hgrown (h.mem root b hb) (hgrown.covered b hb)
  rcases top_or_under hvalue with htop | ⟨c, hc, hedge⟩
  · exact htop
  · have hroot := h.parent _ _ b (hgrown.linked c b hedge) hb
    exact absurd hroot (h.root c (h.mem_all hgrown c hc))

/-- What is below a node that is reached is directly under it. -/
theorem edge_of_reached (h : Links key below all root)
    (hgrown : Grown key below (below root) [] trees visited) (ha : Reached key below root a)
    (hb : b ∈ below (key a)) : (a, b) ∈ edges trees := by
  have hvisited := h.visit_of_reached hgrown (.under ha hb)
  have hmem := h.mem_of_reached ha
  rcases top_or_under (h.mem_values hgrown (h.mem _ b hb) hvisited) with htop | ⟨c, hc, hedge⟩
  · have hroot := h.parent _ _ b hb (hgrown.tops b htop)
    exact absurd hroot (h.root a hmem)
  · have hkey := h.parent _ _ b (hgrown.linked c b hedge) hb
    rwa [← h.eq_of_key (h.mem_all hgrown c hc) hmem hkey]

end Links

end Rustrak.Forest
