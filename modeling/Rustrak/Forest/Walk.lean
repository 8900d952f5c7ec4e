import Mathlib.Data.List.Nodup
import Mathlib.Data.List.Perm.Subperm
import Mathlib.Data.Option.Basic
import Mathlib.Tactic.Common

/-!
# Walks down a forest

Nodes have a key, or none, and the children of a node are found by its key.  A walk goes down
from a node through the `inner` ones and gathers the others.  It carries the keys it has been
at, gives up when it comes to one of them again, and goes so many levels deep at most.

`gather` is the same walk without the keys it has been at.  The walk is that, as long as no key
comes twice (`walk_eq_gather`).
-/

namespace Rustrak.Forest

variable {Node Key : Type*}

/-- What has been gathered and the keys that have been walked. -/
abbrev Found (Node Key : Type*) := List Node × List Key

section Definitions

variable (key : Node → Option Key) (inner : Node → Bool) (children : Key → List Node)

def walk [DecidableEq Key] : Nat → Node → Found Node Key → Option (Found Node Key)
  | depth, node, (out, visited) =>
      if !inner node then some (out ++ [node], visited)
      else
        match depth with
        | 0 => none
        | depth + 1 =>
            match key node with
            | none => some (out, visited)
            | some k =>
                if k ∈ visited then none
                else (children k).foldlM (fun found child => walk depth child found)
                  (out, k :: visited)

/-- One walk after the other. -/
def merge (x y : Option (Found Node Key)) : Option (Found Node Key) :=
  x.bind fun a => y.map fun b => (a.1 ++ b.1, a.2 ++ b.2)

def gather : Nat → Node → Option (Found Node Key)
  | depth, node =>
      if !inner node then some ([node], [])
      else
        match depth with
        | 0 => none
        | depth + 1 =>
            match key node with
            | none => some ([], [])
            | some k =>
                ((children k).foldr (fun child found => merge (gather depth child) found)
                  (some ([], []))).map fun found => (found.1, k :: found.2)

/-- A node that is come to from another through inner ones. -/
inductive Under : Node → Node → Prop
  | self (node : Node) : Under node node
  | down {node child last : Node} {k : Key} (hinner : inner node = true)
      (hkey : key node = some k) (hchild : child ∈ children k) (h : Under child last) :
      Under node last

end Definitions

variable {key : Node → Option Key} {inner : Node → Bool} {children children' : Key → List Node}
  {node : Node} {depth : Nat}

/-- The walks from some nodes, one after the other. -/
def gatherAll (key : Node → Option Key) (inner : Node → Bool) (children : Key → List Node)
    (depth : Nat) (nodes : List Node) : Option (Found Node Key) :=
  nodes.foldr (fun child found => merge (gather key inner children depth child) found)
    (some ([], []))

theorem gather_outer (h : inner node = false) :
    gather key inner children depth node = some ([node], []) := by
  cases depth <;> simp [gather, h]

theorem gather_zero (h : inner node = true) : gather key inner children 0 node = none := by
  simp [gather, h]

theorem gather_keyless (h : inner node = true) (hkey : key node = none) :
    gather key inner children (depth + 1) node = some ([], []) := by
  simp [gather, h, hkey]

theorem gather_succ {k : Key} (h : inner node = true) (hkey : key node = some k) :
    gather key inner children (depth + 1) node =
      (gatherAll key inner children depth (children k)).map
        fun found => (found.1, k :: found.2) := by
  simp [gather, gatherAll, h, hkey]

/-! ### The walk and what it gathers -/

/-- What a walk adds to what has been found before, unless it comes to a key again. -/
def extend [DecidableEq Key] (before found : Found Node Key) : Option (Found Node Key) :=
  if found.2.Nodup ∧ ∀ k ∈ found.2, k ∉ before.2 then
    some (before.1 ++ found.1, found.2.reverse ++ before.2)
  else none

section Walk

variable [DecidableEq Key] {before a b : Found Node Key} {nodes : List Node}

theorem extend_bind_extend :
    ((extend before a).bind fun mid => extend mid b) = extend before (a.1 ++ b.1, a.2 ++ b.2) := by
  unfold extend
  by_cases ha : a.2.Nodup ∧ ∀ k ∈ a.2, k ∉ before.2
  · rw [if_pos ha, Option.bind_some]
    have hiff : (b.2.Nodup ∧ ∀ k ∈ b.2, k ∉ a.2.reverse ++ before.2) ↔
        ((a.2 ++ b.2).Nodup ∧ ∀ k ∈ a.2 ++ b.2, k ∉ before.2) := by
      rw [List.nodup_append]
      simp only [List.mem_append, List.mem_reverse, not_or]
      constructor
      · rintro ⟨hnodup, hb⟩
        refine ⟨⟨ha.1, hnodup, fun k hk l hl heq => (hb l hl).1 (heq ▸ hk)⟩, ?_⟩
        rintro k (hk | hk)
        · exact ha.2 k hk
        · exact (hb k hk).2
      · rintro ⟨⟨-, hnodup, hne⟩, hb⟩
        exact ⟨hnodup, fun k hk => ⟨fun hk' => hne k hk' k hk rfl, hb k (Or.inr hk)⟩⟩
    rw [if_congr hiff rfl rfl]
    simp only [List.append_assoc, List.reverse_append]
  · rw [if_neg ha, Option.bind_none, if_neg]
    rintro ⟨hnodup, hall⟩
    exact ha ⟨(List.nodup_append.mp hnodup).1, fun k hk => hall k (List.mem_append_left _ hk)⟩

theorem extend_nil : extend before ([], []) = some before := by
  simp [extend]

theorem extend_cons {k : Key} :
    (if k ∈ before.2 then none else extend (before.1, k :: before.2) a) =
      extend before (a.1, k :: a.2) := by
  unfold extend
  by_cases hk : k ∈ before.2
  · rw [if_pos hk, if_neg]
    exact fun h => h.2 k (List.mem_cons_self ..) hk
  · have hiff : (a.2.Nodup ∧ ∀ l ∈ a.2, l ∉ k :: before.2) ↔
        ((k :: a.2).Nodup ∧ ∀ l ∈ k :: a.2, l ∉ before.2) := by
      rw [List.nodup_cons, List.forall_mem_cons]
      simp only [List.mem_cons, not_or]
      constructor
      · rintro ⟨hnodup, hall⟩
        exact ⟨⟨fun hmem => (hall k hmem).1 rfl, hnodup⟩, hk, fun l hl => (hall l hl).2⟩
      · rintro ⟨⟨hnot, hnodup⟩, -, hall⟩
        exact ⟨hnodup, fun l hl => ⟨fun heq => hnot (heq ▸ hl), hall l hl⟩⟩
    rw [if_neg hk, if_congr hiff rfl rfl]
    simp only [List.reverse_cons, List.append_assoc, List.cons_append, List.nil_append]

theorem foldlM_walk_eq_gatherAll
    (ih : ∀ (node : Node) (before : Found Node Key),
      walk key inner children depth node before =
        (gather key inner children depth node).bind (extend before)) :
    nodes.foldlM (fun found child => walk key inner children depth child found) before =
      (gatherAll key inner children depth nodes).bind (extend before) := by
  induction nodes generalizing before with
  | nil => exact extend_nil.symm
  | cons node rest ihrest =>
      rw [List.foldlM_cons, ih, gatherAll, List.foldr_cons]
      change (((gather key inner children depth node).bind (extend before)).bind fun found =>
        rest.foldlM (fun found child => walk key inner children depth child found) found) = _
      cases gather key inner children depth node with
      | none => rfl
      | some a =>
          simp only [Option.bind_some, ihrest]
          change _ = (merge (some a) (gatherAll key inner children depth rest)).bind _
          cases gatherAll key inner children depth rest with
          | none => simp [merge]
          | some b =>
              simp only [Option.bind_some, merge, Option.map_some]
              exact extend_bind_extend

/-- A walk finds what there is to gather, unless it comes to a key again. -/
theorem walk_eq_gather (before : Found Node Key) :
    walk key inner children depth node before =
      (gather key inner children depth node).bind (extend before) := by
  induction depth generalizing node before with
  | zero =>
      cases hinner : inner node with
      | false => simp [walk, gather_outer hinner, hinner, extend]
      | true => simp [walk, gather_zero hinner, hinner]
  | succ depth ih =>
      cases hinner : inner node with
      | false => simp [walk, gather_outer hinner, hinner, extend]
      | true =>
          cases hkey : key node with
          | none => simp [walk, gather_keyless hinner hkey, hinner, hkey, extend]
          | some k =>
              rw [gather_succ hinner hkey, walk, hinner, hkey]
              simp only [Bool.not_true, Bool.false_eq_true, if_false]
              rw [foldlM_walk_eq_gatherAll fun node before => ih before]
              cases gatherAll key inner children depth (children k) with
              | none => simp
              | some found =>
                  simp only [Option.map_some, Option.bind_some]
                  exact extend_cons

end Walk

/-! ### What is gathered -/

section Gather

variable {found : Found Node Key} {nodes : List Node} {last : Node}

theorem gatherAll_cons_eq_some {rest : List Node} :
    gatherAll key inner children depth (node :: rest) = some found ↔
      ∃ a b, gather key inner children depth node = some a ∧
        gatherAll key inner children depth rest = some b ∧
        found = (a.1 ++ b.1, a.2 ++ b.2) := by
  rw [gatherAll, List.foldr_cons, merge, Option.bind_eq_some_iff]
  simp only [Option.map_eq_some_iff]
  constructor
  · rintro ⟨a, ha, b, hb, rfl⟩
    exact ⟨a, b, ha, hb, rfl⟩
  · rintro ⟨a, b, ha, hb, rfl⟩
    exact ⟨a, ha, b, hb, rfl⟩

/-- What a walk has come to: the node itself, nothing, or what is below it. -/
theorem gather_cases (h : gather key inner children depth node = some found) :
    (inner node = false ∧ found = ([node], [])) ∨
    (inner node = true ∧ key node = none ∧ found = ([], [])) ∨
    (inner node = true ∧ ∃ k depth' below, key node = some k ∧ depth = depth' + 1 ∧
      gatherAll key inner children depth' (children k) = some below ∧
      found = (below.1, k :: below.2)) := by
  cases hinner : inner node with
  | false => exact Or.inl ⟨rfl, Option.some.inj (h.symm.trans (gather_outer hinner))⟩
  | true =>
      refine Or.inr ?_
      cases depth with
      | zero => exact absurd ((gather_zero hinner).symm.trans h) (Option.some_ne_none _).symm
      | succ depth =>
          cases hkey : key node with
          | none =>
              exact Or.inl ⟨rfl, rfl, Option.some.inj (h.symm.trans (gather_keyless hinner hkey))⟩
          | some k =>
              rw [gather_succ hinner hkey, Option.map_eq_some_iff] at h
              obtain ⟨below, hbelow, rfl⟩ := h
              exact Or.inr ⟨rfl, k, depth, below, rfl, rfl, hbelow, rfl⟩

theorem mem_gatherAll
    (ih : ∀ node ∈ nodes, ∀ found : Found Node Key,
      gather key inner children depth node = some found →
        (last ∈ found.1 ↔ Under key inner children node last ∧ inner last = false))
    (h : gatherAll key inner children depth nodes = some found) :
    last ∈ found.1 ↔ ∃ node ∈ nodes, Under key inner children node last ∧ inner last = false := by
  induction nodes generalizing found with
  | nil =>
      obtain rfl := Option.some.inj h
      simp
  | cons node rest ihrest =>
      obtain ⟨a, b, ha, hb, rfl⟩ := gatherAll_cons_eq_some.mp h
      rw [List.mem_append, ih node (List.mem_cons_self ..) a ha,
        ihrest (fun other hother => ih other (List.mem_cons_of_mem _ hother)) hb]
      simp only [List.mem_cons, exists_eq_or_imp]

/-- A walk finds the nodes that are not inner and that it can come to. -/
theorem mem_gather (h : gather key inner children depth node = some found) :
    last ∈ found.1 ↔ Under key inner children node last ∧ inner last = false := by
  induction depth using Nat.strongRecOn generalizing node found with
  | ind depth ih =>
      rcases gather_cases h with ⟨hinner, rfl⟩ | ⟨hinner, hkey, rfl⟩ |
        ⟨hinner, k, depth', below, hkey, rfl, hbelow, rfl⟩
      · rw [List.mem_singleton]
        constructor
        · rintro rfl
          exact ⟨.self _, hinner⟩
        · rintro ⟨hunder, -⟩
          cases hunder with
          | self => rfl
          | down htrue => exact absurd (hinner.symm.trans htrue) Bool.false_ne_true
      · refine ⟨fun hmem => absurd hmem List.not_mem_nil, ?_⟩
        rintro ⟨hunder, hlast⟩
        cases hunder with
        | self => exact absurd (hlast.symm.trans hinner) Bool.false_ne_true
        | down _ hkey' => exact absurd (hkey.symm.trans hkey') (Option.some_ne_none _).symm
      · rw [mem_gatherAll (fun child _ found => ih depth' (Nat.lt_succ_self _)) hbelow]
        constructor
        · rintro ⟨child, hchild, hunder, hlast⟩
          exact ⟨.down hinner hkey hchild hunder, hlast⟩
        · rintro ⟨hunder, hlast⟩
          cases hunder with
          | self => exact absurd (hlast.symm.trans hinner) Bool.false_ne_true
          | down _ hkey' hchild hunder =>
              obtain rfl := Option.some.inj (hkey.symm.trans hkey')
              exact ⟨_, hchild, hunder, hlast⟩

end Gather

end Rustrak.Forest
