import Rustrak.Grouping.Groups

/-!
# Malformed exception groups

`filter_exception_groups` ends on any input, keeps entries of the input only, and names no
exception that is not there.

A malformed tree is to leave the chain untouched.  The filter looks at each id by itself, so
it takes entries that are no part of the tree for a tree with entries to drop.
-/

namespace Rustrak.Grouping

open Rustrak.Core

variable {values : List Value} {id : Nat} {e root : Value} {found : Walk}

/-! ## Only what was there -/

/-- Where several exceptions are left, the root is a group. -/
theorem Passes.root_group (h : Passes values root found)
    (hne : ∀ inner, distinctSiblings found.1 ≠ [inner]) : isExceptionGroup root = true := by
  by_contra hnot
  have hfound := topLevel_outer (Bool.eq_false_iff.mpr hnot) h.walked
  exact hne root (by rw [hfound]; rfl)

theorem Passes.inner_mem (h : Passes values root found) {inner : Value}
    (hinner : distinctSiblings found.1 = [inner]) : inner ∈ values :=
  ((mem_topLevel h.walked).mp (mem_of_mem_distinctSiblings
    (hinner ▸ List.mem_singleton_self inner))).1.mem (rootOf_mem h.isRoot).1

/-- The ids form one tree: the entry of id 0 has no parent, and every other entry is one level
below its own. -/
structure TreeOf (values : List Value) (level : Nat → Nat) : Prop where
  own : OwnIds values
  root : ∃ root ∈ values, idOf root = some 0
  origin : level 0 = 0
  orphan : ∀ e ∈ values, parentOf e = none → idOf e = some 0
  parent : ∀ e ∈ values, ∀ parent, parentOf e = some parent → ∃ p ∈ values, idOf p = some parent
  below : ∀ e ∈ values, ∀ id parent, idOf e = some id → parentOf e = some parent →
    level id = level parent + 1

/-- The entries already stand as the filter would put them: the children of a group at the root,
the greatest first, and the root after them. -/
def InOrder (values : List Value) : Prop :=
  ∃ others root, values = others ++ [root] ∧ idOf root = some 0 ∧ isExceptionGroup root = true ∧
    2 ≤ others.length ∧ (others.Pairwise fun a b => rank b < rank a) ∧
    ∀ e ∈ others, parentOf e = some 0 ∧ isExceptionGroup e = false

/-- Where the root is the only group, a walk from it comes to the children of the root. -/
theorem mem_others_of_under {others : List Value} (hown : OwnIds values)
    (hvalues : values = others ++ [root]) (hroot : idOf root = some 0)
    (hgroup : isExceptionGroup root = true) (hothers : ∀ e ∈ others, isExceptionGroup e = false)
    (hunder : Under values root e) (he : isExceptionGroup e = false) :
    e ∈ others ∧ parentOf e = some 0 := by
  cases hunder with
  | self => exact absurd (he.symm.trans hgroup) Bool.false_ne_true
  | @down _ child _ id _ hkey hchild hunder =>
      obtain rfl := Option.some.inj (hroot.symm.trans hkey)
      obtain ⟨hmem, hparent⟩ := mem_childrenOf.mp hchild
      have hother : child ∈ others := by
        rw [hvalues] at hmem
        refine (List.mem_append.mp hmem).resolve_right fun hmem' => ?_
        obtain rfl := List.mem_singleton.mp hmem'
        exact hown.other child (mem_childrenOf.mp hchild).1 (hparent.trans hroot.symm)
      cases hunder with
      | self => exact ⟨hother, hparent⟩
      | down hinner => exact absurd ((hothers child hother).symm.trans hinner) Bool.false_ne_true

theorem Passes.inOrder (h : Passes values root found)
    (heq : filterExceptionGroups values = (values, none)) : InOrder values := by
  by_cases hsingle : ∃ inner, distinctSiblings found.1 = [inner]
  · obtain ⟨inner, hinner⟩ := hsingle
    obtain ⟨path, -, hpath⟩ := h.filter_single hinner
    obtain ⟨id, hid⟩ := h.own.keyed inner (h.inner_mem hinner)
    have hnone := congrArg Prod.snd (hpath.symm.trans heq)
    exact absurd (hid.symm.trans hnone) (Option.some_ne_none _)
  · have hne : ∀ inner, distinctSiblings found.1 ≠ [inner] := fun inner hinner =>
      hsingle ⟨inner, hinner⟩
    have hvalues := congrArg Prod.fst (heq.symm.trans (h.filter_several hne))
    have hroot := (rootOf_mem h.isRoot).2
    have hgroup := h.root_group hne
    have hkept : ∀ e ∈ distinctSiblings found.1,
        Under values root e ∧ isExceptionGroup e = false := fun e he =>
      (mem_topLevel h.walked).mp (mem_of_mem_distinctSiblings he)
    refine ⟨distinctSiblings found.1, root, hvalues, hroot, hgroup, ?_,
      distinctSiblings_pairwise found.1, fun e he => ?_⟩
    · have hpos := List.length_pos_iff.mpr (distinctSiblings_ne_nil h.nonempty)
      have hne1 : (distinctSiblings found.1).length ≠ 1 := fun hlength =>
        hsingle (List.length_eq_one_iff.mp hlength)
      omega
    · obtain ⟨hunder, houter⟩ := hkept e he
      exact ⟨(mem_others_of_under h.own hvalues hroot hgroup (fun e he => (hkept e he).2) hunder
        houter).2, houter⟩

end Rustrak.Grouping
