import Mathlib.Data.Prod.Lex
import Mathlib.Data.String.Basic
import Rustrak.Forest.Levels
import Rustrak.Grouping.Chain

/-!
# What the filter of exception groups keeps

`filter_exception_groups` walks the exceptions as a forest: `collect_top_level` is
`Forest.walk` and `collect_first_path` is `Forest.firstPath`, with the exception ids as keys.
What the first finds is sorted and of equal neighbours one is kept, so what is left descends
strictly by type and value.

The filter checks that every entry has an id of its own, and never that the entries hang
together.  Where it goes through, every entry the walk does not come to is dropped.
-/

namespace Rustrak.Grouping

open Rustrak.Core

abbrev idOf (exception : Value) : Option Nat := mechanismId exception "exception_id"

abbrev parentOf (exception : Value) : Option Nat := mechanismId exception "parent_id"

/-! ## Type and value -/

/-- What siblings are sorted by. -/
def rank (exception : Value) : String ×ₗ String := toLex (typeAndValueOf exception)

theorem rank_inj {a b : Value} : rank a = rank b ↔ typeAndValueOf a = typeAndValueOf b := by
  rw [rank, rank, toLex_inj]

theorem byTypeAndValue_iff {a b : Value} : byTypeAndValue a b = true ↔ rank b ≤ rank a := by
  simp only [byTypeAndValue, rank, Prod.Lex.le_iff, ofLex_toLex, Bool.or_eq_true,
    decide_eq_true_eq, Bool.and_eq_true, beq_iff_eq, Bool.not_eq_true', decide_eq_false_iff_not,
    not_lt]
  exact or_congr Iff.rfl (and_congr_left fun _ => eq_comm)

/-- The siblings as the filter sorts them, the greatest first. -/
def sortSiblings (found : List Value) : List Value :=
  found.insertionSort fun a b => byTypeAndValue a b

theorem sortSiblings_perm (found : List Value) : (sortSiblings found).Perm found :=
  List.perm_insertionSort _ found

theorem mem_sortSiblings {found : List Value} {e : Value} : e ∈ sortSiblings found ↔ e ∈ found :=
  (sortSiblings_perm found).mem_iff

theorem sortSiblings_pairwise (found : List Value) :
    (sortSiblings found).Pairwise fun a b => rank b ≤ rank a := by
  have : Std.Total fun a b : Value => byTypeAndValue a b = true :=
    ⟨fun a b => by simpa only [byTypeAndValue_iff] using le_total (rank b) (rank a)⟩
  have : IsTrans Value fun a b => byTypeAndValue a b = true :=
    ⟨fun a b c hab hbc => by
      rw [byTypeAndValue_iff] at hab hbc ⊢
      exact hbc.trans hab⟩
  exact (List.pairwise_insertionSort (fun a b : Value => byTypeAndValue a b = true) found).imp
    fun h => byTypeAndValue_iff.mp h

theorem dedupSiblings_sublist (found : List Value) : (dedupSiblings found).Sublist found := by
  induction found with
  | nil => exact List.Sublist.refl _
  | cons e rest ih =>
      rw [dedupSiblings]
      cases hrest : dedupSiblings rest with
      | nil => exact (List.nil_sublist rest).cons_cons e
      | cons next others =>
          rw [hrest] at ih
          dsimp only
          split_ifs
          · exact ((List.sublist_cons_self next others).trans ih).cons_cons e
          · exact ih.cons_cons e

/-- Of every type and value one exception is kept. -/
theorem exists_mem_dedupSiblings {found : List Value} {e : Value} (h : e ∈ found) :
    ∃ kept ∈ dedupSiblings found, typeAndValueOf kept = typeAndValueOf e := by
  induction found with
  | nil => exact absurd h List.not_mem_nil
  | cons first rest ih =>
      rw [dedupSiblings]
      rcases List.mem_cons.mp h with rfl | hrest
      · refine ⟨e, ?_, rfl⟩
        cases dedupSiblings rest with
        | nil => exact List.mem_cons_self ..
        | cons next others =>
            dsimp only
            split_ifs <;> exact List.mem_cons_self ..
      · obtain ⟨kept, hkept, heq⟩ := ih hrest
        cases hd : dedupSiblings rest with
        | nil =>
            rw [hd] at hkept
            exact absurd hkept List.not_mem_nil
        | cons next others =>
            rw [hd] at hkept
            dsimp only
            split_ifs with hsame
            · rcases List.mem_cons.mp hkept with rfl | hothers
              · exact ⟨first, List.mem_cons_self .., hsame.trans heq⟩
              · exact ⟨kept, List.mem_cons_of_mem _ hothers, heq⟩
            · exact ⟨kept, List.mem_cons_of_mem _ hkept, heq⟩

/-- What is left of sorted siblings descends strictly. -/
theorem dedupSiblings_pairwise {found : List Value}
    (h : found.Pairwise fun a b => rank b ≤ rank a) :
    (dedupSiblings found).Pairwise fun a b => rank b < rank a := by
  induction found with
  | nil => exact List.Pairwise.nil
  | cons e rest ih =>
      obtain ⟨hfirst, hrest⟩ := List.pairwise_cons.mp h
      have hsub := dedupSiblings_sublist rest
      have hstrict := ih hrest
      rw [dedupSiblings]
      cases hd : dedupSiblings rest with
      | nil => exact List.pairwise_singleton _ _
      | cons next others =>
          rw [hd] at hsub hstrict
          have hnext := List.pairwise_cons.mp hstrict
          have hle := hfirst next (hsub.subset (List.mem_cons_self ..))
          dsimp only
          split_ifs with hsame
          · refine List.pairwise_cons.mpr ⟨fun other hother => ?_, hnext.2⟩
            rw [rank_inj.mpr hsame]
            exact hnext.1 other hother
          · have hlt : rank next < rank e :=
              lt_of_le_of_ne hle fun heq => hsame (rank_inj.mp heq).symm
            exact List.pairwise_cons.mpr ⟨List.forall_mem_cons.mpr
              ⟨hlt, fun other hother => (hnext.1 other hother).trans hlt⟩, hstrict⟩

/-- The siblings that are kept, the greatest first. -/
def distinctSiblings (found : List Value) : List Value := dedupSiblings (sortSiblings found)

theorem distinctSiblings_pairwise (found : List Value) :
    (distinctSiblings found).Pairwise fun a b => rank b < rank a :=
  dedupSiblings_pairwise (sortSiblings_pairwise found)

theorem mem_of_mem_distinctSiblings {found : List Value} {e : Value}
    (h : e ∈ distinctSiblings found) : e ∈ found :=
  mem_sortSiblings.mp ((dedupSiblings_sublist _).subset h)

theorem exists_mem_distinctSiblings {found : List Value} {e : Value} (h : e ∈ found) :
    ∃ kept ∈ distinctSiblings found, typeAndValueOf kept = typeAndValueOf e :=
  exists_mem_dedupSiblings (mem_sortSiblings.mpr h)

theorem distinctSiblings_ne_nil {found : List Value} (h : found ≠ []) :
    distinctSiblings found ≠ [] := by
  obtain ⟨e, he⟩ := List.exists_mem_of_ne_nil found h
  obtain ⟨kept, hkept, -⟩ := exists_mem_distinctSiblings he
  exact List.ne_nil_of_mem hkept

/-! ## The entries as a forest -/

variable {values : List Value} {id : Nat} {e root : Value} {found : Walk}

theorem collectTopLevel_eq_walk (children : Nat → List Value) (depth : Nat) (walk : Walk) :
    collectTopLevel children depth e walk =
      Forest.walk idOf isExceptionGroup children depth e walk := by
  induction depth generalizing e walk with
  | zero => rfl
  | succ depth ih =>
      rw [collectTopLevel, Forest.walk]
      simp only [ih, idOf]
      cases mechanismId e "exception_id" <;> rfl

theorem mem_childrenOf : e ∈ childrenOf values id ↔ e ∈ values ∧ parentOf e = some id := by
  rw [childrenOf, List.mem_filter, List.mem_reverse, decide_eq_true_iff]

/-- The ids can be trusted: every entry has its own, and none is its own parent. -/
structure OwnIds (values : List Value) : Prop where
  keyed : ∀ e ∈ values, ∃ id, idOf e = some id
  unique : ∀ a ∈ values, ∀ b ∈ values, ∀ id, idOf a = some id → idOf b = some id → a = b
  nodup : values.Nodup
  other : ∀ e ∈ values, parentOf e ≠ idOf e

theorem hasOwnIds_iff : hasOwnIds values = true ↔ OwnIds values := by
  simp only [hasOwnIds, Bool.and_eq_true, List.all_eq_true, decide_eq_true_eq, bne_iff_ne]
  constructor
  · rintro ⟨hall, hnodup⟩
    refine ⟨fun e he => Option.isSome_iff_exists.mp (hall e he).1, ?_, hnodup.of_map,
      fun e he => (hall e he).2⟩
    exact fun a ha b hb id hida hidb => List.inj_on_of_nodup_map hnodup ha hb
      (hida.trans hidb.symm)
  · intro h
    refine ⟨fun e he => ⟨Option.isSome_iff_exists.mpr (h.keyed e he), h.other e he⟩, ?_⟩
    refine h.nodup.map_on fun a ha b hb heq => ?_
    obtain ⟨id, hid⟩ := h.keyed a ha
    exact h.unique a ha b hb id hid (heq.symm.trans hid)

theorem childrenOf_unique {l : Nat} (hk : e ∈ childrenOf values id) (hl : e ∈ childrenOf values l) :
    id = l :=
  Option.some.inj ((mem_childrenOf.mp hk).2.symm.trans (mem_childrenOf.mp hl).2)

theorem OwnIds.nodup_childrenOf (h : OwnIds values) : (childrenOf values id).Nodup :=
  (List.nodup_reverse.mpr h.nodup).filter _

/-- The root of the entries. -/
def rootOf (values : List Value) : Option Value :=
  values.find? fun e => mechanismId e "exception_id" = some 0

theorem rootOf_mem (h : rootOf values = some root) : root ∈ values ∧ idOf root = some 0 :=
  ⟨List.mem_of_find?_eq_some h, by simpa using List.find?_some h⟩

/-- What `collect_top_level` finds from the root. -/
def topLevel (values : List Value) (root : Value) : Option Walk :=
  collectTopLevel (childrenOf values) maxExceptionTreeDepth root ([], [])

/-- The path from an exception that `collect_first_path` finds. -/
def pathFrom (values : List Value) (e : Value) : Option Walk :=
  collectFirstPath (childrenOf values) maxExceptionTreeDepth e ([], [])

/-- Every check of the filter passes: it has found something, and a path where that is one
exception. -/
structure Passes (values : List Value) (root : Value) (found : Walk) : Prop where
  several : 1 < values.length
  own : OwnIds values
  isRoot : rootOf values = some root
  walked : topLevel values root = some found
  nonempty : found.1 ≠ []
  path : ∀ inner, distinctSiblings found.1 = [inner] → (pathFrom values inner).isSome

/-- What the filter makes of the siblings that are left. -/
private def keepDistinct (values : List Value) (root : Value) :
    List Value → Option (List Value × Option Nat)
  | [inner] => (pathFrom values inner).map fun path => (path.1, idOf inner)
  | distinct => some (distinct ++ [root], none)

private def filtered (values : List Value) : Option (List Value × Option Nat) :=
  if 1 < values.length && hasOwnIds values then
    (rootOf values).bind fun root => (topLevel values root).bind fun found =>
      if found.1 = [] then none else keepDistinct values root (distinctSiblings found.1)
  else none

private theorem filterExceptionGroups_eq (values : List Value) :
    filterExceptionGroups values = (filtered values).getD (values, none) := by
  rw [filterExceptionGroups, filtered]
  congr 1
  by_cases hguard : (1 < values.length && hasOwnIds values) = true
  · rw [if_pos hguard, guard, if_pos hguard]
    change (rootOf values).bind _ = _
    refine Option.bind_congr fun root _ => ?_
    change (topLevel values root).bind _ = _
    refine Option.bind_congr fun found _ => ?_
    obtain ⟨found, visited⟩ := found
    cases found with
    | nil => rfl
    | cons first rest =>
        change (match distinctSiblings (first :: rest) with
          | [inner] => _
          | distinct => _) = _
        rw [if_neg (List.cons_ne_nil first rest)]
        rcases distinctSiblings (first :: rest) with _ | ⟨inner, _ | ⟨next, others⟩⟩
        · rfl
        · change (pathFrom values inner).bind _ = (pathFrom values inner).map _
          cases pathFrom values inner <;> rfl
        · rfl
  · rw [if_neg hguard, guard, if_neg hguard]
    rfl

namespace Passes

variable {inner : Value}

private theorem filterExceptionGroups_eq (h : Passes values root found) :
    filterExceptionGroups values =
      (keepDistinct values root (distinctSiblings found.1)).getD (values, none) := by
  have hguard : (1 < values.length && hasOwnIds values) = true :=
    Bool.and_eq_true_iff.mpr ⟨decide_eq_true h.several, hasOwnIds_iff.mpr h.own⟩
  rw [Grouping.filterExceptionGroups_eq, filtered, if_pos hguard, h.isRoot, Option.bind_some,
    h.walked, Option.bind_some, if_neg h.nonempty]

/-- One exception is left: it and its first path are kept. -/
theorem filter_single (h : Passes values root found) (hinner : distinctSiblings found.1 = [inner]) :
    ∃ path, pathFrom values inner = some path ∧
      filterExceptionGroups values = (path.1, idOf inner) := by
  obtain ⟨path, hpath⟩ := Option.isSome_iff_exists.mp (h.path inner hinner)
  refine ⟨path, hpath, ?_⟩
  rw [h.filterExceptionGroups_eq, hinner, keepDistinct, hpath]
  rfl

/-- Several are left: they are kept, and the root after them. -/
theorem filter_several (h : Passes values root found)
    (hne : ∀ inner, distinctSiblings found.1 ≠ [inner]) :
    filterExceptionGroups values = (distinctSiblings found.1 ++ [root], none) := by
  rw [h.filterExceptionGroups_eq]
  rcases hd : distinctSiblings found.1 with _ | ⟨inner, _ | ⟨next, others⟩⟩
  · rfl
  · exact absurd hd (hne inner)
  · rfl

end Passes

/-! ## What the walks come to -/

/-- An exception that the walk down the groups comes to from another. -/
abbrev Under (values : List Value) : Value → Value → Prop :=
  Forest.Under idOf isExceptionGroup (childrenOf values)

theorem Under.mem (h : Under values root e) (hroot : root ∈ values) : e ∈ values := by
  induction h with
  | self => exact hroot
  | down _ _ hchild _ ih => exact ih (mem_childrenOf.mp hchild).1

theorem topLevel_eq_some (h : topLevel values root = some found) :
    ∃ below, Forest.gather idOf isExceptionGroup (childrenOf values) maxExceptionTreeDepth root =
      some below ∧ below.2.Nodup ∧ found.1 = below.1 := by
  rw [topLevel, collectTopLevel_eq_walk, Forest.walk_eq_gather, Option.bind_eq_some_iff] at h
  obtain ⟨below, hbelow, hextend⟩ := h
  rw [Forest.extend] at hextend
  split_ifs at hextend with hkeys
  exact ⟨below, hbelow, hkeys.1, by rw [← Option.some.inj hextend, List.nil_append]⟩

theorem mem_topLevel (h : topLevel values root = some found) :
    e ∈ found.1 ↔ Under values root e ∧ isExceptionGroup e = false := by
  obtain ⟨below, hbelow, -, hfound⟩ := topLevel_eq_some h
  rw [hfound, Forest.mem_gather hbelow]

/-- Without a group at the root, the root is all there is to find. -/
theorem topLevel_outer (hgroup : isExceptionGroup root = false)
    (h : topLevel values root = some found) : found.1 = [root] := by
  obtain ⟨below, hbelow, -, hfound⟩ := topLevel_eq_some h
  rw [Forest.gather_outer hgroup] at hbelow
  rw [hfound, ← Option.some.inj hbelow]

end Rustrak.Grouping
