import Rustrak.Relational.Table
import Mathlib.Algebra.BigOperators.Group.Finset.Basic
import Mathlib.Algebra.BigOperators.Group.List.Lemmas
import Mathlib.Algebra.BigOperators.Ring.Finset
import Mathlib.Algebra.Order.Ring.Int
import Mathlib.Data.Finset.Card

/-!
# Grouped rows

`GROUP BY` sorts the rows of a statement by a key, and a statement without an order returns
its groups in any (`Unordered`).  The counts of the groups add up to the count of the rows.
The counts of different values do not: they add up to the count of different pairs of a key
and a value (`sum_distinct`), which is the count of different values just if none stands
under two keys (`card_keyed_eq_iff`).
-/

namespace Rustrak.Relational

/-- The order in which a statement without one returns its rows. -/
structure Unordered where
  arrange : ∀ {α : Type}, List α → List α
  perm : ∀ {α : Type} (rows : List α), (arrange rows).Perm rows

def Unordered.asFound : Unordered where
  arrange := id
  perm := fun _ => .refl _

variable {Row K V : Type*} [DecidableEq K] [DecidableEq V]

/-- `GROUP BY key`. -/
def groupBy (key : Row → K) (rows : List Row) : List (K × List Row) :=
  (rows.map key).dedup.map fun k => (k, rows.filter fun row => decide (key row = k))

/-- `COUNT(DISTINCT col)`. -/
def distinct (col : Row → Option V) (rows : List Row) : ℕ :=
  (rows.filterMap col).dedup.length

/-- The different pairs of a key and a value. -/
def keyed (key : Row → K) (col : Row → Option V) (rows : List Row) : Finset (K × V) :=
  (rows.filterMap fun row => (col row).map (key row, ·)).toFinset

variable {key : Row → K} {col : Row → Option V} {rows : List Row}

theorem distinct_eq_card (col : Row → Option V) (rows : List Row) :
    distinct col rows = (rows.filterMap col).toFinset.card :=
  (List.card_toFinset _).symm

theorem mem_keyed {pair : K × V} :
    pair ∈ keyed key col rows ↔ ∃ row ∈ rows, key row = pair.1 ∧ col row = some pair.2 := by
  obtain ⟨k, v⟩ := pair
  simp only [keyed, List.mem_toFinset, List.mem_filterMap, Option.map_eq_some_iff, Prod.mk.injEq]
  constructor
  · rintro ⟨row, hrow, v, hv, rfl, rfl⟩
    exact ⟨row, hrow, rfl, hv⟩
  · rintro ⟨row, hrow, rfl, hv⟩
    exact ⟨row, hrow, v, hv, rfl, rfl⟩

theorem map_fst_groupBy : (groupBy key rows).map Prod.fst = (rows.map key).dedup := by
  rw [groupBy, List.map_map]
  exact List.map_id _

/-- Rows of one key make one group. -/
theorem groupBy_of_forall {k : K} (hne : rows ≠ []) (h : ∀ row ∈ rows, key row = k) :
    groupBy key rows = [(k, rows)] := by
  have hkeys : (rows.map key).dedup = [k] := by
    apply List.perm_singleton.mp
    apply (List.perm_ext_iff_of_nodup (List.nodup_dedup _) (List.nodup_singleton k)).mpr
    intro k'
    rw [List.mem_dedup, List.mem_map, List.mem_singleton]
    constructor
    · rintro ⟨row, hrow, rfl⟩
      exact h row hrow
    · rintro rfl
      obtain ⟨row, hrow⟩ := List.exists_mem_of_ne_nil rows hne
      exact ⟨row, hrow, h row hrow⟩
  rw [groupBy, hkeys, List.map_singleton, List.filter_eq_self.mpr]
  exact fun row hrow => decide_eq_true (h row hrow)

/-- What the groups add up to, of those whose key qualifies. -/
theorem sum_groupBy (p : K → Bool) (f : List Row → ℕ) :
    (((groupBy key rows).filter fun g => p g.1).map fun g => f g.2).sum =
      ∑ k ∈ (rows.map key).toFinset with p k = true,
        f (rows.filter fun row => decide (key row = k)) := by
  have hnodup : ((rows.map key).dedup.filter p).Nodup := (List.nodup_dedup _).filter _
  have hset : ((rows.map key).dedup.filter p).toFinset =
      (rows.map key).toFinset.filter fun k => p k = true := by
    ext k
    simp
  rw [← hset, List.sum_toFinset _ hnodup, groupBy, List.filter_map, List.map_map]
  rfl

/-- The counts of the groups add up. -/
theorem sum_length (p : K → Bool) :
    (((groupBy key rows).filter fun g => p g.1).map fun g => g.2.length).sum =
      rows.countP fun row => p (key row) := by
  have hcount : ∀ k, (rows.filter fun row => decide (key row = k)).length =
      (rows.map key).count k := by
    intro k
    rw [← List.countP_eq_length_filter, List.count, List.countP_map]
    exact List.countP_congr fun row _ => by simp
  calc (((groupBy key rows).filter fun g => p g.1).map fun g => g.2.length).sum
      = (((rows.map key).dedup.filter p).map fun k => (rows.map key).count k).sum := by
        rw [groupBy, List.filter_map, List.map_map]
        exact congrArg List.sum (List.map_congr_left fun k _ => hcount k)
    _ = (rows.map key).countP p := List.sum_map_count_dedup_filter_eq_countP p _
    _ = rows.countP fun row => p (key row) := List.countP_map

/-- The counts of different values add up to the different pairs. -/
theorem sum_distinct (p : K → Bool) :
    (((groupBy key rows).filter fun g => p g.1).map fun g => distinct col g.2).sum =
      (keyed key col (rows.filter fun row => p (key row))).card := by
  rw [sum_groupBy]
  have hmaps : ∀ pair ∈ keyed key col (rows.filter fun row => p (key row)),
      pair.1 ∈ (rows.map key).toFinset.filter fun k => p k = true := by
    intro pair hpair
    obtain ⟨row, hrow, hkey, -⟩ := mem_keyed.mp hpair
    obtain ⟨hrow, hp⟩ := List.mem_filter.mp hrow
    rw [Finset.mem_filter, List.mem_toFinset, ← hkey]
    exact ⟨List.mem_map_of_mem hrow, hp⟩
  rw [Finset.card_eq_sum_card_fiberwise hmaps]
  refine Finset.sum_congr rfl fun k hk => ?_
  have hk := (Finset.mem_filter.mp hk).2
  rw [distinct_eq_card]
  -- In one group a pair is told by its value.
  refine Finset.card_bij (fun v _ => (k, v)) ?_ ?_ ?_
  · intro v hv
    simp only [List.mem_toFinset, List.mem_filterMap, List.mem_filter] at hv
    obtain ⟨row, ⟨hrow, hkey⟩, hv⟩ := hv
    have hkey : key row = k := by simpa using hkey
    refine Finset.mem_filter.mpr ⟨mem_keyed.mpr ⟨row, ?_, hkey, hv⟩, rfl⟩
    exact List.mem_filter.mpr ⟨hrow, by rwa [hkey]⟩
  · intro v _ v' _ heq
    exact (Prod.mk.inj heq).2
  · rintro ⟨k', v⟩ hpair
    obtain ⟨hmem, rfl⟩ := Finset.mem_filter.mp hpair
    obtain ⟨row, hrow, hkey, hv⟩ := mem_keyed.mp hmem
    refine ⟨v, ?_, rfl⟩
    simp only [List.mem_toFinset, List.mem_filterMap, List.mem_filter]
    exact ⟨row, ⟨(List.mem_filter.mp hrow).1, by simpa using hkey⟩, hv⟩

/-- They are the count of different values just if no value stands under two keys. -/
theorem card_keyed_eq_iff :
    (keyed key col rows).card = distinct col rows ↔
      ∀ row ∈ rows, ∀ row' ∈ rows, col row = col row' → (col row).isSome = true →
        key row = key row' := by
  have himage : (keyed key col rows).image Prod.snd = (rows.filterMap col).toFinset := by
    ext v
    simp only [Finset.mem_image, mem_keyed, List.mem_toFinset, List.mem_filterMap]
    constructor
    · rintro ⟨pair, ⟨row, hrow, -, hv⟩, rfl⟩
      exact ⟨row, hrow, hv⟩
    · rintro ⟨row, hrow, hv⟩
      exact ⟨(key row, v), ⟨row, hrow, rfl, hv⟩, rfl⟩
  rw [distinct_eq_card, ← himage, eq_comm, Finset.card_image_iff]
  constructor
  · intro hinj row hrow row' hrow' heq hsome
    obtain ⟨v, hv⟩ := Option.isSome_iff_exists.mp hsome
    have hpair : (key row, v) ∈ keyed key col rows := mem_keyed.mpr ⟨row, hrow, rfl, hv⟩
    have hpair' : (key row', v) ∈ keyed key col rows :=
      mem_keyed.mpr ⟨row', hrow', rfl, heq ▸ hv⟩
    exact (Prod.mk.inj (hinj hpair hpair' rfl)).1
  · rintro h ⟨k, v⟩ hpair ⟨k', v'⟩ hpair' (rfl : v = v')
    obtain ⟨row, hrow, rfl, hv⟩ := mem_keyed.mp hpair
    obtain ⟨row', hrow', rfl, hv'⟩ := mem_keyed.mp hpair'
    rw [h row hrow row' hrow' (hv.trans hv'.symm) (by rw [hv]; rfl)]

/-- The rows of each of some distinct keys, taken together. -/
theorem sum_countP_keys (ref : Row → K) (p : Row → Bool) (rows : List Row) {keys : List K}
    (hnodup : keys.Nodup) :
    (keys.map fun k => (rows.countP fun row => decide (ref row = k) && p row : Int)).sum =
      rows.countP fun row => p row && keys.contains (ref row) := by
  have hsum := countP_any_eq_sum (fun row => if p row then some (ref row) else none) rows hnodup
  have hany : (rows.countP fun row => p row && keys.contains (ref row)) =
      rows.countP fun row => (if p row then some (ref row) else none).any keys.contains :=
    List.countP_congr fun row _ => by cases p row <;> simp
  rw [hany, hsum, Nat.cast_list_sum, List.map_map]
  refine congrArg List.sum (List.map_congr_left fun k _ => congrArg Nat.cast ?_)
  exact List.countP_congr fun row _ => by cases p row <;> simp

/-! ## Joins -/

/-- A row joined by a key of which there is one at most. -/
theorem map_join {Other β : Type*} {id : Other → K} {others : List Other}
    (hnodup : (others.map id).Nodup) (k : K) (q : Other → Bool) (b : β) :
    ((others.filter fun other => decide (id other = k) && q other).map fun _ => b) =
      if others.any fun other => decide (id other = k) && q other then [b] else [] := by
  induction others with
  | nil => rfl
  | cons other others ih =>
      obtain ⟨hfresh, hnodup⟩ := List.nodup_cons.mp hnodup
      rw [List.filter_cons, List.any_cons]
      by_cases hother : (decide (id other = k) && q other) = true
      · have hk : id other = k := of_decide_eq_true (Bool.and_eq_true_iff.mp hother).1
        have hnone : others.filter (fun other => decide (id other = k) && q other) = [] := by
          refine List.filter_eq_nil_iff.mpr fun another hanother hqualifies => ?_
          have hkey := of_decide_eq_true (Bool.and_eq_true_iff.mp hqualifies).1
          exact hfresh (List.mem_map.mpr ⟨another, hanother, hkey.trans hk.symm⟩)
        rw [if_pos hother, hother, hnone, Bool.true_or, if_pos rfl, List.map_singleton]
      · rw [if_neg hother, ih hnodup, Bool.eq_false_iff.mpr hother, Bool.false_or]

/-- So are the rows of a table. -/
theorem flatMap_join {Other β : Type*} {id : Other → K} {others : List Other}
    (hnodup : (others.map id).Nodup) (ref : Row → K) (q : Other → Bool) (g : Row → β)
    (rows : List Row) :
    (rows.flatMap fun row =>
        (others.filter fun other => decide (id other = ref row) && q other).map fun _ => g row) =
      (rows.filter fun row => others.any fun other => decide (id other = ref row) && q other).map
        g := by
  induction rows with
  | nil => rfl
  | cons row rows ih =>
      rw [List.flatMap_cons, ih, map_join hnodup _ q (g row), List.filter_cons]
      split_ifs <;> rfl

/-! ## Figures of rows added up -/

section Total

variable {α : Type*} (f : α → Int) (q : α → Bool)

/-- What the rows that qualify add up to. -/
def total (found : List α) : Int := ((found.filter q).map f).sum

theorem total_nil : total f q [] = 0 := rfl

theorem total_cons (a : α) (found : List α) :
    total f q (a :: found) = (if q a then f a else 0) + total f q found := by
  unfold total
  rw [List.filter_cons]
  by_cases hq : q a = true
  · rw [if_pos hq, if_pos hq, List.map_cons, List.sum_cons]
  · rw [if_neg hq, if_neg hq, zero_add]

variable {f q}

theorem total_perm {found found' : List α} (h : found.Perm found') :
    total f q found = total f q found' :=
  ((h.filter _).map f).sum_eq

theorem total_filter (p : α → Bool) (found : List α) :
    total f q (found.filter p) = total f (fun a => p a && q a) found := by
  unfold total
  rw [List.filter_filter]
  exact congrArg (fun rows => (rows.map f).sum) (List.filter_congr fun a _ => Bool.and_comm _ _)

variable {make : K × List Row → α} {p : K → Bool}

theorem total_groupBy (hq : ∀ g, q (make g) = p g.1) {n : List Row → ℕ}
    (hf : ∀ g, f (make g) = n g.2) :
    total f q ((groupBy key rows).map make) =
      (((groupBy key rows).filter fun g => p g.1).map fun g => n g.2).sum := by
  have hqualify : (q ∘ make) = fun g => p g.1 := funext hq
  have hfigure : (f ∘ make) = fun g => (n g.2 : Int) := funext hf
  rw [total, List.filter_map, List.map_map, hqualify, hfigure, Nat.cast_list_sum, List.map_map]
  rfl

/-- The groups' numbers of rows. -/
theorem total_count (hq : ∀ g, q (make g) = p g.1) (hf : ∀ g, f (make g) = g.2.length) :
    total f q ((groupBy key rows).map make) = rows.countP fun row => p (key row) := by
  rw [total_groupBy hq hf, sum_length]

/-- The groups' numbers of different values. -/
theorem total_distinct (hq : ∀ g, q (make g) = p g.1) (hf : ∀ g, f (make g) = distinct col g.2) :
    total f q ((groupBy key rows).map make) =
      (keyed key col (rows.filter fun row => p (key row))).card := by
  rw [total_groupBy hq hf, sum_distinct]

end Total

end Rustrak.Relational
