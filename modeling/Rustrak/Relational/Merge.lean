import Mathlib.Data.List.AList

/-!
# Merging maps

A hash map whose entries are taken one after another into another map, each combined
with what is there under its key.  What a lookup sees afterwards does not depend on
the order of the entries, because a map has one entry for each key.

`mergeM` is the same for a combination that can fail, which fails the whole merge.
-/

namespace Rustrak.Relational

/-- A map from keys to values. -/
abbrev Map (K V : Type*) := AList fun _ : K => V

variable {K V : Type*} [DecidableEq K]

/-- Takes every entry of `other` into `into`. -/
def merge (combine : Option V → V → V) (into other : Map K V) : Map K V :=
  other.entries.foldl (fun m e => m.insert e.1 (combine (m.lookup e.1) e.2)) into

def mergeM (combine : Option V → V → Option V) (into other : Map K V) : Option (Map K V) :=
  other.entries.foldlM (fun m e => (combine (m.lookup e.1) e.2).map (m.insert e.1)) into

theorem lookup_insert_eq (m : Map K V) (k k' : K) (v : V) :
    (m.insert k v).lookup k' = if k' = k then some v else m.lookup k' := by
  split_ifs with h
  · subst h
    exact AList.lookup_insert m
  · exact AList.lookup_insert_ne h

theorem lookup_merge (combine : Option V → V → V) (into other : Map K V) (k : K) :
    (merge combine into other).lookup k =
      match other.lookup k with
      | none => into.lookup k
      | some v => some (combine (into.lookup k) v) := by
  obtain ⟨entries, hnodup⟩ := other
  change (entries.foldl _ into).lookup k = match entries.dlookup k with
    | none => into.lookup k
    | some v => some (combine (into.lookup k) v)
  induction entries generalizing into with
  | nil => rfl
  | cons e rest ih =>
      obtain ⟨hfresh, hrest⟩ := List.nodupKeys_cons.mp hnodup
      rw [List.foldl_cons, ih _ hrest, lookup_insert_eq]
      by_cases hk : k = e.1
      · subst hk
        rw [List.dlookup_eq_none.mpr hfresh, if_pos rfl, List.dlookup_cons_eq]
      · rw [if_neg hk, List.dlookup_cons_ne _ _ hk]

theorem mem_merge (combine : Option V → V → V) (into other : Map K V) (k : K) :
    k ∈ merge combine into other ↔ k ∈ into ∨ k ∈ other := by
  rw [← AList.lookup_isSome, ← AList.lookup_isSome, ← AList.lookup_isSome, lookup_merge]
  cases other.lookup k with
  | none => simp
  | some v => simp

theorem lookup_mergeM {combine : Option V → V → Option V} {into other m : Map K V}
    (h : mergeM combine into other = some m) (k : K) :
    match other.lookup k with
    | none => m.lookup k = into.lookup k
    | some v => ∃ r, combine (into.lookup k) v = some r ∧ m.lookup k = some r := by
  obtain ⟨entries, hnodup⟩ := other
  change entries.foldlM _ into = some m at h
  change match entries.dlookup k with
    | none => m.lookup k = into.lookup k
    | some v => ∃ r, combine (into.lookup k) v = some r ∧ m.lookup k = some r
  induction entries generalizing into with
  | nil =>
      obtain rfl := Option.some.inj h
      rfl
  | cons e rest ih =>
      obtain ⟨hfresh, hrest⟩ := List.nodupKeys_cons.mp hnodup
      rw [List.foldlM_cons] at h
      obtain ⟨next, hnext, h⟩ := Option.bind_eq_some_iff.mp h
      obtain ⟨r, hr, rfl⟩ := Option.map_eq_some_iff.mp hnext
      have hlater := ih hrest h
      rw [lookup_insert_eq] at hlater
      by_cases hk : k = e.1
      · subst hk
        rw [List.dlookup_eq_none.mpr hfresh, if_pos rfl] at hlater
        rw [List.dlookup_cons_eq]
        exact ⟨r, hr, hlater⟩
      · rw [if_neg hk] at hlater
        rw [List.dlookup_cons_ne _ _ hk]
        exact hlater

/-- A combination that does not fail is one that cannot. -/
theorem mergeM_eq_merge {combine : Option V → V → Option V} {total : Option V → V → V}
    {into other : Map K V} (h : ∀ k v, other.lookup k = some v →
      combine (into.lookup k) v = some (total (into.lookup k) v)) :
    mergeM combine into other = some (merge total into other) := by
  obtain ⟨entries, hnodup⟩ := other
  change entries.foldlM _ into = some (entries.foldl _ into)
  change ∀ k v, entries.dlookup k = some v → _ at h
  induction entries generalizing into with
  | nil => rfl
  | cons e rest ih =>
      obtain ⟨hfresh, hrest⟩ := List.nodupKeys_cons.mp hnodup
      rw [List.foldlM_cons, List.foldl_cons, h e.1 e.2 (List.dlookup_cons_eq _ _ _)]
      apply ih hrest
      intro k v hv
      have hk : k ≠ e.1 := by
        rintro rfl
        rw [List.dlookup_eq_none.mpr hfresh] at hv
        cases hv
      rw [lookup_insert_eq, if_neg hk]
      apply h
      rwa [List.dlookup_cons_ne _ _ hk]

end Rustrak.Relational
