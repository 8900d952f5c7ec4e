import Mathlib.Data.List.Basic
import Mathlib.Data.List.Nodup
import Mathlib.Tactic.Common

/-!
# Leases

Keys are taken until some instant, by holders that work through them.  When the instant has
passed anyone may take a key again, and nothing tells the holder that had it.  `stands k t`
says of the table that the key is taken until `t`, and `alive t` that `t` has not passed.

`Exclusive` is what this gives: of the leases that are alive no two have a key in common.
It is kept when time passes, when a holder lets go of keys, when it changes what it
finishes, and when keys are taken whose lease is not alive.
-/

namespace Rustrak.Claiming

/-- What a holder still has to work through, and until when it may. -/
structure Lease (K T : Type*) where
  keys : List K
  ends : T

variable {K T : Type*}

structure Exclusive (alive : T → Prop) (stands : K → T → Prop) (leases : List (Lease K T)) :
    Prop where
  nodup : ∀ l ∈ leases, alive l.ends → l.keys.Nodup
  stands : ∀ l ∈ leases, alive l.ends → ∀ k ∈ l.keys, stands k l.ends
  disjoint : ∀ (i j : Nat) (l l' : Lease K T), i ≠ j → leases[i]? = some l →
    leases[j]? = some l' → alive l.ends → alive l'.ends → ∀ k ∈ l.keys, k ∉ l'.keys

namespace Exclusive

variable {alive alive' : T → Prop} {stands stands' : K → T → Prop}
  {leases leases' : List (Lease K T)} {i : Nat} {l : Lease K T} {k : K} {rest : List K}

theorem nil : Exclusive alive stands [] where
  nodup := by simp
  stands := by simp
  disjoint := by simp

/-- Time passes. -/
theorem later (h : Exclusive alive stands leases) (halive : ∀ t, alive' t → alive t) :
    Exclusive alive' stands leases where
  nodup l hl ht := h.nodup l hl (halive _ ht)
  stands l hl ht := h.stands l hl (halive _ ht)
  disjoint i j l l' hne hl hl' ht ht' := h.disjoint i j l l' hne hl hl' (halive _ ht) (halive _ ht')

/-- More stands. -/
theorem mono (h : Exclusive alive stands leases) (hstands : ∀ k t, stands k t → stands' k t) :
    Exclusive alive stands' leases :=
  ⟨h.nodup, fun l hl ht k hk => hstands _ _ (h.stands l hl ht k hk), h.disjoint⟩

/-- Holders let go of keys. -/
theorem shrink (h : Exclusive alive stands leases)
    (hsub : ∀ (i : Nat) (l' : Lease K T), leases'[i]? = some l' → ∃ l, leases[i]? = some l ∧
      l'.ends = l.ends ∧ l'.keys.Sublist l.keys) : Exclusive alive stands leases' where
  nodup := by
    intro l' hl' ht
    obtain ⟨i, hi⟩ := List.mem_iff_getElem?.mp hl'
    obtain ⟨l, hl, hends, hkeys⟩ := hsub i l' hi
    rw [hends] at ht
    exact (h.nodup l (List.mem_of_getElem? hl) ht).sublist hkeys
  stands := by
    intro l' hl' ht k hk
    obtain ⟨i, hi⟩ := List.mem_iff_getElem?.mp hl'
    obtain ⟨l, hl, hends, hkeys⟩ := hsub i l' hi
    rw [hends] at ht ⊢
    exact h.stands l (List.mem_of_getElem? hl) ht k (hkeys.subset hk)
  disjoint := by
    intro i j l₁ l₂ hne h₁ h₂ ht₁ ht₂ k hk hk'
    obtain ⟨m₁, hm₁, hends₁, hkeys₁⟩ := hsub i l₁ h₁
    obtain ⟨m₂, hm₂, hends₂, hkeys₂⟩ := hsub j l₂ h₂
    rw [hends₁] at ht₁
    rw [hends₂] at ht₂
    exact h.disjoint i j m₁ m₂ hne hm₁ hm₂ ht₁ ht₂ k (hkeys₁.subset hk) (hkeys₂.subset hk')

/-- One holder lets go of keys. -/
theorem set (h : Exclusive alive stands leases) (hl : leases[i]? = some l)
    (hrest : rest.Sublist l.keys) : Exclusive alive stands (leases.set i ⟨rest, l.ends⟩) := by
  apply h.shrink
  intro j l' hl'
  rw [List.getElem?_set] at hl'
  split_ifs at hl' with hij hlt
  · obtain rfl := Option.some.inj hl'
    exact ⟨l, hij ▸ hl, rfl, hrest⟩
  · exact ⟨l', hl', rfl, List.Sublist.refl _⟩

/-- What a holder is done with no lease that is alive has any more. -/
theorem notMem_of_set (h : Exclusive alive stands leases) (hl : leases[i]? = some l)
    (halive : alive l.ends) (hkeys : l.keys = k :: rest) :
    ∀ l' ∈ leases.set i ⟨rest, l.ends⟩, alive l'.ends → k ∉ l'.keys := by
  intro l' hl' ht
  obtain ⟨j, hj⟩ := List.mem_iff_getElem?.mp hl'
  rw [List.getElem?_set] at hj
  split_ifs at hj with hij hlt
  · obtain rfl := Option.some.inj hj
    have hnodup := h.nodup l (List.mem_of_getElem? hl) halive
    rw [hkeys] at hnodup
    exact (List.nodup_cons.mp hnodup).1
  · have hk : k ∈ l.keys := by simp [hkeys]
    exact h.disjoint i j l l' hij hl hj halive ht k hk

/-- A holder is done with a key, and what stands of that key may change. -/
theorem done (h : Exclusive alive stands leases) (hl : leases[i]? = some l)
    (halive : alive l.ends) (hkeys : l.keys = k :: rest)
    (hstands : ∀ k' t, k' ≠ k → stands k' t → stands' k' t) :
    Exclusive alive stands' (leases.set i ⟨rest, l.ends⟩) := by
  have hset := h.set hl (hkeys ▸ List.sublist_cons_self k rest)
  have hnotMem := h.notMem_of_set hl halive hkeys
  refine ⟨hset.nodup, fun l' hl' ht k' hk' => hstands _ _ ?_ (hset.stands l' hl' ht k' hk'),
    hset.disjoint⟩
  rintro rfl
  exact hnotMem l' hl' ht hk'

/-- Keys are taken that no lease alive has. -/
theorem take {keys : List K} {ends : T} (h : Exclusive alive stands leases) (hnodup : keys.Nodup)
    (hfree : ∀ k ∈ keys, ∀ t, stands k t → ¬alive t)
    (htaken : ∀ k ∈ keys, stands' k ends)
    (hothers : ∀ k t, k ∉ keys → stands k t → stands' k t) :
    Exclusive alive stands' (leases ++ [⟨keys, ends⟩]) := by
  have hnotMem : ∀ l ∈ leases, alive l.ends → ∀ k ∈ l.keys, k ∉ keys := by
    intro l hl ht k hk hkeys
    exact hfree k hkeys _ (h.stands l hl ht k hk) ht
  constructor
  · intro l hl ht
    rcases List.mem_append.mp hl with hl | hl
    · exact h.nodup l hl ht
    · obtain rfl := List.mem_singleton.mp hl
      exact hnodup
  · intro l hl ht k hk
    rcases List.mem_append.mp hl with hl | hl
    · exact hothers _ _ (hnotMem l hl ht k hk) (h.stands l hl ht k hk)
    · obtain rfl := List.mem_singleton.mp hl
      exact htaken k hk
  · have hlast : ∀ (i : Nat) (l : Lease K T), (leases ++ [⟨keys, ends⟩])[i]? = some l →
        leases[i]? = some l ∨ i = leases.length ∧ l = ⟨keys, ends⟩ := by
      intro i l hl
      rw [List.getElem?_append] at hl
      split_ifs at hl with hlt
      · exact .inl hl
      · obtain ⟨hi, hl⟩ := List.getElem?_eq_some_iff.mp hl
        simp only [List.length_singleton] at hi
        refine .inr ⟨by omega, ?_⟩
        rw [← hl]
        simp
    intro i j l l' hne hl hl' ht ht' k hk hk'
    rcases hlast i l hl with hl | ⟨rfl, rfl⟩
    · rcases hlast j l' hl' with hl' | ⟨rfl, rfl⟩
      · exact h.disjoint i j l l' hne hl hl' ht ht' k hk hk'
      · exact hnotMem l (List.mem_of_getElem? hl) ht k hk hk'
    · rcases hlast j l' hl' with hl' | ⟨rfl, rfl⟩
      · exact hnotMem l' (List.mem_of_getElem? hl') ht' k hk' hk
      · exact hne rfl

end Exclusive

end Rustrak.Claiming
