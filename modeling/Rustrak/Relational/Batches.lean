import Rustrak.Relational.Table

/-!
# Work done in batches

A statement with a limit and no order takes any of the rows that qualify, as many as there
are or as the limit allows.  A loop takes such a batch again and again until it finds
none.  `Drains` says what is needed for the loop to end where one batch of everything would,
and `Splits` is what two batches take of the rows that one takes.
-/

namespace Rustrak.Relational

variable {State Row : Type*} {limit : Nat}

/-- What a statement with a limit takes of the rows that qualify. -/
structure Picker (Row : Type*) (limit : Nat) where
  pick : List Row → List Row
  sublist : ∀ rows, (pick rows).Sublist rows
  length : ∀ rows, (pick rows).length = min limit rows.length

/-- The rows in front. -/
def Picker.front (limit : Nat) : Picker Row limit where
  pick := List.take limit
  sublist := List.take_sublist limit
  length := fun _ => List.length_take

theorem Picker.pick_eq_nil_iff (picker : Picker Row limit) (hlimit : 0 < limit) {rows : List Row} :
    picker.pick rows = [] ↔ rows = [] := by
  have hlength := picker.length rows
  rw [← List.length_eq_zero_iff, ← List.length_eq_zero_iff]
  omega

/-- Batches until one finds nothing; `none` when the fuel runs out before that. -/
def drain (todo : State → List Row) (batch : State → List Row → Option State)
    (picker : Picker Row limit) : Nat → State → Option State
  | 0, _ => none
  | fuel + 1, s =>
      match batch s (picker.pick (todo s)) with
      | none => some s
      | some s' => drain todo batch picker fuel s'

/-- A loop of batches, in the states of an invariant: what a batch leaves is `after`, and
after a batch of some of the rows, one of all that is left does what one of all would have
done. -/
structure Drains (todo : State → List Row) (batch : State → List Row → Option State)
    (after : State → List Row → State) (Inv : State → Prop) : Prop where
  stop : ∀ s, batch s [] = none
  nil : ∀ s, Inv s → after s [] = s
  batch : ∀ s picked, Inv s → picked.Sublist (todo s) → picked ≠ [] →
    batch s picked = some (after s picked)
  keeps : ∀ s picked, Inv s → picked.Sublist (todo s) → Inv (after s picked)
  fewer : ∀ s picked, Inv s → picked.Sublist (todo s) → picked ≠ [] →
    (todo (after s picked)).length < (todo s).length
  whole : ∀ s picked, Inv s → picked.Sublist (todo s) →
    after (after s picked) (todo (after s picked)) = after s (todo s)

/-- Whatever the batches take, and however many rows they may take at a time, the loop ends
where one batch of everything leads. -/
theorem Drains.drain_eq {todo : State → List Row} {batch : State → List Row → Option State}
    {after : State → List Row → State} {Inv : State → Prop} (h : Drains todo batch after Inv)
    (hlimit : 0 < limit) (picker : Picker Row limit) {fuel : Nat} {s : State} (hs : Inv s)
    (hfuel : (todo s).length < fuel) :
    drain todo batch picker fuel s = some (after s (todo s)) := by
  induction fuel generalizing s with
  | zero => exact absurd hfuel (Nat.not_lt_zero _)
  | succ fuel ih =>
      rw [drain]
      by_cases hdone : todo s = []
      · rw [(picker.pick_eq_nil_iff hlimit).mpr hdone, h.stop, hdone, h.nil s hs]
      · have hpicked : picker.pick (todo s) ≠ [] :=
          fun hnil => hdone ((picker.pick_eq_nil_iff hlimit).mp hnil)
        have hsub := picker.sublist (todo s)
        have hfewer := h.fewer s _ hs hsub hpicked
        rw [h.batch s _ hs hsub hpicked]
        show drain todo batch picker fuel (after s (picker.pick (todo s))) = _
        rw [ih (h.keeps s _ hs hsub) (by omega), h.whole s _ hs hsub]

/-! ## Two batches of one table -/

variable {Key : Type*} [BEq Key] [LawfulBEq Key]

/-- The rows `c` in two batches, told apart by their keys. -/
structure Splits (key : Row → Key) (rows a b c : List Row) : Prop where
  whole : c.Sublist rows
  first : a.Sublist c
  second : b = c.filter fun row => !(a.map key).contains (key row)

namespace Splits

variable {key : Row → Key} {rows a b c : List Row}

theorem mem_second (h : Splits key rows a b c) {row : Row} :
    row ∈ b ↔ row ∈ c ∧ key row ∉ a.map key := by
  rw [h.second, List.mem_filter]
  simp only [Bool.not_eq_true', ← Bool.not_eq_true, List.contains_iff_mem]

/-- A key is taken by one of the two if by both together. -/
theorem mem_key (h : Splits key rows a b c) {k : Key} :
    k ∈ c.map key ↔ k ∈ a.map key ∨ k ∈ b.map key := by
  constructor
  · intro hk
    obtain ⟨row, hrow, rfl⟩ := List.mem_map.mp hk
    by_cases hfirst : key row ∈ a.map key
    · exact .inl hfirst
    · exact .inr (List.mem_map_of_mem (h.mem_second.mpr ⟨hrow, hfirst⟩))
  · rintro (hk | hk)
    · exact (h.first.map _).subset hk
    · obtain ⟨row, hrow, rfl⟩ := List.mem_map.mp hk
      exact List.mem_map_of_mem (h.mem_second.mp hrow).1

theorem contains_key (h : Splits key rows a b c) (k : Key) :
    (c.map key).contains k = ((a.map key).contains k || (b.map key).contains k) := by
  rw [Bool.eq_iff_iff, Bool.or_eq_true]
  simp only [List.contains_iff_mem]
  exact h.mem_key

theorem any_contains_key (h : Splits key rows a b c) (k : Option Key) :
    k.any (c.map key).contains =
      (k.any (a.map key).contains || k.any (b.map key).contains) := by
  cases k with
  | none => rfl
  | some k => exact h.contains_key k

omit [LawfulBEq Key] in
/-- What the second batch takes is what the first has left. -/
theorem of_filter {gone : Row → Bool} (hwhole : c.Sublist rows) (hfirst : a.Sublist c)
    (hgone : ∀ row, gone row = (a.map key).contains (key row)) (p : Row → Bool)
    (hc : c = rows.filter p) :
    Splits key rows a ((rows.filter fun row => !gone row).filter p) c where
  whole := hwhole
  first := hfirst
  second := by
    rw [hc, List.filter_filter, List.filter_filter]
    apply List.filter_congr
    intro row _
    rw [hgone, Bool.and_comm]

theorem length_second_lt (h : Splits key rows a b c) (hne : a ≠ []) : b.length < c.length := by
  obtain ⟨row, hrow⟩ := List.exists_mem_of_ne_nil a hne
  rw [h.second]
  refine List.length_filter_lt_length_iff_exists.mpr ⟨row, h.first.subset hrow, ?_⟩
  simpa using ⟨row, hrow, rfl⟩

end Splits

/-- One batch after another takes as many rows as both together. -/
theorem countP_add_countP_filter_not (rows : List Row) (p q : Row → Bool) :
    rows.countP p + (rows.filter fun row => !p row).countP q =
      rows.countP fun row => p row || q row := by
  rw [List.countP_filter]
  induction rows with
  | nil => rfl
  | cons row rest ih =>
      simp only [List.countP_cons]
      cases hp : p row <;> cases hq : q row <;> simp <;> omega

theorem filter_not_filter_not (rows : List Row) (p q : Row → Bool) :
    ((rows.filter fun row => !p row).filter fun row => !q row) =
      rows.filter fun row => !(p row || q row) := by
  rw [List.filter_filter]
  apply List.filter_congr
  intro row _
  rw [Bool.not_or, Bool.and_comm]

/-- The rows with the keys of some of them are those. -/
theorem countP_contains_key {key : Row → Key} {rows picked : List Row}
    (hnodup : (rows.map key).Nodup) (hpicked : picked.Sublist rows) :
    (rows.countP fun row => (picked.map key).contains (key row)) = picked.length := by
  have hsplit := countP_filter_not_mem hnodup hpicked
    (fun row _ => (List.contains_iff_mem : (picked.map key).contains (key row) = true ↔ _))
    fun row => (picked.map key).contains (key row)
  have hleft : ((rows.filter fun row => !(picked.map key).contains (key row)).countP
      fun row => (picked.map key).contains (key row)) = 0 := by
    rw [List.countP_eq_zero]
    intro row hrow hkey
    have hkept := (List.mem_filter.mp hrow).2
    rw [hkey] at hkept
    exact Bool.false_ne_true hkept
  have hall : (picked.countP fun row => (picked.map key).contains (key row)) = picked.length :=
    List.countP_eq_length.mpr fun row hrow =>
      List.contains_iff_mem.mpr (List.mem_map_of_mem hrow)
  omega

/-- Deleting rows by key leaves the others of a selection that has none of them. -/
theorem filter_filter_not_contains {key : Row → Key} {rows picked : List Row}
    (hnodup : (rows.map key).Nodup) (hpicked : picked.Sublist rows) {q : Row → Bool}
    (hnone : ∀ row ∈ picked, q row = false) :
    (rows.filter fun row => !(picked.map key).contains (key row)).filter q = rows.filter q := by
  rw [List.filter_filter]
  apply List.filter_congr
  intro row hrow
  cases hq : q row with
  | false => rfl
  | true =>
      rw [Bool.true_and, Bool.not_eq_true', ← Bool.not_eq_true, List.contains_iff_mem]
      intro hkey
      obtain ⟨other, hother, hsame⟩ := List.mem_map.mp hkey
      have hrow' : other = row :=
        List.inj_on_of_nodup_map hnodup (hpicked.subset hother) hrow hsame
      have hfalse := hnone other hother
      rw [hrow', hq] at hfalse
      exact Bool.false_ne_true hfalse.symm

end Rustrak.Relational
