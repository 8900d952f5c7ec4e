import Rustrak.Trimming.Size

/-!
# What trimming leaves

Of each array and object the first entries stay, of each text the first characters, and a
container that is too deep becomes a null.  A second run finds the same budget at every entry
the first one kept, so it changes nothing.
-/

namespace Rustrak.Trimming

open Rustrak.Core Rustrak.Core.Value Rustrak.Budget

/-- The first entries of a value, each cut in the same way. -/
inductive KeptPrefix : Nat → Value → Value → Prop
  | same {depth : Nat} {v : Value} (h : isNonemptyContainer v = false) : KeptPrefix depth v v
  | text {depth : Nat} {s t : String} (hstart : t.toList <+: s.toList)
      (hboundary : isCharBoundary s (byteLength t) = true) :
      KeptPrefix depth (.string s) (.string t)
  | tooDeep {v : Value} (h : isNonemptyContainer v = true) : KeptPrefix 0 v .null
  | array {depth : Nat} {values kept : List Value} (hlength : kept.length ≤ values.length)
      (h : ∀ pair ∈ values.zip kept, KeptPrefix depth pair.1 pair.2) :
      KeptPrefix (depth + 1) (.array values) (.array kept)
  | object {depth : Nat} {fields kept : List (String × Value)}
      (hkeys : kept.map Prod.fst <+: fields.map Prod.fst)
      (h : ∀ pair ∈ fields.zip kept, KeptPrefix depth pair.1.2 pair.2.2) :
      KeptPrefix (depth + 1) (.object fields) (.object kept)

variable {trim : Value → Nat → Value × Nat} {v : Value}
  {depth remaining maxBytes maxDepth : Nat}

theorem isNonemptyContainer_eq_false (h : children v = []) : isNonemptyContainer v = false := by
  cases v with
  | array values => simpa [isNonemptyContainer, children] using h
  | object fields => simpa [isNonemptyContainer, children] using h
  | _ => rfl

theorem isCharBoundary_of_isPrefix {s t : String} (h : t.toList <+: s.toList) :
    isCharBoundary s (byteLength t) = true :=
  List.any_eq_true.mpr ⟨t.toList, (List.mem_inits _ _).mpr h, by simp [byteLength]⟩

theorem keys_spend_isPrefix {fields : List (String × Value)} :
    (spend (visitField trim) keyOverhead fields remaining).1.map Prod.fst <+:
      fields.map Prod.fst :=
  map_spend_isPrefix fun _ _ => rfl

theorem pairwise_spend {fields : List (String × Value)}
    (hkeys : fields.Pairwise fun a b => a.1 < b.1) :
    (spend (visitField trim) keyOverhead fields remaining).1.Pairwise fun a b => a.1 < b.1 := by
  have hkept : ((spend (visitField trim) keyOverhead fields remaining).1.map Prod.fst).Pairwise
      (· < ·) :=
    (List.pairwise_map.mpr hkeys).sublist keys_spend_isPrefix.sublist
  exact List.pairwise_map.mp hkept

/-- Each child of what is left is what is left of a child. -/
theorem mem_children_trimContents (hordered : Ordered v) {child : Value}
    (h : child ∈ children (trimContents trim v remaining).1) :
    ∃ item ∈ children v, ∃ left, child = (trim item left).1 := by
  cases hordered with
  | string s => exact absurd h (by rw [trimContents_string]; exact List.not_mem_nil)
  | @array values _ =>
      rw [trimContents_array] at h
      exact mem_spend h
  | @object fields hkeys _ =>
      rw [trimContents_object hkeys] at h
      obtain ⟨kept, hkept, rfl⟩ := List.mem_map.mp h
      obtain ⟨field, hfield, left, rfl⟩ := mem_spend hkept
      exact ⟨field.2, List.mem_map_of_mem hfield, left, rfl⟩
  | _ => exact absurd h List.not_mem_nil

theorem isNonemptyContainer_trimContents (hordered : Ordered v)
    (h : isNonemptyContainer v = false) :
    isNonemptyContainer (trimContents trim v remaining).1 = false := by
  refine isNonemptyContainer_eq_false (List.eq_nil_iff_forall_not_mem.mpr fun child hchild => ?_)
  obtain ⟨item, hitem, -⟩ := mem_children_trimContents hordered hchild
  exact not_mem_children h hitem

/-! ### Fields stay in order -/

theorem ordered_trimContents (hordered : Ordered v)
    (htrim : ∀ item ∈ children v, ∀ left, Ordered (trim item left).1) :
    Ordered (trimContents trim v remaining).1 := by
  have hchildren : ∀ child ∈ children (trimContents trim v remaining).1, Ordered child := by
    intro child hchild
    obtain ⟨item, hitem, left, rfl⟩ := mem_children_trimContents hordered hchild
    exact htrim item hitem left
  cases hordered with
  | string s =>
      rw [trimContents_string]
      exact .string _
  | @array values _ =>
      rw [trimContents_array] at hchildren ⊢
      exact .array hchildren
  | @object fields hkeys _ =>
      rw [trimContents_object hkeys] at hchildren ⊢
      exact .object (pairwise_spend hkeys) (List.forall_mem_map.mp hchildren)
  | null => exact .null
  | bool b => exact .bool b
  | number n => exact .number n

theorem ordered_trimValue (hordered : Ordered v) : Ordered (trimValue depth v remaining).1 := by
  induction depth generalizing v remaining with
  | zero =>
      cases hdeep : isNonemptyContainer v with
      | true =>
          rw [trimValue_deep hdeep]
          exact .null
      | false =>
          rw [trimValue_flat hdeep]
          exact ordered_trimContents hordered
            fun item hitem => absurd hitem (not_mem_children hdeep)
  | succ depth ih =>
      exact ordered_trimContents hordered fun item hitem left => ih (hordered.child hitem)

/-! ### The first entries stay -/

theorem keptPrefix_trimContents (hordered : Ordered v)
    (h : ∀ item ∈ children v, ∀ left, KeptPrefix depth item (trim item left).1) :
    KeptPrefix (depth + 1) v (trimContents trim v remaining).1 := by
  cases hordered with
  | string s =>
      rw [trimContents_string]
      exact .text truncateToBytes_isPrefix (isCharBoundary_of_isPrefix truncateToBytes_isPrefix)
  | @array values _ =>
      rw [trimContents_array]
      exact .array length_spend_le (forall_mem_zip_spend (KeptPrefix depth) h)
  | @object fields hkeys _ =>
      rw [trimContents_object hkeys]
      have hkept : ∀ pair ∈ fields.zip (spend (visitField trim) keyOverhead fields remaining).1,
          KeptPrefix depth pair.1.2 pair.2.2 :=
        forall_mem_zip_spend (fun field kept : String × Value => KeptPrefix depth field.2 kept.2)
          fun field hfield left => h field.2 (List.mem_map_of_mem hfield) left
      exact .object keys_spend_isPrefix hkept
  | _ => exact .same rfl

theorem keptPrefix_flat (hordered : Ordered v) (h : isNonemptyContainer v = false) :
    KeptPrefix depth v (trimContents trim v remaining).1 := by
  cases hordered with
  | string s =>
      rw [trimContents_string]
      exact .text truncateToBytes_isPrefix (isCharBoundary_of_isPrefix truncateToBytes_isPrefix)
  | @array values _ =>
      obtain rfl : values = [] := children_eq_nil h
      exact .same rfl
  | @object fields hkeys _ =>
      obtain rfl : fields = [] := List.map_eq_nil_iff.mp (children_eq_nil h)
      exact .same rfl
  | _ => exact .same rfl

theorem keptPrefix_trimValue (hordered : Ordered v) :
    KeptPrefix depth v (trimValue depth v remaining).1 := by
  induction depth generalizing v remaining with
  | zero =>
      cases hdeep : isNonemptyContainer v with
      | true =>
          rw [trimValue_deep hdeep]
          exact .tooDeep hdeep
      | false =>
          rw [trimValue_flat hdeep]
          exact keptPrefix_flat hordered hdeep
  | succ depth ih =>
      exact keptPrefix_trimContents hordered fun item hitem left => ih (hordered.child hitem)

/-! ### No container is too deep -/

theorem nestsWithin_trimValue (hordered : Ordered v) :
    NestsWithin depth (trimValue depth v remaining).1 := by
  induction depth generalizing v remaining with
  | zero =>
      cases hdeep : isNonemptyContainer v with
      | true =>
          rw [trimValue_deep hdeep]
          rfl
      | false =>
          rw [trimValue_flat hdeep]
          exact isNonemptyContainer_trimContents hordered hdeep
  | succ depth ih =>
      intro child hchild
      obtain ⟨item, hitem, left, rfl⟩ := mem_children_trimContents hordered hchild
      exact ih (hordered.child hitem)

/-! ### A second run changes nothing -/

theorem trimContents_trimContents (hordered : Ordered v)
    (h : ∀ item ∈ children v, ∀ left, trim (trim item left).1 left = trim item left) :
    trimContents trim (trimContents trim v remaining).1 remaining =
      trimContents trim v remaining := by
  cases hordered with
  | string s =>
      rw [trimContents_string, trimContents_string,
        truncateToBytes_of_le byteLength_truncateToBytes_le]
  | @array values _ =>
      have hagain : spend trim (fun _ => 1) (spend trim (fun _ => 1) values remaining).1 remaining =
          spend trim (fun _ => 1) values remaining :=
        spend_spend h fun _ _ => rfl
      rw [trimContents_array, trimContents_array, hagain]
  | @object fields hkeys _ =>
      have hvisit : ∀ field ∈ fields, ∀ left,
          visitField trim (visitField trim field left).1 left = visitField trim field left := by
        intro field hfield left
        rw [visitField, visitField, h field.2 (List.mem_map_of_mem hfield) left]
      have hagain := @spend_spend _ (visitField trim) keyOverhead fields remaining hvisit
        fun _ _ => rfl
      have hkept : (spend (visitField trim) keyOverhead fields remaining).1.Pairwise
          fun a b => a.1 < b.1 :=
        pairwise_spend hkeys
      rw [trimContents_object hkeys, trimContents_object hkept, hagain]
  | _ => rfl

theorem trimValue_trimValue (hordered : Ordered v) :
    trimValue depth (trimValue depth v remaining).1 remaining = trimValue depth v remaining := by
  induction depth generalizing v remaining with
  | zero =>
      cases hdeep : isNonemptyContainer v with
      | true =>
          have hnull : null.size = 4 := by decide
          rw [trimValue_deep hdeep, trimValue_flat rfl]
          exact congrArg (fun size => (null, remaining - size)) hnull
      | false =>
          rw [trimValue_flat hdeep,
            trimValue_flat (isNonemptyContainer_trimContents hordered hdeep)]
          exact trimContents_trimContents hordered
            fun item hitem => absurd hitem (not_mem_children hdeep)
  | succ depth ih =>
      exact trimContents_trimContents hordered fun item hitem left => ih (hordered.child hitem)

/-- Trimming keeps the first entries of every container, nests no deeper than it may, and
changes nothing when it is done again. -/
theorem trimDatabag_keeps_start (hordered : Ordered v) :
    KeptPrefix maxDepth v (trimDatabag v maxBytes maxDepth) ∧
      NestsWithin maxDepth (trimDatabag v maxBytes maxDepth) ∧
      trimDatabag (trimDatabag v maxBytes maxDepth) maxBytes maxDepth =
        trimDatabag v maxBytes maxDepth :=
  ⟨keptPrefix_trimValue hordered, nestsWithin_trimValue hordered,
    congrArg Prod.fst (trimValue_trimValue hordered)⟩

/-- Of three elements two stay, the second without what it holds. -/
theorem trimDatabag_keeps_two :
    KeptPrefix 1 (.array [.string "é", .array [.null], .bool true])
        (trimDatabag (.array [.string "é", .array [.null], .bool true]) 6 1) ∧
      NestsWithin 1 (trimDatabag (.array [.string "é", .array [.null], .bool true]) 6 1) ∧
      trimDatabag (trimDatabag (.array [.string "é", .array [.null], .bool true]) 6 1) 6 1 =
        trimDatabag (.array [.string "é", .array [.null], .bool true]) 6 1 :=
  trimDatabag_keeps_start (by simp)

end Rustrak.Trimming
