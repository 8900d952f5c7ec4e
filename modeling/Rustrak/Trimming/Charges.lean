import Rustrak.Trimming.Databag

/-!
# What trimming takes from the budget

A value that finds room for all of it takes its charge, and of it only the containers that are
too deep are lost.  A value that does not find it leaves one byte at most, so whatever stands
behind it is cut.

Charge and remainder are functions of the value and the depth, which go down a value as the
trimmer does (`byDepth`).
-/

namespace Rustrak.Trimming

open Rustrak.Core Rustrak.Core.Value Rustrak.Budget

/-- A function of values by what it makes of the children; `deep` is its value at a container
that is too deep. -/
def byDepth {α : Type} (deep : α) (contents : (Value → α) → Value → α) : Nat → Value → α
  | 0, v => if isNonemptyContainer v then deep else contents (fun _ => deep) v
  | depth + 1, v => contents (byDepth deep contents depth) v

section Depth

variable {α : Type} {deep : α} {contents : (Value → α) → Value → α} {v : Value}

theorem byDepth_deep (h : isNonemptyContainer v = true) : byDepth deep contents 0 v = deep :=
  if_pos h

theorem byDepth_flat (h : isNonemptyContainer v = false) :
    byDepth deep contents 0 v = contents (fun _ => deep) v :=
  if_neg (h ▸ Bool.false_ne_true)

theorem trimValue_deep {remaining : Nat} (h : isNonemptyContainer v = true) :
    trimValue 0 v remaining = (.null, remaining - 4) :=
  if_pos h

theorem trimValue_flat {remaining : Nat} (h : isNonemptyContainer v = false) :
    trimValue 0 v remaining = trimContents Prod.mk v remaining :=
  if_neg (h ▸ Bool.false_ne_true)

theorem not_mem_children {item : Value} (h : isNonemptyContainer v = false) :
    item ∉ children v :=
  children_eq_nil h ▸ List.not_mem_nil

end Depth

/-- What is left when only the depth matters. -/
def cappedContents (inner : Value → Value) : Value → Value
  | .array values => .array (values.map inner)
  | .object fields => .object (fields.map fun field => (field.1, inner field.2))
  | other => other

def capped : Nat → Value → Value := byDepth .null cappedContents

/-- What the source takes: for a text its bytes and two quotes, for a container two brackets
and behind each entry a comma. -/
def chargeContents (inner : Value → Nat) : Value → Nat
  | .string s => byteLength s + 2
  | .array values => total inner (fun _ => 1) values + 2
  | .object fields => total (fun field => inner field.2) keyOverhead fields + 2
  | other => other.size

def charge : Nat → Value → Nat := byDepth 4 chargeContents

/-- With room for the value and two bytes more, trimming takes the charge; without, it leaves
one byte at most. -/
def Charged (trim : Value → Nat → Value × Nat) (full : Value → Value) (charge : Value → Nat)
    (v : Value) : Prop :=
  ∀ remaining, (charge v + 2 ≤ remaining → trim v remaining = (full v, remaining - charge v)) ∧
    (remaining < charge v + 2 → (trim v remaining).2 ≤ 1)

section Charged

variable {trim : Value → Nat → Value × Nat} {full : Value → Value} {inner : Value → Nat}
  {v : Value} {depth : Nat}

/-- Behind an element, a comma is taken. -/
theorem Charged.element (h : Charged trim full inner v) :
    Metered trim (fun _ => 1) full inner v := by
  intro remaining
  obtain ⟨hroom, hshort⟩ := h remaining
  dsimp only
  refine ⟨fun hlt => hroom (by omega), fun hle => ?_⟩
  by_cases henough : inner v + 2 ≤ remaining
  · rw [hroom henough]
    dsimp only
    omega
  · exact hshort (Nat.lt_of_not_le henough)

theorem Charged.field {field : String × Value} (h : Charged trim full inner field.2) :
    Metered (visitField trim) keyOverhead (fun field => (field.1, full field.2))
      (fun field => inner field.2) field := by
  intro remaining
  obtain ⟨hroom, hshort⟩ := h remaining
  have hfee : 4 ≤ keyOverhead field := Nat.le_add_left ..
  dsimp only
  refine ⟨fun hlt => ?_, fun hle => ?_⟩
  · rw [visitField, hroom (by omega)]
  · by_cases henough : inner field.2 + 2 ≤ remaining
    · rw [visitField, hroom henough]
      dsimp only
      omega
    · exact (hshort (Nat.lt_of_not_le henough)).trans (by omega)

theorem charged_contents (hordered : Ordered v)
    (h : ∀ item ∈ children v, Charged trim full inner item) :
    Charged (trimContents trim) (cappedContents full) (chargeContents inner) v := by
  intro remaining
  cases hordered with
  | string s =>
      rw [trimContents_string, chargeContents]
      constructor
      · intro hroom
        rw [truncateToBytes_of_le (by omega)]
        rfl
      · intro hshort
        rcases Nat.lt_or_ge remaining (byteLength s) with hcut | hfits
        · have := le_byteLength_truncateToBytes hcut
          dsimp only
          omega
        · rw [truncateToBytes_of_le hfits]
          dsimp only
          omega
  | @array values _ =>
      have hmetered : ∀ item ∈ values, Metered trim (fun _ => 1) full inner item :=
        fun item hitem => (h item hitem).element
      rw [trimContents_array, chargeContents]
      constructor
      · intro hroom
        rw [spend_of_lt hmetered (by omega)]
        dsimp only [cappedContents]
        congr 1
      · intro hshort
        rcases Nat.lt_or_ge (total inner (fun _ => 1) values) remaining with hlt | hle
        · rw [spend_of_lt hmetered hlt]
          dsimp only
          omega
        · rw [spend_of_le hmetered hle]
          omega
  | @object fields hkeys _ =>
      have hmetered : ∀ field ∈ fields, Metered (visitField trim) keyOverhead
          (fun field => (field.1, full field.2)) (fun field => inner field.2) field :=
        fun field hfield => (h field.2 (List.mem_map_of_mem hfield)).field
      rw [trimContents_object hkeys, chargeContents]
      constructor
      · intro hroom
        rw [spend_of_lt hmetered (by omega)]
        dsimp only [cappedContents]
        congr 1
      · intro hshort
        rcases Nat.lt_or_ge (total (fun field => inner field.2) keyOverhead fields) remaining
          with hlt | hle
        · rw [spend_of_lt hmetered hlt]
          dsimp only
          omega
        · rw [spend_of_le hmetered hle]
          omega
  | _ =>
      refine ⟨fun _ => rfl, fun hshort => Nat.sub_le_of_le_add ?_⟩
      rw [Nat.add_comm]
      exact Nat.le_of_lt_succ hshort

theorem charged (hordered : Ordered v) :
    Charged (trimValue depth) (capped depth) (charge depth) v := by
  induction depth generalizing v with
  | zero =>
      cases hdeep : isNonemptyContainer v with
      | true =>
          intro remaining
          rw [charge, capped, byDepth_deep hdeep, byDepth_deep hdeep, trimValue_deep hdeep]
          exact ⟨fun _ => rfl, fun hshort => by dsimp only; omega⟩
      | false =>
          intro remaining
          rw [charge, capped, byDepth_flat hdeep, byDepth_flat hdeep, trimValue_flat hdeep]
          exact charged_contents hordered
            (fun item hitem => absurd hitem (not_mem_children hdeep)) remaining
  | succ depth ih =>
      exact charged_contents hordered fun item hitem => ih (hordered.child hitem)

end Charged

end Rustrak.Trimming
