import Rustrak.Budget.Spending
import Rustrak.Core.Serialized
import Mathlib.Data.List.Infix
import Mathlib.Data.String.Basic

/-!
# Trimming a databag

`trim_value` walks a JSON value with a byte budget and a nesting depth.  It descends only into
containers within the depth, so the recursion is on the depth that remains.

The two loops are runs of `Budget.spend`: over the elements of an array, where the fee is the
comma, and over the fields of an object, where it is the key with its quotes, the colon and
the comma.  The object's loop leaves the fields from the cut on in place and `retain` then
removes them by comparing keys, which is the same as long as the keys ascend, as those of
serde_json's map do (`Ordered`).
-/

namespace Rustrak.Trimming

open Rustrak.Core Rustrak.Core.Value Rustrak.Budget

/-! ### Cutting a text -/

/-- `str::is_char_boundary`. -/
def isCharBoundary (s : String) (i : Nat) : Bool :=
  s.toList.inits.any fun start => (start.map Char.utf8Size).sum == i

/-- Backs off from a position to the nearest boundary. -/
def backOff (s : String) : Nat → Nat
  | 0 => 0
  | i + 1 => if isCharBoundary s (i + 1) then i + 1 else backOff s i

/-- The first characters that take no more than so many bytes. -/
def charsWithin : Nat → List Char → List Char
  | _, [] => []
  | n, c :: cs => if c.utf8Size ≤ n then c :: charsWithin (n - c.utf8Size) cs else []

/-- Truncates a text to at most so many bytes. -/
def truncateToBytes (s : String) (maxBytes : Nat) : String :=
  if byteLength s ≤ maxBytes then s
  else String.ofList (charsWithin (backOff s maxBytes) s.toList)

/-! ### The walk -/

def isNonemptyContainer : Value → Bool
  | .array values => !values.isEmpty
  | .object fields => !fields.isEmpty
  | _ => false

/-- What a field costs besides its value: quotes, colon and comma. -/
def keyOverhead (field : String × Value) : Nat := byteLength field.1 + 4

section Loops

variable (descend : Value → Nat → Value × Nat)

def trimElements : List Value → Nat → List Value × Nat
  | [], remaining => ([], remaining)
  | item :: rest, remaining =>
      if remaining = 0 then ([], 0) else
        let (item', left) := descend item remaining
        let (rest', left') := trimElements rest (left - 1)
        (item' :: rest', left')

/-- The fields, those from the cut on as they were, and the key the loop was cut at. -/
def trimFields : List (String × Value) → Nat → List (String × Value) × Option String × Nat
  | [], remaining => ([], none, remaining)
  | (key, item) :: rest, remaining =>
      if remaining = 0 then ((key, item) :: rest, some key, 0) else
        let (item', left) := descend item remaining
        let (rest', cutFrom, left') := trimFields rest (left - keyOverhead (key, item))
        ((key, item') :: rest', cutFrom, left')

/-- `map.retain(|k, _| *k < key)`, when the loop was cut. -/
def retain (fields : List (String × Value)) : Option String → List (String × Value)
  | none => fields
  | some key => fields.filter fun field => decide (field.1 < key)

/-- One value and what it leaves of the budget. -/
def trimContents (value : Value) (remaining : Nat) : Value × Nat :=
  match value with
  | .string s =>
      let s' := if remaining < byteLength s then truncateToBytes s remaining else s
      (.string s', remaining - (byteLength s' + 2))
  | .array values =>
      let (values', left) := trimElements descend values remaining
      (.array values', left - 2)
  | .object fields =>
      let (fields', cutFrom, left) := trimFields descend fields remaining
      (.object (retain fields' cutFrom), left - 2)
  | other => (other, remaining - other.size)

end Loops

def trimValue : Nat → Value → Nat → Value × Nat
  | 0, value, remaining =>
      if isNonemptyContainer value then (.null, remaining - 4)
      -- A container that gets here is empty, so there is nothing to descend into.
      else trimContents Prod.mk value remaining
  | depth + 1, value, remaining => trimContents (trimValue depth) value remaining

def trimDatabag (value : Value) (maxBytes maxDepth : Nat) : Value :=
  (trimValue maxDepth value maxBytes).1

/-! ### What is left of a text -/

section Texts

variable {s : String} {cs : List Char} {n : Nat}

@[simp] theorem charsWithin_nil : charsWithin n [] = [] := by
  cases n <;> rfl

theorem charsWithin_isPrefix (n : Nat) (cs : List Char) : charsWithin n cs <+: cs := by
  induction cs generalizing n with
  | nil => simp
  | cons c cs ih =>
      rw [charsWithin]
      split_ifs with hfits
      · exact (List.prefix_cons_inj c).mpr (ih _)
      · exact List.nil_prefix

theorem bytes_charsWithin_le (n : Nat) (cs : List Char) :
    ((charsWithin n cs).map Char.utf8Size).sum ≤ n := by
  induction cs generalizing n with
  | nil => exact Nat.zero_le _
  | cons c cs ih =>
      rw [charsWithin]
      split_ifs with hfits
      · have := ih (n - c.utf8Size)
        rw [List.map_cons, List.sum_cons]
        omega
      · exact Nat.zero_le _

/-- Only a character that does not fit is left out, and none takes more than four bytes. -/
theorem le_bytes_charsWithin (h : n < (cs.map Char.utf8Size).sum) :
    n ≤ ((charsWithin n cs).map Char.utf8Size).sum + 3 := by
  induction cs generalizing n with
  | nil => exact absurd h (Nat.not_lt_zero _)
  | cons c cs ih =>
      rw [List.map_cons, List.sum_cons] at h
      rw [charsWithin]
      split_ifs with hfits
      · have := @ih (n - c.utf8Size) (by omega)
        rw [List.map_cons, List.sum_cons]
        omega
      · have := c.utf8Size_le_four
        omega

/-- Where no character ends there is none to lose by going back one byte. -/
private theorem charsWithin_succ
    (h : ∀ start, start <+: cs → (start.map Char.utf8Size).sum ≠ n + 1) :
    charsWithin (n + 1) cs = charsWithin n cs := by
  induction cs generalizing n with
  | nil => rw [charsWithin_nil, charsWithin_nil]
  | cons c cs ih =>
      have hone : c.utf8Size ≠ n + 1 := by
        have := h [c] ((List.prefix_cons_inj c).mpr List.nil_prefix)
        rwa [List.map_cons, List.map_nil, List.sum_cons, List.sum_nil] at this
      rw [charsWithin, charsWithin]
      by_cases hfits : c.utf8Size ≤ n
      · rw [if_pos hfits, if_pos (by omega), Nat.sub_add_comm hfits]
        congr 1
        refine ih fun start hstart heq => h (c :: start) ((List.prefix_cons_inj c).mpr hstart) ?_
        rw [List.map_cons, List.sum_cons]
        omega
      · rw [if_neg hfits, if_neg (by omega)]

theorem charsWithin_backOff (n : Nat) :
    charsWithin (backOff s n) s.toList = charsWithin n s.toList := by
  induction n with
  | zero => rfl
  | succ n ih =>
      rw [backOff]
      split_ifs with hboundary
      · rfl
      · rw [ih]
        refine (charsWithin_succ fun start hstart heq => hboundary ?_).symm
        exact List.any_eq_true.mpr ⟨start, (List.mem_inits _ _).mpr hstart, by simpa using heq⟩

theorem charsWithin_of_le (h : (cs.map Char.utf8Size).sum ≤ n) : charsWithin n cs = cs := by
  induction cs generalizing n with
  | nil => exact charsWithin_nil
  | cons c cs ih =>
      rw [List.map_cons, List.sum_cons] at h
      rw [charsWithin, if_pos (by omega), ih (by omega)]

theorem truncateToBytes_eq (s : String) (n : Nat) :
    truncateToBytes s n = String.ofList (charsWithin n s.toList) := by
  rw [truncateToBytes]
  split_ifs with hfits
  · rw [charsWithin_of_le hfits, String.ofList_toList]
  · rw [charsWithin_backOff]

theorem truncateToBytes_isPrefix : (truncateToBytes s n).toList <+: s.toList := by
  rw [truncateToBytes_eq, String.toList_ofList]
  exact charsWithin_isPrefix n s.toList

theorem byteLength_truncateToBytes_le : byteLength (truncateToBytes s n) ≤ n := by
  rw [truncateToBytes_eq, byteLength_ofList]
  exact bytes_charsWithin_le n s.toList

theorem le_byteLength_truncateToBytes (h : n < byteLength s) :
    n ≤ byteLength (truncateToBytes s n) + 3 := by
  rw [truncateToBytes_eq, byteLength_ofList]
  exact le_bytes_charsWithin h

theorem truncateToBytes_of_le (h : byteLength s ≤ n) : truncateToBytes s n = s := if_pos h

theorem escapes_truncateToBytes_le (s : String) (n : Nat) :
    escapes (truncateToBytes s n) ≤ escapes s := by
  have hstart : (truncateToBytes s n).toList <+: s.toList := truncateToBytes_isPrefix
  obtain ⟨rest, hrest⟩ := hstart
  rw [escapes, escapes, ← hrest, List.map_append, List.sum_append]
  exact Nat.le_add_right ..

theorem trimContents_string {descend : Value → Nat → Value × Nat} :
    trimContents descend (.string s) n =
      (.string (truncateToBytes s n), n - (byteLength (truncateToBytes s n) + 2)) := by
  rw [trimContents]
  split_ifs with hcut
  · rfl
  · rw [truncateToBytes_of_le (Nat.le_of_not_lt hcut)]

end Texts

/-! ### The order of the fields -/

/-- Every object lists its keys in ascending order, each once. -/
inductive Ordered : Value → Prop
  | null : Ordered .null
  | bool (b : Bool) : Ordered (.bool b)
  | number (n : Number) : Ordered (.number n)
  | string (s : String) : Ordered (.string s)
  | array {values : List Value} (h : ∀ v ∈ values, Ordered v) : Ordered (.array values)
  | object {fields : List (String × Value)} (hkeys : fields.Pairwise fun a b => a.1 < b.1)
      (h : ∀ field ∈ fields, Ordered field.2) : Ordered (.object fields)

attribute [simp] Ordered.null Ordered.bool Ordered.number Ordered.string

@[simp] theorem ordered_array {values : List Value} :
    Ordered (.array values) ↔ ∀ v ∈ values, Ordered v := by
  constructor
  · rintro (_ | _ | _ | _ | h | _)
    exact h
  · exact .array

@[simp] theorem ordered_object {fields : List (String × Value)} :
    Ordered (.object fields) ↔
      (fields.Pairwise fun a b => a.1 < b.1) ∧ ∀ field ∈ fields, Ordered field.2 := by
  constructor
  · rintro (_ | _ | _ | _ | _ | ⟨hkeys, h⟩)
    exact ⟨hkeys, h⟩
  · exact fun h => .object h.1 h.2

/-- The values a container holds. -/
def children : Value → List Value
  | .array values => values
  | .object fields => fields.map Prod.snd
  | _ => []

theorem Ordered.child {v item : Value} (h : Ordered v) (hitem : item ∈ children v) :
    Ordered item := by
  cases h with
  | array h => exact h item hitem
  | object hkeys h =>
      obtain ⟨field, hfield, rfl⟩ := List.mem_map.mp hitem
      exact h field hfield
  | _ => exact absurd hitem List.not_mem_nil

theorem children_eq_nil {v : Value} (h : isNonemptyContainer v = false) : children v = [] := by
  cases v with
  | array values => simpa [isNonemptyContainer, children] using h
  | object fields => simpa [isNonemptyContainer, children] using h
  | _ => rfl

/-! ### The loops as runs of a budget -/

section Runs

variable {descend : Value → Nat → Value × Nat} {values : List Value}
  {fields : List (String × Value)} {remaining : Nat}

/-- A visit to a field's value. -/
def visitField (descend : Value → Nat → Value × Nat) (field : String × Value) (remaining : Nat) :
    (String × Value) × Nat :=
  ((field.1, (descend field.2 remaining).1), (descend field.2 remaining).2)

theorem trimElements_eq_spend :
    trimElements descend values remaining = spend descend (fun _ => 1) values remaining := by
  induction values generalizing remaining with
  | nil => rfl
  | cons item rest ih => simp only [trimElements, spend, ih]

private theorem cutFrom_mem {key : String}
    (h : (trimFields descend fields remaining).2.1 = some key) :
    ∃ field ∈ fields, field.1 = key := by
  induction fields generalizing remaining with
  | nil => exact absurd h.symm (Option.some_ne_none _)
  | cons field rest ih =>
      rw [trimFields] at h
      split_ifs at h with hzero
      · exact ⟨field, List.mem_cons_self .., Option.some.inj h⟩
      · obtain ⟨other, hother, hkey⟩ := ih h
        exact ⟨other, List.mem_cons_of_mem _ hother, hkey⟩

/-- With ascending keys, what `retain` leaves is what the loop has visited. -/
theorem trimFields_eq_spend (hkeys : fields.Pairwise fun a b => a.1 < b.1) :
    (retain (trimFields descend fields remaining).1 (trimFields descend fields remaining).2.1,
        (trimFields descend fields remaining).2.2) =
      spend (visitField descend) keyOverhead fields remaining := by
  induction fields generalizing remaining with
  | nil => rfl
  | cons field rest ih =>
      rw [List.pairwise_cons] at hkeys
      rcases Nat.eq_zero_or_pos remaining with rfl | hpos
      · have hnone : (field :: rest).filter (fun f => decide (f.1 < field.1)) = [] := by
          rw [List.filter_eq_nil_iff]
          intro other hother
          rw [decide_eq_true_iff, not_lt]
          rcases List.mem_cons.mp hother with rfl | hmem
          · exact le_rfl
          · exact (hkeys.1 other hmem).le
        rw [spend_zero]
        exact congrArg₂ Prod.mk hnone rfl
      · rw [spend_cons hpos, ← ih hkeys.2, trimFields, if_neg (Nat.pos_iff_ne_zero.mp hpos)]
        dsimp only [visitField]
        rw [← Prod.mk.eta (p := field)]
        cases hcut : (trimFields descend rest
            ((descend field.2 remaining).2 - keyOverhead field)).2.1 with
        | none => rfl
        | some key =>
            obtain ⟨other, hother, rfl⟩ := cutFrom_mem hcut
            have hlt : field.1 < other.1 := hkeys.1 other hother
            simp only [retain, List.filter_cons, hlt, decide_true, if_true]

theorem trimContents_array :
    trimContents descend (.array values) remaining =
      (.array (spend descend (fun _ => 1) values remaining).1,
        (spend descend (fun _ => 1) values remaining).2 - 2) := by
  rw [← trimElements_eq_spend]
  rfl

theorem trimContents_object (hkeys : fields.Pairwise fun a b => a.1 < b.1) :
    trimContents descend (.object fields) remaining =
      (.object (spend (visitField descend) keyOverhead fields remaining).1,
        (spend (visitField descend) keyOverhead fields remaining).2 - 2) := by
  rw [← trimFields_eq_spend hkeys]
  rfl

end Runs

end Rustrak.Trimming
