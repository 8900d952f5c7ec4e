import Rustrak.Trimming.Charges
import Mathlib.Algebra.Order.Ring.Int

/-!
# How large a trimmed databag is

Neither way does the charge agree with the serialised size.  It counts a comma behind the last
entry of each container, so a value that fits the budget may still lose its last entries: it is
left as it is exactly when the budget is no less than its `need`.  And it counts a text by its
bytes before they are escaped, a key only after its value, and the brackets of a container only
at its end, so the result may exceed the budget: by `excess` at most, and by as much for some
budget.
-/

namespace Rustrak.Trimming

open Rustrak.Core Rustrak.Core.Value Rustrak.Budget

/-- No non-empty container lies deeper. -/
def NestsWithin : Nat → Value → Prop
  | 0, v => isNonemptyContainer v = false
  | depth + 1, v => ∀ item ∈ children v, NestsWithin depth item

def needContents (inner own : Value → Nat) : Value → Nat
  | .string s => byteLength s
  | .array values => Budget.need inner (fun _ => 1) own values
  | .object fields =>
      Budget.need (fun field => inner field.2) keyOverhead (fun field => own field.2) fields
  | _ => 0

/-- The least budget that leaves a value as it is. -/
def need : Nat → Value → Nat
  | 0, v => needContents (fun _ => 0) (fun _ => 0) v
  | depth + 1, v => needContents (charge depth) (need depth) v

section Need

variable {trim : Value → Nat → Value × Nat} {full : Value → Value} {inner own : Value → Nat}
  {ok : Value → Prop} {v : Value} {depth remaining maxBytes maxDepth : Nat}

theorem trimContents_eq_self_iff (hordered : Ordered v)
    (hcharged : ∀ item ∈ children v, Charged trim full inner item)
    (hsame : ∀ item ∈ children v, ∀ left, (trim item left).1 = item ↔ ok item ∧ own item ≤ left) :
    (trimContents trim v remaining).1 = v ↔
      (∀ item ∈ children v, ok item) ∧ needContents inner own v ≤ remaining := by
  cases hordered with
  | string s =>
      rw [trimContents_string, needContents, string.injEq]
      constructor
      · intro heq
        refine ⟨fun item hitem => absurd hitem List.not_mem_nil, ?_⟩
        rw [← heq]
        exact byteLength_truncateToBytes_le
      · exact fun h => truncateToBytes_of_le h.2
  | @array values _ =>
      rw [trimContents_array, needContents, array.injEq]
      exact spend_eq_self_iff (fun item hitem => (hcharged item hitem).element)
        fun item hitem left _ => hsame item hitem left
  | @object fields hkeys _ =>
      rw [trimContents_object hkeys, needContents, object.injEq, children, List.forall_mem_map]
      refine spend_eq_self_iff
        (fun field hfield => (hcharged field.2 (List.mem_map_of_mem hfield)).field)
        fun field hfield left _ => ?_
      rw [← hsame field.2 (List.mem_map_of_mem hfield) left, visitField, Prod.ext_iff]
      exact and_iff_right rfl
  | _ => exact ⟨fun _ => ⟨fun item hitem => absurd hitem List.not_mem_nil, Nat.zero_le _⟩,
      fun _ => rfl⟩

/-- A value is left as it is exactly when its containers are within the depth and the budget
is no less than its need. -/
theorem trimValue_eq_self_iff (hordered : Ordered v) :
    (trimValue depth v remaining).1 = v ↔ NestsWithin depth v ∧ need depth v ≤ remaining := by
  induction depth generalizing v remaining with
  | zero =>
      cases hdeep : isNonemptyContainer v with
      | true =>
          rw [trimValue_deep hdeep, NestsWithin, hdeep]
          constructor
          · rintro rfl
            exact absurd hdeep Bool.false_ne_true
          · exact fun h => absurd h.1.symm Bool.false_ne_true
      | false =>
          rw [trimValue_flat hdeep, NestsWithin, need, and_iff_right hdeep]
          have hcontents := @trimContents_eq_self_iff Prod.mk id (fun _ => 0) (fun _ => 0)
            (fun _ => True) v remaining hordered
            (fun item hitem => absurd hitem (not_mem_children hdeep))
            fun item hitem => absurd hitem (not_mem_children hdeep)
          rwa [and_iff_right fun _ _ => trivial] at hcontents
  | succ depth ih =>
      exact trimContents_eq_self_iff hordered
        (fun item hitem => charged (hordered.child hitem))
        fun item hitem left => ih (hordered.child hitem)

/-- A value of no more than `maxDepth` levels, of whatever size, is left as it is exactly when
the budget is no less than its need. -/
theorem trimDatabag_eq_self_iff (hordered : Ordered v) (hnests : NestsWithin maxDepth v) :
    trimDatabag v maxBytes maxDepth = v ↔ need maxDepth v ≤ maxBytes :=
  (trimValue_eq_self_iff hordered).trans (and_iff_right hnests)

/-- Nothing is asked for what stands behind the last element. -/
theorem trimDatabag_pair :
    trimDatabag (.array [.array [.number (.int 1)], .number (.int 2)]) 6 2 =
        .array [.array [.number (.int 1)], .number (.int 2)] ↔
      need 2 (.array [.array [.number (.int 1)], .number (.int 2)]) ≤ 6 :=
  trimDatabag_eq_self_iff (by simp) (by simp [NestsWithin, children, isNonemptyContainer])

/-- `[[1],[1],[1],2]` is fifteen bytes long, and trimming to fifteen bytes drops the `2`: a
comma is taken behind the last entry of each inner array and two brackets besides. -/
theorem trimDatabag_drops_what_fits :
    ∃ v, Ordered v ∧ v.size ≤ 15 ∧ NestsWithin 5 v ∧ trimDatabag v 15 5 ≠ v := by
  refine ⟨.array [.array [.number (.int 1)], .array [.number (.int 1)], .array [.number (.int 1)],
    .number (.int 2)], by simp, by decide +kernel,
    by simp [NestsWithin, children, isNonemptyContainer], fun heq => ?_⟩
  exact absurd (congrArg toJson heq) (by decide +kernel)

end Need

/-! ### By how much the result exceeds the budget -/

/-- By how much a value that is visited in full is larger than what it takes. -/
def netContents (inner : Value → Int) : Value → Int
  | .string s => escapes s
  | .array values => (values.map inner).sum - min 1 values.length
  | .object fields =>
      (fields.map fun field => inner field.2 + escapes field.1).sum - min 1 fields.length
  | _ => 0

def net : Nat → Value → Int := byDepth 0 netContents

/-- The most by which a value that is visited with anything left exceeds what is left, from
what its entries add when they are visited in full (`inner`) and when they are the last
(`last`).  Brackets, keys and escapes are what nothing is taken for by then. -/
def topContents (inner last : Value → Int) : Value → Int
  | .string s => if s = "" then 1 else escapes s + 2
  | .array values => if values = [] then 1 else overrun inner last values + 2
  | .object fields =>
      if fields = [] then 1 else
        overrun (fun field => inner field.2 + escapes field.1)
          (fun field => byteLength field.1 + escapes field.1 + 3 + last field.2) fields + 2
  | other => other.size - 1

def top : Nat → Value → Int
  | 0, v => if isNonemptyContainer v then 3 else topContents (fun _ => 0) (fun _ => 0) v
  | depth + 1, v => topContents (net depth) (top depth) v

def bareContents : Value → Nat
  | .string _ | .array _ | .object _ => 2
  | other => other.size

/-- The size of what is left when there is no budget at all. -/
def bare : Nat → Value → Nat
  | 0, v => if isNonemptyContainer v then 4 else bareContents v
  | _ + 1, v => bareContents v

/-- The most by which what is left of a value exceeds the budget. -/
def excess (depth : Nat) (v : Value) : Int := max (bare depth v) (top depth v)

section Excess

variable {trim : Value → Nat → Value × Nat} {full : Value → Value} {inner : Value → Nat}
  {own last : Value → Int} {v : Value} {depth remaining maxDepth constant : Nat}

theorem size_array_eq_width (values : List Value) :
    (array values).size = width size values + 2 := size_array values

theorem size_object_eq_width (fields : List (String × Value)) :
    (object fields).size = width fieldSize fields + 2 := size_object fields

private theorem element_net {item : Value}
    (h : ((full item).size : Int) = inner item + own item) :
    ((full item).size : Int) + 1 = inner item + (1 : Nat) + own item := by
  omega

private theorem field_net {field : String × Value}
    (h : ((full field.2).size : Int) = inner field.2 + own field.2) :
    (fieldSize (field.1, full field.2) : Int) + 1 =
      inner field.2 + keyOverhead field + (own field.2 + escapes field.1) := by
  simp only [fieldSize, keyOverhead]
  omega

theorem size_cappedContents
    (h : ∀ item ∈ children v, ((full item).size : Int) = inner item + own item) :
    ((cappedContents full v).size : Int) = chargeContents inner v + netContents own v := by
  cases v with
  | string s =>
      have hsize := size_string s
      simp only [cappedContents, chargeContents, netContents]
      omega
  | array values =>
      simp only [cappedContents, chargeContents, netContents, size_array_eq_width]
      cases values with
      | nil => rfl
      | cons item rest =>
          have hwidth : (width size ((item :: rest).map full) : Int) + 1 =
              total inner (fun _ => 1) (item :: rest) + ((item :: rest).map own).sum :=
            width_full (fun item hitem => element_net (h item hitem)) (List.cons_ne_nil _ _)
          rw [List.length_cons]
          omega
  | object fields =>
      simp only [cappedContents, chargeContents, netContents, size_object_eq_width]
      cases fields with
      | nil => rfl
      | cons field rest =>
          have hwidth : (width fieldSize
                ((field :: rest).map fun field => (field.1, full field.2)) : Int) + 1 =
              total (fun field => inner field.2) keyOverhead (field :: rest) +
                ((field :: rest).map fun field => own field.2 + escapes field.1).sum :=
            width_full (fun field hfield => field_net (h field.2 (List.mem_map_of_mem hfield)))
              (List.cons_ne_nil _ _)
          rw [List.length_cons]
          omega
  | _ => exact (Int.add_zero _).symm

/-- What is left of a value that is visited in full is what it takes and its net. -/
theorem size_capped : ((capped depth v).size : Int) = charge depth v + net depth v := by
  induction depth generalizing v with
  | zero =>
      cases hdeep : isNonemptyContainer v with
      | true =>
          rw [capped, charge, net, byDepth_deep hdeep, byDepth_deep hdeep, byDepth_deep hdeep]
          decide
      | false =>
          rw [capped, charge, net, byDepth_flat hdeep, byDepth_flat hdeep, byDepth_flat hdeep]
          exact size_cappedContents fun item hitem => absurd hitem (not_mem_children hdeep)
  | succ depth ih => exact size_cappedContents fun item _ => ih

/-- A value exceeds what it finds by no more than its `top`. -/
theorem size_trimContents_le (hordered : Ordered v)
    (hcharged : ∀ item ∈ children v, Charged trim full inner item)
    (hsize : ∀ item ∈ children v, ((full item).size : Int) = inner item + own item)
    (hlast : ∀ item ∈ children v, ∀ left, 0 < left →
      ((trim item left).1.size : Int) ≤ left + last item) (hpos : 0 < remaining) :
    ((trimContents trim v remaining).1.size : Int) ≤ remaining + topContents own last v := by
  cases hordered with
  | string s =>
      have hle : byteLength (truncateToBytes s remaining) ≤ remaining :=
        byteLength_truncateToBytes_le
      -- What is left of a text has no more escapes than the text.
      have hescapes := escapes_truncateToBytes_le s remaining
      rw [trimContents_string, size_string, topContents]
      split_ifs with hempty
      · subst hempty
        rw [truncateToBytes_of_le (Nat.zero_le _)]
        have hnone : byteLength "" + escapes "" = 0 := by decide
        omega
      · omega
  | @array values _ =>
      rw [trimContents_array, size_array_eq_width, topContents]
      split_ifs with hnil
      · subst hnil
        rw [spend_nil, width_nil]
        omega
      · have hwidth : (width size (spend trim (fun _ => 1) values remaining).1 : Int) ≤
            remaining + overrun own last values :=
          width_spend_le (fun item hitem => (hcharged item hitem).element)
            (fun item hitem => element_net (hsize item hitem)) hlast hnil hpos
        omega
  | @object fields hkeys _ =>
      rw [trimContents_object hkeys, size_object_eq_width, topContents]
      split_ifs with hnil
      · subst hnil
        rw [spend_nil, width_nil]
        omega
      · have hvisit : ∀ field ∈ fields, ∀ left, 0 < left →
            (fieldSize (visitField trim field left).1 : Int) ≤
              left + (byteLength field.1 + escapes field.1 + 3 + last field.2) := by
          intro field hfield left hleft
          have := hlast field.2 (List.mem_map_of_mem hfield) left hleft
          simp only [fieldSize, visitField]
          omega
        have hwidth := width_spend_le
          (fun field hfield => (hcharged field.2 (List.mem_map_of_mem hfield)).field)
          (fun field hfield => field_net (hsize field.2 (List.mem_map_of_mem hfield)))
          hvisit hnil hpos
        omega
  | _ =>
      simp only [trimContents, topContents]
      omega

/-- And by as much for some budget. -/
theorem exists_le_size_trimContents (hordered : Ordered v)
    (hcharged : ∀ item ∈ children v, Charged trim full inner item)
    (hsize : ∀ item ∈ children v, ((full item).size : Int) = inner item + own item)
    (hlast : ∀ item ∈ children v, ∃ left : Nat, 0 < left ∧
      (left + last item : Int) ≤ (trim item left).1.size) :
    ∃ remaining : Nat, 0 < remaining ∧
      (remaining + topContents own last v : Int) ≤ (trimContents trim v remaining).1.size := by
  cases hordered with
  | string s =>
      simp only [trimContents_string, size_string, topContents]
      split_ifs with hempty
      · exact ⟨1, Nat.one_pos, by omega⟩
      · refine ⟨byteLength s, byteLength_pos hempty, ?_⟩
        rw [truncateToBytes_of_le le_rfl]
        omega
  | @array values _ =>
      simp only [trimContents_array, size_array_eq_width, topContents]
      split_ifs with hnil
      · exact ⟨1, Nat.one_pos, by omega⟩
      · have hexists : ∃ budget : Nat, 0 < budget ∧ (budget + overrun own last values : Int) ≤
            width size (spend trim (fun _ => 1) values budget).1 :=
          exists_le_width_spend (fun item hitem => (hcharged item hitem).element)
            (fun item hitem => element_net (hsize item hitem)) hlast hnil
        obtain ⟨budget, hpos, hwidth⟩ := hexists
        exact ⟨budget, hpos, by omega⟩
  | @object fields hkeys _ =>
      simp only [trimContents_object hkeys, size_object_eq_width, topContents]
      split_ifs with hnil
      · exact ⟨1, Nat.one_pos, by omega⟩
      · have hvisit : ∀ field ∈ fields, ∃ left : Nat, 0 < left ∧
            (left + (byteLength field.1 + escapes field.1 + 3 + last field.2) : Int) ≤
              fieldSize (visitField trim field left).1 := by
          intro field hfield
          obtain ⟨left, hleft, hle⟩ := hlast field.2 (List.mem_map_of_mem hfield)
          refine ⟨left, hleft, ?_⟩
          simp only [fieldSize, visitField]
          omega
        obtain ⟨budget, hpos, hwidth⟩ := exists_le_width_spend
          (fun field hfield => (hcharged field.2 (List.mem_map_of_mem hfield)).field)
          (fun field hfield => field_net (hsize field.2 (List.mem_map_of_mem hfield)))
          hvisit hnil
        exact ⟨budget, hpos, by omega⟩
  | _ => exact ⟨1, Nat.one_pos, by simp only [trimContents, topContents]; omega⟩

theorem size_trimValue_le (hordered : Ordered v) (hpos : 0 < remaining) :
    ((trimValue depth v remaining).1.size : Int) ≤ remaining + top depth v := by
  induction depth generalizing v remaining with
  | zero =>
      cases hdeep : isNonemptyContainer v with
      | true =>
          have hnull : null.size = 4 := by decide
          rw [trimValue_deep hdeep, top, if_pos hdeep, hnull]
          omega
      | false =>
          rw [trimValue_flat hdeep, top, hdeep, if_neg Bool.false_ne_true]
          exact @size_trimContents_le Prod.mk id (fun _ => 0) (fun _ => 0) (fun _ => 0) v
            remaining hordered (fun item hitem => absurd hitem (not_mem_children hdeep))
            (fun item hitem => absurd hitem (not_mem_children hdeep))
            (fun item hitem => absurd hitem (not_mem_children hdeep)) hpos
  | succ depth ih =>
      exact size_trimContents_le hordered (fun item hitem => charged (hordered.child hitem))
        (fun item _ => size_capped) (fun item hitem left hleft => ih (hordered.child hitem) hleft)
        hpos

theorem exists_le_size_trimValue (hordered : Ordered v) :
    ∃ remaining : Nat, 0 < remaining ∧
      (remaining + top depth v : Int) ≤ (trimValue depth v remaining).1.size := by
  induction depth generalizing v with
  | zero =>
      cases hdeep : isNonemptyContainer v with
      | true =>
          have hnull : null.size = 4 := by decide
          refine ⟨1, Nat.one_pos, ?_⟩
          rw [trimValue_deep hdeep, top, if_pos hdeep, hnull]
          omega
      | false =>
          simp only [trimValue_flat hdeep, top, hdeep]
          exact @exists_le_size_trimContents Prod.mk id (fun _ => 0) (fun _ => 0) (fun _ => 0) v
            hordered (fun item hitem => absurd hitem (not_mem_children hdeep))
            (fun item hitem => absurd hitem (not_mem_children hdeep))
            fun item hitem => absurd hitem (not_mem_children hdeep)
  | succ depth ih =>
      exact exists_le_size_trimContents hordered
        (fun item hitem => charged (hordered.child hitem)) (fun item _ => size_capped)
        fun item hitem => ih (hordered.child hitem)

theorem size_trimContents_zero (hordered : Ordered v) :
    (trimContents trim v 0).1.size = bareContents v := by
  cases hordered with
  | string s =>
      rw [trimContents_string, size_string, bareContents]
      have hle : byteLength (truncateToBytes s 0) ≤ 0 := byteLength_truncateToBytes_le
      have hempty : truncateToBytes s 0 = "" := by
        by_contra hne
        exact absurd (byteLength_pos hne) (by omega)
      rw [hempty]
      decide
  | @array values _ =>
      rw [trimContents_array, spend_zero, size_array_eq_width]
      rfl
  | @object fields hkeys _ =>
      rw [trimContents_object hkeys, spend_zero, size_object_eq_width]
      rfl
  | _ => rfl

/-- With no budget at all, what is left is bare. -/
theorem size_trimValue_zero (hordered : Ordered v) :
    (trimValue depth v 0).1.size = bare depth v := by
  cases depth with
  | zero =>
      rw [bare]
      cases hdeep : isNonemptyContainer v with
      | true =>
          rw [trimValue_deep hdeep, if_pos rfl]
          decide
      | false =>
          rw [trimValue_flat hdeep, if_neg Bool.false_ne_true]
          exact size_trimContents_zero hordered
  | succ depth => exact size_trimContents_zero hordered

/-- For a constant, every budget is kept but for the constant exactly when the excess of the
value is no more. -/
theorem size_trimDatabag_le_iff (hordered : Ordered v) :
    (∀ maxBytes, (trimDatabag v maxBytes maxDepth).size ≤ maxBytes + constant) ↔
      excess maxDepth v ≤ constant := by
  rw [excess, max_le_iff]
  constructor
  · intro h
    have htop : ∃ remaining : Nat, 0 < remaining ∧
        (remaining + top maxDepth v : Int) ≤ (trimValue maxDepth v remaining).1.size :=
      exists_le_size_trimValue hordered
    obtain ⟨budget, -, hbudget⟩ := htop
    -- No budget at all shows the bare value, and the budget of the top shows the excess.
    have hzero := h 0
    have hbound := h budget
    rw [trimDatabag, size_trimValue_zero hordered] at hzero
    rw [trimDatabag] at hbound
    exact ⟨by omega, by omega⟩
  · rintro ⟨hbare, htop⟩ maxBytes
    rw [trimDatabag]
    rcases Nat.eq_zero_or_pos maxBytes with rfl | hpos
    · rw [size_trimValue_zero hordered]
      omega
    · have hle : ((trimValue maxDepth v maxBytes).1.size : Int) ≤ maxBytes + top maxDepth v :=
        size_trimValue_le hordered hpos
      omega

/-- The text of a value in which a quote is escaped, a key is paid late and a bracket twice. -/
theorem size_trimDatabag_le_of_quote :
    (∀ maxBytes, (trimDatabag (.object [("key", .array [.string "\""])]) maxBytes 7).size ≤
        maxBytes + 13) ↔
      excess 7 (.object [("key", .array [.string "\""])]) ≤ 13 :=
  size_trimDatabag_le_iff (by simp)

/-- A text of quotes takes a byte for each and is twice as long when they are escaped, so no
constant will do. -/
theorem size_trimDatabag_unbounded :
    ¬∃ constant, ∀ v maxBytes maxDepth, Ordered v →
      (trimDatabag v maxBytes maxDepth).size ≤ maxBytes + constant := by
  rintro ⟨constant, h⟩
  have hbound := h (.string (String.ofList (List.replicate (constant + 1) '"'))) (constant + 1) 0
    (.string _)
  have hquote : Char.utf8Size '"' = 1 := by decide
  have hescaped : ((escaped '"').map Char.utf8Size).sum = 2 := by decide
  have hbytes : byteLength (String.ofList (List.replicate (constant + 1) '"')) = constant + 1 := by
    simp [hquote]
  have hescapes : escapes (String.ofList (List.replicate (constant + 1) '"')) = constant + 1 := by
    simp [escapes, hquote, hescaped]
  rw [trimDatabag, trimValue_flat rfl, trimContents_string, truncateToBytes_of_le hbytes.le,
    size_string, hbytes, hescapes] at hbound
  omega

end Excess

end Rustrak.Trimming
