import Mathlib.Data.List.Basic
import Mathlib.Data.List.Forall2
import Mathlib.Data.List.Nodup

/-!
# Items replaced by their answers

Some items of a list are handled: they are taken out from the back to the front and each is
answered with a list, and the answers are put in their place.  What results is a block for each
item, in the order of the items (`blocks`).  A handled item's block has its answer, back to front;
any other item is its own block.

Two loops do this: one counts the handled items from the back (`weaveFrom`), and one knows each
item's own position (`placeFrom`).
-/

namespace Rustrak.Weaving

variable {F C : Type*} (handled : F → Bool) (merge : F → C → F)

/-- The block of each item, the answers numbered from the back. -/
def blocks (answer : ℕ → List C) : List F → List (List F)
  | [] => []
  | item :: rest =>
      (if handled item then ((answer (rest.countP handled)).map (merge item)).reverse else [item]) ::
        blocks answer rest

/-- The items back to front, with a count of the handled ones. -/
def weaveFrom (answer : ℕ → List C) : ℕ → List F → List F
  | _, [] => []
  | n, item :: items =>
      if handled item then (answer n).map (merge item) ++ weaveFrom answer (n + 1) items
      else item :: weaveFrom answer n items

/-- The items with their positions. -/
def placeFrom (matching : ℕ → List C) : ℕ → List F → List F
  | _, [] => []
  | i, item :: items =>
      (if matching i ≠ [] then (matching i).map (merge item)
        else if handled item then [] else [item]) ++ placeFrom matching (i + 1) items

variable {handled merge} {answer matching : ℕ → List C} {items : List F}

@[simp] theorem length_blocks : (blocks handled merge answer items).length = items.length := by
  induction items with
  | nil => rfl
  | cons item items ih => rw [blocks, List.length_cons, List.length_cons, ih]

theorem getElem?_blocks (i : ℕ) : (blocks handled merge answer items)[i]? =
    items[i]?.map fun item =>
      if handled item then
        ((answer ((items.drop (i + 1)).countP handled)).map (merge item)).reverse
      else [item] := by
  induction items generalizing i with
  | nil => rfl
  | cons item items ih =>
      cases i with
      | zero => rfl
      | succ i =>
          rw [blocks, List.getElem?_cons_succ, List.getElem?_cons_succ, ih, List.drop_succ_cons]

theorem weaveFrom_append (n : ℕ) (items others : List F) :
    weaveFrom handled merge answer n (items ++ others) =
      weaveFrom handled merge answer n items ++
        weaveFrom handled merge answer (n + items.countP handled) others := by
  induction items generalizing n with
  | nil => rfl
  | cons item items ih =>
      rw [List.cons_append, weaveFrom, weaveFrom]
      by_cases hitem : handled item = true
      · rw [if_pos hitem, if_pos hitem, ih, List.countP_cons_of_pos hitem, List.append_assoc]
        congr 3
        omega
      · rw [if_neg hitem, if_neg hitem, ih, List.countP_cons_of_neg hitem, List.cons_append]

/-- Counting from the back finds every answer's item. -/
theorem reverse_weaveFrom :
    (weaveFrom handled merge answer 0 items.reverse).reverse =
      (blocks handled merge answer items).flatten := by
  induction items with
  | nil => rfl
  | cons item items ih =>
      rw [List.reverse_cons, weaveFrom_append, List.reverse_append, ih, blocks, List.flatten_cons,
        List.countP_reverse, Nat.zero_add]
      congr 1
      by_cases hitem : handled item = true
      · simp [weaveFrom, hitem]
      · simp [weaveFrom, hitem]

/-- Positions find every answer's item, if they have no more than the answers. -/
theorem placeFrom_eq {n : ℕ}
    (hhandled : ∀ i item, items[i]? = some item → handled item = true →
      matching (n + i) = (answer ((items.drop (i + 1)).countP handled)).reverse)
    (hother : ∀ i item, items[i]? = some item → handled item = false → matching (n + i) = []) :
    placeFrom handled merge matching n items = (blocks handled merge answer items).flatten := by
  induction items generalizing n with
  | nil => rfl
  | cons item items ih =>
      have hrest : placeFrom handled merge matching (n + 1) items =
          (blocks handled merge answer items).flatten := by
        apply ih
        · intro i other hi hhandle
          have hnext := hhandled (i + 1) other hi hhandle
          rwa [← Nat.add_assoc, Nat.add_right_comm] at hnext
        · intro i other hi hhandle
          have hnext := hother (i + 1) other hi hhandle
          rwa [← Nat.add_assoc, Nat.add_right_comm] at hnext
      rw [placeFrom, blocks, List.flatten_cons, hrest]
      congr 1
      cases hitem : handled item with
      | true =>
          have hmatching := hhandled 0 item rfl hitem
          rw [Nat.add_zero, List.drop_succ_cons, List.drop_zero] at hmatching
          simp only [hmatching, if_true, ← List.map_reverse]
          by_cases hempty : (answer (items.countP handled)).reverse = []
          · rw [if_neg (not_not.mpr hempty), hempty, List.map_nil]
          · rw [if_pos hempty]
      | false =>
          have hmatching := hother 0 item rfl hitem
          rw [Nat.add_zero] at hmatching
          simp [hmatching]

/-- Where the handled items are. -/
def positions (handled : F → Bool) : ℕ → List F → List ℕ
  | _, [] => []
  | i, item :: items =>
      if handled item then i :: positions handled (i + 1) items else positions handled (i + 1) items

/-! ## What results -/

/-- The items with the handled ones replaced: `bs` has a block for each item in its place, an item
that is not handled is its own, and the answers belong to the handled items from the back. -/
structure Rewoven (handled : F → Bool) (merge : F → C → F) (items : List F)
    (answers : List (List C)) (bs : List (List F)) (result : List F) : Prop where
  result_eq : result = bs.flatten
  one_each : bs.length = items.length
  answered : answers.length = items.countP handled
  unchanged : ∀ (i : ℕ) (item : F), items[i]? = some item → handled item = false →
    bs[i]? = some [item]
  merged : ∀ (i : ℕ) (item : F), items[i]? = some item → handled item = true →
    ∃ answer, answers[(items.drop (i + 1)).countP handled]? = some answer ∧
      bs[i]? = some (answer.map (merge item)).reverse

/-- The handled items before a handled one, itself, and those behind it. -/
theorem countP_split {i : ℕ} {item : F} (hitem : items[i]? = some item)
    (hhandled : handled item = true) :
    items.countP handled =
      (items.take i).countP handled + 1 + (items.drop (i + 1)).countP handled := by
  obtain ⟨hi, rfl⟩ := List.getElem?_eq_some_iff.mp hitem
  have hsplit : items.take i ++ items[i] :: items.drop (i + 1) = items := by
    rw [← List.drop_eq_getElem_cons hi, List.take_append_drop]
  calc items.countP handled
      = (items.take i ++ items[i] :: items.drop (i + 1)).countP handled := by rw [hsplit]
    _ = _ := by
        rw [List.countP_append, List.countP_cons_of_pos hhandled]
        omega

theorem rewoven_blocks {answers : List (List C)} (h : answers.length = items.countP handled) :
    Rewoven handled merge items answers
      (blocks handled merge (fun k => answers.getD k []) items)
      (blocks handled merge (fun k => answers.getD k []) items).flatten where
  result_eq := rfl
  one_each := length_blocks
  answered := h
  unchanged i item hitem hother := by
    rw [getElem?_blocks, hitem, Option.map_some, hother]
    rfl
  merged i item hitem hhandled := by
    have hcount : (items.drop (i + 1)).countP handled < answers.length := by
      have hsplit := countP_split hitem hhandled
      omega
    refine ⟨answers[(items.drop (i + 1)).countP handled], List.getElem?_eq_getElem hcount, ?_⟩
    rw [getElem?_blocks, hitem, Option.map_some, if_pos hhandled, List.getD_eq_getElem?_getD,
      List.getElem?_eq_getElem hcount, Option.getD_some]

/-- Nothing happens to items of which none is handled. -/
theorem flatten_blocks (h : items.countP handled = 0) :
    (blocks handled merge answer items).flatten = items := by
  induction items with
  | nil => rfl
  | cons item items ih =>
      have hitem : ¬handled item = true := fun hitem => by
        rw [List.countP_cons_of_pos hitem] at h
        omega
      rw [List.countP_cons_of_neg hitem] at h
      rw [blocks, List.flatten_cons, ih h, if_neg hitem, List.singleton_append]

/-- The first handled item is answered last. -/
theorem countP_drop_eq {i : ℕ} {item : F} (hitem : items[i]? = some item)
    (hhandled : handled item = true)
    (h : (items.drop (i + 1)).countP handled + 1 = items.countP handled) :
    ∀ j < i, ∀ other, items[j]? = some other → handled other = false := by
  intro j hj other hother
  have hsplit := countP_split hitem hhandled
  have hnone : (items.take i).countP handled = 0 := by omega
  have hmem : other ∈ items.take i :=
    List.mem_of_getElem? ((List.getElem?_take_of_lt hj).trans hother)
  exact Bool.not_eq_true _ ▸ List.countP_eq_zero.mp hnone other hmem

/-! ## Answers told apart by a number -/

section Answers

variable {number : C → ℕ} {numbers : List ℕ} {answers : List (List C)}

theorem number_mem
    (h : List.Forall₂ (fun i answer => ∀ c ∈ answer, number c = i) numbers answers) {c : C}
    (hc : c ∈ answers.flatten) : number c ∈ numbers := by
  induction h with
  | nil => simp at hc
  | @cons j answer numbers answers hanswer hrest ih =>
      rw [List.flatten_cons, List.mem_append] at hc
      cases hc with
      | inl hc => exact List.mem_cons.mpr (.inl (hanswer c hc))
      | inr hc => exact List.mem_cons_of_mem _ (ih hc)

/-- Answers that say which item they are for are found by its number. -/
theorem filter_flatten
    (h : List.Forall₂ (fun i answer => ∀ c ∈ answer, number c = i) numbers answers)
    (hnodup : numbers.Nodup) {k i : ℕ} (hk : numbers[k]? = some i) :
    answers.flatten.filter (fun c => number c = i) = answers.getD k [] := by
  induction h generalizing k with
  | nil => simp at hk
  | @cons j answer numbers answers hanswer hrest ih =>
      obtain ⟨hj, hnodup⟩ := List.nodup_cons.mp hnodup
      rw [List.flatten_cons, List.filter_append]
      cases k with
      | zero =>
          obtain rfl : j = i := Option.some.inj hk
          have hself : answer.filter (fun c => number c = j) = answer :=
            List.filter_eq_self.mpr fun c hc => decide_eq_true (hanswer c hc)
          have hothers : answers.flatten.filter (fun c => number c = j) = [] := by
            apply List.filter_eq_nil_iff.mpr
            intro c hc
            simp only [decide_eq_true_eq]
            rintro rfl
            exact hj (number_mem hrest hc)
          rw [hself, hothers, List.append_nil]
          rfl
      | succ k =>
          have hi : i ∈ numbers := List.mem_of_getElem? hk
          have hnone : answer.filter (fun c => number c = i) = [] := by
            apply List.filter_eq_nil_iff.mpr
            intro c hc
            simp only [decide_eq_true_eq]
            rintro rfl
            exact hj (hanswer c hc ▸ hi)
          rw [hnone, List.nil_append]
          exact ih hnodup hk

/-- The same for items that are numbered one after the other. -/
theorem filter_flatten_range {n : ℕ}
    (h : List.Forall₂ (fun i answer => ∀ c ∈ answer, number c = i) (List.range' 0 n) answers)
    (k : ℕ) : answers.flatten.filter (fun c => number c = k) = answers.getD k [] := by
  have hlength : n = answers.length := by simpa using h.length_eq
  by_cases hk : k < n
  · apply filter_flatten h List.nodup_range'
    rw [List.getElem?_range' hk, Nat.zero_add, Nat.one_mul]
  · have hnone : answers.getD k [] = [] := by
      rw [List.getD_eq_getElem?_getD, List.getElem?_eq_none (hlength ▸ Nat.le_of_not_lt hk),
        Option.getD_none]
    rw [hnone]
    apply List.filter_eq_nil_iff.mpr
    intro c hc
    have hmem := List.mem_range'_1.mp (number_mem h hc)
    simp only [decide_eq_true_eq]
    omega

theorem number_eq {n : ℕ}
    (h : List.Forall₂ (fun i answer => ∀ c ∈ answer, number c = i) (List.range' 0 n) answers)
    {k : ℕ} {answer : List C} (hk : answers[k]? = some answer) : ∀ c ∈ answer, number c = k := by
  obtain ⟨hlt, rfl⟩ := List.getElem?_eq_some_iff.mp hk
  obtain ⟨hlength, hall⟩ := List.forall₂_iff_get.mp h
  intro c hc
  have hnumber := hall k (hlength ▸ hlt) hlt c hc
  rwa [List.get_eq_getElem, List.getElem_range', Nat.zero_add, Nat.one_mul] at hnumber

end Answers

/-! ## Answers told apart by a position -/

section Positions

theorem map_snd_filter_zipIdx (n : ℕ) :
    ((items.zipIdx n).filter fun item => handled item.1).map Prod.snd =
      positions handled n items := by
  induction items generalizing n with
  | nil => rfl
  | cons item items ih =>
      rw [List.zipIdx_cons, List.filter_cons, positions, ← ih]
      cases handled item <;> rfl

theorem length_positions (n : ℕ) : (positions handled n items).length = items.countP handled := by
  induction items generalizing n with
  | nil => rfl
  | cons item items ih =>
      rw [positions]
      by_cases hitem : handled item = true
      · rw [if_pos hitem, List.length_cons, ih, List.countP_cons_of_pos hitem]
      · rw [if_neg hitem, ih, List.countP_cons_of_neg hitem]

theorem mem_positions {n i : ℕ} (h : i ∈ positions handled n items) :
    n ≤ i ∧ ∃ item, items[i - n]? = some item ∧ handled item = true := by
  induction items generalizing n with
  | nil => cases h
  | cons item items ih =>
      have hrest (h : i ∈ positions handled (n + 1) items) :
          n ≤ i ∧ ∃ other, (item :: items)[i - n]? = some other ∧ handled other = true := by
        obtain ⟨hle, other, hother, hhandled⟩ := ih h
        refine ⟨by omega, other, ?_, hhandled⟩
        rwa [show i - n = i - (n + 1) + 1 by omega, List.getElem?_cons_succ]
      rw [positions] at h
      split_ifs at h with hitem
      · cases List.mem_cons.mp h with
        | inl h => exact ⟨Nat.le_of_eq h.symm, item, by rw [h, Nat.sub_self, List.getElem?_cons_zero], hitem⟩
        | inr h => exact hrest h
      · exact hrest h

theorem nodup_positions (n : ℕ) : (positions handled n items).Nodup := by
  induction items generalizing n with
  | nil => exact List.nodup_nil
  | cons item items ih =>
      rw [positions]
      split_ifs
      · refine List.nodup_cons.mpr ⟨fun hmem => ?_, ih _⟩
        have hle := (mem_positions hmem).1
        omega
      · exact ih _

/-- Behind a handled item are as many positions as handled items. -/
theorem getElem?_reverse_positions {n i : ℕ} {item : F} (hitem : items[i]? = some item)
    (hhandled : handled item = true) :
    (positions handled n items).reverse[(items.drop (i + 1)).countP handled]? = some (n + i) := by
  induction items generalizing n i with
  | nil => cases hitem
  | cons first items ih =>
      cases i with
      | zero =>
          obtain rfl := Option.some.inj hitem
          rw [positions, if_pos hhandled, List.reverse_cons, List.drop_succ_cons, List.drop_zero,
            ← length_positions (n + 1), ← List.length_reverse, List.getElem?_concat_length,
            Nat.add_zero]
      | succ i =>
          have hrest := @ih (n + 1) i hitem
          rw [Nat.add_right_comm, Nat.add_assoc] at hrest
          rw [List.drop_succ_cons]
          have hlt := (List.getElem?_eq_some_iff.mp hrest).1
          rw [positions]
          split_ifs
          · rw [List.reverse_cons, List.getElem?_append_left hlt, hrest]
          · exact hrest

variable {number : C → ℕ} {answers : List (List C)}

/-- Answers from the back that say where they belong are put there. -/
theorem placeFrom_answers
    (h : List.Forall₂ (fun i answer => ∀ c ∈ answer, number c = i)
      (positions handled 0 items).reverse answers) :
    placeFrom handled merge (fun i => answers.flatten.reverse.filter fun c => number c = i) 0
      items = (blocks handled merge (fun k => answers.getD k []) items).flatten := by
  apply placeFrom_eq
  · intro i item hitem hhandled
    rw [List.filter_reverse, filter_flatten h (List.nodup_reverse.mpr (nodup_positions 0))
      (getElem?_reverse_positions hitem hhandled)]
  · intro i item hitem hother
    apply List.filter_eq_nil_iff.mpr
    intro c hc hnumber
    have hmem := number_mem h (List.mem_reverse.mp hc)
    rw [of_decide_eq_true hnumber, Nat.zero_add] at hmem
    obtain ⟨-, other, hat, hhandled⟩ := mem_positions (List.mem_reverse.mp hmem)
    rw [Nat.sub_zero, hitem, Option.some.injEq] at hat
    rw [← hat, hother] at hhandled
    cases hhandled

end Positions

end Rustrak.Weaving
