import Mathlib.Data.List.Infix
import Mathlib.Tactic.Common

/-!
# LIKE

A pattern is a text in which `_` stands for any character and `%` for any text.  Which
characters are taken for the same is the database's (`same`): some look at the case of a
letter and some do not.  Escapes are left out.

A stem is a pattern without `%`.  What a stem followed by `%` matches is read off from the
left: chunk for chunk where the lengths are known (`fits_chunk`), and up to a separator
where they are not (`fits_cut`).
-/

namespace Rustrak.Relational

section Definitions

variable (same : Char → Char → Bool)

/-- `text LIKE pattern`. -/
def like : List Char → List Char → Bool
  | [], text => text.isEmpty
  | p :: pattern, text =>
      if p = '%' then text.tails.any (like pattern)
      else
        match text with
        | [] => false
        | c :: text => (p == '_' || same p c) && like pattern text

/-- The stem matches what the text begins with. -/
def fits : List Char → List Char → Bool
  | [], _ => true
  | _ :: _, [] => false
  | p :: stem, c :: text => (p == '_' || same p c) && fits stem text

end Definitions

variable {same : Char → Char → Bool}

theorem like_percent (text : List Char) : like same ['%'] text = true := by
  cases text with
  | nil => simp [like]
  | cons c text => simp [like, List.mem_tails]

theorem like_stem {stem : List Char} (hstem : '%' ∉ stem) (text : List Char) :
    like same (stem ++ ['%']) text = fits same stem text := by
  induction stem generalizing text with
  | nil =>
      rw [List.nil_append, like_percent]
      rfl
  | cons p stem ih =>
      obtain ⟨hp, hstem⟩ := List.ne_and_not_mem_of_not_mem_cons hstem
      cases text with
      | nil => simp [like, fits, Ne.symm hp]
      | cons c text => simp [like, fits, Ne.symm hp, ih hstem]

/-! ## Texts in which only equal characters are the same -/

section Plain

variable {plain : Char → Prop} (hsame : ∀ c d, plain c → plain d → (same c d = true ↔ c = d))
include hsame

/-- A chunk of the pattern stands against as many characters of the text. -/
theorem fits_chunk {chunk chunk' rest rest' : List Char} (hlength : chunk.length = chunk'.length)
    (hplain : ∀ c ∈ chunk, plain c ∧ c ≠ '_') (hplain' : ∀ c ∈ chunk', plain c) :
    fits same (chunk ++ rest) (chunk' ++ rest') = true ↔
      chunk = chunk' ∧ fits same rest rest' = true := by
  induction chunk generalizing chunk' with
  | nil =>
      obtain rfl := List.eq_nil_of_length_eq_zero hlength.symm
      simp
  | cons c chunk ih =>
      cases chunk' with
      | nil => cases hlength
      | cons d chunk' =>
          obtain ⟨hc, hwild⟩ := hplain c (List.mem_cons_self ..)
          have hd := hplain' d (List.mem_cons_self ..)
          have hrest := ih (Nat.succ.inj hlength) (fun x hx => hplain x (List.mem_cons_of_mem _ hx))
            (fun x hx => hplain' x (List.mem_cons_of_mem _ hx))
          simp only [List.cons_append, fits, Bool.and_eq_true, Bool.or_eq_true, beq_iff_eq, hwild,
            false_or, hsame c d hc hd, hrest, List.cons.injEq]
          tauto

/-- Two chunks that end at a separator none of them contains. -/
theorem fits_cut {sep : Char} {chunk chunk' rest rest' : List Char} (hsep : plain sep)
    (hwild : sep ≠ '_') (hplain : ∀ c ∈ chunk, plain c ∧ c ≠ '_' ∧ c ≠ sep)
    (hplain' : ∀ c ∈ chunk', plain c ∧ c ≠ sep) :
    fits same (chunk ++ sep :: rest) (chunk' ++ sep :: rest') = true ↔
      chunk = chunk' ∧ fits same rest rest' = true := by
  induction chunk generalizing chunk' with
  | nil =>
      cases chunk' with
      | nil => simp [fits, hwild, hsame sep sep hsep hsep]
      | cons d chunk' =>
          obtain ⟨hd, hne⟩ := hplain' d (List.mem_cons_self ..)
          simp [fits, hwild, hsame sep d hsep hd, Ne.symm hne]
  | cons c chunk ih =>
      obtain ⟨hc, hcwild, hcsep⟩ := hplain c (List.mem_cons_self ..)
      cases chunk' with
      | nil => simp [fits, hcwild, hsame c sep hc hsep, hcsep]
      | cons d chunk' =>
          obtain ⟨hd, _⟩ := hplain' d (List.mem_cons_self ..)
          have hrest := ih (fun x hx => hplain x (List.mem_cons_of_mem _ hx))
            (fun x hx => hplain' x (List.mem_cons_of_mem _ hx))
          simp only [List.cons_append, fits, Bool.and_eq_true, Bool.or_eq_true, beq_iff_eq, hcwild,
            false_or, hsame c d hc hd, hrest, List.cons.injEq]
          tauto

/-- A text is matched by itself and what may follow. -/
theorem fits_append {text rest : List Char} (hplain : ∀ c ∈ text, plain c) :
    fits same text (text ++ rest) = true := by
  induction text with
  | nil => rfl
  | cons c text ih =>
      have hc := hplain c (List.mem_cons_self ..)
      simp [fits, hsame c c hc hc, ih fun x hx => hplain x (List.mem_cons_of_mem _ hx)]

end Plain

end Rustrak.Relational
