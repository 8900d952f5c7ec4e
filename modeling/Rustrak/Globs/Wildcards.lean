import Mathlib.Data.List.Infix
import Mathlib.Tactic.Common

/-!
# Patterns with wildcards

In a pattern `star` stands for any text and `any` for any one character (`Matches`).  A
matcher that compares the characters before it looks for a wildcard reads a `star` as
itself where the text has one too (`Literally`).  Such a matching is settled from the left:
after a stretch compared character by character (`Along`), nothing is lost by going on
from its end only (`Along.literally`).
-/

namespace Rustrak.Globs

variable {α : Type*}

section Definitions

variable (star any : α)

/-- The text matches the pattern. -/
inductive Matches : List α → List α → Prop
  | nil : Matches [] []
  | star {p t : List α} (taken : List α) : Matches p t → Matches (star :: p) (taken ++ t)
  | one {c d : α} {p t : List α} :
      c ≠ star → c = any ∨ c = d → Matches p t → Matches (c :: p) (d :: t)

/-- A matching in which a `star` that stands before a `star` of the text takes exactly that
one. -/
inductive Literally : List α → List α → Prop
  | nil : Literally [] []
  | star {p t : List α} (taken : List α) :
      (taken ++ t).head? ≠ some star → Literally p t → Literally (star :: p) (taken ++ t)
  | one {c d : α} {p t : List α} :
      c = any ∨ c = d → Literally p t → Literally (c :: p) (d :: t)

/-- `q` and `u` are what is left of `p` and `t` after comparing character by character. -/
inductive Along : List α → List α → List α → List α → Prop
  | refl (p t : List α) : Along p t p t
  | one {c d : α} {p t q u : List α} :
      c = any ∨ c = d → Along p t q u → Along (c :: p) (d :: t) q u

end Definitions

variable {star any : α} {p t q u : List α} {c d : α}

theorem Literally.matches (h : Literally star any p t) : Matches star any p t := by
  induction h with
  | nil => exact .nil
  | star taken _ _ ih => exact .star taken ih
  | @one c d p t heq _ ih =>
      by_cases hc : c = star
      · subst hc
        exact .star [d] ih
      · exact .one hc heq ih

/-! ## Texts and patterns without the wildcard -/

/-- In a text without a `star` no reading is in doubt. -/
theorem Matches.literally_of_text (h : Matches star any p t) (hstar : star ∉ t) :
    Literally star any p t := by
  induction h with
  | nil => exact .nil
  | star taken _ ih =>
      have hhead : (taken ++ _).head? ≠ some star := fun hhead =>
        hstar (List.mem_of_mem_head? hhead)
      exact .star taken hhead (ih fun hmem => hstar (List.mem_append_right _ hmem))
  | one _ heq _ ih => exact .one heq (ih fun hmem => hstar (List.mem_cons_of_mem _ hmem))

theorem Matches.literally_of_pattern (h : Matches star any p t) (hstar : star ∉ p) :
    Literally star any p t := by
  induction h with
  | nil => exact .nil
  | star taken _ _ => exact absurd (List.mem_cons_self ..) hstar
  | one _ heq _ ih => exact .one heq (ih fun hmem => hstar (List.mem_cons_of_mem _ hmem))

/-! ## Reading from the left -/

theorem literally_nil : Literally star any p [] ↔ ∀ c ∈ p, c = star := by
  constructor
  · intro h
    generalize ht : ([] : List α) = t at h
    induction h with
    | nil => simp
    | star taken _ _ ih =>
        obtain ⟨-, rfl⟩ := List.append_eq_nil_iff.mp ht.symm
        simpa using ih rfl
    | one => cases ht
  · intro h
    induction p with
    | nil => exact .nil
    | cons c p ih =>
        obtain rfl := h c (List.mem_cons_self ..)
        have hp := ih fun d hd => h d (List.mem_cons_of_mem _ hd)
        exact .star [] (by simp) hp

theorem not_literally_nil_cons : ¬ Literally star any [] (d :: t) := by
  rintro ⟨⟩

/-- Where the characters agree there is no choice. -/
theorem literally_cons (hne : star ≠ any) (heq : c = any ∨ c = d) :
    Literally star any (c :: p) (d :: t) ↔ Literally star any p t := by
  refine ⟨fun h => ?_, .one heq⟩
  generalize ht : d :: t = u at h
  cases h with
  | star taken hhead h =>
      -- The `star` would stand before itself.
      rw [← ht] at hhead
      rcases heq with rfl | rfl
      · exact absurd rfl hne
      · exact absurd rfl hhead
  | one _ h =>
      cases ht
      exact h

theorem literally_star (hne : star ≠ any) (hd : d ≠ star) :
    Literally star any (star :: p) (d :: t) ↔ ∃ s, s <:+ d :: t ∧ Literally star any p s := by
  constructor
  · intro h
    generalize ht : d :: t = u at h
    cases h with
    | star taken _ h => exact ⟨_, List.suffix_append .., h⟩
    | one heq _ =>
        cases ht
        rcases heq with rfl | rfl
        · exact absurd rfl hne
        · exact absurd rfl hd
  · rintro ⟨s, ⟨taken, heq⟩, h⟩
    rw [← heq]
    refine .star taken ?_ h
    rw [heq]
    simpa using hd

theorem not_literally_cons (hc : c ≠ star) (heq : ¬ (c = any ∨ c = d)) :
    ¬ Literally star any (c :: p) (d :: t) := by
  intro h
  generalize ht : d :: t = u at h
  cases h with
  | star => exact hc rfl
  | one heq' _ =>
      cases ht
      exact heq heq'

/-- What a leading `star` leaves is matched by some end of the text. -/
theorem Literally.tail (h : Literally star any (star :: p) t) :
    ∃ s, s <:+ t ∧ Literally star any p s := by
  cases h with
  | star taken _ h => exact ⟨_, List.suffix_append .., h⟩
  | one _ h => exact ⟨_, List.suffix_cons .., h⟩

/-! ## Stretches -/

theorem Along.snoc (h : Along any p t (c :: q) (d :: u)) (heq : c = any ∨ c = d) :
    Along any p t q u := by
  generalize hq : c :: q = q', hu : d :: u = u' at h
  induction h with
  | refl =>
      cases hq
      cases hu
      exact .one heq (.refl ..)
  | one heq' _ ih => exact .one heq' (ih hq hu)

/-- Whatever end of the text the whole pattern matches, some end of what is left is matched
by what is left of the pattern. -/
theorem Along.literally (hne : star ≠ any) (h : Along any p t q u) {w : List α}
    (hw : w <:+ t) (hp : Literally star any p w) : ∃ s, s <:+ u ∧ Literally star any q s := by
  induction h generalizing w with
  | refl => exact ⟨w, hw, hp⟩
  | @one c d p t q u heq _ ih =>
      rcases List.suffix_cons_iff.mp hw with rfl | hw
      · exact ih (List.suffix_refl _) ((literally_cons hne heq).mp hp)
      -- The stretch is read elsewhere, where the same character may be a wildcard.
      cases hp with
      | star taken _ hp => exact ih ((List.suffix_append ..).trans hw) hp
      | one _ hp => exact ih ((List.suffix_cons ..).trans hw) hp

end Rustrak.Globs

namespace Rustrak.Globs

/-! ## Segments against segments

Some segments of a pattern are deep and stand for any number of segments, and each of the
others for one that it matches.
-/

variable {σ τ : Type} {deep : σ → Prop} {one : σ → τ → Prop}
variable {part : σ} {parts : List σ} {x : τ} {path : List τ}

/-- A path is what a pattern stands for. -/
def Covers (deep : σ → Prop) (one : σ → τ → Prop) : List σ → List τ → Prop
  | [], path => path = []
  | part :: parts, path =>
      (deep part ∧ ∃ rest, rest <:+ path ∧ Covers deep one parts rest) ∨
        (¬deep part ∧ ∃ x rest, path = x :: rest ∧ one part x ∧ Covers deep one parts rest)

theorem covers_deep (h : deep part) : Covers deep one (part :: parts) path ↔
    ∃ rest, rest <:+ path ∧ Covers deep one parts rest := by
  simp [Covers, h]

theorem covers_deep_nil (h : deep part) :
    Covers deep one (part :: parts) [] ↔ Covers deep one parts [] := by
  simp [covers_deep h]

/-- A deep segment stands for nothing more, or for the next segment as well. -/
theorem covers_deep_cons (h : deep part) : Covers deep one (part :: parts) (x :: path) ↔
    Covers deep one parts (x :: path) ∨ Covers deep one (part :: parts) path := by
  rw [covers_deep h, covers_deep h]
  constructor
  · rintro ⟨rest, hrest, hcovers⟩
    rcases List.suffix_cons_iff.mp hrest with rfl | hrest
    · exact .inl hcovers
    · exact .inr ⟨rest, hrest, hcovers⟩
  · rintro (hcovers | ⟨rest, hrest, hcovers⟩)
    · exact ⟨x :: path, List.suffix_refl _, hcovers⟩
    · exact ⟨rest, hrest.trans (List.suffix_cons x path), hcovers⟩

theorem not_covers_one_nil (h : ¬deep part) : ¬Covers deep one (part :: parts) [] := by
  simp [Covers, h]

theorem covers_one_cons (h : ¬deep part) : Covers deep one (part :: parts) (x :: path) ↔
    one part x ∧ Covers deep one parts path := by
  simp [Covers, h]

end Rustrak.Globs
