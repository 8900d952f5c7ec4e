import Rustrak.Globs.Wildcards
import Mathlib.Data.Prod.Lex
import Mathlib.Algebra.Order.Group.Nat

/-!
# CODEOWNERS segments

`glob_segment` of `services/github/mod.rs` matches one segment of a path against one segment
of a rule.  It compares the characters first, so a `*` of the rule is read as itself where
the path has a `*` too, and is then no wildcard it could come back to.

The loop remembers the last wildcard only.  That is enough: from the wildcard to where it
stands it has compared character by character (`Along`), so whatever end of the text an
earlier wildcard leaves, the last one can leave what it needs of it.
-/

namespace Rustrak.GitHub

open Rustrak.Globs

/-- `p[star + 1..]` and `t[mark..]`. -/
structure Star where
  after : List Char
  mark : List Char
  deriving DecidableEq, Repr

/-- How many wildcards the loop can still remember. -/
def starsAhead (p : List Char) (star : Option Star) : ℕ :=
  max (p.count '*') ((star.map (·.after.count '*')).getD 0)

/-- The `while` loop of `glob_segment` and what follows it, from `p[pi..]` and `t[ti..]`. -/
def globLoop (p t : List Char) (star : Option Star) : Bool :=
  match t with
  | [] => p.all (· == '*')
  | d :: t =>
      if p.head? = some '?' ∨ p.head? = some d then globLoop p.tail t star
      else if p.head? = some '*' then globLoop p.tail (d :: t) (some ⟨p.tail, d :: t⟩)
      else
        match star with
        | some ⟨after, _ :: mark⟩ => globLoop after mark (some ⟨after, mark⟩)
        -- `ti` runs past the end, and so does the loop.
        | some ⟨after, []⟩ => after.all (· == '*')
        | none => false
termination_by (starsAhead p star, (star.map (·.mark.length)).getD 0, t.length)
decreasing_by
  · have hcount := (List.tail_sublist p).count_le '*'
    simp only [Prod.lex_def, starsAhead]
    have := max_le_max_right ((star.map (·.after.count '*')).getD 0) hcount
    simp
    omega
  · cases p with
    | nil => simp_all
    | cons c p =>
        obtain rfl : c = '*' := by simp_all
        simp only [Prod.lex_def, starsAhead]
        simp
  · simp only [Prod.lex_def, starsAhead]
    simp
    omega

/-- `*` and `?` within one path segment. -/
def globSegment (pattern text : List Char) : Bool :=
  globLoop pattern text none

private theorem star_ne_any : '*' ≠ '?' := by decide

theorem all_star_iff (p : List Char) : p.all (· == '*') = true ↔ Literally '*' '?' p [] := by
  simp [literally_nil, List.all_eq_true]

/-- The texts the remembered wildcard has yet to try. -/
def Later (star : Option Star) : Prop :=
  ∃ s ∈ star, ∃ u, u <:+ s.mark.tail ∧ Literally '*' '?' s.after u

/-- An end the remembered wildcard leaves gives one for what is left of the pattern. -/
theorem Later.reaches {p t : List Char} {star : Option Star} (h : Later star)
    (halong : ∀ s ∈ star, Along '?' s.after s.mark p t) :
    ∃ u, u <:+ t ∧ Literally '*' '?' p u := by
  obtain ⟨s, hs, u, hu, hp⟩ := h
  exact (halong s hs).literally star_ne_any (hu.trans (List.tail_suffix _)) hp

theorem not_literally_of_head {p t : List Char} {d : Char}
    (hne : ¬ (p.head? = some '?' ∨ p.head? = some d)) (hstar : p.head? ≠ some '*') :
    ¬ Literally '*' '?' p (d :: t) := by
  cases p with
  | nil => exact not_literally_nil_cons
  | cons c p => exact not_literally_cons (by simpa using hstar) (by simpa using hne)

/-- What the loop returns where it stands. -/
theorem globLoop_iff (p t : List Char) (star : Option Star)
    (halong : ∀ s ∈ star, Along '?' s.after s.mark p t) :
    globLoop p t star = true ↔ Literally '*' '?' p t ∨ Later star := by
  fun_induction globLoop p t star with
  | case1 p star =>
      rw [all_star_iff]
      refine ⟨.inl, fun h => h.elim id fun hlater => ?_⟩
      obtain ⟨u, hu, hp⟩ := hlater.reaches halong
      rwa [List.suffix_nil.mp hu] at hp
  | case2 p star d t heq ih =>
      cases p with
      | nil => simp at heq
      | cons c p =>
          replace heq : c = '?' ∨ c = d := by simpa using heq
          rw [literally_cons star_ne_any heq]
          exact ih fun s hs => (halong s hs).snoc heq
  | case3 p star d t hne heq ih =>
      cases p with
      | nil => simp at heq
      | cons c p =>
          obtain rfl : c = '*' := by simpa using heq
          have hd : d ≠ '*' := fun hd => hne (.inr (by rw [hd, List.head?_cons]))
          rw [ih (by simpa using Along.refl p (d :: t)), literally_star star_ne_any hd]
          constructor
          · rintro (hp | ⟨s, hs, u, hu, hp⟩)
            · exact .inl ⟨d :: t, List.suffix_refl _, hp⟩
            · cases hs
              exact .inl ⟨u, hu.trans (List.suffix_cons ..), hp⟩
          · intro h
            -- Whatever the wildcard before this one leaves, this one can leave as well.
            have hleft : ∃ u, u <:+ d :: t ∧ Literally '*' '?' p u := by
              rcases h with hp | hlater
              · exact hp
              · obtain ⟨u, hu, hp⟩ := hlater.reaches halong
                obtain ⟨v, hv, hp⟩ := hp.tail
                exact ⟨v, hv.trans hu, hp⟩
            obtain ⟨u, hu, hp⟩ := hleft
            rcases List.suffix_cons_iff.mp hu with rfl | hu
            · exact .inl hp
            · exact .inr ⟨_, rfl, u, hu, hp⟩
  | case4 p d t hne hstar after c mark ih =>
      rw [ih (by simpa using Along.refl after mark),
        or_iff_right (not_literally_of_head hne hstar)]
      constructor
      · rintro (hp | ⟨s, hs, u, hu, hp⟩)
        · exact ⟨_, rfl, mark, List.suffix_refl _, hp⟩
        · cases hs
          exact ⟨_, rfl, u, hu.trans (List.tail_suffix _), hp⟩
      · rintro ⟨s, hs, u, hu, hp⟩
        cases hs
        cases mark with
        | nil => exact .inl (by rwa [List.suffix_nil.mp hu] at hp)
        | cons e mark =>
            rcases List.suffix_cons_iff.mp hu with rfl | hu
            · exact .inl hp
            · exact .inr ⟨_, rfl, u, hu, hp⟩
  | case5 p d t hne hstar after =>
      cases halong _ rfl
  | case6 p d t hne hstar =>
      simp [not_literally_of_head hne hstar, Later]

theorem globSegment_iff (pattern text : List Char) :
    globSegment pattern text = true ↔ Literally '*' '?' pattern text := by
  rw [globSegment, globLoop_iff pattern text none (by simp)]
  simp [Later]

/-- What is found to match does. -/
theorem globSegment_sound {pattern text : List Char} (h : globSegment pattern text = true) :
    Matches '*' '?' pattern text :=
  ((globSegment_iff pattern text).mp h).matches

/-- A segment that matches is missed just if it only matches with a `*` of the rule taking
something else than the `*` it stands before. -/
theorem globSegment_iff_matches (pattern text : List Char) :
    (globSegment pattern text = true ↔ Matches '*' '?' pattern text) ↔
      (Matches '*' '?' pattern text → Literally '*' '?' pattern text) := by
  rw [globSegment_iff]
  exact ⟨fun h hmatches => h.mpr hmatches, fun h => ⟨Literally.matches, h⟩⟩

/-- The rule `*a` misses the segment `*ba`. -/
theorem globSegment_misses :
    ¬ ∀ pattern text : List Char,
      globSegment pattern text = true ↔ Matches '*' '?' pattern text := by
  intro h
  have hmatches : Matches '*' '?' ['*', 'a'] ['*', 'b', 'a'] :=
    .star ['*', 'b'] (.one (by decide) (.inr rfl) .nil)
  have hmissed : globSegment ['*', 'a'] ['*', 'b', 'a'] = false := by
    simp [globSegment, globLoop]
  rw [← h, hmissed] at hmatches
  cases hmatches

/-- Segments without a `*` are matched as they should be. -/
theorem globSegment_of_text {text : List Char} (hstar : '*' ∉ text) (pattern : List Char) :
    globSegment pattern text = true ↔ Matches '*' '?' pattern text :=
  (globSegment_iff pattern text).trans
    ⟨Literally.matches, fun hmatches => hmatches.literally_of_text hstar⟩

/-- And so are all by a rule without one. -/
theorem globSegment_of_pattern {pattern : List Char} (hstar : '*' ∉ pattern) (text : List Char) :
    globSegment pattern text = true ↔ Matches '*' '?' pattern text :=
  (globSegment_iff pattern text).trans
    ⟨Literally.matches, fun hmatches => hmatches.literally_of_pattern hstar⟩

end Rustrak.GitHub
