import Mathlib.Data.List.Chain
import Rustrak.Monitors.Config

/-!
# Slugs of monitors

The slug of a text is its words, joined by dashes and cut to fifty characters.  Underscores are
trimmed before the cut and dashes after it, so a slug can have an underscore at an end; sent back,
it is another monitor's.
-/

namespace Rustrak.Monitors

open Rustrak.Core

/-! ## Trimming -/

variable {c : Char} {cs before middle after : List Char}

/-- A text is what is trimmed off and what is left. -/
structure Trims (c : Char) (cs before middle after : List Char) : Prop where
  split : cs = before ++ middle ++ after
  before_eq : ∀ d ∈ before, d = c
  after_eq : ∀ d ∈ after, d = c
  head_ne : middle.head? ≠ some c
  last_ne : middle.getLast? ≠ some c

theorem head?_dropWhile_ne (c : Char) (cs : List Char) :
    (cs.dropWhile (· = c)).head? ≠ some c := by
  induction cs with
  | nil => exact nofun
  | cons d cs ih =>
      by_cases h : d = c
      · rwa [List.dropWhile_cons_of_pos (by simpa using h)]
      · rw [List.dropWhile_cons_of_neg (by simpa using h)]
        simpa using h

theorem eq_of_mem_takeWhile {d : Char} (h : d ∈ cs.takeWhile (· = c)) : d = c :=
  of_decide_eq_true (List.all_eq_true.mp List.all_takeWhile d h)

theorem exists_trims (c : Char) (cs : List Char) : ∃ before after,
    Trims c cs before (trimMatches c cs) after := by
  have hrest : cs.dropWhile (· = c) = trimMatches c cs ++
      ((cs.dropWhile (· = c)).reverse.takeWhile (· = c)).reverse := by
    rw [trimMatches, ← List.reverse_append, List.takeWhile_append_dropWhile, List.reverse_reverse]
  refine ⟨cs.takeWhile (· = c), ((cs.dropWhile (· = c)).reverse.takeWhile (· = c)).reverse, ?_⟩
  constructor
  · rw [List.append_assoc, ← hrest, List.takeWhile_append_dropWhile]
  · exact fun d hd => eq_of_mem_takeWhile hd
  · exact fun d hd => eq_of_mem_takeWhile (List.mem_reverse.mp hd)
  · cases hmiddle : trimMatches c cs with
    | nil => exact nofun
    | cons d middle =>
        have hhead := head?_dropWhile_ne c cs
        rwa [hrest, hmiddle] at hhead
  · rw [trimMatches, List.getLast?_reverse]
    exact head?_dropWhile_ne c _

theorem trimMatches_eq_self (hhead : cs.head? ≠ some c) (hlast : cs.getLast? ≠ some c) :
    trimMatches c cs = cs := by
  obtain ⟨before, after, h⟩ := exists_trims c cs
  have hsplit := h.split
  cases before with
  | cons d before =>
      rw [h.before_eq d List.mem_cons_self] at hsplit
      rw [hsplit] at hhead
      exact absurd rfl hhead
  | nil =>
      cases after using List.reverseRecOn with
      | nil => simpa using hsplit.symm
      | append_singleton after d =>
          rw [h.after_eq d (by simp), ← List.append_assoc] at hsplit
          rw [hsplit, List.getLast?_concat] at hlast
          exact absurd rfl hlast

/-! ## Words -/

def isWordChar (c : Char) : Bool := c.isAlphanum || c = '_'

def isBreak (c : Char) : Bool := c = '-' || isWhitespace c

/-- The words of a text: lower-case letters, digits and underscores between dashes and white space,
without any other character. -/
def slugWords (raw : String) : List (List Char) :=
  (((raw.toList.flatMap toLowercase).filter fun c => isWordChar c || isBreak c).splitOnP
    isBreak).filter (· ≠ [])

/-- What follows the first word. -/
def dashed (words : List (List Char)) : List Char := words.flatMap ('-' :: ·)

theorem intercalate_cons (word : List Char) (words : List (List Char)) :
    ['-'].intercalate (word :: words) = word ++ dashed words := by
  induction words generalizing word with
  | nil => simp [dashed]
  | cons next words ih =>
      rw [List.intercalate_cons_cons, ih, dashed, dashed, List.flatMap_cons]
      simp

/-- What the loop makes of the rest of a text, of which these are the pieces. -/
def glue (slug : List Char) (pendingDash : Bool) (pieces : List (List Char)) : List Char :=
  if slug = [] then ['-'].intercalate (pieces.filter (· ≠ []))
  else if pendingDash then slug.reverse ++ dashed (pieces.filter (· ≠ []))
  else slug.reverse ++ pieces.headD [] ++ dashed (pieces.tail.filter (· ≠ []))

theorem isBreak_of_isWordChar (h : isWordChar c = true) : isBreak c = false := by
  have hrange : (48 ≤ c.toNat ∧ c.toNat ≤ 57) ∨ (65 ≤ c.toNat ∧ c.toNat ≤ 90) ∨
      (97 ≤ c.toNat ∧ c.toNat ≤ 122) ∨ c.toNat = 95 := by
    rcases (Bool.or_eq_true _ _).mp h with halphanum | hlow
    · rcases (Bool.or_eq_true _ _).mp halphanum with halpha | hdigit
      · rcases (Bool.or_eq_true _ _).mp halpha with hupper | hlower
        · exact .inr (.inl (of_decide_eq_true hupper))
        · obtain ⟨h1, h2⟩ := (Bool.and_eq_true _ _).mp hlower
          exact .inr (.inr (.inl ⟨of_decide_eq_true h1, of_decide_eq_true h2⟩))
      · obtain ⟨h1, h2⟩ := (Bool.and_eq_true _ _).mp hdigit
        exact .inl ⟨of_decide_eq_true h1, of_decide_eq_true h2⟩
    · exact .inr (.inr (.inr (congrArg Char.toNat (eq_of_beq hlow))))
  have hdash : c ≠ '-' := by
    rintro rfl
    revert hrange
    decide
  simp only [isBreak, isWhitespace, hdash, decide_false, Bool.false_or, Bool.or_eq_false_iff,
    Bool.and_eq_false_iff, decide_eq_false_iff_not, beq_eq_false_iff_ne]
  omega

theorem glue_break (slug : List Char) (pendingDash : Bool) (pieces : List (List Char)) :
    glue slug pendingDash ([] :: pieces) = glue slug true pieces := by
  by_cases hslug : slug = []
  · simp [glue, hslug]
  · cases pendingDash
    · simp [glue, hslug]
    · simp [glue, hslug]

theorem glue_word (slug : List Char) (pendingDash : Bool) (c : Char) (piece : List Char)
    (pieces : List (List Char)) :
    glue slug pendingDash ((c :: piece) :: pieces) =
      glue (c :: if pendingDash ∧ slug ≠ [] then '-' :: slug else slug) false (piece :: pieces) := by
  by_cases hslug : slug = []
  · subst hslug
    simp [glue, intercalate_cons]
  · cases pendingDash
    · simp [glue, hslug]
    · simp [glue, hslug, dashed]

theorem slugChars_reverse (cs slug : List Char) (pendingDash : Bool) :
    (slugChars slug pendingDash cs).reverse =
      glue slug pendingDash ((cs.filter fun c => isWordChar c || isBreak c).splitOnP isBreak) := by
  induction cs generalizing slug pendingDash with
  | nil =>
      by_cases hslug : slug = []
      · simp [slugChars, glue, hslug]
      · cases pendingDash
        · simp [slugChars, glue, hslug, dashed]
        · simp [slugChars, glue, hslug, dashed]
  | cons c cs ih =>
      rw [slugChars]
      by_cases hword : isWordChar c = true
      · have hor : c.isAlphanum = true ∨ c = '_' := by simpa [isWordChar] using hword
        have hbreak : ¬isBreak c = true := by simp [isBreak_of_isWordChar hword]
        rw [if_pos hor, ih, List.filter_cons_of_pos (by simp [hword]),
          List.splitOnP_cons_eq_if_modifyHead, if_neg hbreak]
        cases hpieces : (cs.filter fun c => isWordChar c || isBreak c).splitOnP isBreak with
        | nil => exact absurd hpieces (List.splitOnP_ne_nil _ _)
        | cons piece pieces => rw [List.modifyHead_cons, glue_word]
      · have hor : ¬(c.isAlphanum = true ∨ c = '_') := by simpa [isWordChar] using hword
        rw [if_neg hor]
        by_cases hbreak : isBreak c = true
        · have hdash : c = '-' ∨ isWhitespace c = true := by simpa [isBreak] using hbreak
          rw [if_pos hdash, ih, List.filter_cons_of_pos (by simp [hbreak]),
            List.splitOnP_cons_eq_if_modifyHead, if_pos hbreak, glue_break]
        · have hdash : ¬(c = '-' ∨ isWhitespace c = true) := by simpa [isBreak] using hbreak
          rw [if_neg hdash, ih, List.filter_cons_of_neg (by simp [hword, hbreak])]

/-- The words of a text joined by dashes, without underscores at the ends. -/
def joinedWords (raw : String) : List Char := trimMatches '_' (['-'].intercalate (slugWords raw))

theorem slugifyMonitorSlug_eq (raw : String) : slugifyMonitorSlug raw =
    String.ofList (trimMatches '-' ((joinedWords raw).take maxSlugLength)) := by
  rw [slugifyMonitorSlug, slugChars_reverse]
  rfl

/-! ## Texts that are slugs -/

def isSlugChar (c : Char) : Bool := (isWordChar c && !c.isUpper) || c = '-'

/-- Of two characters one is no dash. -/
def NotBoth (a b : Char) : Prop := a ≠ '-' ∨ b ≠ '-'

/-- Characters of slugs, with no two dashes in a row. -/
structure Spaced (cs : List Char) : Prop where
  chars : ∀ c ∈ cs, isSlugChar c = true
  apart : cs.IsChain NotBoth

theorem Spaced.part {part : List Char} (h : Spaced cs) (hpart : part <:+: cs) : Spaced part :=
  ⟨fun c hc => h.chars c (hpart.subset hc), List.IsChain.infix h.apart hpart⟩

theorem ne_dash_of_isWordChar (h : isWordChar c = true) : c ≠ '-' := by
  rintro rfl
  revert h
  decide

/-- The characters of a word. -/
def IsWordText (word : List Char) : Prop := ∀ c ∈ word, isWordChar c = true ∧ c.isUpper = false

variable {word : List Char} {words : List (List Char)} {raw : String}

theorem spaced_word (h : IsWordText word) : Spaced word := by
  refine ⟨fun c hc => by simp [isSlugChar, h c hc], ?_⟩
  apply List.Pairwise.isChain
  exact List.pairwise_of_forall_mem_list fun c hc d _ => .inl (ne_dash_of_isWordChar (h c hc).1)

theorem spaced_dashed (hword : IsWordText word)
    (hwords : ∀ next ∈ words, next ≠ [] ∧ IsWordText next) : Spaced (word ++ dashed words) := by
  induction words generalizing word with
  | nil => simpa [dashed] using spaced_word hword
  | cons next words ih =>
      obtain ⟨⟨hnonempty, hnext⟩, hrest⟩ := List.forall_mem_cons.mp hwords
      have htail := ih hnext hrest
      have hdashed : dashed (next :: words) = '-' :: (next ++ dashed words) := by
        simp [dashed]
      rw [hdashed]
      have hhead : ∀ d ∈ (next ++ dashed words).head?, d ≠ '-' := by
        cases next with
        | nil => contradiction
        | cons d next =>
            intro e he
            obtain rfl : d = e := by simpa using he
            exact ne_dash_of_isWordChar (hnext d List.mem_cons_self).1
      constructor
      · intro c hc
        rcases List.mem_append.mp hc with hc | hc
        · exact (spaced_word hword).chars c hc
        · rcases List.mem_cons.mp hc with rfl | hc
          · decide
          · exact htail.chars c hc
      · apply (spaced_word hword).apart.append
        · exact List.isChain_cons.mpr ⟨fun d hd => .inr (hhead d hd), htail.apart⟩
        · exact fun c hc d _ => .inl (ne_dash_of_isWordChar (hword c (List.mem_of_getLast? hc)).1)

theorem spaced_intercalate (hwords : ∀ word ∈ words, word ≠ [] ∧ IsWordText word) :
    Spaced (['-'].intercalate words) := by
  cases words with
  | nil => exact ⟨nofun, .nil⟩
  | cons word words =>
      obtain ⟨⟨-, hword⟩, hrest⟩ := List.forall_mem_cons.mp hwords
      rw [intercalate_cons]
      exact spaced_dashed hword hrest

theorem toLower_of_not_isUpper (h : c.isUpper = false) : c.toLower = c := by
  exact dif_neg (of_decide_eq_false h)

theorem isUpper_toLower (c : Char) : c.toLower.isUpper = false := by
  by_cases h : c.isUpper = true
  · have hrange : c.val ≥ 'A'.val ∧ c.val ≤ 'Z'.val := of_decide_eq_true h
    have hlower : c.toLower.val = c.val + 32 := by
      exact congrArg Char.val (dif_pos hrange)
    have hlow : 65 ≤ c.val.toNat := UInt32.le_iff_toNat_le.mp hrange.1
    have hhigh : c.val.toNat ≤ 90 := UInt32.le_iff_toNat_le.mp hrange.2
    have hsum : (c.val + 32).toNat = c.val.toNat + 32 := by
      rw [UInt32.toNat_add, Nat.mod_eq_of_lt]
      · rfl
      · show c.val.toNat + 32 < 4294967296
        omega
    apply decide_eq_false
    rintro ⟨-, hle⟩
    rw [hlower, UInt32.le_iff_toNat_le, hsum] at hle
    have hle : c.val.toNat + 32 ≤ 90 := hle
    omega
  · rwa [toLower_of_not_isUpper (Bool.eq_false_iff.mpr h), ← Bool.not_eq_true]

theorem isUpper_of_mem_toLowercase {d : Char} (h : c ∈ toLowercase d) : c.isUpper = false := by
  rw [toLowercase] at h
  split_ifs at h
  · obtain rfl := List.mem_singleton.mp h
    decide
  · rcases List.mem_cons.mp h with rfl | h
    · decide
    · obtain rfl := List.mem_singleton.mp h
      decide
  · obtain rfl := List.mem_singleton.mp h
    exact isUpper_toLower d

/-- A piece between breaks has characters of the text that are none. -/
theorem mem_splitOnP {p : Char → Bool} {piece : List Char} (h : piece ∈ cs.splitOnP p)
    (hc : c ∈ piece) : c ∈ cs ∧ p c = false := by
  induction cs generalizing piece with
  | nil =>
      obtain rfl := List.mem_singleton.mp h
      nomatch hc
  | cons d cs ih =>
      rw [List.splitOnP_cons_eq_if_modifyHead] at h
      by_cases hd : p d = true
      · rw [if_pos hd] at h
        rcases List.mem_cons.mp h with rfl | h
        · nomatch hc
        · exact ⟨List.mem_cons_of_mem _ (ih h hc).1, (ih h hc).2⟩
      · rw [if_neg hd] at h
        cases hpieces : cs.splitOnP p with
        | nil => exact absurd hpieces (List.splitOnP_ne_nil _ _)
        | cons first pieces =>
            rw [hpieces] at h ih
            rcases List.mem_cons.mp h with rfl | h
            · rcases List.mem_cons.mp hc with rfl | hc
              · exact ⟨List.mem_cons_self, by simpa using hd⟩
              · have hfirst := ih List.mem_cons_self hc
                exact ⟨List.mem_cons_of_mem _ hfirst.1, hfirst.2⟩
            · have hlater := ih (List.mem_cons_of_mem _ h) hc
              exact ⟨List.mem_cons_of_mem _ hlater.1, hlater.2⟩

theorem slugWords_isWordText : ∀ word ∈ slugWords raw, word ≠ [] ∧ IsWordText word := by
  intro word hword
  obtain ⟨hpiece, hnonempty⟩ := List.mem_filter.mp hword
  refine ⟨of_decide_eq_true hnonempty, fun c hc => ?_⟩
  obtain ⟨hmem, hbreak⟩ := mem_splitOnP hpiece hc
  obtain ⟨hlower, hkept⟩ := List.mem_filter.mp hmem
  obtain ⟨d, -, hd⟩ := List.mem_flatMap.mp hlower
  refine ⟨?_, isUpper_of_mem_toLowercase hd⟩
  simpa [hbreak] using hkept

theorem trimMatches_within (c : Char) (cs : List Char) : trimMatches c cs <:+: cs := by
  obtain ⟨before, after, h⟩ := exists_trims c cs
  exact ⟨before, after, h.split.symm⟩

theorem spaced_joinedWords : Spaced (joinedWords raw) :=
  (spaced_intercalate slugWords_isWordText).part (trimMatches_within _ _)

theorem isAlphanum_of_isSlugChar (h : isSlugChar c = true) (hdash : c ≠ '-') :
    c.isAlphanum = true ∨ c = '_' := by
  simp only [isSlugChar, hdash, decide_false, Bool.or_false, Bool.and_eq_true, isWordChar,
    Bool.or_eq_true, decide_eq_true_eq] at h
  exact h.1

/-- The loop leaves a slug as it is. -/
theorem slugChars_spaced (slug : List Char) (hslug : slug ≠ []) (hlast : cs.getLast? ≠ some '-')
    (hcs : ∀ c ∈ cs, isSlugChar c = true) :
    (cs.IsChain NotBoth → slugChars slug false cs = cs.reverse ++ slug) ∧
      (('-' :: cs).IsChain NotBoth → cs ≠ [] → slugChars slug true cs = cs.reverse ++ '-' :: slug) := by
  induction cs generalizing slug with
  | nil => exact ⟨fun _ => rfl, fun _ h => absurd rfl h⟩
  | cons c cs ih =>
      obtain ⟨hc, hrest⟩ := List.forall_mem_cons.mp hcs
      have hlast' : cs.getLast? ≠ some '-' := by
        intro h
        apply hlast
        rw [List.getLast?_cons, h]
        rfl
      constructor
      · intro hchain
        by_cases hdash : c = '-'
        · subst hdash
          have hne : cs ≠ [] := by
            rintro rfl
            exact hlast rfl
          rw [slugChars, if_neg (by decide), if_pos (.inl rfl),
            (ih slug hslug hlast' hrest).2 hchain hne]
          simp
        · rw [slugChars, if_pos (isAlphanum_of_isSlugChar hc hdash), if_neg (by simp),
            (ih (c :: slug) (by simp) hlast' hrest).1 hchain.tail]
          simp
      · intro hchain _
        have hdash : c ≠ '-' := by
          rcases (List.isChain_cons_cons.mp hchain).1 with h | h
          · exact absurd rfl h
          · exact h
        rw [slugChars, if_pos (isAlphanum_of_isSlugChar hc hdash), if_pos ⟨rfl, hslug⟩,
          (ih _ (by simp) hlast' hrest).1 hchain.tail.tail]
        simp

theorem toLowercase_of_isSlugChar (h : isSlugChar c = true) : toLowercase c = [c] := by
  have hupper : c.isUpper = false := by
    by_cases hdash : c = '-'
    · subst hdash
      decide
    · simp only [isSlugChar, hdash, decide_false, Bool.or_false, Bool.and_eq_true,
        Bool.not_eq_true'] at h
      exact h.2
  rw [toLowercase, if_neg, if_neg, toLower_of_not_isUpper hupper]
  · rintro rfl
    revert h
    decide
  · rintro rfl
    revert h
    decide

/-- A slug is trimmed and cut again, but its words stay as they are. -/
theorem slugifyMonitorSlug_spaced (hcs : Spaced cs) (hhead : cs.head? ≠ some '-')
    (hlast : cs.getLast? ≠ some '-') : slugifyMonitorSlug (String.ofList cs) =
      String.ofList (trimMatches '-' ((trimMatches '_' cs).take maxSlugLength)) := by
  have hlower : cs.flatMap toLowercase = cs := by
    calc cs.flatMap toLowercase = cs.flatMap fun c => [c] :=
          List.flatMap_congr fun c hc => toLowercase_of_isSlugChar (hcs.chars c hc)
      _ = cs := List.flatMap_singleton' cs
  have hloop : (slugChars [] false cs).reverse = cs := by
    cases cs with
    | nil => rfl
    | cons c cs =>
        have hdash : c ≠ '-' := by simpa using hhead
        have hlast' : cs.getLast? ≠ some '-' := by
          intro h
          apply hlast
          rw [List.getLast?_cons, h]
          rfl
        have hc := hcs.chars c List.mem_cons_self
        rw [slugChars, if_pos (isAlphanum_of_isSlugChar hc hdash), if_neg (by simp),
          (slugChars_spaced [c] (by simp) hlast' fun d hd =>
            hcs.chars d (List.mem_cons_of_mem _ hd)).1 hcs.apart.tail]
        simp
  rw [slugifyMonitorSlug, String.toList_ofList, hlower, hloop]

/-- A slug comes back as it is just if no underscore is at an end of it. -/
theorem slugify_eq_self_iff (hcs : Spaced cs) (hhead : cs.head? ≠ some '-')
    (hlast : cs.getLast? ≠ some '-') (hlength : cs.length ≤ maxSlugLength) :
    slugifyMonitorSlug (String.ofList cs) = String.ofList cs ↔
      cs.head? ≠ some '_' ∧ cs.getLast? ≠ some '_' := by
  rw [slugifyMonitorSlug_spaced hcs hhead hlast]
  constructor
  · intro h
    obtain ⟨before, after, htrims⟩ := exists_trims '_' cs
    have hback := String.ofList_injective h
    have hle : cs.length ≤ (trimMatches '_' cs).length := by
      calc cs.length
          = (trimMatches '-' ((trimMatches '_' cs).take maxSlugLength)).length := by rw [hback]
        _ ≤ ((trimMatches '_' cs).take maxSlugLength).length := (trimMatches_within _ _).length_le
        _ ≤ (trimMatches '_' cs).length := List.length_take_le' _ _
    have hself : trimMatches '_' cs = cs := (trimMatches_within _ _).eq_of_length_le hle
    rw [hself] at htrims
    exact ⟨htrims.head_ne, htrims.last_ne⟩
  · rintro ⟨hfirst, hfinal⟩
    rw [trimMatches_eq_self hfirst hfinal, List.take_of_length_le hlength,
      trimMatches_eq_self hhead hlast]

/-! ## The cut -/

theorem Trims.reverse (h : Trims c cs before middle after) :
    Trims c cs.reverse after.reverse middle.reverse before.reverse where
  split := by simp [h.split]
  before_eq := fun d hd => h.after_eq d (List.mem_reverse.mp hd)
  after_eq := fun d hd => h.before_eq d (List.mem_reverse.mp hd)
  head_ne := by
    rw [List.head?_reverse]
    exact h.last_ne
  last_ne := by
    rw [List.getLast?_reverse]
    exact h.head_ne

/-- One dash at most is trimmed off, and what was behind it is now the first character. -/
theorem Trims.head_eq_iff (h : Trims '-' cs before middle after) (hchain : cs.IsChain NotBoth) :
    middle.head? = some '_' ↔ cs.head? = some '_' ∨ ['-', '_'] <+: cs := by
  have hafter : '_' ∉ after := fun hmem => absurd (h.after_eq '_' hmem) (by decide)
  have hsplit := h.split
  cases before with
  | nil =>
      cases middle with
      | nil =>
          rw [List.nil_append, List.nil_append] at hsplit
          subst hsplit
          refine ⟨nofun, fun hor => ?_⟩
          rcases hor with hfirst | hfirst
          · exact absurd (List.mem_of_head? hfirst) hafter
          · exact absurd (hfirst.subset (by simp)) hafter
      | cons d middle =>
          have hd : d ≠ '-' := by simpa using h.head_ne
          subst hsplit
          simp [List.cons_prefix_cons, hd.symm]
  | cons e before =>
      obtain rfl := h.before_eq e List.mem_cons_self
      cases before with
      | cons d before =>
          obtain rfl := h.before_eq d (by simp)
          rw [hsplit] at hchain
          rcases (List.isChain_cons_cons.mp hchain).1 with hd | hd
          · exact absurd rfl hd
          · exact absurd rfl hd
      | nil =>
          subst hsplit
          cases middle with
          | nil =>
              refine ⟨nofun, fun hor => ?_⟩
              rcases hor with hfirst | hfirst
              · exact absurd hfirst (by simp)
              · have hmem := (List.cons_prefix_cons.mp hfirst).2.subset List.mem_cons_self
                exact absurd hmem hafter
          | cons d middle => simp [List.cons_prefix_cons, eq_comm]

/-- A cut without its dashes is its own slug just if no underscore is left at an end of it. -/
theorem slugify_trimMatches_iff {cut : List Char} (hcut : Spaced cut)
    (hlength : cut.length ≤ maxSlugLength) (hhead : cut.head? ≠ some '_') :
    slugifyMonitorSlug (String.ofList (trimMatches '-' cut)) = String.ofList (trimMatches '-' cut) ↔
      ¬['-', '_'] <+: cut ∧ ¬['_'] <:+ cut ∧ ¬['_', '-'] <:+ cut := by
  obtain ⟨before, after, htrims⟩ := exists_trims '-' cut
  have hwithin : trimMatches '-' cut <:+: cut := trimMatches_within _ _
  have hself := slugify_eq_self_iff (hcut.part hwithin) htrims.head_ne htrims.last_ne
    (hwithin.length_le.trans hlength)
  have hfirst := htrims.head_eq_iff hcut.apart
  have hreverse : cut.reverse.IsChain NotBoth :=
    List.isChain_reverse.mpr (hcut.apart.imp fun _ _ h => h.symm)
  have hfinal := htrims.reverse.head_eq_iff hreverse
  rw [List.head?_reverse, List.head?_reverse] at hfinal
  have hstop : cut.getLast? = some '_' ↔ ['_'] <:+ cut := by
    rw [List.getLast?_eq_some_iff]
    exact ⟨fun ⟨rest, h⟩ => ⟨rest, h.symm⟩, fun ⟨rest, h⟩ => ⟨rest, h.symm⟩⟩
  have hdash : ['-', '_'] <+: cut.reverse ↔ ['_', '-'] <:+ cut := by
    rw [← List.reverse_suffix, List.reverse_reverse]
    rfl
  rw [hself, ne_eq, ne_eq, hfirst, hfinal, hstop, hdash, not_or, not_or]
  exact ⟨fun h => ⟨h.1.2, h.2⟩, fun h => ⟨⟨hhead, h.1⟩, h.2⟩⟩

/-- The first fifty characters of a text's joined words. -/
def slugCut (raw : String) : List Char := (joinedWords raw).take maxSlugLength

/-- The cut neither begins with a dash and an underscore nor ends in an underscore, with a dash
after it or without. -/
structure KeepsSlug (raw : String) : Prop where
  start : ¬['-', '_'] <+: slugCut raw
  stop : ¬['_'] <:+ slugCut raw
  dash : ¬['_', '-'] <:+ slugCut raw

theorem slugCut_head_ne : (slugCut raw).head? ≠ some '_' := by
  obtain ⟨before, after, htrims⟩ := exists_trims '_' (['-'].intercalate (slugWords raw))
  rw [slugCut, List.head?_take]
  split_ifs
  · exact nofun
  · exact htrims.head_ne

/-- A slug is short and has only characters of slugs; sent back it is the same slug just if the cut
leaves no underscore at an end. -/
theorem slug_canonical_iff (raw : String) :
    ((slugifyMonitorSlug raw).toList.length ≤ maxSlugLength ∧
      (∀ c ∈ (slugifyMonitorSlug raw).toList, isSlugChar c = true) ∧
      slugifyMonitorSlug (slugifyMonitorSlug raw) = slugifyMonitorSlug raw) ↔ KeepsSlug raw := by
  have hcut : Spaced (slugCut raw) := spaced_joinedWords.part (List.take_prefix _ _).isInfix
  have hlength : (slugCut raw).length ≤ maxSlugLength := List.length_take_le _ _
  have hwithin : trimMatches '-' (slugCut raw) <:+: slugCut raw := trimMatches_within _ _
  have hagain := slugify_trimMatches_iff hcut hlength slugCut_head_ne
  have hslug : slugifyMonitorSlug raw = String.ofList (trimMatches '-' (slugCut raw)) :=
    slugifyMonitorSlug_eq raw
  rw [hslug, String.toList_ofList, hagain]
  constructor
  · rintro ⟨-, -, hstart, hstop, hdash⟩
    exact ⟨hstart, hstop, hdash⟩
  · intro h
    exact ⟨hwithin.length_le.trans hlength, (hcut.part hwithin).chars, h.start, h.stop, h.dash⟩

/-- A slug that begins with an underscore. -/
theorem slug_of_underscores : ¬∀ raw,
    (slugifyMonitorSlug raw).toList.length ≤ maxSlugLength ∧
      (∀ c ∈ (slugifyMonitorSlug raw).toList, isSlugChar c = true) ∧
      slugifyMonitorSlug (slugifyMonitorSlug raw) = slugifyMonitorSlug raw := by
  intro h
  exact absurd (h "_ _ a").2.2 (by decide)

end Rustrak.Monitors
