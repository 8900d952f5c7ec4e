import Rustrak.Webhooks.CustomWebhook

/-!
# Templates by their pieces

A template of literal text and expressions that name a field, and what rewriting makes of it:
every expression through the filter of its place, except one whose first brace an unpaired
backslash takes (`autoescape_source`).
-/

namespace Rustrak.Webhooks

open Rustrak.Core (isWhitespace)
open Rustrak.Json.Holes (Place placeStep Symbol)

/-- White space inside a tag. -/
def isTagSpace (c : Char) : Bool :=
  c == ' ' || c == '\t' || c == '\n' || c == '\r' || c == '\x0c'

inductive Piece
  | text (s : Text)
  /-- An expression as it is written, with the space around the field. -/
  | field (before after : Text) (f : Field)
  /-- An expression through the filter of strings, or of values. -/
  | filtered (f : Field) (inString : Bool)
  deriving DecidableEq

def filterName (inString : Bool) : Text := if inString then stringFilter else valueFilter

/-- What stands between the braces of an expression. -/
def Piece.inner : Piece → Text
  | .text _ => []
  | .field before after f => before ++ f.path ++ after
  | .filtered f inString => Webhooks.filtered f.path (filterName inString)

def Piece.source : Piece → Text
  | .text s => s
  | piece => ['{', '{'] ++ piece.inner ++ ['}', '}']

def source (pieces : List Piece) : Text := pieces.flatMap Piece.source

/-! ## Plain templates -/

/-- A tag opens here. -/
def opens : Text → Bool
  | '{' :: '{' :: _ => true
  | '{' :: '%' :: _ => true
  | '{' :: '#' :: _ => true
  | _ => false

/-- No tag opens within a text, before what follows it. -/
def noTag : Text → Text → Bool
  | [], _ => true
  | c :: s, rest => !opens (c :: (s ++ rest)) && noTag s rest

def startsWithText : List Piece → Bool
  | .text _ :: _ => true
  | _ => false

/-- The pieces are those that their source is read as: no text is empty, opens a tag or stands
beside another. -/
def isPlain : List Piece → Bool
  | [] => true
  | .text s :: pieces =>
      !s.isEmpty && noTag s (source pieces) && !startsWithText pieces && isPlain pieces
  | .field before after _ :: pieces =>
      before.all isTagSpace && after.all isTagSpace && isPlain pieces
  | .filtered _ _ :: pieces => isPlain pieces

def Piece.isWritten : Piece → Bool
  | .filtered _ _ => false
  | _ => true

/-- A template made only of literal text and of expressions that name a field. -/
structure IsTemplate (pieces : List Piece) : Prop where
  plain : isPlain pieces = true
  written : ∀ piece ∈ pieces, piece.isWritten = true

/-- Text and holes of a template. -/
def symbols : List Piece → List (Symbol Field)
  | [] => []
  | .text s :: pieces => s.map .char ++ symbols pieces
  | .field _ _ f :: pieces => .hole f :: symbols pieces
  | .filtered f _ :: pieces => .hole f :: symbols pieces

/-- What rewriting makes of the pieces from a place on. -/
def rewriteFrom : Place → List Piece → List Piece
  | _, [] => []
  | place, .text s :: pieces => .text s :: rewriteFrom (s.foldl Place.next place) pieces
  | place, .field before after f :: pieces =>
      (if place = .escaped then .field before after f else .filtered f (place != .outside)) ::
        rewriteFrom (placeStep place (Symbol.hole f)) pieces
  | place, .filtered f inString :: pieces =>
      .filtered f inString :: rewriteFrom (placeStep place (Symbol.hole f)) pieces

def rewrite (pieces : List Piece) : List Piece := rewriteFrom .outside pieces

variable {c : Char} {s inner rest before after : Text} {pieces : List Piece} {place : Place}
variable {f : Field}

@[simp] theorem source_nil : source [] = [] := rfl

@[simp] theorem source_cons (piece : Piece) (pieces : List Piece) :
    source (piece :: pieces) = piece.source ++ source pieces := List.flatMap_cons

/-! ## Fields and spaces -/

/-- The characters of paths. -/
def isPathChar (c : Char) : Bool := ('a' ≤ c && c ≤ 'z') || c == '_' || c == '.'

theorem isPathChar_of_mem_path (h : c ∈ f.path) : isPathChar c = true := by
  have hall : f.path.all isPathChar = true := by
    cases f <;> decide
  exact List.all_eq_true.mp hall c h

theorem path_ne_nil (f : Field) : f.path ≠ [] := by
  cases f <;> decide

theorem not_endsWithFilter_path (f : Field) :
    endsWithFilter f.path (ascii "tojson") = false := by
  cases f <;> decide

/-- A character between the braces of an expression that is not rewritten. -/
def isInnerChar (c : Char) : Bool := isPathChar c || isTagSpace c

theorem isInnerChar_of_mem (hbefore : before.all isTagSpace = true)
    (hafter : after.all isTagSpace = true) (h : c ∈ before ++ f.path ++ after) :
    isInnerChar c = true := by
  rw [isInnerChar, Bool.or_eq_true]
  rcases List.mem_append.mp h with h | h
  · rcases List.mem_append.mp h with h | h
    · exact .inr (List.all_eq_true.mp hbefore c h)
    · exact .inl (isPathChar_of_mem_path h)
  · exact .inr (List.all_eq_true.mp hafter c h)

theorem isWhitespace_of_isTagSpace (h : isTagSpace c = true) : isWhitespace c = true := by
  simp only [isTagSpace, Bool.or_eq_true, beq_iff_eq] at h
  rcases h with (((rfl | rfl) | rfl) | rfl) | rfl <;> decide

theorem not_isWhitespace_of_isPathChar (h : isPathChar c = true) : isWhitespace c = false := by
  simp only [isPathChar, Bool.or_eq_true, Bool.and_eq_true, decide_eq_true_eq, beq_iff_eq] at h
  rcases h with (⟨hlow, hhigh⟩ | rfl) | rfl
  · have hlow : 97 ≤ c.toNat := hlow
    have hhigh : c.toNat ≤ 122 := hhigh
    simp only [isWhitespace, Bool.or_eq_false_iff, Bool.and_eq_false_iff, decide_eq_false_iff_not,
      beq_eq_false_iff_ne]
    omega
  · decide
  · decide

theorem dropWhile_append_of_ne_nil {p : Char → Bool} (hbefore : ∀ c ∈ before, p c = true)
    (hs : ∀ c ∈ s, p c = false) (hne : s ≠ []) : (before ++ s ++ after).dropWhile p = s ++ after := by
  rw [List.append_assoc, List.dropWhile_append_of_pos hbefore]
  cases s with
  | nil => contradiction
  | cons c s =>
      rw [List.cons_append, List.dropWhile_cons_of_neg]
      simp [hs c List.mem_cons_self]

theorem trim_spaced (hbefore : ∀ c ∈ before, isWhitespace c = true)
    (hafter : ∀ c ∈ after, isWhitespace c = true) (hs : ∀ c ∈ s, isWhitespace c = false)
    (hne : s ≠ []) : trim (before ++ s ++ after) = s := by
  have hreverse := @dropWhile_append_of_ne_nil s.reverse after.reverse [] isWhitespace
    (fun c hc => hafter c (List.mem_reverse.mp hc)) (fun c hc => hs c (List.mem_reverse.mp hc))
    (by simpa using hne)
  rw [List.append_nil, List.append_nil] at hreverse
  rw [trim, dropWhile_append_of_ne_nil hbefore hs hne, List.reverse_append, hreverse,
    List.reverse_reverse]

theorem wrap_field (hbefore : before.all isTagSpace = true)
    (hafter : after.all isTagSpace = true) (inString : Bool) :
    wrap (before ++ f.path ++ after) inString = filtered f.path (filterName inString) := by
  have htrim : trim (before ++ f.path ++ after) = f.path := by
    apply trim_spaced
    · exact fun c hc => isWhitespace_of_isTagSpace (List.all_eq_true.mp hbefore c hc)
    · exact fun c hc => isWhitespace_of_isTagSpace (List.all_eq_true.mp hafter c hc)
    · exact fun c hc => not_isWhitespace_of_isPathChar (isPathChar_of_mem_path hc)
    · exact path_ne_nil f
  rw [wrap, htrim, not_endsWithFilter_path, if_neg (by simpa using path_ne_nil f)]
  rfl

/-! ## Scanning -/

theorem cutAt_closing (h : '}' ∉ inner) :
    cutAt ['}', '}'] (inner ++ ['}', '}'] ++ rest) = some (inner, rest) := by
  induction inner with
  | nil => rfl
  | cons c inner ih =>
      rw [List.mem_cons, not_or] at h
      have hprefix : List.isPrefixOf ['}', '}'] (c :: (inner ++ ['}', '}'] ++ rest)) = false := by
        rw [List.isPrefixOf_cons_cons, beq_eq_false_iff_ne.mpr h.1, Bool.false_and]
      rw [List.cons_append, List.cons_append, cutAt, hprefix, if_neg (by decide), ih h.2]
      rfl

theorem tagEnd_of_not_opens (h : opens s = false) :
    tagEnd blockTag s = none ∧ tagEnd commentTag s = none ∧ tagEnd expressionTag s = none := by
  have hprefix : ∀ c, (c = '{' ∨ c = '%' ∨ c = '#') → List.isPrefixOf ['{', c] s = false := by
    intro c hc
    cases s with
    | nil => rfl
    | cons d s =>
        cases s with
        | nil => simp [List.isPrefixOf]
        | cons e s =>
            by_contra hopen
            simp only [Bool.not_eq_false, List.isPrefixOf_cons_cons, Bool.and_eq_true,
              beq_iff_eq] at hopen
            obtain ⟨rfl, rfl, -⟩ := hopen
            rcases hc with rfl | rfl | rfl <;> contradiction
  refine ⟨if_neg ?_, if_neg ?_, if_neg ?_⟩
  · rw [Bool.not_eq_true]
    exact hprefix '%' (by simp)
  · rw [Bool.not_eq_true]
    exact hprefix '#' (by simp)
  · rw [Bool.not_eq_true]
    exact hprefix '{' (by simp)

/-- What follows a backslash in a string: one character is copied. -/
def swallow (fuel : ℕ) : Text → Text
  | [] => []
  | d :: rest => d :: autoescapeFrom fuel rest true

/-- A character where no tag opens. -/
theorem autoescapeFrom_char {fuel : ℕ} {inString : Bool} (h : opens (c :: rest) = false) :
    autoescapeFrom (fuel + 1) (c :: rest) inString =
      if c = '\\' ∧ inString = true then c :: swallow fuel rest
      else c :: autoescapeFrom fuel rest (if c = '"' then !inString else inString) := by
  obtain ⟨hblock, hcomment, hexpression⟩ := tagEnd_of_not_opens h
  rw [autoescapeFrom.eq_def]
  simp only [hblock, hcomment, hexpression]
  by_cases hescape : c = '\\' ∧ inString = true
  · rw [if_pos hescape, if_pos hescape, hescape.2]
    cases rest <;> rfl
  · rw [if_neg hescape, if_neg hescape]

theorem autoescapeFrom_expression {fuel : ℕ} {inString : Bool}
    (hblock : tagEnd blockTag (c :: s) = none) (hcomment : tagEnd commentTag (c :: s) = none)
    (h : tagEnd expressionTag (c :: s) = some (inner, rest)) :
    autoescapeFrom (fuel + 1) (c :: s) inString =
      ['{', '{'] ++ wrap inner inString ++ ['}', '}'] ++ autoescapeFrom fuel rest inString := by
  rw [autoescapeFrom.eq_def]
  simp only [hblock, hcomment, h]
  rfl

/-- An expression that is rewritten. -/
theorem autoescapeFrom_field {fuel : ℕ} {inString : Bool} (hbefore : before.all isTagSpace = true)
    (hafter : after.all isTagSpace = true) :
    autoescapeFrom (fuel + 1) ((Piece.field before after f).source ++ rest) inString =
      (Piece.filtered f inString).source ++ autoescapeFrom fuel rest inString := by
  have hclosing : '}' ∉ before ++ f.path ++ after := by
    intro hmem
    exact absurd (isInnerChar_of_mem hbefore hafter hmem) (by decide)
  have hexpression : tagEnd expressionTag ((Piece.field before after f).source ++ rest) =
      some (before ++ f.path ++ after, rest) := cutAt_closing hclosing
  have hopen : (Piece.field before after f).source ++ rest =
      '{' :: '{' :: (before ++ f.path ++ after ++ ['}', '}'] ++ rest) := by
    simp [Piece.source, Piece.inner]
  have hblock : tagEnd blockTag ((Piece.field before after f).source ++ rest) = none := by
    rw [hopen]
    rfl
  have hcomment : tagEnd commentTag ((Piece.field before after f).source ++ rest) = none := by
    rw [hopen]
    rfl
  rw [hopen] at hblock hcomment hexpression ⊢
  rw [autoescapeFrom_expression hblock hcomment hexpression, wrap_field hbefore hafter]
  rfl

theorem autoescapeFrom_nil (fuel : ℕ) (inString : Bool) : autoescapeFrom fuel [] inString = [] := by
  cases fuel <;> rfl

theorem noTag_cons (h : noTag (c :: s) rest = true) :
    opens (c :: (s ++ rest)) = false ∧ noTag s rest = true := by
  rw [noTag, Bool.and_eq_true, Bool.not_eq_true'] at h
  exact h

/-- The scan of a character keeps to the place. -/
theorem next_ne_escaped (hplace : place ≠ .escaped)
    (hc : ¬(c = '\\' ∧ (place != .outside) = true)) : place.next c ≠ .escaped ∧
      (place.next c != .outside) = if c = '"' then !(place != .outside) else place != .outside := by
  cases place with
  | outside =>
      rw [Place.next]
      split_ifs <;> exact ⟨by simp, rfl⟩
  | escaped => contradiction
  | inside =>
      have hbackslash : c ≠ '\\' := fun h => hc ⟨h, rfl⟩
      rw [Place.next, if_neg hbackslash]
      split_ifs <;> exact ⟨by simp, rfl⟩
  | hex left =>
      have hbackslash : c ≠ '\\' := fun h => hc ⟨h, rfl⟩
      unfold Place.next
      simp only [if_neg hbackslash]
      split_ifs
      · exact ⟨by simp, rfl⟩
      · split <;> exact ⟨by simp, rfl⟩

theorem next_escaped (c : Char) : Place.next .escaped c ≠ .escaped ∧
    (Place.next .escaped c != .outside) = true := by
  rw [Place.next]
  split_ifs <;> exact ⟨by simp, rfl⟩

/-- What rewriting makes of the pieces from any place on, and after a backslash. -/
structure Rewrites (pieces : List Piece) : Prop where
  scan : ∀ fuel place, place ≠ .escaped → (source pieces).length ≤ fuel →
    autoescapeFrom fuel (source pieces) (place != .outside) = source (rewriteFrom place pieces)
  swallow : ∀ fuel, (source pieces).length ≤ fuel →
    Webhooks.swallow fuel (source pieces) = source (rewriteFrom .escaped pieces)

/-- Text is copied, as far as no tag opens in it. -/
theorem Rewrites.text (h : Rewrites pieces) (s : Text) (hnotag : noTag s (source pieces) = true)
    (fuel : ℕ) (place : Place) (hplace : place ≠ .escaped)
    (hfuel : (s ++ source pieces).length ≤ fuel) :
    autoescapeFrom fuel (s ++ source pieces) (place != .outside) =
      s ++ source (rewriteFrom (s.foldl Place.next place) pieces) := by
  induction fuel generalizing s place with
  | zero =>
      have hnil : s = [] ∧ source pieces = [] := by simpa using hfuel
      obtain ⟨rfl, hsource⟩ := hnil
      exact h.scan 0 place hplace (by simp [hsource])
  | succ fuel ih =>
      cases s with
      | nil => exact h.scan _ place hplace hfuel
      | cons c s =>
          obtain ⟨hopens, hnotag⟩ := noTag_cons hnotag
          rw [List.cons_append, List.length_cons] at hfuel
          rw [List.cons_append, autoescapeFrom_char hopens]
          by_cases hescape : c = '\\' ∧ (place != .outside) = true
          · rw [if_pos hescape]
            have hnext : place.next c = .escaped := by
              obtain ⟨rfl, hinside⟩ := hescape
              cases place with
              | outside => contradiction
              | escaped => contradiction
              | inside => rfl
              | hex left => rfl
            rw [List.foldl_cons, hnext, List.cons_append]
            congr 1
            cases s with
            | nil => exact h.swallow fuel (by simpa using hfuel)
            | cons d s =>
                -- the backslash and what it escapes are copied at once
                obtain ⟨hplace', hinside⟩ := next_escaped d
                have hrest := ih s (noTag_cons hnotag).2 _ hplace' (by simp at hfuel ⊢; omega)
                rw [hinside] at hrest
                rw [List.cons_append, Webhooks.swallow, hrest]
                rfl
          · rw [if_neg hescape]
            obtain ⟨hplace', hinside⟩ := next_ne_escaped hplace hescape
            rw [← hinside, ih s hnotag _ hplace' (by omega)]
            rfl

theorem noTag_of_not_mem (h : '{' ∉ s) : noTag s rest = true := by
  induction s with
  | nil => rfl
  | cons c s ih =>
      rw [List.mem_cons, not_or] at h
      have hopens : opens (c :: (s ++ rest)) = false := by
        have hne : ∀ more, c :: (s ++ rest) ≠ '{' :: more := by
          rintro more heq
          injection heq with hc _
          exact h.1 hc.symm
        unfold opens
        split
        · next heq => exact absurd heq (hne _)
        · next heq => exact absurd heq (hne _)
        · next heq => exact absurd heq (hne _)
        · rfl
      rw [noTag, hopens, ih h.2]
      rfl

/-- After its first brace, an expression that is not rewritten is text. -/
theorem Rewrites.swallowed (h : Rewrites pieces) (hbefore : before.all isTagSpace = true)
    (hafter : after.all isTagSpace = true) {fuel : ℕ}
    (hfuel : (source (.field before after f :: pieces)).length ≤ fuel) :
    Webhooks.swallow fuel (source (.field before after f :: pieces)) =
      (Piece.field before after f).source ++ source (rewriteFrom .inside pieces) := by
  set tail : Text := before ++ f.path ++ after ++ ['}', '}'] with htail
  have htailChar : ∀ c ∈ tail, isInnerChar c = true ∨ c = '}' := by
    intro c hc
    rcases List.mem_append.mp hc with hc | hc
    · exact .inl (isInnerChar_of_mem hbefore hafter hc)
    · exact .inr (by simpa using hc)
  have hnot : ∀ c, isInnerChar c = false → c ≠ '}' → c ∉ tail := by
    intro c hinner hclosing hmem
    rcases htailChar c hmem with hc | hc
    · rw [hinner] at hc
      contradiction
    · exact hclosing hc
  have hnotag : noTag ('{' :: tail) (source pieces) = true := by
    have hopens : opens ('{' :: (tail ++ source pieces)) = false := by
      cases hcases : tail with
      | nil => simp [htail] at hcases
      | cons c more =>
          have hc : c ∈ tail := by
            rw [hcases]
            exact List.mem_cons_self
          unfold opens
          split
          · next heq =>
              injection heq with _ heq
              injection heq with heq _
              exact absurd (heq ▸ hc) (hnot '{' (by decide) (by decide))
          · next heq =>
              injection heq with _ heq
              injection heq with heq _
              exact absurd (heq ▸ hc) (hnot '%' (by decide) (by decide))
          · next heq =>
              injection heq with _ heq
              injection heq with heq _
              exact absurd (heq ▸ hc) (hnot '#' (by decide) (by decide))
          · rfl
    rw [noTag, hopens, noTag_of_not_mem (hnot '{' (by decide) (by decide))]
    rfl
  have hplace : ∀ cs : Text, (∀ c ∈ cs, c ≠ '"' ∧ c ≠ '\\') →
      cs.foldl Place.next .inside = .inside := by
    intro cs hcs
    induction cs with
    | nil => rfl
    | cons c cs ih =>
        obtain ⟨hquote, hbackslash⟩ := hcs c List.mem_cons_self
        rw [List.foldl_cons, Place.next, if_neg hquote, if_neg hbackslash]
        exact ih fun d hd => hcs d (List.mem_cons_of_mem c hd)
  have hinside : ('{' :: tail).foldl Place.next .inside = .inside := by
    apply hplace
    intro c hc
    rcases List.mem_cons.mp hc with rfl | hc
    · decide
    · constructor
      · rintro rfl
        exact hnot '"' (by decide) (by decide) hc
      · rintro rfl
        exact hnot '\\' (by decide) (by decide) hc
  have hsource : source (.field before after f :: pieces) =
      '{' :: ('{' :: tail ++ source pieces) := by
    simp [Piece.source, Piece.inner, htail]
  have hscan := h.text ('{' :: tail) hnotag fuel .inside (by simp) (by
    rw [hsource, List.length_cons] at hfuel
    omega)
  rw [hinside] at hscan
  rw [hsource, Webhooks.swallow]
  rw [show (Place.inside != Place.outside) = true from rfl] at hscan
  rw [hscan]
  simp [Piece.source, Piece.inner, htail]

theorem rewrites_of_isTemplate (h : IsTemplate pieces) : Rewrites pieces := by
  induction pieces with
  | nil =>
      exact ⟨fun fuel place _ _ => autoescapeFrom_nil _ _, fun fuel _ => rfl⟩
  | cons piece pieces ih =>
      obtain ⟨hplain, hwritten⟩ := h
      obtain ⟨hpiece, hpieces⟩ := List.forall_mem_cons.mp hwritten
      cases piece with
      | text s =>
          simp only [isPlain, Bool.and_eq_true] at hplain
          obtain ⟨⟨⟨hne, hnotag⟩, -⟩, hplain⟩ := hplain
          have hrest := ih ⟨hplain, hpieces⟩
          constructor
          · intro fuel place hplace hfuel
            rw [source_cons] at hfuel ⊢
            exact hrest.text s hnotag fuel place hplace hfuel
          · intro fuel hfuel
            cases s with
            | nil => simp at hne
            | cons d s =>
                obtain ⟨hplace', hinside⟩ := next_escaped d
                have hscan := hrest.text s (noTag_cons hnotag).2 fuel _ hplace' (by
                  rw [source_cons, Piece.source, List.cons_append, List.length_cons] at hfuel
                  omega)
                rw [hinside] at hscan
                rw [source_cons, Piece.source, List.cons_append, Webhooks.swallow, hscan]
                rfl
      | field before after f =>
          simp only [isPlain, Bool.and_eq_true] at hplain
          obtain ⟨⟨hbefore, hafter⟩, hplain⟩ := hplain
          have hrest := ih ⟨hplain, hpieces⟩
          constructor
          · intro fuel place hplace hfuel
            rw [source_cons] at hfuel ⊢
            cases fuel with
            | zero => simp [Piece.source] at hfuel
            | succ fuel =>
                have hstep : placeStep place (Symbol.hole f) = place := if_neg hplace
                rw [autoescapeFrom_field hbefore hafter, rewriteFrom, if_neg hplace, hstep,
                  source_cons, hrest.scan fuel place hplace (by
                    simp [Piece.source] at hfuel
                    omega)]
          · intro fuel hfuel
            rw [hrest.swallowed hbefore hafter hfuel]
            rfl
      | filtered f inString => contradiction

/-- Rewriting a template, piece by piece. -/
theorem autoescape_source (h : IsTemplate pieces) :
    autoescape (source pieces) = source (rewrite pieces) :=
  (rewrites_of_isTemplate h).scan _ .outside nofun le_rfl

end Rustrak.Webhooks
