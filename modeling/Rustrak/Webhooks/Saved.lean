import Rustrak.Webhooks.Bodies

/-!
# Saved templates

Which of the templates that are accepted send JSON for every payload
(`neverBreaks_iff_safe`), and an engine for templates of text and fields.
-/

namespace Rustrak.Webhooks

open Rustrak.Json.Holes

/-! ## An engine -/

def allFields : List Field :=
  [.alertId, .alertType, .triggeredAt, .project, .projectId, .projectName, .projectSlug, .issue,
    .issueId, .issueShortId, .issueTitle, .issueLevel, .issueFirstSeen, .issueLastSeen,
    .issueEventCount, .issueUrl, .actor]

def fieldOf (path : Text) : Option Field := allFields.find? fun f => f.path == path

/-- An expression by what stands between its braces. -/
def readExpression (inner : Text) : Option Piece :=
  match inner.dropWhile isTagSpace with
  | '(' :: rest =>
      (fieldOf (rest.takeWhile (· != ')'))).bind fun f =>
        [true, false].findSome? fun inString =>
          if inner = filtered f.path (filterName inString) then some (.filtered f inString)
          else none
  | start =>
      (fieldOf (start.reverse.dropWhile isTagSpace).reverse).map fun f => .field [] [] f

/-- What a source prints, from here on. -/
def printFrom (print : Value → Text) (payload : AlertPayload) : ℕ → Text → Except Text Text
  | _, [] => .ok []
  | 0, _ :: _ => .error []
  | fuel + 1, c :: rest =>
      match tagEnd expressionTag (c :: rest) with
      | some (inner, after) => do
          let text ← (match readExpression inner with
            | some piece => printPiece print payload piece
            | none => .error (ascii "unknown expression"))
          let more ← printFrom print payload fuel after
          return text ++ more
      | none =>
          if opens (c :: rest) then .error (ascii "unexpected tag")
          else do
            let more ← printFrom print payload fuel rest
            return c :: more

/-- An engine for templates of text and fields.  What prints for one payload prints for all. -/
def plainEngine (print : Value → Text) : Engine where
  compile source := (printFrom print (fullSample []) source.length source).map fun _ => ()
  render source payload :=
    (printFrom print payload (chomp source).length (chomp source)).mapError .other
  invalid _ := ascii "expected value"

variable {c : Char} {s rest before after : Text} {pieces : List Piece} {f : Field}
variable {payload : AlertPayload} {print : Value → Text}

theorem fieldOf_path (f : Field) : fieldOf f.path = some f := by
  cases f <;> decide

theorem readExpression_filtered (f : Field) (inString : Bool) :
    readExpression (filtered f.path (filterName inString)) = some (.filtered f inString) := by
  cases inString <;> cases f <;> decide

theorem readExpression_field (hbefore : before.all isTagSpace = true)
    (hafter : after.all isTagSpace = true) :
    readExpression (before ++ f.path ++ after) = some (.field [] [] f) := by
  have hpath : ∀ c ∈ f.path, isTagSpace c = false := by
    intro c hc
    by_contra hspace
    rw [Bool.not_eq_false] at hspace
    have hwhite := isWhitespace_of_isTagSpace hspace
    rw [not_isWhitespace_of_isPathChar (isPathChar_of_mem_path hc)] at hwhite
    contradiction
  have hstart : (before ++ f.path ++ after).dropWhile isTagSpace = f.path ++ after :=
    dropWhile_append_of_ne_nil (List.all_eq_true.mp hbefore) hpath (path_ne_nil f)
  have hend : ((f.path ++ after).reverse.dropWhile isTagSpace).reverse = f.path := by
    have hreverse := @dropWhile_append_of_ne_nil f.path.reverse after.reverse [] isTagSpace
      (fun c hc => List.all_eq_true.mp hafter c (List.mem_reverse.mp hc))
      (fun c hc => hpath c (List.mem_reverse.mp hc)) (by simpa using path_ne_nil f)
    rw [List.append_nil, List.append_nil] at hreverse
    rw [List.reverse_append, hreverse, List.reverse_reverse]
  rw [readExpression, hstart]
  split
  · next rest heq =>
      -- no path begins with a parenthesis
      cases f <;> simp [Field.path, ascii] at heq
  · rw [hend, fieldOf_path]
    rfl

/-! ## What it reads -/

/-- No text opens a tag before what follows it, and no expression has another character. -/
def isReadable : List Piece → Bool
  | [] => true
  | .text s :: pieces => noTag s (source pieces) && isReadable pieces
  | .field before after _ :: pieces =>
      before.all isTagSpace && after.all isTagSpace && isReadable pieces
  | .filtered _ _ :: pieces => isReadable pieces

/-- What an expression is read as. -/
def Piece.bare : Piece → Piece
  | .field _ _ f => .field [] [] f
  | piece => piece

theorem printPiece_bare (piece : Piece) :
    printPiece print payload piece.bare = printPiece print payload piece := by
  cases piece <;> rfl

/-- An expression is cut out, and read. -/
theorem tagEnd_expression {piece : Piece} (hpiece : isReadable (piece :: pieces) = true)
    (htext : ∀ s, piece ≠ .text s) :
    (∃ more, piece.source ++ rest = '{' :: more) ∧
      tagEnd expressionTag (piece.source ++ rest) = some (piece.inner, rest) ∧
      readExpression piece.inner = some piece.bare := by
  cases piece with
  | text s => exact absurd rfl (htext s)
  | field before after f =>
      simp only [isReadable, Bool.and_eq_true] at hpiece
      refine ⟨⟨_, rfl⟩, cutAt_closing ?_, readExpression_field hpiece.1.1 hpiece.1.2⟩
      intro hmem
      exact absurd (isInnerChar_of_mem hpiece.1.1 hpiece.1.2 hmem) (by decide)
  | filtered f inString =>
      refine ⟨⟨_, rfl⟩, cutAt_closing ?_, readExpression_filtered f inString⟩
      cases inString <;> cases f <;> decide

/-- Text is printed as it is. -/
theorem printFrom_text {result : Except Text Text}
    (hrest : ∀ fuel, rest.length ≤ fuel → printFrom print payload fuel rest = result)
    (s : Text) (hnotag : noTag s rest = true) (fuel : ℕ) (hfuel : (s ++ rest).length ≤ fuel) :
    printFrom print payload fuel (s ++ rest) = result.map (s ++ ·) := by
  induction s generalizing fuel with
  | nil =>
      rw [List.nil_append, hrest fuel hfuel]
      cases result <;> rfl
  | cons c s ih =>
      obtain ⟨hopens, hnotag⟩ := noTag_cons hnotag
      cases fuel with
      | zero => simp at hfuel
      | succ fuel =>
          obtain ⟨-, -, hexpression⟩ := tagEnd_of_not_opens hopens
          have hmore := ih hnotag fuel (by simpa using hfuel)
          rw [List.cons_append, printFrom, hexpression]
          simp only [hopens, hmore, Bool.false_eq_true, if_false]
          cases result <;> rfl

theorem printFrom_source (h : isReadable pieces = true) (fuel : ℕ)
    (hfuel : (source pieces).length ≤ fuel) :
    printFrom print payload fuel (source pieces) = printPieces print payload pieces := by
  induction pieces generalizing fuel with
  | nil => cases fuel <;> rfl
  | cons piece pieces ih =>
      have hexpression : isReadable pieces = true → (∀ s, piece ≠ .text s) →
          printFrom print payload fuel (source (piece :: pieces)) =
            printPieces print payload (piece :: pieces) := by
        intro hpieces htext
        obtain ⟨⟨more, hopen⟩, hend, hread⟩ := @tagEnd_expression (source pieces) _ _ h htext
        rw [source_cons] at hfuel ⊢
        rw [hopen] at hfuel hend ⊢
        have hlength : (source pieces).length ≤ more.length := by
          have hlengths := congrArg List.length hopen
          cases piece with
          | text s => exact absurd rfl (htext s)
          | field before after f => simp [Piece.source] at hlengths; omega
          | filtered f inString => simp [Piece.source] at hlengths; omega
        cases fuel with
        | zero => simp at hfuel
        | succ fuel =>
            rw [printFrom, hend]
            simp only [hread, printPiece_bare]
            rw [ih hpieces fuel (by simp at hfuel; omega)]
            rfl
      cases piece with
      | text s =>
          simp only [isReadable, Bool.and_eq_true] at h
          rw [source_cons, Piece.source] at hfuel ⊢
          rw [printFrom_text (ih h.2) s h.1 fuel hfuel, printPieces]
          cases printPieces print payload pieces <;> rfl
      | field before after f =>
          apply hexpression
          · simp only [isReadable, Bool.and_eq_true] at h
            exact h.2
          · simp
      | filtered f inString => exact hexpression h (by simp)

theorem exists_printPieces (print : Value → Text) (payload : AlertPayload) (pieces : List Piece) :
    ∃ text, printPieces print payload pieces = .ok text := by
  induction pieces with
  | nil => exact ⟨[], rfl⟩
  | cons piece pieces ih =>
      obtain ⟨more, hmore⟩ := ih
      have hpiece : ∃ text, printPiece print payload piece = .ok text := by
        cases piece with
        | text s => exact ⟨s, rfl⟩
        | field before after f => exact ⟨print (f.value payload), rfl⟩
        | filtered f inString =>
            cases inString with
            | true => exact ⟨_, jsonString_value payload f⟩
            | false => exact ⟨_, jsonValue_value payload f⟩
      obtain ⟨text, htext⟩ := hpiece
      exact ⟨text ++ more, by rw [printPieces, htext, hmore]; rfl⟩

/-! ## The line end -/

theorem isReadable_of_isPlain (h : isPlain pieces = true) : isReadable pieces = true := by
  induction pieces with
  | nil => rfl
  | cons piece pieces ih =>
      cases piece with
      | text s =>
          simp only [isPlain, isReadable, Bool.and_eq_true] at h ⊢
          exact ⟨h.1.1.2, ih h.2⟩
      | field before after f =>
          simp only [isPlain, isReadable, Bool.and_eq_true] at h ⊢
          exact ⟨h.1, ih h.2⟩
      | filtered f inString => exact ih h

/-- No tag opens in the part of a text before its end. -/
theorem noTag_of_append {a b : Text} (h : noTag (a ++ b) [] = true) : noTag a [] = true := by
  induction a with
  | nil => rfl
  | cons c a ih =>
      obtain ⟨hopens, hnotag⟩ := noTag_cons h
      rw [noTag, ih hnotag, Bool.and_true, Bool.not_eq_true']
      rw [opens_cons] at hopens ⊢
      cases a with
      | nil => exact Bool.and_false _
      | cons d a => exact hopens

theorem exists_chomp (s : Text) : ∃ lineEnd, s = chomp s ++ lineEnd := by
  rw [chomp]
  split
  · next rest heq => exact ⟨['\r', '\n'], by rw [← List.reverse_reverse s, heq]; simp⟩
  · next rest _ heq => exact ⟨['\n'], by rw [← List.reverse_reverse s, heq]; simp⟩
  · exact ⟨[], (List.append_nil s).symm⟩

theorem chomp_append {a b : Text} (hne : b ≠ [])
    (h : b.length = 1 → a.getLast? ≠ some '\r') : chomp (a ++ b) = a ++ chomp b := by
  obtain ⟨r, rfl⟩ : ∃ r : Text, b = r.reverse := ⟨b.reverse, b.reverse_reverse.symm⟩
  obtain ⟨l, rfl⟩ : ∃ l : Text, a = l.reverse := ⟨a.reverse, a.reverse_reverse.symm⟩
  rw [chomp, chomp, ← List.reverse_append, List.reverse_reverse, List.reverse_reverse]
  cases r with
  | nil => simp at hne
  | cons c r =>
      by_cases hc : c = '\n'
      · subst hc
        cases r with
        | nil =>
            cases l with
            | nil => rfl
            | cons d l =>
                have hd : d ≠ '\r' := by simpa using h
                simp [hd]
        | cons d r =>
            by_cases hd : d = '\r'
            · subst hd
              simp
            · simp [hd]
      · simp [hc]

theorem isReadable_chompLast (h : isPlain pieces = true) :
    isReadable (chompLast pieces) = true := by
  induction pieces with
  | nil => rfl
  | cons piece pieces ih =>
      cases pieces with
      | nil =>
          cases piece with
          | text s =>
              simp only [isPlain, source_nil, Bool.and_eq_true] at h
              obtain ⟨lineEnd, hs⟩ := exists_chomp s
              have hnotag := h.1.1.2
              rw [hs] at hnotag
              simp only [chompLast, isReadable, source_nil, noTag_of_append hnotag, Bool.and_self]
          | field before after f => exact isReadable_of_isPlain h
          | filtered f inString => rfl
      | cons next pieces =>
          rw [chompLast_cons_cons]
          cases piece with
          | text s =>
              simp only [isPlain, Bool.and_eq_true] at h
              obtain ⟨⟨⟨-, hnotag⟩, hstarts⟩, hplain⟩ := h
              have hhead : (source (chompLast (next :: pieces))).head? =
                  (source (next :: pieces)).head? := by
                cases next with
                | text t => simp [startsWithText] at hstarts
                | field before after f => cases pieces <;> rfl
                | filtered f inString => cases pieces <;> rfl
              rw [isReadable, ih hplain, Bool.and_true, noTag_congr hhead]
              exact hnotag
          | field before after f =>
              simp only [isPlain, Bool.and_eq_true] at h
              rw [isReadable, ih h.2, h.1.1, h.1.2]
              rfl
          | filtered f inString => exact ih h

theorem source_expression {piece : Piece} (htext : ∀ s, piece ≠ .text s) :
    piece.source = '{' :: '{' :: piece.inner ++ ['}', '}'] := by
  cases piece with
  | text s => exact absurd rfl (htext s)
  | field before after f => rfl
  | filtered f inString => rfl

/-- There is something after a piece, and no line end alone after text. -/
theorem one_lt_length_source {next : Piece}
    (h : isPlain (next :: pieces) = true) : source (next :: pieces) ≠ [] ∧
      ((∀ s, next ≠ .text s) → 1 < (source (next :: pieces)).length) := by
  have hexpression : (∀ s, next ≠ .text s) → 1 < (source (next :: pieces)).length := by
    intro htext
    simp [source_expression htext]
  refine ⟨?_, hexpression⟩
  cases next with
  | text s =>
      simp only [isPlain, Bool.and_eq_true, Bool.not_eq_true', List.isEmpty_eq_false_iff] at h
      simp [Piece.source, h.1.1.1]
  | field before after f => exact List.ne_nil_of_length_pos (by have := hexpression (by simp); omega)
  | filtered f inString => exact List.ne_nil_of_length_pos (by have := hexpression (by simp); omega)

theorem chomp_source (h : isPlain pieces = true) :
    chomp (source pieces) = source (chompLast pieces) := by
  induction pieces with
  | nil => rfl
  | cons piece pieces ih =>
      cases pieces with
      | nil =>
          have hexpression : (∀ s, piece ≠ .text s) → chomp piece.source = piece.source := by
            intro htext
            rw [source_expression htext, chomp]
            simp
          cases piece with
          | text s => simp [Piece.source, chompLast]
          | field before after f => simpa [chompLast] using hexpression (by simp)
          | filtered f inString => simpa [chompLast] using hexpression (by simp)
      | cons next pieces =>
          have htail : isPlain (next :: pieces) = true := by
            cases piece with
            | text s =>
                rw [isPlain, Bool.and_eq_true] at h
                exact h.2
            | field before after f =>
                rw [isPlain, Bool.and_eq_true] at h
                exact h.2
            | filtered f inString => exact h
          obtain ⟨hne, hlength⟩ := one_lt_length_source htail
          have hexpression : (∀ s, piece ≠ .text s) → piece.source.getLast? ≠ some '\r' := by
            intro htext
            rw [source_expression htext, List.getLast?_append]
            simp
          rw [chompLast_cons_cons, source_cons, source_cons piece (chompLast _), ← ih htail]
          apply chomp_append hne
          intro hone
          cases piece with
          | text s =>
              simp only [isPlain, Bool.and_eq_true, Bool.not_eq_true'] at h
              have hnext : ∀ t, next ≠ .text t := by
                rintro t rfl
                exact absurd h.1.2 (by simp [startsWithText])
              have := hlength hnext
              omega
          | field before after f => exact hexpression (by simp)
          | filtered f inString => exact hexpression (by simp)

theorem plainEngine_verbatim (print : Value → Text) : (plainEngine print).Verbatim print where
  compile pieces h := by
    obtain ⟨text, htext⟩ := exists_printPieces print (fullSample []) pieces
    rw [← printFrom_source (isReadable_of_isPlain h) _ le_rfl] at htext
    simp only [plainEngine, htext]
    rfl
  render pieces payload text h hprint := by
    have hread := isReadable_chompLast h
    simp only [plainEngine, chomp_source h, printFrom_source hread _ le_rfl, hprint]
    rfl

/-! ## Templates that never break -/

/-- What is sent for every payload is JSON, and always the template, with the text of a field for
each expression in a string and its value for each other. -/
def NeverBreaks (engine : Engine) (pieces : List Piece) : Prop :=
  ∃ tokens, read Field.kind (symbolsOf pieces) = some tokens ∧
    ∀ payload, ∃ body, renderBody engine (source pieces) payload = .ok body ∧
      readBody body = some ((filling payload).fill tokens)

variable {engine : Engine} {checks : Option Text → List (Text × Text) → Except Text Unit}
variable {now : Text} {config : CustomWebhookConfig}

/-- A template that is accepted with safe expressions is JSON with holes. -/
theorem exists_read_of_validateConfig (hengine : engine.Verbatim print) (h : IsTemplate pieces)
    (htemplate : config.template = source pieces)
    (haccepted : validateConfig engine checks now config = .ok ())
    (hsafe : Safe Field.kind (symbolsOf pieces)) :
    ∃ tokens, read Field.kind (symbolsOf pieces) = some tokens := by
  obtain ⟨body, hbody⟩ := renderBody_of_validateConfig haccepted
  rw [htemplate, renderBody_source _ hengine h] at hbody
  split_ifs at hbody with hread
  exact exists_read_of_write (filling_exact _ rfl) _ hsafe hread

/-- An accepted template sends JSON for every payload if and only if no expression stands in an
escape that is not finished, and no number outside strings beside what could be part of it. -/
theorem neverBreaks_iff_safe (hengine : engine.Verbatim print) (h : IsTemplate pieces)
    (htemplate : config.template = source pieces)
    (haccepted : validateConfig engine checks now config = .ok ()) :
    NeverBreaks engine pieces ↔ Safe Field.kind (symbolsOf pieces) := by
  constructor
  · rintro ⟨tokens, hread, -⟩
    exact safe_of_read hread
  · intro hsafe
    obtain ⟨tokens, hread⟩ := exists_read_of_validateConfig hengine h htemplate haccepted hsafe
    refine ⟨tokens, hread, fun payload => ?_⟩
    have hbody : readBody (bodyOf print pieces payload) = some ((filling payload).fill tokens) :=
      read_write (filling_fits payload) _ hsafe hread
    refine ⟨bodyOf print pieces payload, ?_, hbody⟩
    rw [renderBody_source _ hengine h, hbody]
    rfl

/-- A title in a string, and a number. -/
def titleAndCount : List Piece :=
  [.text (ascii "\x7b\"t\": \""), .field [' '] [' '] .issueTitle, .text (ascii "\", \"n\": "),
    .field [' '] [' '] .issueEventCount, .text (ascii "\x7d")]

/-- The kind of an alert after a backslash: the samples make it a line feed. -/
def escapedKind : List Piece :=
  [.text (ascii "\x7b\"t\": \"\\"), .field [' '] [' '] .alertType, .text (ascii "\"\x7d")]

def configOf (pieces : List Piece) : CustomWebhookConfig := ⟨none, [], source pieces⟩

def sampleTime : Text := ascii "2026-01-01T00:00:00Z"

def anyTarget (_ : Option Text) (_ : List (Text × Text)) : Except Text Unit := .ok ()

theorem neverBreaks_iff_safe_titleAndCount :
    NeverBreaks (plainEngine Value.text) titleAndCount ↔
      Safe Field.kind (symbolsOf titleAndCount) := by
  have haccepted : validateConfig (plainEngine Value.text) anyTarget sampleTime
      (configOf titleAndCount) = .ok () := by decide +kernel
  exact neverBreaks_iff_safe (plainEngine_verbatim Value.text) ⟨by decide, by decide⟩ rfl haccepted

/-- The alert of an issue that is no longer muted does not render. -/
theorem escapedKind_breaks :
    ¬∀ (engine : Engine) (print : Value → Text) (pieces : List Piece)
      (checks : Option Text → List (Text × Text) → Except Text Unit) (now : Text)
      (config : CustomWebhookConfig), engine.Verbatim print → IsTemplate pieces →
        config.template = source pieces → validateConfig engine checks now config = .ok () →
          NeverBreaks engine pieces := by
  intro hall
  have haccepted : validateConfig (plainEngine Value.text) anyTarget sampleTime
      (configOf escapedKind) = .ok () := by decide +kernel
  obtain ⟨tokens, -, hbodies⟩ := hall _ _ escapedKind _ _ _ (plainEngine_verbatim Value.text)
    ⟨by decide, by decide⟩ rfl haccepted
  have hrefused : renderBody (plainEngine Value.text) (source escapedKind)
      { fullSample sampleTime with alertType := ascii "unmute" } =
        .error (ascii "Rendered template is not valid JSON: expected value") := by decide +kernel
  obtain ⟨body, hbody, -⟩ := hbodies { fullSample sampleTime with alertType := ascii "unmute" }
  rw [hrefused] at hbody
  contradiction

end Rustrak.Webhooks
