import Rustrak.Webhooks.Pieces

/-!
# Bodies that stay JSON

A saved template sends JSON for every payload if its expressions are safe: none in an escape
that is not finished, and no number beside what could be part of it.

## Strategy

The payload is a filling of the template (`filling`), and a body is the template with its holes
written (`emit_rewriteFrom`).  What the template without a level was accepted with holds its
holes in the same places, so the template is itself read as JSON (`exists_read_of_write`), and
every other body is read as that, filled (`read_write`).
-/

namespace Rustrak.Webhooks

open Rustrak.Json.Holes

/-! ## Numbers -/

/-- The digits of a number are read to their end, after a sign too. -/
theorem foldlM_toDigits {state : NumberState} (hstate : state = .start ∨ state = .sign) (n : ℕ) :
    (Nat.toDigits 10 n).foldlM numberNext state = some (if n = 0 then .zero else .integer) := by
  have hdigit : ∀ d < 10, Json.Holes.isDigit (Nat.digitChar d) = true ∧
      (Nat.digitChar d = '0' ↔ d = 0) ∧ Nat.digitChar d ≠ '-' := by decide
  induction n using Nat.strongRecOn with
  | ind n ih =>
      by_cases hsmall : n < 10
      · obtain ⟨hd, hzero, hminus⟩ := hdigit n hsmall
        have hnext : numberNext state (Nat.digitChar n) =
            some (if n = 0 then .zero else .integer) := by
          rcases hstate with rfl | rfl
          · simp only [numberNext, if_neg hminus, hzero, if_pos hd]
            split_ifs <;> rfl
          · simp only [numberNext, hzero, if_pos hd]
            split_ifs <;> rfl
        rw [Nat.toDigits_of_lt_base hsmall, List.foldlM_cons, hnext]
        rfl
      · obtain ⟨hd, -, -⟩ := hdigit (n % 10) (Nat.mod_lt n (by decide))
        rw [Nat.toDigits_of_base_le (by decide) (by omega), List.foldlM_append,
          ih (n / 10) (by omega), if_neg (by omega), if_neg (by omega)]
        simp [List.foldlM, numberNext, hd]

theorem numberDone_decimal (n : ℤ) : numberDone (decimal n) = true := by
  have hdone : ∀ m : ℕ, isDone (if m = 0 then .zero else .integer) = true := by
    intro m
    split_ifs <;> rfl
  cases n with
  | ofNat n =>
      have hlist : decimal (Int.ofNat n) = Nat.toDigits 10 n := Nat.toList_repr
      rw [hlist, numberDone, numberState, foldlM_toDigits (.inl rfl)]
      exact hdone n
  | negSucc n =>
      have hlist : decimal (Int.negSucc n) = '-' :: Nat.toDigits 10 (n + 1) := by
        rw [← Nat.toList_repr]
        change ("-" ++ (n + 1).repr).toList = _
        simp
      rw [hlist, numberDone, numberState, List.foldlM_cons]
      change (((Nat.toDigits 10 (n + 1)).foldlM numberNext .sign).any isDone) = true
      rw [foldlM_toDigits (.inr rfl)]
      exact hdone (n + 1)

/-! ## Values as tokens -/

def Scalar.token : Scalar → Token Field
  | .none => .null
  | .number n => .number (decimal n)
  | .string s => .string (units s)

def memberTokens (member : Text × Scalar) : List (Token Field) :=
  [.string (units member.1), .colon, member.2.token]

def membersTokens : List (Text × Scalar) → List (Token Field)
  | [] => []
  | [member] => memberTokens member
  | member :: next :: members => memberTokens member ++ .comma :: membersTokens (next :: members)

def Value.tokens : Value → List (Token Field)
  | .undefined => [.null]
  | .scalar s => [s.token]
  | .object members => .openObject :: membersTokens members ++ [.closeObject]

/-- The text that a value is in a string. -/
def Value.text : Value → Text
  | .undefined => []
  | .scalar .none => []
  | .scalar (.string s) => s
  | value => value.json

variable {kind : Field → Kind} {rest : List (Symbol Field)} {c : Char}

theorem lexFrom_quotedText (s : Text) :
    lexFrom kind .between ((quotedText s).map .char ++ rest) =
      (lexFrom kind .between rest).map (.string (units s) :: ·) := by
  have hopen : step kind .between (.char '"') = some ([], .string [] .plain) := rfl
  have hclose : step kind (.string (units s) .plain) (.char '"') =
      some ([.string (units s)], .between) := rfl
  rw [quotedText, List.map_append, List.append_assoc, List.map_cons, List.cons_append,
    lexFrom_of_silent hopen, lexFrom_escape, List.nil_append, List.map_cons, List.map_nil,
    List.singleton_append, lexFrom_of_step hclose]
  rfl

theorem lexFrom_null : lexFrom kind .between ((ascii "null").map .char ++ rest) =
    (lexFrom kind .between rest).map (.null :: ·) := by
  have hword : ∀ a b more literal, step kind (.word (a :: b :: more) literal) (.char a) =
      some ([], .word (b :: more) literal) := by
    intro a b more literal
    simp [step]
  have hn : step kind .between (.char 'n') = some ([], .word ['u', 'l', 'l'] none) := rfl
  have hlast : step kind (.word ['l'] none) (.char 'l') = some ([.null], .between) := rfl
  change lexFrom kind .between (.char 'n' :: .char 'u' :: .char 'l' :: .char 'l' :: rest) = _
  rw [lexFrom_of_silent hn, lexFrom_of_silent (hword 'u' 'l' ['l'] none),
    lexFrom_of_silent (hword 'l' 'l' [] none), lexFrom_of_step hlast]
  rfl

/-- A scalar before what cannot be part of a number. -/
theorem lexFrom_scalar (s : Scalar) (hc : isNumberChar c = false) :
    lexFrom kind .between (s.json.map .char ++ .char c :: rest) =
      (lexFrom kind .between (.char c :: rest)).map (s.token :: ·) := by
  cases s with
  | none => exact lexFrom_null
  | number n =>
      change lexFrom kind .between ((decimal n).map .char ++ .char c :: rest) = _
      rw [lexFrom_between_digits (numberDone_decimal n), lexFrom_number_of_other hc,
        if_pos (numberDone_decimal n)]
      rfl
  | string s => exact lexFrom_quotedText s

theorem lexFrom_member (member : Text × Scalar) (hc : isNumberChar c = false) :
    lexFrom kind .between ((memberJson member).map .char ++ .char c :: rest) =
      (lexFrom kind .between (.char c :: rest)).map (memberTokens member ++ ·) := by
  have hcolon : step kind .between (.char ':') = some ([.colon], .between) := rfl
  rw [memberJson, List.map_append, List.append_assoc, lexFrom_quotedText, List.map_cons,
    List.cons_append, lexFrom_of_step hcolon, lexFrom_scalar _ hc, Option.map_map,
    Option.map_map]
  rfl

theorem lexFrom_members (members : List (Text × Scalar)) (hc : isNumberChar c = false) :
    lexFrom kind .between ((membersJson members).map .char ++ .char c :: rest) =
      (lexFrom kind .between (.char c :: rest)).map (membersTokens members ++ ·) := by
  induction members with
  | nil => exact (congrFun Option.map_id _).symm
  | cons member members ih =>
      cases members with
      | nil => exact lexFrom_member member hc
      | cons next members =>
          have hcomma : step kind .between (.char ',') = some ([.comma], .between) := rfl
          rw [membersJson, List.map_append, List.append_assoc, List.map_cons, List.cons_append,
            lexFrom_member member (by decide), lexFrom_of_step hcomma, ih, Option.map_map,
            Option.map_map, membersTokens]
          congr 1

theorem reads_object (members : List (Text × Scalar)) :
    Reads kind (Value.object members).json (Value.object members).tokens where
  starts := ⟨'{', membersJson members ++ ['}'], rfl, .inr (.inr rfl)⟩
  reads rest := by
    have hopen : step kind .between (.char '{') = some ([.openObject], .between) := rfl
    have hclose : step kind .between (.char '}') = some ([.closeObject], .between) := rfl
    rw [Value.json, List.cons_append, List.map_cons, List.cons_append, lexFrom_of_step hopen,
      List.map_append, List.append_assoc, List.map_cons, List.map_nil, List.singleton_append,
      lexFrom_members members (by decide), lexFrom_of_step hclose, Option.map_map,
      Option.map_map, Value.tokens]
    congr 1
    funext tokens
    simp

theorem reads_string (s : Text) :
    Reads kind (Value.scalar (.string s)).json (Value.scalar (.string s)).tokens where
  starts := ⟨'"', escape s ++ ['"'], rfl, .inl rfl⟩
  reads _ := lexFrom_quotedText s

theorem reads_null : Reads kind (Value.scalar .none).json (Value.scalar .none).tokens where
  starts := ⟨'n', ['u', 'l', 'l'], rfl, .inr (.inl rfl)⟩
  reads _ := lexFrom_null

/-! ## The payload as a filling -/

variable (payload : AlertPayload)

theorem filling_number (f : Field) (h : f.kind = .number) :
    (f.value payload).tokens = [.number (f.value payload).json] ∧
      numberDone (f.value payload).json = true := by
  cases f <;> first
    | contradiction
    | exact ⟨rfl, numberDone_decimal _⟩

theorem reads_level (level : Option Text) :
    Reads kind (Value.scalar (levelScalar level)).json
      (Value.scalar (levelScalar level)).tokens := by
  cases level with
  | none => exact reads_null
  | some level => exact reads_string level

theorem filling_reads (f : Field) (h : f.kind ≠ .number) :
    Reads Field.kind (f.value payload).json (f.value payload).tokens := by
  cases f with
  | project => exact reads_object _
  | issue => exact reads_object _
  | issueLevel => exact reads_level _
  | projectId => exact absurd rfl h
  | issueEventCount => exact absurd rfl h
  | _ => exact reads_string _

/-- Every field by its value in the payload. -/
def filling : Filling Field.kind where
  text f := (f.value payload).text
  value f := (f.value payload).tokens
  printed f := (f.value payload).json
  number := filling_number payload
  reads := filling_reads payload

variable {position : Position}

theorem positionAfter_string (content : List (Atom Field)) :
    positionAfter Field.kind position [.string content] =
      next Field.kind position (.string content) := by
  rw [positionAfter_cons]
  cases next Field.kind position (.string content) <;> rfl

/-- An object stands where a value may. -/
theorem positionAfter_object {f : Field} (h : f.kind = .other) (tokens : List (Token Field))
    (hmembers : ∀ outer, positionAfter Field.kind (.firstKey, .object :: outer) tokens =
      some (.rest, outer)) :
    positionAfter Field.kind position (.openObject :: tokens) =
      next Field.kind position (.value f) := by
  obtain ⟨expect, outer⟩ := position
  rw [positionAfter_cons]
  simp only [next, h]
  cases expect <;> simp [Expect.takesValue, hmembers]

/-- Every value stands where its hole may and nowhere else, except a level for a key. -/
theorem positionAfter_value (f : Field) (h : f = .issueLevel → payload.issue.level = none) :
    positionAfter Field.kind position (f.value payload).tokens =
      next Field.kind position (.value f) := by
  have htext : ∀ g : Field, g.kind = .text → ∀ content : List (Atom Field),
      positionAfter Field.kind position [.string content] =
        next Field.kind position (.value g) := by
    intro g hg content
    rw [positionAfter_string]
    simp [next, hg]
  have hnumber : ∀ g : Field, g.kind = .number → ∀ digits : List Char,
      positionAfter Field.kind position [.number digits] =
        next Field.kind position (.value g) := by
    intro g hg digits
    rw [positionAfter_cons]
    simp only [next, hg]
    split_ifs <;> simp_all [positionAfter]
  cases f with
  | project => exact positionAfter_object rfl _ fun outer => rfl
  | issue =>
      refine positionAfter_object rfl _ fun outer => ?_
      cases payload.issue.level <;> rfl
  | issueLevel =>
      have hnull : (Field.value payload .issueLevel).tokens = [.null] := by
        simp [Field.value, h rfl, levelScalar, Value.tokens, Scalar.token]
      rw [hnull, positionAfter_cons]
      simp only [next, Field.kind]
      split_ifs <;> simp_all [positionAfter]
  | projectId => exact hnumber .projectId rfl _
  | issueEventCount => exact hnumber .issueEventCount rfl _
  | alertId => exact htext .alertId rfl _
  | alertType => exact htext .alertType rfl _
  | triggeredAt => exact htext .triggeredAt rfl _
  | projectName => exact htext .projectName rfl _
  | projectSlug => exact htext .projectSlug rfl _
  | issueId => exact htext .issueId rfl _
  | issueShortId => exact htext .issueShortId rfl _
  | issueTitle => exact htext .issueTitle rfl _
  | issueFirstSeen => exact htext .issueFirstSeen rfl _
  | issueLastSeen => exact htext .issueLastSeen rfl _
  | issueUrl => exact htext .issueUrl rfl _
  | actor => exact htext .actor rfl _

theorem filling_exact (h : payload.issue.level = none) : (filling payload).Exact :=
  fun f _ => positionAfter_value payload f fun _ => h

theorem filling_fits : (filling payload).Fits := by
  intro f position after hnext
  by_cases hlevel : f = .issueLevel → payload.issue.level = none
  · rw [← hnext]
    exact positionAfter_value payload f hlevel
  · rw [Classical.not_imp] at hlevel
    obtain ⟨rfl, hsome⟩ := hlevel
    obtain ⟨level, hlevel⟩ := Option.ne_none_iff_exists'.mp hsome
    obtain ⟨expect, outer⟩ := position
    have htokens : ((filling payload).value .issueLevel) = [.string (units level)] := by
      change (Field.value payload .issueLevel).tokens = _
      simp [Field.value, hlevel, levelScalar, Value.tokens, Scalar.token]
    rw [htokens, positionAfter_string, ← hnext]
    cases expect <;> simp_all [next, Expect.takesKey, Expect.takesValue, Field.kind]

/-! ## What the engine is given -/

/-- A source without one line end at its end. -/
def chomp (s : Text) : Text :=
  match s.reverse with
  | '\n' :: '\r' :: rest => rest.reverse
  | '\n' :: rest => rest.reverse
  | _ => s

def chompLast : List Piece → List Piece
  | [] => []
  | [.text s] => [.text (chomp s)]
  | piece :: pieces => piece :: chompLast pieces

/-- What a piece prints, where `print` is how a value without a filter is printed. -/
def printPiece (print : Value → Text) (payload : AlertPayload) : Piece → Except Text Text
  | .text s => .ok s
  | .field _ _ f => .ok (print (f.value payload))
  | .filtered f true => jsonString (f.value payload) (some f.path)
  | .filtered f false => jsonValue (f.value payload) (some f.path)

def printPieces (print : Value → Text) (payload : AlertPayload) :
    List Piece → Except Text Text
  | [] => .ok []
  | piece :: pieces => do
      let text ← printPiece print payload piece
      let more ← printPieces print payload pieces
      return text ++ more

/-- The engine compiles literal text and expressions that name a field, drops a line end at the
end of the source, and prints every piece of the rest as it is. -/
structure Engine.Verbatim (engine : Engine) (print : Value → Text) : Prop where
  compile : ∀ pieces, isPlain pieces = true → engine.compile (source pieces) = .ok ()
  render : ∀ pieces payload text, isPlain pieces = true →
    printPieces print payload (chompLast pieces) = .ok text →
      engine.render (source pieces) payload = .ok text

variable {pieces : List Piece} {place : Place} {print : Value → Text} {engine : Engine}

theorem chompLast_cons_cons (piece next : Piece) (pieces : List Piece) :
    chompLast (piece :: next :: pieces) = piece :: chompLast (next :: pieces) := by
  cases piece <;> rfl

theorem chompLast_rewriteFrom (place : Place) (pieces : List Piece) :
    chompLast (rewriteFrom place pieces) = rewriteFrom place (chompLast pieces) := by
  induction pieces generalizing place with
  | nil => rfl
  | cons piece pieces ih =>
      cases pieces with
      | nil =>
          cases piece with
          | text s => rfl
          | field before after f =>
              rw [rewriteFrom]
              split_ifs with hescaped
              · simp [rewriteFrom, chompLast, hescaped]
              · simp [rewriteFrom, chompLast, hescaped]
          | filtered f inString => rfl
      | cons next pieces =>
          have hrewrite : ∀ p place, chompLast (p :: rewriteFrom place (next :: pieces)) =
              p :: chompLast (rewriteFrom place (next :: pieces)) := by
            intro p place
            cases next <;> cases p <;> rfl
          cases piece <;> simp only [rewriteFrom, chompLast_cons_cons, hrewrite, ih]

theorem jsonString_value (f : Field) :
    jsonString (f.value payload) (some f.path) = .ok (escape (f.value payload).text) := by
  have hscalar : ∀ s : Scalar, jsonString (.scalar s) (some f.path) =
      .ok (escape (Value.scalar s).text) := by
    intro s
    cases s <;> rfl
  cases f with
  | project => rfl
  | issue => rfl
  | _ => exact hscalar _

theorem jsonValue_value (f : Field) :
    jsonValue (f.value payload) (some f.path) = .ok (f.value payload).json := by
  cases f <;> rfl

/-- How a value prints in an escape, where it has no filter. -/
def rawText (print : Value → Text) (payload : AlertPayload) (f : Field) : Text :=
  print (f.value payload)

theorem write_text (raw : Field → Text) (place : Place) (s : Text) :
    (filling payload).write raw place (s.map .char ++ rest) =
      s ++ (filling payload).write raw (s.foldl Place.next place) rest := by
  induction s generalizing place with
  | nil => rfl
  | cons c s ih =>
      rw [List.map_cons, List.cons_append, Filling.write, ih]
      rfl

/-- What a rewritten template prints is the template with its holes written. -/
theorem printPieces_rewriteFrom (hwritten : ∀ piece ∈ pieces, piece.isWritten = true)
    (place : Place) :
    printPieces print payload (rewriteFrom place pieces) =
      .ok ((filling payload).write (rawText print payload) place (symbols pieces)) := by
  induction pieces generalizing place with
  | nil => rfl
  | cons piece pieces ih =>
      obtain ⟨hpiece, hpieces⟩ := List.forall_mem_cons.mp hwritten
      have hmore := ih hpieces
      cases piece with
      | text s =>
          rw [rewriteFrom, printPieces, hmore, symbols, write_text]
          rfl
      | field before after f =>
          rw [rewriteFrom, printPieces, hmore, symbols, Filling.write]
          cases place with
          | outside =>
              rw [if_neg (by simp)]
              simp only [printPiece, bne_self_eq_false, jsonValue_value]
              rfl
          | escaped => rfl
          | inside =>
              rw [if_neg (by simp), show (Place.inside != .outside) = true from rfl]
              simp only [printPiece, jsonString_value]
              rfl
          | hex left =>
              rw [if_neg (by simp), show (Place.hex left != .outside) = true from rfl]
              simp only [printPiece, jsonString_value]
              rfl
      | filtered f inString => contradiction

theorem opens_cons (c : Char) (s : Text) : opens (c :: s) =
    (c == '{' && s.head?.any fun d => d == '{' || d == '%' || d == '#') := by
  unfold opens
  split
  · next heq => obtain ⟨rfl, rfl⟩ := List.cons.inj heq; rfl
  · next heq => obtain ⟨rfl, rfl⟩ := List.cons.inj heq; rfl
  · next heq => obtain ⟨rfl, rfl⟩ := List.cons.inj heq; rfl
  · next hbrace hpercent hhash =>
      symm
      rw [Bool.and_eq_false_iff]
      by_cases hc : c = '{'
      · subst hc
        right
        cases s with
        | nil => rfl
        | cons d s =>
            simp only [List.head?_cons, Option.any_some, Bool.or_eq_false_iff,
              beq_eq_false_iff_ne]
            refine ⟨⟨?_, ?_⟩, ?_⟩
            · rintro rfl
              exact hbrace s rfl
            · rintro rfl
              exact hpercent s rfl
            · rintro rfl
              exact hhash s rfl
      · exact .inl (beq_eq_false_iff_ne.mpr hc)

/-- Whether a tag opens in a text depends on no more than one character after it. -/
theorem noTag_congr {s after after' : Text} (h : after.head? = after'.head?) :
    noTag s after = noTag s after' := by
  induction s with
  | nil => rfl
  | cons c s ih =>
      rw [noTag, noTag, ih, opens_cons, opens_cons]
      cases s with
      | nil => rw [List.nil_append, List.nil_append, h]
      | cons d s => rfl

theorem startsWithText_rewriteFrom :
    startsWithText (rewriteFrom place pieces) = startsWithText pieces := by
  cases pieces with
  | nil => rfl
  | cons piece pieces =>
      cases piece with
      | text s => rfl
      | field before after f =>
          rw [rewriteFrom]
          split_ifs <;> rfl
      | filtered f inString => rfl

theorem isPlain_rewriteFrom (h : isPlain pieces = true) :
    isPlain (rewriteFrom place pieces) = true := by
  induction pieces generalizing place with
  | nil => rfl
  | cons piece pieces ih =>
      cases piece with
      | text s =>
          simp only [isPlain, Bool.and_eq_true] at h
          obtain ⟨⟨⟨hne, hnotag⟩, hstarts⟩, hplain⟩ := h
          have hhead : (source (rewriteFrom (s.foldl Place.next place) pieces)).head? =
              (source pieces).head? := by
            cases pieces with
            | nil => rfl
            | cons next pieces =>
                cases next with
                | text t => simp [startsWithText] at hstarts
                | field before after f =>
                    rw [rewriteFrom]
                    split_ifs <;> rfl
                | filtered f inString => rfl
          simp only [rewriteFrom, isPlain, Bool.and_eq_true]
          refine ⟨⟨⟨hne, ?_⟩, ?_⟩, ih hplain⟩
          · rw [noTag_congr hhead]
            exact hnotag
          · rw [startsWithText_rewriteFrom]
            exact hstarts
      | field before after f =>
          simp only [isPlain, Bool.and_eq_true] at h
          rw [rewriteFrom]
          split_ifs
          · simp only [isPlain, Bool.and_eq_true]
            exact ⟨h.1, ih h.2⟩
          · exact ih h.2
      | filtered f inString => exact ih h

theorem written_chompLast (h : ∀ piece ∈ pieces, piece.isWritten = true) :
    ∀ piece ∈ chompLast pieces, piece.isWritten = true := by
  induction pieces with
  | nil => exact h
  | cons piece pieces ih =>
      obtain ⟨hpiece, hpieces⟩ := List.forall_mem_cons.mp h
      cases pieces with
      | nil => cases piece <;> simp_all [chompLast, Piece.isWritten]
      | cons next pieces =>
          rw [chompLast_cons_cons]
          exact List.forall_mem_cons.mpr ⟨hpiece, ih hpieces⟩

/-! ## Saved templates -/

/-- A template as symbols, without the line end that is dropped. -/
def symbolsOf (pieces : List Piece) : List (Symbol Field) := symbols (chompLast pieces)

/-- The body that a template renders to, whether it is JSON or not. -/
def bodyOf (print : Value → Text) (pieces : List Piece) (payload : AlertPayload) : Text :=
  (filling payload).write (rawText print payload) .outside (symbolsOf pieces)

theorem renderBody_source (hengine : engine.Verbatim print) (h : IsTemplate pieces) :
    renderBody engine (source pieces) payload =
      if (readBody (bodyOf print pieces payload)).isSome then .ok (bodyOf print pieces payload)
      else .error (ascii "Rendered template is not valid JSON: " ++
        engine.invalid (bodyOf print pieces payload)) := by
  have hplain : isPlain (rewrite pieces) = true := isPlain_rewriteFrom h.plain
  have hprint : printPieces print payload (chompLast (rewrite pieces)) =
      .ok (bodyOf print pieces payload) := by
    rw [rewrite, chompLast_rewriteFrom]
    exact printPieces_rewriteFrom payload (written_chompLast h.written) .outside
  have hsource := autoescape_source h
  have hrender := hengine.render _ payload _ hplain hprint
  rw [renderBody, templateEnv, hsource, hengine.compile _ hplain]
  simp only [bind, Except.bind, hrender]

/-- What is accepted renders with both samples. -/
theorem renderBody_of_validateConfig
    {checks : Option Text → List (Text × Text) → Except Text Unit} {now : Text}
    {config : CustomWebhookConfig} (h : validateConfig engine checks now config = .ok ()) :
    ∃ body, renderBody engine config.template (sampleWithoutLevel now) = .ok body := by
  cases hlast : renderBody engine config.template (sampleWithoutLevel now) with
  | ok body => exact ⟨body, rfl⟩
  | error e =>
      rw [validateConfig] at h
      simp only [validationSamples, List.forIn_cons, hlast, prefixed, Except.mapError, bind,
        Except.bind, pure, Except.pure] at h
      cases hchecks : checks config.url config.headers with
      | error e => simp [hchecks] at h
      | ok _ =>
          simp only [hchecks] at h
          split_ifs at h
          cases hsource : templateEnv engine config.template with
          | error e => simp [hsource] at h
          | ok source =>
              cases hfull : renderBody engine config.template (fullSample now) with
              | error e => simp [hsource, hfull] at h
              | ok body => simp [hsource, hfull] at h

end Rustrak.Webhooks
