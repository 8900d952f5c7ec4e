import Mathlib.Data.List.Induction
import Mathlib.Tactic.IntervalCases
import Rustrak.Json.Holes

/-!
# Filling the holes of a JSON text

Something is written into each hole for where it stands: escaped text in a string, the text of
a value elsewhere.  What is then read is what the text with holes was read as, with each hole
replaced (`lexFrom_fill`), if the holes are safe: none in an escape, and no number beside what
could grow it.

## Strategy

A step on a character commutes with filling (`step_fill_char`), except where a hole that is a
number is held: there the filled text is still within the number, and goes on as the hole does
because no character of a number follows.  What is written into a hole in a string is read back
by `lexFrom_escape`, what is written elsewhere by the fields of `Filling`.  `At` says what the
mode tells of the symbols already read, so that the safety of a hole speaks about its mode.
-/

namespace Rustrak.Json.Holes

variable {H : Type} {kind : H → Kind}

/-! ## Where a symbol stands -/

/-- Where in a text the next symbol stands. -/
inductive Place
  | outside
  | inside
  | escaped
  | hex (left : ℕ)
  deriving DecidableEq, Repr

def Place.next (place : Place) (c : Char) : Place :=
  match place with
  | .outside => if c = '"' then .inside else .outside
  | .inside => if c = '"' then .outside else if c = '\\' then .escaped else .inside
  | .escaped => if c = 'u' then .hex 4 else .inside
  | .hex left =>
      if c = '"' then .outside else if c = '\\' then .escaped
      else
        match left with
        | left + 2 => .hex (left + 1)
        | _ => .inside

def placeStep (place : Place) (symbol : Symbol H) : Place :=
  match symbol with
  | .char c => place.next c
  -- a hole takes the place of one letter of an escape
  | .hole _ => if place = .escaped then .inside else place

def placeAfter (symbols : List (Symbol H)) : Place := symbols.foldl placeStep .outside

@[simp] theorem placeAfter_append (symbols : List (Symbol H)) (symbol : Symbol H) :
    placeAfter (symbols ++ [symbol]) = placeStep (placeAfter symbols) symbol := by
  rw [placeAfter, List.foldl_append]
  rfl

variable (kind) in
/-- A character of numbers, or a hole that is a number. -/
def Symbol.isNumeric : Symbol H → Bool
  | .char c => isNumberChar c
  | .hole h => kind h == .number

variable (kind) in
/-- No hole stands in an escape, and none that is a number beside what could be part of it. -/
structure Safe (symbols : List (Symbol H)) : Prop where
  escapes : ∀ before h after, symbols = before ++ .hole h :: after →
    placeAfter before = .inside ∨ placeAfter before = .outside
  numbers : ∀ before h after, symbols = before ++ .hole h :: after → kind h = .number →
    placeAfter before = .outside →
      (∀ s ∈ before.getLast?, s.isNumeric kind = false) ∧
        ∀ s ∈ after.head?, s.isNumeric kind = false

/-! ## What is written into a hole -/

def units (text : List Char) : List (Atom H) := text.flatMap fun c => (utf16 c).map .unit

/-- A character between quotes. -/
def escapeChar (c : Char) : List Char :=
  match c with
  | '"' => ['\\', '"']
  | '\\' => ['\\', '\\']
  | '\x08' => ['\\', 'b']
  | '\x0c' => ['\\', 'f']
  | '\n' => ['\\', 'n']
  | '\r' => ['\\', 'r']
  | '\t' => ['\\', 't']
  | c =>
      if c < ' ' then ['\\', 'u', '0', '0', Nat.digitChar (c.toNat / 16), Nat.digitChar (c.toNat % 16)]
      else [c]

def escape (text : List Char) : List Char := text.flatMap escapeChar

/-- A text that is read as these tokens, whatever follows it. -/
structure Reads (kind : H → Kind) (text : List Char) (tokens : List (Token H)) : Prop where
  starts : ∃ c more, text = c :: more ∧ (c = '"' ∨ c = 'n' ∨ c = '{')
  reads : ∀ rest, lexFrom kind .between (text.map .char ++ rest) =
    (lexFrom kind .between rest).map (tokens ++ ·)

/-- What every hole is filled with. -/
structure Filling (kind : H → Kind) where
  /-- Its text, in a string. -/
  text : H → List Char
  /-- Its tokens as a value. -/
  value : H → List (Token H)
  /-- The value, written. -/
  printed : H → List Char
  number : ∀ h, kind h = .number → value h = [.number (printed h)] ∧ numberDone (printed h) = true
  reads : ∀ h, kind h ≠ .number → Reads kind (printed h) (value h)

namespace Filling

variable (p : Filling kind)

def atom : Atom H → List (Atom H)
  | .unit n => [.unit n]
  | .hole h => units (p.text h)

def token : Token H → List (Token H)
  | .string content => [.string (content.flatMap p.atom)]
  | .value h => p.value h
  | token => [token]

def fill (tokens : List (Token H)) : List (Token H) := tokens.flatMap p.token

def mode : Mode H → Mode H
  | .held h => .number (p.printed h)
  | .string content escape => .string (content.flatMap p.atom) escape
  | .between => .between
  | .word rest literal => .word rest literal
  | .number digits => .number digits

/-- What is written into a hole for its place, and as `raw` in an escape. -/
def written (raw : H → List Char) (place : Place) (h : H) : List Char :=
  match place with
  | .outside => p.printed h
  | .escaped => raw h
  | .inside => escape (p.text h)
  | .hex _ => escape (p.text h)

/-- The text with its holes written. -/
def write (raw : H → List Char) (place : Place) : List (Symbol H) → List Char
  | [] => []
  | .char c :: rest => c :: write raw (place.next c) rest
  | .hole h :: rest =>
      p.written raw place h ++ write raw (placeStep place (.hole h)) rest

@[simp] theorem fill_nil : p.fill [] = [] := rfl

@[simp] theorem fill_append (a b : List (Token H)) : p.fill (a ++ b) = p.fill a ++ p.fill b :=
  List.flatMap_append

theorem fill_cons (t : Token H) (ts : List (Token H)) : p.fill (t :: ts) = p.token t ++ p.fill ts :=
  List.flatMap_cons

end Filling

variable (kind) in
/-- What is read of some symbols that do not end the text. -/
def run (mode : Mode H) : List (Symbol H) → Reading H
  | [] => some ([], mode)
  | symbol :: rest =>
      (step kind mode symbol).bind fun (tokens, mode) =>
        (run mode rest).map fun (more, mode) => (tokens ++ more, mode)

variable {m m' : Mode H} {c : Char} {s : Symbol H} {out : List (Token H)}

theorem lexFrom_append (a b : List (Symbol H)) : lexFrom kind m (a ++ b) =
    (run kind m a).bind fun (tokens, mode) => (lexFrom kind mode b).map (tokens ++ ·) := by
  induction a generalizing m with
  | nil => simp [run]
  | cons s a ih =>
      rw [List.cons_append, lexFrom, run]
      cases hstep : step kind m s with
      | none => rfl
      | some reading =>
          obtain ⟨tokens, next⟩ := reading
          simp only [Option.bind_some, ih]
          cases run kind next a with
          | none => rfl
          | some more => simp [Option.map_map, Function.comp_def]

/-! ## What the mode tells -/

def Mode.place : Mode H → Place
  | .string _ .plain => .inside
  | .string _ .escaped => .escaped
  | .string _ (.hex left _) => .hex left
  | _ => .outside

/-- The letters of the words after their first. -/
def wordLetters : List Char := ['u', 'l', 'r', 'e', 'a', 's']

variable (kind) in
/-- The symbols before a mode, as far as it tells. -/
structure At (before : List (Symbol H)) (mode : Mode H) : Prop where
  place : mode.place = placeAfter before
  word : ∀ rest literal, mode = .word rest literal → ∀ c ∈ rest, c ∈ wordLetters
  number : ∀ digits, mode = .number digits →
    (numberState digits).isSome ∧ ∃ s ∈ before.getLast?, s.isNumeric kind = true
  held : ∀ h, mode = .held h → kind h = .number ∧
    ∃ earlier, before = earlier ++ [.hole h] ∧ placeAfter earlier = .outside

theorem at_nil : At kind [] (.between : Mode H) where
  place := rfl
  word := nofun
  number := nofun
  held := nofun

/-- What a character comes to where no token is under way. -/
inductive Opened (c : Char) (out : List (Token H)) : Mode H → Prop
  | between (hc : isNumberChar c = false) (hquote : c ≠ '"') : Opened c out .between
  | string (hc : c = '"') (hout : out = []) : Opened c out (.string [] .plain)
  | word {rest literal} (hrest : ∀ r ∈ rest, r ∈ wordLetters) (hne : rest ≠ []) (hquote : c ≠ '"')
      (hc : isNumberChar c = false) (hout : out = []) : Opened c out (.word rest literal)
  | number (hc : isNumberChar c = true) (hquote : c ≠ '"') (hstate : (numberState [c]).isSome)
      (hout : out = []) : Opened c out (.number [c])

theorem opened_number (h : c = '-' ∨ isDigit c = true) :
    isNumberChar c = true ∧ c ≠ '"' ∧ (numberState [c]).isSome := by
  have hstate : numberState [c] = numberNext .start c := by simp [numberState, List.foldlM]
  rw [hstate, numberNext, isNumberChar]
  refine ⟨?_, ?_, ?_⟩
  · rcases h with rfl | h
    · decide
    · simp [h]
  · rintro rfl
    revert h
    decide
  · split_ifs with hminus hzero hdigit
    · rfl
    · rfl
    · rfl
    · rcases h with h | h
      · exact absurd h hminus
      · exact absurd h hdigit

theorem opened_of_opening (h : opening c = some (out, m)) : Opened c out m := by
  unfold opening at h
  by_cases hspace : isSpace c = true
  · rw [if_pos hspace] at h
    obtain ⟨rfl, rfl⟩ := Prod.mk.inj (Option.some.inj h)
    simp only [isSpace, Bool.or_eq_true, beq_iff_eq] at hspace
    rcases hspace with ((rfl | rfl) | rfl) | rfl <;> exact .between (by decide) (by decide)
  · rw [if_neg hspace] at h
    split at h
    all_goals try obtain ⟨rfl, rfl⟩ := Prod.mk.inj (Option.some.inj h)
    any_goals exact .between (by decide) (by decide)
    · exact .string rfl rfl
    · exact .word (by simp [wordLetters]) (by decide) (by decide) (by decide) rfl
    · exact .word (by simp [wordLetters]) (by decide) (by decide) (by decide) rfl
    · exact .word (by simp [wordLetters]) (by decide) (by decide) (by decide) rfl
    · split_ifs at h with hnumber
      obtain ⟨rfl, rfl⟩ := Prod.mk.inj (Option.some.inj h)
      obtain ⟨hc, hquote, hstate⟩ := opened_number hnumber
      exact .number hc hquote hstate rfl

variable {before : List (Symbol H)}

/-- Between tokens nothing is to be known but the place. -/
theorem at_between (h : placeAfter before = .outside) : At kind before (.between : Mode H) where
  place := h.symm
  word := nofun
  number := nofun
  held := nofun

theorem at_string {content : List (Atom H)} {esc : Escape}
    (h : (Mode.string content esc).place = placeAfter before) :
    At kind before (.string content esc) where
  place := h
  word := nofun
  number := nofun
  held := nofun

theorem At.opened (h : Opened c out m) (hplace : placeAfter before = .outside) :
    At kind (before ++ [.char c]) m := by
  have hnext : c ≠ '"' → placeAfter (before ++ [Symbol.char c]) = .outside := by
    intro hc
    rw [placeAfter_append, hplace]
    exact if_neg hc
  cases h with
  | between hc hquote => exact at_between (hnext hquote)
  | string hc hout =>
      apply at_string
      rw [placeAfter_append, hplace, hc]
      rfl
  | word hrest hne hquote hc hout =>
      exact ⟨(hnext hquote).symm, fun rest literal heq => by cases heq; exact hrest, nofun, nofun⟩
  | number hc hquote hstate hout =>
      refine ⟨(hnext hquote).symm, nofun, fun digits heq => ?_, nofun⟩
      cases heq
      exact ⟨hstate, .char c, by simp, hc⟩

theorem quote_not_mem_wordLetters : '"' ∉ wordLetters := by decide

theorem At.stringNext {content : List (Atom H)} {esc : Escape}
    (hat : At kind before (.string content esc))
    (h : Holes.stringNext content esc c = some (out, m)) : At kind (before ++ [.char c]) m := by
  have hplace := hat.place
  cases esc with
  | plain =>
      have hinside : placeAfter (before ++ [Symbol.char c]) = Place.next .inside c := by
        rw [placeAfter_append, ← hplace]
        rfl
      simp only [Holes.stringNext] at h
      split_ifs at h with hquote hescape hcontrol
      · obtain ⟨rfl, rfl⟩ := Prod.mk.inj (Option.some.inj h)
        exact at_between (by rw [hinside, Place.next, if_pos hquote])
      · obtain ⟨rfl, rfl⟩ := Prod.mk.inj (Option.some.inj h)
        exact at_string (by rw [hinside, Place.next, if_neg hquote, if_pos hescape]; rfl)
      · obtain ⟨rfl, rfl⟩ := Prod.mk.inj (Option.some.inj h)
        exact at_string (by rw [hinside, Place.next, if_neg hquote, if_neg hescape]; rfl)
  | escaped =>
      have hescaped : placeAfter (before ++ [Symbol.char c]) = Place.next .escaped c := by
        rw [placeAfter_append, ← hplace]
        rfl
      simp only [Holes.stringNext] at h
      split_ifs at h with hu
      · obtain ⟨rfl, rfl⟩ := Prod.mk.inj (Option.some.inj h)
        exact at_string (by rw [hescaped, Place.next, if_pos hu]; rfl)
      · obtain ⟨c', -, heq⟩ := Option.map_eq_some_iff.mp h
        obtain ⟨rfl, rfl⟩ := Prod.mk.inj heq
        exact at_string (by rw [hescaped, Place.next, if_neg hu]; rfl)
  | hex left value =>
      have hhex : placeAfter (before ++ [Symbol.char c]) = Place.next (.hex left) c := by
        rw [placeAfter_append, ← hplace]
        rfl
      obtain ⟨digit, hdigit, heq⟩ := Option.map_eq_some_iff.mp h
      have hquote : c ≠ '"' := by
        rintro rfl
        rw [show hexDigit '"' = none by decide] at hdigit
        contradiction
      have hescape : c ≠ '\\' := by
        rintro rfl
        rw [show hexDigit '\\' = none by decide] at hdigit
        contradiction
      -- the last digit ends the escape
      have hlast : left ≤ 1 → Place.next (.hex left) c = .inside := by
        intro hleft
        interval_cases left <;> simp [Place.next, hquote, hescape]
      rcases left with - | - | left
      · obtain ⟨rfl, rfl⟩ := Prod.mk.inj heq
        exact at_string (by rw [hhex, hlast (by decide)]; rfl)
      · obtain ⟨rfl, rfl⟩ := Prod.mk.inj heq
        exact at_string (by rw [hhex, hlast (by decide)]; rfl)
      · obtain ⟨rfl, rfl⟩ := Prod.mk.inj heq
        refine at_string ?_
        rw [hhex]
        simp [Place.next, hquote, hescape, Mode.place]

theorem At.char (hat : At kind before m) (h : step kind m (.char c) = some (out, m')) :
    At kind (before ++ [.char c]) m' := by
  have hplace := hat.place
  cases m with
  | between => exact .opened (opened_of_opening h) hplace.symm
  | word rest literal =>
      have hletters := hat.word rest literal rfl
      cases rest with
      | nil => contradiction
      | cons r rest =>
          have hr : r ≠ '"' := by
            rintro rfl
            exact quote_not_mem_wordLetters (hletters _ List.mem_cons_self)
          have hnext : placeAfter (before ++ [Symbol.char r]) = .outside := by
            rw [placeAfter_append, ← hplace]
            exact if_neg hr
          cases rest with
          | nil =>
              simp only [step] at h
              split_ifs at h with hc
              obtain ⟨rfl, rfl⟩ := Prod.mk.inj (Option.some.inj h)
              rw [hc]
              exact at_between hnext
          | cons r' rest =>
              simp only [step] at h
              split_ifs at h with hc
              obtain ⟨rfl, rfl⟩ := Prod.mk.inj (Option.some.inj h)
              rw [hc]
              refine ⟨hnext.symm, fun rest' literal' heq => ?_, nofun, nofun⟩
              cases heq
              exact fun d hd => hletters d (List.mem_cons_of_mem _ hd)
  | number digits =>
      simp only [step] at h
      split_ifs at h with hmore hdone
      · obtain ⟨rfl, rfl⟩ := Prod.mk.inj (Option.some.inj h)
        have hc : isNumberChar c = true := by
          by_contra hc
          rw [numberState_append_eq_none (by simpa using hc)] at hmore
          contradiction
        refine ⟨?_, nofun, fun digits' heq => ?_, nofun⟩
        · rw [placeAfter_append, ← hplace]
          refine (if_neg ?_).symm
          rintro rfl
          exact absurd hc (by decide)
        · cases heq
          exact ⟨hmore, .char c, by simp, hc⟩
      · obtain ⟨⟨tokens, next⟩, hopening, heq⟩ := Option.map_eq_some_iff.mp h
        obtain ⟨rfl, rfl⟩ := Prod.mk.inj heq
        exact .opened (opened_of_opening hopening) hplace.symm
  | held g =>
      simp only [step] at h
      split_ifs at h with hc
      obtain ⟨⟨tokens, next⟩, hopening, heq⟩ := Option.map_eq_some_iff.mp h
      obtain ⟨rfl, rfl⟩ := Prod.mk.inj heq
      exact .opened (opened_of_opening hopening) hplace.symm
  | string content esc => exact hat.stringNext h

theorem At.hole {h : H} (hat : At kind before m) (hstep : step kind m (.hole h) = some (out, m')) :
    At kind (before ++ [.hole h]) m' := by
  have hplace := hat.place
  have hbetween : m.place = .outside → At kind (before ++ [.hole h]) (.between : Mode H) := by
    intro houtside
    apply at_between
    rw [placeAfter_append, ← hplace, houtside]
    rfl
  cases m with
  | between =>
      simp only [step] at hstep
      split_ifs at hstep with hkind
      · obtain ⟨rfl, rfl⟩ := Prod.mk.inj (Option.some.inj hstep)
        refine ⟨(hbetween rfl).place, nofun, nofun, fun g heq => ?_⟩
        cases heq
        exact ⟨hkind, before, rfl, hplace.symm⟩
      · obtain ⟨rfl, rfl⟩ := Prod.mk.inj (Option.some.inj hstep)
        exact hbetween rfl
  | word rest literal => contradiction
  | number digits =>
      simp only [step] at hstep
      split_ifs at hstep
      obtain ⟨rfl, rfl⟩ := Prod.mk.inj (Option.some.inj hstep)
      exact hbetween rfl
  | held g =>
      simp only [step] at hstep
      split_ifs at hstep
      obtain ⟨rfl, rfl⟩ := Prod.mk.inj (Option.some.inj hstep)
      exact hbetween rfl
  | string content esc =>
      simp only [step] at hstep
      split_ifs at hstep with hesc
      obtain ⟨rfl, rfl⟩ := Prod.mk.inj (Option.some.inj hstep)
      subst hesc
      apply at_string
      rw [placeAfter_append, ← hplace]
      rfl

/-- One symbol more. -/
theorem At.step (hat : At kind before m) (h : Holes.step kind m s = some (out, m')) :
    At kind (before ++ [s]) m' := by
  cases s with
  | char c => exact hat.char h
  | hole g => exact hat.hole h

/-! ## A character -/

theorem step_number_of_not_isNumberChar {digits : List Char} (hdone : numberDone digits = true)
    (h : isNumberChar c = false) :
    step kind (.number digits) (.char c) = (opening c).after (.number digits) := by
  rw [step, numberState_append_eq_none h, if_neg (by simp), if_pos hdone]

namespace Filling

variable (p : Filling kind)

/-- The same of what a step comes to. -/
def reading (r : Reading H) : Reading H := r.map fun (tokens, m) => (p.fill tokens, p.mode m)

theorem reading_opening : p.reading (opening c) = opening c := by
  unfold opening
  split_ifs
  · rfl
  · split <;> rfl
  · split <;> rfl

theorem reading_after {t t' : Token H} (h : p.token t = [t']) (r : Reading H) :
    p.reading (r.after t) = (p.reading r).after t' := by
  cases r with
  | none => rfl
  | some r =>
      simp only [reading, Reading.after, Option.map_some, fill_cons, h, List.singleton_append]

theorem atoms_units (ns : List ℕ) :
    (ns.map Atom.unit).flatMap p.atom = ns.map Atom.unit := by
  induction ns with
  | nil => rfl
  | cons n ns ih => rw [List.map_cons, List.flatMap_cons, ih]; rfl

theorem reading_stringNext (content : List (Atom H)) (esc : Escape) :
    p.reading (stringNext content esc c) = stringNext (content.flatMap p.atom) esc c := by
  cases esc with
  | plain =>
      simp only [stringNext]
      split_ifs
      · rfl
      · rfl
      · rfl
      · simp [reading, mode, atoms_units]
  | escaped =>
      simp only [stringNext]
      split_ifs
      · rfl
      · cases shortEscape c <;> simp [reading, mode, atom]
  | hex left value =>
      simp only [stringNext]
      cases hexDigit c with
      | none => rfl
      | some digit =>
          simp only [Option.map_some]
          split
          · rfl
          · simp [reading, mode, atom]

/-- A step on a character commutes with filling. -/
theorem step_char (before : List (Symbol H)) (hat : At kind before m)
    (hheld : ∀ h, m = .held h → isNumberChar c = false) :
    step kind (p.mode m) (.char c) = p.reading (step kind m (.char c)) := by
  cases m with
  | between => exact (p.reading_opening).symm
  | word rest literal =>
      have hliteral : p.token (literalToken literal) = [literalToken literal] := by
        cases literal <;> rfl
      cases rest with
      | nil => rfl
      | cons r rest =>
          cases rest with
          | nil =>
              simp only [mode, step]
              split_ifs
              · simp [reading, fill, hliteral, mode]
              · rfl
          | cons r' rest =>
              simp only [mode, step]
              split_ifs <;> rfl
  | number digits =>
      simp only [mode, step]
      split_ifs
      · rfl
      · rw [p.reading_after rfl, p.reading_opening]
      · rfl
  | held h =>
      obtain ⟨hkind, -⟩ := hat.held h rfl
      obtain ⟨hvalue, hdone⟩ := p.number h hkind
      have hc := hheld h rfl
      rw [mode, step_number_of_not_isNumberChar hdone hc, step, if_neg (by simp [hc]),
        p.reading_after (show p.token (.value h) = _ from hvalue), p.reading_opening]
  | string content esc => exact (p.reading_stringNext content esc).symm

end Filling

/-! ## Text in a string -/

theorem lexFrom_of_step {rest : List (Symbol H)} (h : step kind m s = some (out, m')) :
    lexFrom kind m (s :: rest) = (lexFrom kind m' rest).map (out ++ ·) := by
  rw [lexFrom, h, Option.bind_some]

theorem lexFrom_of_silent {rest : List (Symbol H)} (h : step kind m s = some ([], m')) :
    lexFrom kind m (s :: rest) = lexFrom kind m' rest := by
  rw [lexFrom_of_step h]
  exact congrFun Option.map_id _

theorem hexDigit_digitChar : ∀ d < 16, hexDigit (Nat.digitChar d) = some d := by decide

/-- A character, escaped, is one part of the content. -/
theorem lexFrom_escapeChar (content : List (Atom H)) (c : Char) (rest : List (Symbol H)) :
    lexFrom kind (.string content .plain) ((escapeChar c).map .char ++ rest) =
      lexFrom kind (.string (content ++ (utf16 c).map .unit) .plain) rest := by
  have hshort : ∀ letter c : Char, shortEscape letter = some c → letter ≠ 'u' →
      lexFrom kind (.string content .plain) ([.char '\\', .char letter] ++ rest) =
        lexFrom kind (.string (content ++ [.unit c.toNat]) .plain) rest := by
    intro letter c hletter hu
    have hopen : step kind (.string content .plain) (.char '\\') =
        some ([], .string content .escaped) := rfl
    have hclose : step kind (.string content .escaped) (.char letter) =
        some ([], .string (content ++ [.unit c.toNat]) .plain) := by
      simp only [step, stringNext, if_neg hu, hletter, Option.map_some]
    rw [List.cons_append, List.singleton_append, lexFrom_of_silent hopen,
      lexFrom_of_silent hclose]
  unfold escapeChar
  split
  · exact hshort '"' '"' rfl (by decide)
  · exact hshort '\\' '\\' rfl (by decide)
  · exact hshort 'b' '\x08' rfl (by decide)
  · exact hshort 'f' '\x0c' rfl (by decide)
  · exact hshort 'n' '\n' rfl (by decide)
  · exact hshort 'r' '\r' rfl (by decide)
  · exact hshort 't' '\t' rfl (by decide)
  · next hquote hescape _ _ _ _ _ =>
      split_ifs with hcontrol
      · -- the four digits of a code unit
        have hsmall : c.toNat < 32 := hcontrol
        have hhigh := hexDigit_digitChar (c.toNat / 16) (by omega)
        have hlow := hexDigit_digitChar (c.toNat % 16) (by omega)
        have hunits : utf16 c = [c.toNat] := if_pos (by omega)
        have hdigit : ∀ left value digit d, hexDigit d = some digit →
            step kind (.string content (.hex (left + 2) value)) (.char d) =
              some ([], .string content (.hex (left + 1) (16 * value + digit))) := by
          intro left value digit d hd
          simp only [step, stringNext, hd, Option.map_some]
        have hlast : step kind (.string content (.hex 1 (c.toNat / 16)))
            (.char (Nat.digitChar (c.toNat % 16))) =
              some ([], .string (content ++ [.unit c.toNat]) .plain) := by
          simp only [step, stringNext, hlow, Option.map_some, Nat.div_add_mod]
        have hopen : step kind (.string content .plain) (.char '\\') =
            some ([], .string content .escaped) := rfl
        have hu : step kind (.string content .escaped) (.char 'u') =
            some ([], .string content (.hex 4 0)) := rfl
        have hthird : step kind (.string content (.hex 2 0))
            (.char (Nat.digitChar (c.toNat / 16))) =
              some ([], .string content (.hex 1 (c.toNat / 16))) := by
          rw [hdigit 0 0 _ _ hhigh, Nat.mul_zero, Nat.zero_add, Nat.zero_add]
        rw [hunits]
        simp only [List.map_cons, List.map_nil, List.cons_append, List.nil_append]
        rw [lexFrom_of_silent hopen, lexFrom_of_silent hu,
          lexFrom_of_silent (hdigit 2 0 0 '0' (by decide)),
          lexFrom_of_silent (hdigit 1 0 0 '0' (by decide)), lexFrom_of_silent hthird,
          lexFrom_of_silent hlast]
      · have hplain : step kind (.string content .plain) (.char c) =
            some ([], .string (content ++ (utf16 c).map .unit) .plain) := by
          simp only [step, stringNext]
          rw [if_neg hquote, if_neg hescape, if_neg hcontrol]
        exact lexFrom_of_silent hplain

theorem lexFrom_escape (content : List (Atom H)) (text : List Char) (rest : List (Symbol H)) :
    lexFrom kind (.string content .plain) ((escape text).map .char ++ rest) =
      lexFrom kind (.string (content ++ units text) .plain) rest := by
  induction text generalizing content with
  | nil => rw [show (units [] : List (Atom H)) = [] from rfl, List.append_nil]; rfl
  | cons c text ih =>
      rw [escape, List.flatMap_cons, ← escape, List.map_append, List.append_assoc,
        lexFrom_escapeChar, ih, List.append_assoc]
      rfl

/-! ## Values -/

theorem numberState_isSome_of_append {a b : List Char} (h : (numberState (a ++ b)).isSome) :
    (numberState a).isSome := by
  rw [numberState, List.foldlM_append, ← numberState] at h
  cases hstate : numberState a with
  | none => rw [hstate] at h; contradiction
  | some state => rfl

theorem lexFrom_digits {digits more : List Char} {rest : List (Symbol H)}
    (h : (numberState (digits ++ more)).isSome) :
    lexFrom kind (.number digits) (more.map .char ++ rest) =
      lexFrom kind (.number (digits ++ more)) rest := by
  induction more generalizing digits with
  | nil => rw [List.append_nil]; rfl
  | cons c more ih =>
      rw [List.append_cons] at h ⊢
      have hstep : step kind (.number digits) (.char c) =
          some ([], .number (digits ++ [c])) := by
        rw [step, if_pos (numberState_isSome_of_append h)]
      rw [List.map_cons, List.cons_append, lexFrom_of_silent hstep, ih h]

/-- The first character of a number. -/
theorem opening_of_numberState {more : List Char} (h : (numberState (c :: more)).isSome) :
    (opening c : Reading H) = some ([], .number [c]) ∧ c ∉ wordLetters := by
  have hone : (numberState [c]).isSome := numberState_isSome_of_append (b := more) h
  have hfirst : c = '-' ∨ isDigit c = true := by
    have hstate : numberState [c] = numberNext .start c := by simp [numberState, List.foldlM]
    rw [hstate, numberNext] at hone
    split_ifs at hone with hminus hzero hdigit
    · exact .inl hminus
    · exact .inr (by rw [hzero]; decide)
    · exact .inr hdigit
    · contradiction
  constructor
  · have hnot : ∀ d : Char, d ≠ '-' → isDigit d = false → c ≠ d := by
      rintro d hminus hdigit rfl
      rcases hfirst with hfirst | hfirst
      · exact hminus hfirst
      · rw [hdigit] at hfirst
        contradiction
    have hspace : ¬isSpace c = true := by
      simp only [isSpace, Bool.or_eq_true, beq_iff_eq, not_or]
      exact ⟨⟨⟨hnot ' ' (by decide) (by decide), hnot '\t' (by decide) (by decide)⟩,
        hnot '\n' (by decide) (by decide)⟩, hnot '\r' (by decide) (by decide)⟩
    rw [opening, if_neg hspace, if_pos hfirst]
    all_goals exact hnot _ (by decide) (by decide)
  · rcases hfirst with rfl | hdigit
    · decide
    · intro hletter
      simp only [wordLetters, List.mem_cons, List.not_mem_nil, or_false] at hletter
      rcases hletter with rfl | rfl | rfl | rfl | rfl | rfl <;> exact absurd hdigit (by decide)

theorem lexFrom_between_digits {digits : List Char} {rest : List (Symbol H)}
    (h : numberDone digits = true) :
    lexFrom kind .between (digits.map .char ++ rest) = lexFrom kind (.number digits) rest := by
  have hsome : (numberState digits).isSome := by
    rw [numberDone] at h
    cases hstate : numberState digits with
    | none => rw [hstate] at h; contradiction
    | some state => rfl
  cases digits with
  | nil => contradiction
  | cons c digits =>
      obtain ⟨hopening, -⟩ := @opening_of_numberState H c digits hsome
      have hstep : step kind .between (.char c) = some ([], .number [c]) := hopening
      rw [List.map_cons, List.cons_append, lexFrom_of_silent hstep, lexFrom_digits hsome]
      rfl

/-- A number ends before what is no part of one. -/
theorem lexFrom_number_of_other {digits : List Char} {rest : List (Symbol H)}
    (hc : isNumberChar c = false) : lexFrom kind (.number digits) (.char c :: rest) =
      if numberDone digits then
        (lexFrom kind .between (.char c :: rest)).map (.number digits :: ·)
      else none := by
  have hbetween : step kind .between (Symbol.char c) = opening c := rfl
  split_ifs with hdone
  · rw [lexFrom, step_number_of_not_isNumberChar hdone hc, lexFrom, hbetween]
    cases (opening c : Reading H) with
    | none => rfl
    | some r => simp [Reading.after, Option.map_map, Function.comp_def]
  · rw [lexFrom, step, numberState_append_eq_none hc, if_neg (by simp), if_neg hdone]
    rfl

theorem lexFrom_word_of_other {word : List Char} {literal : Option Bool}
    {rest : List (Symbol H)} (hword : ∀ r ∈ word, r ∈ wordLetters) (hc : c ∉ wordLetters) :
    lexFrom kind (.word word literal) (.char c :: rest) = none := by
  have hstep : step kind (.word word literal) (.char c) = none := by
    cases word with
    | nil => rfl
    | cons r word =>
        have hne : c ≠ r := by
          rintro rfl
          exact hc (hword _ List.mem_cons_self)
        cases word with
        | nil => exact if_neg hne
        | cons r' word => exact if_neg hne
  rw [lexFrom, hstep]
  rfl

/-! ## The whole text -/

namespace Filling

variable (p : Filling kind)

theorem finish_mode (hat : At kind before m) :
    finish (p.mode m) = (finish m).map p.fill := by
  cases m with
  | between => rfl
  | word rest literal => rfl
  | number digits =>
      simp only [mode, finish]
      split_ifs <;> rfl
  | held h =>
      obtain ⟨hvalue, hdone⟩ := p.number h (hat.held h rfl).1
      simp [mode, finish, hdone, fill, token, hvalue]
  | string content esc => rfl

/-- A hole between tokens, or after a number that it cannot grow. -/
theorem lexFrom_hole_of_other {h : H} {rest : List (Symbol H)} (hkind : kind h ≠ .number)
    (hat : At kind before m) (hplace : m.place = .outside) (written : List Char)
    (ih : lexFrom kind .between (written.map .char) =
      (lexFrom kind .between rest).map p.fill) :
    lexFrom kind (p.mode m) ((p.printed h ++ written).map .char) =
      (lexFrom kind m (.hole h :: rest)).map p.fill := by
  obtain ⟨⟨c, more, hprinted, hc⟩, hreads⟩ := p.reads h hkind
  have hvalue := hreads (written.map .char)
  have hother : isNumberChar c = false := by
    rcases hc with rfl | rfl | rfl <;> decide
  have hletter : c ∉ wordLetters := by
    rcases hc with rfl | rfl | rfl <;> decide
  have hafter : ∀ digits, lexFrom kind (.number digits) ((p.printed h ++ written).map .char) =
      if numberDone digits then
        (lexFrom kind .between rest).map fun tokens =>
          .number digits :: (p.value h ++ p.fill tokens)
      else none := by
    intro digits
    rw [hprinted, List.cons_append, List.map_cons, lexFrom_number_of_other hother,
      ← List.map_cons, ← List.cons_append, ← hprinted, List.map_append, hvalue, ih]
    split_ifs
    · rw [Option.map_map, Option.map_map]
      rfl
    · rfl
  cases m with
  | between =>
      have hstep : step kind .between (.hole h) = some ([.value h], .between) := if_neg hkind
      rw [mode, List.map_append, hvalue, ih, lexFrom_of_step hstep, Option.map_map,
        Option.map_map]
      rfl
  | word word literal =>
      rw [mode, hprinted, List.cons_append, List.map_cons,
        lexFrom_word_of_other (hat.word _ _ rfl) hletter]
      rfl
  | number digits =>
      rw [mode, hafter digits, lexFrom, step, if_neg hkind]
      split_ifs
      · rw [Option.bind_some, Option.map_map]
        rfl
      · rfl
  | held g =>
      obtain ⟨hg, hdone⟩ := p.number g (hat.held g rfl).1
      rw [mode, hafter, if_pos hdone, lexFrom, step, if_neg hkind, Option.bind_some,
        Option.map_map]
      congr 1
      funext tokens
      simp [fill, token, hg]
  | string content esc => cases esc <;> contradiction

/-- A hole that is a number, not beside what could grow it. -/
theorem lexFrom_hole_of_number {h : H} {rest : List (Symbol H)} (hkind : kind h = .number)
    (hat : At kind before m) (hplace : m.place = .outside)
    (hlast : ∀ s ∈ before.getLast?, s.isNumeric kind = false) (written : List Char)
    (ih : m = .between → lexFrom kind (.number (p.printed h)) (written.map .char) =
      (lexFrom kind (.held h) rest).map p.fill) :
    lexFrom kind (p.mode m) ((p.printed h ++ written).map .char) =
      (lexFrom kind m (.hole h :: rest)).map p.fill := by
  obtain ⟨-, hdone⟩ := p.number h hkind
  cases m with
  | between =>
      have hstep : step kind .between (.hole h) = some ([], .held h) := if_pos hkind
      rw [mode, List.map_append, lexFrom_between_digits hdone, ih rfl, lexFrom_of_silent hstep]
  | word word literal =>
      cases hprinted : p.printed h with
      | nil => rw [hprinted] at hdone; contradiction
      | cons c more =>
          have hsome : (numberState (c :: more)).isSome := by
            rw [hprinted, numberDone] at hdone
            cases hstate : numberState (c :: more) with
            | none => rw [hstate] at hdone; contradiction
            | some state => rfl
          obtain ⟨-, hletter⟩ := @opening_of_numberState H c more hsome
          rw [mode, List.cons_append, List.map_cons,
            lexFrom_word_of_other (hat.word _ _ rfl) hletter]
          rfl
  | number digits =>
      obtain ⟨-, s, hs, hnumeric⟩ := hat.number digits rfl
      rw [hlast s hs] at hnumeric
      contradiction
  | held g =>
      obtain ⟨hg, earlier, rfl, -⟩ := hat.held g rfl
      have hnumeric := hlast (.hole g) (by simp)
      simp [Symbol.isNumeric, hg] at hnumeric
  | string content esc => cases esc <;> contradiction

/-- What is read of a written text, hole by hole. -/
theorem lexFrom_write (raw : H → List Char) {symbols : List (Symbol H)}
    (hsafe : Safe kind symbols) (rest : List (Symbol H)) (before : List (Symbol H))
    (hsymbols : symbols = before ++ rest) (hat : At kind before m) :
    lexFrom kind (p.mode m) ((p.write raw m.place rest).map .char) =
      (lexFrom kind m rest).map p.fill := by
  induction rest generalizing before m with
  | nil => exact p.finish_mode hat
  | cons s rest ih =>
      have hnext : symbols = (before ++ [s]) ++ rest := by
        rw [hsymbols, List.append_assoc, List.singleton_append]
      cases s with
      | char c =>
          have hheld : ∀ h, m = .held h → isNumberChar c = false := by
            intro h hm
            obtain ⟨hkind, earlier, rfl, hplace⟩ := hat.held h hm
            rw [List.append_assoc, List.singleton_append] at hsymbols
            exact (hsafe.numbers earlier h _ hsymbols hkind hplace).2 (.char c) (by simp)
          rw [write, List.map_cons, lexFrom, lexFrom, p.step_char before hat hheld]
          cases hstep : step kind m (.char c) with
          | none => rfl
          | some reading =>
              obtain ⟨out, m'⟩ := reading
              have hat' := hat.step hstep
              have hplace : m.place.next c = m'.place := by
                rw [hat.place, hat'.place, placeAfter_append]
                rfl
              simp only [Filling.reading, Option.map_some, Option.bind_some]
              rw [hplace, ih _ hnext hat', Option.map_map, Option.map_map]
              congr 1
              funext tokens
              exact (p.fill_append out tokens).symm
      | hole h =>
          rcases hsafe.escapes before h rest hsymbols with hplace | hplace
          · rw [← hat.place] at hplace
            cases m with
            | string content esc =>
                cases esc with
                | plain =>
                    have hstep : step kind (.string content .plain) (.hole h) =
                        some ([], .string (content ++ [.hole h]) .plain) := rfl
                    have hrest := ih _ hnext (hat.step hstep)
                    rw [lexFrom_of_silent hstep, ← hrest, write, List.map_append]
                    refine (lexFrom_escape _ _ _).trans ?_
                    simp only [mode, List.flatMap_append, List.flatMap_cons, List.flatMap_nil,
                      List.append_nil, atom]
                    rfl
                | escaped => contradiction
                | hex left value => contradiction
            | between => contradiction
            | word word literal => contradiction
            | number digits => contradiction
            | held g => contradiction
          · have houtside : placeAfter (before ++ [Symbol.hole h]) = .outside := by
              rw [placeAfter_append, hplace]
              rfl
            by_cases hkind : kind h = .number
            · have hlast := (hsafe.numbers before h rest hsymbols hkind hplace).1
              rw [← hat.place] at hplace
              rw [write, hplace]
              refine p.lexFrom_hole_of_number hkind hat hplace hlast _ fun hm => ?_
              subst hm
              have hstep : step kind .between (.hole h) = some ([], .held h) := if_pos hkind
              exact ih _ hnext (hat.step hstep)
            · rw [← hat.place] at hplace
              rw [write, hplace]
              exact p.lexFrom_hole_of_other hkind hat hplace _
                (ih (m := .between) _ hnext (at_between houtside))

end Filling

end Rustrak.Json.Holes
