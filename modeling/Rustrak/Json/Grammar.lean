import Rustrak.Json.Filling

/-!
# JSON values with holes

Tokens are a value if the containers they open are closed in turn and what they hold is
separated as it has to be (`accepts`).  A hole that is always a string may stand for a key.

What a text with holes is read as says what every text is read as that is written of it
(`read_write`), and a text that is written of it says that it is read at all
(`exists_read_of_write`), if what is written into each hole stands where the hole may.
-/

namespace Rustrak.Json.Holes

variable {H : Type}

inductive Container
  | array
  | object
  deriving DecidableEq, Repr

/-- What may come next. -/
inductive Expect
  | value
  /-- A value, or the end of an empty array. -/
  | item
  /-- A key, or the end of an empty object. -/
  | firstKey
  | key
  | colon
  /-- What follows a value. -/
  | rest
  deriving DecidableEq, Repr

def Expect.takesValue : Expect → Bool
  | .value | .item => true
  | _ => false

def Expect.takesKey : Expect → Bool
  | .firstKey | .key => true
  | _ => false

/-- What may come next, within the containers that are open. -/
abbrev Position := Expect × List Container

section Grammar

variable (kind : H → Kind)

def next (position : Position) (token : Token H) : Option Position :=
  let (expect, open_) := position
  match token with
  | .openArray => if expect.takesValue then some (.item, .array :: open_) else none
  | .openObject => if expect.takesValue then some (.firstKey, .object :: open_) else none
  | .closeArray =>
      match open_ with
      | .array :: outer => if expect = .item ∨ expect = .rest then some (.rest, outer) else none
      | _ => none
  | .closeObject =>
      match open_ with
      | .object :: outer => if expect = .firstKey ∨ expect = .rest then some (.rest, outer) else none
      | _ => none
  | .comma =>
      match expect, open_ with
      | .rest, .array :: _ => some (.value, open_)
      | .rest, .object :: _ => some (.key, open_)
      | _, _ => none
  | .colon => if expect = .colon then some (.value, open_) else none
  | .string _ =>
      if expect.takesKey then some (.colon, open_)
      else if expect.takesValue then some (.rest, open_) else none
  | .value h =>
      if kind h = .text ∧ expect.takesKey then some (.colon, open_)
      else if expect.takesValue then some (.rest, open_) else none
  | .null | .bool _ | .number _ => if expect.takesValue then some (.rest, open_) else none

def positionAfter (position : Position) (tokens : List (Token H)) : Option Position :=
  tokens.foldlM (next kind) position

/-- The tokens are one value. -/
def accepts (tokens : List (Token H)) : Bool :=
  positionAfter kind (.value, []) tokens == some (.rest, [])

/-- The tokens of a text that is a value. -/
def read (symbols : List (Symbol H)) : Option (List (Token H)) :=
  (lex kind symbols).filter (accepts kind)

end Grammar

variable {kind : H → Kind} {position : Position} {m m' : Mode H} {c : Char}
variable {symbols before : List (Symbol H)} {tokens out : List (Token H)}

theorem read_eq_some_iff : read kind symbols = some tokens ↔
    lex kind symbols = some tokens ∧ accepts kind tokens = true :=
  Option.filter_eq_some_iff

theorem positionAfter_append (a b : List (Token H)) : positionAfter kind position (a ++ b) =
    (positionAfter kind position a).bind fun position => positionAfter kind position b :=
  List.foldlM_append

theorem positionAfter_cons (t : Token H) (ts : List (Token H)) :
    positionAfter kind position (t :: ts) =
      (next kind position t).bind fun position => positionAfter kind position ts :=
  List.foldlM_cons

/-! ## Filled tokens -/

namespace Filling

variable (p : Filling kind)

/-- Every value may stand where its hole may. -/
def Fits : Prop := ∀ h position after, next kind position (.value h) = some after →
  positionAfter kind position (p.value h) = some after

/-- Every value may stand where its hole may, and nowhere else. -/
def Exact : Prop := ∀ h position,
  positionAfter kind position (p.value h) = next kind position (.value h)

theorem positionAfter_token_of_fits (hfits : p.Fits) {after : Position} (t : Token H)
    (h : next kind position t = some after) :
    positionAfter kind position (p.token t) = some after := by
  have hone : positionAfter kind position [t] = some after := by
    rw [positionAfter_cons, h]
    rfl
  cases t with
  | value g => exact hfits g position after h
  | _ => exact hone

theorem positionAfter_fill_of_fits (hfits : p.Fits) {after : Position}
    (h : positionAfter kind position tokens = some after) :
    positionAfter kind position (p.fill tokens) = some after := by
  induction tokens generalizing position with
  | nil => exact h
  | cons t tokens ih =>
      rw [positionAfter_cons] at h
      obtain ⟨middle, hnext, hrest⟩ := Option.bind_eq_some_iff.mp h
      rw [fill_cons, positionAfter_append, p.positionAfter_token_of_fits hfits t hnext]
      exact ih hrest

theorem positionAfter_fill_of_exact (hexact : p.Exact) :
    positionAfter kind position (p.fill tokens) = positionAfter kind position tokens := by
  induction tokens generalizing position with
  | nil => rfl
  | cons t tokens ih =>
      have htoken : positionAfter kind position (p.token t) = next kind position t := by
        have hone : ∀ u : Token H, positionAfter kind position [u] = next kind position u := by
          intro u
          rw [positionAfter_cons]
          cases next kind position u <;> rfl
        cases t with
        | value g => exact hexact g position
        | string content => exact hone _
        | _ => exact hone _
      rw [fill_cons, positionAfter_append, htoken, positionAfter_cons]
      congr 1
      funext middle
      exact ih

end Filling

/-! ## A text that is written -/

theorem write_mode_between (p : Filling kind) (raw : H → List Char) (hsafe : Safe kind symbols) :
    lex kind ((p.write raw .outside symbols).map .char) =
      (lex kind symbols).map p.fill :=
  p.lexFrom_write raw hsafe symbols [] rfl at_nil

/-- A value with holes, and what is read of a text with its holes written. -/
theorem read_write {p : Filling kind} (hfits : p.Fits) (raw : H → List Char)
    (hsafe : Safe kind symbols) (h : read kind symbols = some tokens) :
    read kind ((p.write raw .outside symbols).map .char) = some (p.fill tokens) := by
  obtain ⟨hlex, haccepts⟩ := read_eq_some_iff.mp h
  rw [read_eq_some_iff, write_mode_between p raw hsafe, hlex]
  refine ⟨rfl, ?_⟩
  rw [accepts, beq_iff_eq] at haccepts ⊢
  exact p.positionAfter_fill_of_fits hfits haccepts

/-- A text with its holes written is a value only if the text with the holes is one. -/
theorem exists_read_of_write {p : Filling kind} (hexact : p.Exact) (raw : H → List Char)
    (hsafe : Safe kind symbols)
    (h : (read kind ((p.write raw .outside symbols).map .char)).isSome) :
    ∃ tokens, read kind symbols = some tokens := by
  obtain ⟨filled, hfilled⟩ := Option.isSome_iff_exists.mp h
  obtain ⟨hlex, haccepts⟩ := read_eq_some_iff.mp hfilled
  rw [write_mode_between p raw hsafe] at hlex
  obtain ⟨tokens, htokens, rfl⟩ := Option.map_eq_some_iff.mp hlex
  refine ⟨tokens, read_eq_some_iff.mpr ⟨htokens, ?_⟩⟩
  rw [accepts, p.positionAfter_fill_of_exact hexact] at haccepts
  exact haccepts

/-! ## A text that is read -/

theorem At.run (hat : At kind before m) {more : List (Symbol H)}
    (h : Holes.run kind m more = some (out, m')) : At kind (before ++ more) m' := by
  induction more generalizing before m out with
  | nil =>
      obtain ⟨-, rfl⟩ := Prod.mk.inj (Option.some.inj h)
      rwa [List.append_nil]
  | cons s more ih =>
      obtain ⟨⟨tokens, middle⟩, hstep, hrest⟩ := Option.bind_eq_some_iff.mp h
      obtain ⟨⟨later, last⟩, hrun, heq⟩ := Option.map_eq_some_iff.mp hrest
      obtain ⟨-, rfl⟩ := Prod.mk.inj heq
      rw [List.append_cons]
      exact ih (hat.step hstep) hrun

theorem run_concat {s : Symbol H} : run kind m (before ++ [s]) =
    (run kind m before).bind fun (tokens, m) =>
      (step kind m s).map fun (more, m) => (tokens ++ more, m) := by
  induction before generalizing m with
  | nil =>
      simp only [List.nil_append, run, Option.bind_some]
      cases step kind m s with
      | none => rfl
      | some r => simp
  | cons t before ih =>
      rw [List.cons_append, run, run]
      cases step kind m t with
      | none => rfl
      | some r =>
          simp only [Option.bind_some, ih]
          cases run kind r.2 before with
          | none => rfl
          | some q => simp [Option.map_map, Function.comp_def]

theorem place_of_step_hole {h : H} (hstep : step kind m (.hole h) = some (out, m')) :
    m.place = .inside ∨ m.place = .outside := by
  cases m with
  | between => exact .inr rfl
  | word word literal => exact .inr rfl
  | number digits => exact .inr rfl
  | held g => exact .inr rfl
  | string content esc =>
      simp only [step] at hstep
      split_ifs at hstep with hesc
      subst hesc
      exact .inl rfl

theorem step_hole_of_number {h : H} (hkind : kind h = .number) (hplace : m.place = .outside)
    (hstep : step kind m (.hole h) = some (out, m')) : m = .between ∧ out = [] ∧ m' = .held h := by
  cases m with
  | between =>
      rw [step, if_pos hkind] at hstep
      obtain ⟨rfl, rfl⟩ := Prod.mk.inj (Option.some.inj hstep)
      exact ⟨rfl, rfl, rfl⟩
  | word word literal => contradiction
  | number digits =>
      rw [step, if_pos hkind] at hstep
      contradiction
  | held g =>
      rw [step, if_pos hkind] at hstep
      contradiction
  | string content esc => cases esc <;> contradiction

/-- A number that is held is the next token, and nothing that could grow it follows. -/
theorem lexFrom_held {h : H} {after : List (Symbol H)}
    (hlex : lexFrom kind (.held h) after = some tokens) :
    (∀ s ∈ after.head?, s.isNumeric kind = false) ∧ ∃ more, tokens = .value h :: more := by
  cases after with
  | nil => exact ⟨by simp, [], (Option.some.inj hlex).symm⟩
  | cons s after =>
      obtain ⟨⟨out, m'⟩, hstep, hrest⟩ := Option.bind_eq_some_iff.mp hlex
      obtain ⟨later, -, rfl⟩ := Option.map_eq_some_iff.mp hrest
      cases s with
      | char c =>
          simp only [step] at hstep
          split_ifs at hstep with hc
          obtain ⟨⟨earlier, middle⟩, -, heq⟩ := Option.map_eq_some_iff.mp hstep
          obtain ⟨rfl, rfl⟩ := Prod.mk.inj heq
          refine ⟨?_, earlier ++ later, rfl⟩
          simpa [Symbol.isNumeric] using hc
      | hole g =>
          simp only [step] at hstep
          split_ifs at hstep with hg
          obtain ⟨rfl, rfl⟩ := Prod.mk.inj (Option.some.inj hstep)
          refine ⟨?_, .value g :: later, rfl⟩
          simpa [Symbol.isNumeric] using hg

/-- No token is under way after a character of numbers only where a word has ended. -/
theorem literal_of_step_numeric {s : Symbol H} (hat : At kind before m)
    (hs : s.isNumeric kind = true) (hstep : step kind m s = some (out, .between)) :
    ∃ literal, out = [literalToken literal] := by
  cases s with
  | hole h =>
      have hkind : kind h = .number := by simpa [Symbol.isNumeric] using hs
      rcases place_of_step_hole hstep with hplace | hplace
      · cases m with
        | string content esc =>
            simp only [step] at hstep
            split_ifs at hstep
            simp at hstep
        | _ => contradiction
      · obtain ⟨-, -, hheld⟩ := step_hole_of_number hkind hplace hstep
        contradiction
  | char c =>
      have hc : isNumberChar c = true := hs
      have hopened : ∀ {out : List (Token H)}, ¬Opened c out .between := by
        intro out h
        cases h with
        | between hother _ =>
            rw [hc] at hother
            contradiction
      cases m with
      | between => exact (hopened (opened_of_opening hstep)).elim
      | word word literal =>
          cases word with
          | nil => contradiction
          | cons r word =>
              cases word with
              | nil =>
                  simp only [step] at hstep
                  split_ifs at hstep
                  obtain ⟨rfl, -⟩ := Prod.mk.inj (Option.some.inj hstep)
                  exact ⟨literal, rfl⟩
              | cons r' word =>
                  simp only [step] at hstep
                  split_ifs at hstep
                  simp at hstep
      | number digits =>
          simp only [step] at hstep
          split_ifs at hstep
          · simp at hstep
          · obtain ⟨⟨tokens, middle⟩, hopening, heq⟩ := Option.map_eq_some_iff.mp hstep
            obtain ⟨-, rfl⟩ := Prod.mk.inj heq
            exact (hopened (opened_of_opening hopening)).elim
      | held g =>
          rw [step, if_pos hc] at hstep
          contradiction
      | string content esc =>
          have hquote : c ≠ '"' := by
            rintro rfl
            exact absurd hc (by decide)
          cases esc with
          | plain =>
              simp only [step, stringNext, if_neg hquote] at hstep
              split_ifs at hstep <;> simp at hstep
          | escaped =>
              simp only [step, stringNext] at hstep
              split_ifs at hstep
              · simp at hstep
              · cases hshort : shortEscape c <;> simp [hshort] at hstep
          | hex left value =>
              obtain ⟨digit, -, heq⟩ := Option.map_eq_some_iff.mp hstep
              split at heq <;> simp at heq

/-- No value follows a word directly. -/
theorem accepts_literal_value {h : H} (hkind : kind h = .number) (literal : Option Bool)
    (a b : List (Token H)) : accepts kind (a ++ literalToken literal :: .value h :: b) = false := by
  have hnone : ∀ position, positionAfter kind position
      (literalToken literal :: .value h :: b) = none := by
    intro position
    have hliteral : next kind position (literalToken literal) =
        if position.1.takesValue then some (.rest, position.2) else none := by
      cases literal <;> rfl
    have hvalue : ∀ open_, next kind (.rest, open_) (.value h) = none := by
      intro open_
      simp [next, hkind, Expect.takesValue]
    rw [positionAfter_cons, hliteral]
    split_ifs
    · rw [Option.bind_some, positionAfter_cons, hvalue]
      rfl
    · rfl
  rw [accepts, positionAfter_append, beq_eq_false_iff_ne]
  cases positionAfter kind (.value, []) a with
  | none => exact nofun
  | some position =>
      rw [Option.bind_some, hnone]
      exact nofun

/-- Where a text with holes is a value, its holes are safe. -/
theorem safe_of_read (h : read kind symbols = some tokens) : Safe kind symbols := by
  obtain ⟨hlex, haccepts⟩ := read_eq_some_iff.mp h
  have hhole : ∀ before h after, symbols = before ++ .hole h :: after →
      ∃ out m out' m' later, run kind .between before = some (out, m) ∧ At kind before m ∧
        step kind m (.hole h) = some (out', m') ∧ lexFrom kind m' after = some later ∧
        tokens = out ++ (out' ++ later) := by
    intro before h after hsymbols
    rw [lex, hsymbols, lexFrom_append] at hlex
    obtain ⟨⟨out, m⟩, hrun, hrest⟩ := Option.bind_eq_some_iff.mp hlex
    obtain ⟨more, hmore, rfl⟩ := Option.map_eq_some_iff.mp hrest
    obtain ⟨⟨out', m'⟩, hstep, hafter⟩ := Option.bind_eq_some_iff.mp hmore
    obtain ⟨later, hlater, rfl⟩ := Option.map_eq_some_iff.mp hafter
    have hat := at_nil.run hrun
    rw [List.nil_append] at hat
    exact ⟨out, m, out', m', later, hrun, hat, hstep, hlater, rfl⟩
  constructor
  · intro before h after hsymbols
    obtain ⟨out, m, out', m', later, -, hat, hstep, -, -⟩ := hhole before h after hsymbols
    rw [← hat.place]
    exact place_of_step_hole hstep
  · intro before h after hsymbols hkind hplace
    obtain ⟨out, m, out', m', later, hrun, hat, hstep, hlater, rfl⟩ :=
      hhole before h after hsymbols
    rw [← hat.place] at hplace
    obtain ⟨rfl, rfl, rfl⟩ := step_hole_of_number hkind hplace hstep
    obtain ⟨hafter, more, rfl⟩ := lexFrom_held hlater
    refine ⟨fun s hs => ?_, hafter⟩
    by_contra hnumeric
    rw [Bool.not_eq_false] at hnumeric
    -- the symbol before ended a word, which no value may follow
    obtain ⟨earlier, rfl⟩ := List.getLast?_eq_some_iff.mp hs
    rw [run_concat] at hrun
    obtain ⟨⟨out₀, m₀⟩, hearlier, hlast⟩ := Option.bind_eq_some_iff.mp hrun
    obtain ⟨⟨out₁, m₁⟩, hstep₁, heq⟩ := Option.map_eq_some_iff.mp hlast
    obtain ⟨rfl, rfl⟩ := Prod.mk.inj heq
    have hat₀ := at_nil.run hearlier
    obtain ⟨literal, rfl⟩ := literal_of_step_numeric hat₀ hnumeric hstep₁
    have hreject := accepts_literal_value hkind literal out₀ more
    simp only [List.nil_append, List.append_assoc, List.singleton_append] at haccepts
    rw [haccepts] at hreject
    contradiction

end Rustrak.Json.Holes
