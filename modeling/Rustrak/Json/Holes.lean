import Mathlib.Data.List.Basic

/-!
# JSON texts with holes

A text is read symbol by symbol, where a symbol is a character or a hole that something is to
be written into.  A hole in a string stands for part of its content, a hole between tokens for
a value.  What is read is the sequence of tokens: without the space between them and without
the spelling of the characters in strings, and with the holes where they stood.

A token that ends only with what follows it, a number, must not be grown by a hole, nor a hole
that is a number by what stands beside it; and a hole in an escape is no part of any token.
-/

namespace Rustrak.Json.Holes

variable {H : Type}

inductive Symbol (H : Type)
  | char (c : Char)
  | hole (h : H)
  deriving DecidableEq

/-- A part of the content of a string: a UTF-16 code unit, or a hole. -/
inductive Atom (H : Type)
  | unit (n : ℕ)
  | hole (h : H)
  deriving DecidableEq

inductive Token (H : Type)
  | openArray
  | closeArray
  | openObject
  | closeObject
  | comma
  | colon
  | null
  | bool (b : Bool)
  /-- A number, as it is written. -/
  | number (digits : List Char)
  | string (content : List (Atom H))
  | value (h : H)
  deriving DecidableEq

/-- What a hole outside a string is written as: always a string, always a number, or any value
that does not begin as a number does. -/
inductive Kind
  | text
  | number
  | other
  deriving DecidableEq, Repr

/-! ## Characters -/

def isSpace (c : Char) : Bool := c == ' ' || c == '\t' || c == '\n' || c == '\r'

/-- The UTF-16 code units of a character. -/
def utf16 (c : Char) : List ℕ :=
  let n := c.toNat
  if n < 0x10000 then [n] else [0xd800 + (n - 0x10000) / 0x400, 0xdc00 + (n - 0x10000) % 0x400]

/-- What a letter after a backslash stands for. -/
def shortEscape (c : Char) : Option Char :=
  match c with
  | '"' => some '"'
  | '\\' => some '\\'
  | '/' => some '/'
  | 'b' => some '\x08'
  | 'f' => some '\x0c'
  | 'n' => some '\n'
  | 'r' => some '\r'
  | 't' => some '\t'
  | _ => none

def hexDigit (c : Char) : Option ℕ :=
  if '0' ≤ c ∧ c ≤ '9' then some (c.toNat - 48)
  else if 'a' ≤ c ∧ c ≤ 'f' then some (c.toNat - 87)
  else if 'A' ≤ c ∧ c ≤ 'F' then some (c.toNat - 55)
  else none

/-! ## Numbers -/

/-- How far a number has been read. -/
inductive NumberState
  | start
  | sign
  | zero
  | integer
  | point
  | fraction
  | mark
  | markSign
  | exponent
  deriving DecidableEq, Repr

def isDigit (c : Char) : Bool := '0' ≤ c && c ≤ '9'

def numberNext (state : NumberState) (c : Char) : Option NumberState :=
  match state with
  | .start =>
      if c = '-' then some .sign else if c = '0' then some .zero
      else if isDigit c then some .integer else none
  | .sign => if c = '0' then some .zero else if isDigit c then some .integer else none
  | .zero =>
      if c = '.' then some .point else if c = 'e' ∨ c = 'E' then some .mark else none
  | .integer =>
      if isDigit c then some .integer
      else if c = '.' then some .point else if c = 'e' ∨ c = 'E' then some .mark else none
  | .point => if isDigit c then some .fraction else none
  | .fraction =>
      if isDigit c then some .fraction else if c = 'e' ∨ c = 'E' then some .mark else none
  | .mark =>
      if c = '+' ∨ c = '-' then some .markSign else if isDigit c then some .exponent else none
  | .markSign => if isDigit c then some .exponent else none
  | .exponent => if isDigit c then some .exponent else none

def numberState (digits : List Char) : Option NumberState := digits.foldlM numberNext .start

/-- Characters that a number is written in. -/
def isNumberChar (c : Char) : Bool :=
  isDigit c || c == '-' || c == '+' || c == '.' || c == 'e' || c == 'E'

def isDone : NumberState → Bool
  | .zero | .integer | .fraction | .exponent => true
  | _ => false

/-- A number that may end here. -/
def numberDone (digits : List Char) : Bool := (numberState digits).any isDone

theorem isNumberChar_of_numberNext {state next : NumberState} {c : Char}
    (h : numberNext state c = some next) : isNumberChar c = true := by
  have hzero : isDigit '0' = true := by decide
  simp only [isNumberChar, Bool.or_eq_true, beq_iff_eq]
  cases state <;> simp only [numberNext] at h <;> split_ifs at h <;> grind

theorem numberState_append (digits : List Char) (c : Char) :
    numberState (digits ++ [c]) = (numberState digits).bind (numberNext · c) := by
  rw [numberState, List.foldlM_append, ← numberState]
  simp [List.foldlM]

/-- A number goes on only with its own characters. -/
theorem numberState_append_eq_none {digits : List Char} {c : Char}
    (h : isNumberChar c = false) : numberState (digits ++ [c]) = none := by
  rw [numberState_append, Option.bind_eq_none_iff]
  intro state _
  by_contra hsome
  obtain ⟨next, hnext⟩ := Option.ne_none_iff_exists'.mp hsome
  rw [isNumberChar_of_numberNext hnext] at h
  contradiction

/-! ## Reading symbols -/

/-- How far the content of a string has been read into an escape. -/
inductive Escape
  | plain
  | escaped
  /-- So many digits of a code unit are to come. -/
  | hex (left value : ℕ)
  deriving DecidableEq, Repr

inductive Mode (H : Type)
  | between
  /-- A word of which these characters are to come: null, or a truth value. -/
  | word (rest : List Char) (literal : Option Bool)
  | number (digits : List Char)
  /-- A hole that is a number, which what follows could grow. -/
  | held (h : H)
  | string (content : List (Atom H)) (escape : Escape)

/-- What one symbol comes to: the tokens that end, and how reading goes on. -/
abbrev Reading (H : Type) := Option (List (Token H) × Mode H)

def literalToken : Option Bool → Token H
  | none => .null
  | some b => .bool b

/-- A character where no token is under way. -/
def opening (c : Char) : Reading H :=
  if isSpace c then some ([], .between)
  else
    match c with
    | '[' => some ([.openArray], .between)
    | ']' => some ([.closeArray], .between)
    | '{' => some ([.openObject], .between)
    | '}' => some ([.closeObject], .between)
    | ',' => some ([.comma], .between)
    | ':' => some ([.colon], .between)
    | '"' => some ([], .string [] .plain)
    | 'n' => some ([], .word ['u', 'l', 'l'] none)
    | 't' => some ([], .word ['r', 'u', 'e'] (some true))
    | 'f' => some ([], .word ['a', 'l', 's', 'e'] (some false))
    | _ => if c = '-' ∨ isDigit c then some ([], .number [c]) else none

/-- A token that ends before what is read next. -/
def Reading.after (token : Token H) (reading : Reading H) : Reading H :=
  reading.map fun (tokens, mode) => (token :: tokens, mode)

/-- A character in a string. -/
def stringNext (content : List (Atom H)) (escape : Escape) (c : Char) : Reading H :=
  match escape with
  | .plain =>
      if c = '"' then some ([.string content], .between)
      else if c = '\\' then some ([], .string content .escaped)
      else if c < ' ' then none
      else some ([], .string (content ++ (utf16 c).map .unit) .plain)
  | .escaped =>
      if c = 'u' then some ([], .string content (.hex 4 0))
      else
        (shortEscape c).map fun c => ([], .string (content ++ [.unit c.toNat]) .plain)
  | .hex left value =>
      (hexDigit c).map fun digit =>
        match left with
        | left + 2 => ([], .string content (.hex (left + 1) (16 * value + digit)))
        | _ => ([], .string (content ++ [.unit (16 * value + digit)]) .plain)

section Reading

variable (kind : H → Kind)

def step (mode : Mode H) (symbol : Symbol H) : Reading H :=
  match mode, symbol with
  | .between, .char c => opening c
  | .between, .hole h =>
      if kind h = .number then some ([], .held h) else some ([.value h], .between)
  | .word rest literal, .char c =>
      match rest with
      | [] => none
      | [r] => if c = r then some ([literalToken literal], .between) else none
      | r :: rest => if c = r then some ([], .word rest literal) else none
  | .word _ _, .hole _ => none
  | .number digits, .char c =>
      if (numberState (digits ++ [c])).isSome then some ([], .number (digits ++ [c]))
      else if numberDone digits then (opening c).after (.number digits) else none
  | .number digits, .hole h =>
      if kind h = .number then none
      else if numberDone digits then some ([.number digits, .value h], .between) else none
  | .held h, .char c => if isNumberChar c then none else (opening c).after (.value h)
  | .held g, .hole h =>
      if kind h = .number then none else some ([.value g, .value h], .between)
  | .string content escape, .char c => stringNext content escape c
  | .string content escape, .hole h =>
      if escape = .plain then some ([], .string (content ++ [.hole h]) .plain) else none

/-- The end of a text. -/
def finish (mode : Mode H) : Option (List (Token H)) :=
  match mode with
  | .between => some []
  | .number digits => if numberDone digits then some [.number digits] else none
  | .held h => some [.value h]
  | _ => none

def lexFrom (mode : Mode H) : List (Symbol H) → Option (List (Token H))
  | [] => finish mode
  | symbol :: rest =>
      (step kind mode symbol).bind fun (tokens, mode) => (lexFrom mode rest).map (tokens ++ ·)

/-- The tokens of a text. -/
def lex (symbols : List (Symbol H)) : Option (List (Token H)) := lexFrom kind .between symbols

end Reading

end Rustrak.Json.Holes
