import Rustrak.Core.Text
import Rustrak.Json.Filling

/-!
# Escaping in JSON templates

`notification/json_template.rs`: a template is rewritten before it compiles, so that every
expression ends in the filter that its position needs, and the two filters.
-/

namespace Rustrak.Webhooks

open Rustrak.Core (isWhitespace)

abbrev Text := List Char

def ascii (s : String) : Text := s.toList

/-! ## Text -/

/-- `str::trim`, over characters. -/
def trim (s : Text) : Text :=
  ((s.dropWhile isWhitespace).reverse.dropWhile isWhitespace).reverse

/-- `str::find`: what stands before a part where it first occurs, and after it. -/
def cutAt (part : Text) : Text → Option (Text × Text)
  | [] => if part.isEmpty then some ([], []) else none
  | c :: rest =>
      if part.isPrefixOf (c :: rest) then some ([], (c :: rest).drop part.length)
      else (cutAt part rest).map fun (before, after) => (c :: before, after)

/-- `serde_json::to_string` of a string. -/
def quotedText (s : Text) : Text := '"' :: Json.Holes.escape s ++ ['"']

/-! ## Rewriting -/

/-- A kind of tag, by how it opens and closes. -/
structure Tag where
  opening : Text
  closing : Text

def expressionTag : Tag := ⟨['{', '{'], ['}', '}']⟩

def blockTag : Tag := ⟨['{', '%'], ['%', '}']⟩

def commentTag : Tag := ⟨['{', '#'], ['#', '}']⟩

/-- The tag that opens here, if one does and is closed: what is inside it, and what follows. -/
def tagEnd (tag : Tag) (template : Text) : Option (Text × Text) :=
  if tag.opening.isPrefixOf template then
    cutAt tag.closing (template.drop tag.opening.length)
  else none

def stringFilter : Text := ascii "json_string"

def valueFilter : Text := ascii "json_value"

/-- Whether the last filter in an expression is `name`, with or without arguments. -/
def endsWithFilter (expr name : Text) : Bool :=
  let tail := trim ((expr.reverse.takeWhile (· != '|')).reverse)
  tail == name ||
    name.isPrefixOf tail &&
      ['('].isPrefixOf ((tail.drop name.length).dropWhile isWhitespace)

/-- An expression through a filter, with its source as the argument. -/
def filtered (expr filter : Text) : Text :=
  ascii " (" ++ expr ++ ascii ") | " ++ filter ++ ['('] ++ quotedText expr ++ ascii ") "

/-- What stands between the braces of an expression, for its position. -/
def wrap (inner : Text) (inString : Bool) : Text :=
  let expr := trim inner
  if expr.isEmpty || endsWithFilter expr (ascii "tojson") then inner
  else filtered expr (if inString then stringFilter else valueFilter)

/-- The loop of `autoescape`, which takes one character a turn or more. -/
def autoescapeFrom : ℕ → Text → Bool → Text
  | 0, _, _ => []
  | _ + 1, [], _ => []
  | fuel + 1, c :: rest, inString =>
      match tagEnd blockTag (c :: rest), tagEnd commentTag (c :: rest),
          tagEnd expressionTag (c :: rest) with
      | some (inner, after), _, _ =>
          blockTag.opening ++ inner ++ blockTag.closing ++ autoescapeFrom fuel after inString
      | none, some (inner, after), _ =>
          commentTag.opening ++ inner ++ commentTag.closing ++ autoescapeFrom fuel after inString
      | none, none, some (inner, after) =>
          expressionTag.opening ++ wrap inner inString ++ expressionTag.closing ++
            autoescapeFrom fuel after inString
      | none, none, none =>
          if c = '\\' ∧ inString = true then
            match rest with
            | [] => [c]
            | d :: rest => c :: d :: autoescapeFrom fuel rest inString
          else c :: autoescapeFrom fuel rest (if c = '"' then !inString else inString)

def autoescape (template : Text) : Text := autoescapeFrom template.length template false

/-! ## The filters -/

/-- A value that is written without braces. -/
inductive Scalar
  | none
  | number (n : ℤ)
  | string (s : Text)
  deriving DecidableEq

/-- A value of the template engine, as far as the payload of an alert has them. -/
inductive Value
  | undefined
  | scalar (s : Scalar)
  | object (members : List (Text × Scalar))
  deriving DecidableEq

def decimal (n : ℤ) : Text := ascii (toString n)

/-- `serde_json::to_string`. -/
def Scalar.json : Scalar → Text
  | .none => ascii "null"
  | .number n => decimal n
  | .string s => quotedText s

def memberJson (member : Text × Scalar) : Text := quotedText member.1 ++ ':' :: member.2.json

def membersJson : List (Text × Scalar) → Text
  | [] => []
  | [member] => memberJson member
  | member :: next :: members => memberJson member ++ ',' :: membersJson (next :: members)

def Value.json : Value → Text
  | .undefined => ascii "null"
  | .scalar s => s.json
  | .object members => '{' :: membersJson members ++ ['}']

def undefinedField (source : Option Text) : Text :=
  let what := (source.map fun s => ['`'] ++ s ++ ['`']).getD (ascii "the field")
  what ++ ascii " is not a field of the alert payload"

def jsonValue (value : Value) (source : Option Text) : Except Text Text :=
  match value with
  | .undefined => .error (undefinedField source)
  | value => .ok value.json

def jsonString (value : Value) (source : Option Text) : Except Text Text :=
  match value with
  | .undefined => .error (undefinedField source)
  | .scalar .none => .ok []
  | .scalar (.string s) => .ok (Json.Holes.escape s)
  | value => .ok (Json.Holes.escape value.json)

end Rustrak.Webhooks
