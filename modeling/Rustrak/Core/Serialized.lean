import Rustrak.Core.Json
import Rustrak.Core.Text

/-!
# Serialised JSON

The text `serde_json::to_string` writes: no white space, and in a string only quotes,
backslashes and control characters are escaped.  The length of a text is counted in bytes.
-/

namespace Rustrak.Core

@[simp] theorem byteLength_append (s t : String) :
    byteLength (s ++ t) = byteLength s + byteLength t := by
  simp [byteLength]

@[simp] theorem byteLength_ofList (cs : List Char) :
    byteLength (String.ofList cs) = (cs.map Char.utf8Size).sum := by
  simp [byteLength]

theorem byteLength_pos {s : String} (h : s ≠ "") : 0 < byteLength s := by
  rw [byteLength]
  cases hs : s.toList with
  | nil => exact absurd (String.toList_eq_nil_iff.mp hs) h
  | cons c cs =>
      have := c.utf8Size_pos
      rw [List.map_cons, List.sum_cons]
      omega

/-- A character as it stands between the quotes. -/
def escaped : Char → List Char
  | '"' => ['\\', '"']
  | '\\' => ['\\', '\\']
  | '\x08' => ['\\', 'b']
  | '\x0c' => ['\\', 'f']
  | '\n' => ['\\', 'n']
  | '\r' => ['\\', 'r']
  | '\t' => ['\\', 't']
  | c =>
      if c.toNat < 0x20 then
        ['\\', 'u', '0', '0', Nat.digitChar (c.toNat / 16), Nat.digitChar (c.toNat % 16)]
      else [c]

def quoted (s : String) : String :=
  String.ofList ('"' :: s.toList.flatMap escaped ++ ['"'])

/-- The bytes that escaping adds to a text. -/
def escapes (s : String) : Nat :=
  (s.toList.map fun c => ((escaped c).map Char.utf8Size).sum - c.utf8Size).sum

theorem utf8Size_le_escaped (c : Char) :
    c.utf8Size ≤ ((escaped c).map Char.utf8Size).sum := by
  fun_cases escaped c with
  | case8 c =>
      have hsize : ((['\\', 'u', '0', '0'] : List Char).map Char.utf8Size).sum = 4 := by decide
      have hle := c.utf8Size_le_four
      simp only [List.map_cons, List.sum_cons] at hsize ⊢
      omega
  | case9 c => simp
  | _ => decide

theorem byteLength_quoted (s : String) : byteLength (quoted s) = byteLength s + escapes s + 2 := by
  have hquote : Char.utf8Size '"' = 1 := by decide
  have hbody : ((s.toList.flatMap escaped).map Char.utf8Size).sum = byteLength s + escapes s := by
    rw [byteLength, escapes]
    induction s.toList with
    | nil => rfl
    | cons c cs ih =>
        have hc := utf8Size_le_escaped c
        simp only [List.flatMap_cons, List.map_append, List.sum_append, List.map_cons,
          List.sum_cons, ih]
        omega
  simp only [quoted, byteLength_ofList, List.cons_append, List.map_cons, List.map_append,
    List.sum_cons, List.sum_append, List.map_nil, List.sum_nil, hbody, hquote]
  omega

/-- One separator stands between each two texts. -/
theorem byteLength_intercalate (texts : List String) :
    byteLength (",".intercalate texts) = (texts.map byteLength).sum + (texts.length - 1) := by
  induction texts with
  | nil => simp [byteLength]
  | cons s rest ih =>
      cases rest with
      | nil => simp
      | cons t rest =>
          have hcomma : byteLength "," = 1 := by decide
          rw [String.intercalate_cons_cons, byteLength_append, byteLength_append, hcomma, ih]
          simp only [List.map_cons, List.sum_cons, List.length_cons]
          omega

def Number.text : Number → String
  | .int n => toString n
  | .float _ text => text

namespace Value

mutual

/-- `serde_json::to_string`. -/
def toJson : Value → String
  | null => "null"
  | bool true => "true"
  | bool false => "false"
  | number n => n.text
  | string s => quoted s
  | array values => "[" ++ ",".intercalate (elementTexts values) ++ "]"
  | object fields => "\x7b" ++ ",".intercalate (fieldTexts fields) ++ "\x7d"

def elementTexts : List Value → List String
  | [] => []
  | v :: rest => v.toJson :: elementTexts rest

def fieldTexts : List (String × Value) → List String
  | [] => []
  | (key, v) :: rest => (quoted key ++ ":" ++ v.toJson) :: fieldTexts rest

end

/-- The length of the serialised value. -/
def size (v : Value) : Nat := byteLength v.toJson

example : (object [("a\n", array [null, string "b"])]).toJson = "\x7b\"a\\n\":[null,\"b\"]\x7d" := by
  decide +kernel

@[simp] theorem elementTexts_eq_map (values : List Value) : elementTexts values = values.map toJson := by
  induction values with
  | nil => rfl
  | cons v rest ih => rw [elementTexts, ih, List.map_cons]

@[simp] theorem fieldTexts_eq_map (fields : List (String × Value)) :
    fieldTexts fields = fields.map fun field => quoted field.1 ++ ":" ++ field.2.toJson := by
  induction fields with
  | nil => rfl
  | cons field rest ih => rw [fieldTexts, ih, List.map_cons]

theorem size_string (s : String) : (string s).size = byteLength s + escapes s + 2 := by
  rw [size, toJson, byteLength_quoted]

theorem size_array (values : List Value) :
    (array values).size = (values.map size).sum + (values.length - 1) + 2 := by
  have hopen : byteLength "[" = 1 := by decide
  have hclose : byteLength "]" = 1 := by decide
  have htext : byteLength ∘ toJson = size := rfl
  rw [size, toJson, byteLength_append, byteLength_append, byteLength_intercalate, hopen, hclose,
    elementTexts_eq_map, List.map_map, List.length_map, htext]
  omega

/-- The length of a field in its object. -/
def fieldSize (field : String × Value) : Nat :=
  byteLength field.1 + escapes field.1 + 3 + field.2.size

theorem size_object (fields : List (String × Value)) :
    (object fields).size = (fields.map fieldSize).sum + (fields.length - 1) + 2 := by
  have hopen : byteLength "\x7b" = 1 := by decide
  have hclose : byteLength "\x7d" = 1 := by decide
  have hcolon : byteLength ":" = 1 := by decide
  have htext : (byteLength ∘ fun field : String × Value => quoted field.1 ++ ":" ++ field.2.toJson)
      = fieldSize := by
    funext field
    simp only [Function.comp_def, byteLength_append, byteLength_quoted, hcolon, fieldSize, size]
  rw [size, toJson, byteLength_append, byteLength_append, byteLength_intercalate, hopen, hclose,
    fieldTexts_eq_map, List.map_map, List.length_map, htext]
  omega

end Value

end Rustrak.Core
