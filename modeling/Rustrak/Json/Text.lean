import Mathlib.Data.List.Basic

/-!
# JSON texts

The grammar of JSON over bytes, as relations between a text and what it decodes to.  A text is
put together by concatenation, so a fact about texts is proved piece by piece.

Numbers are kept as they are written, and members in their order: nothing here depends on what
a number is worth, or on which of two members with one key wins.  A string decodes to
characters, so a surrogate is only part of a text together with its other half.
-/

namespace Rustrak.Json

/-- What a text decodes to. -/
inductive Decoded
  | null
  | bool (b : Bool)
  | number (digits : List UInt8)
  | string (chars : List Char)
  | array (items : List Decoded)
  | object (members : List (List Char × Decoded))

/-! ## The strings of a value -/

namespace Decoded

mutual

/-- The strings of a value, its keys among them. -/
def strings : Decoded → List (List Char)
  | .string chars => [chars]
  | .array items => stringsOfItems items
  | .object members => stringsOfMembers members
  | _ => []

def stringsOfItems : List Decoded → List (List Char)
  | [] => []
  | item :: items => item.strings ++ stringsOfItems items

def stringsOfMembers : List (List Char × Decoded) → List (List Char)
  | [] => []
  | (key, value) :: members => key :: (value.strings ++ stringsOfMembers members)

end

mutual

/-- The same value with other strings. -/
def mapStrings (f : List Char → List Char) : Decoded → Decoded
  | .null => .null
  | .bool b => .bool b
  | .number digits => .number digits
  | .string chars => .string (f chars)
  | .array items => .array (mapItems f items)
  | .object members => .object (mapMembers f members)

def mapItems (f : List Char → List Char) : List Decoded → List Decoded
  | [] => []
  | item :: items => item.mapStrings f :: mapItems f items

def mapMembers (f : List Char → List Char) : List (List Char × Decoded) → List (List Char × Decoded)
  | [] => []
  | (key, value) :: members => (f key, value.mapStrings f) :: mapMembers f members

end

end Decoded

/-! ## The parts of a text -/

def quote : UInt8 := 0x22

def escape : UInt8 := 0x5c

def unitMark : UInt8 := 0x75

/-- Whitespace between the parts of a text. -/
def Space (s : List UInt8) : Prop := ∀ b ∈ s, b ∈ ([0x20, 0x09, 0x0a, 0x0d] : List UInt8)

def IsDigit (b : UInt8) : Prop := 0x30 ≤ b ∧ b ≤ 0x39

/-- One digit or more. -/
def Digits (s : List UInt8) : Prop := s ≠ [] ∧ ∀ b ∈ s, IsDigit b

/-- A number: a sign, an integer that starts with a zero only when it is one, a fraction and an
exponent. -/
structure Number (sign integer fraction exponent : List UInt8) : Prop where
  sign : sign = [] ∨ sign = [0x2d]
  integer : integer = [0x30] ∨ Digits integer ∧ integer.head? ≠ some 0x30
  fraction : fraction = [] ∨ ∃ digits, Digits digits ∧ fraction = 0x2e :: digits
  exponent : exponent = [] ∨ ∃ mark side digits, (mark = 0x65 ∨ mark = 0x45) ∧
    (side = [] ∨ side = [0x2b] ∨ side = [0x2d]) ∧ Digits digits ∧ exponent = mark :: (side ++ digits)

/-! ## Strings -/

/-- The escapes of one letter, and what they stand for. -/
def shortEscapes : List (UInt8 × Char) :=
  [(0x22, '"'), (0x5c, '\\'), (0x2f, '/'), (0x62, '\x08'), (0x66, '\x0c'), (0x6e, '\n'),
    (0x72, '\r'), (0x74, '\t')]

def hexValue (b : UInt8) : Option Nat :=
  if 0x30 ≤ b ∧ b ≤ 0x39 then some (b.toNat - 0x30)
  else if 0x41 ≤ b ∧ b ≤ 0x46 then some (b.toNat - 0x41 + 10)
  else if 0x61 ≤ b ∧ b ≤ 0x66 then some (b.toNat - 0x61 + 10)
  else none

/-- The four digits of a code unit. -/
inductive CodeUnit : List UInt8 → Nat → Prop
  | mk {a b c d : UInt8} {i j k l : Nat} (ha : hexValue a = some i) (hb : hexValue b = some j)
      (hc : hexValue c = some k) (hd : hexValue d = some l) :
      CodeUnit [a, b, c, d] (4096 * i + 256 * j + 16 * k + l)

/-- What is between the quotes of a string. -/
inductive Chars : List UInt8 → List Char → Prop
  | nil : Chars [] []
  /-- A character that needs no escape, in UTF-8. -/
  | plain {c : Char} {rest : List UInt8} {chars : List Char} (hspace : ' ' ≤ c)
      (hquote : c ≠ '"') (hescape : c ≠ '\\') (h : Chars rest chars) :
      Chars (String.utf8EncodeChar c ++ rest) (c :: chars)
  | short {b : UInt8} {c : Char} {rest : List UInt8} {chars : List Char}
      (hb : (b, c) ∈ shortEscapes) (h : Chars rest chars) :
      Chars ([escape, b] ++ rest) (c :: chars)
  /-- A code unit that is a character. -/
  | unit {digits : List UInt8} {c : Char} {rest : List UInt8} {chars : List Char}
      (hunit : CodeUnit digits c.toNat) (h : Chars rest chars) :
      Chars (escape :: unitMark :: digits ++ rest) (c :: chars)
  /-- Two code units that are one character. -/
  | pair {high low : List UInt8} {i j : Nat} {c : Char} {rest : List UInt8} {chars : List Char}
      (hhigh : CodeUnit high (0xd800 + i)) (hi : i < 0x400)
      (hlow : CodeUnit low (0xdc00 + j)) (hj : j < 0x400)
      (hc : c.toNat = 0x10000 + 0x400 * i + j) (h : Chars rest chars) :
      Chars (escape :: unitMark :: high ++ (escape :: unitMark :: low ++ rest)) (c :: chars)

def quoted (body : List UInt8) : List UInt8 := [quote] ++ body ++ [quote]

/-! ## Values -/

mutual

inductive Value : List UInt8 → Decoded → Prop
  | null : Value [0x6e, 0x75, 0x6c, 0x6c] .null
  | true : Value [0x74, 0x72, 0x75, 0x65] (.bool true)
  | false : Value [0x66, 0x61, 0x6c, 0x73, 0x65] (.bool false)
  | number {sign integer fraction exponent : List UInt8}
      (h : Number sign integer fraction exponent) :
      Value (sign ++ integer ++ fraction ++ exponent)
        (.number (sign ++ integer ++ fraction ++ exponent))
  | string {body : List UInt8} {chars : List Char} (h : Chars body chars) :
      Value (quoted body) (.string chars)
  | emptyArray {space : List UInt8} (h : Space space) :
      Value ([0x5b] ++ space ++ [0x5d]) (.array [])
  | array {s : List UInt8} {items : List Decoded} (h : Items s items) :
      Value ([0x5b] ++ s ++ [0x5d]) (.array items)
  | emptyObject {space : List UInt8} (h : Space space) :
      Value ([0x7b] ++ space ++ [0x7d]) (.object [])
  | object {s : List UInt8} {members : List (List Char × Decoded)} (h : Members s members) :
      Value ([0x7b] ++ s ++ [0x7d]) (.object members)

/-- One item or more, with commas between them. -/
inductive Items : List UInt8 → List Decoded → Prop
  | one {before s after : List UInt8} {v : Decoded} (hbefore : Space before) (h : Value s v)
      (hafter : Space after) : Items (before ++ s ++ after) [v]
  | cons {before s after rest : List UInt8} {v : Decoded} {items : List Decoded}
      (hbefore : Space before) (h : Value s v) (hafter : Space after) (hrest : Items rest items) :
      Items (before ++ s ++ after ++ ([0x2c] ++ rest)) (v :: items)

/-- One member or more. -/
inductive Members : List UInt8 → List (List Char × Decoded) → Prop
  | one {before body between middle s after : List UInt8} {key : List Char} {v : Decoded}
      (hbefore : Space before) (hkey : Chars body key) (hbetween : Space between)
      (hmiddle : Space middle) (h : Value s v) (hafter : Space after) :
      Members (before ++ quoted body ++ between ++ [0x3a] ++ middle ++ s ++ after) [(key, v)]
  | cons {before body between middle s after rest : List UInt8} {key : List Char} {v : Decoded}
      {members : List (List Char × Decoded)}
      (hbefore : Space before) (hkey : Chars body key) (hbetween : Space between)
      (hmiddle : Space middle) (h : Value s v) (hafter : Space after)
      (hrest : Members rest members) :
      Members (before ++ quoted body ++ between ++ [0x3a] ++ middle ++ s ++ after ++
        ([0x2c] ++ rest)) ((key, v) :: members)

end

/-- A JSON text: a value with space around it. -/
inductive Text : List UInt8 → Decoded → Prop
  | mk {before s after : List UInt8} {v : Decoded} (hbefore : Space before) (h : Value s v)
      (hafter : Space after) : Text (before ++ s ++ after) v

/-! ## Code units -/

theorem hexValue_eq_zero {b : UInt8} (h : hexValue b = some 0) : b = 0x30 := by
  unfold hexValue at h
  split_ifs at h with hdigit
  · have hvalue := Option.some.inj h
    have hlow := UInt8.le_iff_toNat_le.mp hdigit.1
    exact UInt8.toNat.inj (Nat.le_antisymm (Nat.sub_eq_zero_iff_le.mp hvalue) hlow)
  · have hvalue := Option.some.inj h
    omega
  · have hvalue := Option.some.inj h
    omega

theorem CodeUnit.eq_zeros_iff {digits : List UInt8} {n : Nat} (h : CodeUnit digits n) :
    digits = [0x30, 0x30, 0x30, 0x30] ↔ n = 0 := by
  cases h with
  | @mk a b c d i j k l ha hb hc hd =>
      constructor
      · intro heq
        have hzero : ∀ {m : Nat}, hexValue 0x30 = some m → m = 0 := fun hm =>
          (Option.some.inj hm).symm
        simp only [List.cons.injEq, and_true] at heq
        obtain ⟨rfl, rfl, rfl, rfl⟩ := heq
        rw [hzero ha, hzero hb, hzero hc, hzero hd]
      · intro hn
        obtain ⟨rfl, rfl, rfl, rfl⟩ : i = 0 ∧ j = 0 ∧ k = 0 ∧ l = 0 := by omega
        rw [hexValue_eq_zero ha, hexValue_eq_zero hb, hexValue_eq_zero hc, hexValue_eq_zero hd]

theorem codeUnit_zeros : CodeUnit [0x30, 0x30, 0x30, 0x30] 0 := by
  have hzero : hexValue 0x30 = some 0 := by decide
  exact CodeUnit.mk hzero hzero hzero hzero

/-! ## Texts that are a string -/

theorem text_quoted {body : List UInt8} {chars : List Char} (h : Chars body chars) :
    Text (quoted body) (.string chars) := by
  have hspace : Space [] := fun b hb => absurd hb List.not_mem_nil
  have htext := Text.mk hspace (.string h) hspace
  rwa [List.nil_append, List.append_nil] at htext

theorem text_unit {digits : List UInt8} {c : Char} (h : CodeUnit digits c.toNat) :
    Text (quoted (escape :: unitMark :: digits)) (.string [c]) := by
  have hchars := Chars.unit h .nil
  rw [List.append_nil] at hchars
  exact text_quoted hchars

/-! ## Where there is no escape -/

theorem Space.not_mem_escape {s : List UInt8} (h : Space s) : escape ∉ s := fun hmem =>
  absurd (h escape hmem) (by decide)

theorem Digits.not_mem_escape {s : List UInt8} (h : Digits s) : escape ∉ s := fun hmem =>
  absurd (h.2 escape hmem) (by unfold IsDigit; decide)

theorem Number.not_mem_escape {sign integer fraction exponent : List UInt8}
    (h : Number sign integer fraction exponent) :
    escape ∉ sign ++ integer ++ fraction ++ exponent := by
  have hsign : escape ∉ sign := by
    rcases h.sign with rfl | rfl <;> decide
  have hinteger : escape ∉ integer := by
    rcases h.integer with rfl | ⟨hdigits, -⟩
    · decide
    · exact hdigits.not_mem_escape
  have hfraction : escape ∉ fraction := by
    rcases h.fraction with rfl | ⟨digits, hdigits, rfl⟩
    · decide
    · exact List.not_mem_cons_of_ne_of_not_mem (by decide) hdigits.not_mem_escape
  have hexponent : escape ∉ exponent := by
    rcases h.exponent with rfl | ⟨mark, side, digits, hmark, hside, hdigits, rfl⟩
    · decide
    · have hmark : escape ≠ mark := by
        rcases hmark with rfl | rfl <;> decide
      have hside : escape ∉ side := by
        rcases hside with rfl | rfl | rfl <;> decide
      exact List.not_mem_cons_of_ne_of_not_mem hmark
        (List.not_mem_append hside hdigits.not_mem_escape)
  exact List.not_mem_append (List.not_mem_append (List.not_mem_append hsign hinteger) hfraction)
    hexponent

theorem escape_ne_ofNat {n : Nat} (h : n < 256) (hne : n ≠ 0x5c) : escape ≠ UInt8.ofNat n := by
  intro heq
  have hvalue := congrArg UInt8.toNat heq
  rw [UInt8.toNat_ofNat_of_lt' h] at hvalue
  exact hne hvalue.symm

/-- The UTF-8 bytes of a character hold a backslash only if it is one. -/
theorem not_mem_utf8EncodeChar {c : Char} (h : c ≠ '\\') :
    escape ∉ String.utf8EncodeChar c := by
  have hne : c.val.toNat ≠ 0x5c := fun heq => h (Char.ext (UInt32.toNat.inj heq))
  have hbound : c.val.toNat < 0x110000 := c.valid.elim (fun hlow => Nat.lt_trans hlow (by decide))
    fun hhigh => hhigh.2
  change escape ∉ if c.val.toNat ≤ 0x7f then _ else if c.val.toNat ≤ 0x7ff then _ else
    if c.val.toNat ≤ 0xffff then _ else _
  generalize c.val.toNat = v at hne hbound
  split_ifs with hone htwo hthree
  · simpa using escape_ne_ofNat (by omega) hne
  · simp only [List.mem_cons, List.not_mem_nil, or_false, not_or]
    exact ⟨escape_ne_ofNat (by omega) (by omega), escape_ne_ofNat (by omega) (by omega)⟩
  · simp only [List.mem_cons, List.not_mem_nil, or_false, not_or]
    exact ⟨escape_ne_ofNat (by omega) (by omega), escape_ne_ofNat (by omega) (by omega),
      escape_ne_ofNat (by omega) (by omega)⟩
  · simp only [List.mem_cons, List.not_mem_nil, or_false, not_or]
    exact ⟨escape_ne_ofNat (by omega) (by omega), escape_ne_ofNat (by omega) (by omega),
      escape_ne_ofNat (by omega) (by omega), escape_ne_ofNat (by omega) (by omega)⟩

end Rustrak.Json
