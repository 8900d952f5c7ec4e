import Mathlib.Algebra.GroupWithZero.Nat
import Mathlib.Tactic.Common

/-!
# Text

The string functions of the standard library that the code calls and that Lean's
own do not match: `str::trim` removes Unicode white space, `str::len` counts bytes
and `str::lines` drops the carriage return of a line that ends in both.
-/

namespace Rustrak.Core

/-- `char::is_whitespace`: the Unicode property `White_Space`. -/
def isWhitespace (c : Char) : Bool :=
  let n := c.toNat
  (0x09 ≤ n && n ≤ 0x0d) || n == 0x20 || n == 0x85 || n == 0xa0 || n == 0x1680 ||
    (0x2000 ≤ n && n ≤ 0x200a) || n == 0x2028 || n == 0x2029 || n == 0x202f || n == 0x205f ||
    n == 0x3000

/-- `str::trim`. -/
def trim (s : String) : String :=
  String.ofList (((s.toList.dropWhile isWhitespace).reverse.dropWhile isWhitespace).reverse)

/-- `str::starts_with`. -/
def startsWith (s start : String) : Bool := start.toList.isPrefixOf s.toList

/-- Whether a text starts with another is decided by its first characters. -/
theorem startsWith_append {first start : String} (rest : String)
    (hlength : start.toList.length ≤ first.toList.length) :
    startsWith (first ++ rest) start = startsWith first start := by
  unfold startsWith
  rw [String.toList_append]
  generalize start.toList = pre at hlength ⊢
  generalize first.toList = cs at hlength ⊢
  induction pre generalizing cs with
  | nil => rfl
  | cons p pre ih =>
      cases cs with
      | nil => exact absurd hlength (Nat.not_succ_le_zero _)
      | cons c cs =>
          rw [List.cons_append, List.isPrefixOf_cons_cons, List.isPrefixOf_cons_cons,
            ih cs (Nat.le_of_succ_le_succ hlength)]

/-- `clamp`: cuts to the characters a VARCHAR column holds. -/
def clamp (s : String) (maxChars : Nat) : String :=
  String.ofList (s.toList.take maxChars)

/-- `str::len`: the bytes of the text in UTF-8. -/
def byteLength (s : String) : Nat := (s.toList.map Char.utf8Size).sum

/-- `truncate`: what is longer than so many bytes is cut to so many characters. -/
def truncate (s : String) (maxLen : Nat) : String :=
  if byteLength s ≤ maxLen then s else clamp s maxLen

/-- A line that ended in a line feed, without the carriage return before it; its
characters are in reverse. -/
private def lineOf : List Char → String
  | '\r' :: rest => String.ofList rest.reverse
  | line => String.ofList line.reverse

/-- The lines of what follows `line`, which is in reverse. -/
private def linesFrom (line : List Char) : List Char → List String
  | [] => if line.isEmpty then [] else [String.ofList line.reverse]
  | '\n' :: rest => lineOf line :: linesFrom [] rest
  | c :: rest => linesFrom (c :: line) rest

/-- `str::lines`. -/
def lines (s : String) : List String := linesFrom [] s.toList

/-- `s.lines().next().unwrap_or("")`. -/
def firstLine (s : String) : String := (lines s).head?.getD ""

example : trim "  Triage " = "Triage" := by decide

example : lines "a\r\n\nb\r" = ["a", "", "b\r"] := by decide

end Rustrak.Core
