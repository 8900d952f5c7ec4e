import Mathlib.Algebra.Group.Int.Defs
import Mathlib.Data.List.Infix
import Rustrak.Core.Text

/-!
# Names with parts

The functions of the standard library that build a file name out of parts and take one
apart: affixes, the last separator, a decimal integer, the extension of a path.  Each
undoes what wrote the part.
-/

namespace Rustrak.Core

/-- `str::strip_prefix`. -/
def stripPrefix (s start : String) : Option String :=
  if startsWith s start then some (String.ofList (s.toList.drop start.length)) else none

/-- `str::ends_with`. -/
def endsWith (s stop : String) : Bool := stop.toList.isSuffixOf s.toList

/-- `str::strip_suffix`. -/
def stripSuffix (s stop : String) : Option String :=
  if endsWith s stop then some (String.ofList (s.toList.take (s.length - stop.length))) else none

/-- `str::contains`. -/
def containsText (s part : String) : Bool := decide (part.toList <:+: s.toList)

/-- `str::rsplit_once`. -/
def rsplitOnce (s : String) (c : Char) : Option (String × String) :=
  let reversed := s.toList.reverse
  match reversed.dropWhile (· != c) with
  | [] => none
  | _ :: before =>
      some (String.ofList before.reverse,
        String.ofList (reversed.takeWhile (· != c)).reverse)

/-- `Path::with_extension`, of a file name. -/
def withExtension (name extension : String) : String :=
  let stem :=
    match rsplitOnce name '.' with
    -- A name that only begins with a dot has no extension.
    | some (before, _) => if before.isEmpty then name else before
    | none => name
  stem ++ "." ++ extension

/-- The values of an `i32`. -/
def IsI32 (n : Int) : Prop := -2 ^ 31 ≤ n ∧ n < 2 ^ 31

instance (n : Int) : Decidable (IsI32 n) := inferInstanceAs (Decidable (_ ∧ _))

private def parseDigits (digits : List Char) : Option Nat :=
  if !digits.isEmpty && digits.all Char.isDigit then some (Nat.ofDigitChars 10 digits 0) else none

/-- `str::parse::<i32>`: a sign of either kind is read, and leading zeros are. -/
def parseI32 (s : String) : Option Int :=
  let value : Option Int :=
    match s.toList with
    | '+' :: digits => (parseDigits digits).map Int.ofNat
    | '-' :: digits => (parseDigits digits).map fun n : Nat => -(n : Int)
    | digits => (parseDigits digits).map Int.ofNat
  value.filter fun n => decide (IsI32 n)

/-! ## What was written is read -/

theorem startsWith_self_append (start rest : String) : startsWith (start ++ rest) start = true := by
  rw [startsWith, String.toList_append, List.isPrefixOf_iff_prefix]
  exact List.prefix_append _ _

@[simp] theorem stripPrefix_append (start rest : String) :
    stripPrefix (start ++ rest) start = some rest := by
  rw [stripPrefix, if_pos (startsWith_self_append start rest), String.toList_append,
    ← String.length_toList, List.drop_left, String.ofList_toList]

theorem endsWith_append (rest stop : String) : endsWith (rest ++ stop) stop = true := by
  rw [endsWith, String.toList_append, List.isSuffixOf_iff_suffix]
  exact List.suffix_append _ _

theorem endsWith_iff {s stop : String} : endsWith s stop = true ↔ ∃ rest, s = rest ++ stop := by
  constructor
  · intro h
    obtain ⟨cs, hcs⟩ := List.isSuffixOf_iff_suffix.mp h
    refine ⟨String.ofList cs, ?_⟩
    rw [← String.toList_inj, String.toList_append, String.toList_ofList, hcs]
  · rintro ⟨rest, rfl⟩
    exact endsWith_append rest stop

@[simp] theorem stripSuffix_append (rest stop : String) :
    stripSuffix (rest ++ stop) stop = some rest := by
  have hlength : (rest ++ stop).length - stop.length = rest.toList.length := by
    rw [String.length_append, Nat.add_sub_cancel, String.length_toList]
  rw [stripSuffix, if_pos (endsWith_append rest stop), hlength, String.toList_append,
    List.take_left, String.ofList_toList]

/-- Behind the last separator there is none. -/
theorem rsplitOnce_append {c : Char} (before : String) {after : String}
    (hafter : c ∉ after.toList) :
    rsplitOnce (before ++ String.singleton c ++ after) c = some (before, after) := by
  have hreversed : (before ++ String.singleton c ++ after).toList.reverse =
      after.toList.reverse ++ c :: before.toList.reverse := by
    simp
  have hne : ∀ x ∈ after.toList.reverse, (x != c) = true := by
    intro x hx
    rw [bne_iff_ne]
    rintro rfl
    exact hafter (List.mem_reverse.mp hx)
  unfold rsplitOnce
  rw [hreversed]
  dsimp only
  rw [List.dropWhile_append_of_pos hne, List.takeWhile_append_of_pos hne]
  simp

theorem withExtension_append {stem old new : String} (hstem : stem ≠ "")
    (hold : '.' ∉ old.toList) :
    withExtension (stem ++ "." ++ old) new = stem ++ "." ++ new := by
  have hsplit : rsplitOnce (stem ++ "." ++ old) '.' = some (stem, old) :=
    rsplitOnce_append stem hold
  have hne : stem.isEmpty = false := by
    simp [hstem]
  simp [withExtension, hsplit, hne]

private theorem parseDigits_repr (n : Nat) : parseDigits n.repr.toList = some n := by
  have hdigits : (Nat.toDigits 10 n).all Char.isDigit = true :=
    List.all_eq_true.mpr fun c hc => Nat.isDigit_of_mem_toDigits (by decide) (by decide) hc
  have hne : (Nat.toDigits 10 n).isEmpty = false :=
    List.isEmpty_eq_false_iff.mpr Nat.toDigits_ne_nil
  rw [Nat.toList_repr, parseDigits, hdigits, hne, Nat.ofDigitChars_ten_toDigits]
  rfl

/-- The number a decimal begins with is a digit, not a sign. -/
private theorem repr_toList_eq_cons (n : Nat) :
    ∃ c cs, n.repr.toList = c :: cs ∧ c ≠ '+' ∧ c ≠ '-' := by
  rw [Nat.toList_repr]
  cases hdigits : Nat.toDigits 10 n with
  | nil => exact absurd hdigits Nat.toDigits_ne_nil
  | cons c cs =>
      have hc : c.isDigit = true :=
        Nat.isDigit_of_mem_toDigits (b := 10) (n := n) (by decide) (by decide) (by simp [hdigits])
      refine ⟨c, cs, rfl, ?_, ?_⟩
      · rintro rfl
        exact absurd hc (by decide)
      · rintro rfl
        exact absurd hc (by decide)

/-- What `format!` writes of an `i32` is read back, negative numbers included. -/
theorem parseI32_toString {n : Int} (hn : IsI32 n) : parseI32 (toString n) = some n := by
  cases n with
  | ofNat n =>
      obtain ⟨c, cs, hcs, hplus, hminus⟩ := repr_toList_eq_cons n
      have hdigits : parseDigits (c :: cs) = some n := hcs ▸ parseDigits_repr n
      have hlist : (toString (Int.ofNat n)).toList = c :: cs := hcs
      unfold parseI32
      rw [hlist]
      split
      · next heq => exact absurd (List.cons.inj heq).1 hplus
      · next heq => exact absurd (List.cons.inj heq).1 hminus
      · rw [hdigits]
        exact Option.filter_some_pos (decide_eq_true hn)
  | negSucc n =>
      have hlist : (toString (Int.negSucc n)).toList = '-' :: (n + 1).repr.toList := by
        show ("-" ++ (n + 1).repr).toList = _
        simp
      unfold parseI32
      rw [hlist]
      simp only [parseDigits_repr]
      exact Option.filter_some_pos (decide_eq_true hn)

example : parseI32 "-2147483648" = some (-2147483648) := by decide

example : parseI32 "+007" = some 7 ∧ parseI32 "2147483648" = none ∧ parseI32 "-" = none := by decide

end Rustrak.Core
