import Mathlib.Data.List.Basic
import Mathlib.Tactic.Common

/-!
# Base64

Three bytes are four symbols of an alphabet.  What is left over at the end is filled up with a
padding character.
-/

namespace Rustrak.Encoding.Base64

variable (symbol : ℕ → Char) (pad : Char)

/-- The symbols of 24 bits. -/
def group (a b c : UInt8) : List Char :=
  let bits := a.toNat * 65536 + b.toNat * 256 + c.toNat
  [symbol (bits / 262144), symbol (bits / 4096 % 64), symbol (bits / 64 % 64), symbol (bits % 64)]

def encode : List UInt8 → List Char
  | a :: b :: c :: rest => group symbol a b c ++ encode rest
  | [a, b] => (group symbol a b 0).take 3 ++ [pad]
  | [a] => (group symbol a 0 0).take 2 ++ [pad, pad]
  | [] => []

variable {symbol pad} {first second : List UInt8}

theorem encode_append (h : 3 ∣ first.length) :
    encode symbol pad (first ++ second) = encode symbol pad first ++ encode symbol pad second := by
  induction first using encode.induct with
  | case1 a b c rest ih =>
      have hrest : 3 ∣ rest.length := by
        simp only [List.length_cons] at h
        omega
      simp only [List.cons_append, encode, ih hrest, List.append_assoc]
  | case2 a b =>
      simp only [List.length_cons, List.length_nil] at h
      omega
  | case3 a =>
      simp only [List.length_cons, List.length_nil] at h
      omega
  | case4 => rfl

theorem mem_group {char : Char} {a b c : UInt8} (h : char ∈ group symbol a b c) :
    ∃ n, char = symbol n := by
  simp only [group, List.mem_cons, List.not_mem_nil, or_false] at h
  rcases h with rfl | rfl | rfl | rfl
  all_goals exact ⟨_, rfl⟩

/-- Padding comes last, and at most twice. -/
theorem encode_eq_append_replicate (hpad : ∀ n, symbol n ≠ pad) (data : List UInt8) :
    ∃ body count, pad ∉ body ∧ count ≤ 2 ∧ (3 ∣ data.length → count = 0) ∧
      encode symbol pad data = body ++ List.replicate count pad := by
  have hgroup : ∀ a b c, pad ∉ group symbol a b c := by
    intro a b c hmem
    obtain ⟨n, hn⟩ := mem_group hmem
    exact hpad n hn.symm
  induction data using encode.induct with
  | case1 a b c rest ih =>
      obtain ⟨body, count, hbody, hcount, hwhole, heq⟩ := ih
      refine ⟨group symbol a b c ++ body, count, ?_, hcount, fun h => hwhole ?_, ?_⟩
      · simp [hgroup, hbody]
      · simp only [List.length_cons] at h
        omega
      · rw [encode, heq, List.append_assoc]
  | case2 a b =>
      refine ⟨(group symbol a b 0).take 3, 1, fun h => hgroup _ _ _ (List.mem_of_mem_take h), by omega,
        fun h => ?_, rfl⟩
      simp only [List.length_cons, List.length_nil] at h
      omega
  | case3 a =>
      refine ⟨(group symbol a 0 0).take 2, 2, fun h => hgroup _ _ _ (List.mem_of_mem_take h), by omega,
        fun h => ?_, rfl⟩
      simp only [List.length_cons, List.length_nil] at h
      omega
  | case4 => exact ⟨[], 0, List.not_mem_nil, by omega, fun _ => rfl, rfl⟩

theorem pad_notMem_encode (hpad : ∀ n, symbol n ≠ pad) {data : List UInt8} (h : 3 ∣ data.length) :
    pad ∉ encode symbol pad data := by
  obtain ⟨body, count, hbody, -, hcount, heq⟩ := encode_eq_append_replicate hpad data
  rw [heq, hcount h, List.replicate_zero, List.append_nil]
  exact hbody

/-- The alphabet with `+` and `/`. -/
def standardAlphabet : List Char :=
  "ABCDEFGHIJKLMNOPQRSTUVWXYZabcdefghijklmnopqrstuvwxyz0123456789+/".toList

def standardSymbol (n : ℕ) : Char := standardAlphabet.getD n 'A'

theorem standardSymbol_ne_pad (n : ℕ) : standardSymbol n ≠ '=' := by
  have hpad : '=' ∉ standardAlphabet := by decide
  rw [standardSymbol, List.getD_eq_getElem?_getD]
  cases hget : standardAlphabet[n]? with
  | none => decide
  | some char =>
      intro heq
      rw [Option.getD_some] at heq
      exact hpad (heq ▸ List.mem_of_getElem? hget)

end Rustrak.Encoding.Base64
