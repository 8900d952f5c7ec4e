import Mathlib.Data.Nat.Log
import Mathlib.Tactic.Ring

/-!
# Whole numbers of a limited precision

A binary format of `precision` digits holds a whole number if its digits from the first one
that is not zero to the last fit in them.  Every other number is rounded to the nearest that
is held, the even multiple of two that are as near.

Stepping down by one, up and down again comes back to where the first step led, except from
`2 ^ precision + 2` (`nearest_back_iff`): there the first step is a tie between two numbers
that the format holds, and goes to the lower, below which the format holds every number.
-/

namespace Rustrak.Rounding

/-- The multiple of `spacing` nearest to a number. -/
def toMultiple (spacing m : ℕ) : ℕ :=
  let q := m / spacing
  if 2 * (m % spacing) < spacing ∨ 2 * (m % spacing) = spacing ∧ q % 2 = 0 then q * spacing
  else (q + 1) * spacing

/-- The nearest number that the format holds. -/
def nearest (precision m : ℕ) : ℕ := toMultiple (2 ^ (m.log2 + 1 - precision)) m

variable {precision spacing m n q r e : ℕ}

/-! ## Multiples -/

theorem toMultiple_add (hr : r < spacing) : toMultiple spacing (q * spacing + r) =
    if 2 * r < spacing ∨ 2 * r = spacing ∧ q % 2 = 0 then q * spacing
    else (q + 1) * spacing := by
  have hpos : 0 < spacing := Nat.zero_lt_of_lt hr
  have hdiv : (q * spacing + r) / spacing = q := by
    rw [Nat.add_comm, Nat.add_mul_div_right _ _ hpos, Nat.div_eq_of_lt hr, Nat.zero_add]
  have hmod : (q * spacing + r) % spacing = r := by
    rw [Nat.add_comm, Nat.add_mul_mod_self_right, Nat.mod_eq_of_lt hr]
  rw [toMultiple, hdiv, hmod]

theorem toMultiple_eq_self (hpos : 0 < spacing) (h : spacing ∣ m) :
    toMultiple spacing m = m := by
  obtain ⟨q, rfl⟩ := h
  have hadd := @toMultiple_add spacing q 0 hpos
  rw [Nat.add_zero, if_pos (.inl (by omega))] at hadd
  rw [Nat.mul_comm, hadd]

/-! ## What the format holds -/

theorem nearest_of_dvd (h : 2 ^ (m.log2 + 1 - precision) ∣ m) : nearest precision m = m :=
  toMultiple_eq_self (Nat.two_pow_pos _) h

theorem nearest_of_lt (h : m < 2 ^ precision) : nearest precision m = m := by
  apply nearest_of_dvd
  by_cases hm : m = 0
  · rw [hm]
    exact dvd_zero _
  · have hlog : m.log2 + 1 - precision = 0 := by
      have := (Nat.log2_lt hm).mpr h
      omega
    rw [hlog]
    exact one_dvd m

/-- The spacing of the numbers near one, by its length in digits. -/
theorem nearest_eq (hlow : 2 ^ (precision + e) ≤ 2 * m) (hhigh : m < 2 ^ (precision + e)) :
    nearest precision m = toMultiple (2 ^ e) m := by
  have hm : m ≠ 0 := by
    have := Nat.two_pow_pos (precision + e)
    omega
  have hlog : m.log2 + 1 - precision = e := by
    have hlt := (Nat.log2_lt hm).mpr hhigh
    have hle : precision + e ≤ m.log2 + 1 := by
      have hlt' := Nat.lt_log2_self (n := m)
      have hpow : 2 ^ (precision + e) < 2 ^ (m.log2 + 2) := by
        rw [Nat.pow_succ 2 (m.log2 + 1)]
        omega
      have := (Nat.pow_lt_pow_iff_right (by decide)).mp hpow
      omega
    omega
  rw [nearest, hlog]

theorem nearest_mul (hq : q < 2 ^ precision) : nearest precision (q * 2 ^ e) = q * 2 ^ e := by
  by_cases hzero : q = 0
  · rw [hzero, Nat.zero_mul]
    exact nearest_of_lt (Nat.two_pow_pos _)
  · apply nearest_of_dvd
    refine (pow_dvd_pow 2 ?_).trans (dvd_mul_left _ _)
    have hne : q * 2 ^ e ≠ 0 := Nat.mul_ne_zero hzero (Nat.two_pow_pos e).ne'
    have hlt : (q * 2 ^ e).log2 < precision + e := by
      rw [Nat.log2_lt hne, Nat.pow_add]
      exact Nat.mul_lt_mul_of_pos_right hq (Nat.two_pow_pos e)
    omega

/-- A number that is rounded to is held. -/
theorem nearest_nearest (hprecision : 0 < precision) :
    nearest precision (nearest precision m) = nearest precision m := by
  have hheld : ∀ q ≤ 2 ^ precision, ∀ e,
      nearest precision (q * 2 ^ e) = q * 2 ^ e := by
    intro q hq e
    rcases Nat.lt_or_eq_of_le hq with hlt | rfl
    · exact nearest_mul hlt
    · have hone := @nearest_mul precision 1 (precision + e) (Nat.one_lt_two_pow hprecision.ne')
      rwa [Nat.one_mul, Nat.pow_add] at hone
  set e := m.log2 + 1 - precision with he
  have hq : m / 2 ^ e < 2 ^ precision := by
    rw [Nat.div_lt_iff_lt_mul (Nat.two_pow_pos e), ← Nat.pow_add]
    have hpow := Nat.pow_le_pow_right (n := 2) (by decide) (show m.log2 + 1 ≤ precision + e by omega)
    exact Nat.lt_of_lt_of_le Nat.lt_log2_self hpow
  have hcases : nearest precision m = m / 2 ^ e * 2 ^ e ∨
      nearest precision m = (m / 2 ^ e + 1) * 2 ^ e := by
    rw [nearest, ← he, toMultiple]
    split_ifs
    · exact .inl rfl
    · exact .inr rfl
  rcases hcases with hdown | hup
  · rw [hdown, hheld _ hq.le]
  · rw [hup, hheld _ hq]

/-- Rounding does not lead below a power of two. -/
theorem le_nearest (hprecision : 0 < precision) {j : ℕ} (h : 2 ^ j ≤ m) :
    2 ^ j ≤ nearest precision m := by
  have hm : m ≠ 0 := by
    have := Nat.two_pow_pos j
    omega
  have hlog := (Nat.le_log2 hm).mpr h
  by_cases hsmall : m < 2 ^ precision
  · rwa [nearest_of_lt hsmall]
  · have hlarge := (Nat.le_log2 hm).mpr (Nat.le_of_not_lt hsmall)
    obtain ⟨e, he⟩ : ∃ e, m.log2 + 1 - precision = e := ⟨_, rfl⟩
    have hsplit : m.log2 = (precision - 1) + e := by omega
    have hq : 2 ^ (precision - 1) ≤ m / 2 ^ e := by
      rw [Nat.le_div_iff_mul_le (Nat.two_pow_pos e), ← Nat.pow_add, ← hsplit]
      exact Nat.log2_self_le hm
    have hdown : 2 ^ j ≤ m / 2 ^ e * 2 ^ e := by
      calc 2 ^ j ≤ 2 ^ m.log2 := Nat.pow_le_pow_right (by decide) hlog
        _ = 2 ^ (precision - 1) * 2 ^ e := by rw [hsplit, Nat.pow_add]
        _ ≤ m / 2 ^ e * 2 ^ e := Nat.mul_le_mul_right _ hq
    rw [nearest, he, toMultiple]
    split_ifs
    · exact hdown
    · exact hdown.trans (Nat.mul_le_mul_right _ (Nat.le_succ _))

/-! ## One down and one up -/

/-- A number past the first gap, by the digits that are held. -/
theorem exists_digits (hlarge : 2 ^ precision ≤ n) (hheld : nearest precision n = n) :
    ∃ q e, n = q * 2 ^ (e + 1) ∧ q < 2 ^ precision ∧ 2 ^ precision ≤ 2 * q := by
  have hn : n ≠ 0 := by
    have := Nat.two_pow_pos precision
    omega
  obtain ⟨e, he⟩ : ∃ e, n.log2 + 1 - precision = e + 1 := by
    have := (Nat.le_log2 hn).mpr hlarge
    exact ⟨n.log2 - precision, by omega⟩
  have hdvd : 2 ^ (e + 1) ∣ n := by
    rw [nearest, he, toMultiple] at hheld
    split_ifs at hheld
    · exact ⟨_, by rw [Nat.mul_comm]; exact hheld.symm⟩
    · exact ⟨_, by rw [Nat.mul_comm]; exact hheld.symm⟩
  obtain ⟨q, hq⟩ := hdvd
  have hpos := Nat.two_pow_pos (e + 1)
  have hdigits : n.log2 + 1 = precision + (e + 1) := by omega
  refine ⟨q, e, by rw [hq, Nat.mul_comm], ?_, ?_⟩
  · have hlt := Nat.lt_log2_self (n := n)
    rw [hdigits, Nat.pow_add, hq, Nat.mul_comm] at hlt
    exact Nat.lt_of_mul_lt_mul_right hlt
  · have hle := Nat.log2_self_le hn
    have hdouble : 2 ^ precision * 2 ^ (e + 1) ≤ 2 * q * 2 ^ (e + 1) := by
      calc 2 ^ precision * 2 ^ (e + 1) = 2 * 2 ^ n.log2 := by
            rw [← Nat.pow_add, ← hdigits, Nat.pow_succ, Nat.mul_comm]
        _ ≤ 2 * n := Nat.mul_le_mul_left 2 hle
        _ = 2 * q * 2 ^ (e + 1) := by rw [hq]; ring
    exact Nat.le_of_mul_le_mul_right hdouble hpos

/-- Where the gaps are four or more, one is less than half of them. -/
theorem nearest_succ_of_wide (hq : q < 2 ^ precision) (hlow : 2 ^ precision ≤ 2 * q) :
    nearest precision (q * 2 ^ (e + 2) + 1) = q * 2 ^ (e + 2) := by
  have hspacing : 4 ≤ 2 ^ (e + 2) := by
    have := Nat.two_pow_pos e
    rw [Nat.pow_add]
    omega
  have hmul := Nat.mul_le_mul_right (2 ^ (e + 2)) hlow
  have hmul' := Nat.mul_le_mul_right (2 ^ (e + 2)) (show q + 1 ≤ 2 ^ precision from hq)
  rw [← Nat.pow_add] at hmul hmul'
  rw [Nat.add_mul, Nat.one_mul] at hmul'
  rw [Nat.mul_assoc] at hmul
  rw [nearest_eq (e := e + 2) (by omega) (by omega), toMultiple_add (by omega),
    if_pos (.inl (by omega))]

/-- Below, the gap may be half as wide: a tie then goes up. -/
theorem nearest_pred_of_wide (hprecision : 0 < precision) (hq : q < 2 ^ precision)
    (hlow : 2 ^ precision ≤ 2 * q) :
    nearest precision (q * 2 ^ (e + 2) - 1) = q * 2 ^ (e + 2) := by
  obtain ⟨half, hhalf⟩ : ∃ half, 2 ^ precision = 2 * half :=
    ⟨2 ^ (precision - 1), by rw [Nat.mul_comm, ← Nat.pow_succ]; congr 1; omega⟩
  obtain ⟨p, rfl⟩ : ∃ p, q = p + 1 := ⟨q - 1, by have := Nat.two_pow_pos precision; omega⟩
  have hpos := Nat.two_pow_pos e
  by_cases hfirst : p + 1 = half
  · -- the number is a power of two
    have hspacing : 2 ≤ 2 ^ (e + 1) := by
      rw [Nat.pow_succ]
      omega
    have hdouble : (p + 1) * 2 ^ (e + 2) = 2 ^ precision * 2 ^ (e + 1) := by
      rw [hhalf, hfirst]
      ring
    have hsplit : (p + 1) * 2 ^ (e + 2) - 1 =
        (2 * p + 1) * 2 ^ (e + 1) + (2 ^ (e + 1) - 1) := by
      have hring : (p + 1) * 2 ^ (e + 2) = (2 * p + 1) * 2 ^ (e + 1) + 2 ^ (e + 1) := by ring
      omega
    have hmul : 2 ^ (e + 1) ≤ 2 ^ precision * 2 ^ (e + 1) :=
      Nat.le_mul_of_pos_left _ (Nat.two_pow_pos precision)
    have hpow := Nat.pow_add 2 precision (e + 1)
    rw [nearest_eq (e := e + 1) (by omega) (by omega), hsplit, toMultiple_add (by omega), if_neg (by omega)]
    ring
  · have hspacing : 4 ≤ 2 ^ (e + 2) := by
      rw [Nat.pow_add]
      omega
    have hsplit : (p + 1) * 2 ^ (e + 2) - 1 = p * 2 ^ (e + 2) + (2 ^ (e + 2) - 1) := by
      rw [Nat.add_mul]
      omega
    have hmul := Nat.mul_le_mul_right (2 ^ (e + 2)) (show half + 1 ≤ p + 1 by omega)
    have hmul' := Nat.mul_le_mul_right (2 ^ (e + 2)) hq.le
    rw [hhalf] at hmul'
    rw [Nat.add_mul, Nat.one_mul] at hmul
    have hpow : 2 ^ (precision + (e + 2)) = 2 * (half * 2 ^ (e + 2)) := by
      rw [Nat.pow_add, hhalf]
      ring
    rw [Nat.mul_assoc] at hmul'
    rw [nearest_eq (e := e + 2) (by omega) (by omega), hsplit, toMultiple_add (by omega),
      if_neg (by omega)]

/-- Where the gaps are two, every odd number is a tie. -/
theorem nearest_odd (hlow : 2 ^ precision ≤ 2 * q) (hq : q < 2 ^ precision) :
    nearest precision (q * 2 + 1) = if q % 2 = 0 then q * 2 else (q + 1) * 2 := by
  have hpow : 2 ^ (precision + 1) = 2 * 2 ^ precision := by rw [Nat.pow_succ, Nat.mul_comm]
  have hadd := @toMultiple_add 2 q 1 (by decide)
  rw [nearest_eq (e := 1) (by omega) (by omega), Nat.pow_one, hadd]
  congr 1
  simp

/-- One down, up and down again from a number that is held. -/
theorem nearest_back_iff (hprecision : 1 < precision) (hone : 1 ≤ n)
    (hheld : nearest precision n = n) :
    nearest precision (nearest precision (nearest precision (n - 1) + 1) - 1) =
        nearest precision (n - 1) ↔ n ≠ 2 ^ precision + 2 := by
  obtain ⟨quarter, hquarter⟩ : ∃ quarter, 2 ^ precision = 4 * quarter :=
    ⟨2 ^ (precision - 2), by
      rw [show (4 : ℕ) = 2 ^ 2 from rfl, ← Nat.pow_add]; congr 1; omega⟩
  have hpos := Nat.two_pow_pos precision
  by_cases hsmall : n ≤ 2 ^ precision
  · have hdown : nearest precision (n - 1) = n - 1 := nearest_of_lt (by omega)
    rw [hdown, Nat.sub_add_cancel hone, hheld, hdown]
    exact iff_of_true rfl (by omega)
  · obtain ⟨q, e, rfl, hq, hlow⟩ := exists_digits (by omega) hheld
    cases e with
    | zero =>
        rw [Nat.zero_add, Nat.pow_one] at hsmall ⊢
        obtain ⟨p, rfl⟩ : ∃ p, q = p + 1 := ⟨q - 1, by omega⟩
        have hdown := @nearest_odd precision p (by omega) (by omega)
        rw [show (p + 1) * 2 - 1 = p * 2 + 1 by omega, hdown]
        by_cases heven : p % 2 = 0
        · rw [if_pos heven, hdown, if_pos heven]
          by_cases hfirst : p * 2 = 2 ^ precision
          · -- the step down leads to where the gaps are one
            rw [nearest_of_lt (by omega)]
            omega
          · obtain ⟨p, rfl⟩ : ∃ r, p = r + 1 := ⟨p - 1, by omega⟩
            have hagain := @nearest_odd precision p (by omega) (by omega)
            rw [show (p + 1) * 2 - 1 = p * 2 + 1 by omega, hagain, if_neg (by omega)]
            omega
        · have hup := @nearest_odd precision (p + 1) hlow hq
          rw [if_neg heven, hup, if_pos (by omega),
            show (p + 1) * 2 - 1 = p * 2 + 1 by omega, hdown, if_neg heven]
          omega
    | succ e =>
        have hdown := @nearest_pred_of_wide precision q e (by omega) hq hlow
        rw [hdown, nearest_succ_of_wide hq hlow, hdown]
        refine iff_of_true rfl ?_
        change q * 2 ^ (e + 2) ≠ 2 ^ precision + 2
        have hwide : q * 4 ≤ q * 2 ^ (e + 2) := by
          apply Nat.mul_le_mul_left
          rw [Nat.pow_add]
          have := Nat.two_pow_pos e
          omega
        omega

end Rustrak.Rounding
