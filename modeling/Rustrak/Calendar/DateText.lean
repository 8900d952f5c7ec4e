import Mathlib.Data.List.Lex
import Mathlib.Data.Nat.Digits.Defs
import Rustrak.Calendar.Civil

/-!
# Dates as text

A day written as `YYYY-MM-DD`, and a time of day as `hh:mm:ss`.  Texts are compared character by
character, and for years of four digits that is the order of the days (`dateText_lt_iff`).
-/

namespace Rustrak.Calendar

/-! ## Digits -/

/-- The last `width` digits of a number. -/
def digits : ℕ → ℕ → List Char
  | 0, _ => []
  | width + 1, n => digits width (n / 10) ++ [Nat.digitChar (n % 10)]

@[simp] theorem length_digits (width n : ℕ) : (digits width n).length = width := by
  induction width generalizing n with
  | zero => rfl
  | succ width ih => rw [digits, List.length_append, ih, List.length_singleton]

/-- Texts that begin equally long are compared by their beginnings first. -/
theorem append_lt_append_iff {a b s t : List Char} (h : a.length = b.length) :
    a ++ s < b ++ t ↔ a < b ∨ a = b ∧ s < t := by
  induction a generalizing b with
  | nil =>
      obtain rfl := List.length_eq_zero_iff.mp h.symm
      simp
  | cons c a ih =>
      cases b with
      | nil => simp at h
      | cons d b =>
          rw [List.cons_append, List.cons_append, List.cons_lt_cons_iff, List.cons_lt_cons_iff,
            ih (by simpa using h), List.cons.injEq]
          tauto

theorem digitChar_lt_iff {m n : ℕ} (hm : m < 10) (hn : n < 10) :
    Nat.digitChar m < Nat.digitChar n ↔ m < n := by
  have hall : ∀ m < 10, ∀ n < 10, (Nat.digitChar m < Nat.digitChar n ↔ m < n) := by decide
  exact hall m hm n hn

/-- Numbers of as many digits are ordered as they are written. -/
theorem digits_lt_iff {width m n : ℕ} (hm : m < 10 ^ width) (hn : n < 10 ^ width) :
    digits width m < digits width n ↔ m < n := by
  induction width generalizing m n with
  | zero => simp_all [digits]
  | succ width ih =>
      rw [Nat.pow_succ] at hm hn
      have hm' : m / 10 < 10 ^ width := by omega
      have hn' : n / 10 < 10 ^ width := by omega
      have heq : digits width (m / 10) = digits width (n / 10) ↔ m / 10 = n / 10 := by
        refine ⟨fun h => ?_, congrArg _⟩
        apply le_antisymm
        · exact not_lt.mp fun hlt => List.lt_irrefl _ (h ▸ (ih hn' hm').mpr hlt)
        · exact not_lt.mp fun hlt => List.lt_irrefl _ (h ▸ (ih hm' hn').mpr hlt)
      rw [digits, digits, append_lt_append_iff (by simp), ih hm' hn', heq,
        List.cons_lt_cons_iff,
        digitChar_lt_iff (Nat.mod_lt m (by decide)) (Nat.mod_lt n (by decide))]
      simp only [List.not_lt_nil, and_false, or_false]
      omega

theorem digits_inj {width m n : ℕ} (hm : m < 10 ^ width) (hn : n < 10 ^ width) :
    digits width m = digits width n ↔ m = n := by
  refine ⟨fun h => ?_, congrArg _⟩
  apply le_antisymm
  · exact not_lt.mp fun hlt => List.lt_irrefl _ (h ▸ (digits_lt_iff hn hm).mpr hlt)
  · exact not_lt.mp fun hlt => List.lt_irrefl _ (h ▸ (digits_lt_iff hm hn).mpr hlt)

/-! ## Days -/

/-- The year of a month. -/
def yearOf (month : ℤ) : ℤ := (month + 2) / 12

/-- Which month of its year a month is, from 1 on. -/
def monthOfYear (month : ℤ) : ℤ := (month + 2) % 12 + 1

/-- The day of its month that a day is, from 1 on. -/
def dayOfMonth (day : ℤ) : ℤ := day - firstDay (monthOf day) + 1

/-- The year of a day. -/
def yearOfDay (day : ℤ) : ℤ := yearOf (monthOf day)

theorem firstDay_lt_succ (month : ℤ) : firstDay month < firstDay (month + 1) := by
  have hlength := le_monthLength month
  unfold monthLength at hlength
  omega

theorem firstDay_lt_iff {month month' : ℤ} : firstDay month < firstDay month' ↔ month < month' :=
  (strictMono_int_of_lt_succ firstDay_lt_succ).lt_iff_lt

theorem firstDay_le (month : ℤ) :
    4800 * (firstDay month + 719468) ≤ 146097 * month + 19200 := by
  unfold firstDay
  omega

theorem firstDay_monthOf_le (day : ℤ) : firstDay (monthOf day) ≤ day := by
  unfold monthOf
  dsimp only
  split_ifs with hbefore hafter
  · have hmonth := firstDay_le (4800 * (day + 719468) / 146097 - 1)
    omega
  · exact hafter
  · omega

theorem monthOf_mono {day day' : ℤ} (h : day ≤ day') : monthOf day ≤ monthOf day' := by
  have hlow := firstDay_monthOf_le day
  have hhigh := lt_firstDay_monthOf_succ day'
  have hmonths := firstDay_lt_iff.mp ((hlow.trans h).trans_lt hhigh)
  omega

theorem monthLength_le (month : ℤ) : monthLength month ≤ 31 := by
  have hlow := Int.emod_nonneg month (by decide : (12 : ℤ) ≠ 0)
  have hhigh := Int.emod_lt_of_pos month (by decide : (0 : ℤ) < 12)
  unfold monthLength firstDay
  by_cases hlast : month % 12 = 11
  · have hyear : (month + 1) / 12 = month / 12 + 1 := by omega
    have hmonth : (month + 1) % 12 = 0 := by omega
    rw [hyear, hmonth, hlast]
    omega
  · have hyear : (month + 1) / 12 = month / 12 := by omega
    have hmonth : (month + 1) % 12 = month % 12 + 1 := by omega
    rw [hyear, hmonth]
    omega

theorem dayOfMonth_bounds (day : ℤ) : 1 ≤ dayOfMonth day ∧ dayOfMonth day ≤ 31 := by
  have hlow := firstDay_monthOf_le day
  have hhigh := lt_firstDay_monthOf_succ day
  have hlength := monthLength_le (monthOf day)
  unfold monthLength at hlength
  unfold dayOfMonth
  omega

/-- Days are ordered by month, and in a month by the day of it. -/
theorem day_lt_iff {day day' : ℤ} : day < day' ↔ monthOf day < monthOf day' ∨
    monthOf day = monthOf day' ∧ dayOfMonth day < dayOfMonth day' := by
  unfold dayOfMonth
  constructor
  · intro h
    rcases (monthOf_mono h.le).lt_or_eq with hlt | heq
    · exact .inl hlt
    · rw [heq]
      exact .inr ⟨rfl, by omega⟩
  · rintro (hlt | ⟨heq, hday⟩)
    · by_contra hle
      have := monthOf_mono (not_lt.mp hle)
      omega
    · rw [heq] at hday
      omega

theorem monthOfYear_bounds (month : ℤ) : 1 ≤ monthOfYear month ∧ monthOfYear month ≤ 12 := by
  unfold monthOfYear
  omega

/-- Months are ordered by year, and in a year by the month of it. -/
theorem month_lt_iff {month month' : ℤ} : month < month' ↔ yearOf month < yearOf month' ∨
    yearOf month = yearOf month' ∧ monthOfYear month < monthOfYear month' := by
  unfold yearOf monthOfYear
  omega

/-! ## Texts -/

/-- A year of four digits, and any other with its sign. -/
def yearText (year : ℤ) : List Char :=
  if 0 ≤ year ∧ year ≤ 9999 then digits 4 year.toNat
  else
    (if year < 0 then '-' else '+') ::
      (if year.natAbs < 10000 then digits 4 year.natAbs else Nat.toDigits 10 year.natAbs)

def dateText (day : ℤ) : List Char :=
  yearText (yearOfDay day) ++ '-' :: (digits 2 (monthOfYear (monthOf day)).toNat ++
    '-' :: digits 2 (dayOfMonth day).toNat)

/-- A time of day, in seconds. -/
def timeText (second : ℕ) : List Char :=
  digits 2 (second / 3600) ++ ':' :: (digits 2 (second / 60 % 60) ++ ':' :: digits 2 (second % 60))

/-- The year of a day has four digits. -/
def FourDigits (day : ℤ) : Prop := 0 ≤ yearOfDay day ∧ yearOfDay day ≤ 9999

instance (day : ℤ) : Decidable (FourDigits day) := inferInstanceAs (Decidable (_ ∧ _))

theorem digits_append_lt_iff {width m n : ℕ} (hm : m < 10 ^ width) (hn : n < 10 ^ width)
    {s t : List Char} : digits width m ++ s < digits width n ++ t ↔ m < n ∨ m = n ∧ s < t := by
  rw [append_lt_append_iff (by simp), digits_lt_iff hm hn, digits_inj hm hn]

theorem cons_lt_cons_self_iff {c : Char} {s t : List Char} : c :: s < c :: t ↔ s < t := by
  rw [List.cons_lt_cons_iff]
  simp

/-- Times of day are ordered as they are written. -/
theorem timeText_lt_iff {m n : ℕ} (hm : m < 86400) (hn : n < 86400) :
    timeText m < timeText n ↔ m < n := by
  rw [timeText, timeText, digits_append_lt_iff (by omega) (by omega), cons_lt_cons_self_iff,
    digits_append_lt_iff (by omega) (by omega), cons_lt_cons_self_iff,
    digits_lt_iff (by omega) (by omega)]
  omega

/-- Days of years of four digits are ordered as they are written, before anything else. -/
theorem dateText_append_lt_iff {day day' : ℤ} (h : FourDigits day) (h' : FourDigits day')
    {s t : List Char} :
    dateText day ++ s < dateText day' ++ t ↔ day < day' ∨ day = day' ∧ s < t := by
  have hmonth := monthOfYear_bounds (monthOf day)
  have hmonth' := monthOfYear_bounds (monthOf day')
  have hday := dayOfMonth_bounds day
  have hday' := dayOfMonth_bounds day'
  obtain ⟨hlow, hhigh⟩ := h
  obtain ⟨hlow', hhigh'⟩ := h'
  have heq : day = day' ↔ monthOf day = monthOf day' ∧ dayOfMonth day = dayOfMonth day' := by
    unfold dayOfMonth
    constructor
    · rintro rfl
      exact ⟨rfl, rfl⟩
    · rintro ⟨hm, hd⟩
      rw [hm] at hd
      omega
  rw [dateText, dateText, yearText, yearText, if_pos ⟨hlow, hhigh⟩, if_pos ⟨hlow', hhigh'⟩]
  simp only [List.append_assoc, List.cons_append]
  rw [digits_append_lt_iff (by omega) (by omega), cons_lt_cons_self_iff,
    digits_append_lt_iff (by omega) (by omega), cons_lt_cons_self_iff,
    digits_append_lt_iff (by omega) (by omega), day_lt_iff, month_lt_iff, heq]
  unfold yearOfDay at *
  unfold yearOf monthOfYear at *
  by_cases hrest : s < t
  · simp only [hrest, and_true]
    omega
  · simp only [hrest, and_false, or_false]
    omega

/-- A sign stands before every digit. -/
theorem dateText_append_lt_of_not_fourDigits {day day' : ℤ} (h : ¬FourDigits day)
    (h' : FourDigits day') (s t : List Char) : dateText day ++ s < dateText day' ++ t := by
  have hsign : ∀ n, ∀ sign, sign = '-' ∨ sign = '+' → sign < Nat.digitChar (n % 10) := by
    have hall : ∀ d < 10, '-' < Nat.digitChar d ∧ '+' < Nat.digitChar d := by decide
    rintro n sign (rfl | rfl)
    · exact (hall _ (Nat.mod_lt n (by decide))).1
    · exact (hall _ (Nat.mod_lt n (by decide))).2
  unfold FourDigits at h h'
  rw [dateText, dateText, yearText, yearText, if_neg h, if_pos h']
  simp only [digits, List.nil_append, List.cons_append, List.append_assoc]
  refine List.cons_lt_cons_iff.mpr (.inl (hsign _ _ ?_))
  split_ifs
  · exact .inl rfl
  · exact .inr rfl

theorem yearOfDay_mono {day day' : ℤ} (h : day ≤ day') : yearOfDay day ≤ yearOfDay day' := by
  have hmonth := monthOf_mono h
  unfold yearOfDay yearOf
  omega

end Rustrak.Calendar
