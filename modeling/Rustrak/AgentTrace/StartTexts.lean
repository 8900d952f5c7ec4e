import Mathlib.Data.List.Forall2
import Rustrak.Spans.AgentWindow

/-!
# Start times as text

The server writes the start of a span with as many digits of the second as it needs: none, three,
six or nine.  Two starts are put in order by their texts, character by character, each character by
its rank: by its code unit where `<` compares them, and by the weight the collation gives it where
`localeCompare` does.  That is the order of time just if the earlier text, without its `Z`, does not
begin the later one (`startText_lt_iff`), for `.` and the digits both rank before `Z`.
-/

namespace Rustrak.AgentTrace

open Rustrak.Calendar Rustrak.Spans

/-- A start that the server keeps: `epoch_to_utc` and `timestamp_from_value` drop those of other
years.  In nanoseconds. -/
structure StartTime where
  nanos : ℤ
  year : 1 ≤ yearOfDay (dayOf nanos) ∧ yearOfDay (dayOf nanos) ≤ 9999

theorem StartTime.eq_iff {a b : StartTime} : a = b ↔ a.nanos = b.nanos := by
  cases a
  cases b
  simp

instance : DecidableEq StartTime := fun _ _ => decidable_of_iff _ StartTime.eq_iff.symm

/-- The text of an instant, to its fraction. -/
def startBody (start : StartTime) : List Char :=
  dateText (dayOf start.nanos) ++ 'T' :: (timeText (secondOfDay start.nanos) ++
    fractionText (start.nanos % second).toNat)

/-- What chrono writes of a `DateTime<Utc>`. -/
def startText (start : StartTime) : List Char := startBody start ++ ['Z']

/-- A rank of the characters that has the full stop before the digits, these in their order, and
the digits before `Z`. -/
structure Ranks (rank : Char → ℕ) : Prop where
  dot_lt_digit : ∀ d < 10, rank '.' < rank (Nat.digitChar d)
  digit_lt_digit : ∀ d < 10, ∀ e < d, rank (Nat.digitChar e) < rank (Nat.digitChar d)
  digit_lt_letter : ∀ d < 10, rank (Nat.digitChar d) < rank 'Z'

/-- Code units rank the characters. -/
theorem ranks_toNat : Ranks Char.toNat where
  dot_lt_digit := by decide
  digit_lt_digit := by decide
  digit_lt_letter := by decide

variable {rank : Char → ℕ} {s t u v : List Char}

/-! ## Digits -/

theorem digits_add (width more n : ℕ) :
    digits (width + more) n = digits width (n / 10 ^ more) ++ digits more n := by
  induction more generalizing n with
  | zero => rw [Nat.pow_zero, Nat.div_one, Nat.add_zero, digits, List.append_nil]
  | succ more ih =>
      rw [← Nat.add_assoc, digits, ih, digits, List.append_assoc, Nat.div_div_eq_div_mul,
        Nat.pow_succ, Nat.mul_comm]

/-- Characters that are the same or both digits. -/
def Alike (c d : Char) : Prop :=
  c = d ∨ ∃ m < 10, ∃ n < 10, c = Nat.digitChar m ∧ d = Nat.digitChar n

theorem alike_digits (width m n : ℕ) : List.Forall₂ Alike (digits width m) (digits width n) := by
  induction width generalizing m n with
  | zero => exact .nil
  | succ width ih =>
      refine List.rel_append (ih _ _) (.cons (.inr ?_) .nil)
      exact ⟨m % 10, Nat.mod_lt _ (by decide), n % 10, Nat.mod_lt _ (by decide), rfl, rfl⟩

theorem Ranks.lt_iff (h : Ranks rank) {c d : Char} (halike : Alike c d) :
    rank c < rank d ↔ c < d := by
  rcases halike with rfl | ⟨m, hm, n, hn, rfl, rfl⟩
  · exact iff_of_false (lt_irrefl _) (Char.lt_irrefl _)
  · rw [digitChar_lt_iff hm hn]
    refine ⟨fun hlt => ?_, fun hlt => h.digit_lt_digit n hn m hlt⟩
    by_contra hle
    rcases (not_lt.mp hle).lt_or_eq with hgt | rfl
    · exact lt_asymm hlt (h.digit_lt_digit m hm n hgt)
    · exact lt_irrefl _ hlt

theorem Ranks.eq_iff (h : Ranks rank) {c d : Char} (halike : Alike c d) :
    rank c = rank d ↔ c = d := by
  refine ⟨fun heq => ?_, congrArg rank⟩
  rcases halike with rfl | ⟨m, hm, n, hn, rfl, rfl⟩
  · rfl
  · rcases Nat.lt_trichotomy m n with hlt | rfl | hgt
    · exact absurd heq (h.digit_lt_digit n hn m hlt).ne
    · rfl
    · exact absurd heq (h.digit_lt_digit m hm n hgt).ne'

/-- Texts that are alike are ranked as they are ordered, before anything else. -/
theorem Ranks.append_lt_iff (h : Ranks rank) (halike : List.Forall₂ Alike s t) :
    (s ++ u).map rank < (t ++ v).map rank ↔ s < t ∨ s = t ∧ u.map rank < v.map rank := by
  induction halike with
  | nil => simp
  | cons hhead _ ih =>
      rw [List.cons_append, List.cons_append, List.map_cons, List.map_cons, List.cons_lt_cons_iff,
        List.cons_lt_cons_iff, ih, h.lt_iff hhead, h.eq_iff hhead, List.cons.injEq]
      tauto

/-! ## To the second -/

/-- The text to the second. -/
def secondText (nanos : ℤ) : List Char := dateText (dayOf nanos) ++ 'T' :: timeText (secondOfDay nanos)

theorem startText_eq (start : StartTime) : startText start =
    secondText start.nanos ++ (fractionText (start.nanos % second).toNat ++ ['Z']) := by
  simp [startText, startBody, secondText]

theorem fourDigits (start : StartTime) : FourDigits (dayOf start.nanos) :=
  ⟨by have := start.year.1; omega, start.year.2⟩

theorem alike_secondText (a b : StartTime) :
    List.Forall₂ Alike (secondText a.nanos) (secondText b.nanos) := by
  have hyear : ∀ start : StartTime, yearText (yearOfDay (dayOf start.nanos)) =
      digits 4 (yearOfDay (dayOf start.nanos)).toNat := fun start => if_pos (fourDigits start)
  unfold secondText dateText timeText
  rw [hyear, hyear]
  apply List.rel_append
  · apply List.rel_append (alike_digits ..)
    exact .cons (.inl rfl) (List.rel_append (alike_digits ..) (.cons (.inl rfl) (alike_digits ..)))
  · apply List.Forall₂.cons (.inl rfl)
    apply List.rel_append (alike_digits ..)
    exact .cons (.inl rfl) (List.rel_append (alike_digits ..) (.cons (.inl rfl) (alike_digits ..)))

theorem secondOfDay_lt (nanos : ℤ) : secondOfDay nanos < 86400 := by
  unfold secondOfDay
  omega

/-- The seconds of two starts, in time and as they are written. -/
theorem secondText_lt_iff (a b : StartTime) :
    secondText a.nanos < secondText b.nanos ↔ a.nanos / second < b.nanos / second := by
  rw [secondText, secondText, dateText_append_lt_iff (fourDigits a) (fourDigits b),
    cons_lt_cons_self_iff, timeText_lt_iff (secondOfDay_lt _) (secondOfDay_lt _)]
  unfold dayOf secondOfDay second
  omega

theorem secondText_eq_iff (a b : StartTime) :
    secondText a.nanos = secondText b.nanos ↔ a.nanos / second = b.nanos / second := by
  constructor
  · intro heq
    rcases lt_trichotomy (a.nanos / second) (b.nanos / second) with hlt | hsame | hgt
    · exact absurd (heq ▸ (secondText_lt_iff a b).mpr hlt) (List.lt_irrefl _)
    · exact hsame
    · exact absurd (heq ▸ (secondText_lt_iff b a).mpr hgt) (List.lt_irrefl _)
  · intro heq
    have hday : dayOf a.nanos = dayOf b.nanos := by
      unfold dayOf second at *
      omega
    have hsecond : secondOfDay a.nanos = secondOfDay b.nanos := by
      unfold secondOfDay
      rw [heq]
    rw [secondText, secondText, hday, hsecond]

/-! ## The fraction -/

/-- A fraction is written to as many digits as it has, three at a time. -/
theorem fraction_cases (n : ℕ) : n = 0 ∧ fractionText n = [] ∨
    ∃ width more m, width + more = 9 ∧ n = m * 10 ^ more ∧
      fractionText n = '.' :: digits width m := by
  unfold fractionText
  split_ifs with hzero hmillis hmicros
  · exact .inl ⟨hzero, rfl⟩
  · exact .inr ⟨3, 6, n / 1000000, rfl, by omega, rfl⟩
  · exact .inr ⟨6, 3, n / 1000, rfl, by omega, rfl⟩
  · exact .inr ⟨9, 0, n, rfl, by omega, rfl⟩

variable {width width' more more' m m' k n n' : ℕ}

theorem Ranks.digits_append_lt_iff (h : Ranks rank) (hm : m < 10 ^ width) (hm' : m' < 10 ^ width) :
    (digits width m ++ u).map rank < (digits width m' ++ v).map rank ↔
      m < m' ∨ m = m' ∧ u.map rank < v.map rank := by
  rw [h.append_lt_iff (alike_digits ..), digits_lt_iff hm hm', digits_inj hm hm']

/-- The full stop and every digit stand before the end. -/
theorem Ranks.not_end_lt (h : Ranks rank) {c : Char} (hc : c = '.' ∨ ∃ d < 10, c = Nat.digitChar d) :
    ¬(['Z'].map rank < (c :: u).map rank) := by
  have hend : rank c < rank 'Z' := by
    rcases hc with rfl | ⟨d, hd, rfl⟩
    · exact (h.dot_lt_digit 0 (by decide)).trans (h.digit_lt_letter 0 (by decide))
    · exact h.digit_lt_letter d hd
  rw [List.map_cons, List.map_nil, List.map_cons, List.cons_lt_cons_iff]
  rintro (hlt | ⟨heq, _⟩)
  · exact lt_asymm hlt hend
  · exact hend.ne' heq

theorem exists_digits_succ (k n : ℕ) : ∃ d rest, d < 10 ∧ digits (k + 1) n = Nat.digitChar d :: rest := by
  induction k generalizing n with
  | zero => exact ⟨n % 10, [], Nat.mod_lt _ (by decide), rfl⟩
  | succ k ih =>
      obtain ⟨d, rest, hd, heq⟩ := ih (n / 10)
      refine ⟨d, rest ++ [Nat.digitChar (n % 10)], hd, ?_⟩
      rw [digits, heq]
      rfl

theorem digits_prefix_iff (hm : m < 10 ^ width) (hm' : m' < 10 ^ (width + k)) :
    digits width m <+: digits (width + k) m' ↔ m = m' / 10 ^ k := by
  have hdiv : m' / 10 ^ k < 10 ^ width :=
    Nat.div_lt_of_lt_mul (by rwa [← Nat.pow_add, Nat.add_comm])
  rw [digits_add]
  constructor
  · intro hbegins
    have hleft := List.prefix_of_prefix_length_le hbegins (List.prefix_append _ _)
      (by rw [length_digits, length_digits])
    exact (digits_inj hm hdiv).mp (hleft.eq_of_length (by rw [length_digits, length_digits]))
  · rintro rfl
    exact List.prefix_append ..

/-- A number of fewer digits than another of the same size. -/
theorem Ranks.shorter_lt_iff (h : Ranks rank) (hm : m < 10 ^ width) (hm' : m' < 10 ^ (width + k))
    (hlt : m * 10 ^ k < m') :
    (digits width m ++ ['Z']).map rank < (digits (width + k) m' ++ ['Z']).map rank ↔
      ¬digits width m <+: digits (width + k) m' := by
  have hdiv : m' / 10 ^ k < 10 ^ width :=
    Nat.div_lt_of_lt_mul (by rwa [← Nat.pow_add, Nat.add_comm])
  have hle : m ≤ m' / 10 ^ k := (Nat.le_div_iff_mul_le (by positivity)).mpr hlt.le
  have hend : m = m' / 10 ^ k → ¬(['Z'].map rank < (digits k m' ++ ['Z']).map rank) := by
    rintro rfl
    cases k with
    | zero => simp at hlt
    | succ k =>
        obtain ⟨d, rest, hd, heq⟩ := exists_digits_succ k m'
        rw [heq]
        exact h.not_end_lt (.inr ⟨d, hd, rfl⟩)
  rw [digits_prefix_iff hm hm', digits_add, List.append_assoc, h.digits_append_lt_iff hm hdiv]
  constructor
  · rintro (hless | ⟨heq, hafter⟩) hsame
    · exact hless.ne hsame
    · exact hend heq hafter
  · intro hne
    exact .inl (lt_of_le_of_ne hle hne)

/-- A number of more digits than another of the same size. -/
theorem Ranks.longer_lt (h : Ranks rank) (hm' : m' < 10 ^ width)
    (hlt : m < m' * 10 ^ k) :
    (digits (width + k) m ++ ['Z']).map rank < (digits width m' ++ ['Z']).map rank := by
  have hdiv : m / 10 ^ k < m' := Nat.div_lt_of_lt_mul (by rwa [Nat.mul_comm])
  rw [digits_add, List.append_assoc, h.digits_append_lt_iff (hdiv.trans hm') hm']
  exact .inl hdiv

/-- Fractions of a second, in time and as they are written. -/
theorem Ranks.fraction_lt_iff (h : Ranks rank) (hlt : n < n') (hn' : n' < 10 ^ 9) :
    (fractionText n ++ ['Z']).map rank < (fractionText n' ++ ['Z']).map rank ↔
      ¬fractionText n <+: fractionText n' := by
  rcases fraction_cases n' with ⟨rfl, _⟩ | ⟨width', more', m', hsum', hval', htext'⟩
  · exact absurd hlt (Nat.not_lt_zero n)
  rcases fraction_cases n with ⟨_, htext⟩ | ⟨width, more, m, hsum, hval, htext⟩
  · rw [htext, htext']
    exact iff_of_false (h.not_end_lt (.inl rfl)) (not_not.mpr (List.nil_prefix))
  have hbound : ∀ width more m, width + more = 9 → m * 10 ^ more < 10 ^ 9 → m < 10 ^ width := by
    intro width more m hsum hbound
    rw [← hsum, Nat.pow_add] at hbound
    exact Nat.lt_of_mul_lt_mul_right hbound
  have hm := hbound width more m hsum (hval ▸ hlt.trans hn')
  have hm' := hbound width' more' m' hsum' (hval' ▸ hn')
  rw [htext, htext', List.cons_append, List.cons_append, List.map_cons, List.map_cons,
    List.cons_lt_cons_iff, List.cons_prefix_cons]
  simp only [lt_irrefl, false_or, true_and]
  rw [hval, hval'] at hlt
  rcases Nat.le_total width width' with hle | hle
  · obtain ⟨k, rfl⟩ := Nat.exists_eq_add_of_le hle
    obtain rfl : more = k + more' := by omega
    rw [Nat.pow_add, ← Nat.mul_assoc] at hlt
    exact h.shorter_lt_iff hm hm' (Nat.lt_of_mul_lt_mul_right hlt)
  · obtain ⟨k, rfl⟩ := Nat.exists_eq_add_of_le hle
    obtain rfl : more' = k + more := by omega
    rw [Nat.pow_add, ← Nat.mul_assoc] at hlt
    have hless := Nat.lt_of_mul_lt_mul_right hlt
    rcases Nat.eq_zero_or_pos k with rfl | hk
    · exact h.shorter_lt_iff (k := 0) hm hm' (by simpa using hless)
    · refine iff_of_true (h.longer_lt hm' hless) fun hbegins => ?_
      have hlength := hbegins.length_le
      rw [length_digits, length_digits] at hlength
      omega

/-- Starts are in order of time as they are written, unless the earlier one begins the later. -/
theorem Ranks.startText_lt_iff (h : Ranks rank) {a b : StartTime} (hlt : a.nanos < b.nanos) :
    (startText a).map rank < (startText b).map rank ↔ ¬startBody a <+: startBody b := by
  have hbody : ∀ start : StartTime, startBody start = secondText start.nanos ++
      fractionText (start.nanos % second).toNat := fun start => by simp [startBody, secondText]
  have halike := alike_secondText a b
  rw [startText_eq, startText_eq, h.append_lt_iff halike, secondText_lt_iff, secondText_eq_iff,
    hbody, hbody]
  have hle : a.nanos / second ≤ b.nanos / second := Int.ediv_le_ediv (by decide) hlt.le
  rcases hle.lt_or_eq with hseconds | hseconds
  · refine iff_of_true (.inl hseconds) fun hbegins => ?_
    have hleft := List.prefix_of_prefix_length_le ((List.prefix_append _ _).trans hbegins)
      (List.prefix_append _ _) halike.length_eq.le
    have hsame := (secondText_eq_iff a b).mp (hleft.eq_of_length halike.length_eq)
    exact hseconds.ne hsame
  · have htext := (secondText_eq_iff a b).mpr hseconds
    have hfraction : (a.nanos % second).toNat < (b.nanos % second).toNat := by
      unfold second at *
      omega
    have hbelow : (b.nanos % second).toNat < 10 ^ 9 := by
      unfold second
      omega
    rw [htext, List.prefix_append_right_inj, ← h.fraction_lt_iff hfraction hbelow]
    simp [hseconds]

/-! ## A start that begins a later one -/

theorem mem_digits {c : Char} (h : c ∈ digits width n) : ∃ d < 10, c = Nat.digitChar d := by
  induction width generalizing n with
  | zero => exact absurd h List.not_mem_nil
  | succ width ih =>
      rcases List.mem_append.mp h with h | h
      · exact ih h
      · exact ⟨n % 10, Nat.mod_lt _ (by decide), List.mem_singleton.mp h⟩

theorem mem_fractionText {c : Char} (h : c ∈ fractionText n) :
    c = '.' ∨ ∃ d < 10, c = Nat.digitChar d := by
  rcases fraction_cases n with ⟨_, htext⟩ | ⟨width, more, m, _, _, htext⟩
  · rw [htext] at h
    exact absurd h List.not_mem_nil
  · rw [htext] at h
    exact (List.mem_cons.mp h).imp_right mem_digits

theorem fractionText_inj (hn : n < 10 ^ 9) (hn' : n' < 10 ^ 9)
    (h : fractionText n = fractionText n') : n = n' := by
  rcases fraction_cases n with ⟨hzero, htext⟩ | ⟨width, more, m, hsum, hval, htext⟩
  · rcases fraction_cases n' with ⟨hzero', _⟩ | ⟨_, _, _, _, _, htext'⟩
    · rw [hzero, hzero']
    · rw [htext, htext'] at h
      contradiction
  · rcases fraction_cases n' with ⟨_, htext'⟩ | ⟨width', more', m', hsum', hval', htext'⟩
    · rw [htext, htext'] at h
      contradiction
    · rw [htext, htext'] at h
      have hdigits := (List.cons.inj h).2
      obtain rfl : width = width' := by
        have hlength := congrArg List.length hdigits
        rwa [length_digits, length_digits] at hlength
      obtain rfl : more = more' := by omega
      have hbound : ∀ m, m * 10 ^ more < 10 ^ 9 → m < 10 ^ width := by
        intro m hm
        rw [← hsum, Nat.pow_add] at hm
        exact Nat.lt_of_mul_lt_mul_right hm
      have hsame := (digits_inj (hbound m (hval ▸ hn)) (hbound m' (hval' ▸ hn'))).mp hdigits
      rw [hval, hval', hsame]

/-- A start whose text, without its `Z`, begins that of a later one is written after it. -/
theorem Ranks.startText_gt (h : Ranks rank) {a b : StartTime} (hlt : a.nanos < b.nanos)
    (hbegins : startBody a <+: startBody b) :
    (startText b).map rank < (startText a).map rank := by
  obtain ⟨rest, hrest⟩ := hbegins
  have hself : List.Forall₂ Alike (startBody a) (startBody a) :=
    List.forall₂_same.mpr fun _ _ => .inl rfl
  have htext : startText b = startBody a ++ (rest ++ ['Z']) := by
    rw [startText, ← hrest, List.append_assoc]
  rw [htext, startText, h.append_lt_iff hself]
  refine .inr ⟨rfl, ?_⟩
  -- what follows is of the fraction
  have hbody : ∀ start : StartTime, startBody start = secondText start.nanos ++
      fractionText (start.nanos % second).toNat := fun start => by simp [startBody, secondText]
  have hseconds : secondText a.nanos = secondText b.nanos := by
    have hleft : secondText a.nanos <+: startBody b :=
      ⟨fractionText (a.nanos % second).toNat ++ rest, by rw [← hrest, hbody a, List.append_assoc]⟩
    have hboth := List.prefix_of_prefix_length_le hleft (hbody b ▸ List.prefix_append _ _)
      (alike_secondText a b).length_eq.le
    exact hboth.eq_of_length (alike_secondText a b).length_eq
  have hfraction : fractionText (a.nanos % second).toNat ++ rest =
      fractionText (b.nanos % second).toNat := by
    rw [hbody, hbody, hseconds, List.append_assoc] at hrest
    exact List.append_cancel_left hrest
  cases rest with
  | nil =>
      rw [List.append_nil] at hfraction
      have hsame := fractionText_inj (by unfold second; omega) (by unfold second; omega) hfraction
      have heq := (secondText_eq_iff a b).mp hseconds
      unfold second at *
      omega
  | cons c rest =>
      have hc : c ∈ fractionText (b.nanos % second).toNat := by
        rw [← hfraction]
        exact List.mem_append_right _ (List.mem_cons_self ..)
      have hend : rank c < rank 'Z' := by
        rcases mem_fractionText hc with rfl | ⟨d, hd, rfl⟩
        · exact (h.dot_lt_digit 0 (by decide)).trans (h.digit_lt_letter 0 (by decide))
        · exact h.digit_lt_letter d hd
      exact List.cons_lt_cons_iff.mpr (.inl hend)

end Rustrak.AgentTrace
