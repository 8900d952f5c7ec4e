import Mathlib.Data.Nat.Digits.Defs
import Rustrak.DataTable.Reparse
import Rustrak.Rounding.Nearest

/-!
# When an address comes back

What is filtered, sorted and paged is written into the address and read from it.  It comes back
as it was unless a range was merged of several with more or fewer than two bounds in all, the
words of free text read as a range once a space joins them, or the page is the one number from
which counting down, up and down again leads elsewhere.  A key that every object has ends the
parsing itself.
-/

namespace Rustrak.DataTable

open Rustrak.Rounding

variable {N : Type} [DecidableEq N]

/-- The whole numbers of the language: a double holds those of 53 digits, and steps by one are
rounded to them. -/
structure Numbers.Doubles (numbers : Numbers N) : Prop where
  zero : numbers.asInt numbers.zero = some 0
  injective : ∀ n m i, numbers.asInt n = some i → numbers.asInt m = some i → n = m
  held : ∀ n (k : ℕ), numbers.asInt n = some (k : ℤ) → nearest 53 k = k
  exceeds_iff : ∀ n i bound, numbers.asInt n = some i →
    (numbers.exceeds n bound = true ↔ bound < i)
  minusOne : ∀ n (k : ℕ), numbers.asInt n = some ((k + 1 : ℕ) : ℤ) →
    numbers.asInt (numbers.minusOne n) = some (nearest 53 k : ℤ)
  plusOne : ∀ n (k : ℕ), numbers.asInt n = some (k : ℤ) →
    numbers.asInt (numbers.plusOne n) = some (nearest 53 (k + 1) : ℤ)

section Statements

variable (numbers : Numbers N) (variants : FilterVariants)

/-- The input is parsed, and what is written of that is parsed to the same. -/
def ComesBack (input : Text) : Prop :=
  ∃ filters search, parseFilterQuery numbers input variants = some (filters, search) ∧
    parseFilterQuery numbers (formatFilterQuery numbers filters search variants) variants =
      some (filters, search)

/-- The parameters are parsed, and what is written of that is parsed to the same. -/
def AddressComesBack (params : Params) (pageSize : N) : Prop :=
  ∃ query, parseTableQuery numbers params variants pageSize = some query ∧
    parseTableQuery numbers (serializeTableQuery numbers query variants pageSize) variants
      pageSize = some query

/-- The values that a key comes with, in the tokens of an input. -/
def valuesIn (input id : Text) : List (FilterValue N) :=
  valuesOf ((tokenize input).filterMap (filterOf numbers variants)) id

/-- The free text of an input, its words joined by spaces. -/
def wordsIn (input : Text) : Text :=
  joinWith [space] ((tokenize input).filter (isText numbers variants))

structure Faithful (input : Text) : Prop where
  /-- No key with a value is one that every object has. -/
  known : ∀ token ∈ tokenize input, ∀ id raw, matchToken token = some (id, raw) → raw ≠ [] →
    variants id ≠ .inherited
  /-- The free text does not read as anything else once it is joined. -/
  words : parseToken numbers variants (wordsIn numbers variants input) = some .text
  /-- A range comes once, or all that it comes with are two bounds. -/
  ranges : ∀ id, variants id = .variant .range →
    (valuesIn numbers variants input id).length ≤ 1 ∨
      (setOf ((valuesIn numbers variants input id).flatMap entriesOf)).length = 2

end Statements

variable {numbers : Numbers N} {variants : FilterVariants} {input id : Text}
variable {filters : List (ColumnFilter N)}

/-! ## The query string -/

omit [DecidableEq N] in
theorem mem_valuesIn {x : FilterValue N} (h : x ∈ valuesIn numbers variants input id) :
    ∃ token, filterOf numbers variants token = some ⟨id, x⟩ := by
  obtain ⟨f, hf, rfl⟩ := List.mem_map.mp h
  obtain ⟨hf, hid⟩ := List.mem_filter.mp hf
  obtain ⟨token, -, htoken⟩ := List.mem_filterMap.mp hf
  refine ⟨token, ?_⟩
  rw [← of_decide_eq_true hid]
  exact htoken

omit [DecidableEq N] in
theorem cut_of_mem_valuesIn {v : Variant} {x : FilterValue N}
    (h : x ∈ valuesIn numbers variants input id) (hvariant : variants id = .variant v) :
    Well v x ∧ cut v x = x := by
  obtain ⟨token, htoken⟩ := mem_valuesIn h
  obtain ⟨⟨-, v', hv', hwell⟩, hcut⟩ := fits_of_filterOf htoken
  obtain rfl := Property.variant.inj (hvariant.symm.trans hv')
  rw [cutFilter_value hvariant] at hcut
  exact ⟨hwell, hcut⟩

/-- What is known of a filter that was parsed. -/
theorem merged_spec {g : ColumnFilter N}
    (hg : g ∈ mergeFilters ((tokenize input).filterMap (filterOf numbers variants))) :
    Fits variants g ∧ MergedOf (valuesIn numbers variants input g.id) g.value := by
  have hmerged : MergedOf (valuesIn numbers variants input g.id) g.value :=
    (merges_mergeFilters _).values g hg
  obtain ⟨first, more, hvalues, -⟩ := id hmerged
  have hfirst : first ∈ valuesIn numbers variants input g.id := by
    rw [hvalues]
    exact List.mem_cons_self
  obtain ⟨token, htoken⟩ := mem_valuesIn hfirst
  obtain ⟨⟨hkey, v, hvariant, -⟩, -⟩ := fits_of_filterOf htoken
  exact ⟨⟨hkey, v, hvariant, hmerged.well fun x hx => (cut_of_mem_valuesIn hx hvariant).1⟩,
    hmerged⟩

/-- A parsed filter is not cut, if it is no range or its bounds are two. -/
theorem uncut_iff {g : ColumnFilter N}
    (hg : g ∈ mergeFilters ((tokenize input).filterMap (filterOf numbers variants))) :
    (cutFilter variants g).value = g.value ↔ variants g.id = .variant .range →
      (valuesIn numbers variants input g.id).length ≤ 1 ∨
        (setOf ((valuesIn numbers variants input g.id).flatMap entriesOf)).length = 2 := by
  obtain ⟨⟨-, v, hvariant, -⟩, hmerged⟩ := merged_spec hg
  rw [cutFilter_value hvariant, hvariant, Property.variant.injEq]
  have hvalues : ∀ x ∈ valuesIn numbers variants input g.id, Well v x ∧ cut v x = x :=
    fun x hx => cut_of_mem_valuesIn hx hvariant
  cases v with
  | options => exact iff_of_true rfl nofun
  | text => exact iff_of_true rfl nofun
  | range =>
      rw [cut_merged_iff hmerged (fun x hx => (hvalues x hx).1) fun x hx => (hvalues x hx).2]
      simp

/-- A key that does not come has no filter. -/
theorem exists_merged_of_valuesIn (h : valuesIn numbers variants input id ≠ []) :
    ∃ g ∈ mergeFilters ((tokenize input).filterMap (filterOf numbers variants)), g.id = id := by
  have hid : id ∈ ((tokenize input).filterMap (filterOf numbers variants)).map
      ColumnFilter.id := by
    by_contra hnot
    exact h (valuesOf_eq_nil hnot)
  rw [← (merges_mergeFilters _).ids] at hid
  exact List.mem_map.mp hid

theorem comesBack_iff (hprinted : numbers.Printed) :
    ComesBack numbers variants input ↔ Faithful numbers variants input := by
  have hreparse := @reparse_iff N numbers variants
    (mergeFilters ((tokenize input).filterMap (filterOf numbers variants)))
    (wordsIn numbers variants input) _ hprinted (fun g hg => (merged_spec hg).1)
    (merges_mergeFilters _).nodup
  constructor
  · rintro ⟨filters, search, hparse, hback⟩
    obtain ⟨hknown, rfl, rfl⟩ := parseFilterQuery_eq_some_iff.mp hparse
    obtain ⟨huncut, hwords⟩ := hreparse.mp hback
    refine ⟨fun token htoken id raw hmatch hraw hinherited => ?_, hwords, fun id hid => ?_⟩
    · exact hknown token htoken (parseToken_eq_none_iff.mpr ⟨id, raw, hmatch, hraw, hinherited⟩)
    · by_cases hvalues : valuesIn numbers variants input id = []
      · rw [hvalues]
        exact .inl (Nat.zero_le 1)
      · obtain ⟨g, hg, rfl⟩ := exists_merged_of_valuesIn hvalues
        exact (uncut_iff hg).mp (huncut g hg) hid
  · intro hfaithful
    refine ⟨_, _, parseFilterQuery_eq_some_iff.mpr ⟨fun token htoken hnone => ?_, rfl, rfl⟩,
      hreparse.mpr ⟨fun g hg => (uncut_iff hg).mpr (hfaithful.ranges g.id), hfaithful.words⟩⟩
    obtain ⟨id, raw, hmatch, hraw, hinherited⟩ := parseToken_eq_none_iff.mp hnone
    exact hfaithful.known token htoken id raw hmatch hraw hinherited

/-! ## Sorting -/

/-- The sorting that a parameter asks for. -/
def sortingIn (sort : Option Text) : List SortEntry :=
  match sort with
  | some sort => ((splitAt comma sort []).filter fun part => !part.isEmpty).map parseSort
  | none => []

def printSorting (sorting : List SortEntry) : Option Text :=
  if sorting.isEmpty then none else some (joinWith [comma] (sorting.map printSort))

theorem printSort_parseSort {part : Text} (h : part ≠ []) : printSort (parseSort part) = part := by
  cases part with
  | nil => contradiction
  | cons c rest =>
      rw [parseSort]
      split_ifs with hminus
      · rw [hminus]
        rfl
      · rfl

theorem sortingIn_printSorting (sort : Option Text) :
    sortingIn (printSorting (sortingIn sort)) = sortingIn sort := by
  cases sort with
  | none => rfl
  | some sort =>
      rw [sortingIn]
      have hparts : ∀ part ∈ (splitAt comma sort []).filter fun part => !part.isEmpty,
          part ≠ [] ∧ comma ∉ part := by
        intro part hpart
        obtain ⟨hpart, hne⟩ := List.mem_filter.mp hpart
        exact ⟨by simpa using hne, (not_mem_of_mem_splitAt List.not_mem_nil hpart).1⟩
      generalize (splitAt comma sort []).filter (fun part => !part.isEmpty) = parts at hparts
      have hprint : (parts.map parseSort).map printSort = parts := by
        rw [List.map_map]
        conv_rhs => rw [← List.map_id parts]
        exact List.map_congr_left fun part hpart => printSort_parseSort (hparts part hpart).1
      by_cases hempty : parts = []
      · subst hempty
        rfl
      · have hkeep : parts.filter (fun part => !part.isEmpty) = parts := by
          rw [List.filter_eq_self]
          intro part hpart
          simpa using (hparts part hpart).1
        rw [printSorting, if_neg (by simpa using hempty), hprint, sortingIn]
        rw [splitAt_join hempty fun part hpart => (hparts part hpart).2, hkeep]

/-! ## The page -/

omit [DecidableEq N] in
theorem integerAbove_eq_some_iff (hdoubles : numbers.Doubles) {param : Option Text} {bound : ℤ}
    {n : N} : integerAbove numbers param bound = some n ↔
      param.bind numbers.number = some n ∧ ∃ i, numbers.asInt n = some i ∧ bound < i := by
  rw [integerAbove, Option.filter_eq_some_iff]
  apply and_congr_right
  intro _
  rw [Bool.and_eq_true, Option.isSome_iff_exists]
  constructor
  · rintro ⟨⟨i, hi⟩, hexceeds⟩
    exact ⟨i, hi, (hdoubles.exceeds_iff n i bound hi).mp hexceeds⟩
  · rintro ⟨i, hi, hlt⟩
    exact ⟨⟨i, hi⟩, (hdoubles.exceeds_iff n i bound hi).mpr hlt⟩

section Page

variable (numbers)

/-- The index of the page that a parameter asks for. -/
def pageIn (page : Option Text) : N :=
  ((integerAbove numbers page 1).map numbers.minusOne).getD numbers.zero

def printPage (pageIndex : N) : Option Text :=
  if numbers.exceeds pageIndex 0 then some (numbers.string (numbers.plusOne pageIndex)) else none

def sizeIn (per : Option Text) (pageSize : N) : N :=
  (integerAbove numbers per 0).getD pageSize

def printSize (size pageSize : N) : Option Text :=
  if size = pageSize then none else some (numbers.string size)

end Page

theorem sizeIn_printSize (hprinted : numbers.Printed) (per : Option Text) (pageSize : N) :
    sizeIn numbers (printSize numbers (sizeIn numbers per pageSize) pageSize) pageSize =
      sizeIn numbers per pageSize := by
  rw [printSize]
  split_ifs with hdefault
  · exact hdefault.symm
  · cases hper : integerAbove numbers per 0 with
    | none => exact absurd (by rw [sizeIn, hper]; rfl) hdefault
    | some n =>
        have hsize : sizeIn numbers per pageSize = n := by rw [sizeIn, hper]; rfl
        obtain ⟨-, hcheck⟩ := Option.filter_eq_some_iff.mp hper
        have hagain : integerAbove numbers (some (numbers.string n)) 0 = some n := by
          rw [integerAbove, Option.bind_some, hprinted.number_string]
          exact Option.filter_eq_some_iff.mpr ⟨rfl, hcheck⟩
        rw [hsize, sizeIn, hagain]
        rfl

omit [DecidableEq N] in
/-- The page comes back, except the one from which two steps and two steps back part. -/
theorem pageIn_printPage_iff (hprinted : numbers.Printed) (hdoubles : numbers.Doubles)
    (page : Option Text) :
    pageIn numbers (printPage numbers (pageIn numbers page)) = pageIn numbers page ↔
      (page.bind numbers.number).bind numbers.asInt ≠ some (2 ^ 53 + 2) := by
  cases hpage : integerAbove numbers page 1 with
  | none =>
      have hzero : pageIn numbers page = numbers.zero := by rw [pageIn, hpage]; rfl
      have hnone : printPage numbers numbers.zero = none := by
        rw [printPage, if_neg]
        rw [hdoubles.exceeds_iff _ _ 0 hdoubles.zero]
        decide
      rw [hzero, hnone]
      refine iff_of_true rfl fun heq => ?_
      obtain ⟨n, hn, hi⟩ := Option.bind_eq_some_iff.mp heq
      have hsome := (integerAbove_eq_some_iff hdoubles).mpr
        ⟨hn, _, hi, show (1 : ℤ) < 2 ^ 53 + 2 by decide⟩
      rw [hpage] at hsome
      contradiction
  | some n =>
      obtain ⟨hn, i, hi, hlt⟩ := (integerAbove_eq_some_iff hdoubles).mp hpage
      obtain ⟨k, rfl⟩ : ∃ k : ℕ, i = (k + 1 : ℕ) := ⟨(i - 1).toNat, by omega⟩
      have hdown := hdoubles.minusOne n k hi
      have hup := hdoubles.plusOne _ _ hdown
      have hone : 1 ≤ nearest 53 k := le_nearest (j := 0) (by decide) (by omega)
      have htwo : 2 ≤ nearest 53 (nearest 53 k + 1) := le_nearest (j := 1) (by decide) (by omega)
      have hindex : pageIn numbers page = numbers.minusOne n := by rw [pageIn, hpage]; rfl
      have hprint : printPage numbers (numbers.minusOne n) =
          some (numbers.string (numbers.plusOne (numbers.minusOne n))) := by
        rw [printPage, if_pos]
        rw [hdoubles.exceeds_iff _ _ 0 hdown]
        omega
      have hagain : integerAbove numbers
          (some (numbers.string (numbers.plusOne (numbers.minusOne n)))) 1 =
            some (numbers.plusOne (numbers.minusOne n)) :=
        (integerAbove_eq_some_iff hdoubles).mpr ⟨hprinted.number_string _, _, hup, by omega⟩
      have hback : numbers.asInt (numbers.minusOne (numbers.plusOne (numbers.minusOne n))) =
          some (nearest 53 (nearest 53 (nearest 53 k + 1) - 1) : ℤ) := by
        apply hdoubles.minusOne
        rw [hup, Nat.sub_add_cancel (by omega)]
      have hsteps := @nearest_back_iff 53 (k + 1) (by decide) (by omega) (hdoubles.held n _ hi)
      rw [Nat.add_sub_cancel] at hsteps
      rw [hindex, hprint, pageIn, hagain, hn, Option.bind_some, hi]
      change numbers.minusOne (numbers.plusOne (numbers.minusOne n)) = numbers.minusOne n ↔ _
      have hsame : numbers.minusOne (numbers.plusOne (numbers.minusOne n)) =
          numbers.minusOne n ↔
            nearest 53 (nearest 53 (nearest 53 k + 1) - 1) = nearest 53 k := by
        constructor
        · intro heq
          rw [heq, hdown, Option.some.injEq, Nat.cast_inj] at hback
          exact hback.symm
        · intro heq
          rw [heq] at hback
          exact hdoubles.injective _ _ _ hback hdown
      rw [hsame, hsteps, Ne, Ne, Option.some.injEq]
      omega

/-! ## The address -/

/-- The parts of an address, each from its own parameter. -/
theorem parseTableQuery_eq_some_iff {params : Params} {pageSize : N} {query : DataTableQuery N} :
    parseTableQuery numbers params variants pageSize = some query ↔
      parseFilterQuery numbers (params.q.getD []) variants = some (query.filters, query.search) ∧
        query.sorting = sortingIn params.sort ∧ query.pageIndex = pageIn numbers params.page ∧
        query.pageSize = sizeIn numbers params.per pageSize := by
  have hquery : parseTableQuery numbers params variants pageSize =
      (parseFilterQuery numbers (params.q.getD []) variants).map fun (filters, search) =>
        ⟨sortingIn params.sort, filters, search, pageIn numbers params.page,
          sizeIn numbers params.per pageSize⟩ := by
    rw [parseTableQuery]
    cases params.q with
    | none => rfl
    | some q =>
        cases q with
        | nil => rfl
        | cons c q =>
            dsimp only
            rw [if_neg (by simp), Option.getD_some]
            cases parseFilterQuery numbers (c :: q) variants <;> rfl
  rw [hquery, Option.map_eq_some_iff]
  constructor
  · rintro ⟨⟨filters, search⟩, hparse, rfl⟩
    exact ⟨hparse, rfl, rfl, rfl⟩
  · rintro ⟨hparse, hsorting, hpage, hsize⟩
    refine ⟨_, hparse, ?_⟩
    dsimp only
    rw [← hsorting, ← hpage, ← hsize]

theorem serializeTableQuery_q {query : DataTableQuery N} {pageSize : N} :
    (serializeTableQuery numbers query variants pageSize).q.getD [] =
      formatFilterQuery numbers query.filters query.search variants := by
  rw [serializeTableQuery]
  dsimp only
  split_ifs with hempty
  · exact (List.isEmpty_iff.mp hempty).symm
  · rfl

theorem addressComesBack_iff (hprinted : numbers.Printed) (hdoubles : numbers.Doubles)
    (params : Params) (pageSize : N) :
    AddressComesBack numbers variants params pageSize ↔
      ComesBack numbers variants (params.q.getD []) ∧
        (params.page.bind numbers.number).bind numbers.asInt ≠ some (2 ^ 53 + 2) := by
  rw [← pageIn_printPage_iff hprinted hdoubles]
  constructor
  · rintro ⟨query, hparse, hback⟩
    obtain ⟨hq, -, hpage, -⟩ := parseTableQuery_eq_some_iff.mp hparse
    obtain ⟨hq', -, hpage', -⟩ := parseTableQuery_eq_some_iff.mp hback
    rw [serializeTableQuery_q] at hq'
    refine ⟨⟨_, _, hq, hq'⟩, ?_⟩
    rw [← hpage]
    exact hpage'.symm
  · rintro ⟨⟨filters, search, hq, hq'⟩, hpage⟩
    refine ⟨⟨sortingIn params.sort, filters, search, pageIn numbers params.page,
      sizeIn numbers params.per pageSize⟩,
      parseTableQuery_eq_some_iff.mpr ⟨hq, rfl, rfl, rfl⟩, ?_⟩
    rw [parseTableQuery_eq_some_iff, serializeTableQuery_q]
    exact ⟨hq', (sortingIn_printSorting _).symm, hpage.symm,
      (sizeIn_printSize hprinted _ _).symm⟩

/-! ## Whole numbers in decimal -/

/-- A whole number that a double holds. -/
abbrev Whole := {m : ℕ // nearest 53 m = m}

def Whole.round (m : ℕ) : Whole := ⟨nearest 53 m, nearest_nearest (by decide)⟩

def digit (d : ℕ) : UInt16 := (48 + d).toUInt16

def isDigit (c : UInt16) : Bool := unit '0' ≤ c && c ≤ unit '9'

def printDecimal (m : ℕ) : Text :=
  if m = 0 then [digit 0] else (Nat.digits 10 m).reverse.map digit

def readDecimal (s : Text) : Option ℕ :=
  if s.all isDigit then some (Nat.ofDigits 10 (s.reverse.map fun c => c.toNat - 48)) else none

def whole : Numbers Whole where
  number s := (readDecimal s).map Whole.round
  string n := printDecimal n.1
  zero := Whole.round 0
  asInt n := some n.1
  exceeds n bound := bound < n.1
  plusOne n := Whole.round (n.1 + 1)
  minusOne n := Whole.round (n.1 - 1)

theorem digit_spec : ∀ d < 10, isDigit (digit d) = true ∧ (digit d).toNat - 48 = d ∧
    isSpace (digit d) = false ∧ digit d ≠ quote ∧ digit d ≠ dot := by
  decide +kernel

theorem printDecimal_ne_nil (m : ℕ) : printDecimal m ≠ [] := by
  rw [printDecimal]
  split_ifs with hzero
  · simp
  · simp [Nat.digits_ne_nil_iff_ne_zero.mpr hzero]

theorem mem_printDecimal {m : ℕ} {c : UInt16} (h : c ∈ printDecimal m) :
    ∃ d < 10, c = digit d := by
  rw [printDecimal] at h
  split_ifs at h with hzero
  · exact ⟨0, by decide, List.mem_singleton.mp h⟩
  · obtain ⟨d, hd, rfl⟩ := List.mem_map.mp h
    exact ⟨d, Nat.digits_lt_base (by decide) (List.mem_reverse.mp hd), rfl⟩

theorem readDecimal_printDecimal (m : ℕ) : readDecimal (printDecimal m) = some m := by
  have hall : (printDecimal m).all isDigit = true := by
    rw [List.all_eq_true]
    intro c hc
    obtain ⟨d, hd, rfl⟩ := mem_printDecimal hc
    exact (digit_spec d hd).1
  rw [readDecimal, if_pos hall, printDecimal]
  split_ifs with hzero
  · rw [hzero]
    rfl
  · have hdigits : ((Nat.digits 10 m).map digit).map (fun c => c.toNat - 48) =
        Nat.digits 10 m := by
      rw [List.map_map]
      conv_rhs => rw [← List.map_id (Nat.digits 10 m)]
      apply List.map_congr_left
      intro d hd
      exact (digit_spec d (Nat.digits_lt_base (by decide) hd)).2.1
    rw [← List.map_reverse, List.reverse_reverse, hdigits, Nat.ofDigits_digits]

theorem undotted_of_not_mem {piece : Text} (h : dot ∉ piece) : Undotted (piece ++ [dot]) := by
  induction piece with
  | nil => exact True.intro
  | cons c piece ih =>
      rw [List.mem_cons, not_or] at h
      have hrest := ih h.2
      cases piece with
      | nil => exact ⟨fun hc => h.1 hc.1.symm, hrest⟩
      | cons d piece => exact ⟨fun hc => h.1 hc.1.symm, hrest⟩

theorem whole_printed : whole.Printed where
  number_string n := by
    change (readDecimal (printDecimal n.1)).map Whole.round = some n
    rw [readDecimal_printDecimal, Option.map_some]
    exact congrArg some (Subtype.ext n.2)
  string_ne_nil n := printDecimal_ne_nil n.1
  string_plain n c hc := by
    obtain ⟨d, hd, rfl⟩ := mem_printDecimal hc
    obtain ⟨-, -, hspace, hquote, -⟩ := digit_spec d hd
    exact ⟨hspace, hquote⟩
  string_undotted n := by
    apply undotted_of_not_mem
    intro hdot
    obtain ⟨d, hd, heq⟩ := mem_printDecimal hdot
    exact (digit_spec d hd).2.2.2.2 heq.symm

theorem whole_doubles : whole.Doubles where
  zero := rfl
  injective n m i hn hm := by
    have hsome : (some (n.1 : ℤ)) = some (m.1 : ℤ) := hn.trans hm.symm
    exact Subtype.ext (by exact_mod_cast Option.some.inj hsome)
  held n k hk := by
    obtain rfl : n.1 = k := by exact_mod_cast Option.some.inj hk
    exact n.2
  exceeds_iff n i bound hi := by
    obtain rfl := Option.some.inj hi
    exact decide_eq_true_iff
  minusOne n k hk := by
    obtain hvalue : n.1 = k + 1 := by exact_mod_cast Option.some.inj hk
    change some ((nearest 53 (n.1 - 1) : ℕ) : ℤ) = _
    rw [hvalue, Nat.add_sub_cancel]
  plusOne n k hk := by
    obtain rfl : n.1 = k := by exact_mod_cast Option.some.inj hk
    rfl

/-! ## What comes back -/

/-- A query string comes back if it is faithful, and an address if its query string is and its
page is not the one past the first gap between doubles. -/
theorem comesBack_iff_faithful (numbers : Numbers N) (hprinted : numbers.Printed)
    (hdoubles : numbers.Doubles) (variants : FilterVariants) :
    (∀ input, ComesBack numbers variants input ↔ Faithful numbers variants input) ∧
      ∀ (params : Params) (pageSize : N),
        AddressComesBack numbers variants params pageSize ↔
          Faithful numbers variants (params.q.getD []) ∧
            (params.page.bind numbers.number).bind numbers.asInt ≠ some (2 ^ 53 + 2) := by
  refine ⟨fun input => comesBack_iff hprinted, fun params pageSize => ?_⟩
  rw [addressComesBack_iff hprinted hdoubles, comesBack_iff hprinted]

/-- The columns of a table of issues. -/
def issueColumns : FilterVariants := fun id =>
  if id = ascii "level" then .variant .options
  else if id = ascii "events" then .variant .range
  else if id = ascii "release" then .variant .text
  else if id = ascii "constructor" then .inherited
  else .absent

theorem comesBack_iff_faithful_issueColumns :
    (∀ input, ComesBack whole issueColumns input ↔ Faithful whole issueColumns input) ∧
      ∀ (params : Params) (pageSize : Whole),
        AddressComesBack whole issueColumns params pageSize ↔
          Faithful whole issueColumns (params.q.getD []) ∧
            (params.page.bind whole.number).bind whole.asInt ≠ some (2 ^ 53 + 2) :=
  comesBack_iff_faithful whole whole_printed whole_doubles issueColumns

/-- Two ranges of one column are merged into four bounds, of which two are written. -/
theorem mergedRange_differs :
    let filters := [⟨ascii "events", .array ([1, 5, 2, 9].map fun m => .number (Whole.round m))⟩]
    parseFilterQuery whole (ascii "events:1..5 events:2..9") issueColumns = some (filters, []) ∧
      formatFilterQuery whole filters [] issueColumns = ascii "events:1..5" ∧
      parseFilterQuery whole (formatFilterQuery whole filters [] issueColumns) issueColumns ≠
        some (filters, []) := by
  decide +kernel

end Rustrak.DataTable
