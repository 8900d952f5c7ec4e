import Mathlib.Data.List.Induction
import Mathlib.Data.List.Nodup
import Mathlib.Data.List.Perm.Basic
import Mathlib.Data.List.TakeWhile
import Rustrak.DataTable.Tokens

/-!
# The query string as an address

Parsing what formatting wrote is to give back what parsing gave.

## Strategy

What a codec parsed it writes as a token that it parses to the same (`format_parse`), except
that a range of more or fewer than two bounds is cut to two (`cut`); only merging makes such
a range.  Filters keep their own keys, so merging them again changes nothing.  The free text
comes back as one token, and is free text only if it is read as that.
-/

namespace Rustrak.DataTable

variable {N : Type}

/-- What is known of numbers in strings. -/
structure Numbers.Printed (numbers : Numbers N) : Prop where
  number_string : ∀ n, numbers.number (numbers.string n) = some n
  string_ne_nil : ∀ n, numbers.string n ≠ []
  string_plain : ∀ n, ∀ c ∈ numbers.string n, isSpace c = false ∧ c ≠ quote
  string_undotted : ∀ n, Undotted (numbers.string n ++ [dot])

/-! ## Tokens and keys -/

/-- A key as the pattern of a token asks for it. -/
structure IsKey (id : Text) : Prop where
  ne_nil : id ≠ []
  units : ∀ c ∈ id, isKeyUnit c = true

/-- A value that is there and on one line. -/
structure IsValue (raw : Text) : Prop where
  ne_nil : raw ≠ []
  lines : ∀ c ∈ raw, isLineEnd c = false

theorem matchToken_eq_some_iff {token id raw : Text} : matchToken token = some (id, raw) ↔
    token = id ++ colon :: raw ∧ IsKey id ∧ ∀ c ∈ raw, isLineEnd c = false := by
  constructor
  · intro h
    unfold matchToken at h
    split at h
    · next c rest hdrop =>
        dsimp only at h
        split_ifs at h with hmatch
        obtain ⟨rfl, rfl⟩ := Prod.mk.inj (Option.some.inj h)
        simp only [Bool.and_eq_true, Bool.not_eq_true', List.isEmpty_eq_false_iff, beq_iff_eq,
          List.all_eq_true] at hmatch
        obtain ⟨⟨hid, rfl⟩, hlines⟩ := hmatch
        have htoken := List.takeWhile_append_dropWhile (p := isKeyUnit) (l := token)
        rw [hdrop] at htoken
        exact ⟨htoken.symm, ⟨hid, fun c hc => List.mem_takeWhile_imp hc⟩, hlines⟩
    · contradiction
  · rintro ⟨rfl, hkey, hlines⟩
    have htake : (id ++ colon :: raw).takeWhile isKeyUnit = id := by
      rw [List.takeWhile_append_of_pos hkey.units, List.takeWhile_cons_of_neg (by decide),
        List.append_nil]
    have hdrop : (id ++ colon :: raw).dropWhile isKeyUnit = colon :: raw := by
      rw [List.dropWhile_append_of_pos hkey.units, List.dropWhile_cons_of_neg (by decide)]
    unfold matchToken
    rw [hdrop]
    dsimp only
    rw [htake, if_pos]
    simpa [hkey.ne_nil] using hlines

/-! ## Codecs -/

/-- What a codec of the variant parses, or merging makes of it. -/
def Well : Variant → FilterValue N → Prop
  | .options, .array entries => entries ≠ [] ∧
      ∀ e ∈ entries, ∃ name, e = .string name ∧ IsValue name ∧ comma ∉ name
  | .text, .string s => IsValue s
  | .range, .array entries => (∀ e ∈ entries, ∀ s, e ≠ .string s) ∧ (∃ e ∈ entries, e ≠ .null) ∧
      (entries.Nodup ∨ entries.length = 2)
  | _, _ => False

/-- A range as two bounds, of which a missing one is open. -/
def cut : Variant → FilterValue N → FilterValue N
  | .range, .array entries => .array [entries[0]?.getD .null, entries[1]?.getD .null]
  | _, value => value

variable {numbers : Numbers N} {v : Variant} {value : FilterValue N} {raw : Text}

theorem parseBound_eq {part : Text} {e : Entry N} (h : parseBound numbers part = some e) :
    ∀ s, e ≠ .string s := by
  rintro s rfl
  unfold parseBound at h
  split_ifs at h
  · exact absurd (Option.some.inj h) (by simp)
  · obtain ⟨n, -, hn⟩ := Option.map_eq_some_iff.mp h
    contradiction

theorem parseRange_eq {min max : Entry N} (h : parseRange numbers raw = some (min, max)) :
    (∀ s, min ≠ .string s) ∧ (∀ s, max ≠ .string s) ∧ ¬(min = .null ∧ max = .null) := by
  unfold parseRange at h
  split at h
  · split at h
    · contradiction
    · next hnot hmin hmax =>
        obtain ⟨rfl, rfl⟩ := Prod.mk.inj (Option.some.inj h)
        exact ⟨parseBound_eq hmin, parseBound_eq hmax, fun hboth => hnot hboth.1 hboth.2⟩
    · contradiction
  · contradiction

/-- The codec of the variant parses a value. -/
theorem parse_well (hraw : IsValue raw) (h : (codec numbers v).parse raw = .filter value) :
    Well v value := by
  cases v with
  | options =>
      simp only [codec, optionsCodec] at h
      split_ifs at h with hempty
      obtain rfl := ParsedValue.filter.inj h
      refine ⟨by simpa using hempty, fun e he => ?_⟩
      obtain ⟨name, hname, rfl⟩ := List.mem_map.mp he
      refine ⟨name, rfl, ?_⟩
      obtain ⟨hname, hne⟩ := List.mem_filter.mp hname
      obtain ⟨hcomma, hmem⟩ := not_mem_of_mem_splitAt List.not_mem_nil hname
      refine ⟨⟨by simpa using hne, fun c hc => hraw.lines c ?_⟩, hcomma⟩
      exact (hmem c hc).resolve_left List.not_mem_nil
  | range =>
      simp only [codec, rangeCodec] at h
      split at h
      · next min max hrange =>
          obtain rfl := ParsedValue.filter.inj h
          obtain ⟨hmin, hmax, hboth⟩ := parseRange_eq hrange
          refine ⟨?_, ?_, .inr rfl⟩
          · intro e he
            rcases List.mem_pair.mp he with rfl | rfl
            · exact hmin
            · exact hmax
          · by_contra hnone
            simp only [not_exists, not_and, not_not] at hnone
            exact hboth ⟨hnone min (by simp), hnone max (by simp)⟩
      · contradiction
  | text =>
      obtain rfl := ParsedValue.filter.inj h
      exact hraw

/-! ## Writing values -/

theorem isSpace_of_isLineEnd {c : UInt16} (h : isLineEnd c = true) : isSpace c = true := by
  rw [isSpace, h, Bool.or_true]

/-- A bound as it is written. -/
theorem print_bound (hprinted : numbers.Printed) {e : Entry N} (he : ∀ s, e ≠ .string s) :
    parseBound numbers (e.print numbers) = some e ∧ Undotted (e.print numbers ++ [dot]) ∧
      ∀ c ∈ e.print numbers, isSpace c = false ∧ c ≠ quote := by
  cases e with
  | string s => exact absurd rfl (he s)
  | null => exact ⟨rfl, True.intro, fun c hc => absurd hc List.not_mem_nil⟩
  | number n =>
      refine ⟨?_, hprinted.string_undotted n, hprinted.string_plain n⟩
      rw [Entry.print, parseBound, if_neg (by simpa using hprinted.string_ne_nil n),
        hprinted.number_string]
      rfl

theorem parseRange_print (hprinted : numbers.Printed) {min max : Entry N}
    (hmin : ∀ s, min ≠ .string s) (hmax : ∀ s, max ≠ .string s)
    (hboth : ¬(min = .null ∧ max = .null)) :
    parseRange numbers (min.print numbers ++ [dot, dot] ++ max.print numbers) =
      some (min, max) := by
  obtain ⟨hparseMin, hundotted, -⟩ := print_bound hprinted hmin
  obtain ⟨hparseMax, hundotted', -⟩ := print_bound hprinted hmax
  have hsplit : splitDots (min.print numbers ++ [dot, dot] ++ max.print numbers) [] =
      [min.print numbers, max.print numbers] := by
    rw [List.append_assoc, List.cons_append, List.singleton_append,
      splitDots_of_undotted hundotted, splitDots_last hundotted']
    rfl
  unfold parseRange
  rw [hsplit]
  dsimp only
  rw [hparseMin, hparseMax]
  split
  · next heq heq' => exact absurd ⟨Option.some.inj heq, Option.some.inj heq'⟩ hboth
  · next heq heq' =>
      rw [Option.some.inj heq, Option.some.inj heq']
  · next hnot => exact absurd rfl (hnot _ _ rfl)

theorem mem_joinWith {separator : Text} {pieces : List Text} {c : UInt16}
    (h : c ∈ joinWith separator pieces) : c ∈ separator ∨ ∃ piece ∈ pieces, c ∈ piece := by
  induction pieces with
  | nil => exact absurd h List.not_mem_nil
  | cons piece pieces ih =>
      cases pieces with
      | nil => exact .inr ⟨piece, List.mem_cons_self, h⟩
      | cons next later =>
          rw [joinWith, List.mem_append, List.mem_append] at h
          rcases h with (h | h) | h
          · exact .inr ⟨piece, List.mem_cons_self, h⟩
          · exact .inl h
          · rcases ih h with h | ⟨other, hother, h⟩
            · exact .inl h
            · exact .inr ⟨other, List.mem_cons_of_mem _ hother, h⟩

theorem joinWith_ne_nil {separator piece : Text} {pieces : List Text} (hpiece : piece ≠ []) :
    joinWith separator (piece :: pieces) ≠ [] := by
  cases pieces with
  | nil => exact hpiece
  | cons next later => simp [joinWith, hpiece]

variable (numbers) in
/-- Names that are joined are one value, split again into the same names. -/
theorem parse_names {names : List Text} (hne : names ≠ [])
    (hnames : ∀ name ∈ names, IsValue name ∧ comma ∉ name) :
    IsValue (joinWith [comma] names) ∧
      (optionsCodec numbers).parse (joinWith [comma] names) =
        .filter (.array (names.map .string)) := by
  constructor
  · constructor
    · cases names with
      | nil => contradiction
      | cons name names => exact joinWith_ne_nil (hnames name List.mem_cons_self).1.ne_nil
    · intro c hc
      rcases mem_joinWith hc with hc | ⟨name, hname, hc⟩
      · rw [List.mem_singleton.mp hc]
        decide
      · exact (hnames name hname).1.lines c hc
  · have hsplit := splitAt_join hne fun name hname => (hnames name hname).2
    have hkeep : names.filter (fun name => !name.isEmpty) = names := by
      rw [List.filter_eq_self]
      intro name hname
      simpa using (hnames name hname).1.ne_nil
    have hempty : ¬names.isEmpty = true := by simpa using hne
    simp only [optionsCodec, hsplit, hkeep, if_neg hempty]

theorem isLineEnd_of_not_isSpace {c : UInt16} (h : isSpace c = false) : isLineEnd c = false := by
  by_contra hend
  rw [Bool.not_eq_false] at hend
  rw [isSpace_of_isLineEnd hend] at h
  contradiction

/-- Two bounds, written with the dots between them. -/
theorem parse_bounds (hprinted : numbers.Printed) {min max : Entry N}
    (hmin : ∀ s, min ≠ .string s) (hmax : ∀ s, max ≠ .string s)
    (hboth : ¬(min = .null ∧ max = .null)) :
    let formatted := min.print numbers ++ [dot, dot] ++ max.print numbers
    Writes formatted formatted ∧ IsValue formatted ∧
      (rangeCodec numbers).parse formatted = .filter (.array [min, max]) := by
  intro formatted
  obtain ⟨-, -, hplain⟩ := print_bound hprinted hmin
  obtain ⟨-, -, hplain'⟩ := print_bound hprinted hmax
  have hunits : ∀ c ∈ formatted, isSpace c = false ∧ c ≠ quote := by
    intro c hc
    rcases List.mem_append.mp hc with hc | hc
    · rcases List.mem_append.mp hc with hc | hc
      · exact hplain c hc
      · rcases List.mem_pair.mp hc with rfl | rfl <;> decide
    · exact hplain' c hc
  refine ⟨?_, ⟨by simp [formatted], fun c hc => isLineEnd_of_not_isSpace (hunits c hc).1⟩, ?_⟩
  · apply Writes.plain
    intro c hc
    obtain ⟨hspace, hquote⟩ := hunits c hc
    refine ⟨hquote, ?_⟩
    rintro rfl
    rw [isSpace_space] at hspace
    contradiction
  · simp only [rangeCodec, formatted, parseRange_print hprinted hmin hmax hboth]

variable (numbers) in
/-- A range is written by its first two bounds, of which one is closed. -/
theorem format_range {entries : List (Entry N)} (h : Well .range (.array entries)) :
    ∃ min max : Entry N, (∀ s, min ≠ .string s) ∧ (∀ s, max ≠ .string s) ∧
      ¬(min = .null ∧ max = .null) ∧
      (rangeCodec numbers).format (.array entries) =
        some (min.print numbers ++ [dot, dot] ++ max.print numbers) ∧
      cut .range (.array entries) = .array [min, max] := by
  obtain ⟨hbounds, ⟨e, he, hnull⟩, hsize⟩ := h
  cases entries with
  | nil => exact absurd he List.not_mem_nil
  | cons min more =>
      cases more with
      | nil =>
          have hmin : e = min := List.mem_singleton.mp he
          refine ⟨min, .null, hbounds min (by simp), by simp, ?_, ?_, rfl⟩
          · rintro ⟨rfl, -⟩
            exact hnull hmin
          · simp [rangeCodec, Entry.print]
      | cons max more =>
          have hboth : ¬(min = .null ∧ max = .null) := by
            rintro ⟨rfl, rfl⟩
            rcases hsize with hnodup | htwo
            · simp at hnodup
            · obtain rfl : more = [] := by simpa using htwo
              exact hnull (by simpa using he)
          refine ⟨min, max, hbounds min (by simp), hbounds max (by simp), hboth, ?_, rfl⟩
          simp only [rangeCodec]
          split
          · next heq =>
              injection heq with heq
              injection heq with hmin heq
              injection heq with hmax heq
              exact absurd ⟨hmin, hmax⟩ hboth
          · next heq =>
              injection heq with heq
              rw [← heq]
              rfl
          · contradiction

theorem exists_names {entries : List (Entry N)} {P : Text → Prop}
    (h : ∀ e ∈ entries, ∃ name, e = .string name ∧ P name) :
    ∃ names : List Text, entries = names.map .string ∧ ∀ name ∈ names, P name := by
  induction entries with
  | nil => exact ⟨[], rfl, by simp⟩
  | cons e entries ih =>
      obtain ⟨name, rfl, hname⟩ := h e List.mem_cons_self
      obtain ⟨names, rfl, hnames⟩ := ih fun e he => h e (List.mem_cons_of_mem _ he)
      exact ⟨name :: names, rfl, List.forall_mem_cons.mpr ⟨hname, hnames⟩⟩

/-- What is known is written as a value that the codec parses, cut if it is a range. -/
theorem format_parse (hprinted : numbers.Printed) (h : Well v value) :
    ∃ formatted raw, (codec numbers v).format value = some formatted ∧ Writes formatted raw ∧
      IsValue raw ∧ (codec numbers v).parse raw = .filter (cut v value) := by
  cases v with
  | options =>
      cases value with
      | string s => exact h.elim
      | array entries =>
          obtain ⟨hne, hentries⟩ := h
          obtain ⟨names, rfl, hnames⟩ := exists_names hentries
          rw [Ne, List.map_eq_nil_iff] at hne
          obtain ⟨hvalue, hparse⟩ := parse_names numbers hne hnames
          refine ⟨quoted (joinWith [comma] names), joinWith [comma] names, ?_, writes_quoted _,
            hvalue, hparse⟩
          have hprint : (names.map Entry.string).map (Entry.print numbers) = names := by
            rw [List.map_map]
            exact List.map_id names
          simp only [codec, optionsCodec, hprint]
          rw [if_neg (by simpa using hne)]
  | range =>
      cases value with
      | string s => exact h.elim
      | array entries =>
          obtain ⟨min, max, hmin, hmax, hboth, hformat, hcut⟩ := format_range numbers h
          obtain ⟨hwrites, hvalue, hparse⟩ := parse_bounds hprinted hmin hmax hboth
          exact ⟨_, _, hformat, hwrites, hvalue, by rw [hcut]; exact hparse⟩
  | text =>
      cases value with
      | array entries => exact h.elim
      | string s =>
          refine ⟨quoted s, s, ?_, writes_quoted s, h, rfl⟩
          exact if_neg (by simpa using h.ne_nil)

/-! ## Merging -/

section Merging

variable [DecidableEq N]

theorem setOf_append {α : Type} [DecidableEq α] (found entries : List α) (hfound : found.Nodup) :
    let all := entries.foldl
      (fun found entry => if entry ∈ found then found else found ++ [entry]) found
    all.Nodup ∧ ∀ e, e ∈ all ↔ e ∈ found ∨ e ∈ entries := by
  induction entries generalizing found with
  | nil => exact ⟨hfound, fun e => by simp⟩
  | cons entry entries ih =>
      rw [List.foldl_cons]
      split_ifs with hmem
      · obtain ⟨hnodup, hall⟩ := ih found hfound
        refine ⟨hnodup, fun e => ?_⟩
        rw [hall, List.mem_cons]
        constructor
        · rintro (h | h)
          · exact .inl h
          · exact .inr (.inr h)
        · rintro (h | rfl | h)
          · exact .inl h
          · exact .inl hmem
          · exact .inr h
      · have hnext : (found ++ [entry]).Nodup := by
          rw [List.nodup_append_comm]
          exact List.nodup_cons.mpr ⟨hmem, hfound⟩
        obtain ⟨hnodup, hall⟩ := ih (found ++ [entry]) hnext
        refine ⟨hnodup, fun e => ?_⟩
        rw [hall, List.mem_append, List.mem_singleton, List.mem_cons, or_assoc]

/-- A set has each entry once. -/
theorem setOf_spec {α : Type} [DecidableEq α] (entries : List α) :
    (setOf entries).Nodup ∧ ∀ e, e ∈ setOf entries ↔ e ∈ entries := by
  obtain ⟨hnodup, hall⟩ := setOf_append [] entries List.nodup_nil
  exact ⟨hnodup, fun e => by rw [setOf, hall]; simp⟩

theorem Well.merge {old new : FilterValue N} (hold : Well v old) (hnew : Well v new) :
    Well v (mergeValue old new) := by
  cases v with
  | options =>
      cases old with
      | string s => exact hold.elim
      | array old =>
          cases new with
          | string s => exact hnew.elim
          | array new =>
              obtain ⟨hne, hentries⟩ := hold
              obtain ⟨-, hentries'⟩ := hnew
              obtain ⟨-, hmem⟩ := setOf_spec (old ++ new)
              constructor
              · obtain ⟨e, he⟩ := List.exists_mem_of_ne_nil old hne
                exact List.ne_nil_of_mem ((hmem e).mpr (List.mem_append_left _ he))
              · intro e he
                rcases List.mem_append.mp ((hmem e).mp he) with he | he
                · exact hentries e he
                · exact hentries' e he
  | text =>
      cases old with
      | array old => exact hold.elim
      | string s => exact hnew
  | range =>
      cases old with
      | string s => exact hold.elim
      | array old =>
          cases new with
          | string s => exact hnew.elim
          | array new =>
              obtain ⟨hbounds, ⟨e, he, hnull⟩, -⟩ := hold
              obtain ⟨hbounds', -, -⟩ := hnew
              obtain ⟨hnodup, hmem⟩ := setOf_spec (old ++ new)
              refine ⟨fun e he => ?_, ⟨e, ?_, hnull⟩, .inl hnodup⟩
              · rcases List.mem_append.mp ((hmem e).mp he) with he | he
                · exact hbounds e he
                · exact hbounds' e he
              · exact (hmem e).mpr (List.mem_append_left _ he)

/-- The values a key comes with. -/
def valuesOf (filters : List (ColumnFilter N)) (id : Text) : List (FilterValue N) :=
  (filters.filter fun f => f.id = id).map ColumnFilter.value

/-- A value merged of several, in order. -/
def MergedOf (values : List (FilterValue N)) (value : FilterValue N) : Prop :=
  ∃ first more, values = first :: more ∧ value = more.foldl mergeValue first

omit [DecidableEq N] in
theorem valuesOf_append (filters : List (ColumnFilter N)) (f : ColumnFilter N) (id : Text) :
    valuesOf (filters ++ [f]) id =
      valuesOf filters id ++ if f.id = id then [f.value] else [] := by
  rw [valuesOf, List.filter_append, List.map_append, ← valuesOf]
  by_cases hid : f.id = id <;> simp [hid]

omit [DecidableEq N] in
theorem valuesOf_eq_nil {filters : List (ColumnFilter N)} {id : Text}
    (h : id ∉ filters.map ColumnFilter.id) : valuesOf filters id = [] := by
  rw [valuesOf, List.map_eq_nil_iff, List.filter_eq_nil_iff]
  intro f hf hid
  exact h (List.mem_map.mpr ⟨f, hf, by simpa using hid⟩)

theorem mergeFilter_ids (f : ColumnFilter N) (merged : List (ColumnFilter N)) :
    (mergeFilter f merged).map ColumnFilter.id =
      if f.id ∈ merged.map ColumnFilter.id then merged.map ColumnFilter.id
      else merged.map ColumnFilter.id ++ [f.id] := by
  induction merged with
  | nil => rfl
  | cons g merged ih =>
      rw [mergeFilter]
      by_cases hid : g.id = f.id
      · simp [hid]
      · have hne : ¬f.id = g.id := fun h => hid h.symm
        rw [if_neg hid, List.map_cons, ih]
        by_cases hmem : f.id ∈ merged.map ColumnFilter.id <;> simp [hmem, hne]

/-- The filter of a key takes the new value in, and no other changes. -/
theorem mem_mergeFilter {f g : ColumnFilter N} {merged : List (ColumnFilter N)}
    (hnodup : (merged.map ColumnFilter.id).Nodup) (h : g ∈ mergeFilter f merged) :
    g.id ≠ f.id ∧ g ∈ merged ∨
      g.id = f.id ∧ (f.id ∉ merged.map ColumnFilter.id ∧ g.value = f.value ∨
        ∃ old ∈ merged, old.id = f.id ∧ g.value = mergeValue old.value f.value) := by
  induction merged with
  | nil =>
      obtain rfl := List.mem_singleton.mp h
      exact .inr ⟨rfl, .inl ⟨by simp, rfl⟩⟩
  | cons first merged ih =>
      rw [List.map_cons, List.nodup_cons] at hnodup
      rw [mergeFilter] at h
      split_ifs at h with hid
      · rcases List.mem_cons.mp h with rfl | hg
        · exact .inr ⟨hid, .inr ⟨first, List.mem_cons_self, hid, rfl⟩⟩
        · refine .inl ⟨?_, List.mem_cons_of_mem _ hg⟩
          rintro hsame
          rw [hid, ← hsame] at hnodup
          exact hnodup.1 (List.mem_map_of_mem hg)
      · rcases List.mem_cons.mp h with rfl | hg
        · exact .inl ⟨hid, List.mem_cons_self⟩
        · rcases ih hnodup.2 hg with ⟨hne, hmem⟩ | ⟨heq, ⟨hnew, hvalue⟩ | ⟨old, hold, h⟩⟩
          · exact .inl ⟨hne, List.mem_cons_of_mem _ hmem⟩
          · refine .inr ⟨heq, .inl ⟨?_, hvalue⟩⟩
            rw [List.map_cons, List.mem_cons, not_or]
            exact ⟨fun h => hid h.symm, hnew⟩
          · exact .inr ⟨heq, .inr ⟨old, List.mem_cons_of_mem _ hold, h⟩⟩

/-- What merging comes to: each key once, with its values merged in order. -/
structure Merges (filters merged : List (ColumnFilter N)) : Prop where
  nodup : (merged.map ColumnFilter.id).Nodup
  ids : ∀ id, id ∈ merged.map ColumnFilter.id ↔ id ∈ filters.map ColumnFilter.id
  values : ∀ g ∈ merged, MergedOf (valuesOf filters g.id) g.value

theorem Merges.step {filters merged : List (ColumnFilter N)} (h : Merges filters merged)
    (f : ColumnFilter N) : Merges (filters ++ [f]) (mergeFilter f merged) where
  nodup := by
    rw [mergeFilter_ids]
    split_ifs with hmem
    · exact h.nodup
    · rw [List.nodup_append_comm]
      exact List.nodup_cons.mpr ⟨hmem, h.nodup⟩
  ids id := by
    rw [mergeFilter_ids, List.map_append, List.mem_append, ← h.ids]
    split_ifs with hmem
    · constructor
      · exact .inl
      · rintro (hid | hid)
        · exact hid
        · rwa [show id = f.id by simpa using hid]
    · rw [List.mem_append]
      rfl
  values g hg := by
    rw [valuesOf_append]
    rcases mem_mergeFilter h.nodup hg with ⟨hne, hmem⟩ | ⟨heq, hvalue⟩
    · rw [if_neg (Ne.symm hne), List.append_nil]
      exact h.values g hmem
    · rw [if_pos heq.symm]
      rcases hvalue with ⟨hnew, hvalue⟩ | ⟨old, hold, hid, hvalue⟩
      · rw [h.ids, ← heq] at hnew
        rw [valuesOf_eq_nil hnew, List.nil_append]
        exact ⟨f.value, [], rfl, hvalue⟩
      · obtain ⟨first, more, hvalues, hmerged⟩ := h.values old hold
        rw [hid, ← heq] at hvalues
        rw [hvalues, List.cons_append]
        exact ⟨first, more ++ [f.value], rfl, by rw [hvalue, hmerged, List.foldl_append]; rfl⟩

theorem merges_mergeFilters (filters : List (ColumnFilter N)) :
    Merges filters (mergeFilters filters) := by
  induction filters using List.reverseRecOn with
  | nil => exact ⟨List.nodup_nil, fun id => Iff.rfl, by simp [mergeFilters]⟩
  | append_singleton filters f ih =>
      have hstep : mergeFilters (filters ++ [f]) = mergeFilter f (mergeFilters filters) := by
        rw [mergeFilters, List.foldl_append]
        rfl
      rw [hstep]
      exact ih.step f

/-- Filters with a key each are merged already. -/
theorem mergeFilters_of_nodup {filters : List (ColumnFilter N)}
    (h : (filters.map ColumnFilter.id).Nodup) : mergeFilters filters = filters := by
  have hnew : ∀ (merged : List (ColumnFilter N)) (f : ColumnFilter N),
      f.id ∉ merged.map ColumnFilter.id → mergeFilter f merged = merged ++ [f] := by
    intro merged f hf
    induction merged with
    | nil => rfl
    | cons g merged ih =>
        rw [List.map_cons, List.mem_cons, not_or] at hf
        rw [mergeFilter, if_neg (Ne.symm hf.1), ih hf.2, List.cons_append]
  induction filters using List.reverseRecOn with
  | nil => rfl
  | append_singleton filters f ih =>
      rw [List.map_append, List.nodup_append_comm] at h
      obtain ⟨hf, hfilters⟩ := List.nodup_cons.mp h
      rw [mergeFilters, List.foldl_append, ← mergeFilters, ih hfilters]
      exact hnew filters f hf

end Merging

end Rustrak.DataTable
