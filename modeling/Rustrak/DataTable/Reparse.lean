import Rustrak.DataTable.RoundTrip

/-!
# Reading what was written

A query string is taken token by token (`parseFilterQuery_eq_some_iff`).  The filters are
written as tokens of their own and the free text as one more (`exists_tokenize`), so reading
them again gives the filters, with ranges cut to two bounds, and the free text if it is read
as such (`reparse_iff`).  A range is cut unless it came once or all it came with are two
bounds (`cut_merged_iff`).
-/

namespace Rustrak.DataTable

variable {N : Type} {numbers : Numbers N} {variants : FilterVariants} {f : ColumnFilter N}
variable {filters : List (ColumnFilter N)} {token : Text} {tokens text : List Text}

/-! ## Tokens by what they are read as -/

section Tokens

variable (numbers variants)

/-- The filter that a token is read as. -/
def filterOf (token : Text) : Option (ColumnFilter N) :=
  match parseToken numbers variants token with
  | some (.filter id value) => some ⟨id, value⟩
  | _ => none

/-- A token is read as free text. -/
def isText (token : Text) : Bool :=
  match parseToken numbers variants token with
  | some .text => true
  | _ => false

end Tokens

theorem filterOf_eq_some_iff : filterOf numbers variants token = some f ↔
    parseToken numbers variants token = some (.filter f.id f.value) := by
  unfold filterOf
  constructor
  · intro h
    split at h
    · next id value hparse =>
        obtain rfl := Option.some.inj h
        exact hparse
    · contradiction
  · intro h
    rw [h]

theorem isText_iff : isText numbers variants token = true ↔
    parseToken numbers variants token = some .text := by
  unfold isText
  split
  · next h => exact iff_of_true rfl h
  · next h => exact iff_of_false Bool.false_ne_true h

theorem parseTokens_cons {parsed : ParsedToken N}
    (hparse : parseToken numbers variants token = some parsed) :
    parseTokens numbers variants (token :: tokens) =
      (parseTokens numbers variants tokens).map fun (filters, text) =>
        ((filterOf numbers variants token).toList ++ filters,
          if isText numbers variants token then token :: text else text) := by
  rw [parseTokens, hparse, filterOf, isText, hparse]
  cases parseTokens numbers variants tokens with
  | none => rfl
  | some rest => cases parsed <;> rfl

theorem parseTokens_eq_some_iff : parseTokens numbers variants tokens = some (filters, text) ↔
    (∀ token ∈ tokens, parseToken numbers variants token ≠ none) ∧
      tokens.filterMap (filterOf numbers variants) = filters ∧
      tokens.filter (isText numbers variants) = text := by
  induction tokens generalizing filters text with
  | nil => simp [parseTokens]
  | cons token tokens ih =>
      have hfilter : (token :: tokens).filterMap (filterOf numbers variants) =
          (filterOf numbers variants token).toList ++
            tokens.filterMap (filterOf numbers variants) := by
        rw [List.filterMap_cons]
        cases filterOf numbers variants token <;> rfl
      rw [List.forall_mem_cons, hfilter, List.filter_cons]
      cases hparse : parseToken numbers variants token with
      | none => simp [parseTokens, hparse]
      | some parsed =>
          rw [parseTokens_cons hparse, Option.map_eq_some_iff]
          constructor
          · rintro ⟨⟨filters', text'⟩, hrest, heq⟩
            obtain ⟨hall, rfl, rfl⟩ := ih.mp hrest
            obtain ⟨hfilters, htext⟩ := Prod.mk.inj heq
            exact ⟨⟨Option.some_ne_none _, hall⟩, hfilters, htext⟩
          · rintro ⟨⟨-, hall⟩, rfl, rfl⟩
            exact ⟨_, ih.mpr ⟨hall, rfl, rfl⟩, rfl⟩

theorem parseToken_eq_none_iff : parseToken numbers variants token = none ↔
    ∃ id raw, matchToken token = some (id, raw) ∧ raw ≠ [] ∧ variants id = .inherited := by
  unfold parseToken
  cases hmatch : matchToken token with
  | none => simp
  | some pair =>
      obtain ⟨id, raw⟩ := pair
      dsimp only
      cases hvariant : variants id with
      | absent => simp [hvariant]
      | inherited => simp [hvariant]
      | variant v =>
          simp only [Option.some.injEq, Prod.mk.injEq]
          split_ifs
          · simp [hvariant]
          · split <;> simp [hvariant]

theorem parseToken_eq_filter_iff {id : Text} {value : FilterValue N} :
    parseToken numbers variants token = some (.filter id value) ↔
      ∃ raw v, matchToken token = some (id, raw) ∧ raw ≠ [] ∧ variants id = .variant v ∧
        (codec numbers v).parse raw = .filter value := by
  unfold parseToken
  cases hmatch : matchToken token with
  | none => simp
  | some pair =>
      obtain ⟨key, raw⟩ := pair
      dsimp only
      constructor
      · intro h
        cases hvariant : variants key with
        | absent => simp [hvariant] at h
        | inherited =>
            rw [hvariant] at h
            dsimp only at h
            split_ifs at h
            simp at h
        | variant v =>
            rw [hvariant] at h
            dsimp only at h
            split_ifs at h with hempty
            · simp at h
            · cases hparse : (codec numbers v).parse raw with
              | text => simp [hparse] at h
              | drop => simp [hparse] at h
              | filter value =>
                  rw [hparse] at h
                  obtain ⟨rfl, rfl⟩ := ParsedToken.filter.inj (Option.some.inj h)
                  exact ⟨raw, v, rfl, by simpa using hempty, hvariant, hparse⟩
      · rintro ⟨raw', v, heq, hne, hvariant, hparse⟩
        obtain ⟨rfl, rfl⟩ := Prod.mk.inj (Option.some.inj heq)
        rw [hvariant]
        dsimp only
        rw [if_neg (by simpa using hne), hparse]

/-! ## Filters of the table -/

/-- A filter of a column of the table, with a value its variant can come to. -/
def Fits (variants : FilterVariants) (f : ColumnFilter N) : Prop :=
  IsKey f.id ∧ ∃ v, variants f.id = .variant v ∧ Well v f.value

/-- A filter whose range is cut to two bounds. -/
def cutFilter (variants : FilterVariants) (f : ColumnFilter N) : ColumnFilter N :=
  match variants f.id with
  | .variant v => { f with value := cut v f.value }
  | _ => f

@[simp] theorem cutFilter_id : (cutFilter variants f).id = f.id := by
  unfold cutFilter
  split <;> rfl

theorem cutFilter_value {v : Variant} (h : variants f.id = .variant v) :
    (cutFilter variants f).value = cut v f.value := by
  rw [cutFilter, h]

theorem cutFilter_eq_iff : cutFilter variants f = f ↔ (cutFilter variants f).value = f.value := by
  constructor
  · exact congrArg ColumnFilter.value
  · intro h
    have hid := @cutFilter_id N variants f
    cases hcut : cutFilter variants f with
    | mk id value =>
        rw [hcut] at hid h
        dsimp only at hid h
        rw [hid, h]

theorem cut_of_parse {v : Variant} {raw : Text} {value : FilterValue N}
    (h : (codec numbers v).parse raw = .filter value) : cut v value = value := by
  cases v with
  | options => rfl
  | text => rfl
  | range =>
      simp only [codec, rangeCodec] at h
      split at h
      · obtain rfl := ParsedValue.filter.inj h
        rfl
      · contradiction

/-- What a token is read as fits the table, and a range has two bounds. -/
theorem fits_of_filterOf (h : filterOf numbers variants token = some f) :
    Fits variants f ∧ (cutFilter variants f).value = f.value := by
  obtain ⟨raw, v, hmatch, hne, hvariant, hparse⟩ :=
    parseToken_eq_filter_iff.mp (filterOf_eq_some_iff.mp h)
  obtain ⟨-, hkey, hlines⟩ := matchToken_eq_some_iff.mp hmatch
  refine ⟨⟨hkey, v, hvariant, parse_well ⟨hne, hlines⟩ hparse⟩, ?_⟩
  rw [cutFilter_value hvariant, cut_of_parse hparse]

theorem writes_key {id : Text} (h : IsKey id) : Writes (id ++ [colon]) (id ++ [colon]) := by
  apply Writes.plain
  intro c hc
  have hplain : c ≠ quote ∧ c ≠ space ∨ isKeyUnit c = false := by
    by_cases hquote : c = quote
    · rw [hquote]
      exact .inr (by decide)
    · by_cases hspace : c = space
      · rw [hspace]
        exact .inr (by decide)
      · exact .inl ⟨hquote, hspace⟩
  rcases List.mem_append.mp hc with hkey | hcolon
  · exact hplain.resolve_right (by simp [h.units c hkey])
  · rw [List.mem_singleton.mp hcolon]
    decide

/-- A filter that fits is written as a token of its own. -/
theorem exists_token (hprinted : numbers.Printed) (h : Fits variants f) :
    ∃ piece token, formatFilter numbers variants f = some piece ∧ Writes piece token ∧
      token ≠ [] ∧ filterOf numbers variants token = some (cutFilter variants f) := by
  obtain ⟨hkey, v, hvariant, hwell⟩ := h
  obtain ⟨formatted, raw, hformat, hwrites, hraw, hparse⟩ := format_parse hprinted hwell
  refine ⟨f.id ++ [colon] ++ formatted, f.id ++ [colon] ++ raw, ?_,
    (writes_key hkey).append hwrites, by simp, ?_⟩
  · rw [formatFilter, hvariant]
    dsimp only
    rw [hformat, Option.map_some, List.append_assoc, List.singleton_append]
  · rw [filterOf_eq_some_iff, parseToken_eq_filter_iff, cutFilter_id, cutFilter_value hvariant]
    refine ⟨raw, v, matchToken_eq_some_iff.mpr ⟨?_, hkey, hraw.lines⟩, hraw.ne_nil, hvariant,
      hparse⟩
    rw [List.append_assoc, List.singleton_append]

theorem filterOf_isSome (h : (filterOf numbers variants token).isSome) :
    parseToken numbers variants token ≠ none ∧ isText numbers variants token = false := by
  obtain ⟨f, hf⟩ := Option.isSome_iff_exists.mp h
  rw [filterOf_eq_some_iff] at hf
  rw [isText, hf]
  exact ⟨Option.some_ne_none _, rfl⟩

/-- Filters that fit are written as tokens that are read as the same filters, cut. -/
theorem exists_written (hprinted : numbers.Printed) (h : ∀ f ∈ filters, Fits variants f) :
    ∃ pieces tokens, filters.filterMap (formatFilter numbers variants) = pieces ∧
      List.Forall₂ Writes pieces tokens ∧
      (∀ token ∈ tokens, token ≠ [] ∧ (filterOf numbers variants token).isSome) ∧
      tokens.filterMap (filterOf numbers variants) = filters.map (cutFilter variants) := by
  induction filters with
  | nil => exact ⟨[], [], rfl, .nil, by simp, rfl⟩
  | cons f filters ih =>
      obtain ⟨hf, hfilters⟩ := List.forall_mem_cons.mp h
      obtain ⟨piece, token, hformat, hwrites, hne, hread⟩ := exists_token hprinted hf
      obtain ⟨pieces, tokens, hformats, hall, hnes, hreads⟩ := ih hfilters
      refine ⟨piece :: pieces, token :: tokens, ?_, .cons hwrites hall,
        List.forall_mem_cons.mpr ⟨⟨hne, by rw [hread]; rfl⟩, hnes⟩, ?_⟩
      · rw [List.filterMap_cons, hformat, hformats]
      · rw [List.filterMap_cons, hread, hreads, List.map_cons]

/-! ## Reading what was written -/

theorem parseToken_nil : parseToken numbers variants [] = some .text := rfl

variable {input search : Text}

variable (search) in
/-- The tokens of the query string that is written. -/
theorem exists_tokenize (hprinted : numbers.Printed) (h : ∀ f ∈ filters, Fits variants f) :
    ∃ tokens, tokenize (formatFilterQuery numbers filters search variants) =
        tokens ++ (if search.isEmpty then [] else [search]) ∧
      (∀ token ∈ tokens, (filterOf numbers variants token).isSome) ∧
      tokens.filterMap (filterOf numbers variants) = filters.map (cutFilter variants) := by
  obtain ⟨pieces, tokens, hformat, hwrites, hne, hread⟩ := exists_written hprinted h
  refine ⟨tokens, ?_, fun token htoken => (hne token htoken).2, hread⟩
  rw [formatFilterQuery, hformat]
  apply tokenize_join
  · apply List.rel_append hwrites
    split_ifs
    · exact .nil
    · exact .cons (writes_quoted search) .nil
  · intro token htoken
    rcases List.mem_append.mp htoken with htoken | htoken
    · exact (hne token htoken).1
    · split_ifs at htoken with hempty
      · contradiction
      · rw [List.mem_singleton.mp htoken]
        simpa using hempty

section Reading

variable [DecidableEq N]

theorem parseFilterQuery_eq_some_iff :
    parseFilterQuery numbers input variants = some (filters, search) ↔
      (∀ token ∈ tokenize input, parseToken numbers variants token ≠ none) ∧
        mergeFilters ((tokenize input).filterMap (filterOf numbers variants)) = filters ∧
        joinWith [space] ((tokenize input).filter (isText numbers variants)) = search := by
  rw [parseFilterQuery]
  constructor
  · intro h
    obtain ⟨⟨filters', text'⟩, hparse, heq⟩ := Option.bind_eq_some_iff.mp h
    obtain ⟨hall, rfl, rfl⟩ := parseTokens_eq_some_iff.mp hparse
    obtain ⟨hfilters, hsearch⟩ := Prod.mk.inj (Option.some.inj heq)
    exact ⟨hall, hfilters, hsearch⟩
  · rintro ⟨hall, rfl, rfl⟩
    rw [parseTokens_eq_some_iff.mpr ⟨hall, rfl, rfl⟩]
    rfl

/-- What was parsed and written is parsed to the same, if no range is cut and the free text is
read as such. -/
theorem reparse_iff (hprinted : numbers.Printed) (h : ∀ f ∈ filters, Fits variants f)
    (hnodup : (filters.map ColumnFilter.id).Nodup) :
    parseFilterQuery numbers (formatFilterQuery numbers filters search variants) variants =
        some (filters, search) ↔
      (∀ f ∈ filters, (cutFilter variants f).value = f.value) ∧
        parseToken numbers variants search = some .text := by
  obtain ⟨tokens, htokens, hfilter, hread⟩ := exists_tokenize search hprinted h
  have htext : tokens.filter (isText numbers variants) = [] := by
    rw [List.filter_eq_nil_iff]
    intro token htoken
    simp [(filterOf_isSome (hfilter token htoken)).2]
  have hknown : ∀ token ∈ tokens, parseToken numbers variants token ≠ none :=
    fun token htoken => (filterOf_isSome (hfilter token htoken)).1
  have hmerge : mergeFilters (filters.map (cutFilter variants)) = filters ↔
      ∀ f ∈ filters, (cutFilter variants f).value = f.value := by
    have hids : (filters.map (cutFilter variants)).map ColumnFilter.id =
        filters.map ColumnFilter.id := by
      rw [List.map_map]
      exact List.map_congr_left fun f _ => cutFilter_id
    rw [mergeFilters_of_nodup (by rwa [hids])]
    have hmap := @List.map_inj_left _ _ filters (cutFilter variants) id
    rw [List.map_id] at hmap
    rw [hmap]
    exact forall₂_congr fun f _ => cutFilter_eq_iff
  rw [parseFilterQuery_eq_some_iff, htokens, List.filterMap_append, List.filter_append, hread,
    htext, List.nil_append, ← hmerge]
  by_cases hempty : search = []
  · subst hempty
    rw [if_pos List.isEmpty_nil, List.append_nil, List.filterMap_nil, List.append_nil, List.filter_nil]
    constructor
    · rintro ⟨-, hfilters, -⟩
      exact ⟨hfilters, parseToken_nil⟩
    · rintro ⟨hfilters, -⟩
      exact ⟨hknown, hfilters, rfl⟩
  · rw [if_neg (by simpa using hempty)]
    constructor
    · rintro ⟨-, hfilters, hsearch⟩
      have hread : isText numbers variants search = true := by
        by_contra hnot
        rw [List.filter_cons_of_neg hnot] at hsearch
        exact hempty hsearch.symm
      rw [isText_iff] at hread
      have hnone : filterOf numbers variants search = none := by rw [filterOf, hread]
      rw [List.filterMap_cons, hnone, List.filterMap_nil, List.append_nil] at hfilters
      exact ⟨hfilters, hread⟩
    · rintro ⟨hfilters, hread⟩
      have hnone : filterOf numbers variants search = none := by rw [filterOf, hread]
      refine ⟨?_, ?_, ?_⟩
      · intro token htoken
        rcases List.mem_append.mp htoken with htoken | htoken
        · exact hknown token htoken
        · rw [List.mem_singleton.mp htoken, hread]
          exact Option.some_ne_none _
      · rw [List.filterMap_cons, hnone, List.filterMap_nil, List.append_nil, hfilters]
      · rw [List.filter_cons_of_pos (isText_iff.mpr hread)]
        rfl

/-! ## Merged ranges -/

omit [DecidableEq N] in
/-- The entries of an array. -/
def entriesOf : FilterValue N → List (Entry N)
  | .array entries => entries
  | .string _ => []

theorem MergedOf.well {v : Variant} {values : List (FilterValue N)} {value : FilterValue N}
    (hmerged : MergedOf values value) (h : ∀ x ∈ values, Well v x) : Well v value := by
  obtain ⟨first, more, rfl, rfl⟩ := hmerged
  obtain ⟨hfirst, hmore⟩ := List.forall_mem_cons.mp h
  clear h
  induction more generalizing first with
  | nil => exact hfirst
  | cons next more ih =>
      obtain ⟨hnext, hmore⟩ := List.forall_mem_cons.mp hmore
      exact ih _ (hfirst.merge hnext) hmore

/-- Arrays are merged into their entries, each once. -/
theorem foldl_mergeValue (first : List (Entry N)) (more : List (List (Entry N))) :
    ∃ entries, (more.map FilterValue.array).foldl mergeValue (.array first) = .array entries ∧
      (∀ e, e ∈ entries ↔ e ∈ first ∨ e ∈ more.flatten) ∧ (more ≠ [] → entries.Nodup) := by
  induction more using List.reverseRecOn with
  | nil => exact ⟨first, rfl, by simp, fun h => absurd rfl h⟩
  | append_singleton more last ih =>
      obtain ⟨entries, hfold, hmem, -⟩ := ih
      obtain ⟨hnodup, hset⟩ := setOf_spec (entries ++ last)
      refine ⟨setOf (entries ++ last), ?_, fun e => ?_, fun _ => hnodup⟩
      · rw [List.map_append, List.foldl_append, hfold]
        rfl
      · rw [hset, List.mem_append, hmem, List.flatten_append, List.mem_append, or_assoc]
        simp

omit [DecidableEq N] in
theorem cut_range_iff {entries : List (Entry N)} :
    cut .range (.array entries) = .array entries ↔ entries.length = 2 := by
  constructor
  · intro h
    have hentries := FilterValue.array.inj h
    rw [← hentries]
    rfl
  · intro h
    obtain ⟨min, max, rfl⟩ := List.length_eq_two.mp h
    rfl

omit [DecidableEq N] in
theorem exists_arrays {values : List (FilterValue N)} (h : ∀ x ∈ values, Well .range x) :
    ∃ arrays : List (List (Entry N)), values = arrays.map FilterValue.array := by
  induction values with
  | nil => exact ⟨[], rfl⟩
  | cons value values ih =>
      obtain ⟨hvalue, hvalues⟩ := List.forall_mem_cons.mp h
      obtain ⟨arrays, rfl⟩ := ih hvalues
      cases value with
      | string s => exact hvalue.elim
      | array entries => exact ⟨entries :: arrays, rfl⟩

/-- A merged range keeps two bounds if it came once, or if all it came with are two bounds. -/
theorem cut_merged_iff {values : List (FilterValue N)} {value : FilterValue N}
    (hmerged : MergedOf values value) (hwell : ∀ x ∈ values, Well .range x)
    (hcut : ∀ x ∈ values, cut .range x = x) :
    cut .range value = value ↔
      values.length ≤ 1 ∨ (setOf (values.flatMap entriesOf)).length = 2 := by
  obtain ⟨arrays, rfl⟩ := exists_arrays hwell
  obtain ⟨first, more, hvalues, rfl⟩ := hmerged
  obtain ⟨firstEntries, moreEntries, rfl, rfl, rfl⟩ := List.map_eq_cons_iff.mp hvalues
  rw [List.length_map]
  by_cases hone : moreEntries = []
  · subst hone
    exact iff_of_true (hcut _ List.mem_cons_self) (.inl le_rfl)
  · obtain ⟨entries, hfold, hmem, hnodup⟩ := foldl_mergeValue firstEntries moreEntries
    have hperm : entries.Perm
        (setOf (((firstEntries :: moreEntries).map FilterValue.array).flatMap entriesOf)) := by
      obtain ⟨hset, hsetMem⟩ :=
        setOf_spec (((firstEntries :: moreEntries).map FilterValue.array).flatMap entriesOf)
      rw [List.perm_ext_iff_of_nodup (hnodup hone) hset]
      intro e
      rw [hmem, hsetMem]
      simp [List.mem_flatMap, entriesOf]
    rw [hfold, cut_range_iff, hperm.length_eq]
    constructor
    · exact .inr
    · rintro (hlength | hlength)
      · rw [List.length_cons] at hlength
        exact absurd (List.length_eq_zero_iff.mp (by omega)) hone
      · exact hlength

end Reading

end Rustrak.DataTable
