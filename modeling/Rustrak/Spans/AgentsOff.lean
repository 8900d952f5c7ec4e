import Rustrak.Spans.Rows

/-!
# A project without agents

With its product turned off, a project is to store no AI span and every other span as
before.  `Gate` says so of what a producer stores with the product on and off.

## Strategy

Both filters are compared with `isAiSpan` on the payload as it came: normalization neither
makes nor unmakes an AI span (`isAiSpan_extract`), the payload filter is `isAiSpan` itself,
and the row filter passes what it should and the spans of `Mistyped` (`passes_iff`).  The
children of a transaction went through the payload filter before, and its root has lost
its attributes, so nothing mistyped reaches the row filter from there.
-/

namespace Rustrak.Spans

open Rustrak.Core

variable {Bytes Double : Type} {format : SpanFormat Bytes Double}

/-- A span that is an AI span only by attributes that are no text. -/
def MistypedSpan (data : Value) (op : Option String) : Prop := isAiOp op = false ∧ Mistyped data

/-- What the gate on rows passes. -/
def passes (row : SpanRow Double) : Bool :=
  row.genAi.operationType.isNone && !isAiSpan .null row.op

theorem insertSpanRows_off (rows : List (SpanRow Double)) :
    insertSpanRows false rows = rows.filter passes := rfl

@[simp] theorem insertSpanRows_on (rows : List (SpanRow Double)) :
    insertSpanRows true rows = rows := by
  simp [insertSpanRows]

theorem insertSpanRows_append (keepAiSpans : Bool) (rows rows' : List (SpanRow Double)) :
    insertSpanRows keepAiSpans (rows ++ rows') =
      insertSpanRows keepAiSpans rows ++ insertSpanRows keepAiSpans rows' :=
  List.filter_append _ _

/-- A row's columns come from its bag and its operation. -/
structure Extracted (row : SpanRow Double) (data : Value) (op : Option String) (bag : Value) :
    Prop where
  ai : isAiSpan bag row.op = isAiSpan data op
  gate_iff : passes row = true ↔ isAiSpan data op = false ∨ MistypedSpan data op

theorem passes_iff (doubles : Doubles Double) {row : SpanRow Double} {data : Value}
    {op : Option String} (hop : isAiOp row.op = isAiOp op)
    (hgenAi : row.genAi = (extractGenAiColumns doubles data op).2) :
    passes row = true ↔ isAiSpan data op = false ∨ MistypedSpan data op := by
  rw [passes, isAiSpan_null, hop, hgenAi, Bool.and_eq_true, Option.isNone_iff_eq_none,
    Bool.not_eq_true']
  by_cases hai : isAiOp op = true
  · have hspan : isAiSpan data op = true := isAiSpan_of_op hai
    simp [hai, hspan, MistypedSpan]
  · rw [Bool.not_eq_true] at hai
    rw [operationType_none_iff hai, and_iff_left hai, MistypedSpan, and_iff_right hai]

/-- Without attributes only the operation says what a span is. -/
theorem passes_iff_of_none {row : SpanRow Double} {op : Option String}
    (hop : isAiOp row.op = isAiOp op) (hgenAi : row.genAi = {}) :
    passes row = true ↔ isAiSpan .null op = false ∨ MistypedSpan .null op := by
  have hmistyped : ¬MistypedSpan .null op := by simp [MistypedSpan, Mistyped]
  rw [passes, isAiSpan_null, isAiSpan_null, hop, hgenAi]
  simp [hmistyped]

theorem isAiSpan_congr {data : Value} {op op' : Option String} (h : isAiOp op = isAiOp op') :
    isAiSpan data op = isAiSpan data op' := by
  rw [isAiSpan, isAiSpan, h]

/-- A row made from a payload whose attributes are its `data`. -/
theorem extracted_normalizeSpan {row : SpanRow Double} {data : Value} {op : Option String}
    (hop : isAiOp row.op = isAiOp op)
    (hgenAi : row.genAi = (normalizeSpan format data row.op).2)
    (hdata : row.data = (normalizeSpan format data row.op).1) :
    Extracted row ((data.get "data").getD .null) op ((row.data.get "data").getD .null) := by
  unfold normalizeSpan at hgenAi hdata
  cases hbag : data.get "data" with
  | none =>
      rw [hbag] at hgenAi hdata
      dsimp only at hgenAi hdata
      rw [hdata, hbag]
      exact ⟨isAiSpan_congr hop, passes_iff_of_none hop hgenAi⟩
  | some bag =>
      rw [hbag] at hgenAi hdata
      dsimp only at hgenAi hdata
      rw [hdata, Value.get_set_self (Value.isObject_of_get hbag), Option.getD_some,
        Option.getD_some]
      refine ⟨?_, ?_⟩
      · rw [isAiSpan_extract]
        exact isAiSpan_congr hop
      · have hpasses := passes_iff format.toDoubles rfl hgenAi
        rw [hpasses, isAiSpan_congr hop, MistypedSpan, MistypedSpan, hop]

theorem extracted_standaloneRow (data : Value) (spanId traceId : String) (start stop : Int) :
    Extracted (standaloneRow format data spanId traceId start stop)
      ((data.get "data").getD .null) (data.str "op")
      (((standaloneRow format data spanId traceId start stop).data.get "data").getD .null) :=
  extracted_normalizeSpan (isAiOp_clamp (by decide)) rfl rfl

variable (format) in
theorem extracted_spanRow (scope : Scope) (span : Value) :
    Extracted (spanRow format scope span) ((span.get "data").getD .null) (span.str "op")
      (((spanRow format scope span).data.get "data").getD .null) :=
  extracted_normalizeSpan (isAiOp_clamp (by decide)) rfl rfl

theorem extracted_entryRow (entry : SpanV2Entry) (start stop : Int) :
    Extracted (entryRow format entry start stop) entry.flatAttributes
      (SpanV2Entry.op entry.flatAttributes) (entryRow format entry start stop).data where
  ai := by
    have hop : isAiOp (entryRow format entry start stop).op =
        isAiOp (SpanV2Entry.op entry.flatAttributes) := isAiOp_clamp (by decide)
    rw [isAiSpan_congr hop]
    exact isAiSpan_extract
  gate_iff := passes_iff format.toDoubles (isAiOp_clamp (by decide)) rfl

/-! ## The gate -/

/-- The payload of a transaction keeps what is no AI span. -/
structure PayloadKept (on off : Value) : Prop where
  children : childSpans off = (childSpans on).filter fun span => !isAiPayload span
  root : ∀ trace ∈ rootTrace on, isAiPayload trace = false → rootTrace off = some trace
  others : ∀ key, key ≠ "spans" → key ≠ "contexts" → off.get key = on.get key

/-- What is stored with the product on, and with it off: no AI span is among the rows or in
the payload, an AI root has no attributes, and all else is the same. -/
structure Gate (attributes : SpanRow Double → Value) (on off : Stored Double) : Prop where
  rows : ∀ row ∈ off.rows, isAiSpan (attributes row) row.op = false
  others : off.rows = on.rows.filter fun row => !isAiSpan (attributes row) row.op
  children : ∀ data ∈ off.transaction, ∀ span ∈ childSpans data, isAiPayload span = false
  root : ∀ data ∈ off.transaction, ∀ trace ∈ rootTrace data, isAiPayload trace = true →
    trace.get "data" = none
  payload : Option.Rel PayloadKept on.transaction off.transaction

/-- The gate holds, or the payload is rejected either way for the same reason. -/
def Gated (format : SpanFormat Bytes Double) (payload : SpanPayload Bytes) : Prop :=
  match process format true payload, process format false payload with
  | .ok on, .ok off => Gate payload.attributes on off
  | .error e, .error e' => e = e'
  | _, _ => False

/-- No span that is accepted on its own is an AI span by attributes that are no text alone. -/
def WellTyped (format : SpanFormat Bytes Double) : SpanPayload Bytes → Prop
  | .spans items => ∀ work ∈ items, ∀ data, format.value work = .ok data →
      (checkSpan format data).isOk → ¬MistypedSpan ((data.get "data").getD .null) (data.str "op")
  | .spanV2 work => ∀ entries, format.container work = .ok entries → ∀ entry ∈ entries,
      entry.times.isSome →
        ¬MistypedSpan entry.flatAttributes (SpanV2Entry.op entry.flatAttributes)
  | .transaction _ _ => True

/-- The two filters on rows agree just when no AI span passes the first. -/
theorem filter_passes_iff {rows : List (SpanRow Double)} {ai : SpanRow Double → Bool}
    (hpass : ∀ row ∈ rows, ai row = false → passes row = true) :
    ((∀ row ∈ rows.filter passes, ai row = false) ∧
      rows.filter passes = rows.filter fun row => !ai row) ↔
    ∀ row ∈ rows, passes row = true → ai row = false := by
  constructor
  · rintro ⟨hnone, _⟩ row hrow hpasses
    exact hnone row (List.mem_filter.mpr ⟨hrow, hpasses⟩)
  · intro hnone
    refine ⟨fun row hrow => ?_, List.filter_congr fun row hrow => ?_⟩
    · obtain ⟨hmem, hpasses⟩ := List.mem_filter.mp hrow
      exact hnone row hmem hpasses
    · rw [Bool.eq_iff_iff, Bool.not_eq_true']
      exact ⟨hnone row hrow, hpass row hrow⟩

/-- Of a row whose columns come from its bag: it is an AI span that passes just when it is
mistyped. -/
theorem Extracted.passes_ai_iff {row : SpanRow Double} {data bag : Value} {op : Option String}
    (h : Extracted row data op bag) :
    (passes row = true → isAiSpan bag row.op = false) ↔ ¬MistypedSpan data op := by
  have hmistyped : MistypedSpan data op → isAiSpan data op = true :=
    fun hm => isAiSpan_iff.mpr (.inl hm.2.1)
  rw [h.gate_iff, h.ai]
  constructor
  · intro hnone hm
    rw [hmistyped hm] at hnone
    exact absurd (hnone (.inr hm)) (by decide)
  · rintro hnot (hai | hm)
    · exact hai
    · exact absurd hm hnot

/-- Rows made one by one are gated when none of them is mistyped. -/
theorem gate_rows_iff {rows : List (SpanRow Double)} {attributes : SpanRow Double → Value}
    (hextracted : ∀ row ∈ rows, ∃ data op, Extracted row data op (attributes row)) :
    Gate attributes ⟨rows, none⟩ ⟨rows.filter passes, none⟩ ↔
      ∀ row ∈ rows, passes row = true → isAiSpan (attributes row) row.op = false := by
  have hpass : ∀ row ∈ rows, isAiSpan (attributes row) row.op = false → passes row = true := by
    intro row hrow hai
    obtain ⟨data, op, h⟩ := hextracted row hrow
    rw [h.gate_iff, ← h.ai]
    exact .inl hai
  rw [← filter_passes_iff hpass]
  constructor
  · intro h
    exact ⟨h.rows, h.others⟩
  · rintro ⟨hrows, hothers⟩
    exact ⟨hrows, hothers, by simp, by simp, .none⟩

/-! ## Standalone spans -/

variable (format) in
/-- The loop of `process_batch`: chunks do not change what is stored. -/
theorem foldl_batchItem (keepAiSpans : Bool) (items : List Bytes)
    (now : List (SpanRow Double) × List (SpanRow Double)) :
    (items.foldl (batchItem format keepAiSpans) now).1 ++
        insertSpanRows keepAiSpans (items.foldl (batchItem format keepAiSpans) now).2 =
      now.1 ++ insertSpanRows keepAiSpans
        (now.2 ++ items.filterMap fun work => (parseItem format work).toOption) := by
  induction items generalizing now with
  | nil => simp
  | cons work items ih =>
      rw [List.foldl_cons, ih]
      unfold batchItem
      cases hparse : parseItem format work with
      | error e => simp [hparse, Except.toOption]
      | ok row =>
          have hrest : (work :: items).filterMap (fun work => (parseItem format work).toOption) =
              [row] ++ items.filterMap fun work => (parseItem format work).toOption := by
            simp [hparse, Except.toOption]
          rw [hrest]
          dsimp only
          split_ifs
          · rw [List.nil_append, ← List.append_assoc now.2, insertSpanRows_append keepAiSpans (_ ++ _),
              List.append_assoc]
          · rw [List.append_assoc]

theorem processBatch_eq (keepAiSpans : Bool) (items : List Bytes) :
    processBatch format keepAiSpans items = insertSpanRows keepAiSpans
      (items.filterMap fun work => (parseItem format work).toOption) := by
  have hloop := foldl_batchItem format keepAiSpans items ([], [])
  simpa [processBatch] using hloop

theorem parseItem_eq_ok_iff {work : Bytes} {row : SpanRow Double} :
    parseItem format work = .ok row ↔ ∃ data spanId traceId start stop,
      format.value work = .ok data ∧
        checkSpan format data = .ok (spanId, traceId, start, stop) ∧
        row = standaloneRow format data spanId traceId start stop := by
  constructor
  · intro h
    unfold parseItem at h
    split at h
    · contradiction
    · next data hdata =>
        obtain ⟨⟨spanId, traceId, start, stop⟩, hcheck, h⟩ := bind_eq_ok h
        exact ⟨data, spanId, traceId, start, stop, hdata, hcheck, (Except.ok.inj h).symm⟩
  · rintro ⟨data, spanId, traceId, start, stop, hdata, hcheck, rfl⟩
    unfold parseItem
    rw [hdata]
    dsimp only
    rw [hcheck]
    rfl

theorem gate_spans_iff (items : List Bytes) :
    Gated format (.spans items) ↔ WellTyped format (.spans items) := by
  have hrows : ∀ row, row ∈ (items.filterMap fun work => (parseItem format work).toOption) ↔
      ∃ work ∈ items, parseItem format work = .ok row := by
    intro row
    simp only [List.mem_filterMap, Except.toOption]
    refine exists_congr fun work => and_congr_right fun _ => ?_
    cases parseItem format work <;> simp
  have hgated : Gated format (.spans items) ↔ ∀ row ∈
      (items.filterMap fun work => (parseItem format work).toOption),
      passes row = true → isAiSpan ((row.data.get "data").getD .null) row.op = false := by
    unfold Gated process
    simp only [processBatch_eq, insertSpanRows_on, insertSpanRows_off]
    refine gate_rows_iff fun row hrow => ?_
    obtain ⟨work, _, hparse⟩ := (hrows row).mp hrow
    obtain ⟨data, spanId, traceId, start, stop, _, _, rfl⟩ := parseItem_eq_ok_iff.mp hparse
    exact ⟨_, _, extracted_standaloneRow data spanId traceId start stop⟩
  rw [hgated]
  constructor
  · intro h work hwork data hdata hcheck
    cases hresult : checkSpan format data with
    | error e =>
        rw [hresult] at hcheck
        contradiction
    | ok ids =>
        obtain ⟨spanId, traceId, start, stop⟩ := ids
        have hparse := parseItem_eq_ok_iff.mpr ⟨data, spanId, traceId, start, stop, hdata,
          hresult, rfl⟩
        rw [← (extracted_standaloneRow data spanId traceId start stop).passes_ai_iff]
        exact h _ ((hrows _).mpr ⟨work, hwork, hparse⟩)
  · intro h row hrow
    obtain ⟨work, hwork, hparse⟩ := (hrows row).mp hrow
    obtain ⟨data, spanId, traceId, start, stop, hdata, hcheck, rfl⟩ :=
      parseItem_eq_ok_iff.mp hparse
    rw [(extracted_standaloneRow data spanId traceId start stop).passes_ai_iff]
    exact h work hwork data hdata (by rw [hcheck]; rfl)

/-! ## Containers -/

theorem gate_spanV2_iff (work : Bytes) :
    Gated format (.spanV2 work) ↔ WellTyped format (.spanV2 work) := by
  unfold Gated process processSpanV2 WellTyped
  cases hcontainer : format.container work with
  | error e => simp [hcontainer, bind, Except.bind]
  | ok entries =>
      simp only [hcontainer, bind, Except.bind, pure, Except.pure, insertSpanRows_on,
        insertSpanRows_off, Except.ok.injEq, forall_eq']
      rw [gate_rows_iff]
      · constructor
        · intro h entry hentry htimes
          obtain ⟨⟨start, stop⟩, hpair⟩ := Option.isSome_iff_exists.mp htimes
          rw [← (extracted_entryRow entry start stop).passes_ai_iff]
          exact h _ (List.mem_filterMap.mpr ⟨entry, hentry, by rw [hpair]; rfl⟩)
        · intro h row hrow
          obtain ⟨entry, hentry, hrow⟩ := List.mem_filterMap.mp hrow
          obtain ⟨⟨start, stop⟩, hpair, rfl⟩ := Option.map_eq_some_iff.mp hrow
          exact (extracted_entryRow entry start stop).passes_ai_iff.mpr
            (h entry hentry (by rw [hpair]; rfl))
      · intro row hrow
        obtain ⟨entry, _, hrow⟩ := List.mem_filterMap.mp hrow
        obtain ⟨⟨start, stop⟩, _, rfl⟩ := Option.map_eq_some_iff.mp hrow
        exact ⟨_, _, extracted_entryRow entry start stop⟩

/-! ## Transactions -/

section Strip

variable {data : Value} {key : String} {keep : Value → Bool}

theorem get_retainSpans (hne : key ≠ "spans") : (retainSpans keep data).get key = data.get key := by
  unfold retainSpans
  split
  · exact Value.get_set_ne hne
  · rfl

theorem childSpans_retainSpans (keep : Value → Bool) (data : Value) :
    childSpans (retainSpans keep data) = (childSpans data).filter keep := by
  unfold childSpans retainSpans
  split
  · next spans hspans =>
      rw [Value.get_set_self (Value.isObject_of_get hspans), hspans]
      rfl
  · next hspans =>
      have hnone : (data.get "spans").bind Value.asArray = none := by
        cases hget : data.get "spans" with
        | none => rfl
        | some v =>
            cases v with
            | array spans => exact absurd hget (hspans spans)
            | _ => rfl
      rw [hnone]
      rfl

theorem rootTrace_retainSpans : rootTrace (retainSpans keep data) = rootTrace data := by
  rw [rootTrace, get_retainSpans (by decide), rootTrace]

/-- The attributes of an AI root, and nothing else of it. -/
def stripTrace (trace : Value) : Value :=
  if isAiPayload trace then trace.remove "data" else trace

theorem get_stripRoot (hne : key ≠ "contexts") : (stripRoot data).get key = data.get key := by
  unfold stripRoot
  split
  · rfl
  · split
    · rfl
    · split_ifs
      · exact Value.get_set_ne hne
      · rfl

theorem childSpans_stripRoot : childSpans (stripRoot data) = childSpans data := by
  rw [childSpans, get_stripRoot (by decide), childSpans]

theorem rootTrace_stripRoot : rootTrace (stripRoot data) = (rootTrace data).map stripTrace := by
  unfold rootTrace stripRoot
  split
  · next hcontexts => rw [hcontexts]; rfl
  · next contexts hcontexts =>
      split
      · next htrace => rw [hcontexts, Option.bind_some, htrace]; rfl
      · next trace htrace =>
          rw [hcontexts, Option.bind_some, htrace, Option.map_some, stripTrace]
          split_ifs with hai
          · rw [Value.get_set_self (Value.isObject_of_get hcontexts), Option.bind_some,
              Value.get_set_self (Value.isObject_of_get htrace)]
          · rw [hcontexts, Option.bind_some, htrace]

theorem get_stripTrace {trace : Value} (hne : key ≠ "data") :
    (stripTrace trace).get key = trace.get key := by
  unfold stripTrace
  split_ifs
  · exact Value.get_remove_ne hne
  · rfl

theorem text_stripTrace {trace : Value} {maxChars : Nat} (hne : key ≠ "data") :
    text (stripTrace trace) key maxChars = text trace key maxChars := by
  rw [text, Value.str, get_stripTrace hne, text, Value.str]

/-- A root that still is an AI span has lost its attributes. -/
theorem get_data_stripTrace {trace : Value} (hai : isAiPayload (stripTrace trace) = true) :
    (stripTrace trace).get "data" = none := by
  unfold stripTrace at hai ⊢
  split_ifs at hai ⊢ with hwas
  · exact Value.get_remove_self
  · exact absurd hai hwas

/-- What is left of the payload. -/
theorem payloadKept_stripAiData (data : Value) : PayloadKept data (stripAiData data) where
  children := by
    rw [stripAiData, childSpans_stripRoot, childSpans_retainSpans]
  root := by
    intro trace htrace hai
    rw [stripAiData, rootTrace_stripRoot, rootTrace_retainSpans, htrace, Option.map_some,
      stripTrace, if_neg (by simp [hai])]
  others := by
    intro key hspans hcontexts
    rw [stripAiData, get_stripRoot hcontexts, get_retainSpans hspans]

end Strip

/-- A promoted root is an AI span, and the gate on rows holds it back. -/
theorem rootRow_gated {scope : Scope} {data trace : Value} {spanId traceId : String}
    {timestamp : Int} {row : SpanRow Double}
    (h : rootRow format scope data trace spanId traceId timestamp = some row) :
    passes row = false ∧ isAiSpan ((row.data.get "data").getD .null) row.op = true := by
  unfold rootRow at h
  dsimp only at h
  split_ifs at h with hpromoted
  obtain rfl := Option.some.inj h
  refine ⟨?_, ?_⟩
  · unfold passes
    rw [Bool.and_eq_false_iff]
    exact .inl (by simpa using hpromoted)
  · dsimp only
    unfold normalizeRoot at hpromoted ⊢
    split_ifs at hpromoted ⊢ with hobject
    · dsimp only at hpromoted ⊢
      rw [Value.get_set_self hobject, Option.getD_some, isAiSpan_extract]
      by_contra hnot
      rw [Bool.not_eq_true] at hnot
      rw [extractGenAiColumns_of_not hnot] at hpromoted
      contradiction
    · contradiction

theorem extractStr_stripAiData {data : Value} {key : String} {maxChars : Nat}
    (hspans : key ≠ "spans") (hcontexts : key ≠ "contexts") :
    extractStr (stripAiData data) key maxChars = extractStr data key maxChars := by
  rw [extractStr, Value.str, (payloadKept_stripAiData data).others key hspans hcontexts,
    extractStr, Value.str]

theorem traceText_stripAiData {data : Value} {key : String} {maxChars : Nat}
    (hne : key ≠ "data") :
    traceText (stripAiData data) key maxChars = traceText data key maxChars := by
  rw [traceText, stripAiData, rootTrace_stripRoot, rootTrace_retainSpans, traceText]
  cases rootTrace data with
  | none => rfl
  | some trace => exact text_stripTrace hne

/-- The rows of what is left share what they shared. -/
theorem scopeOf_stripAiData (ctx : TransactionCtx) (data : Value) :
    scopeOf ctx (stripAiData data) = scopeOf ctx data := by
  unfold scopeOf
  rw [traceText_stripAiData (by decide), extractStr_stripAiData (by decide) (by decide),
    extractStr_stripAiData (by decide) (by decide), extractStr_stripAiData (by decide) (by decide)]

/-- The children come first, and what is promoted is held back. -/
theorem transactionRows_eq (format : SpanFormat Bytes Double) (ctx : TransactionCtx)
    (data : Value) : ∃ roots : List (SpanRow Double),
      transactionRows format ctx data =
        .ok ((childSpans data).map (spanRow format (scopeOf ctx data)) ++ roots) ∧
      ∀ row ∈ roots, passes row = false ∧
        isAiSpan ((row.data.get "data").getD .null) row.op = true := by
  unfold transactionRows
  dsimp only
  split
  · next spanId traceId hspan _ =>
      obtain ⟨trace, htrace, _⟩ := Option.bind_eq_some_iff.mp hspan
      refine ⟨_, by rw [htrace]; rfl, fun row hrow => ?_⟩
      exact rootRow_gated (Option.mem_toList.mp hrow)
  · exact ⟨[], by rw [List.append_nil], by simp⟩

/-- The rows of a transaction without its AI spans are its rows without the AI spans. -/
theorem gate_transactionRows {ctx : TransactionCtx} {data : Value}
    {rows rows' : List (SpanRow Double)} (hon : transactionRows format ctx data = .ok rows)
    (hoff : transactionRows format ctx (stripAiData data) = .ok rows') :
    rows'.filter passes = rows.filter fun row =>
      !isAiSpan ((row.data.get "data").getD .null) row.op := by
  obtain ⟨roots, hrows, hroots⟩ := transactionRows_eq format ctx data
  obtain ⟨roots', hrows', hroots'⟩ := transactionRows_eq format ctx (stripAiData data)
  obtain rfl := Except.ok.inj (hon.symm.trans hrows)
  obtain rfl := Except.ok.inj (hoff.symm.trans hrows')
  have hnone : roots'.filter passes = [] := by
    rw [List.filter_eq_nil_iff]
    intro row hrow
    rw [(hroots' row hrow).1]
    decide
  have hnone' : (roots.filter fun row =>
      !isAiSpan ((row.data.get "data").getD .null) row.op) = [] := by
    rw [List.filter_eq_nil_iff]
    intro row hrow
    rw [(hroots row hrow).2]
    decide
  rw [List.filter_append, List.filter_append, hnone, hnone', List.append_nil, List.append_nil,
    (payloadKept_stripAiData data).children, scopeOf_stripAiData, List.filter_map,
    List.filter_map, List.filter_filter]
  congr 1
  apply List.filter_congr
  intro span _
  have hspan := extracted_spanRow format (scopeOf ctx data) span
  simp only [Function.comp, hspan.ai]
  change (passes _ && !isAiPayload span) = !isAiPayload span
  cases hai : isAiPayload span with
  | true => simp
  | false =>
      rw [hspan.gate_iff.mpr (.inl hai)]
      rfl

theorem gated_transaction (format : SpanFormat Bytes Double) (ctx : TransactionCtx)
    (work : Bytes) : Gated format (.transaction ctx work) := by
  unfold Gated process processTransaction
  cases hvalue : format.value work with
  | error e => simp [hvalue]
  | ok data =>
      simp only [hvalue, if_true, Bool.false_eq_true, if_false]
      cases hstale : ensure (!(isStale format data "timestamp" ||
          isStale format data "start_timestamp"))
          (.validation "transaction timestamp is before 1970") with
      | error e => simp [bind, Except.bind]
      | ok u =>
          generalize retainSpans (fun span => !isStale format span "start_timestamp" &&
            !isStale format span "timestamp") data = data
          obtain ⟨roots, hon, _⟩ := transactionRows_eq format ctx data
          obtain ⟨roots', hoff, _⟩ := transactionRows_eq format ctx (stripAiData data)
          simp only [bind, Except.bind, hon, hoff, pure, Except.pure, insertSpanRows_on,
            insertSpanRows_off]
          cases ctx.known with
          | true => exact ⟨by simp, rfl, by simp, by simp, .none⟩
          | false =>
              have hrows := gate_transactionRows hon hoff
              have hkept := payloadKept_stripAiData data
              refine
                { rows := ?_
                  others := hrows
                  children := ?_
                  root := ?_
                  payload := .some hkept }
              · intro row hrow
                have hmem := hrows ▸ (show row ∈ List.filter passes _ from hrow)
                show isAiSpan ((row.data.get "data").getD .null) row.op = false
                simpa using (List.mem_filter.mp hmem).2
              · rintro _ ⟨⟩ span hspan
                rw [hkept.children] at hspan
                simpa using (List.mem_filter.mp hspan).2
              · rintro _ ⟨⟩ trace htrace hai
                rw [stripAiData, rootTrace_stripRoot] at htrace
                obtain ⟨was, _, rfl⟩ := Option.map_eq_some_iff.mp htrace
                exact get_data_stripTrace hai

/-- For every payload of every producer: with agents off no AI span is stored, in a row or in
the payload of a transaction, and what is no AI span is stored as with agents on, if and only
if no standalone span or container entry among those accepted is an AI span merely by
attributes that are no text.  A transaction always is stored so. -/
theorem agents_off_iff (format : SpanFormat Bytes Double) (payload : SpanPayload Bytes) :
    Gated format payload ↔ WellTyped format payload := by
  cases payload with
  | spans items => exact gate_spans_iff items
  | spanV2 work => exact gate_spanV2_iff work
  | transaction ctx work => exact iff_of_true (gated_transaction format ctx work) trivial

/-! ## A null attribute -/

/-- Doubles without fractions, and payloads as they are parsed. -/
def wholeFormat : SpanFormat Value Int where
  zero := 0
  add := (· + ·)
  ofNumber
    | .int n => n
    | .float _ _ => 0
  toJson n := .number (.int n)
  value := .ok
  container _ := .error "missing field"
  negative n := n < 0
  epochToUtc n := some (n * 10 ^ 9)
  parseRfc3339 _ := none
  durationMs start stop := some ((stop - start) / 10 ^ 6)

/-- A span of an agent, with an operation type that is null. -/
def nullTyped : Value :=
  .object [("span_id", .string "s"), ("trace_id", .string "t"),
    ("start_timestamp", .number (.int 1)), ("timestamp", .number (.int 2)),
    ("op", .string "http.client"),
    ("data", .object [("gen_ai.operation.type", .null),
      ("gen_ai.prompt", .string "secret")])]

/-- It is stored, prompt and all. -/
theorem null_operation_type_is_stored :
    (∃ row ∈ processBatch wholeFormat false [nullTyped],
      isAiSpan ((row.data.get "data").getD .null) row.op = true ∧
        (row.data.get "data").bind (fun bag => bag.str "gen_ai.prompt") = some "secret") ∧
      ¬Gated wholeFormat (.spans [nullTyped]) := by
  have hstored : ((processBatch wholeFormat false [nullTyped]).any fun row =>
      isAiSpan ((row.data.get "data").getD .null) row.op &&
        decide ((row.data.get "data").bind (fun bag => bag.str "gen_ai.prompt") =
          some "secret")) = true := by
    decide +kernel
  obtain ⟨row, hrow, hboth⟩ := List.any_eq_true.mp hstored
  rw [Bool.and_eq_true, decide_eq_true_eq] at hboth
  refine ⟨⟨row, hrow, hboth⟩, fun hgated => ?_⟩
  have hnone : isAiSpan ((row.data.get "data").getD .null) row.op = false :=
    Gate.rows hgated row hrow
  rw [hboth.1] at hnone
  contradiction

end Rustrak.Spans
