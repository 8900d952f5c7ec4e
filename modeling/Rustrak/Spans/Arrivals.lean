import Rustrak.Spans.AgentsOff

/-!
# The same span on four ways

A span's attributes and operation reach `extract_gen_ai_columns` from a standalone item, from
a child of a transaction, from the root of its trace and from an entry of a container.  Each
producer cuts the operation as its column asks and has its own idea of a span without
attributes: the first two extract nothing then, and the root starts from an empty object.

The cuts make no difference, since no operation that is told apart is as long
(`inferOperationType_clamp`).  The missing attributes do, and so do attributes that make an AI
span without naming its type (`columns_uniform_iff`).
-/

namespace Rustrak.Spans

open Rustrak.Core

/-! ## Cutting an operation -/

/-- The operations told apart by how they start. -/
def inferByStart (op : String) : Option String :=
  if startsWith op "ai.streamText.doStream" then some "ai_client"
  else if startsWith op "ai.streamText" then some "agent"
  else if startsWith op "ai.generateText.doGenerate" then some "ai_client"
  else if startsWith op "ai.generateText" then some "agent"
  else if startsWith op "ai.generateObject.doGenerate" then some "ai_client"
  else if startsWith op "ai.generateObject" then some "agent"
  else if startsWith op "ai.toolCall" then some "tool"
  else none

/-- No operation that is named in full has 28 characters. -/
theorem inferOperationType_of_long {op : String} (h : 28 ≤ op.toList.length) :
    inferOperationType op = inferByStart op := by
  unfold inferOperationType
  split <;> first | rfl | exact absurd h (by decide)

theorem inferByStart_clamp (op : String) {maxChars : Nat} (hlength : 28 ≤ maxChars) :
    inferByStart (clamp op maxChars) = inferByStart op := by
  unfold inferByStart
  rw [startsWith_clamp (Nat.le_trans (by decide) hlength),
    startsWith_clamp (Nat.le_trans (by decide) hlength),
    startsWith_clamp (Nat.le_trans (by decide) hlength),
    startsWith_clamp (Nat.le_trans (by decide) hlength),
    startsWith_clamp (Nat.le_trans (by decide) hlength),
    startsWith_clamp (Nat.le_trans (by decide) hlength),
    startsWith_clamp (Nat.le_trans (by decide) hlength)]

theorem inferOperationType_clamp (op : String) {maxChars : Nat} (hlength : 28 ≤ maxChars) :
    inferOperationType (clamp op maxChars) = inferOperationType op := by
  rcases Nat.le_total op.toList.length maxChars with hshort | hlong
  · rw [clamp, List.take_of_length_le hshort, String.ofList_toList]
  · have hcut : (clamp op maxChars).toList.length = maxChars := by
      simp [clamp, hlong]
    rw [inferOperationType_of_long (by rw [hcut]; exact hlength),
      inferOperationType_of_long (Nat.le_trans hlength hlong), inferByStart_clamp op hlength]

variable {Bytes Double : Type} {doubles : Doubles Double} {data : Value} {op : Option String}

/-- The extraction asks two things of an operation. -/
theorem extractGenAiColumns_congr {op' : Option String} (hai : isAiOp op = isAiOp op')
    (hinfer : op.bind inferOperationType = op'.bind inferOperationType) :
    extractGenAiColumns doubles data op = extractGenAiColumns doubles data op' := by
  have hspan : ∀ data, isAiSpan data op = isAiSpan data op' := by
    intro data
    rw [isAiSpan, isAiSpan, hai]
  have htype : ∀ data, normalizeOperationType data op = normalizeOperationType data op' := by
    intro data
    unfold normalizeOperationType
    rw [hai]
    cases data.str operationNameKey with
    | none => simp only [Option.none_or, hinfer]
    | some name => rfl
  unfold extractGenAiColumns normalizeGenAiAttributes
  simp only [hspan, htype]

theorem extractGenAiColumns_clamp {maxChars : Nat} (hlength : 28 ≤ maxChars) :
    extractGenAiColumns doubles data (op.map (clamp · maxChars)) =
      extractGenAiColumns doubles data op := by
  apply extractGenAiColumns_congr
  · exact isAiOp_clamp (Nat.le_trans (by decide) hlength)
  · cases op with
    | none => rfl
    | some op => exact inferOperationType_clamp op hlength

/-! ## The columns stored -/

/-- The columns of a root, whose row is there only when it has an operation type. -/
def rootColumns (format : SpanFormat Bytes Double) (scope : Scope) (data trace : Value)
    (spanId traceId : String) (timestamp : Int) : GenAiColumns Double :=
  ((rootRow format scope data trace spanId traceId timestamp).map SpanRow.genAi).getD {}

/-- The columns stored of a span that came with these attributes and this operation. -/
inductive StoredColumns (format : SpanFormat Bytes Double) (bag : Option Value)
    (op : Option String) : GenAiColumns Double → Prop
  | standalone {data : Value} {spanId traceId : String} {start stop : Int}
      (hbag : data.get "data" = bag) (hop : data.str "op" = op)
      (hchecked : checkSpan format data = .ok (spanId, traceId, start, stop)) :
      StoredColumns format bag op (standaloneRow format data spanId traceId start stop).genAi
  | child {scope : Scope} {span : Value} (hbag : span.get "data" = bag)
      (hop : span.str "op" = op) : StoredColumns format bag op (spanRow format scope span).genAi
  | root {scope : Scope} {data trace : Value} {spanId traceId : String} {timestamp : Int}
      (htrace : rootTrace data = some trace) (hbag : trace.get "data" = bag)
      (hop : trace.str "op" = op) :
      StoredColumns format bag op (rootColumns format scope data trace spanId traceId timestamp)
  | spanV2 {entry : SpanV2Entry} {start stop : Int} (htimes : entry.times = some (start, stop))
      (hbag : entry.flatAttributes = bag.getD (.object []))
      (hop : SpanV2Entry.op entry.flatAttributes = op) :
      StoredColumns format bag op (entryRow format entry start stop).genAi

/-- The columns are the same whichever way the span came, and have an operation type if and
only if it is an AI span. -/
structure Uniform (format : SpanFormat Bytes Double) (bag : Option Value) (op : Option String) :
    Prop where
  same : ∀ columns columns', StoredColumns format bag op columns →
    StoredColumns format bag op columns' → columns = columns'
  typed : ∀ columns, StoredColumns format bag op columns →
    (columns.operationType.isSome ↔ isAiSpan (bag.getD .null) op = true)

/-- Where the operation makes the span an AI span, its type can be written down; where the
attributes do, one of them is a text. -/
structure Typable (bag : Option Value) (op : Option String) : Prop where
  assignable : isAiOp op = true → ∃ data, bag = some data ∧ Assignable data
  texts : ¬MistypedSpan (bag.getD .null) op

/-! ## Uniform columns -/

/-- The columns the extraction makes of attributes, if there are any. -/
def columnsOf (doubles : Doubles Double) (bag : Option Value) (op : Option String) :
    GenAiColumns Double :=
  bag.elim {} fun data => (extractGenAiColumns doubles data op).2

variable {format : SpanFormat Bytes Double} {bag : Option Value}

theorem columnsOf_clamp {maxChars : Nat} (hlength : 28 ≤ maxChars) :
    columnsOf doubles bag (op.map (clamp · maxChars)) = columnsOf doubles bag op := by
  unfold columnsOf
  simp only [extractGenAiColumns_clamp hlength]

theorem normalizeSpan_columns (format : SpanFormat Bytes Double) (data : Value)
    (op : Option String) :
    (normalizeSpan format data op).2 = columnsOf format.toDoubles (data.get "data") op := by
  unfold normalizeSpan
  cases data.get "data" <;> rfl

theorem standaloneRow_columns (format : SpanFormat Bytes Double) (data : Value)
    (spanId traceId : String) (start stop : Int) :
    (standaloneRow format data spanId traceId start stop).genAi =
      columnsOf format.toDoubles (data.get "data") (data.str "op") :=
  (normalizeSpan_columns format data _).trans (columnsOf_clamp (by decide))

theorem spanRow_columns (format : SpanFormat Bytes Double) (scope : Scope) (span : Value) :
    (spanRow format scope span).genAi =
      columnsOf format.toDoubles (span.get "data") (span.str "op") :=
  (normalizeSpan_columns format span _).trans (columnsOf_clamp (by decide))

theorem columnsOf_of_not_ai (h : isAiSpan (bag.getD .null) op = false) :
    columnsOf doubles bag op = {} := by
  cases bag with
  | none => rfl
  | some data => exact congrArg Prod.snd (extractGenAiColumns_of_not h)

/-- An operation type is written where it can be. -/
theorem columnsOf_typed (doubles : Doubles Double) (h : Typable bag op) :
    (columnsOf doubles bag op).operationType.isSome = isAiSpan (bag.getD .null) op := by
  by_cases hop : isAiOp op = true
  · obtain ⟨data, rfl, hassignable⟩ := h.assignable hop
    have hai : isAiSpan data op = true := isAiSpan_of_op hop
    rw [Option.getD_some, hai, columnsOf, Option.elim_some, (extractGenAiColumns_of_ai hai).2,
      Value.str]
    rcases get_operationType_normalize doubles hai hassignable with ⟨_, _, hnot⟩ | ⟨_, s, hs⟩
    · rw [hop] at hnot
      contradiction
    · rw [hs]
      rfl
  · rw [Bool.not_eq_true] at hop
    cases hbag : bag with
    | none => simp [columnsOf, hop]
    | some data =>
        have htexts := h.texts
        rw [hbag, Option.getD_some, MistypedSpan, and_iff_right hop] at htexts
        have hnone : (columnsOf doubles (some data) op).operationType = none ↔ _ :=
          operationType_none_iff hop
        rw [or_iff_left htexts] at hnone
        rw [Option.getD_some, Bool.eq_iff_iff, ← not_iff_not, Option.not_isSome_iff_eq_none,
          hnone, Bool.not_eq_true]

/-- Where an absent bag counts as an empty one. -/
theorem columns_orEmpty (doubles : Doubles Double) (h : Typable bag op) :
    (extractGenAiColumns doubles (bag.getD (.object [])) op).2 = columnsOf doubles bag op := by
  cases bag with
  | some data => rfl
  | none =>
      have hop : isAiOp op = false := by
        by_contra hai
        rw [Bool.not_eq_false] at hai
        obtain ⟨data, hdata, -⟩ := h.assignable hai
        contradiction
      have hnot : isAiSpan (.object []) op = false := by
        rw [isAiSpan, hop]
        rfl
      rw [Option.getD_none, extractGenAiColumns_of_not hnot]
      rfl

theorem normalizeRoot_columns (format : SpanFormat Bytes Double) {trace : Value}
    (h : Typable (trace.get "data") op) :
    (normalizeRoot format trace op).2 = columnsOf format.toDoubles (trace.get "data") op := by
  unfold normalizeRoot
  split_ifs with hobject
  · exact columns_orEmpty format.toDoubles h
  · have hnone : trace.get "data" = none := by
      rw [Option.eq_none_iff_forall_ne_some]
      intro data hdata
      exact hobject (Value.isObject_of_get hdata)
    rw [hnone]
    rfl

theorem Typable.clamp {maxChars : Nat} (hlength : 7 ≤ maxChars) (h : Typable bag op) :
    Typable bag (op.map (clamp · maxChars)) where
  assignable hai := h.assignable (by rwa [isAiOp_clamp hlength] at hai)
  texts := by
    rw [MistypedSpan, isAiOp_clamp hlength]
    exact h.texts

/-- A root that has no row has no columns either. -/
theorem rootColumns_eq {trace : Value} (h : Typable (trace.get "data") (trace.str "op"))
    (scope : Scope) (data : Value) (spanId traceId : String) (timestamp : Int) :
    rootColumns format scope data trace spanId traceId timestamp =
      columnsOf format.toDoubles (trace.get "data") (trace.str "op") := by
  have hcolumns : (normalizeRoot format trace (text trace "op" 64)).2 =
      columnsOf format.toDoubles (trace.get "data") (trace.str "op") :=
    (normalizeRoot_columns format (h.clamp (by decide))).trans (columnsOf_clamp (by decide))
  have htyped := columnsOf_typed format.toDoubles h
  unfold rootColumns rootRow
  dsimp only
  rw [hcolumns]
  split_ifs with hsome
  · rfl
  · rw [htyped, Bool.not_eq_true] at hsome
    exact (columnsOf_of_not_ai hsome).symm

theorem StoredColumns.eq {columns : GenAiColumns Double} (h : Typable bag op)
    (hstored : StoredColumns format bag op columns) :
    columns = columnsOf format.toDoubles bag op := by
  cases hstored with
  | standalone hbag hop _ =>
      subst hbag hop
      exact standaloneRow_columns format _ _ _ _ _
  | child hbag hop =>
      subst hbag hop
      exact spanRow_columns format _ _
  | root _ hbag hop =>
      subst hbag hop
      exact rootColumns_eq h _ _ _ _ _
  | spanV2 _ hbag hop =>
      rw [← columns_orEmpty format.toDoubles h, ← hbag, ← hop]
      rfl

/-! ## What breaks it -/

/-- The child of a transaction with these attributes and this operation. -/
def childOf (bag : Option Value) (op : Option String) : Value :=
  .object ((bag.toList.map fun data => ("data", data)) ++
    op.toList.map fun op => ("op", .string op))

theorem get_childOf (bag : Option Value) (op : Option String) :
    (childOf bag op).get "data" = bag ∧ (childOf bag op).str "op" = op := by
  cases bag <;> cases op <;> exact ⟨rfl, rfl⟩

/-- An AI span by its operation has a type only where there is something to write it to. -/
theorem assignable_of_typed (hop : isAiOp op = true)
    (htyped : (columnsOf doubles bag op).operationType.isSome) :
    ∃ data, bag = some data ∧ Assignable data := by
  cases bag with
  | none => contradiction
  | some data =>
      refine ⟨data, rfl, ?_⟩
      by_contra hnot
      rw [columnsOf, Option.elim_some, (extractGenAiColumns_of_ai (isAiSpan_of_op hop)).2,
        normalizeGenAiAttributes_of_not hnot] at htyped
      have hnone : data.get operationTypeKey = none := by
        rw [Option.eq_none_iff_forall_ne_some]
        intro v hv
        exact hnot (.inl (Value.isObject_of_get hv))
      rw [Value.str, hnone] at htyped
      contradiction

/-- For every span, by its attributes and its operation: the columns are the same whichever
way it came, and have an operation type just when it is an AI span, if and only if its type
can be written down. -/
theorem columns_uniform_iff (format : SpanFormat Bytes Double) (bag : Option Value)
    (op : Option String) : Uniform format bag op ↔ Typable bag op := by
  constructor
  · intro huniform
    obtain ⟨hbag, hop⟩ := get_childOf bag op
    have hstored : StoredColumns format bag op
        (spanRow format ⟨"", none, none, none, none⟩ (childOf bag op)).genAi := .child hbag hop
    have hchild := huniform.typed _ hstored
    rw [spanRow_columns, hbag, hop] at hchild
    refine ⟨fun hai => assignable_of_typed hai (hchild.mpr (isAiSpan_of_op hai)), ?_⟩
    rintro ⟨hnot, hmistyped⟩
    have hsome := hchild.mpr (isAiSpan_iff.mpr (.inl hmistyped.1))
    cases hdata : bag with
    | none =>
        rw [hdata] at hsome
        contradiction
    | some data =>
        rw [hdata, Option.getD_some] at hmistyped
        have hnone : (columnsOf format.toDoubles (some data) op).operationType = none :=
          (operationType_none_iff hnot).mpr (.inr hmistyped)
        rw [hdata, hnone] at hsome
        contradiction
  · intro h
    refine ⟨fun columns columns' hstored hstored' => ?_, fun columns hstored => ?_⟩
    · rw [hstored.eq h, hstored'.eq h]
    · rw [hstored.eq h, columnsOf_typed format.toDoubles h]

/-! ## A span without attributes -/

/-- The chat of a model, of which only the operation is known. -/
def bareChat : Value := childOf none (some "gen_ai.chat")

/-- As a child it has no columns, and as the root of its trace an operation type. -/
theorem bareChat_differs :
    let scope : Scope := ⟨"x", some "t", none, none, none⟩
    (spanRow wholeFormat scope bareChat).genAi = {} ∧
      (rootColumns wholeFormat scope (.object [("contexts", .object [("trace", bareChat)])])
        bareChat "s" "t" 0).operationType = some "ai_client" ∧
      ¬Uniform wholeFormat none (some "gen_ai.chat") := by
  intro scope
  have hroot : (rootColumns wholeFormat scope
      (.object [("contexts", .object [("trace", bareChat)])]) bareChat "s" "t" 0).operationType =
        some "ai_client" := by
    decide +kernel
  have hchild : (spanRow wholeFormat scope bareChat).genAi = {} :=
    spanRow_columns wholeFormat scope bareChat
  refine ⟨hchild, hroot, fun huniform => ?_⟩
  have hstored : StoredColumns wholeFormat none (some "gen_ai.chat")
      (spanRow wholeFormat scope bareChat).genAi := .child rfl rfl
  have hpromoted : StoredColumns wholeFormat none (some "gen_ai.chat")
      (rootColumns wholeFormat scope (.object [("contexts", .object [("trace", bareChat)])])
        bareChat "s" "t" 0) := .root rfl rfl rfl
  have hsame := huniform.same _ _ hstored hpromoted
  rw [← hsame, hchild] at hroot
  contradiction

end Rustrak.Spans
