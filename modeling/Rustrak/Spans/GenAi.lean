import Rustrak.Core.Json
import Rustrak.Core.Text

/-!
# AI spans

`services/gen_ai.rs`: which spans are an AI agent's, and how their attributes are
normalized.  A span is one by its operation, or by an attribute that is there at all,
whatever its value; the column of the operation type holds a text.  `Mistyped` is where
the two part.

The code adds doubles up and does nothing else with them, so `Doubles` is all that is
asked of them.
-/

namespace Rustrak.Spans

open Rustrak.Core

/-- `f64`, as far as it is used. -/
structure Doubles (Double : Type) where
  zero : Double
  add : Double → Double → Double
  /-- `Number::as_f64`. -/
  ofNumber : Number → Double
  /-- `json!`: a number, or null for one that is not finite. -/
  toJson : Double → Value

/-- The columns of the `spans` table an AI span fills. -/
structure GenAiColumns (Double : Type) where
  operationType : Option String := none
  agentName : Option String := none
  requestModel : Option String := none
  responseModel : Option String := none
  toolName : Option String := none
  conversationId : Option String := none
  usageInputTokens : Option Double := none
  usageOutputTokens : Option Double := none
  usageTotalTokens : Option Double := none
  usageCachedInputTokens : Option Double := none
  usageReasoningOutputTokens : Option Double := none
  deriving DecidableEq, Repr

def defaultAiOperation : String := "ai_client"

def operationTypeKey : String := "gen_ai.operation.type"

def operationNameKey : String := "gen_ai.operation.name"

/-- The operation alone says that a span is an AI span. -/
def isAiOp (op : Option String) : Bool :=
  op.any fun op => startsWith op "gen_ai." || startsWith op "ai."

def isAiSpan (data : Value) (op : Option String) : Bool :=
  (data.get operationTypeKey).isSome || (data.get operationNameKey).isSome || isAiOp op

def inferOperationType (opName : String) : Option String :=
  match opName with
  | "ai.run.generateText" | "ai.run.generateObject" | "gen_ai.invoke_agent"
  | "ai.pipeline.generate_text" | "ai.pipeline.generate_object" | "ai.pipeline.stream_text"
  | "ai.pipeline.stream_object" | "gen_ai.create_agent" | "invoke_agent" | "create_agent" =>
      some "agent"
  | "gen_ai.execute_tool" | "execute_tool" => some "tool"
  | "gen_ai.handoff" | "handoff" => some "handoff"
  | "ai.processor" | "processor_run" => some "other"
  | op =>
      if startsWith op "ai.streamText.doStream" then some "ai_client"
      else if startsWith op "ai.streamText" then some "agent"
      else if startsWith op "ai.generateText.doGenerate" then some "ai_client"
      else if startsWith op "ai.generateText" then some "agent"
      else if startsWith op "ai.generateObject.doGenerate" then some "ai_client"
      else if startsWith op "ai.generateObject" then some "agent"
      else if startsWith op "ai.toolCall" then some "tool"
      else none

/-! ## Normalization -/

/-- A missing attribute is filled from another. -/
def fillFrom (data : Value) (key source : String) : Value :=
  if (data.get key).isSome then data
  else
    match data.get source with
    | some v => data.set key v
    | none => data

def normalizeModel (data : Value) : Value :=
  fillFrom data "gen_ai.response.model" "gen_ai.request.model"

def normalizeAgentName (data : Value) : Value :=
  fillFrom data "gen_ai.agent.name" "gen_ai.function_id"

/-- Overwrites the type where there is something to derive it from. -/
def normalizeOperationType (data : Value) (op : Option String) : Value :=
  let opName := data.str operationNameKey
  if opName.isNone && !isAiOp op then data
  else
    let operationType := ((opName.or op).bind inferOperationType).getD defaultAiOperation
    data.set operationTypeKey (.string operationType)

variable {Double : Type} (doubles : Doubles Double)

/-- `Value::as_f64` of an attribute. -/
def f64 (data : Value) (key : String) : Option Double :=
  match data.get key with
  | some (.number n) => some (doubles.ofNumber n)
  | _ => none

def normalizeTotalTokens (data : Value) : Value :=
  if (data.get "gen_ai.usage.total_tokens").isSome then data
  else
    let input := f64 doubles data "gen_ai.usage.input_tokens"
    let output := f64 doubles data "gen_ai.usage.output_tokens"
    if input.isNone && output.isNone then data
    else
      let total := doubles.add (input.getD doubles.zero) (output.getD doubles.zero)
      data.set "gen_ai.usage.total_tokens" (doubles.toJson total)

/-- `normalize_gen_ai_attributes`: a bag that is neither an object nor null is left alone. -/
def normalizeGenAiAttributes (data : Value) (op : Option String) : Value :=
  match isAiSpan data op, data with
  | true, .object _ | true, .null =>
      normalizeTotalTokens doubles
        (normalizeAgentName (normalizeOperationType (normalizeModel data) op))
  | _, _ => data

/-- `&s[..s.floor_char_boundary(max_bytes)]`. -/
def floorBytes (s : String) (maxBytes : Nat) : String :=
  String.ofList (go maxBytes s.toList)
where
  go (room : Nat) : List Char → List Char
    | [] => []
    | c :: rest => if c.utf8Size ≤ room then c :: go (room - c.utf8Size) rest else []

/-- The bag as it is stored, and the columns. -/
def extractGenAiColumns (data : Value) (op : Option String) : Value × GenAiColumns Double :=
  if !isAiSpan data op then (data, {})
  else
    let data := normalizeGenAiAttributes doubles data op
    let text (key : String) (maxBytes : Nat) := (data.str key).map (floorBytes · maxBytes)
    (data,
      { operationType := text operationTypeKey 32
        agentName := text "gen_ai.agent.name" 255
        requestModel := text "gen_ai.request.model" 255
        responseModel := text "gen_ai.response.model" 255
        toolName := text "gen_ai.tool.name" 255
        conversationId := (data.str "gen_ai.conversation.id").map (clamp · 255)
        usageInputTokens := f64 doubles data "gen_ai.usage.input_tokens"
        usageOutputTokens := f64 doubles data "gen_ai.usage.output_tokens"
        usageTotalTokens := f64 doubles data "gen_ai.usage.total_tokens"
        usageCachedInputTokens :=
          (f64 doubles data "gen_ai.usage.cache_read.input_tokens").or
            (f64 doubles data "gen_ai.usage.input_tokens.cached")
        usageReasoningOutputTokens :=
          (f64 doubles data "gen_ai.usage.reasoning.output_tokens").or
            (f64 doubles data "gen_ai.usage.output_tokens.reasoning") })

/-! ## What normalization keeps -/

variable {doubles} {data : Value} {op : Option String} {key source : String}

theorem isAiSpan_of_op (h : isAiOp op = true) : isAiSpan data op = true := by
  simp [isAiSpan, h]

@[simp] theorem isAiSpan_null (op : Option String) : isAiSpan .null op = isAiOp op := by
  simp [isAiSpan]

/-- Normalization is one assignment after another, and none of them is of the name. -/
theorem fillFrom_eq : fillFrom data key source = data ∨
    ∃ v, fillFrom data key source = data.set key v := by
  unfold fillFrom
  split_ifs
  · exact .inl rfl
  · split
    · exact .inr ⟨_, rfl⟩
    · exact .inl rfl

theorem normalizeTotalTokens_eq : normalizeTotalTokens doubles data = data ∨
    ∃ v, normalizeTotalTokens doubles data = data.set "gen_ai.usage.total_tokens" v := by
  unfold normalizeTotalTokens
  dsimp only
  split_ifs
  · exact .inl rfl
  · exact .inl rfl
  · exact .inr ⟨_, rfl⟩

theorem get_fillFrom {other : String} (hne : other ≠ key) :
    (fillFrom data key source).get other = data.get other := by
  rcases fillFrom_eq with h | ⟨v, h⟩
  · rw [h]
  · rw [h, Value.get_set_ne hne]

theorem get_normalizeTotalTokens {other : String} (hne : other ≠ "gen_ai.usage.total_tokens") :
    (normalizeTotalTokens doubles data).get other = data.get other := by
  rcases normalizeTotalTokens_eq with h | ⟨v, h⟩
  · rw [h]
  · rw [h, Value.get_set_ne hne]

/-- A bag that can be assigned to. -/
def Assignable (data : Value) : Prop := data.isObject = true ∨ data = .null

theorem Assignable.set (h : Assignable data) (v : Value) : Assignable (data.set key v) := by
  rcases h with h | rfl
  · exact .inl (Value.isObject_set h)
  · exact .inl rfl

theorem Assignable.get_set (h : Assignable data) (v : Value) :
    (data.set key v).get key = some v := by
  rcases h with h | rfl
  · exact Value.get_set_self h
  · exact Value.get_set_null

theorem Assignable.fillFrom (h : Assignable data) : Assignable (fillFrom data key source) := by
  rcases fillFrom_eq with heq | ⟨v, heq⟩
  · rw [heq]
    exact h
  · rw [heq]
    exact h.set v

/-- The type is left alone where nothing says what it is. -/
theorem get_normalizeOperationType (h : Assignable data) (op : Option String) :
    (normalizeOperationType data op).get operationTypeKey = data.get operationTypeKey ∧
        data.str operationNameKey = none ∧ isAiOp op = false ∨
      ((data.str operationNameKey).isSome ∨ isAiOp op = true) ∧ ∃ s,
        (normalizeOperationType data op).get operationTypeKey = some (.string s) := by
  unfold normalizeOperationType
  dsimp only
  split_ifs with hnothing
  · simp only [Bool.and_eq_true, Option.isNone_iff_eq_none, Bool.not_eq_true'] at hnothing
    exact .inl ⟨rfl, hnothing⟩
  · refine .inr ⟨?_, _, h.get_set _⟩
    by_contra hneither
    obtain ⟨hname, hop⟩ := not_or.mp hneither
    rw [Option.not_isSome_iff_eq_none] at hname
    rw [Bool.not_eq_true] at hop
    simp [hname, hop] at hnothing

theorem get_operationName_normalizeOperationType :
    (normalizeOperationType data op).get operationNameKey = data.get operationNameKey := by
  unfold normalizeOperationType
  dsimp only
  split_ifs
  · rfl
  · exact Value.get_set_ne (by decide)

/-- The four normalizers, one after another. -/
private theorem normalizeGenAiAttributes_eq (hai : isAiSpan data op = true)
    (h : Assignable data) :
    normalizeGenAiAttributes doubles data op =
      normalizeTotalTokens doubles
        (normalizeAgentName (normalizeOperationType (normalizeModel data) op)) := by
  unfold normalizeGenAiAttributes
  rw [hai]
  rcases h with h | rfl
  · cases data with
    | object fields => rfl
    | _ => contradiction
  · rfl

theorem normalizeGenAiAttributes_of_not (h : ¬Assignable data) :
    normalizeGenAiAttributes doubles data op = data := by
  unfold normalizeGenAiAttributes
  cases data with
  | object fields => exact absurd (.inl rfl) h
  | null => exact absurd (.inr rfl) h
  | _ => cases isAiSpan _ op <;> rfl

theorem get_operationName_normalize :
    (normalizeGenAiAttributes doubles data op).get operationNameKey =
      data.get operationNameKey := by
  by_cases hassignable : Assignable data
  · by_cases hai : isAiSpan data op = true
    · rw [normalizeGenAiAttributes_eq hai hassignable, get_normalizeTotalTokens (by decide),
        normalizeAgentName, get_fillFrom (by decide), get_operationName_normalizeOperationType,
        normalizeModel, get_fillFrom (by decide)]
    · unfold normalizeGenAiAttributes
      rw [Bool.not_eq_true] at hai
      rw [hai]
  · rw [normalizeGenAiAttributes_of_not hassignable]

variable (doubles) in
/-- What becomes of the type: a text, if the name is one or the operation says so. -/
theorem get_operationType_normalize (hai : isAiSpan data op = true) (h : Assignable data) :
    (normalizeGenAiAttributes doubles data op).get operationTypeKey = data.get operationTypeKey ∧
        data.str operationNameKey = none ∧ isAiOp op = false ∨
      ((data.str operationNameKey).isSome ∨ isAiOp op = true) ∧ ∃ s,
        (normalizeGenAiAttributes doubles data op).get operationTypeKey = some (.string s) := by
  have hname : (normalizeModel data).str operationNameKey = data.str operationNameKey := by
    rw [Value.str, normalizeModel, get_fillFrom (by decide), Value.str]
  have htype : (normalizeModel data).get operationTypeKey = data.get operationTypeKey := by
    rw [normalizeModel, get_fillFrom (by decide)]
  have hmodel : Assignable (normalizeModel data) := h.fillFrom
  have hstep := get_normalizeOperationType hmodel op
  rw [normalizeGenAiAttributes_eq hai h, get_normalizeTotalTokens (by decide), normalizeAgentName,
    get_fillFrom (by decide), ← htype, ← hname]
  exact hstep

/-! ## What the columns say -/

/-- The bag has the attributes of an AI span and neither of them is a text. -/
def Mistyped (data : Value) : Prop :=
  ((data.get operationTypeKey).isSome ∨ (data.get operationNameKey).isSome) ∧
    data.str operationTypeKey = none ∧ data.str operationNameKey = none

theorem isAiSpan_iff : isAiSpan data op = true ↔
    ((data.get operationTypeKey).isSome ∨ (data.get operationNameKey).isSome) ∨
      isAiOp op = true := by
  simp [isAiSpan]

theorem extractGenAiColumns_of_not (h : isAiSpan data op = false) :
    extractGenAiColumns doubles data op = (data, {}) := by
  simp [extractGenAiColumns, h]

theorem extractGenAiColumns_of_ai (h : isAiSpan data op = true) :
    (extractGenAiColumns doubles data op).1 = normalizeGenAiAttributes doubles data op ∧
      (extractGenAiColumns doubles data op).2.operationType =
        ((normalizeGenAiAttributes doubles data op).str operationTypeKey).map (floorBytes · 32) := by
  simp [extractGenAiColumns, h]

private theorem assignable_of_get {v : Value} (h : data.get key = some v) : Assignable data :=
  .inl (Value.isObject_of_get h)

/-- A span that is stored is an AI span just when it was one as it came. -/
theorem isAiSpan_extract :
    isAiSpan (extractGenAiColumns doubles data op).1 op = isAiSpan data op := by
  by_cases hai : isAiSpan data op = true
  · rw [(extractGenAiColumns_of_ai hai).1, hai, isAiSpan_iff, get_operationName_normalize]
    rcases isAiSpan_iff.mp hai with (htype | hname) | hop
    · obtain ⟨v, hv⟩ := Option.isSome_iff_exists.mp htype
      rcases get_operationType_normalize doubles hai (assignable_of_get hv) with
        ⟨hsame, _⟩ | ⟨_, s, hs⟩
      · exact .inl (.inl (by rw [hsame]; exact htype))
      · exact .inl (.inl (by rw [hs]; rfl))
    · exact .inl (.inr hname)
    · exact .inr hop
  · rw [Bool.not_eq_true] at hai
    rw [extractGenAiColumns_of_not hai]

/-- The gate on the columns and the operation passes the spans that are no AI span, and
those that are one only by attributes that are no text. -/
theorem operationType_none_iff (hop : isAiOp op = false) :
    (extractGenAiColumns doubles data op).2.operationType = none ↔
      isAiSpan data op = false ∨ Mistyped data := by
  by_cases hai : isAiSpan data op = true
  · have hmarked := (isAiSpan_iff.mp hai).resolve_right (by simp [hop])
    have hassignable : Assignable data := by
      rcases hmarked with h | h
      · obtain ⟨v, hv⟩ := Option.isSome_iff_exists.mp h
        exact assignable_of_get hv
      · obtain ⟨v, hv⟩ := Option.isSome_iff_exists.mp h
        exact assignable_of_get hv
    rw [(extractGenAiColumns_of_ai hai).2, Option.map_eq_none_iff, Value.str]
    rcases get_operationType_normalize doubles hai hassignable with
      ⟨hsame, hname, _⟩ | ⟨hderived, s, hs⟩
    · rw [hsame]
      constructor
      · intro htype
        exact .inr ⟨hmarked, htype, hname⟩
      · rintro (hnot | ⟨_, htype, _⟩)
        · rw [hai] at hnot
          contradiction
        · exact htype
    · have hname : ¬data.str operationNameKey = none := by
        rw [← Option.not_isSome_iff_eq_none, not_not]
        exact hderived.resolve_right (by simp [hop])
      rw [hs]
      refine iff_of_false (by simp [Value.asStr]) ?_
      rintro (hnot | ⟨_, _, hnone⟩)
      · rw [hai] at hnot
        contradiction
      · exact hname hnone
  · rw [Bool.not_eq_true] at hai
    rw [extractGenAiColumns_of_not hai]
    exact iff_of_true rfl (.inl hai)

/-- A cut that keeps a start keeps whether the text starts so. -/
theorem startsWith_clamp {op start : String} {maxChars : Nat}
    (hstart : start.toList.length ≤ maxChars) :
    startsWith (clamp op maxChars) start = startsWith op start := by
  rw [Bool.eq_iff_iff]
  simp only [startsWith, clamp, String.toList_ofList, List.isPrefixOf_iff_prefix]
  rw [List.prefix_take_iff]
  exact and_iff_left hstart

/-- An operation is cut to its column, and still says what it said. -/
theorem isAiOp_clamp {maxChars : Nat} (hlength : 7 ≤ maxChars) :
    isAiOp (op.map (clamp · maxChars)) = isAiOp op := by
  cases op with
  | none => rfl
  | some op =>
      simp only [isAiOp, Option.map_some, Option.any_some]
      rw [startsWith_clamp (Nat.le_trans (by decide) hlength),
        startsWith_clamp (Nat.le_trans (by decide) hlength)]

end Rustrak.Spans
