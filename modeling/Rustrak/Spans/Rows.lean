import Mathlib.Algebra.Group.Int.Defs
import Rustrak.Core.Error
import Rustrak.Spans.GenAi

/-!
# Span rows

The three producers of `digest/processors/`: items of one span each (`span.rs`), containers
of typed spans (`span_v2.rs`), and transactions with their children and their root
(`transaction.rs`).  All of them hand their rows to `insertSpanRows`, which leaves the AI
spans of a project out that turned agents off; a transaction is stored with its payload,
and loses them there as well.

A row that is stored already under its ids is skipped by the statement, whatever the gate
says, so the rows below are those the statement is given.
-/

namespace Rustrak.Spans

open Rustrak.Core

/-- An entry of a v2 container, as it is deserialized. -/
structure SpanV2Entry where
  traceId : String
  spanId : String
  parentSpanId : Option String
  name : Option String
  status : Option String
  isSegment : Bool
  startTimestamp : Option Int
  endTimestamp : Option Int
  attributes : List (String × Value)

/-- JSON, clocks and doubles.  Instants are nanoseconds since 1970. -/
structure SpanFormat (Bytes Double : Type) extends Doubles Double where
  /-- `serde_json::from_slice`; an error is its text. -/
  value : Bytes → Except String Value
  container : Bytes → Except String (List SpanV2Entry)
  /-- `< 0.0`. -/
  negative : Double → Bool
  epochToUtc : Double → Option Int
  parseRfc3339 : String → Option Int
  /-- The milliseconds between two instants, no less than zero. -/
  durationMs : Int → Int → Option Double

/-- A row of the `spans` table, without the key it is given. -/
structure SpanRow (Double : Type) where
  transactionId : Option String
  spanId : Option String
  traceId : Option String
  startTimestamp : Option Int
  timestamp : Option Int
  durationMs : Option Double
  exclusiveTimeMs : Option Double
  op : Option String
  genAi : GenAiColumns Double
  parentSpanId : Option String
  description : Option String
  status : Option String
  segmentId : Option String
  isSegment : Bool
  platform : Option String
  release : Option String
  environment : Option String
  tags : Option Value
  data : Value

variable {Bytes Double : Type}

/-- `insert_span_rows`. -/
def insertSpanRows (keepAiSpans : Bool) (rows : List (SpanRow Double)) : List (SpanRow Double) :=
  rows.filter fun row =>
    keepAiSpans || (row.genAi.operationType.isNone && !isAiSpan .null row.op)

/-! ## Reading a payload -/

/-- A string field cut to its column. -/
def text (data : Value) (key : String) (maxChars : Nat) : Option String :=
  (data.str key).map (clamp · maxChars)

/-- `extract_str`. -/
def extractStr (data : Value) (key : String) (maxChars : Nat) : String :=
  clamp ((data.str key).getD "") maxChars

def nonEmpty (s : String) : Option String := if s.isEmpty then none else some s

/-- The spec promises an object; anything else is dropped. -/
def tagsOf (data : Value) : Option Value := (data.get "tags").filter Value.isObject

def flag (data : Value) (key : String) : Bool := ((data.get key).bind Value.asBool).getD false

variable (format : SpanFormat Bytes Double)

/-- A timestamp from before 1970. -/
def isStale (data : Value) (key : String) : Bool :=
  match data.get key with
  | some (.number n) => format.negative (format.ofNumber n)
  | some (.string s) => (format.parseRfc3339 s).any fun nanos => nanos / 1000000 < 0
  | _ => false

/-- The years 1 to 9999. -/
def inYears (nanos : Int) : Bool :=
  -62135596800 * 10 ^ 9 ≤ nanos && nanos < 253402300800 * 10 ^ 9

def timestampFromValue (raw : Value) : Option Int :=
  match raw with
  | .number n => format.epochToUtc (format.ofNumber n)
  | .string s => (format.parseRfc3339 s).filter inYears
  | _ => none

def extractTimestamp (data : Value) (key : String) : Option Int :=
  (data.get key).bind (timestampFromValue format)

/-- The normalized payload of a span, whose attributes are its `data`. -/
def normalizeSpan (data : Value) (op : Option String) : Value × GenAiColumns Double :=
  match data.get "data" with
  | some bag =>
      let (bag, genAi) := extractGenAiColumns format.toDoubles bag op
      (data.set "data" bag, genAi)
  | none => (data, {})

/-! ## Standalone spans -/

/-- What `parse_item` asks of a span: ids, and timestamps in order. -/
def checkSpan (data : Value) : AppResult (String × String × Int × Int) := do
  let id (key : String) (maxChars : Nat) :=
    ((data.str key).filter fun s => !s.isEmpty).map (clamp · maxChars)
  let spanId ← okOr (id "span_id" 32) (.validation "span missing span_id")
  let traceId ← okOr (id "trace_id" 64) (.validation "span missing trace_id")
  ensure (!(isStale format data "start_timestamp" || isStale format data "timestamp"))
    (.validation "span timestamp is before 1970")
  let start ← okOr (extractTimestamp format data "start_timestamp")
    (.validation "span missing start_timestamp")
  let stop ← okOr (extractTimestamp format data "timestamp")
    (.validation "span missing timestamp")
  ensure (start ≤ stop) (.validation "span start_timestamp is after timestamp")
  return (spanId, traceId, start, stop)

/-- The row of a span that passed. -/
def standaloneRow (data : Value) (spanId traceId : String) (start stop : Int) : SpanRow Double :=
  let op := text data "op" 128
  let (data, genAi) := normalizeSpan format data op
  { transactionId := none
    spanId := some spanId
    traceId := some traceId
    startTimestamp := some start
    timestamp := some stop
    durationMs := format.durationMs start stop
    exclusiveTimeMs := f64 format.toDoubles data "exclusive_time"
    op
    genAi
    parentSpanId := text data "parent_span_id" 32
    description := data.str "description"
    status := text data "status" 32
    segmentId := text data "segment_id" 32
    isSegment := flag data "is_segment"
    platform := text data "platform" 64
    release := text data "release" 200
    environment := text data "environment" 64
    tags := tagsOf data
    data }

/-- `SpanProcessor::parse_item`. -/
def parseItem (work : Bytes) : AppResult (SpanRow Double) :=
  match format.value work with
  | .error e => .error (.validation s!"Invalid span JSON: {e}")
  | .ok data => do
      let (spanId, traceId, start, stop) ← checkSpan format data
      return standaloneRow format data spanId traceId start stop

def spanBatchChunk : Nat := 64

/-- One item of the loop of `process_batch`: what is stored, and the chunk that is not. -/
def batchItem (keepAiSpans : Bool) (now : List (SpanRow Double) × List (SpanRow Double))
    (work : Bytes) : List (SpanRow Double) × List (SpanRow Double) :=
  match parseItem format work with
  | .error _ => now
  | .ok row =>
      let chunk := now.2 ++ [row]
      if chunk.length = spanBatchChunk then (now.1 ++ insertSpanRows keepAiSpans chunk, [])
      else (now.1, chunk)

/-- `process_batch`: a malformed item is skipped. -/
def processBatch (keepAiSpans : Bool) (items : List Bytes) : List (SpanRow Double) :=
  let (stored, chunk) := items.foldl (batchItem format keepAiSpans) ([], [])
  stored ++ insertSpanRows keepAiSpans chunk

/-! ## Containers -/

/-- Whether an attribute's declared type admits its value. -/
def typeMatchesValue (declared : Option String) (value : Value) : Bool :=
  match declared, value with
  | some "boolean", .bool _ => true
  | some "integer", .number (.int _) => true
  | some "double", .number _ => true
  | some "string", .string _ => true
  | some "array", .array _ => true
  | _, _ => false

namespace SpanV2Entry

/-- The attributes without the wrapper that says their type. -/
def flatAttributes (entry : SpanV2Entry) : Value :=
  .object (entry.attributes.filterMap fun (key, attr) =>
    (attr.get "value").bind fun value =>
      if typeMatchesValue (attr.str "type") value then some (key, value) else none)

def op (flat : Value) : Option String := (flat.str "sentry.op").or (flat.str operationNameKey)

def segmentId (entry : SpanV2Entry) (flat : Value) : Option String :=
  (flat.str "sentry.segment.id").or (if entry.isSegment then some entry.spanId else none)

/-- The timestamps of an entry that is not skipped. -/
def times (entry : SpanV2Entry) : Option (Int × Int) :=
  if entry.spanId.isEmpty || entry.traceId.isEmpty then none
  else
    match entry.startTimestamp, entry.endTimestamp with
    | some start, some stop => if start ≤ stop then some (start, stop) else none
    | _, _ => none

end SpanV2Entry

/-- The row of an entry that was not skipped. -/
def entryRow (entry : SpanV2Entry) (start stop : Int) : SpanRow Double :=
  let flat := entry.flatAttributes
  let op := SpanV2Entry.op flat
  let (flat, genAi) := extractGenAiColumns format.toDoubles flat op
  { transactionId := none
    spanId := some (clamp entry.spanId 32)
    traceId := some (clamp entry.traceId 64)
    startTimestamp := some start
    timestamp := some stop
    durationMs := format.durationMs start stop
    exclusiveTimeMs := f64 format.toDoubles flat "sentry.exclusive_time"
    op := op.map (clamp · 128)
    genAi
    parentSpanId := entry.parentSpanId.map (clamp · 32)
    description := entry.name
    status := entry.status.map (clamp · 32)
    segmentId := (entry.segmentId flat).map (clamp · 32)
    isSegment := entry.isSegment
    platform := text flat "sentry.platform" 64
    release := text flat "sentry.release" 200
    environment := text flat "sentry.environment" 64
    tags := none
    data := flat }

/-- `SpanV2Processor::process`. -/
def processSpanV2 (keepAiSpans : Bool) (work : Bytes) : AppResult (List (SpanRow Double)) :=
  match format.container work with
  | .error e => .error (.validation s!"Invalid span v2 container JSON: {e}")
  | .ok entries =>
      .ok (insertSpanRows keepAiSpans (entries.filterMap fun entry =>
        entry.times.map fun (start, stop) => entryRow format entry start stop))

/-! ## Transactions -/

/-- The children of a transaction. -/
def childSpans (data : Value) : List Value := ((data.get "spans").bind Value.asArray).getD []

/-- `contexts.trace`. -/
def rootTrace (data : Value) : Option Value := (data.get "contexts").bind fun c => c.get "trace"

/-- A span of a payload is an AI span by its own attributes and operation. -/
def isAiPayload (span : Value) : Bool :=
  isAiSpan ((span.get "data").getD .null) (span.str "op")

def retainSpans (keep : Value → Bool) (data : Value) : Value :=
  match data.get "spans" with
  | some (.array spans) => data.set "spans" (.array (spans.filter keep))
  | _ => data

/-- The attributes of an AI root are removed. -/
def stripRoot (data : Value) : Value :=
  match data.get "contexts" with
  | none => data
  | some contexts =>
      match contexts.get "trace" with
      | none => data
      | some trace =>
          if isAiPayload trace then
            data.set "contexts" (contexts.set "trace" (trace.remove "data"))
          else data

/-- `strip_ai_data`. -/
def stripAiData (data : Value) : Value :=
  stripRoot (retainSpans (fun span => !isAiPayload span) data)

/-- What the rows of a transaction share. -/
structure Scope where
  transactionId : String
  traceId : Option String
  platform : Option String
  release : Option String
  environment : Option String

/-- The row of one child. -/
def spanRow (scope : Scope) (span : Value) : SpanRow Double :=
  let op := text span "op" 128
  let start := extractTimestamp format span "start_timestamp"
  let stop := extractTimestamp format span "timestamp"
  let (data, genAi) := normalizeSpan format span op
  { transactionId := some scope.transactionId
    spanId := text span "span_id" 32
    traceId := (text span "trace_id" 64).or scope.traceId
    startTimestamp := start
    timestamp := stop
    durationMs := start.bind fun start => stop.bind fun stop => format.durationMs start stop
    exclusiveTimeMs := f64 format.toDoubles span "exclusive_time"
    op
    genAi
    parentSpanId := text span "parent_span_id" 32
    description := span.str "description"
    status := text span "status" 32
    segmentId := text span "segment_id" 32
    isSegment := flag span "is_segment"
    platform := scope.platform
    release := scope.release
    environment := scope.environment
    tags := tagsOf span
    data }

/-- The normalized root of a trace, which has attributes from then on. -/
def normalizeRoot (trace : Value) (op : Option String) : Value × GenAiColumns Double :=
  if trace.isObject then
    let (bag, genAi) :=
      extractGenAiColumns format.toDoubles ((trace.get "data").getD (.object [])) op
    (trace.set "data" bag, genAi)
  else (trace, {})

/-- `contexts.trace` as a row of its own, when it is an AI span. -/
def rootRow (scope : Scope) (data trace : Value) (spanId traceId : String) (timestamp : Int) :
    Option (SpanRow Double) :=
  let op := text trace "op" 64
  let start := extractTimestamp format data "start_timestamp"
  let (root, genAi) := normalizeRoot format trace op
  if genAi.operationType.isSome then
    some
      { transactionId := some scope.transactionId
        spanId := some spanId
        traceId := some traceId
        startTimestamp := start
        timestamp := some timestamp
        durationMs := start.bind fun start => format.durationMs start timestamp
        exclusiveTimeMs := none
        op
        genAi
        parentSpanId := text trace "parent_span_id" 32
        description := some (extractStr data "transaction" 200)
        status := text trace "status" 32
        segmentId := some spanId
        isSegment := true
        platform := scope.platform
        release := scope.release
        environment := scope.environment
        tags := none
        data := root }
  else none

/-- What a transaction is processed with: its key, when it was ingested, and whether its
event is stored already. -/
structure TransactionCtx where
  id : String
  ingestedAt : Int
  known : Bool

/-- `trace_str` of the root. -/
def traceText (data : Value) (key : String) (maxChars : Nat) : Option String :=
  (rootTrace data).bind fun trace => text trace key maxChars

def scopeOf (ctx : TransactionCtx) (data : Value) : Scope where
  transactionId := ctx.id
  traceId := traceText data "trace_id" 64
  platform := nonEmpty (extractStr data "platform" 64)
  release := nonEmpty (extractStr data "release" 200)
  environment := nonEmpty (extractStr data "environment" 64)

/-- The rows of a transaction's children and of its root. -/
def transactionRows (ctx : TransactionCtx) (data : Value) : AppResult (List (SpanRow Double)) :=
  let timestamp := (extractTimestamp format data "timestamp").getD ctx.ingestedAt
  let scope := scopeOf ctx data
  let children := (childSpans data).map (spanRow format scope)
  match traceText data "span_id" 32, scope.traceId with
  | some spanId, some traceId => do
      let trace ← okOr (rootTrace data) (.validation "transaction trace context is missing")
      return children ++ (rootRow format scope data trace spanId traceId timestamp).toList
  | _, _ => .ok children

/-- What is stored: rows of spans, and the payload of a transaction. -/
structure Stored (Double : Type) where
  rows : List (SpanRow Double)
  transaction : Option Value

/-- `TransactionProcessor::process`. -/
def processTransaction (keepAiSpans : Bool) (ctx : TransactionCtx) (work : Bytes) :
    AppResult (Stored Double) :=
  match format.value work with
  | .error e => .error (.validation s!"Invalid transaction JSON: {e}")
  | .ok data => do
      ensure (!(isStale format data "timestamp" || isStale format data "start_timestamp"))
        (.validation "transaction timestamp is before 1970")
      let data := retainSpans (fun span =>
        !isStale format span "start_timestamp" && !isStale format span "timestamp") data
      let data := if keepAiSpans then data else stripAiData data
      -- A retry of the same event stores nothing.
      if ctx.known then return ⟨[], none⟩
      else do
        let rows ← transactionRows format ctx data
        return ⟨insertSpanRows keepAiSpans rows, some data⟩

/-! ## Any producer -/

/-- What a producer is given. -/
inductive SpanPayload (Bytes : Type)
  | spans (items : List Bytes)
  | spanV2 (work : Bytes)
  | transaction (ctx : TransactionCtx) (work : Bytes)

def process (keepAiSpans : Bool) : SpanPayload Bytes → AppResult (Stored Double)
  | .spans items => .ok ⟨processBatch format keepAiSpans items, none⟩
  | .spanV2 work => do
      let rows ← processSpanV2 format keepAiSpans work
      return ⟨rows, none⟩
  | .transaction ctx work => processTransaction format keepAiSpans ctx work

/-- The attribute bag of a row: a v2 row is stored as its attributes. -/
def SpanPayload.attributes (payload : SpanPayload Bytes) (row : SpanRow Double) : Value :=
  match payload with
  | .spanV2 _ => row.data
  | _ => (row.data.get "data").getD .null

end Rustrak.Spans
