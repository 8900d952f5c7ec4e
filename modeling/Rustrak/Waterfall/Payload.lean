import Mathlib.Algebra.Order.Ring.Rat

/-!
# The rows of a transaction

`waterfallSpans` of `features/transaction/lib/transaction-payload.ts`: the transaction and its spans
as rows on one clock.  Times are rationals, in seconds in the payload and in milliseconds from the
transaction's start in the rows.
-/

namespace Rustrak.Waterfall

/-- A span of a transaction's payload, with the timestamps that `readSpan` could read. -/
structure Span where
  spanId : Option String
  parentSpanId : Option String
  op : Option String
  description : Option String
  status : Option String
  startTimestamp : Option ℚ
  timestamp : Option ℚ
  exclusiveTime : Option ℚ
  deriving DecidableEq

structure TransactionPayload where
  /-- `trace?.span_id`. -/
  traceSpanId : Option String
  spans : List Span
  transactionStart : ℚ
  transactionEnd : ℚ
  op : Option String
  status : Option String

/-- A row before its self time is known. -/
structure PlainRow where
  id : String
  parentId : Option String
  op : Option String
  description : Option String
  startMs : ℚ
  endMs : ℚ
  status : Option String
  exclusive : Option ℚ
  deriving DecidableEq

structure WaterfallRow where
  id : String
  parentId : Option String
  op : Option String
  description : Option String
  startMs : ℚ
  endMs : ℚ
  status : Option String
  selfMs : ℚ
  deriving DecidableEq

namespace TransactionPayload

variable (payload : TransactionPayload)

def ms (seconds : ℚ) : ℚ := (seconds - payload.transactionStart) * 1000

def rootId : String := payload.traceSpanId.getD "root"

/-- What may be a parent. -/
def ids : List String :=
  payload.rootId :: payload.spans.filterMap fun span => span.spanId.filter (· ≠ "")

/-- The id of a span at a position. -/
def idOf (span : Span × ℕ) : String := span.1.spanId.getD ("span-" ++ toString span.2)

def parentIdOf (span : Span) : String :=
  match span.parentSpanId with
  | none => payload.rootId
  | some parent => if parent ≠ "" ∧ parent ∈ payload.ids then parent else payload.rootId

def spanRow (span : Span × ℕ) : Option PlainRow :=
  match span.1.startTimestamp, span.1.timestamp with
  | some start, some finish =>
      some
        { id := idOf span
          parentId := some (payload.parentIdOf span.1)
          op := span.1.op
          description := span.1.description
          startMs := payload.ms start
          endMs := payload.ms finish
          status := span.1.status
          exclusive := span.1.exclusiveTime }
  | _, _ => none

def rootRow (name : String) : PlainRow where
  id := payload.rootId
  parentId := none
  op := payload.op
  description := some name
  startMs := 0
  endMs := payload.ms payload.transactionEnd
  status := payload.status
  exclusive := none

def plainRows (name : String) : List PlainRow :=
  payload.rootRow name :: payload.spans.zipIdx.filterMap payload.spanRow

end TransactionPayload

/-! ## Self times -/

/-- What has been covered, and how far. -/
structure Sweep where
  covered : ℚ
  reached : ℚ

/-- One child after the others, until the end of its parent. -/
def sweepChild (endMs : ℚ) (sweep : Sweep) (child : PlainRow) : Sweep :=
  let start := max child.startMs sweep.reached
  let finish := min child.endMs endMs
  { covered := if finish > start then sweep.covered + (finish - start) else sweep.covered
    reached := max sweep.reached finish }

def childrenOf (rows : List PlainRow) (row : PlainRow) : List PlainRow :=
  (rows.filter fun child => child.parentId = some row.id).mergeSort fun a b => a.startMs ≤ b.startMs

/-- The time a row's children cover, inside it. -/
def coveredBy (rows : List PlainRow) (row : PlainRow) : ℚ :=
  ((childrenOf rows row).foldl (sweepChild row.endMs) ⟨0, row.startMs⟩).covered

def selfMs (rows : List PlainRow) (row : PlainRow) : ℚ :=
  row.exclusive.getD (max 0 (row.endMs - row.startMs - coveredBy rows row))

def withSelfMs (rows : List PlainRow) (row : PlainRow) : WaterfallRow where
  id := row.id
  parentId := row.parentId
  op := row.op
  description := row.description
  startMs := row.startMs
  endMs := row.endMs
  status := row.status
  selfMs := selfMs rows row

def waterfallSpans (payload : TransactionPayload) (name : String) : List WaterfallRow :=
  (payload.plainRows name).map (withSelfMs (payload.plainRows name))

end Rustrak.Waterfall
