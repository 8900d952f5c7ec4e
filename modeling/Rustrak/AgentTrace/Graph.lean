import Rustrak.AgentTrace.StartTexts

/-!
# The agents of a trace

`agentGraph` of the dashboard (`model/conversation.ts`) puts the spans of a trace in order by the
text of their starts, counts each against the agent it belongs to, and looks for the agent each
handoff leads to.  What it reads of a span besides its start does not depend on how a start is
kept, so that the graph is defined here over any: over texts it is the code's, over instants it is
the one that follows time.

Spans are objects, and `seen` tells them apart even where they say the same: a span is its place in
the order.
-/

namespace Rustrak.AgentTrace

open Rustrak.Spans

structure SpanResponse (Start : Type) where
  spanId : Option String
  parentSpanId : Option String
  operationType : Option String
  agentName : Option String
  toolName : Option String
  requestModel : Option String
  responseModel : Option String
  status : Option String
  start : Start
  deriving DecidableEq

structure Use where
  name : String
  calls : ℕ
  errors : ℕ
  deriving DecidableEq, Repr

structure GraphAgent where
  name : String
  runs : ℕ
  errors : ℕ
  models : List Use
  tools : List Use
  deriving DecidableEq, Repr

structure Handoff where
  source : String
  target : String
  count : ℕ
  deriving DecidableEq, Repr

structure AgentGraph where
  agents : List GraphAgent
  handoffs : List Handoff
  deriving DecidableEq, Repr

/-- What is not null, nor empty. -/
def truthy (s : Option String) : Option String := s.filter (· ≠ "")

def failed (status : Option String) : Bool := status.any (· ≠ "ok")

/-- Updates the first entry found, or adds one. -/
def upsert {Entry : Type} (found : Entry → Bool) (new : Entry) (update : Entry → Entry) :
    List Entry → List Entry
  | [] => [new]
  | entry :: entries =>
      if found entry then update entry :: entries else entry :: upsert found new update entries

variable {Start : Type}

namespace SpanResponse

def mapStart {Start' : Type} (f : Start → Start') (span : SpanResponse Start) :
    SpanResponse Start' :=
  { span with start := f span.start }

/-- The agent whose run the span is. -/
def agent (span : SpanResponse Start) : Option String :=
  if span.operationType = some "agent" then truthy span.agentName else none

/-- The agent that hands off. -/
def handsOff (span : SpanResponse Start) : Option String :=
  if span.operationType = some "handoff" then truthy span.agentName else none

/-- The model or the tool the span is a call of. -/
def called (span : SpanResponse Start) : Option String :=
  if span.operationType = some "ai_client" then truthy (span.responseModel <|> span.requestModel)
  else if span.operationType = some "tool" then truthy span.toolName
  else none

end SpanResponse

/-- `bySpanId.get`: of the spans with an id the last is kept. -/
def bySpanId (inOrder : List (SpanResponse Start)) (id : String) : Option ℕ :=
  (List.range inOrder.length).reverse.find? fun i =>
    (inOrder[i]?.bind fun span => truthy span.spanId) == some id

/-- The place of the parent, where the span names one that is there. -/
def parent (inOrder : List (SpanResponse Start)) (span : SpanResponse Start) : Option ℕ :=
  (truthy span.parentSpanId).bind (bySpanId inOrder)

/-- The walk of `owner`.  `none` would be a walk that does not end within `fuel`. -/
def ownerFrom (inOrder : List (SpanResponse Start)) (fallback : Option String) :
    ℕ → Option ℕ → List ℕ → Option (Option String)
  | _, none, _ => some fallback
  | 0, some i, seen => if i ∈ seen then some fallback else none
  | fuel + 1, some i, seen =>
      if i ∈ seen then some fallback
      else match inOrder[i]? with
        | none => some fallback
        | some span =>
            match span.agent with
            | some name => some (some name)
            | none => ownerFrom inOrder fallback fuel (parent inOrder span) (i :: seen)

def owner (inOrder : List (SpanResponse Start)) (span : SpanResponse Start) (i : ℕ) :
    Option (Option String) :=
  ownerFrom inOrder span.agentName inOrder.length (some i) []

def countUse (uses : List Use) (name : String) (error : Bool) : List Use :=
  upsert (·.name = name) ⟨name, 1, error.toNat⟩
    (fun use => { use with calls := use.calls + 1, errors := use.errors + error.toNat }) uses

/-- Changes the agent of that name, which is new if there is none. -/
def agentOf (agents : List GraphAgent) (name : String) (change : GraphAgent → GraphAgent) :
    List GraphAgent :=
  upsert (·.name = name) (change ⟨name, 0, 0, [], []⟩) change agents

def attributeSpan (span : SpanResponse Start) (owner : Option String) (agents : List GraphAgent) :
    List GraphAgent :=
  let error := failed span.status
  match span.agent with
  | some name => agentOf agents name fun agent =>
      { agent with runs := agent.runs + 1, errors := agent.errors + error.toNat }
  | none =>
      match truthy owner, span.called with
      | some name, some use => agentOf agents name fun agent =>
          if span.operationType = some "ai_client" then
            { agent with models := countUse agent.models use error }
          else { agent with tools := countUse agent.tools use error }
      | _, _ => agents

def agentsOf (inOrder : List (SpanResponse Start)) : Option (List GraphAgent) :=
  inOrder.zipIdx.foldlM (fun agents (span, i) =>
    (owner inOrder span i).map fun name => attributeSpan span name agents) []

/-- The next other agent to run. -/
def nextAgent (noEarlier : Start → Start → Bool) (inOrder : List (SpanResponse Start))
    (source : String) (start : Start) : Option String :=
  (inOrder.find? fun span => span.agent.any (· ≠ source) && noEarlier span.start start).bind
    SpanResponse.agent

def handoffsOf (noEarlier : Start → Start → Bool) (inOrder : List (SpanResponse Start)) :
    List Handoff :=
  inOrder.foldl (fun handoffs span =>
    match span.handsOff.bind fun source =>
      (nextAgent noEarlier inOrder source span.start).map fun target => (source, target) with
    | none => handoffs
    | some (source, target) =>
        upsert (fun edge => edge.source = source ∧ edge.target = target) ⟨source, target, 1⟩
          (fun edge => { edge with count := edge.count + 1 }) handoffs) []

/-- The graph of the spans that `before` puts in order. -/
def graphOf (before noEarlier : Start → Start → Bool) (spans : List (SpanResponse Start)) :
    Option AgentGraph :=
  let inOrder := spans.mergeSort fun a b => before a.start b.start
  (agentsOf inOrder).map fun agents => ⟨agents, handoffsOf noEarlier inOrder⟩

/-! ## The graph of the code -/

/-- The code units of a text of characters that are one each. -/
def codeUnits (text : List Char) : List ℕ := text.map Char.toNat

/-- `agentGraph`.  Where a start is null its text is empty. -/
def agentGraph (localeCompare : List Char → List Char → Ordering)
    (spans : List (SpanResponse (Option (List Char)))) : Option AgentGraph :=
  graphOf (fun a b => (localeCompare (a.getD []) (b.getD [])).isLE)
    (fun a b => ¬codeUnits (a.getD []) < codeUnits (b.getD [])) spans

/-- A span as the server sends it. -/
def serialized (span : SpanResponse StartTime) : SpanResponse (Option (List Char)) :=
  span.mapStart fun start => some (startText start)

/-- What is assumed of `localeCompare`: the texts of starts are compared character by character,
by weights that have punctuation before digits and digits before letters. -/
def Collates (localeCompare : List Char → List Char → Ordering) : Prop :=
  ∃ weight, Ranks weight ∧ ∀ a b : StartTime,
    (localeCompare (startText a) (startText b) = .lt ↔
      (startText a).map weight < (startText b).map weight) ∧
    (localeCompare (startText a) (startText b) = .gt ↔
      (startText b).map weight < (startText a).map weight)

/-! ## The graph that follows time -/

/-- The graph computed with the spans ordered by instant. -/
def graphInTime (spans : List (SpanResponse StartTime)) : Option AgentGraph :=
  graphOf (fun a b => a.nanos ≤ b.nanos) (fun a b => b.nanos ≤ a.nanos) spans

/-- The earliest of the spans that `P` holds of. -/
structure IsFirst (spans : List (SpanResponse StartTime)) (P : SpanResponse StartTime → Prop)
    (span : SpanResponse StartTime) : Prop where
  mem : span ∈ spans
  holds : P span
  first : ∀ other ∈ spans, P other → span.start.nanos ≤ other.start.nanos

/-- One thing is there, and there for the first time before another. -/
def StartsBefore (spans : List (SpanResponse StartTime)) (P Q : SpanResponse StartTime → Prop) :
    Prop :=
  ∃ p q, IsFirst spans P p ∧ IsFirst spans Q q ∧ p.start.nanos < q.start.nanos

/-- The span is a run of the agent. -/
def RunsAgent (name : String) (span : SpanResponse StartTime) : Prop := span.agent = some name

/-- The agent ran before the other. -/
def RanBefore (spans : List (SpanResponse StartTime)) (name other : String) : Prop :=
  StartsBefore spans (RunsAgent name) (RunsAgent other)

def Ran (spans : List (SpanResponse StartTime)) (name : String) : Prop :=
  ∃ span ∈ spans, RunsAgent name span

/-- The handoff leads to the first other agent that starts no earlier. -/
def LeadsTo (spans : List (SpanResponse StartTime)) (source target : String)
    (handoff : SpanResponse StartTime) : Prop :=
  handoff.handsOff = some source ∧ ∃ run,
    IsFirst spans (fun span => (∃ name ≠ source, RunsAgent name span) ∧
      handoff.start.nanos ≤ span.start.nanos) run ∧ run.agent = some target

open Classical in
/-- The graph of the code follows time. -/
structure FollowsTime (localeCompare : List Char → List Char → Ordering)
    (spans : List (SpanResponse StartTime)) (graph : AgentGraph) : Prop where
  code : agentGraph localeCompare (spans.map serialized) = some graph
  inTime : graphInTime spans = some graph
  /-- The agents are listed in the order they first ran. -/
  agents : graph.agents.Pairwise fun agent later =>
    Ran spans agent.name → Ran spans later.name → RanBefore spans agent.name later.name
  /-- Each handoff leads to the first other agent that starts no earlier. -/
  handoffs : ∀ source target, (graph.handoffs.find? fun edge =>
      edge.source = source ∧ edge.target = target).elim 0 Handoff.count =
    spans.countP fun span => LeadsTo spans source target span

/-! ## The condition -/

/-- The text of no start, without its `Z`, begins that of a later one. -/
def WrittenInOrder (starts : List StartTime) : Prop :=
  ∀ a ∈ starts, ∀ b ∈ starts, a.nanos < b.nanos → ¬startBody a <+: startBody b

instance (starts : List StartTime) : Decidable (WrittenInOrder starts) :=
  inferInstanceAs (Decidable (∀ a ∈ starts, ∀ b ∈ starts, _ → _))

/-- The spans in order of time. -/
def inTime (spans : List (SpanResponse StartTime)) : List (SpanResponse StartTime) :=
  spans.mergeSort fun a b => a.start.nanos ≤ b.start.nanos

/-- The span is counted for the agent: it is a run of it, or a call that belongs to it. -/
def CountsFor (spans : List (SpanResponse StartTime)) (name : String)
    (span : SpanResponse StartTime) : Prop :=
  RunsAgent name span ∨ span.agent = none ∧ span.called.isSome ∧ ∃ i, (inTime spans)[i]? = some span ∧
    (owner (inTime spans) span i).bind truthy = some name

/-- No call is counted for an agent before all that is counted for one that ran before it. -/
def LedByRuns (spans : List (SpanResponse StartTime)) : Prop :=
  ∀ name other, RanBefore spans name other →
    StartsBefore spans (CountsFor spans name) (CountsFor spans other)

end Rustrak.AgentTrace
