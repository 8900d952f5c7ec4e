import Mathlib.Data.List.Sort
import Rustrak.Core.Json

/-!
# Exception chains

The part of `services/grouping.rs` that reads the exceptions of an event: where they
are, which of them only wrap others (`filterExceptionGroups`), and which one drives
the title.

The exceptions of a group form a tree by `exception_id` and `parent_id`.  Both walks
over it carry the ids they have visited and stop at a depth, so they end on any
input; a walk that gives up leaves the chain as it is.
-/

namespace Rustrak.Grouping

open Rustrak.Core

/-- How deep the exception tree may be walked before the chain is left untouched. -/
def maxExceptionTreeDepth : Nat := 1000

/-- The exceptions of an event: a bare array, or the `values` of an object. -/
def exceptionValues (eventData : Value) : Option (List Value) := do
  let exception ← eventData.get "exception"
  match exception with
  | .array values => some values
  | _ => (exception.get "values").bind Value.asArray

def mechanismId (exception : Value) (field : String) : Option Nat := do
  let mechanism ← exception.get "mechanism"
  (mechanism.get field).bind Value.asU64

/-- A flag of the mechanism, false when it is missing. -/
private def mechanismFlag (exception : Value) (field : String) : Bool :=
  (((exception.get "mechanism").bind fun m => m.get field).bind Value.asBool).getD false

def isExceptionGroup (exception : Value) : Bool := mechanismFlag exception "is_exception_group"

/-- Whether an exception is marked synthetic via `mechanism.synthetic`. -/
def isSynthetic (exception : Value) : Bool := mechanismFlag exception "synthetic"

/-- The pair exceptions are grouped by. -/
def typeAndValueOf (exception : Value) : String × String :=
  ((exception.str "type").getD "", (exception.str "value").getD "")

/-! ## Exception groups -/

/-- The exceptions below an id, last of the chain first. -/
def childrenOf (values : List Value) (id : Nat) : List Value :=
  values.reverse.filter fun e => mechanismId e "parent_id" = some id

/-- Every exception has an id of its own, and none is its own parent. -/
def hasOwnIds (values : List Value) : Bool :=
  (values.all fun e => (mechanismId e "exception_id").isSome &&
    mechanismId e "parent_id" != mechanismId e "exception_id") &&
    decide (values.map fun e => mechanismId e "exception_id").Nodup

/-- What a walk has found and the ids it has been at. -/
abbrev Walk := List Value × List Nat

/-- Direct descendants of exception groups that are not groups themselves, `depth`
levels down at most. -/
def collectTopLevel (children : Nat → List Value) : Nat → Value → Walk → Option Walk
  | depth, exception, (out, visited) =>
    if !isExceptionGroup exception then some (out ++ [exception], visited)
    else
      match depth with
      | 0 => none
      | depth + 1 =>
        match mechanismId exception "exception_id" with
        | none => some (out, visited)
        | some id =>
            if id ∈ visited then none
            else (children id).foldlM (fun walk child => collectTopLevel children depth child walk)
              (out, id :: visited)

/-- Walks from an exception to a leaf, following the first child each time. -/
def collectFirstPath (children : Nat → List Value) : Nat → Value → Walk → Option Walk
  | 0, _, _ => none
  | depth + 1, exception, (out, visited) =>
    match mechanismId exception "exception_id" with
    | none => some (out ++ [exception], visited)
    | some id =>
        if id ∈ visited then none
        else
          match (children id).head? with
          | none => some (out ++ [exception], visited)
          | some first => collectFirstPath children depth first (out ++ [exception], id :: visited)

/-- The order of `sort_by`: by type and value, the greatest first. -/
def byTypeAndValue (a b : Value) : Bool :=
  let x := typeAndValueOf a
  let y := typeAndValueOf b
  decide (y.1 < x.1) || (x.1 == y.1 && !decide (x.2 < y.2))

/-- Leaves out what has the type and value of the one before. -/
def dedupSiblings : List Value → List Value
  | [] => []
  | e :: rest =>
      match dedupSiblings rest with
      | [] => [e]
      | next :: others =>
          if typeAndValueOf e = typeAndValueOf next then e :: others else e :: next :: others

/-- Collapses exception-group wrappers that only add a level to the chain: the surviving
chain and the exception the title should use when the wrapper carried nothing.  Any
malformed tree returns the chain untouched. -/
def filterExceptionGroups (values : List Value) : List Value × Option Nat :=
  let children := childrenOf values
  let filtered : Option (List Value × Option Nat) := do
    guard (1 < values.length && hasOwnIds values)
    let root ← values.find? fun e => mechanismId e "exception_id" = some 0
    let (topLevel, _) ← collectTopLevel children maxExceptionTreeDepth root ([], [])
    guard !topLevel.isEmpty
    match dedupSiblings (topLevel.insertionSort fun a b => byTypeAndValue a b) with
    | [inner] =>
        -- The wrapper adds nothing: keep the inner error and its first path.
        let (path, _) ← collectFirstPath children maxExceptionTreeDepth inner ([], [])
        return (path, mechanismId inner "exception_id")
    | distinct => return (distinct ++ [root], none)
  filtered.getD (values, none)

/-! ## The main exception -/

def reactErrorsWithCause : List String :=
  ["There was an error during concurrent rendering but React was able to recover by instead " ++
      "synchronously rendering the entire root.",
    "There was an error while hydrating but React was able to recover by instead client " ++
      "rendering from the nearest Suspense boundary."]

/-- React 19 wraps a recovered render error around the error that caused it. -/
def reactErrorWithCause (exceptions : List Value) : Option Nat := do
  let first ← exceptions.head?
  let last ← exceptions.getLast?
  let (ty, value) := typeAndValueOf first
  guard (ty == "Error" && reactErrorsWithCause.contains value)
  let mechanism ← last.get "mechanism"
  let source ← mechanism.get "source"
  guard (source.asStr == some "cause")
  mechanismId last "exception_id"

def rxjavaTypes : List String :=
  ["OnErrorNotImplementedException", "CompositeException", "UndeliverableException"]

/-- RxJava wraps the real error in a framework exception; the answer is its direct
child. -/
def javaRxjavaFrameworkException (exceptions : List Value) : Option Nat := do
  guard (2 ≤ exceptions.length)
  let wrapperId ← exceptions.findSome? fun e =>
    if e.str "module" = some "io.reactivex.rxjava3.exceptions" ∧
        rxjavaTypes.contains (typeAndValueOf e).1 then mechanismId e "exception_id"
    else none
  exceptions.findSome? fun e =>
    if mechanismId e "parent_id" = some wrapperId then mechanismId e "exception_id" else none

def kotlinWrappers : List (String × String) :=
  [("kotlinx.coroutines.internal", "DiagnosticCoroutineContextException"),
    ("androidx.compose.runtime.tooling", "DiagnosticComposeException")]

def isKotlinWrapper (e : Value) : Bool :=
  kotlinWrappers.contains ((e.str "module").getD "", (typeAndValueOf e).1)

/-- The first parent that is no wrapper, `steps` levels up at most. -/
def kotlinParent (byId : Nat → Option Value) : Nat → Value → Option Nat
  | 0, _ => none
  | steps + 1, current => do
      let parentId ← mechanismId current "parent_id"
      let parent ← byId parentId
      if !isKotlinWrapper parent then some parentId else kotlinParent byId steps parent

/-- Kotlin Coroutines and Compose add diagnostic wrappers with no stacktrace and a
placeholder message.  Walk past them to the first real parent. -/
def kotlinDiagnosticWrapper (exceptions : List Value) : Option Nat := do
  guard (2 ≤ exceptions.length && exceptions.any isKotlinWrapper)
  -- A map collected from pairs keeps the last one of an id.
  let byId (id : Nat) := exceptions.reverse.find? fun e => mechanismId e "exception_id" = some id
  let ids := (exceptions.filterMap fun e => mechanismId e "exception_id").dedup
  (exceptions.filter isKotlinWrapper).findSome? fun e => kotlinParent byId ids.length e

/-- Wrappers that exist only to carry a real error; the first match wins. -/
def overrideMainExceptionId (exceptions : List Value) : Option Nat :=
  ((reactErrorWithCause exceptions).or (javaRxjavaFrameworkException exceptions)).or
    (kotlinDiagnosticWrapper exceptions)

/-- The exception the issue would be titled by, or `none` to keep the default. -/
def mainExceptionId (values : List Value) : Option Nat :=
  let (collapsed, fromGroups) := filterExceptionGroups values
  (overrideMainExceptionId collapsed).or fromGroups

/-- The exception that should drive the type and value, falling back to the last of
the chain. -/
def getMainException (eventData : Value) : Option Value := do
  let values ← exceptionValues eventData
  match mainExceptionId values with
  | some id =>
      (values.find? fun e => mechanismId e "exception_id" = some id).or values.getLast?
  | none => values.getLast?

end Rustrak.Grouping
