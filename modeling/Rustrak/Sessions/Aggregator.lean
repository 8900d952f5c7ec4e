import Mathlib.Data.Finset.Card
import Mathlib.Data.Finset.Image
import Mathlib.Tactic.Linarith
import Rustrak.Relational.Merge

/-!
# The session aggregator

`workers/session_aggregator.rs`: session updates are added up in memory, per minute
for the counts and per day for the users, and a flush moves everything in memory to
the database in one transaction.  A flush that fails before its commit merges what
it took back into memory; one whose commit fails does not, because it may have
happened.

Counters are 64-bit and wrap.  How a text is read as a time and how the database
adds two integers is not the code's to decide: `SessionEnv` has both.
-/

namespace Rustrak.Sessions

open Rustrak.Relational

/-! ## 64-bit integers -/

def i64Max : Int := 2 ^ 63 - 1

/-- The value of a 64-bit integer after it wrapped. -/
def wrap (n : Int) : Int := Int.bmod n (2 ^ 64)

theorem wrap_of_fits {n : Int} (h : 0 ≤ n) (hmax : n ≤ i64Max) : wrap n = n := by
  unfold i64Max at hmax
  exact Int.bmod_eq_of_le (by omega) (by omega)

/-- What `de_non_negative_i64` lets through. -/
structure NonNegI64 where
  val : Int
  nonneg : 0 ≤ val
  fits : val ≤ i64Max
  deriving DecidableEq

/-! ## What a client sends -/

inductive SessionStatus
  | ok
  | exited
  | crashed
  | abnormal
  | unhandled
  | errored
  /-- Any status this version does not know yet. -/
  | unknown
  deriving DecidableEq, Repr

inductive SessionOutcome
  | crashed
  | abnormal
  | errored
  | healthy
  deriving DecidableEq, Repr

/-- Whether this status represents a terminal session update. -/
def SessionStatus.isTerminal (status : SessionStatus) : Bool := status != .ok

/-- Classify a terminal session update into an aggregator outcome. -/
def classify : SessionStatus → NonNegI64 → SessionOutcome
  | .crashed, _ => .crashed
  | .abnormal, _ => .abnormal
  | .unhandled, _ | .errored, _ | .unknown, _ => .errored
  | .exited, errors | .ok, errors => if errors.val > 0 then .errored else .healthy

structure SessionAttributes where
  release : Option String
  environment : Option String
  deriving DecidableEq

structure SessionUpdate where
  did : Option String
  init : Bool
  started : Option String
  status : Option SessionStatus
  errors : NonNegI64
  attrs : Option SessionAttributes
  deriving DecidableEq

structure SessionAggregateItem where
  started : Option String
  exited : NonNegI64
  errored : NonNegI64
  abnormal : NonNegI64
  crashed : NonNegI64
  unhandled : NonNegI64
  deriving DecidableEq

structure SessionAggregates where
  attrs : Option SessionAttributes
  aggregates : List SessionAggregateItem
  deriving DecidableEq

/-! ## State -/

/-- Key of a session count row; `bucket` is the second its minute begins with. -/
structure BucketKey where
  projectId : Int
  release : String
  environment : String
  bucket : Int
  deriving DecidableEq, Repr

structure Counters where
  total : Int
  errored : Int
  crashed : Int
  abnormal : Int
  deriving DecidableEq, Repr

def Counters.zero : Counters := ⟨0, 0, 0, 0⟩

/-- Key of a distinct-user row; days are counted from the epoch. -/
structure UserKey where
  projectId : Int
  release : String
  environment : String
  day : Int
  did : String
  deriving DecidableEq, Repr

/-- State held under the mutex, and the two tables it is flushed to. -/
structure AggregatorState where
  counts : Map BucketKey Counters
  /-- Whether the user had a crash. -/
  users : Map UserKey Bool
  deriving DecidableEq

def AggregatorState.empty : AggregatorState := ⟨∅, ∅⟩

/-- What the database does when it adds to a counter: an integer that fits is the sum;
whether it refuses one that does not or stores something else is its own affair. -/
structure Engine where
  add : Int → Int → Option Int
  exact : ∀ a b, 0 ≤ a → 0 ≤ b → a + b ≤ i64Max → add a b = some (a + b)

structure SessionEnv where
  cap : Nat
  /-- `parse_ts`: the second of a timestamp. -/
  parseTs : String → Option Int
  engine : Engine

def overflowRelease : String := "<overflow>"

def truncateToMinute (t : Int) : Int := t - t % 60

/-- The day a bucket lies in. -/
def dateNaive (bucket : Int) : Int := bucket / 86400

/-- The bucket of a session that started then, or now if that cannot be read. -/
def bucketOf (env : SessionEnv) (started : Option String) (now : Int) : Int :=
  truncateToMinute ((env.parseTs (started.getD "")).getD now)

/-- The releases of a project that are in memory. -/
def projectReleases (state : AggregatorState) (projectId : Int) : Finset String :=
  ((state.counts.keys.filter fun k => k.projectId = projectId).map BucketKey.release).toFinset

/-- Apply cardinality cap: a new release beyond it is counted as the overflow release. -/
def applyCardinalityCap (state : AggregatorState) (projectId : Int) (release : String)
    (cap : Nat) : String :=
  if release ∈ projectReleases state projectId then release
  else if (projectReleases state projectId).card ≥ cap then overflowRelease
  else release

/-- The release and the environment of an item, unless it has to be dropped. -/
def acceptedAttrs (attrs : Option SessionAttributes) : Option (String × String) := do
  let attrs ← attrs
  let release ← attrs.release
  if release.isEmpty then none else some (release, attrs.environment.getD "")

/-- The user an update tells, when it does. -/
def SessionUpdate.user (update : SessionUpdate) : Option String :=
  update.did.filter fun did => !did.isEmpty

namespace AggregatorState

/-- `counts.entry(key).or_default()`, changed. -/
def count (state : AggregatorState) (key : BucketKey) (change : Counters → Counters) :
    AggregatorState :=
  { state with counts :=
      state.counts.insert key (change ((state.counts.lookup key).getD .zero)) }

/-- `users.entry(key).or_insert(false)`. -/
def see (state : AggregatorState) (key : UserKey) : AggregatorState :=
  { state with users :=
      state.users.insert key ((state.users.lookup key).getD false) }

/-- `users.insert(key, true)`. -/
def markCrashed (state : AggregatorState) (key : UserKey) : AggregatorState :=
  { state with users := state.users.insert key true }

end AggregatorState

/-! ## Ingest -/

/-- The row of a user in the day of a bucket. -/
def BucketKey.user (key : BucketKey) (did : String) : UserKey where
  projectId := key.projectId
  release := key.release
  environment := key.environment
  day := dateNaive key.bucket
  did := did

/-- A session that begins. -/
def applyInit (update : SessionUpdate) (key : BucketKey) (state : AggregatorState) :
    AggregatorState :=
  if update.init then
    let state := state.count key fun c => { c with total := wrap (c.total + 1) }
    match update.user with
    | some did => state.see (key.user did)
    | none => state
  else state

/-- A session that ends. -/
def applyTerminal (update : SessionUpdate) (key : BucketKey) (state : AggregatorState) :
    AggregatorState :=
  let status := update.status.getD .ok
  if status.isTerminal then
    match classify status update.errors with
    | .crashed =>
        let state := state.count key fun c => { c with crashed := wrap (c.crashed + 1) }
        match update.user with
        | some did => state.markCrashed (key.user did)
        | none => state
    | .abnormal => state.count key fun c => { c with abnormal := wrap (c.abnormal + 1) }
    | .errored => state.count key fun c => { c with errored := wrap (c.errored + 1) }
    | .healthy => state.count key id
  else state

/-- The bucket an accepted item is counted in. -/
def acceptedKey (env : SessionEnv) (state : AggregatorState) (projectId : Int)
    (attrs : Option SessionAttributes) (bucket : Int) : Option BucketKey :=
  (acceptedAttrs attrs).map fun (release, environment) =>
    { projectId := projectId
      release := applyCardinalityCap state projectId release env.cap
      environment := environment
      bucket := bucket }

/-- Ingest a single `session` envelope item. -/
def ingestSession (env : SessionEnv) (state : AggregatorState) (projectId : Int)
    (update : SessionUpdate) (now : Int) : AggregatorState :=
  match acceptedKey env state projectId update.attrs (bucketOf env update.started now) with
  | none => state
  | some key => applyTerminal update key (applyInit update key state)

/-- Apply a pre-aggregated item into state. -/
def applyAggregateItem (state : AggregatorState) (key : BucketKey) (item : SessionAggregateItem) :
    AggregatorState :=
  let sum := wrap (wrap (wrap (wrap (item.exited.val + item.errored.val) + item.crashed.val) +
    item.abnormal.val) + item.unhandled.val)
  state.count key fun c =>
    { total := wrap (c.total + sum)
      errored := wrap (c.errored + wrap (item.errored.val + item.unhandled.val))
      crashed := wrap (c.crashed + item.crashed.val)
      abnormal := wrap (c.abnormal + item.abnormal.val) }

/-- The items of an accepted aggregate with the bucket of each; `clock` is what it read
for each of them. -/
def aggregateBuckets (env : SessionEnv) (state : AggregatorState) (projectId : Int)
    (agg : SessionAggregates) (clock : Nat → Int) : List (BucketKey × SessionAggregateItem) :=
  agg.aggregates.zipIdx.filterMap fun (item, i) =>
    (acceptedKey env state projectId agg.attrs (bucketOf env item.started (clock i))).map
      fun key => (key, item)

/-- Ingest a pre-aggregated `sessions` envelope item. -/
def ingestAggregates (env : SessionEnv) (state : AggregatorState) (projectId : Int)
    (agg : SessionAggregates) (clock : Nat → Int) : AggregatorState :=
  (aggregateBuckets env state projectId agg clock).foldl
    (fun state (key, item) => applyAggregateItem state key item) state

/-! ## Flush -/

/-- Memory, the batch a flush has taken, and the tables. -/
structure World where
  memory : AggregatorState
  batch : Option AggregatorState
  rows : AggregatorState
  deriving DecidableEq

def World.start : World := ⟨.empty, none, .empty⟩

def Counters.wrappingAdd (a b : Counters) : Counters where
  total := wrap (a.total + b.total)
  errored := wrap (a.errored + b.errored)
  crashed := wrap (a.crashed + b.crashed)
  abnormal := wrap (a.abnormal + b.abnormal)

def mergeState (state batch : AggregatorState) : AggregatorState where
  counts := merge (fun current c => (current.getD .zero).wrappingAdd c) state.counts batch.counts
  users := merge (fun current crashed => current.getD false || crashed) state.users batch.users

/-- `ON CONFLICT … DO UPDATE` of a count row; `none` when the statement fails. -/
def upsertCount (engine : Engine) (row : Option Counters) (c : Counters) : Option Counters :=
  match row with
  | none => some c
  | some row => do
      return {
        total := ← engine.add row.total c.total
        errored := ← engine.add row.errored c.errored
        crashed := ← engine.add row.crashed c.crashed
        abnormal := ← engine.add row.abnormal c.abnormal }

/-- The statements of a flush's transaction. -/
def upsertAll (engine : Engine) (rows batch : AggregatorState) : Option AggregatorState := do
  let counts ← mergeM (upsertCount engine) rows.counts batch.counts
  return {
    counts
    users := merge (fun row crashed => row.getD false || crashed) rows.users batch.users }

/-- A flush takes what is in memory; with nothing there it ends at once. -/
def beginFlush (w : World) : World :=
  if w.memory.counts.entries.isEmpty && w.memory.users.entries.isEmpty then
    { w with memory := .empty }
  else { w with memory := .empty, batch := some w.memory }

/-- The transaction failed before its commit. -/
def failFlush (w : World) (batch : AggregatorState) : World :=
  { w with memory := mergeState w.memory batch, batch := none }

end Rustrak.Sessions
