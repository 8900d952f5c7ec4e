import Rustrak.Sessions.Contributions
import Rustrak.Transition.Run

/-!
# Sessions are conserved

What has been accepted is in memory, in the batch of a flush, or in the tables; a
batch whose commit outcome is unknown is in the tables or nowhere.

`FittingStep` are the steps without an addition that leaves 64 bits.
-/

namespace Rustrak.Sessions

open Rustrak.Relational Rustrak.Transition

variable {batch : AggregatorState}

/-! ## Runs -/

/-- The aggregator with its books: what it has accepted, and the batches whose commit
outcome is unknown and that are not in the tables. -/
structure Books where
  world : World
  accepted : Contribution
  lost : List AggregatorState

def Books.start : Books := ⟨.start, .empty, []⟩

inductive AggregatorLabel
  | session (projectId : Int) (update : SessionUpdate) (now : Int)
  | aggregates (projectId : Int) (agg : SessionAggregates) (clock : Nat → Int)
  /-- A flush takes what is in memory. -/
  | begin
  /-- It fails before its commit. -/
  | fail
  /-- It commits. -/
  | commit
  /-- Its commit fails, and may have happened. -/
  | unknown (landed : Bool)

variable (env : SessionEnv)

/-- Ingests and flushes, in any order; flushes take turns. -/
inductive AggregatorStep : Books → AggregatorLabel → Books → Prop
  | session (b : Books) (projectId : Int) (update : SessionUpdate) (now : Int) :
      AggregatorStep b (.session projectId update now)
        { b with
          world := { b.world with
            memory := ingestSession env b.world.memory projectId update now }
          accepted := b.accepted ++ sessionContribution env b.world.memory projectId update now }
  | aggregates (b : Books) (projectId : Int) (agg : SessionAggregates) (clock : Nat → Int) :
      AggregatorStep b (.aggregates projectId agg clock)
        { b with
          world := { b.world with
            memory := ingestAggregates env b.world.memory projectId agg clock }
          accepted := b.accepted ++
            aggregatesContribution env b.world.memory projectId agg clock }
  | began {b : Books} : b.world.batch = none →
      AggregatorStep b .begin { b with world := beginFlush b.world }
  | failed {b : Books} {batch : AggregatorState} : b.world.batch = some batch →
      AggregatorStep b .fail { b with world := failFlush b.world batch }
  | committed {b : Books} {batch rows : AggregatorState} : b.world.batch = some batch →
      upsertAll env.engine b.world.rows batch = some rows →
      AggregatorStep b .commit { b with world := { b.world with batch := none, rows } }
  | landed {b : Books} {batch rows : AggregatorState} : b.world.batch = some batch →
      upsertAll env.engine b.world.rows batch = some rows →
      AggregatorStep b (.unknown true) { b with world := { b.world with batch := none, rows } }
  | lost {b : Books} {batch : AggregatorState} : b.world.batch = some batch →
      AggregatorStep b (.unknown false)
        { b with world := { b.world with batch := none }, lost := b.lost ++ [batch] }

/-- A step whose additions stay within 64 bits. -/
def FitsLabel (b : Books) : AggregatorLabel → Prop
  | .session projectId update now =>
      Fits b.world.memory (sessionContribution env b.world.memory projectId update now)
  | .aggregates projectId agg clock =>
      Fits b.world.memory (aggregatesContribution env b.world.memory projectId agg clock)
  | .begin | .unknown false => True
  | .fail => ∀ batch, b.world.batch = some batch →
      ∀ k c, b.world.memory.value k c + batch.value k c ≤ i64Max
  | .commit | .unknown true => ∀ batch, b.world.batch = some batch →
      ∀ k c, b.world.rows.value k c + batch.value k c ≤ i64Max

def FittingStep (b : Books) (label : AggregatorLabel) (b' : Books) : Prop :=
  AggregatorStep env b label b' ∧ FitsLabel env b label

/-- What lost batches held. -/
def lostValue (lost : List AggregatorState) (k : BucketKey) (c : Counter) : Int :=
  (lost.map fun s => s.value k c).sum

def lostFlag (lost : List AggregatorState) (u : UserKey) : Option Bool :=
  lost.foldr (fun s rest => joinFlag (s.flag u) rest) none

theorem lostValue_append (lost : List AggregatorState) (s : AggregatorState) (k : BucketKey)
    (c : Counter) : lostValue (lost ++ [s]) k c = lostValue lost k c + s.value k c := by
  unfold lostValue
  rw [List.map_append, List.sum_append, List.map_singleton, List.sum_singleton]

theorem lostFlag_append (lost : List AggregatorState) (s : AggregatorState) (u : UserKey) :
    lostFlag (lost ++ [s]) u = joinFlag (lostFlag lost u) (s.flag u) := by
  unfold lostFlag
  induction lost with
  | nil => exact joinFlag_none _
  | cons first rest ih =>
      rw [List.cons_append, List.foldr_cons, List.foldr_cons, ih]
      ac_rfl

namespace Books

variable (b : Books)

def inFlight (k : BucketKey) (c : Counter) : Int := (b.world.batch.map fun s => s.value k c).getD 0

def inFlightFlag (u : UserKey) : Option Bool := b.world.batch.bind fun s => s.flag u

/-- What was accepted is in memory, in the batch, in the tables, or was lost with a batch
of unknown outcome. -/
structure Conserved : Prop where
  counts : ∀ k c, b.world.memory.value k c + b.inFlight k c + b.world.rows.value k c +
    lostValue b.lost k c = b.accepted.amount k c
  flags : ∀ u, joinFlag (joinFlag (b.world.memory.flag u) (b.inFlightFlag u))
    (joinFlag (b.world.rows.flag u) (lostFlag b.lost u)) = b.accepted.flag u

/-- And no counter is negative. -/
structure Sound : Prop extends Conserved b where
  memory : b.world.memory.Nonneg
  batch : ∀ s, b.world.batch = some s → s.Nonneg
  rows : b.world.rows.Nonneg

end Books

theorem sound_start : Books.start.Sound where
  counts := by simp [Books.start, World.start, Books.inFlight, lostValue]
  flags := by simp [Books.start, World.start, Books.inFlightFlag, lostFlag]
  memory := by simp [Books.start, World.start, AggregatorState.Nonneg]
  batch := by simp [Books.start, World.start]
  rows := by simp [Books.start, World.start, AggregatorState.Nonneg]

variable {env} {b b' : Books}

/-- An ingest adds to memory what it adds to what was accepted. -/
private theorem Books.Sound.ingest (h : b.Sound) {memory : AggregatorState} {x : Contribution}
    (hadds : Adds b.world.memory memory x) (hx : x.Nonneg) :
    Books.Sound
      { b with world := { b.world with memory }, accepted := b.accepted ++ x } where
  counts := by
    intro k c
    have hold := h.counts k c
    change memory.value k c + b.inFlight k c + b.world.rows.value k c + lostValue b.lost k c = _
    rw [Contribution.amount_append, hadds.counts]
    omega
  flags := by
    intro u
    change joinFlag (joinFlag (memory.flag u) (b.inFlightFlag u))
      (joinFlag (b.world.rows.flag u) (lostFlag b.lost u)) = _
    rw [Contribution.flag_append, ← h.flags u, hadds.flags]
    ac_rfl
  memory := hadds.nonneg h.memory hx
  batch := h.batch
  rows := h.rows

/-- Memory without entries has nothing in it. -/
theorem eq_empty_of_entries {m : AggregatorState}
    (h : (m.counts.entries.isEmpty && m.users.entries.isEmpty) = true) : m = .empty := by
  obtain ⟨⟨counts, hcounts⟩, ⟨users, husers⟩⟩ := m
  obtain ⟨hnocounts, hnousers⟩ := Bool.and_eq_true_iff.mp h
  obtain rfl := List.isEmpty_iff.mp hnocounts
  obtain rfl := List.isEmpty_iff.mp hnousers
  rfl

private theorem Books.Sound.begin (h : b.Sound) (hbatch : b.world.batch = none) :
    Books.Sound { b with world := beginFlush b.world } := by
  obtain ⟨⟨memory, batch, rows⟩, accepted, lost⟩ := b
  obtain rfl : batch = none := hbatch
  unfold beginFlush
  dsimp only
  split_ifs with hempty
  · obtain rfl := eq_empty_of_entries hempty
    exact h
  · exact {
      counts := by
        intro k c
        have hold := h.counts k c
        change memory.value k c + 0 + rows.value k c + lostValue lost k c = _ at hold
        change AggregatorState.empty.value k c + memory.value k c + rows.value k c +
          lostValue lost k c = _
        rw [← hold, AggregatorState.value_empty]
        omega
      flags := by
        intro u
        rw [← h.flags u]
        change joinFlag (joinFlag (AggregatorState.empty.flag u) (memory.flag u)) _ =
          joinFlag (joinFlag (memory.flag u) none) _
        rw [AggregatorState.flag_empty, none_joinFlag, joinFlag_none]
      memory := fun k c => (AggregatorState.value_empty k c).ge
      batch := by
        intro s hs
        obtain rfl := Option.some.inj hs
        exact h.memory
      rows := h.rows }

private theorem Books.Sound.fail (h : b.Sound) {batch : AggregatorState}
    (hbatch : b.world.batch = some batch)
    (hfits : ∀ k c, b.world.memory.value k c + batch.value k c ≤ i64Max) :
    Books.Sound { b with world := failFlush b.world batch } := by
  obtain ⟨⟨memory, _, rows⟩, accepted, lost⟩ := b
  obtain rfl : _ = some batch := hbatch
  have hnonneg := h.batch batch rfl
  have hvalue : ∀ k c, (mergeState memory batch).value k c =
      memory.value k c + batch.value k c := value_mergeState h.memory hnonneg hfits
  exact {
    counts := by
      intro k c
      have hold := h.counts k c
      change memory.value k c + batch.value k c + rows.value k c + lostValue lost k c = _ at hold
      change (mergeState memory batch).value k c + 0 + rows.value k c + lostValue lost k c = _
      rw [← hold, hvalue]
      omega
    flags := by
      intro u
      rw [← h.flags u]
      change joinFlag (joinFlag ((mergeState memory batch).flag u) none) _ =
        joinFlag (joinFlag (memory.flag u) (batch.flag u)) _
      rw [flag_mergeState, joinFlag_none]
      rfl
    memory := by
      intro k c
      change 0 ≤ (mergeState memory batch).value k c
      rw [hvalue]
      exact Int.add_nonneg (h.memory k c) (hnonneg k c)
    batch := fun _ hs => nomatch hs
    rows := h.rows }

/-- A batch that is committed moves to the tables. -/
private theorem Books.Sound.commit (h : b.Sound) {batch rows : AggregatorState}
    (hbatch : b.world.batch = some batch)
    (hrows : upsertAll env.engine b.world.rows batch = some rows)
    (hfits : ∀ k c, b.world.rows.value k c + batch.value k c ≤ i64Max) :
    Books.Sound { b with world := { b.world with batch := none, rows } } := by
  obtain ⟨⟨memory, _, old⟩, accepted, lost⟩ := b
  obtain rfl : _ = some batch := hbatch
  have hnonneg := h.batch batch rfl
  obtain ⟨hvalue, hflag⟩ : (∀ k c, rows.value k c = old.value k c + batch.value k c) ∧
      ∀ u, rows.flag u = joinFlag (old.flag u) (batch.flag u) :=
    upsertAll_adds hrows h.rows hnonneg hfits
  exact {
    counts := by
      intro k c
      have hold := h.counts k c
      change memory.value k c + batch.value k c + old.value k c + lostValue lost k c = _ at hold
      change memory.value k c + 0 + rows.value k c + lostValue lost k c = _
      rw [← hold, hvalue]
      omega
    flags := by
      intro u
      rw [← h.flags u]
      change joinFlag (joinFlag (memory.flag u) none) (joinFlag (rows.flag u) _) =
        joinFlag (joinFlag (memory.flag u) (batch.flag u)) (joinFlag (old.flag u) _)
      rw [hflag, joinFlag_none]
      ac_rfl
    memory := h.memory
    batch := fun _ hs => nomatch hs
    rows := by
      intro k c
      change 0 ≤ rows.value k c
      rw [hvalue]
      exact Int.add_nonneg (h.rows k c) (hnonneg k c) }

/-- A batch that was not committed, though nobody knows, is lost. -/
private theorem Books.Sound.lose (h : b.Sound) {batch : AggregatorState}
    (hbatch : b.world.batch = some batch) :
    Books.Sound { b with world := { b.world with batch := none }, lost := b.lost ++ [batch] } := by
  obtain ⟨⟨memory, _, rows⟩, accepted, lost⟩ := b
  obtain rfl : _ = some batch := hbatch
  exact {
    counts := by
      intro k c
      have hold := h.counts k c
      change memory.value k c + batch.value k c + rows.value k c + lostValue lost k c = _ at hold
      change memory.value k c + 0 + rows.value k c + lostValue (lost ++ [batch]) k c = _
      rw [← hold, lostValue_append]
      omega
    flags := by
      intro u
      rw [← h.flags u]
      change joinFlag (joinFlag (memory.flag u) none)
          (joinFlag (rows.flag u) (lostFlag (lost ++ [batch]) u)) =
        joinFlag (joinFlag (memory.flag u) (batch.flag u))
          (joinFlag (rows.flag u) (lostFlag lost u))
      rw [lostFlag_append, joinFlag_none]
      ac_rfl
    memory := h.memory
    batch := fun _ hs => nomatch hs
    rows := h.rows }

/-- Every step without an overflow keeps the books. -/
theorem FittingStep.sound {label : AggregatorLabel} (hstep : FittingStep env b label b')
    (h : b.Sound) : b'.Sound := by
  obtain ⟨hstep, hfits⟩ := hstep
  cases hstep with
  | session projectId update now =>
      exact h.ingest (ingestSession_adds h.memory hfits) (nonneg_sessionContribution _ _ _ _ _)
  | aggregates projectId agg clock =>
      exact h.ingest (ingestAggregates_adds h.memory hfits) (nonneg_itemsContribution _)
  | began hbatch => exact h.begin hbatch
  | failed hbatch => exact h.fail hbatch (hfits _ hbatch)
  | committed hbatch hrows => exact h.commit hbatch hrows (hfits _ hbatch)
  | landed hbatch hrows => exact h.commit hbatch hrows (hfits _ hbatch)
  | lost hbatch => exact h.lose hbatch

/-- From every sound state every run without an overflow reaches sound ones. -/
theorem Books.Sound.run {labels : List AggregatorLabel} (h : b.Sound)
    (hrun : Run (FittingStep env) b labels b') : b'.Sound :=
  hrun.invariant Books.Sound (fun _ _ _ hs hstep => hstep.sound hs) h

/-- Sessions are conserved in every run in which no addition leaves 64 bits. -/
theorem sessions_conserved {labels : List AggregatorLabel}
    (hrun : Run (FittingStep env) .start labels b) : b.Conserved :=
  (sound_start.run hrun).toConserved

/-- A database that refuses a sum outside 64 bits. -/
def Engine.refusing : Engine where
  add a b := if a + b ≤ i64Max then some (a + b) else none
  exact := fun _ _ _ _ h => if_pos h

/-- Ten releases a project; one timestamp can be read. -/
def tenReleases : SessionEnv where
  cap := 10
  parseTs s := if s = "2026-06-10T10:00:42Z" then some 1781085642 else none
  engine := .refusing

/-- A session of release 1.0.0 that begins. -/
def startedSession : SessionUpdate where
  did := some "u1"
  init := true
  started := some "2026-06-10T10:00:42Z"
  status := some .ok
  errors := ⟨0, by decide, by decide⟩
  attrs := some ⟨some "1.0.0", some "production"⟩

/-- One session more than a counter holds. -/
def oversized : SessionAggregates where
  attrs := some ⟨some "1.0.0", some "production"⟩
  aggregates := [{
    started := some "2026-06-10T10:00:42Z"
    exited := ⟨i64Max, by decide, le_refl _⟩
    errored := ⟨1, by decide, by decide⟩
    abnormal := ⟨0, by decide, by decide⟩
    crashed := ⟨0, by decide, by decide⟩
    unhandled := ⟨0, by decide, by decide⟩ }]

/-- The minute both are counted in. -/
def tenOClock : BucketKey := ⟨1, "1.0.0", "production", 1781085600⟩

theorem startedSession_contribution :
    sessionContribution tenReleases .empty 1 startedSession 0 =
      .one tenOClock .total (some "u1") false := by decide

theorem startedSession_fits :
    Fits .empty (sessionContribution tenReleases .empty 1 startedSession 0) := by
  intro k c
  rw [AggregatorState.value_empty, startedSession_contribution]
  unfold Contribution.one
  rw [Contribution.amount_single]
  split_ifs
  · cases c <;> decide
  · decide

theorem sessions_conserved_committed :
    ∃ b : Books, b.Conserved ∧ b.world.rows.value tenOClock .total = 1 := by
  have hmemory := ingestSession_adds sound_start.memory startedSession_fits
  have hcommit : ∀ batch, some (ingestSession tenReleases .empty 1 startedSession 0) = some batch →
      ∀ k c, AggregatorState.empty.value k c + batch.value k c ≤ i64Max := by
    intro batch hbatch k c
    obtain rfl := Option.some.inj hbatch
    have hfits := startedSession_fits k c
    have hvalue := hmemory.counts k c
    change (ingestSession tenReleases .empty 1 startedSession 0).value k c =
      AggregatorState.empty.value k c +
        (sessionContribution tenReleases .empty 1 startedSession 0).amount k c at hvalue
    rw [AggregatorState.value_empty] at hfits hvalue ⊢
    omega
  have hbegan : FittingStep tenReleases .start (.session 1 startedSession 0) _ :=
    ⟨.session .start 1 startedSession 0, startedSession_fits⟩
  have hrun := Run.cons hbegan
    (.cons ⟨.began rfl, trivial⟩ (.single ⟨.committed rfl rfl, hcommit⟩))
  exact ⟨_, sessions_conserved hrun, by decide⟩

/-- A client can send counts no counter holds the sum of. -/
theorem sessions_lost_by_wrapping :
    ∃ b : Books, Run (AggregatorStep tenReleases) .start [.aggregates 1 oversized fun _ => 0] b ∧
      b.world.memory.value tenOClock .total = -i64Max - 1 ∧
      b.accepted.amount tenOClock .total = i64Max + 1 ∧ ¬b.Conserved := by
  refine ⟨_, Run.single (.aggregates .start 1 oversized fun _ => 0), by decide, by decide,
    fun h => ?_⟩
  have hcounts := h.counts tenOClock .total
  revert hcounts
  decide

end Rustrak.Sessions
