import Rustrak.Sessions.Checked
import Rustrak.Sessions.Conservation

/-!
# Counters that do not overflow

What the items say that are in memory, and in the batch of a flush, is noted as integers beside the
aggregator.  No `i64` sum leaves 64 bits just as long as, for each counter of each bucket, what is
in memory adds up to a number that fits: a sum in between is below the last one.
-/

namespace Rustrak.Sessions

open Rustrak.Relational Rustrak.Transition

/-! ## Runs -/

/-- The aggregator, with what the items say that are in memory and in the batch of a flush. -/
structure Watched where
  books : Books
  pending : Contribution
  taken : Contribution

def Watched.start : Watched := ⟨.start, .empty, .empty⟩

variable (env : SessionEnv)

/-- What the items say that are in memory and in the batch after a step. -/
def Watched.note (w : Watched) : AggregatorLabel → Contribution × Contribution
  | .session projectId update now =>
      (w.pending ++ sessionContribution env w.books.world.memory projectId update now, w.taken)
  | .aggregates projectId agg clock =>
      (w.pending ++ aggregatesContribution env w.books.world.memory projectId agg clock, w.taken)
  | .begin => (.empty, w.pending)
  | .fail => (w.pending ++ w.taken, .empty)
  | .commit | .unknown _ => (w.pending, .empty)

structure WatchedStep (w : Watched) (label : AggregatorLabel) (w' : Watched) : Prop where
  step : AggregatorStep env w.books label w'.books
  noted : (w'.pending, w'.taken) = w.note env label

/-- No `i64` sum that a step computes in memory leaves 64 bits. -/
def SumsFit (w : World) : AggregatorLabel → Prop
  | .session projectId update now =>
      (tryIngestSession env w.memory projectId update now).isSome = true
  | .aggregates projectId agg clock =>
      (tryIngestAggregates env w.memory projectId agg clock).isSome = true
  | .fail => ∀ batch, w.batch = some batch → (tryMerge w.memory batch).isSome = true
  | .begin | .commit | .unknown _ => True

/-- What the items say that are in memory after a step adds up to counters that fit. -/
def PendingFits (w : Watched) (label : AggregatorLabel) : Prop :=
  ∀ k c, (w.note env label).1.amount k c ≤ i64Max

def SummingStep (w : Watched) (label : AggregatorLabel) (w' : Watched) : Prop :=
  WatchedStep env w label w' ∧ SumsFit env w.books.world label

def PendingStep (w : Watched) (label : AggregatorLabel) (w' : Watched) : Prop :=
  WatchedStep env w label w' ∧ PendingFits env w label

/-! ## Counters are what is noted -/

structure Watched.Exact (w : Watched) : Prop where
  within : Within w.books.world.memory
  batch : ∀ s, w.books.world.batch = some s → s.Nonneg
  pending : ∀ k c, w.books.world.memory.value k c = w.pending.amount k c
  taken : ∀ k c, w.books.inFlight k c = w.taken.amount k c

theorem within_empty : Within .empty where
  nonneg _ _ := by rw [AggregatorState.value_empty]
  fits _ _ := by
    rw [AggregatorState.value_empty]
    decide

theorem Watched.exact_start : Watched.start.Exact where
  within := within_empty
  batch := nofun
  pending k c := AggregatorState.value_empty k c
  taken _ _ := rfl

variable {env} {w w' : Watched} {label : AggregatorLabel}

/-- An addition fits if what is then in memory does. -/
theorem Watched.Exact.fits_iff (h : w.Exact) {x : Contribution} :
    Fits w.books.world.memory x ↔ ∀ k c, (w.pending ++ x).amount k c ≤ i64Max := by
  simp only [Fits, h.pending, Contribution.amount_append]

theorem Watched.Exact.guarded (h : w.Exact) {tried : Option AggregatorState}
    {done : AggregatorState} {x : Contribution} (hguards : Guards w.books.world.memory tried done x) :
    tried.isSome = true ↔ ∀ k c, (w.pending ++ x).amount k c ≤ i64Max := by
  rw [← h.fits_iff]
  exact ⟨hguards.fits_of_some, fun hx => by rw [hguards.done_of_fits hx]; rfl⟩

theorem Watched.Exact.batch_value (h : w.Exact) {batch : AggregatorState}
    (hbatch : w.books.world.batch = some batch) (k : BucketKey) (c : Counter) :
    batch.value k c = w.taken.amount k c := by
  rw [← h.taken, Books.inFlight, hbatch]
  rfl

/-- The sums of a step fit just if what is noted does. -/
theorem Watched.Exact.sumsFit_iff (h : w.Exact) (hstep : WatchedStep env w label w') :
    SumsFit env w.books.world label ↔ PendingFits env w label := by
  obtain ⟨hstep, -⟩ := hstep
  generalize w'.books = books at hstep
  have hkept : ∀ k c, w.pending.amount k c ≤ i64Max := fun k c => by
    rw [← h.pending]
    exact h.within.fits k c
  cases hstep with
  | session projectId update now => exact h.guarded (guards_tryIngestSession h.within)
  | aggregates projectId agg clock => exact h.guarded (guards_tryItems _ h.within)
  | began hbatch =>
      refine iff_of_true trivial fun k c => ?_
      rw [Watched.note, Contribution.amount_empty]
      decide
  | @failed batch hbatch =>
      constructor
      · intro hsums k c
        rw [Watched.note, Contribution.amount_append, ← h.pending, ← h.batch_value hbatch]
        exact fits_of_tryMerge h.within (hsums batch hbatch) k c
      · intro hpending other hother
        have hmerge := tryMerge_of_fits h.within.nonneg (h.batch other hother) fun k c => by
          have hfits := hpending k c
          rwa [Watched.note, Contribution.amount_append, ← h.pending, ← h.batch_value hother]
            at hfits
        rw [hmerge]
        rfl
  | committed hbatch hrows => exact iff_of_true trivial hkept
  | landed hbatch hrows => exact iff_of_true trivial hkept
  | lost hbatch => exact iff_of_true trivial hkept

/-- What is ingested is in memory. -/
theorem Watched.Exact.ingest (h : w.Exact) {memory : AggregatorState} {x : Contribution}
    (hadds : Adds w.books.world.memory memory x) (hx : x.Nonneg)
    (hfits : ∀ k c, (w.pending ++ x).amount k c ≤ i64Max) {accepted : Contribution} :
    Watched.Exact
      ⟨{ w.books with world := { w.books.world with memory }, accepted }, w.pending ++ x,
        w.taken⟩ where
  within := hadds.within h.within hx (h.fits_iff.mpr hfits)
  batch := h.batch
  pending k c := by
    rw [Contribution.amount_append, ← h.pending]
    exact hadds.counts k c
  taken := h.taken

theorem Watched.Exact.fail (h : w.Exact) {batch : AggregatorState}
    (hbatch : w.books.world.batch = some batch)
    (hfits : ∀ k c, (w.pending ++ w.taken).amount k c ≤ i64Max) :
    Watched.Exact
      ⟨{ w.books with world := failFlush w.books.world batch }, w.pending ++ w.taken, .empty⟩ := by
  have hvalue : ∀ k c, (mergeState w.books.world.memory batch).value k c =
      (w.pending ++ w.taken).amount k c := by
    intro k c
    rw [Contribution.amount_append, ← h.pending, ← h.batch_value hbatch]
    apply value_mergeState h.within.nonneg (h.batch batch hbatch)
    intro k c
    rw [h.pending, h.batch_value hbatch, ← Contribution.amount_append]
    exact hfits k c
  have hnonneg : ∀ k c, 0 ≤ (mergeState w.books.world.memory batch).value k c := by
    intro k c
    rw [hvalue, Contribution.amount_append, ← h.pending, ← h.batch_value hbatch]
    exact Int.add_nonneg (h.within.nonneg k c) (h.batch batch hbatch k c)
  exact {
    within := ⟨hnonneg, fun k c => (hvalue k c).symm ▸ hfits k c⟩
    batch := nofun
    pending := hvalue
    taken := fun _ _ => rfl }

theorem Watched.Exact.begin (h : w.Exact) (hbatch : w.books.world.batch = none) :
    Watched.Exact ⟨{ w.books with world := beginFlush w.books.world }, .empty, w.pending⟩ := by
  obtain ⟨⟨⟨memory, batch, rows⟩, accepted, lost⟩, pending, taken⟩ := w
  obtain rfl : batch = none := hbatch
  unfold beginFlush
  dsimp only
  split_ifs with hempty
  · obtain rfl := eq_empty_of_entries hempty
    exact {
      within := within_empty
      batch := nofun
      pending := AggregatorState.value_empty
      taken := fun k c => (AggregatorState.value_empty k c).symm.trans (h.pending k c) }
  · exact {
      within := within_empty
      batch := fun s hs => Option.some.inj hs ▸ h.within.nonneg
      pending := AggregatorState.value_empty
      taken := h.pending }

theorem Watched.Exact.flushed (h : w.Exact) {rows : AggregatorState} {lost : List AggregatorState} :
    Watched.Exact
      ⟨{ w.books with world := { w.books.world with batch := none, rows }, lost }, w.pending,
        .empty⟩ where
  within := h.within
  batch := nofun
  pending := h.pending
  taken _ _ := rfl

/-- A step whose sums fit keeps the counters what is noted. -/
theorem PendingStep.exact (hstep : PendingStep env w label w') (h : w.Exact) : w'.Exact := by
  obtain ⟨⟨hstep, hnoted⟩, hfits⟩ := hstep
  obtain ⟨books, pending, taken⟩ := w'
  cases hstep with
  | session projectId update now =>
      cases hnoted
      exact h.ingest (ingestSession_adds h.within.nonneg (h.fits_iff.mpr hfits))
        (nonneg_sessionContribution _ _ _ _ _) hfits
  | aggregates projectId agg clock =>
      cases hnoted
      exact h.ingest (ingestAggregates_adds h.within.nonneg (h.fits_iff.mpr hfits))
        (nonneg_itemsContribution _) hfits
  | began hbatch =>
      cases hnoted
      exact h.begin hbatch
  | failed hbatch =>
      cases hnoted
      exact h.fail hbatch hfits
  | committed hbatch hrows =>
      cases hnoted
      exact h.flushed
  | landed hbatch hrows =>
      cases hnoted
      exact h.flushed
  | lost hbatch =>
      cases hnoted
      exact h.flushed

/-- In every run, no `i64` sum in memory leaves 64 bits, and then no counter is negative, just if
what the items in memory say always adds up to counters that fit. -/
theorem sums_fit_iff (env : SessionEnv) (labels : List AggregatorLabel) (w : Watched) :
    (Run (SummingStep env) .start labels w ∧ w.books.world.memory.Nonneg ∧
      ∀ batch, w.books.world.batch = some batch → batch.Nonneg) ↔
    Run (PendingStep env) .start labels w := by
  have hkeep : ∀ w label w', w.Exact → PendingStep env w label w' → w'.Exact :=
    fun _ _ _ h hstep => hstep.exact h
  have hsame : Run (PendingStep env) .start labels w ↔ Run (SummingStep env) .start labels w :=
    Run.congr Watched.Exact hkeep
      (fun _ _ _ h => and_congr_right fun hstep => (h.sumsFit_iff hstep).symm) Watched.exact_start
  constructor
  · exact fun h => hsame.mpr h.1
  · intro hrun
    have hexact := hrun.invariant Watched.Exact hkeep Watched.exact_start
    exact ⟨hsame.mp hrun, hexact.within.nonneg, hexact.batch⟩

/-- Two counts of one item are too much for a counter. -/
theorem oversized_overflows :
    ∃ w, Run (WatchedStep tenReleases) .start [.aggregates 1 oversized fun _ => 0] w ∧
      ¬SumsFit tenReleases .start (.aggregates 1 oversized fun _ => 0) ∧
      w.books.world.memory.value tenOClock .total < 0 := by
  refine ⟨⟨_, _, _⟩, Run.single ⟨.aggregates .start 1 oversized fun _ => 0, rfl⟩, ?_, ?_⟩
  · unfold SumsFit
    decide
  · decide

end Rustrak.Sessions
