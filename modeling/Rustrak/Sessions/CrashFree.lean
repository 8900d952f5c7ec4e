import Rustrak.Sessions.Health

/-!
# Crash-free rates

Updates are counted without a memory of their sessions: one that begins a session adds
to the total, one that ends it badly to another counter.  Sessions that end twice, or
end without having begun, make more bad endings than sessions, and the rate of their
release negative.

## Strategy

A flush takes everything there is in memory, and flushes take turns.  So with a batch
the tables hold what was held altogether when the batch was taken, and if no bucket ever
held more bad endings than sessions, no row does.  Aggregates and flushes cannot upset a
bucket; an update can, and a batch that is lost, with the beginnings of sessions that
end later.
-/

namespace Rustrak.Sessions

open Rustrak.Relational Rustrak.Transition

/-! ## Accepted sessions -/

namespace Books

variable (b : Books)

/-- What was accepted for a counter and not lost with a batch. -/
def kept (k : BucketKey) (c : Counter) : Int := b.accepted.amount k c - lostValue b.lost k c

/-- No bucket was told of more sessions that ended badly than of sessions. -/
def Balanced : Prop :=
  ∀ k, b.kept k .errored + b.kept k .crashed + b.kept k .abnormal ≤ b.kept k .total

end Books

/-- An update, or the loss of a batch, leaves every bucket balanced. -/
def BalancedLabel (b' : Books) : AggregatorLabel → Prop
  | .session _ _ _ | .unknown false => b'.Balanced
  | .aggregates _ _ _ | .begin | .fail | .commit | .unknown true => True

/-- A step without an overflow that leaves the buckets balanced. -/
def BalancedStep (env : SessionEnv) (b : Books) (label : AggregatorLabel) (b' : Books) : Prop :=
  FittingStep env b label b' ∧ BalancedLabel b' label

variable {env : SessionEnv} {b b' : Books}

theorem Books.Conserved.kept_eq (h : b.Conserved) (k : BucketKey) (c : Counter) :
    b.kept k c = b.world.memory.value k c + b.inFlight k c + b.world.rows.value k c := by
  have hcounts := h.counts k c
  unfold Books.kept
  omega

/-- An aggregate has no more sessions that ended badly than sessions. -/
theorem itemsContribution_balanced (items : List (BucketKey × SessionAggregateItem))
    (k : BucketKey) :
    (itemsContribution items).amount k .errored + (itemsContribution items).amount k .crashed +
      (itemsContribution items).amount k .abnormal ≤ (itemsContribution items).amount k .total := by
  induction items with
  | nil => exact le_refl 0
  | cons e rest ih =>
      obtain ⟨key, item⟩ := e
      rw [itemsContribution_cons]
      simp only [Contribution.amount_append, Contribution.amount_single]
      have hexited := item.exited.nonneg
      split_ifs
      · simp only [SessionAggregateItem.counters, Counters.get]
        omega
      · omega

/-- The buckets, the tables, and the tables with the batch are balanced. -/
structure Books.Steady (b : Books) : Prop extends Sound b where
  kept : b.Balanced
  stored : b.world.rows.Balanced
  next : ∀ k, b.inFlight k .errored + b.inFlight k .crashed + b.inFlight k .abnormal +
    b.world.rows.unhealthy k ≤ b.inFlight k .total + b.world.rows.value k .total

theorem steady_start : Books.start.Steady where
  toSound := sound_start
  kept := by simp [Books.Balanced, Books.kept, Books.start, lostValue]
  stored := by
    simp [Books.start, World.start, AggregatorState.Balanced, AggregatorState.unhealthy]
  next := by simp [Books.start, World.start, Books.inFlight, AggregatorState.unhealthy]

/-- While no batch is in flight, the tables and memory hold everything. -/
private theorem Books.Steady.memory_next (h : b.Steady) (hbatch : b.world.batch = none)
    (k : BucketKey) :
    b.world.memory.unhealthy k + b.world.rows.unhealthy k ≤
      b.world.memory.value k .total + b.world.rows.value k .total := by
  have hkept := h.kept k
  simp only [h.toSound.toConserved.kept_eq, Books.inFlight, hbatch, Option.map_none,
    Option.getD_none] at hkept
  unfold AggregatorState.unhealthy
  omega

/-- What a landed batch leaves in the tables. -/
private theorem Books.Steady.landed (h : b.Steady) {batch rows : AggregatorState}
    (hbatch : b.world.batch = some batch)
    (hvalue : ∀ k c, rows.value k c = b.world.rows.value k c + batch.value k c) :
    rows.Balanced := by
  intro k
  have hnext := h.next k
  simp only [Books.inFlight, hbatch, Option.map_some, Option.getD_some] at hnext
  unfold AggregatorState.unhealthy at hnext ⊢
  simp only [hvalue]
  omega

/-- With nothing in flight the batch asks for no more than the tables do. -/
private theorem next_of_stored {rows : AggregatorState} (h : rows.Balanced) (k : BucketKey) :
    (0 : Int) + 0 + 0 + rows.unhealthy k ≤ 0 + rows.value k .total := by
  have hk := h k
  omega

theorem BalancedStep.steady {label : AggregatorLabel} (hstep : BalancedStep env b label b')
    (h : b.Steady) : b'.Steady := by
  obtain ⟨hfitting, hbalanced⟩ := hstep
  have hsound := hfitting.sound h.toSound
  obtain ⟨hstep, hfits⟩ := hfitting
  cases hstep with
  | session projectId update now => exact ⟨hsound, hbalanced, h.stored, h.next⟩
  | aggregates projectId agg clock =>
      refine ⟨hsound, fun k => ?_, h.stored, h.next⟩
      have hold := h.kept k
      have hitems := itemsContribution_balanced
        (aggregateBuckets env b.world.memory projectId agg clock) k
      simp only [Books.kept, Contribution.amount_append, aggregatesContribution] at hold ⊢
      omega
  | began hbatch =>
      refine ⟨hsound, h.kept, ?_, fun k => ?_⟩
      · show (beginFlush b.world).rows.Balanced
        unfold beginFlush
        split_ifs
        · exact h.stored
        · exact h.stored
      · have htaken := h.memory_next hbatch k
        simp only [Books.inFlight, beginFlush]
        split_ifs
        · rw [hbatch]
          exact next_of_stored h.stored k
        · exact htaken
  | failed hbatch => exact ⟨hsound, h.kept, h.stored, next_of_stored h.stored⟩
  | committed hbatch hrows =>
      have hvalue := (upsertAll_adds hrows h.rows (h.batch _ hbatch) (hfits _ hbatch)).1
      have hstored := h.landed hbatch hvalue
      exact ⟨hsound, h.kept, hstored, next_of_stored hstored⟩
  | landed hbatch hrows =>
      have hvalue := (upsertAll_adds hrows h.rows (h.batch _ hbatch) (hfits _ hbatch)).1
      have hstored := h.landed hbatch hvalue
      exact ⟨hsound, h.kept, hstored, next_of_stored hstored⟩
  | lost hbatch => exact ⟨hsound, hbalanced, h.stored, next_of_stored h.stored⟩

/-- A flush that commits stores what was kept: whatever was told shows. -/
theorem flush_stores_kept (h : b.Sound) {batch rows : AggregatorState}
    (hbatch : b.world.batch = none) (htaken : (beginFlush b.world).batch = some batch)
    (hrows : upsertAll env.engine b.world.rows batch = some rows)
    (hfits : ∀ k c, b.world.rows.value k c + batch.value k c ≤ i64Max) (k : BucketKey)
    (c : Counter) : rows.value k c = b.kept k c := by
  unfold beginFlush at htaken
  split_ifs at htaken
  · rw [hbatch] at htaken
    cases htaken
  · obtain rfl := Option.some.inj htaken
    have hkept := h.toConserved.kept_eq k c
    simp only [Books.inFlight, hbatch, Option.map_none, Option.getD_none] at hkept
    rw [(upsertAll_adds hrows h.rows h.memory hfits).1, hkept]
    omega

/-- The rounding of numbers that are representable. -/
def Rounding.exact : Rounding := ⟨id, monotone_id, rfl, rfl⟩

/-- In every run whose updates leave the buckets balanced, no stored bucket has more
sessions that ended badly than sessions, and every rate reported is one. -/
theorem crash_free_rates_are_rates {labels : List AggregatorLabel} {f64 : Rounding}
    (hrun : Run (BalancedStep env) .start labels b) :
    b.world.rows.Balanced ∧ ∀ rate, ReportedRate f64 b.world.rows rate → IsRate rate := by
  have hsteady := hrun.invariant Books.Steady (fun _ _ _ h hstep => hstep.steady h) steady_start
  exact ⟨hsteady.stored, fun _ hrate => isRate_of_balanced hsteady.rows hsteady.stored hrate⟩

/-- The session of `startedSession` ends with a crash. -/
def crashedSession : SessionUpdate :=
  { startedSession with init := false, status := some .crashed }

/-- Both updates together, for every bucket and counter. -/
private theorem crashedSession_sums (k : BucketKey) (c : Counter) :
    AggregatorState.empty.value k c +
      (Contribution.one tenOClock .total (some "u1") false).amount k c +
      (Contribution.one tenOClock .crashed (some "u1") true).amount k c ≤ i64Max := by
  rw [AggregatorState.value_empty]
  simp only [Contribution.one, Contribution.amount_single]
  split_ifs
  · cases c <;> decide
  · decide

theorem crash_free_rates_are_rates_crashed :
    ∃ b : Books, b.world.rows.value tenOClock .crashed = 1 ∧ b.world.rows.Balanced ∧
      ∀ rate, ReportedRate .exact b.world.rows rate → IsRate rate := by
  let once := ingestSession tenReleases .empty 1 startedSession 0
  let twice := ingestSession tenReleases once 1 crashedSession 0
  have hstarted := startedSession_contribution
  have hcrashed : sessionContribution tenReleases once 1 crashedSession 0 =
      .one tenOClock .crashed (some "u1") true := by decide
  have honce : Adds .empty once _ := ingestSession_adds sound_start.memory startedSession_fits
  have hfits : Fits once (sessionContribution tenReleases once 1 crashedSession 0) := by
    intro k c
    rw [honce.counts, hstarted, hcrashed]
    exact crashedSession_sums k c
  have hnonneg := honce.nonneg sound_start.memory (nonneg_sessionContribution _ _ _ _ _)
  have htwice : Adds once twice _ := ingestSession_adds hnonneg hfits
  have hcommit : ∀ batch, some twice = some batch →
      ∀ k c, AggregatorState.empty.value k c + batch.value k c ≤ i64Max := by
    intro batch hbatch k c
    obtain rfl := Option.some.inj hbatch
    rw [AggregatorState.value_empty, htwice.counts, honce.counts, hstarted, hcrashed, Int.zero_add]
    exact crashedSession_sums k c
  have hbegan : Books.Balanced ⟨⟨once, none, .empty⟩,
      .empty ++ sessionContribution tenReleases .empty 1 startedSession 0, []⟩ := by
    intro k
    simp only [Books.kept, lostValue, hstarted, Contribution.amount_append, Contribution.one,
      Contribution.amount_single, Contribution.amount_empty, List.map_nil]
    split_ifs <;> decide
  have hended : Books.Balanced ⟨⟨twice, none, .empty⟩,
      .empty ++ sessionContribution tenReleases .empty 1 startedSession 0 ++
        sessionContribution tenReleases once 1 crashedSession 0, []⟩ := by
    intro k
    simp only [Books.kept, lostValue, hstarted, hcrashed, Contribution.amount_append,
      Contribution.one, Contribution.amount_single, Contribution.amount_empty, List.map_nil]
    split_ifs <;> decide
  have hfirst : BalancedStep tenReleases .start (.session 1 startedSession 0) _ :=
    ⟨⟨.session .start 1 startedSession 0, startedSession_fits⟩, hbegan⟩
  have hrun := Run.cons hfirst (.cons ⟨⟨.session _ 1 crashedSession 0, hfits⟩, hended⟩
    (.cons ⟨⟨.began rfl, trivial⟩, trivial⟩
      (.single ⟨⟨.committed rfl rfl, hcommit⟩, trivial⟩)))
  exact ⟨_, by decide, crash_free_rates_are_rates hrun⟩

/-- A session that is reported as crashed twice takes the rate below zero. -/
theorem resent_crash_is_no_rate :
    ∃ b : Books, Run (AggregatorStep tenReleases) .start
        [.session 1 startedSession 0, .session 1 crashedSession 0, .session 1 crashedSession 0,
          .begin, .commit] b ∧
      b.world.rows.value tenOClock .total = 1 ∧ b.world.rows.unhealthy tenOClock = 2 ∧
      ¬b.world.rows.Balanced ∧ ReportedRate .exact b.world.rows (some (-1)) ∧
      ¬IsRate (some (-1)) := by
  have hrun := Run.cons (@AggregatorStep.session tenReleases .start 1 startedSession 0)
    (.cons (.session _ 1 crashedSession 0) (.cons (.session _ 1 crashedSession 0)
      (.cons (.began rfl) (.single (.committed rfl rfl)))))
  refine ⟨_, hrun, by decide, by decide, fun h => ?_, ?_, ?_⟩
  · have hbucket := h tenOClock
    revert hbucket
    decide
  · exact @ReportedRate.summary _ _ 1 none ⟨none, none⟩ ⟨1, 0, 2, 0, some (-1), some 0, 1⟩
      (by decide +kernel)
  · intro h
    have hnonneg := (h (-1) rfl).1
    revert hnonneg
    decide

end Rustrak.Sessions
