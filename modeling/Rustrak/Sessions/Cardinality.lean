import Rustrak.Sessions.Conservation

/-!
# The cardinality cap

A release is checked against the cap when a session of it comes in, and only then.  A
flush that fails merges what it took over memory that has filled up again, without
asking, so that a project can have releases up to the cap from before the flush and as
many others from after it.

* `ingestSession_capped`, `ingestAggregates_capped`: what comes in keeps to the cap;
* `ownReleases_mergeState`: a merge has the releases of both sides;
* `releases_capped_iff`: the cap holds throughout a run just when no failed flush finds
  more releases than the cap on the two sides together.
-/

namespace Rustrak.Sessions

open Rustrak.Relational Rustrak.Transition

/-- The releases of a project in memory that are counted under their own name. -/
def ownReleases (state : AggregatorState) (projectId : Int) : Finset String :=
  (projectReleases state projectId).erase overflowRelease

def Capped (cap : Nat) (state : AggregatorState) : Prop :=
  ∀ projectId, (ownReleases state projectId).card ≤ cap

/-- A failed flush finds no more releases of a project than the cap, in its batch and in
memory together. -/
def MergeFits (cap : Nat) (b : Books) : AggregatorLabel → Prop
  | .fail => ∀ batch, b.world.batch = some batch → ∀ projectId,
      (ownReleases b.world.memory projectId ∪ ownReleases batch projectId).card ≤ cap
  | .session _ _ _ | .aggregates _ _ _ | .begin | .commit | .unknown _ => True

/-- A step after which memory keeps to the cap. -/
def CappedStep (env : SessionEnv) (b : Books) (label : AggregatorLabel) (b' : Books) : Prop :=
  AggregatorStep env b label b' ∧ Capped env.cap b'.world.memory

def FoldingStep (env : SessionEnv) (b : Books) (label : AggregatorLabel) (b' : Books) : Prop :=
  AggregatorStep env b label b' ∧ MergeFits env.cap b label

variable {s s' : AggregatorState} {cap : Nat} {projectId p : Int} {release r : String}

theorem mem_projectReleases :
    r ∈ projectReleases s p ↔ ∃ k ∈ s.counts, k.projectId = p ∧ k.release = r := by
  unfold projectReleases
  simp only [List.mem_toFinset, List.mem_map, List.mem_filter, decide_eq_true_eq, AList.mem_keys,
    and_assoc]

theorem mem_ownReleases :
    r ∈ ownReleases s p ↔ r ≠ overflowRelease ∧ ∃ k ∈ s.counts, k.projectId = p ∧ k.release = r := by
  unfold ownReleases
  rw [Finset.mem_erase, mem_projectReleases]

/-! ## What comes in -/

/-- Every bucket is an old one, or one of this release of this project. -/
def OnlyAdds (s s' : AggregatorState) (projectId : Int) (release : String) : Prop :=
  ∀ k ∈ s'.counts, k ∈ s.counts ∨ k.projectId = projectId ∧ k.release = release

theorem OnlyAdds.refl (s : AggregatorState) (projectId : Int) (release : String) :
    OnlyAdds s s projectId release := fun _ hk => .inl hk

theorem OnlyAdds.trans {s'' : AggregatorState} (h : OnlyAdds s s' projectId release)
    (h' : OnlyAdds s' s'' projectId release) : OnlyAdds s s'' projectId release := by
  intro k hk
  rcases h' k hk with hold | hnew
  · exact h k hold
  · exact .inr hnew

theorem count_onlyAdds (s : AggregatorState) (key : BucketKey) (change : Counters → Counters) :
    OnlyAdds s (s.count key change) key.projectId key.release := by
  intro k hk
  unfold AggregatorState.count at hk
  rcases AList.mem_insert _ |>.mp hk with rfl | hold
  · exact .inr ⟨rfl, rfl⟩
  · exact .inl hold

theorem applyInit_onlyAdds (update : SessionUpdate) (key : BucketKey) (s : AggregatorState) :
    OnlyAdds s (applyInit update key s) key.projectId key.release := by
  have hcount := count_onlyAdds s key fun c => { c with total := wrap (c.total + 1) }
  unfold applyInit
  split_ifs
  · cases update.user with
    | none => exact hcount
    | some did => exact hcount
  · exact .refl _ _ _

theorem applyTerminal_onlyAdds (update : SessionUpdate) (key : BucketKey) (s : AggregatorState) :
    OnlyAdds s (applyTerminal update key s) key.projectId key.release := by
  unfold applyTerminal
  dsimp only
  split_ifs
  · cases classify (update.status.getD .ok) update.errors with
    | crashed =>
        have hcount := count_onlyAdds s key fun c => { c with crashed := wrap (c.crashed + 1) }
        cases update.user with
        | none => exact hcount
        | some did => exact hcount
    | abnormal => exact count_onlyAdds s key _
    | errored => exact count_onlyAdds s key _
    | healthy => exact count_onlyAdds s key _
  · exact .refl _ _ _

/-- The release an item is counted under leaves room for itself. -/
theorem capped_of_onlyAdds (h : Capped cap s)
    (hadds : OnlyAdds s s' projectId (applyCardinalityCap s projectId release cap)) :
    Capped cap s' := by
  intro p
  -- A release that is new in memory is the one the cap let through.
  have hnew : ∀ r ∈ ownReleases s' p, r ∈ ownReleases s p ∨
      p = projectId ∧ r = release ∧ release ∉ projectReleases s projectId ∧
        (projectReleases s projectId).card < cap := by
    intro r hr
    obtain ⟨hown, k, hk, rfl, rfl⟩ := mem_ownReleases.mp hr
    rcases hadds k hk with hold | ⟨rfl, hrelease⟩
    · exact .inl (mem_ownReleases.mpr ⟨hown, k, hold, rfl, rfl⟩)
    · unfold applyCardinalityCap at hrelease
      split_ifs at hrelease with hknown hfull
      · rw [hrelease]
        exact .inl (Finset.mem_erase.mpr ⟨hrelease ▸ hown, hknown⟩)
      · exact absurd hrelease hown
      · exact .inr ⟨rfl, hrelease, hknown, Nat.lt_of_not_le hfull⟩
  by_cases hroom : p = projectId ∧ release ∉ projectReleases s projectId ∧
      (projectReleases s projectId).card < cap
  · obtain ⟨rfl, -, hlt⟩ := hroom
    have hsub : ownReleases s' p ⊆ insert release (projectReleases s p) := by
      intro r hr
      rcases hnew r hr with hold | ⟨-, rfl, -⟩
      · exact Finset.mem_insert_of_mem (Finset.mem_of_mem_erase hold)
      · exact Finset.mem_insert_self _ _
    have hcard := Finset.card_le_card hsub
    have hinsert := Finset.card_insert_le release (projectReleases s p)
    omega
  · have hsub : ownReleases s' p ⊆ ownReleases s p := by
      intro r hr
      rcases hnew r hr with hold | ⟨hp, -, hfresh, hlt⟩
      · exact hold
      · exact absurd ⟨hp, hfresh, hlt⟩ hroom
    exact (Finset.card_le_card hsub).trans (h p)

theorem acceptedKey_release {env : SessionEnv} {attrs : Option SessionAttributes} {bucket : Int}
    {key : BucketKey} (h : acceptedKey env s projectId attrs bucket = some key) :
    key.projectId = projectId ∧ ∃ release environment,
      acceptedAttrs attrs = some (release, environment) ∧
        key.release = applyCardinalityCap s projectId release env.cap := by
  unfold acceptedKey at h
  obtain ⟨⟨release, environment⟩, hattrs, rfl⟩ := Option.map_eq_some_iff.mp h
  exact ⟨rfl, release, environment, hattrs, rfl⟩

variable {env : SessionEnv}

theorem ingestSession_capped (h : Capped env.cap s) (projectId : Int) (update : SessionUpdate)
    (now : Int) : Capped env.cap (ingestSession env s projectId update now) := by
  unfold ingestSession
  cases hkey : acceptedKey env s projectId update.attrs (bucketOf env update.started now) with
  | none => exact h
  | some key =>
      obtain ⟨hproject, release, -, -, hrelease⟩ := acceptedKey_release hkey
      have hadds := (applyInit_onlyAdds update key s).trans (applyTerminal_onlyAdds update key _)
      rw [hproject, hrelease] at hadds
      exact capped_of_onlyAdds h hadds

/-- Every item of an aggregate is counted under the same release. -/
private theorem applyItems_onlyAdds {items : List (BucketKey × SessionAggregateItem)}
    (hitems : ∀ e ∈ items, e.1.projectId = projectId ∧ e.1.release = release)
    (s : AggregatorState) :
    OnlyAdds s (items.foldl (fun state (key, item) => applyAggregateItem state key item) s)
      projectId release := by
  induction items generalizing s with
  | nil => exact .refl _ _ _
  | cons e rest ih =>
      obtain ⟨key, item⟩ := e
      obtain ⟨hproject, hrelease⟩ := hitems (key, item) List.mem_cons_self
      have hfirst := count_onlyAdds s key fun c =>
        { total := wrap (c.total + wrap (wrap (wrap (wrap (item.exited.val + item.errored.val) +
            item.crashed.val) + item.abnormal.val) + item.unhandled.val))
          errored := wrap (c.errored + wrap (item.errored.val + item.unhandled.val))
          crashed := wrap (c.crashed + item.crashed.val)
          abnormal := wrap (c.abnormal + item.abnormal.val) }
      rw [hproject, hrelease] at hfirst
      rw [List.foldl_cons]
      exact hfirst.trans (ih (fun e he => hitems e (List.mem_cons_of_mem _ he)) _)

theorem ingestAggregates_capped (h : Capped env.cap s) (projectId : Int)
    (agg : SessionAggregates) (clock : Nat → Int) :
    Capped env.cap (ingestAggregates env s projectId agg clock) := by
  unfold ingestAggregates
  cases hattrs : acceptedAttrs agg.attrs with
  | none =>
      have hnone : aggregateBuckets env s projectId agg clock = [] := by
        unfold aggregateBuckets acceptedKey
        rw [hattrs]
        simp
      rw [hnone]
      exact h
  | some accepted =>
      obtain ⟨release, environment⟩ := accepted
      have hkeys : ∀ e ∈ aggregateBuckets env s projectId agg clock,
          e.1.projectId = projectId ∧
            e.1.release = applyCardinalityCap s projectId release env.cap := by
        intro e he
        unfold aggregateBuckets at he
        obtain ⟨⟨item, i⟩, -, hitem⟩ := List.mem_filterMap.mp he
        obtain ⟨key, hkey, rfl⟩ := Option.map_eq_some_iff.mp hitem
        obtain ⟨hproject, release', environment', hattrs', hrelease⟩ := acceptedKey_release hkey
        obtain ⟨rfl, -⟩ := Prod.mk.inj (Option.some.inj (hattrs.symm.trans hattrs'))
        exact ⟨hproject, hrelease⟩
      exact capped_of_onlyAdds h (applyItems_onlyAdds hkeys s)

/-! ## Flushes -/

theorem capped_empty (cap : Nat) : Capped cap .empty := by
  intro p
  have hnone : ownReleases .empty p = ∅ := rfl
  rw [hnone]
  exact Nat.zero_le _

theorem ownReleases_mergeState (s batch : AggregatorState) (p : Int) :
    ownReleases (mergeState s batch) p = ownReleases s p ∪ ownReleases batch p := by
  ext r
  unfold mergeState
  simp only [Finset.mem_union, mem_ownReleases, mem_merge, or_and_right, exists_or, and_or_left]

theorem beginFlush_memory (w : World) : (beginFlush w).memory = .empty := by
  unfold beginFlush
  split_ifs
  · rfl
  · rfl

/-! ## Runs -/

variable {b b' : Books} {label : AggregatorLabel}

/-- A step keeps to the cap just when it is not a merge of too much. -/
theorem AggregatorStep.capped_iff (hstep : AggregatorStep env b label b')
    (h : Capped env.cap b.world.memory) :
    Capped env.cap b'.world.memory ↔ MergeFits env.cap b label := by
  cases hstep with
  | session projectId update now =>
      exact iff_of_true (ingestSession_capped h projectId update now) trivial
  | aggregates projectId agg clock =>
      exact iff_of_true (ingestAggregates_capped h projectId agg clock) trivial
  | began hbatch =>
      refine iff_of_true ?_ trivial
      show Capped env.cap (beginFlush b.world).memory
      rw [beginFlush_memory]
      exact capped_empty _
  | @failed batch hbatch =>
      constructor
      · intro hcapped other hother p
        obtain rfl := Option.some.inj (hbatch.symm.trans hother)
        rw [← ownReleases_mergeState]
        exact hcapped p
      · intro hfits p
        show (ownReleases (mergeState b.world.memory batch) p).card ≤ env.cap
        rw [ownReleases_mergeState]
        exact hfits batch hbatch p
  | committed hbatch hrows => exact iff_of_true h trivial
  | landed hbatch hrows => exact iff_of_true h trivial
  | lost hbatch => exact iff_of_true h trivial

/-- The runs that keep to the cap throughout are those in which every failed flush has
room for what it puts back. -/
theorem releases_capped_iff {labels : List AggregatorLabel} :
    Run (CappedStep env) .start labels b ↔ Run (FoldingStep env) .start labels b :=
  Run.congr (fun b => Capped env.cap b.world.memory) (fun _ _ _ _ hstep => hstep.2)
    (fun _ _ _ hcapped => and_congr_right fun hstep => hstep.capped_iff hcapped)
    (capped_empty env.cap)

/-- One release a project. -/
def oneRelease : SessionEnv := { tenReleases with cap := 1 }

/-- A session of another release. -/
def nextSession : SessionUpdate :=
  { startedSession with attrs := some ⟨some "2.0.0", some "production"⟩ }

/-- A session comes in between a flush and its failure. -/
theorem failed_flush_exceeds_cap :
    ∃ b : Books, Run (AggregatorStep oneRelease) .start
        [.session 1 startedSession 0, .begin, .session 1 nextSession 0, .fail] b ∧
      (ownReleases b.world.memory 1).card = 2 ∧ ¬Capped oneRelease.cap b.world.memory := by
  have hrun := Run.cons (@AggregatorStep.session oneRelease .start 1 startedSession 0)
    (.cons (.began rfl) (.cons (.session _ 1 nextSession 0) (.single (.failed rfl))))
  refine ⟨_, hrun, by decide, fun h => ?_⟩
  have hproject := h 1
  revert hproject
  decide

end Rustrak.Sessions
