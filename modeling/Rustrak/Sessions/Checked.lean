import Rustrak.Sessions.Contributions

/-!
# Additions that are checked

The operations of the aggregator in a build that checks every `i64` addition: `none` is a sum that
leaves 64 bits.  Where there is none they are the operations that wrap, and there is none just if
what an operation adds fits (`Guards`).
-/

namespace Rustrak.Sessions

open Rustrak.Relational

/-- An `i64` addition that is checked. -/
def checkedAdd (a b : Int) : Option Int :=
  if -i64Max - 1 ≤ a + b ∧ a + b ≤ i64Max then some (a + b) else none

theorem checkedAdd_of_fits {a b : Int} (ha : 0 ≤ a) (hb : 0 ≤ b) (h : a + b ≤ i64Max) :
    checkedAdd a b = some (wrap (a + b)) := by
  have hsum : 0 ≤ a + b := Int.add_nonneg ha hb
  have hmin : -i64Max - 1 ≤ a + b := by
    unfold i64Max
    omega
  rw [checkedAdd, if_pos ⟨hmin, h⟩, wrap_of_fits hsum h]

theorem eq_of_checkedAdd {a b n : Int} (h : checkedAdd a b = some n) :
    n = a + b ∧ a + b ≤ i64Max := by
  rw [checkedAdd] at h
  split_ifs at h with hfits
  exact ⟨(Option.some.inj h).symm, hfits.2⟩

/-! ## The operations -/

def AggregatorState.tryCount (state : AggregatorState) (key : BucketKey)
    (change : Counters → Option Counters) : Option AggregatorState :=
  (change ((state.counts.lookup key).getD .zero)).map fun c => state.count key fun _ => c

/-- One more of a kind. -/
def Counters.tryIncrement (n : Counters) : Counter → Option Counters
  | .total => (checkedAdd n.total 1).map fun total => { n with total }
  | .errored => (checkedAdd n.errored 1).map fun errored => { n with errored }
  | .crashed => (checkedAdd n.crashed 1).map fun crashed => { n with crashed }
  | .abnormal => (checkedAdd n.abnormal 1).map fun abnormal => { n with abnormal }

def tryInit (update : SessionUpdate) (key : BucketKey) (state : AggregatorState) :
    Option AggregatorState :=
  if update.init then
    (state.tryCount key fun c => c.tryIncrement .total).map fun state =>
      match update.user with
      | some did => state.see (key.user did)
      | none => state
  else some state

def tryTerminal (update : SessionUpdate) (key : BucketKey) (state : AggregatorState) :
    Option AggregatorState :=
  let status := update.status.getD .ok
  if status.isTerminal then
    match classify status update.errors with
    | .crashed =>
        (state.tryCount key fun c => c.tryIncrement .crashed).map fun state =>
          match update.user with
          | some did => state.markCrashed (key.user did)
          | none => state
    | .abnormal => state.tryCount key fun c => c.tryIncrement .abnormal
    | .errored => state.tryCount key fun c => c.tryIncrement .errored
    | .healthy => state.tryCount key some
  else some state

def tryIngestSession (env : SessionEnv) (state : AggregatorState) (projectId : Int)
    (update : SessionUpdate) (now : Int) : Option AggregatorState :=
  match acceptedKey env state projectId update.attrs (bucketOf env update.started now) with
  | none => some state
  | some key => (tryInit update key state).bind (tryTerminal update key)

/-- The five-way total of an item. -/
def SessionAggregateItem.trySum (item : SessionAggregateItem) : Option Int := do
  let sum ← checkedAdd item.exited.val item.errored.val
  let sum ← checkedAdd sum item.crashed.val
  let sum ← checkedAdd sum item.abnormal.val
  checkedAdd sum item.unhandled.val

def SessionAggregateItem.tryCounters (item : SessionAggregateItem) (c : Counters) :
    Option Counters := do
  let total ← checkedAdd c.total (← item.trySum)
  let errored ← checkedAdd c.errored (← checkedAdd item.errored.val item.unhandled.val)
  let crashed ← checkedAdd c.crashed item.crashed.val
  let abnormal ← checkedAdd c.abnormal item.abnormal.val
  return { total, errored, crashed, abnormal }

def tryAggregateItem (state : AggregatorState) (key : BucketKey) (item : SessionAggregateItem) :
    Option AggregatorState :=
  state.tryCount key item.tryCounters

def tryItems (items : List (BucketKey × SessionAggregateItem)) (state : AggregatorState) :
    Option AggregatorState :=
  items.foldlM (fun state e => tryAggregateItem state e.1 e.2) state

def tryIngestAggregates (env : SessionEnv) (state : AggregatorState) (projectId : Int)
    (agg : SessionAggregates) (clock : Nat → Int) : Option AggregatorState :=
  tryItems (aggregateBuckets env state projectId agg clock) state

def Counters.tryAdd (a b : Counters) : Option Counters := do
  let total ← checkedAdd a.total b.total
  let errored ← checkedAdd a.errored b.errored
  let crashed ← checkedAdd a.crashed b.crashed
  let abnormal ← checkedAdd a.abnormal b.abnormal
  return { total, errored, crashed, abnormal }

def tryMerge (state batch : AggregatorState) : Option AggregatorState :=
  (mergeM (fun current c => (current.getD .zero).tryAdd c) state.counts batch.counts).map
    fun counts =>
      { counts
        users := merge (fun current crashed => current.getD false || crashed) state.users
          batch.users }

/-! ## What a check lets through -/

variable {s done next : AggregatorState} {x y : Contribution}

/-- No counter is outside of what it can hold. -/
structure Within (s : AggregatorState) : Prop where
  nonneg : s.Nonneg
  fits : ∀ k c, s.value k c ≤ i64Max

/-- The checked operation `tried` is `done`, which wraps, if the addition of `x` fits, and fails
otherwise. -/
structure Guards (s : AggregatorState) (tried : Option AggregatorState) (done : AggregatorState)
    (x : Contribution) : Prop where
  done_of_fits : Fits s x → tried = some done
  fits_of_some : tried.isSome = true → Fits s x

theorem Adds.within (h : Adds s done x) (hs : Within s) (hx : x.Nonneg) (hfits : Fits s x) :
    Within done where
  nonneg := h.nonneg hs.nonneg hx
  fits k c := by
    rw [h.counts]
    exact hfits k c

theorem Guards.refl (hs : Within s) : Guards s (some s) s .empty where
  done_of_fits _ := rfl
  fits_of_some _ k c := by
    rw [Contribution.amount_empty, Int.add_zero]
    exact hs.fits k c

/-- Users are not counted. -/
theorem Guards.map {tried : Option AggregatorState} (h : Guards s tried done x)
    (f : AggregatorState → AggregatorState) (hcounts : y.counts = x.counts) :
    Guards s (tried.map f) (f done) y := by
  have hamount : ∀ k c, y.amount k c = x.amount k c := by
    intro k c
    rw [Contribution.amount, hcounts, Contribution.amount]
  refine ⟨fun hfits => ?_, fun hsome k c => ?_⟩
  · rw [h.done_of_fits fun k c => hamount k c ▸ hfits k c, Option.map_some]
  · rw [hamount]
    rw [Option.isSome_map] at hsome
    exact h.fits_of_some hsome k c

/-- One operation after another. -/
theorem Guards.bind {tried : Option AggregatorState} {f : AggregatorState → Option AggregatorState}
    (h : Guards s tried done x) (hadds : Fits s x → Adds s done x) (hy : y.Nonneg)
    (hnext : Fits s x → Guards done (f done) next y) : Guards s (tried.bind f) next (x ++ y) := by
  constructor
  · intro hfits
    have hx := hfits.left hy
    rw [h.done_of_fits hx, Option.bind_some]
    exact (hnext hx).done_of_fits (hfits.right (hadds hx))
  · intro hsome
    obtain ⟨result, hresult⟩ := Option.isSome_iff_exists.mp hsome
    obtain ⟨first, hfirst, hresult⟩ := Option.bind_eq_some_iff.mp hresult
    have hx := h.fits_of_some (hfirst ▸ rfl)
    obtain rfl : done = first := Option.some.inj ((h.done_of_fits hx).symm.trans hfirst)
    have hy := (hnext hx).fits_of_some (hresult ▸ rfl)
    intro k c
    have hboth := hy k c
    rw [(hadds hx).counts] at hboth
    rw [Contribution.amount_append]
    omega

/-- One row. -/
theorem guards_tryCount {key : BucketKey} {n : Counters} {attempt : Counters → Option Counters}
    {change : Counters → Counters} (hs : Within s)
    (hchange : ∀ old, (∀ c, 0 ≤ old.get c) → (∀ c, old.get c + n.get c ≤ i64Max) →
      attempt old = some (change old))
    (hfits : ∀ old, (attempt old).isSome = true → (∀ c, 0 ≤ old.get c ∧ old.get c ≤ i64Max) →
      ∀ c, old.get c + n.get c ≤ i64Max) :
    Guards s (s.tryCount key attempt) (s.count key change) (.single key n []) := by
  constructor
  · intro hx
    have hrow := hchange ((s.counts.lookup key).getD .zero) (hs.nonneg key) fun c => by
      have hown := hx key c
      rwa [Contribution.amount_single, if_pos rfl] at hown
    rw [AggregatorState.tryCount, hrow]
    rfl
  · intro hsome k c
    rw [AggregatorState.tryCount, Option.isSome_map] at hsome
    rw [Contribution.amount_single]
    split_ifs with hk
    · subst hk
      exact hfits _ hsome (fun c => ⟨hs.nonneg k c, hs.fits k c⟩) c
    · rw [Int.add_zero]
      exact hs.fits k c

/-! ## Updates -/

theorem tryIncrement_of_fits {old : Counters} {c : Counter} (hold : 0 ≤ old.get c)
    (h : old.get c + 1 ≤ i64Max) {change : Counters → Counters}
    (hchange : ∀ n c', (change n).get c' = if c' = c then wrap (n.get c' + 1) else n.get c') :
    old.tryIncrement c = some (change old) := by
  have hwrap := checkedAdd_of_fits hold Int.one_nonneg h
  have htotal := hchange old .total
  have herrored := hchange old .errored
  have hcrashed := hchange old .crashed
  have habnormal := hchange old .abnormal
  generalize change old = new at htotal herrored hcrashed habnormal
  obtain ⟨total, errored, crashed, abnormal⟩ := new
  cases c <;> simp_all [Counters.tryIncrement, Counters.get]

theorem fits_of_tryIncrement {old : Counters} {c : Counter}
    (h : (old.tryIncrement c).isSome = true) : old.get c + 1 ≤ i64Max := by
  cases c with
  | total | errored | crashed | abnormal =>
      rw [Counters.tryIncrement, Option.isSome_map] at h
      obtain ⟨n, hn⟩ := Option.isSome_iff_exists.mp h
      exact (eq_of_checkedAdd hn).2

theorem get_unit (c c' : Counter) : (Counters.unit c).get c' = if c' = c then 1 else 0 := by
  cases c <;> cases c' <;> rfl

theorem guards_increment {key : BucketKey} {c : Counter} {change : Counters → Counters}
    (hs : Within s)
    (hchange : ∀ n c', (change n).get c' = if c' = c then wrap (n.get c' + 1) else n.get c') :
    Guards s (s.tryCount key fun n => n.tryIncrement c) (s.count key change)
      (.single key (.unit c) []) := by
  refine guards_tryCount hs (fun old hold hfits => ?_) fun old hsome hold c' => ?_
  · have hown := hfits c
    rw [get_unit, if_pos rfl] at hown
    exact tryIncrement_of_fits (hold c) hown hchange
  · rw [get_unit]
    split_ifs with hc
    · rw [hc]
      exact fits_of_tryIncrement hsome
    · rw [Int.add_zero]
      exact (hold c').2

theorem guards_tryInit {update : SessionUpdate} {key : BucketKey} (hs : Within s) :
    Guards s (tryInit update key s) (applyInit update key s) (update.beginning key) := by
  unfold tryInit applyInit SessionUpdate.beginning
  split_ifs
  · have hcount : Guards s (s.tryCount key fun c => c.tryIncrement .total)
        (s.count key fun c => { c with total := wrap (c.total + 1) })
        (.single key (.unit .total) []) :=
      guards_increment hs fun n c' => by cases c' <;> rfl
    exact hcount.map _ rfl
  · exact Guards.refl hs

theorem guards_tryTerminal {update : SessionUpdate} {key : BucketKey} (hs : Within s) :
    Guards s (tryTerminal update key s) (applyTerminal update key s) (update.ending key) := by
  unfold tryTerminal applyTerminal SessionUpdate.ending SessionUpdate.outcome
  dsimp only
  split_ifs
  · generalize classify (update.status.getD .ok) update.errors = outcome
    cases outcome with
    | crashed =>
        have hcount : Guards s (s.tryCount key fun c => c.tryIncrement .crashed)
            (s.count key fun c => { c with crashed := wrap (c.crashed + 1) })
            (.single key (.unit .crashed) []) :=
          guards_increment hs fun n c' => by cases c' <;> rfl
        exact hcount.map _ rfl
    | abnormal => exact guards_increment hs fun n c' => by cases c' <;> rfl
    | errored => exact guards_increment hs fun n c' => by cases c' <;> rfl
    | healthy =>
        refine ⟨fun _ => rfl, fun _ k c => ?_⟩
        rw [Contribution.amount_empty, Int.add_zero]
        exact hs.fits k c
  · exact Guards.refl hs

theorem guards_tryIngestSession {env : SessionEnv} {projectId : Int} {update : SessionUpdate}
    {now : Int} (hs : Within s) :
    Guards s (tryIngestSession env s projectId update now)
      (ingestSession env s projectId update now)
      (sessionContribution env s projectId update now) := by
  unfold tryIngestSession ingestSession sessionContribution
  cases acceptedKey env s projectId update.attrs (bucketOf env update.started now) with
  | none => exact Guards.refl hs
  | some key =>
      have hadds : Fits s (update.beginning key) →
          Adds s (applyInit update key s) (update.beginning key) := applyInit_adds hs.nonneg
      exact (guards_tryInit hs).bind hadds (update.nonneg_ending key) fun hfits =>
        guards_tryTerminal ((hadds hfits).within hs (update.nonneg_beginning key) hfits)

/-! ## Aggregates -/

theorem trySum_of_fits {item : SessionAggregateItem} (h : item.counters.total ≤ i64Max) :
    item.trySum = some item.counters.total := by
  have hexited := item.exited.nonneg
  have herrored := item.errored.nonneg
  have hcrashed := item.crashed.nonneg
  have habnormal := item.abnormal.nonneg
  have hunhandled := item.unhandled.nonneg
  unfold SessionAggregateItem.counters at h ⊢
  dsimp only at h ⊢
  -- Every partial sum is below the last one.
  have hadd : ∀ a b, 0 ≤ a → 0 ≤ b → a + b ≤ i64Max → checkedAdd a b = some (a + b) :=
    fun a b ha hb hab => by rw [checkedAdd_of_fits ha hb hab, wrap_of_fits (by omega) hab]
  simp only [SessionAggregateItem.trySum, Option.bind_eq_bind]
  rw [hadd _ _ hexited herrored (by omega), Option.bind_some,
    hadd _ _ (by omega) hcrashed (by omega), Option.bind_some,
    hadd _ _ (by omega) habnormal (by omega), Option.bind_some,
    hadd _ _ (by omega) hunhandled h]

theorem eq_of_trySum {item : SessionAggregateItem} {n : Int} (h : item.trySum = some n) :
    n = item.counters.total := by
  obtain ⟨first, hfirst, h⟩ := Option.bind_eq_some_iff.mp h
  obtain ⟨second, hsecond, h⟩ := Option.bind_eq_some_iff.mp h
  obtain ⟨third, hthird, h⟩ := Option.bind_eq_some_iff.mp h
  rw [(eq_of_checkedAdd h).1, (eq_of_checkedAdd hthird).1, (eq_of_checkedAdd hsecond).1,
    (eq_of_checkedAdd hfirst).1]
  rfl

theorem tryCounters_of_fits {item : SessionAggregateItem} {old : Counters}
    (hold : ∀ c, 0 ≤ old.get c) (hfits : ∀ c, old.get c + item.counters.get c ≤ i64Max) :
    item.tryCounters old = some
      { total := wrap (old.total + item.counters.total)
        errored := wrap (old.errored + item.counters.errored)
        crashed := wrap (old.crashed + item.crashed.val)
        abnormal := wrap (old.abnormal + item.abnormal.val) } := by
  have hadd (c : Counter) : checkedAdd (old.get c) (item.counters.get c) =
      some (wrap (old.get c + item.counters.get c)) :=
    checkedAdd_of_fits (hold c) (item.counters_nonneg c) (hfits c)
  have hown (c : Counter) : item.counters.get c ≤ i64Max :=
    le_trans (le_add_of_nonneg_left (hold c)) (hfits c)
  have hmore : checkedAdd item.errored.val item.unhandled.val = some item.counters.errored := by
    rw [checkedAdd_of_fits item.errored.nonneg item.unhandled.nonneg (hown .errored),
      SessionAggregateItem.wrap_errored (hown .errored)]
  have htotal : checkedAdd old.total item.counters.total = _ := hadd .total
  have herrored : checkedAdd old.errored item.counters.errored = _ := hadd .errored
  have hcrashed : checkedAdd old.crashed item.crashed.val = _ := hadd .crashed
  have habnormal : checkedAdd old.abnormal item.abnormal.val = _ := hadd .abnormal
  simp only [SessionAggregateItem.tryCounters, Option.bind_eq_bind]
  rw [trySum_of_fits (hown .total), Option.bind_some, htotal, Option.bind_some, hmore,
    Option.bind_some, herrored, Option.bind_some, hcrashed, Option.bind_some, habnormal]
  rfl

theorem guards_tryAggregateItem {key : BucketKey} {item : SessionAggregateItem} (hs : Within s) :
    Guards s (tryAggregateItem s key item) (applyAggregateItem s key item)
      (.single key item.counters []) := by
  unfold tryAggregateItem applyAggregateItem
  refine guards_tryCount hs (fun old hold hfits => ?_) fun old hsome _ c => ?_
  · have hown (c : Counter) : item.counters.get c ≤ i64Max :=
      le_trans (le_add_of_nonneg_left (hold c)) (hfits c)
    rw [tryCounters_of_fits hold hfits, SessionAggregateItem.wrap_total (hown .total),
      SessionAggregateItem.wrap_errored (hown .errored)]
  · obtain ⟨new, hnew⟩ := Option.isSome_iff_exists.mp hsome
    obtain ⟨sum, hsum, hnew⟩ := Option.bind_eq_some_iff.mp hnew
    obtain ⟨total, htotal, hnew⟩ := Option.bind_eq_some_iff.mp hnew
    obtain ⟨more, hmore, hnew⟩ := Option.bind_eq_some_iff.mp hnew
    obtain ⟨errored, herrored, hnew⟩ := Option.bind_eq_some_iff.mp hnew
    obtain ⟨crashed, hcrashed, hnew⟩ := Option.bind_eq_some_iff.mp hnew
    obtain ⟨abnormal, habnormal, -⟩ := Option.bind_eq_some_iff.mp hnew
    cases c with
    | total =>
        obtain rfl := eq_of_trySum hsum
        exact (eq_of_checkedAdd htotal).2
    | errored =>
        obtain rfl := (eq_of_checkedAdd hmore).1
        exact (eq_of_checkedAdd herrored).2
    | crashed => exact (eq_of_checkedAdd hcrashed).2
    | abnormal => exact (eq_of_checkedAdd habnormal).2

theorem guards_tryItems (items : List (BucketKey × SessionAggregateItem)) (hs : Within s) :
    Guards s (tryItems items s) (items.foldl (fun s (key, item) => applyAggregateItem s key item) s)
      (itemsContribution items) := by
  induction items generalizing s with
  | nil => exact Guards.refl hs
  | cons e rest ih =>
      obtain ⟨key, item⟩ := e
      have hnonneg : (Contribution.single key item.counters []).Nonneg :=
        Contribution.nonneg_single item.counters_nonneg
      have hadds : Fits s (.single key item.counters []) →
          Adds s (applyAggregateItem s key item) (.single key item.counters []) :=
        applyAggregateItem_adds hs.nonneg
      rw [itemsContribution_cons]
      exact (guards_tryAggregateItem hs).bind hadds (nonneg_itemsContribution rest) fun hfits =>
        ih ((hadds hfits).within hs hnonneg hfits)

/-! ## Merges -/

theorem tryAdd_of_fits {a b : Counters} (ha : ∀ c, 0 ≤ a.get c) (hb : ∀ c, 0 ≤ b.get c)
    (h : ∀ c, a.get c + b.get c ≤ i64Max) : a.tryAdd b = some (a.wrappingAdd b) := by
  have hadd (c : Counter) : checkedAdd (a.get c) (b.get c) = some (wrap (a.get c + b.get c)) :=
    checkedAdd_of_fits (ha c) (hb c) (h c)
  have htotal : checkedAdd a.total b.total = _ := hadd .total
  have herrored : checkedAdd a.errored b.errored = _ := hadd .errored
  have hcrashed : checkedAdd a.crashed b.crashed = _ := hadd .crashed
  have habnormal : checkedAdd a.abnormal b.abnormal = _ := hadd .abnormal
  simp only [Counters.tryAdd, Option.bind_eq_bind]
  rw [htotal, Option.bind_some, herrored, Option.bind_some, hcrashed, Option.bind_some, habnormal]
  rfl

theorem fits_of_tryAdd {a b : Counters} (h : (a.tryAdd b).isSome = true) (c : Counter) :
    a.get c + b.get c ≤ i64Max := by
  obtain ⟨new, hnew⟩ := Option.isSome_iff_exists.mp h
  obtain ⟨total, htotal, hnew⟩ := Option.bind_eq_some_iff.mp hnew
  obtain ⟨errored, herrored, hnew⟩ := Option.bind_eq_some_iff.mp hnew
  obtain ⟨crashed, hcrashed, hnew⟩ := Option.bind_eq_some_iff.mp hnew
  obtain ⟨abnormal, habnormal, -⟩ := Option.bind_eq_some_iff.mp hnew
  cases c with
  | total => exact (eq_of_checkedAdd htotal).2
  | errored => exact (eq_of_checkedAdd herrored).2
  | crashed => exact (eq_of_checkedAdd hcrashed).2
  | abnormal => exact (eq_of_checkedAdd habnormal).2

theorem tryMerge_of_fits {batch : AggregatorState} (hs : s.Nonneg) (hbatch : batch.Nonneg)
    (h : ∀ k c, s.value k c + batch.value k c ≤ i64Max) :
    tryMerge s batch = some (mergeState s batch) := by
  rw [tryMerge, mergeM_eq_merge (fun k n hrow => ?_)]
  · rfl
  · have hold (c : Counter) := hs k c
    have hnew (c : Counter) := hbatch k c
    have hfits (c : Counter) := h k c
    simp only [AggregatorState.value, hrow, Option.getD_some] at hold hnew hfits
    exact tryAdd_of_fits hold hnew hfits

theorem fits_of_tryMerge {batch : AggregatorState} (hs : Within s)
    (h : (tryMerge s batch).isSome = true) (k : BucketKey) (c : Counter) :
    s.value k c + batch.value k c ≤ i64Max := by
  rw [tryMerge, Option.isSome_map] at h
  obtain ⟨counts, hcounts⟩ := Option.isSome_iff_exists.mp h
  have hlookup := lookup_mergeM hcounts k
  cases hrow : batch.counts.lookup k with
  | none =>
      rw [AggregatorState.value, AggregatorState.value, hrow, Option.getD_none,
        Counters.get_zero, Int.add_zero]
      exact hs.fits k c
  | some n =>
      rw [hrow] at hlookup
      obtain ⟨r, hr, -⟩ := hlookup
      rw [AggregatorState.value, AggregatorState.value, hrow]
      exact fits_of_tryAdd (hr ▸ rfl) c

end Rustrak.Sessions
