import Rustrak.Sessions.Aggregator

/-!
# What updates add

Every operation of the aggregator is read as an addition.  `Adds s s' x` says that `s'` is `s`
with the contribution `x`, for each counter of each bucket and for the flag of each user;
counters add up in the integers and flags in `joinFlag`.  An ingest adds what its
update says (`ingestSession_adds`, `ingestAggregates_adds`), a merge and a commit add
what the batch holds.

All of it is true only while no addition leaves 64 bits, where it wraps in memory (`Fits`).
-/

namespace Rustrak.Sessions

open Rustrak.Relational

/-! ## Reading counters and flags -/

inductive Counter
  | total
  | errored
  | crashed
  | abnormal
  deriving DecidableEq, Repr

def Counters.get (n : Counters) : Counter → Int
  | .total => n.total
  | .errored => n.errored
  | .crashed => n.crashed
  | .abnormal => n.abnormal

@[simp] theorem Counters.get_zero (c : Counter) : Counters.zero.get c = 0 := by
  cases c <;> rfl

/-- The counters of one event of a kind. -/
def Counters.unit : Counter → Counters
  | .total => ⟨1, 0, 0, 0⟩
  | .errored => ⟨0, 1, 0, 0⟩
  | .crashed => ⟨0, 0, 1, 0⟩
  | .abnormal => ⟨0, 0, 0, 1⟩

/-- The flag of a user two parts know, or one of them, or none. -/
def joinFlag : Option Bool → Option Bool → Option Bool
  | none, b => b
  | a, none => a
  | some a, some b => some (a || b)

instance : Std.Commutative joinFlag where
  comm := by
    intro a b
    cases a <;> cases b <;> simp [joinFlag, Bool.or_comm]

instance : Std.Associative joinFlag where
  assoc := by
    intro a b c
    cases a <;> cases b <;> cases c <;> simp [joinFlag, Bool.or_assoc]

@[simp] theorem joinFlag_none (a : Option Bool) : joinFlag a none = a := by
  cases a <;> rfl

@[simp] theorem none_joinFlag (a : Option Bool) : joinFlag none a = a := rfl

namespace AggregatorState

variable (s : AggregatorState)

def value (k : BucketKey) (c : Counter) : Int := ((s.counts.lookup k).getD .zero).get c

/-- Whether a user is known, and as crashed. -/
def flag (u : UserKey) : Option Bool := s.users.lookup u

@[simp] theorem value_empty (k : BucketKey) (c : Counter) : empty.value k c = 0 := by
  simp [value, empty]

@[simp] theorem flag_empty (u : UserKey) : empty.flag u = none := by
  simp [flag, empty]

theorem value_count (key : BucketKey) (change : Counters → Counters) (k : BucketKey)
    (c : Counter) :
    (s.count key change).value k c =
      if k = key then (change ((s.counts.lookup key).getD .zero)).get c else s.value k c := by
  unfold value count
  dsimp only
  rw [lookup_insert_eq]
  split_ifs <;> rfl

theorem flag_see (key u : UserKey) :
    (s.see key).flag u = joinFlag (s.flag u) (if key = u then some false else none) := by
  unfold flag see
  dsimp only
  rw [lookup_insert_eq]
  by_cases h : u = key
  · subst h
    rw [if_pos rfl, if_pos rfl]
    cases s.users.lookup u <;> simp [joinFlag]
  · rw [if_neg h, if_neg (Ne.symm h), joinFlag_none]

theorem flag_markCrashed (key u : UserKey) :
    (s.markCrashed key).flag u = joinFlag (s.flag u) (if key = u then some true else none) := by
  unfold flag markCrashed
  dsimp only
  rw [lookup_insert_eq]
  by_cases h : u = key
  · subst h
    rw [if_pos rfl, if_pos rfl]
    cases s.users.lookup u <;> simp [joinFlag]
  · rw [if_neg h, if_neg (Ne.symm h), joinFlag_none]

/-- No counter is negative. -/
def Nonneg : Prop := ∀ k c, 0 ≤ s.value k c

end AggregatorState

/-! ## Contributions -/

/-- What an accepted item adds: to counters, and to flags. -/
structure Contribution where
  counts : List (BucketKey × Counters)
  users : List (UserKey × Bool)
  deriving DecidableEq

namespace Contribution

def empty : Contribution := ⟨[], []⟩

def append (x y : Contribution) : Contribution := ⟨x.counts ++ y.counts, x.users ++ y.users⟩

instance : Append Contribution := ⟨append⟩

/-- What it adds to one counter. -/
def amount (x : Contribution) (k : BucketKey) (c : Counter) : Int :=
  (x.counts.map fun e => if e.1 = k then e.2.get c else 0).sum

/-- What it says about one user. -/
def flag (x : Contribution) (u : UserKey) : Option Bool :=
  x.users.foldr (fun e rest => joinFlag (if e.1 = u then some e.2 else none) rest) none

@[simp] theorem amount_empty (k : BucketKey) (c : Counter) : empty.amount k c = 0 := rfl

@[simp] theorem flag_empty (u : UserKey) : empty.flag u = none := rfl

@[simp] theorem amount_append (x y : Contribution) (k : BucketKey) (c : Counter) :
    (x ++ y).amount k c = x.amount k c + y.amount k c := by
  change ((x.counts ++ y.counts).map _).sum = _
  rw [List.map_append, List.sum_append]
  rfl

@[simp] theorem flag_append (x y : Contribution) (u : UserKey) :
    (x ++ y).flag u = joinFlag (x.flag u) (y.flag u) := by
  obtain ⟨_, users⟩ := x
  change (users ++ y.users).foldr _ none = joinFlag (users.foldr _ none) (y.users.foldr _ none)
  induction users with
  | nil => rfl
  | cons e rest ih =>
      rw [List.cons_append, List.foldr_cons, List.foldr_cons, ih]
      ac_rfl

/-- Nothing is taken away. -/
def Nonneg (x : Contribution) : Prop := ∀ k c, 0 ≤ x.amount k c

theorem nonneg_empty : empty.Nonneg := fun _ _ => le_refl _

theorem Nonneg.append {x y : Contribution} (hx : x.Nonneg) (hy : y.Nonneg) : (x ++ y).Nonneg := by
  intro k c
  rw [amount_append]
  have hx' := hx k c
  have hy' := hy k c
  omega

/-- One row of counters. -/
def single (key : BucketKey) (n : Counters) (users : List (UserKey × Bool)) : Contribution :=
  ⟨[(key, n)], users⟩

theorem amount_single (key : BucketKey) (n : Counters) (users : List (UserKey × Bool))
    (k : BucketKey) (c : Counter) :
    (single key n users).amount k c = if k = key then n.get c else 0 := by
  simp [single, amount, eq_comm]

theorem nonneg_single {key : BucketKey} {n : Counters} {users : List (UserKey × Bool)}
    (hn : ∀ c, 0 ≤ n.get c) : (single key n users).Nonneg := by
  intro k c
  rw [amount_single]
  split_ifs
  · exact hn c
  · exact le_refl _

end Contribution

/-! ## Additions -/

/-- `s'` is `s` with the contribution `x`. -/
structure Adds (s s' : AggregatorState) (x : Contribution) : Prop where
  counts : ∀ k c, s'.value k c = s.value k c + x.amount k c
  flags : ∀ u, s'.flag u = joinFlag (s.flag u) (x.flag u)

/-- Adding `x` stays within 64 bits. -/
def Fits (s : AggregatorState) (x : Contribution) : Prop :=
  ∀ k c, s.value k c + x.amount k c ≤ i64Max

variable {s s' s'' : AggregatorState} {x y : Contribution}

theorem Adds.refl (s : AggregatorState) : Adds s s .empty where
  counts := by simp
  flags := by simp

theorem Adds.trans (h : Adds s s' x) (h' : Adds s' s'' y) : Adds s s'' (x ++ y) where
  counts := by
    intro k c
    rw [h'.counts, h.counts, Contribution.amount_append]
    omega
  flags := by
    intro u
    rw [h'.flags, h.flags, Contribution.flag_append]
    ac_rfl

theorem Adds.nonneg (h : Adds s s' x) (hs : s.Nonneg) (hx : x.Nonneg) : s'.Nonneg := by
  intro k c
  rw [h.counts]
  have hs' := hs k c
  have hx' := hx k c
  omega

theorem Fits.left (h : Fits s (x ++ y)) (hy : y.Nonneg) : Fits s x := by
  intro k c
  have hboth := h k c
  have hy' := hy k c
  rw [Contribution.amount_append] at hboth
  omega

theorem Fits.right (h : Fits s (x ++ y)) (hadds : Adds s s' x) : Fits s' y := by
  intro k c
  have hboth := h k c
  rw [Contribution.amount_append] at hboth
  rw [hadds.counts]
  omega

/-- A change of one row that adds `n` to it. -/
theorem count_adds {key : BucketKey} {change : Counters → Counters} {n : Counters}
    (hchange : ∀ c, (change ((s.counts.lookup key).getD .zero)).get c =
      s.value key c + n.get c) : Adds s (s.count key change) (.single key n []) where
  counts := by
    intro k c
    rw [AggregatorState.value_count, Contribution.amount_single]
    split_ifs with hk
    · rw [hk, hchange]
    · omega
  flags := fun u => (joinFlag_none _).symm

theorem see_adds (s : AggregatorState) (key : UserKey) :
    Adds s (s.see key) ⟨[], [(key, false)]⟩ where
  counts := fun _ _ => (Int.add_zero _).symm
  flags := by
    intro u
    rw [AggregatorState.flag_see]
    simp [Contribution.flag]

theorem markCrashed_adds (s : AggregatorState) (key : UserKey) :
    Adds s (s.markCrashed key) ⟨[], [(key, true)]⟩ where
  counts := fun _ _ => (Int.add_zero _).symm
  flags := by
    intro u
    rw [AggregatorState.flag_markCrashed]
    simp [Contribution.flag]

/-! ## What an update says -/

/-- One event of a kind, with the flag of its user. -/
def Contribution.one (key : BucketKey) (c : Counter) (user : Option String) (crashed : Bool) :
    Contribution :=
  .single key (.unit c) (user.toList.map fun did => (key.user did, crashed))

theorem Contribution.nonneg_one (key : BucketKey) (c : Counter) (user : Option String)
    (crashed : Bool) : (one key c user crashed).Nonneg :=
  nonneg_single fun c' => by cases c <;> cases c' <;> decide

namespace SessionUpdate

variable (update : SessionUpdate)

/-- How the session ended, if the update says so. -/
def outcome : Option SessionOutcome :=
  let status := update.status.getD .ok
  if status.isTerminal then some (classify status update.errors) else none

/-- A session that begins is one session, and one user known. -/
def beginning (key : BucketKey) : Contribution :=
  if update.init then .one key .total update.user false else .empty

/-- A session that ends badly is one of its kind; a crash is its user's. -/
def ending (key : BucketKey) : Contribution :=
  match update.outcome with
  | some .crashed => .one key .crashed update.user true
  | some .abnormal => .one key .abnormal none false
  | some .errored => .one key .errored none false
  | some .healthy => .empty
  | none => .empty

def contribution (key : BucketKey) : Contribution := update.beginning key ++ update.ending key

theorem nonneg_beginning (key : BucketKey) : (update.beginning key).Nonneg := by
  unfold beginning
  split_ifs
  · exact Contribution.nonneg_one _ _ _ _
  · exact Contribution.nonneg_empty

theorem nonneg_ending (key : BucketKey) : (update.ending key).Nonneg := by
  unfold ending
  split
  · exact Contribution.nonneg_one _ _ _ _
  · exact Contribution.nonneg_one _ _ _ _
  · exact Contribution.nonneg_one _ _ _ _
  · exact Contribution.nonneg_empty
  · exact Contribution.nonneg_empty

end SessionUpdate

/-! ## Ingest -/

/-- One more event of a kind in a row. -/
private theorem countOne_adds {key : BucketKey} {c : Counter} {change : Counters → Counters}
    (hs : s.Nonneg) (hfits : Fits s (.single key (.unit c) []))
    (hchange : ∀ n c', (change n).get c' = if c' = c then wrap (n.get c' + 1) else n.get c') :
    Adds s (s.count key change) (.single key (.unit c) []) := by
  apply count_adds
  intro c'
  have hfits' := hfits key c
  have hs' := hs key c
  rw [Contribution.amount_single, if_pos rfl] at hfits'
  rw [hchange]
  split_ifs with hc
  · subst hc
    have hunit : (Counters.unit c').get c' = 1 := by cases c' <;> rfl
    rw [hunit] at hfits' ⊢
    change wrap (s.value key c' + 1) = _
    exact wrap_of_fits (by omega) hfits'
  · have hunit : (Counters.unit c).get c' = 0 := by
      cases c <;> cases c' <;> first | rfl | exact absurd rfl hc
    rw [hunit, Int.add_zero]
    rfl

theorem applyInit_adds {update : SessionUpdate} {key : BucketKey} (hs : s.Nonneg)
    (hfits : Fits s (update.beginning key)) :
    Adds s (applyInit update key s) (update.beginning key) := by
  unfold applyInit
  unfold SessionUpdate.beginning at hfits ⊢
  split_ifs at hfits ⊢
  · have hcount : Adds s (s.count key fun c => { c with total := wrap (c.total + 1) })
        (.single key (.unit .total) []) :=
      countOne_adds hs hfits fun n c' => by cases c' <;> rfl
    cases update.user with
    | none => exact hcount
    | some did => exact hcount.trans (see_adds _ (key.user did))
  · exact Adds.refl s

theorem applyTerminal_adds {update : SessionUpdate} {key : BucketKey} (hs : s.Nonneg)
    (hfits : Fits s (update.ending key)) :
    Adds s (applyTerminal update key s) (update.ending key) := by
  unfold applyTerminal
  unfold SessionUpdate.ending SessionUpdate.outcome at hfits ⊢
  dsimp only at hfits ⊢
  split_ifs at hfits ⊢
  · generalize classify (update.status.getD .ok) update.errors = outcome at hfits ⊢
    cases outcome with
    | crashed =>
        have hcount : Adds s (s.count key fun c => { c with crashed := wrap (c.crashed + 1) })
            (.single key (.unit .crashed) []) :=
          countOne_adds hs hfits fun n c' => by cases c' <;> rfl
        cases update.user with
        | none => exact hcount
        | some did => exact hcount.trans (markCrashed_adds _ (key.user did))
    | abnormal => exact countOne_adds hs hfits fun n c' => by cases c' <;> rfl
    | errored => exact countOne_adds hs hfits fun n c' => by cases c' <;> rfl
    | healthy =>
        -- The row is there now, with nothing in it.
        have hcount : Adds s (s.count key id) (.single key .zero []) :=
          count_adds fun c => by simp [AggregatorState.value]
        refine ⟨fun k c => ?_, hcount.flags⟩
        rw [hcount.counts, Contribution.amount_single]
        split_ifs <;> simp
  · exact Adds.refl s

/-- What a `session` item adds. -/
def sessionContribution (env : SessionEnv) (s : AggregatorState) (projectId : Int)
    (update : SessionUpdate) (now : Int) : Contribution :=
  match acceptedKey env s projectId update.attrs (bucketOf env update.started now) with
  | none => .empty
  | some key => update.contribution key

theorem nonneg_sessionContribution (env : SessionEnv) (s : AggregatorState) (projectId : Int)
    (update : SessionUpdate) (now : Int) :
    (sessionContribution env s projectId update now).Nonneg := by
  unfold sessionContribution
  split
  · exact Contribution.nonneg_empty
  · exact (update.nonneg_beginning _).append (update.nonneg_ending _)

theorem ingestSession_adds {env : SessionEnv} {projectId : Int} {update : SessionUpdate}
    {now : Int} (hs : s.Nonneg)
    (hfits : Fits s (sessionContribution env s projectId update now)) :
    Adds s (ingestSession env s projectId update now)
      (sessionContribution env s projectId update now) := by
  unfold ingestSession
  unfold sessionContribution at hfits ⊢
  generalize acceptedKey env s projectId update.attrs (bucketOf env update.started now) = accepted
    at hfits ⊢
  cases accepted with
  | none => exact Adds.refl s
  | some key =>
      have hbegin := applyInit_adds hs (hfits.left (update.nonneg_ending key))
      have hnonneg := hbegin.nonneg hs (update.nonneg_beginning key)
      exact hbegin.trans (applyTerminal_adds hnonneg (hfits.right hbegin))

/-- The counters of an aggregate item. -/
def SessionAggregateItem.counters (item : SessionAggregateItem) : Counters where
  total := item.exited.val + item.errored.val + item.crashed.val + item.abnormal.val +
    item.unhandled.val
  errored := item.errored.val + item.unhandled.val
  crashed := item.crashed.val
  abnormal := item.abnormal.val

theorem SessionAggregateItem.counters_nonneg (item : SessionAggregateItem) (c : Counter) :
    0 ≤ item.counters.get c := by
  have hexited := item.exited.nonneg
  have herrored := item.errored.nonneg
  have hcrashed := item.crashed.nonneg
  have habnormal := item.abnormal.nonneg
  have hunhandled := item.unhandled.nonneg
  cases c <;> simp only [counters, Counters.get] <;> omega

/-- Every partial sum is below the last one, which fits. -/
theorem SessionAggregateItem.wrap_total {item : SessionAggregateItem}
    (h : item.counters.total ≤ i64Max) :
    wrap (wrap (wrap (wrap (item.exited.val + item.errored.val) + item.crashed.val) +
      item.abnormal.val) + item.unhandled.val) = item.counters.total := by
  have hexited := item.exited.nonneg
  have herrored := item.errored.nonneg
  have hcrashed := item.crashed.nonneg
  have habnormal := item.abnormal.nonneg
  have hunhandled := item.unhandled.nonneg
  unfold counters at h
  dsimp only at h
  have hfirst : wrap (item.exited.val + item.errored.val) =
      item.exited.val + item.errored.val := wrap_of_fits (by omega) (by omega)
  have hsecond : wrap (item.exited.val + item.errored.val + item.crashed.val) =
      item.exited.val + item.errored.val + item.crashed.val :=
    wrap_of_fits (by omega) (by omega)
  have hthird : wrap (item.exited.val + item.errored.val + item.crashed.val +
      item.abnormal.val) = item.exited.val + item.errored.val + item.crashed.val +
        item.abnormal.val := wrap_of_fits (by omega) (by omega)
  rw [hfirst, hsecond, hthird]
  exact wrap_of_fits (by omega) (by omega)

theorem SessionAggregateItem.wrap_errored {item : SessionAggregateItem}
    (h : item.counters.errored ≤ i64Max) :
    wrap (item.errored.val + item.unhandled.val) = item.counters.errored :=
  wrap_of_fits (Int.add_nonneg item.errored.nonneg item.unhandled.nonneg) h

theorem applyAggregateItem_adds {key : BucketKey} {item : SessionAggregateItem} (hs : s.Nonneg)
    (hfits : Fits s (.single key item.counters [])) :
    Adds s (applyAggregateItem s key item) (.single key item.counters []) := by
  have hfits' : ∀ c, s.value key c + item.counters.get c ≤ i64Max := by
    intro c
    have h := hfits key c
    rwa [Contribution.amount_single, if_pos rfl] at h
  unfold applyAggregateItem
  apply count_adds
  intro c
  have hold := hs key c
  have hbound := hfits' c
  have hcounter := item.counters_nonneg c
  rw [SessionAggregateItem.wrap_total (le_trans (le_add_of_nonneg_left (hs key .total))
      (hfits' .total)),
    SessionAggregateItem.wrap_errored (le_trans (le_add_of_nonneg_left (hs key .errored))
      (hfits' .errored))]
  cases c with
  | total => exact wrap_of_fits (Int.add_nonneg hold hcounter) hbound
  | errored => exact wrap_of_fits (Int.add_nonneg hold hcounter) hbound
  | crashed => exact wrap_of_fits (Int.add_nonneg hold hcounter) hbound
  | abnormal => exact wrap_of_fits (Int.add_nonneg hold hcounter) hbound

/-- What the items of an aggregate add. -/
def itemsContribution (items : List (BucketKey × SessionAggregateItem)) : Contribution :=
  ⟨items.map fun (key, item) => (key, item.counters), []⟩

theorem itemsContribution_cons (key : BucketKey) (item : SessionAggregateItem)
    (rest : List (BucketKey × SessionAggregateItem)) :
    itemsContribution ((key, item) :: rest) =
      .single key item.counters [] ++ itemsContribution rest := rfl

theorem nonneg_itemsContribution (items : List (BucketKey × SessionAggregateItem)) :
    (itemsContribution items).Nonneg := by
  induction items with
  | nil => exact Contribution.nonneg_empty
  | cons e rest ih =>
      obtain ⟨key, item⟩ := e
      rw [itemsContribution_cons]
      exact (Contribution.nonneg_single item.counters_nonneg).append ih

theorem applyItems_adds {items : List (BucketKey × SessionAggregateItem)} (hs : s.Nonneg)
    (hfits : Fits s (itemsContribution items)) :
    Adds s (items.foldl (fun s (key, item) => applyAggregateItem s key item) s)
      (itemsContribution items) := by
  induction items generalizing s with
  | nil => exact Adds.refl s
  | cons e rest ih =>
      obtain ⟨key, item⟩ := e
      rw [itemsContribution_cons] at hfits ⊢
      have hfirst := applyAggregateItem_adds hs (hfits.left (nonneg_itemsContribution rest))
      have hnonneg := hfirst.nonneg hs (Contribution.nonneg_single item.counters_nonneg)
      exact hfirst.trans (ih hnonneg (hfits.right hfirst))

/-- What a `sessions` item adds. -/
def aggregatesContribution (env : SessionEnv) (s : AggregatorState) (projectId : Int)
    (agg : SessionAggregates) (clock : Nat → Int) : Contribution :=
  itemsContribution (aggregateBuckets env s projectId agg clock)

theorem ingestAggregates_adds {env : SessionEnv} {projectId : Int} {agg : SessionAggregates}
    {clock : Nat → Int} (hs : s.Nonneg)
    (hfits : Fits s (aggregatesContribution env s projectId agg clock)) :
    Adds s (ingestAggregates env s projectId agg clock)
      (aggregatesContribution env s projectId agg clock) :=
  applyItems_adds hs hfits

/-! ## Merging and committing a batch -/

variable {batch : AggregatorState}

/-- A user in two maps. -/
private theorem flag_merge (into other : Map UserKey Bool) (u : UserKey) :
    (merge (fun row crashed => row.getD false || crashed) into other).lookup u =
      joinFlag (into.lookup u) (other.lookup u) := by
  rw [lookup_merge]
  cases other.lookup u with
  | none => exact (joinFlag_none _).symm
  | some crashed => cases into.lookup u <;> simp [joinFlag]

theorem flag_mergeState (s batch : AggregatorState) (u : UserKey) :
    (mergeState s batch).flag u = joinFlag (s.flag u) (batch.flag u) :=
  flag_merge s.users batch.users u

theorem value_mergeState (hs : s.Nonneg) (hbatch : batch.Nonneg)
    (hfits : ∀ k c, s.value k c + batch.value k c ≤ i64Max) (k : BucketKey) (c : Counter) :
    (mergeState s batch).value k c = s.value k c + batch.value k c := by
  have hs' := hs k c
  have hbatch' := hbatch k c
  have hfits' := hfits k c
  unfold AggregatorState.value mergeState at *
  dsimp only at *
  rw [lookup_merge]
  cases hrow : batch.counts.lookup k with
  | none => simp
  | some n =>
      rw [hrow] at hbatch' hfits'
      dsimp only [Option.getD_some] at *
      cases c with
      | total => exact wrap_of_fits (Int.add_nonneg hs' hbatch') hfits'
      | errored => exact wrap_of_fits (Int.add_nonneg hs' hbatch') hfits'
      | crashed => exact wrap_of_fits (Int.add_nonneg hs' hbatch') hfits'
      | abnormal => exact wrap_of_fits (Int.add_nonneg hs' hbatch') hfits'

/-- The statement of one row stores the sum. -/
private theorem upsertCount_get {engine : Engine} {row : Option Counters} {n r : Counters}
    (h : upsertCount engine row n = some r) (c : Counter) (hrow : 0 ≤ (row.getD .zero).get c)
    (hn : 0 ≤ n.get c) (hfits : (row.getD .zero).get c + n.get c ≤ i64Max) :
    r.get c = (row.getD .zero).get c + n.get c := by
  cases row with
  | none =>
      obtain rfl := Option.some.inj h
      simp
  | some row =>
      obtain ⟨total, htotal, h⟩ := Option.bind_eq_some_iff.mp h
      obtain ⟨errored, herrored, h⟩ := Option.bind_eq_some_iff.mp h
      obtain ⟨crashed, hcrashed, h⟩ := Option.bind_eq_some_iff.mp h
      obtain ⟨abnormal, habnormal, h⟩ := Option.bind_eq_some_iff.mp h
      obtain rfl := Option.some.inj h
      have hexact := engine.exact _ _ hrow hn hfits
      cases c with
      | total => exact Option.some.inj (htotal.symm.trans hexact)
      | errored => exact Option.some.inj (herrored.symm.trans hexact)
      | crashed => exact Option.some.inj (hcrashed.symm.trans hexact)
      | abnormal => exact Option.some.inj (habnormal.symm.trans hexact)

theorem upsertAll_adds {engine : Engine} {rows rows' : AggregatorState}
    (h : upsertAll engine rows batch = some rows') (hrows : rows.Nonneg) (hbatch : batch.Nonneg)
    (hfits : ∀ k c, rows.value k c + batch.value k c ≤ i64Max) :
    (∀ k c, rows'.value k c = rows.value k c + batch.value k c) ∧
      ∀ u, rows'.flag u = joinFlag (rows.flag u) (batch.flag u) := by
  obtain ⟨counts, hcounts, h⟩ := Option.bind_eq_some_iff.mp h
  obtain rfl := Option.some.inj h
  refine ⟨fun k c => ?_, flag_merge rows.users batch.users⟩
  have hrows' := hrows k c
  have hbatch' := hbatch k c
  have hfits' := hfits k c
  have hlookup := lookup_mergeM hcounts k
  unfold AggregatorState.value at *
  dsimp only
  cases hrow : batch.counts.lookup k with
  | none =>
      rw [hrow] at hlookup
      rw [hlookup]
      simp
  | some n =>
      rw [hrow] at hlookup hbatch' hfits'
      obtain ⟨r, hupsert, hr⟩ := hlookup
      rw [hr]
      exact upsertCount_get hupsert c hrows' hbatch' hfits'

end Rustrak.Sessions
