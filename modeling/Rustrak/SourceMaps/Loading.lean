import Rustrak.SourceMaps.ParsedMaps
import Rustrak.Transition.Run

/-!
# Loaders of source maps

`ParsedMapCache::get_or_load`: a map that is not in the cache is loaded under a lock of its key, so
that the callers after the first find it there.  Callers take turns at every place where one of them
can be overtaken; the lock goes to any of those waiting for it.

The lock of a key is forgotten when a load is over, whether or not the cache has kept what was
loaded.  A caller still waiting for it then loads under a lock that others do not look for.
-/

namespace Rustrak.SourceMaps

open Rustrak.Transition

/-- Where a caller is; locks are named by the order in which they were made. -/
inductive LoadPhase (Map : Type)
  | called
  | missed
  | waiting (lock : ℕ)
  | locked (lock : ℕ)
  | hit (lock : ℕ) (map : Map)
  | loading (lock : ℕ)
  | loaded (lock : ℕ) (result : Option (Map × ℕ))
  | inserted (lock : ℕ) (result : Option (Map × ℕ))
  | removed (lock : ℕ) (result : Option (Map × ℕ))
  | done (result : Option Map)
  deriving DecidableEq

structure LoadCall (Key Map : Type) where
  key : Key
  phase : LoadPhase Map
  deriving DecidableEq

/-- What the callers share: the cache, and one lock per key being loaded. -/
structure SharedMaps (Key Map : Type) where
  inner : ParsedMapCacheInner Key Map
  loading : Key → Option ℕ
  nextLock : ℕ

structure ParsedMapCache (Key Map : Type) where
  shared : SharedMaps Key Map
  calls : List (LoadCall Key Map)

inductive LoadLabel (Key Map : Type)
  | call (key : Key)
  /-- A caller goes on. -/
  | go (caller : ℕ)
  /-- The load of a caller returns. -/
  | load (caller : ℕ) (result : Option (Map × ℕ))

variable {Key Map : Type}

/-- The lock of a caller that has one. -/
def LoadPhase.held : LoadPhase Map → Option ℕ
  | .locked lock | .hit lock _ | .loading lock | .loaded lock _ | .inserted lock _
  | .removed lock _ => some lock
  | _ => none

/-- The lock of a caller from its load on until it forgets the lock. -/
def LoadPhase.loads : LoadPhase Map → Option ℕ
  | .loading lock | .loaded lock _ | .inserted lock _ => some lock
  | _ => none

/-- The call of `load` is under way. -/
def LoadPhase.isLoading : LoadPhase Map → Bool
  | .loading _ => true
  | _ => false

namespace ParsedMapCache

def new : ParsedMapCache Key Map := ⟨⟨.empty, fun _ => none, 0⟩, []⟩

variable (cache : ParsedMapCache Key Map)

def isFree (lock : ℕ) : Bool := cache.calls.all fun call => call.phase.held ≠ some lock

variable [DecidableEq Key]

/-- What a caller does next, but for the call of `load`. -/
def advance (budget : ℕ) (key : Key) :
    LoadPhase Map → Option (SharedMaps Key Map × LoadPhase Map)
  | .called =>
      let (found, inner) := cache.shared.inner.get key
      some ({ cache.shared with inner }, match found with
        | some map => .done (some map)
        | none => .missed)
  | .missed =>
      match cache.shared.loading key with
      | some lock => some (cache.shared, .waiting lock)
      | none =>
          let lock := cache.shared.nextLock
          some ({ cache.shared with
            loading := Function.update cache.shared.loading key (some lock)
            nextLock := lock + 1 }, .waiting lock)
  | .waiting lock => if cache.isFree lock then some (cache.shared, .locked lock) else none
  | .locked lock =>
      let (found, inner) := cache.shared.inner.get key
      some ({ cache.shared with inner }, match found with
        | some map => .hit lock map
        | none => .loading lock)
  | .hit _ map => some (cache.shared, .done (some map))
  | .loading _ => none
  | .loaded lock result =>
      match result with
      | some (map, size) =>
          (cache.shared.inner.insert budget key map size).map fun inner =>
            ({ cache.shared with inner }, .inserted lock result)
      | none => some (cache.shared, .inserted lock result)
  | .inserted lock result =>
      some ({ cache.shared with loading := Function.update cache.shared.loading key none },
        .removed lock result)
  | .removed _ result => some (cache.shared, .done (result.map Prod.fst))
  | .done _ => none

def step (budget : ℕ) : LoadLabel Key Map → Option (ParsedMapCache Key Map)
  | .call key => some { cache with calls := cache.calls ++ [⟨key, .called⟩] }
  | .go caller =>
      cache.calls[caller]?.bind fun call =>
        (cache.advance budget call.key call.phase).map fun next =>
          ⟨next.1, cache.calls.set caller ⟨call.key, next.2⟩⟩
  | .load caller result =>
      cache.calls[caller]?.bind fun call => match call.phase with
        | .loading lock =>
            some { cache with calls := cache.calls.set caller ⟨call.key, .loaded lock result⟩ }
        | _ => none

end ParsedMapCache

/-- At most one load of each key is under way. -/
def OneLoader (cache : ParsedMapCache Key Map) : Prop :=
  ∀ (i j : ℕ) (a b : LoadCall Key Map), cache.calls[i]? = some a → cache.calls[j]? = some b → a.key = b.key →
    a.phase.isLoading = true → b.phase.isLoading = true → i = j

variable [DecidableEq Key]

/-- A caller that has got a lock no longer its key's finds the map in the cache. -/
def LoadCall.KeepsUp (shared : SharedMaps Key Map) (call : LoadCall Key Map) : Prop :=
  match call.phase with
  | .locked lock => shared.loading call.key = some lock ∨ (shared.inner.get call.key).1.isSome = true
  | _ => True

def KeepsUp (cache : ParsedMapCache Key Map) : LoadLabel Key Map → Prop
  | .go caller => ∀ call ∈ cache.calls[caller]?, call.KeepsUp cache.shared
  | _ => True

/-! ## What a turn does to the locks -/

variable {cache next : ParsedMapCache Key Map} {budget lock : ℕ} {key : Key}
  {phase phase' : LoadPhase Map} {shared : SharedMaps Key Map} {label : LoadLabel Key Map}

/-- What becomes of a caller's lock and of the locks that others look for. -/
inductive LockTurn (cache : ParsedMapCache Key Map) (key : Key) (phase phase' : LoadPhase Map)
    (loading : Key → Option ℕ) : Prop
  | quiet (hheld : phase'.held = none ∨ phase'.held = phase.held)
      (hloads : phase'.loads = none ∨ phase'.loads = phase.loads)
      (hsame : loading = cache.shared.loading)
  | makes {lock : ℕ} (hheld : phase'.held = none) (hloads : phase'.loads = none)
      (hnone : cache.shared.loading key = none)
      (hmade : loading = Function.update cache.shared.loading key (some lock))
  | takes {lock : ℕ} (hfree : cache.isFree lock = true) (hheld : phase'.held = some lock)
      (hloads : phase'.loads = none) (hsame : loading = cache.shared.loading)
  | starts {lock : ℕ} (hlocked : phase = .locked lock) (hloading : phase' = .loading lock)
      (hmiss : (cache.shared.inner.get key).1 = none) (hsame : loading = cache.shared.loading)
  | forgets {lock : ℕ} (hloads : phase.loads = some lock) (hheld : phase'.held = phase.held)
      (hover : phase'.loads = none) (hgone : loading = Function.update cache.shared.loading key none)

theorem lockTurn_of_advance (h : cache.advance budget key phase = some (shared, phase')) :
    LockTurn cache key phase phase' shared.loading := by
  cases phase with
  | called =>
      rw [ParsedMapCache.advance] at h
      generalize cache.shared.inner.get key = answer at h
      obtain ⟨rfl, rfl⟩ := Prod.mk.inj (Option.some.inj h)
      cases answer.1 with
      | none => exact .quiet (.inl rfl) (.inl rfl) rfl
      | some map => exact .quiet (.inl rfl) (.inl rfl) rfl
  | missed =>
      rw [ParsedMapCache.advance] at h
      cases hlock : cache.shared.loading key with
      | none =>
          rw [hlock] at h
          obtain ⟨rfl, rfl⟩ := Prod.mk.inj (Option.some.inj h)
          exact .makes rfl rfl hlock rfl
      | some lock =>
          rw [hlock] at h
          obtain ⟨rfl, rfl⟩ := Prod.mk.inj (Option.some.inj h)
          exact .quiet (.inl rfl) (.inl rfl) rfl
  | waiting lock =>
      rw [ParsedMapCache.advance, Option.ite_none_right_eq_some] at h
      obtain ⟨hfree, h⟩ := h
      obtain ⟨rfl, rfl⟩ := Prod.mk.inj (Option.some.inj h)
      exact .takes hfree rfl rfl rfl
  | locked lock =>
      rw [ParsedMapCache.advance] at h
      generalize hanswer : cache.shared.inner.get key = answer at h
      obtain ⟨rfl, rfl⟩ := Prod.mk.inj (Option.some.inj h)
      cases hfound : answer.1 with
      | none => exact .starts rfl rfl (hanswer ▸ hfound) rfl
      | some map => exact .quiet (.inr rfl) (.inl rfl) rfl
  | hit lock map =>
      obtain ⟨rfl, rfl⟩ := Prod.mk.inj (Option.some.inj h)
      exact .quiet (.inl rfl) (.inl rfl) rfl
  | loading lock => nomatch h
  | loaded lock result =>
      cases result with
      | none =>
          obtain ⟨rfl, rfl⟩ := Prod.mk.inj (Option.some.inj h)
          exact .quiet (.inr rfl) (.inr rfl) rfl
      | some loaded =>
          obtain ⟨inner, -, heq⟩ := Option.map_eq_some_iff.mp h
          obtain ⟨rfl, rfl⟩ := Prod.mk.inj heq
          exact .quiet (.inr rfl) (.inr rfl) rfl
  | inserted lock result =>
      obtain ⟨rfl, rfl⟩ := Prod.mk.inj (Option.some.inj h)
      exact .forgets rfl rfl rfl rfl
  | removed lock result =>
      obtain ⟨rfl, rfl⟩ := Prod.mk.inj (Option.some.inj h)
      exact .quiet (.inl rfl) (.inl rfl) rfl
  | done result => nomatch h

theorem held_of_loads (h : phase.loads = some lock) : phase.held = some lock := by
  cases phase with
  | loading other => exact h
  | loaded other result => exact h
  | inserted other result => exact h
  | _ => nomatch h

/-! ## Loads under the locks of their keys -/

/-- A lock has one holder, and a caller that loads has the lock that others look for. -/
structure LoadsLocked (cache : ParsedMapCache Key Map) : Prop where
  held_once : ∀ (i j : ℕ) (a b : LoadCall Key Map) (lock : ℕ), cache.calls[i]? = some a →
    cache.calls[j]? = some b → a.phase.held = some lock → b.phase.held = some lock → i = j
  own_lock : ∀ (i : ℕ) (a : LoadCall Key Map) (lock : ℕ), cache.calls[i]? = some a →
    a.phase.loads = some lock → cache.shared.loading a.key = some lock

omit [DecidableEq Key] in
theorem loadsLocked_new : LoadsLocked (.new : ParsedMapCache Key Map) where
  held_once := fun _ _ _ _ _ h => nomatch h
  own_lock := fun _ _ _ h => nomatch h

namespace LoadsLocked

omit [DecidableEq Key] in
theorem oneLoader (h : LoadsLocked cache) : OneLoader cache := by
  intro i j a b hi hj hkey ha hb
  have hloads : ∀ call : LoadCall Key Map, call.phase.isLoading = true →
      ∃ lock, call.phase.loads = some lock := by
    rintro ⟨key, phase⟩ hphase
    cases phase with
    | loading lock => exact ⟨lock, rfl⟩
    | _ => nomatch hphase
  obtain ⟨lock, ha⟩ := hloads a ha
  obtain ⟨lock', hb⟩ := hloads b hb
  have hsame : lock = lock' := by
    have hown := h.own_lock i a lock hi ha
    rw [hkey, h.own_lock j b lock' hj hb] at hown
    exact (Option.some.inj hown).symm
  exact h.held_once i j a b lock hi hj (held_of_loads ha) (hsame ▸ held_of_loads hb)

section Turn

variable {i j : ℕ} {call b : LoadCall Key Map}
  (hturn : LockTurn cache call.key call.phase phase' shared.loading)

include hturn

/-- A lock that a caller comes to have is nobody else's. -/
theorem held_ne (h : LoadsLocked cache) (hi : cache.calls[i]? = some call)
    (hj : cache.calls[j]? = some b) (hne : j ≠ i) (hnew : phase'.held = some lock) :
    b.phase.held ≠ some lock := by
  intro hb
  have hmine : call.phase.held ≠ some lock := fun hold =>
    hne (h.held_once j i b call lock hj hi hb hold)
  cases hturn with
  | quiet hheld _ _ =>
      rcases hheld with hnone | hsame
      · exact nomatch hnone.symm.trans hnew
      · exact hmine (hsame.symm.trans hnew)
  | makes hnone _ _ _ => exact nomatch hnone.symm.trans hnew
  | takes hfree htaken _ _ =>
      rw [htaken] at hnew
      have hfree := List.all_eq_true.mp hfree b (List.mem_of_getElem? hj)
      exact of_decide_eq_true hfree (hnew ▸ hb)
  | starts hlocked hloading _ _ =>
      rw [hloading] at hnew
      exact hmine (hlocked ▸ hnew)
  | forgets _ hsame _ _ => exact hmine (hsame.symm.trans hnew)

/-- The locks of the others that load are still those of their keys. -/
theorem own_other (h : LoadsLocked cache) (hi : cache.calls[i]? = some call)
    (hj : cache.calls[j]? = some b) (hne : j ≠ i) (hb : b.phase.loads = some lock) :
    shared.loading b.key = some lock := by
  have hown := h.own_lock j b lock hj hb
  cases hturn with
  | quiet _ _ hsame => rwa [hsame]
  | makes _ _ hnone hmade =>
      rw [hmade, Function.update_of_ne, hown]
      intro hkey
      rw [hkey, hnone] at hown
      exact nomatch hown
  | takes _ _ _ hsame => rwa [hsame]
  | starts _ _ _ hsame => rwa [hsame]
  | forgets hloads _ _ hgone =>
      -- The lock that is forgotten is the caller's own.
      rw [hgone, Function.update_of_ne, hown]
      intro hkey
      have hmine := h.own_lock i call _ hi hloads
      rw [← hkey, hown] at hmine
      exact hne (h.held_once j i b call lock hj hi (held_of_loads hb)
        ((Option.some.inj hmine) ▸ held_of_loads hloads))

/-- A caller that starts to load has the lock of its key. -/
theorem own_self (h : LoadsLocked cache) (hi : cache.calls[i]? = some call)
    (hkeeps : call.KeepsUp cache.shared)
    (hnew : phase'.loads = some lock) : shared.loading call.key = some lock := by
  cases hturn with
  | quiet _ hloads hsame =>
      rcases hloads with hnone | hold
      · exact nomatch hnone.symm.trans hnew
      · rw [hsame]
        exact h.own_lock i call lock hi (hold.symm.trans hnew)
  | makes _ hnone _ _ => exact nomatch hnone.symm.trans hnew
  | takes _ _ hnone _ => exact nomatch hnone.symm.trans hnew
  | starts hlocked hloading hmiss hsame =>
      rw [hloading] at hnew
      obtain rfl := Option.some.inj hnew
      rw [LoadCall.KeepsUp, hlocked] at hkeeps
      rw [hsame]
      refine hkeeps.resolve_right ?_
      rw [hmiss]
      exact nofun
  | forgets _ _ hnone _ => exact nomatch hnone.symm.trans hnew

end Turn

theorem getElem?_set_cases {α : Type} {xs : List α} {x y : α} {i j : ℕ}
    (h : (xs.set i x)[j]? = some y) : (j = i ∧ y = x) ∨ (j ≠ i ∧ xs[j]? = some y) := by
  rw [List.getElem?_set] at h
  split_ifs at h with hij hlt
  · exact .inl ⟨hij.symm, (Option.some.inj h).symm⟩
  · exact .inr ⟨fun heq => hij heq.symm, h⟩

/-- A caller takes a turn. -/
theorem turn (h : LoadsLocked cache) {i : ℕ} {call : LoadCall Key Map}
    (hi : cache.calls[i]? = some call)
    (hturn : LockTurn cache call.key call.phase phase' shared.loading)
    (hkeeps : call.KeepsUp cache.shared) :
    LoadsLocked ⟨shared, cache.calls.set i ⟨call.key, phase'⟩⟩ where
  held_once := by
    intro j k a b lock hj hk ha hb
    rcases getElem?_set_cases hj with ⟨rfl, rfl⟩ | ⟨hj', hold⟩
    · rcases getElem?_set_cases hk with ⟨rfl, -⟩ | ⟨hk', hk⟩
      · rfl
      · exact absurd hb (held_ne hturn h hi hk hk' ha)
    · rcases getElem?_set_cases hk with ⟨rfl, rfl⟩ | ⟨-, hk⟩
      · exact absurd ha (held_ne hturn h hi hold hj' hb)
      · exact h.held_once j k a b lock hold hk ha hb
  own_lock := by
    intro j a lock hj ha
    rcases getElem?_set_cases hj with ⟨-, hself⟩ | ⟨hne, hj⟩
    · rw [hself] at ha ⊢
      show shared.loading call.key = some lock
      exact own_self hturn h hi hkeeps ha
    · exact own_other hturn h hi hj hne ha

omit [DecidableEq Key] in
/-- A new caller has no lock. -/
theorem of_append_called {calls : List (LoadCall Key Map)} {i : ℕ} {a : LoadCall Key Map}
    (h : (calls ++ [⟨key, .called⟩])[i]? = some a) (ha : a.phase.held = some lock) :
    calls[i]? = some a := by
  rw [List.getElem?_append] at h
  split_ifs at h
  · exact h
  · obtain rfl := List.mem_singleton.mp (List.mem_of_getElem? h)
    nomatch ha

omit [DecidableEq Key] in
theorem call (h : LoadsLocked cache) (key : Key) :
    LoadsLocked { cache with calls := cache.calls ++ [⟨key, .called⟩] } where
  held_once := fun i j a b lock hi hj ha hb =>
    h.held_once i j a b lock (of_append_called hi ha) (of_append_called hj hb) ha hb
  own_lock := fun i a lock hi ha =>
    h.own_lock i a lock (of_append_called hi (held_of_loads ha)) ha

theorem step (h : LoadsLocked cache) (hstep : cache.step budget label = some next)
    (hkeeps : KeepsUp cache label) : LoadsLocked next := by
  cases label with
  | call key =>
      obtain rfl := Option.some.inj hstep
      exact h.call key
  | go caller =>
      obtain ⟨call, hcall, hnext⟩ := Option.bind_eq_some_iff.mp hstep
      obtain ⟨⟨shared, phase'⟩, hadvance, rfl⟩ := Option.map_eq_some_iff.mp hnext
      exact h.turn hcall (lockTurn_of_advance hadvance) (hkeeps call hcall)
  | load caller result =>
      obtain ⟨⟨key, phase⟩, hcall, hnext⟩ := Option.bind_eq_some_iff.mp hstep
      cases phase with
      | loading lock =>
          obtain rfl := Option.some.inj hnext
          exact h.turn hcall (.quiet (.inr rfl) (.inr rfl) rfl) trivial
      | _ => nomatch hnext

end LoadsLocked

/-- While every caller that has got a lock no longer its key's finds the map in the cache, at most
one load of each key is under way. -/
theorem oneLoader_of_keepsUp {labels : List (LoadLabel Key Map)}
    (hrun : Run (fun s label t => s.step budget label = some t ∧ KeepsUp s label) .new labels cache) :
    OneLoader cache :=
  (hrun.invariant LoadsLocked (fun _ _ _ h hstep => h.step hstep.1 hstep.2) loadsLocked_new).oneLoader

instance (shared : SharedMaps Key Map) : (call : LoadCall Key Map) → Decidable (call.KeepsUp shared)
  | ⟨_, .locked _⟩ => inferInstanceAs (Decidable (_ ∨ _))
  | ⟨_, .called⟩ | ⟨_, .missed⟩ | ⟨_, .waiting _⟩ | ⟨_, .hit _ _⟩ | ⟨_, .loading _⟩
  | ⟨_, .loaded _ _⟩ | ⟨_, .inserted _ _⟩ | ⟨_, .removed _ _⟩ | ⟨_, .done _⟩ =>
      inferInstanceAs (Decidable True)

instance (cache : ParsedMapCache Key Map) : (label : LoadLabel Key Map) → Decidable (KeepsUp cache label)
  | .go caller => inferInstanceAs (Decidable (∀ call ∈ cache.calls[caller]?, call.KeepsUp cache.shared))
  | .call _ | .load _ _ => inferInstanceAs (Decidable True)

/-- Two callers of a key, of which the second finds what the first has loaded. -/
def sharedLoad : List (LoadLabel String Unit) :=
  [.call "a", .call "a", .go 0, .go 1, .go 0, .go 1, .go 0, .go 0, .load 0 (some ((), 1)), .go 0, .go 0,
    .go 0, .go 1, .go 1, .go 1]

/-- The steps of a run of which each meets the condition. -/
def stepKeeping (budget : ℕ) (cache : ParsedMapCache Key Map) (label : LoadLabel Key Map) :
    Option (ParsedMapCache Key Map) :=
  if KeepsUp cache label then cache.step budget label else none

theorem oneLoader_of_keepsUp_sharedLoad : ∃ cache,
    sharedLoad.foldlM (stepKeeping 8) .new = some cache ∧ OneLoader cache := by
  have hsome : (sharedLoad.foldlM (stepKeeping 8) (.new : ParsedMapCache String Unit)).isSome := by
    decide
  obtain ⟨cache, hcache⟩ := Option.isSome_iff_exists.mp hsome
  exact ⟨cache, hcache, oneLoader_of_keepsUp (Run.of_foldlM_guard hcache)⟩

/-- Nothing is loaded for the first of three callers; the second then loads under its old lock and
the third under a new one. -/
def twoLoads : List (LoadLabel String Unit) :=
  [.call "a", .call "a", .go 0, .go 0, .go 0, .go 0, .go 1, .go 1, .load 0 none, .go 0, .go 0, .go 0,
    .go 1, .go 1, .call "a", .go 2, .go 2, .go 2, .go 2]

/-- Two loads of a key can be under way. -/
theorem twoLoaders : ¬∀ (budget : ℕ) (labels : List (LoadLabel String Unit))
    (cache : ParsedMapCache String Unit),
    Run (fun s label t => s.step budget label = some t) .new labels cache → OneLoader cache := by
  intro h
  have hcalls : (twoLoads.foldlM (fun s : ParsedMapCache String Unit => s.step 8) .new).map
      ParsedMapCache.calls =
      some [⟨"a", .done none⟩, ⟨"a", .loading 0⟩, ⟨"a", .loading 1⟩] := by
    decide
  obtain ⟨cache, hcache, hcalls⟩ := Option.map_eq_some_iff.mp hcalls
  have hsecond : cache.calls[1]? = some ⟨"a", .loading 0⟩ := by
    rw [hcalls]
    rfl
  have hthird : cache.calls[2]? = some ⟨"a", .loading 1⟩ := by
    rw [hcalls]
    rfl
  have hone := h 8 twoLoads cache (Run.of_foldlM hcache)
  exact absurd (hone 1 2 _ _ hsecond hthird rfl rfl rfl) (by decide)

end Rustrak.SourceMaps
