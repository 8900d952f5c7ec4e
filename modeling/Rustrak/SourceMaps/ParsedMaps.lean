import Mathlib.Data.List.MinMax
import Rustrak.Caches.Recency

/-!
# Parsed source maps

`ParsedMapCache` of `services/sourcemap.rs`: the maps that events share.  Entries are stamped with
a clock when they are used, and the oldest stamp goes first when there is no room.  Sizes and the
clock are natural numbers.
-/

namespace Rustrak.SourceMaps

open Rustrak.Caches

structure CachedMap (Map : Type) where
  map : Map
  size : ℕ
  lastUsed : ℕ
  deriving DecidableEq

/-- The entries in the order in which they are iterated over. -/
structure ParsedMapCacheInner (Key Map : Type) where
  entries : List (Key × CachedMap Map)
  used : ℕ
  clock : ℕ
  deriving DecidableEq

namespace ParsedMapCacheInner

variable {Key Map : Type}

def empty : ParsedMapCacheInner Key Map := ⟨[], 0, 0⟩

variable [DecidableEq Key] (inner : ParsedMapCacheInner Key Map)

/-- Uses an entry, if there is one. -/
def get (key : Key) : Option Map × ParsedMapCacheInner Key Map :=
  let clock := inner.clock + 1
  match inner.entries.find? (·.1 = key) with
  | none => (none, { inner with clock })
  | some entry =>
      (some entry.2.map,
        { inner with
          clock
          entries := inner.entries.map fun e =>
            if e.1 = key then (e.1, { e.2 with lastUsed := clock }) else e })

/-- Takes an entry out, if there is one. -/
def discard (key : Key) : ParsedMapCacheInner Key Map :=
  match inner.entries.find? (·.1 = key) with
  | none => inner
  | some old =>
      { inner with
        entries := inner.entries.filter (·.1 ≠ key)
        used := inner.used - old.2.size }

/-- The key of the entry that was used least recently. -/
def victim : Option Key := (inner.entries.argmin (·.2.lastUsed)).map Prod.fst

/-- The loop that makes room; `none` if so many rounds do not end it. -/
def makeRoom (budget size : ℕ) :
    ℕ → ParsedMapCacheInner Key Map → Option (ParsedMapCacheInner Key Map)
  | 0, _ => none
  | rounds + 1, inner =>
      if inner.used + size > budget then
        match inner.victim with
        | none => some inner
        | some key => makeRoom budget size rounds (inner.discard key)
      else some inner

def insert (budget : ℕ) (key : Key) (map : Map) (size : ℕ) :
    Option (ParsedMapCacheInner Key Map) :=
  if size > budget then some inner
  else
    let inner := inner.discard key
    (makeRoom budget size (inner.entries.length + 1) inner).map fun inner =>
      let lastUsed := inner.clock + 1
      { entries := (key, ⟨map, size, lastUsed⟩) :: inner.entries.filter (·.1 ≠ key)
        used := inner.used + size
        clock := lastUsed }

end ParsedMapCacheInner

/-- A call on the cache. -/
inductive CacheCall (Key Map : Type)
  | get (key : Key)
  | insert (key : Key) (map : Map) (size : ℕ)
  deriving DecidableEq

variable {Key Map : Type} [DecidableEq Key]

def CacheCall.apply (budget : ℕ) (inner : ParsedMapCacheInner Key Map) :
    CacheCall Key Map → Option (ParsedMapCacheInner Key Map)
  | .get key => some (inner.get key).2
  | .insert key map size => inner.insert budget key map size

/-- The calls one after the other, each under the lock. -/
def runCalls (budget : ℕ) (calls : List (CacheCall Key Map)) :
    Option (ParsedMapCacheInner Key Map) :=
  calls.foldlM (CacheCall.apply budget) .empty

example : (runCalls 3 [.insert "a" () 2, .insert "b" () 1, .get "a", .insert "c" () 1]).map
    (fun inner => (inner.entries.map Prod.fst, inner.used)) = some (["c", "a"], 3) := by decide

/-- What a call leaves of some entries, the one used last first. -/
def CacheCall.recent (budget : ℕ) (entries : List (Entry Key Map)) :
    CacheCall Key Map → List (Entry Key Map)
  | .get key => use key entries
  | .insert key map size => put budget ⟨key, map, size⟩ entries

def recency (budget : ℕ) (calls : List (CacheCall Key Map)) : List (Entry Key Map) :=
  calls.foldl (CacheCall.recent budget) []

end Rustrak.SourceMaps
