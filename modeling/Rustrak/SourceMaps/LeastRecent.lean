import Rustrak.SourceMaps.ParsedMaps

/-!
# The cache keeps what was used last

The stamps of the entries order them as they were last used.  In that order the cache is a list from
whose end room is made, so what goes was used before what stays, and its sizes add up to the
counter.
-/

namespace Rustrak.SourceMaps

open Rustrak.Caches

variable {Key Map : Type} {inner next : ParsedMapCacheInner Key Map} {key : Key} {map : Map}
  {budget size : ℕ} {recent : List (Entry Key Map)}

def entryOf (e : Key × CachedMap Map) : Entry Key Map := ⟨e.1, e.2.map, e.2.size⟩

/-- One entry was used after another. -/
def After (a b : Key × CachedMap Map) : Prop := b.2.lastUsed < a.2.lastUsed

/-- The entries of a cache in the order of their stamps, from the latest on. -/
structure Represents (inner : ParsedMapCacheInner Key Map) (recent : List (Entry Key Map)) :
    Prop where
  used_eq : inner.used = total recent
  keys : (recent.map (·.key)).Nodup
  ordered : ∃ stamped : List (Key × CachedMap Map), stamped.Perm inner.entries ∧
    stamped.map entryOf = recent ∧ stamped.Pairwise After
  clock : ∀ e ∈ inner.entries, e.2.lastUsed ≤ inner.clock

theorem represents_empty : Represents (.empty : ParsedMapCacheInner Key Map) [] where
  used_eq := rfl
  keys := .nil
  ordered := ⟨[], .nil, rfl, .nil⟩
  clock := fun _ h => nomatch h

/-- An entry that is stamped comes before the others. -/
theorem perm_touch [DecidableEq Key] {entries : List (Key × CachedMap Map)}
    {old : Key × CachedMap Map} (hkeys : (entries.map Prod.fst).Nodup) (hold : old ∈ entries)
    (clock : ℕ) :
    (entries.map fun e => if e.1 = old.1 then (e.1, { e.2 with lastUsed := clock }) else e).Perm
      ((old.1, { old.2 with lastUsed := clock }) :: entries.filter (·.1 ≠ old.1)) := by
  refine ((perm_cons_filter hkeys hold).map _).trans ?_
  rw [List.map_cons, if_pos rfl]
  have hrest : (entries.filter (·.1 ≠ old.1)).map (fun e =>
      if e.1 = old.1 then (e.1, { e.2 with lastUsed := clock }) else e) =
        entries.filter (·.1 ≠ old.1) := by
    apply (List.map_congr_left fun e he => ?_).trans (List.map_id _)
    exact if_neg (of_decide_eq_true (List.mem_filter.mp he).2)
  rw [hrest]

namespace Represents

theorem perm (h : Represents inner recent) : (inner.entries.map entryOf).Perm recent := by
  obtain ⟨stamped, hperm, hmap, -⟩ := h.ordered
  exact hmap ▸ (hperm.map entryOf).symm

theorem used_eq_sum (h : Represents inner recent) :
    inner.used = (inner.entries.map (·.2.size)).sum := by
  rw [h.used_eq, ← total_perm h.perm, total, List.map_map]
  rfl

theorem entry_keys (h : Represents inner recent) : (inner.entries.map Prod.fst).Nodup := by
  have hkeys := (h.perm.map (·.key)).nodup_iff.mpr h.keys
  rwa [List.map_map] at hkeys

theorem length_eq (h : Represents inner recent) : inner.entries.length = recent.length := by
  rw [← h.perm.length_eq, List.length_map]

theorem mem_recent (h : Represents inner recent) {e : Key × CachedMap Map} (he : e ∈ inner.entries) :
    entryOf e ∈ recent :=
  h.perm.subset (List.mem_map_of_mem he)

variable [DecidableEq Key]

/-- A key is found in the cache and in the list alike. -/
theorem find?_eq (h : Represents inner recent) (key : Key) :
    recent.find? (·.key = key) = (inner.entries.find? (·.1 = key)).map entryOf := by
  cases hfind : inner.entries.find? (·.1 = key) with
  | none =>
      rw [Option.map_none, List.find?_eq_none]
      intro entry hentry
      obtain ⟨e, he, rfl⟩ := List.mem_map.mp (h.perm.symm.subset hentry)
      exact List.find?_eq_none.mp hfind e he
  | some e =>
      obtain rfl : e.1 = key := by simpa using List.find?_some hfind
      exact find?_eq_some_of_nodup h.keys (h.mem_recent (List.mem_of_find?_eq_some hfind))

theorem discard (h : Represents inner recent) (key : Key) :
    Represents (inner.discard key) (others key recent) := by
  have hfind := h.find?_eq key
  rw [ParsedMapCacheInner.discard]
  cases hold : inner.entries.find? (·.1 = key) with
  | none =>
      rw [hold] at hfind
      rwa [others_eq_self fun entry hentry => by
        simpa using List.find?_eq_none.mp hfind entry hentry]
  | some old =>
      rw [hold] at hfind
      have hkey : old.1 = key := by simpa using List.find?_some hold
      have hmem : entryOf old ∈ recent := List.mem_of_find?_eq_some hfind
      obtain ⟨stamped, hperm, hmap, hafter⟩ := h.ordered
      constructor
      · have htotal := total_others h.keys hmem
        have hsize : (entryOf old).size = old.2.size := rfl
        have hother : others (entryOf old).key recent = others key recent := by rw [← hkey]; rfl
        rw [hother] at htotal
        have hused := h.used_eq
        dsimp only
        omega
      · exact h.keys.sublist (List.filter_sublist.map _)
      · refine ⟨stamped.filter (·.1 ≠ key), hperm.filter _, ?_, hafter.filter _⟩
        rw [← hmap, others, List.filter_map]
        rfl
      · exact fun e he => h.clock e (List.mem_of_mem_filter he)

theorem get (h : Represents inner recent) (key : Key) :
    Represents (inner.get key).2 (use key recent) := by
  have hfind := h.find?_eq key
  rw [ParsedMapCacheInner.get, use]
  cases hold : inner.entries.find? (·.1 = key) with
  | none =>
      rw [hold] at hfind
      rw [hfind]
      exact ⟨h.used_eq, h.keys, h.ordered, fun e he => Nat.le_succ_of_le (h.clock e he)⟩
  | some old =>
      rw [hold] at hfind
      rw [hfind]
      obtain rfl : old.1 = key := by simpa using List.find?_some hold
      have hmem := List.mem_of_find?_eq_some hold
      have hrecent : entryOf old ∈ recent := h.mem_recent hmem
      obtain ⟨stamped, hperm, hmap, hafter⟩ := h.ordered
      have htouch := perm_touch h.entry_keys hmem (inner.clock + 1)
      have hothers : others (entryOf old).key recent =
          (stamped.filter (·.1 ≠ old.1)).map entryOf := by
        rw [← hmap, others, List.filter_map]
        rfl
      constructor
      · exact h.used_eq.trans (total_others h.keys hrecent)
      · exact ((perm_cons_filter h.keys hrecent).map (·.key)).nodup_iff.mp h.keys
      · refine ⟨_, ((hperm.filter _).cons _).trans htouch.symm, ?_, ?_⟩
        · rw [List.map_cons]
          exact congrArg _ hothers.symm
        · refine List.pairwise_cons.mpr ⟨fun e he => ?_, hafter.filter _⟩
          exact Nat.lt_succ_of_le (h.clock e (hperm.subset (List.mem_of_mem_filter he)))
      · intro e he
        rcases List.mem_cons.mp (htouch.subset he) with rfl | he
        · exact Nat.le_refl _
        · exact Nat.le_succ_of_le (h.clock e (List.mem_of_mem_filter he))

/-- The victim is the last entry. -/
theorem victim (h : Represents inner recent) (hne : recent ≠ []) :
    ∃ key, inner.victim = some key ∧ others key recent = recent.dropLast := by
  obtain ⟨stamped, hperm, hmap, hafter⟩ := h.ordered
  have hkeys := h.keys
  subst hmap
  cases stamped using List.reverseRecOn with
  | nil => exact absurd rfl hne
  | append_singleton stamped last =>
      have hlast : last ∈ inner.entries := hperm.subset (by simp)
      have hvictim : inner.entries.argmin (·.2.lastUsed) = some last := by
        cases hmin : inner.entries.argmin (·.2.lastUsed) with
        | none => exact absurd (List.argmin_eq_none.mp hmin ▸ hlast) List.not_mem_nil
        | some least =>
            have hle : ¬last.2.lastUsed < least.2.lastUsed :=
              @List.not_lt_of_mem_argmin _ _ _ _ (fun e => e.2.lastUsed) _ _ _ hlast hmin
            rcases List.mem_append.mp (hperm.symm.subset (List.argmin_mem hmin)) with hmem | hmem
            · have hlt := (List.pairwise_append.mp hafter).2.2 least hmem last List.mem_cons_self
              exact absurd hlt hle
            · rw [List.mem_singleton.mp hmem]
      refine ⟨last.1, by rw [ParsedMapCacheInner.victim, hvictim, Option.map_some], ?_⟩
      rw [List.map_append, List.map_singleton] at hkeys ⊢
      rw [List.dropLast_concat, others, List.filter_append, List.filter_singleton]
      rw [List.map_append, List.nodup_append] at hkeys
      have hstay : (stamped.map entryOf).filter (·.key ≠ last.1) = stamped.map entryOf := by
        apply List.filter_eq_self.mpr
        intro entry hentry
        exact decide_eq_true (hkeys.2.2 _ (List.mem_map_of_mem hentry) _ List.mem_cons_self)
      rw [hstay]
      simp [entryOf]

/-- The loop ends, and what goes goes from the end. -/
theorem makeRoom (h : Represents inner recent) {rounds : ℕ} (hrounds : recent.length < rounds)
    (hsize : size ≤ budget) :
    ∃ next, ParsedMapCacheInner.makeRoom budget size rounds inner = some next ∧
      Represents next (fitting (budget - size) recent) := by
  induction rounds generalizing inner recent with
  | zero => exact absurd hrounds (Nat.not_lt_zero _)
  | succ rounds ih =>
      rw [ParsedMapCacheInner.makeRoom]
      by_cases hfull : inner.used + size > budget
      · have hover : budget - size < total recent := by
          have hused := h.used_eq
          omega
        have hne : recent ≠ [] := by
          rintro rfl
          exact Nat.not_lt_zero _ hover
        obtain ⟨key, hvictim, hothers⟩ := h.victim hne
        have hdiscard := h.discard key
        rw [hothers] at hdiscard
        rw [if_pos hfull, hvictim]
        dsimp only
        rw [← fitting_dropLast hover]
        refine ih hdiscard ?_
        have hpositive := List.length_pos_iff.mpr hne
        rw [List.length_dropLast]
        omega
      · have hfits : total recent ≤ budget - size := by
          have hused := h.used_eq
          omega
        rw [if_neg hfull, fitting_of_total_le hfits]
        exact ⟨inner, rfl, h⟩

/-- What comes in is the first, and is not evicted for itself. -/
theorem insert (h : Represents inner recent) (budget : ℕ) (key : Key) (map : Map) (size : ℕ) :
    ∃ next, inner.insert budget key map size = some next ∧
      Represents next (put budget ⟨key, map, size⟩ recent) := by
  rw [ParsedMapCacheInner.insert, put]
  split_ifs with hlarge
  · exact ⟨inner, rfl, h⟩
  · have hdiscard := h.discard key
    have hrounds : (others key recent).length < (inner.discard key).entries.length + 1 := by
      rw [hdiscard.length_eq]
      exact Nat.lt_succ_self _
    obtain ⟨room, hroom, hrepresents⟩ := hdiscard.makeRoom hrounds (not_lt.mp hlarge)
    dsimp only
    rw [hroom, Option.map_some]
    refine ⟨_, rfl, ?_⟩
    have hgone : ∀ entry ∈ fitting (budget - size) (others key recent), entry.key ≠ key :=
      fun entry hentry =>
        of_decide_eq_true (List.mem_filter.mp ((fitting_isPrefix _ _).subset hentry)).2
    have habsent : ∀ e ∈ room.entries, e.1 ≠ key := fun e he =>
      hgone (entryOf e) (hrepresents.mem_recent he)
    have hstay : room.entries.filter (·.1 ≠ key) = room.entries :=
      List.filter_eq_self.mpr fun e he => decide_eq_true (habsent e he)
    obtain ⟨stamped, hperm, hmap, hafter⟩ := hrepresents.ordered
    constructor
    · show room.used + size = _
      rw [hrepresents.used_eq, total_cons]
      exact Nat.add_comm _ _
    · refine List.nodup_cons.mpr ⟨fun hmem => ?_, hrepresents.keys⟩
      obtain ⟨entry, hentry, heq⟩ := List.mem_map.mp hmem
      exact hgone entry hentry heq
    · refine ⟨(key, ⟨map, size, room.clock + 1⟩) :: stamped, ?_, ?_, ?_⟩
      · rw [hstay]
        exact hperm.cons _
      · rw [List.map_cons, hmap]
        rfl
      · refine List.pairwise_cons.mpr ⟨fun e he => ?_, hafter⟩
        exact Nat.lt_succ_of_le (hrepresents.clock e (hperm.subset he))
    · intro e he
      rcases List.mem_cons.mp he with rfl | he
      · exact Nat.le_refl _
      · exact Nat.le_succ_of_le (hrepresents.clock e (List.mem_of_mem_filter he))

theorem apply (h : Represents inner recent) (budget : ℕ) (call : CacheCall Key Map) :
    ∃ next, call.apply budget inner = some next ∧ Represents next (call.recent budget recent) := by
  cases call with
  | get key => exact ⟨_, rfl, h.get key⟩
  | insert key map size => exact h.insert budget key map size

theorem run (h : Represents inner recent) (budget : ℕ) (calls : List (CacheCall Key Map)) :
    ∃ next, calls.foldlM (CacheCall.apply budget) inner = some next ∧
      Represents next (calls.foldl (CacheCall.recent budget) recent) := by
  induction calls generalizing inner recent with
  | nil => exact ⟨inner, rfl, h⟩
  | cons call calls ih =>
      obtain ⟨mid, hmid, hrepresents⟩ := h.apply budget call
      obtain ⟨next, hnext, hend⟩ := ih hrepresents
      refine ⟨next, ?_, hend⟩
      rw [List.foldlM_cons, hmid]
      exact hnext

end Represents

variable [DecidableEq Key]

/-- What the calls leave fits the budget. -/
theorem total_le_of_represents {calls : List (CacheCall Key Map)} (h : Represents inner recent)
    (hle : total recent ≤ budget) : total (calls.foldl (CacheCall.recent budget) recent) ≤ budget := by
  induction calls generalizing inner recent with
  | nil => exact hle
  | cons call calls ih =>
      obtain ⟨next, -, hnext⟩ := h.apply budget call
      refine ih hnext ?_
      cases call with
      | get key => exact (total_use h.keys key).trans_le hle
      | insert key map size => exact total_put_le hle

/-- After any calls the counter is the sum of the sizes and within the budget, and the entries are
those used last.  What is inserted then stays, if the budget has room for it at all, with as many of
the entries used last as fit beside it. -/
theorem parsedMapCache_runs (budget : ℕ) (calls : List (CacheCall Key Map)) :
    ∃ inner, runCalls budget calls = some inner ∧
      inner.used = (inner.entries.map (·.2.size)).sum ∧ inner.used ≤ budget ∧
      Represents inner (recency budget calls) ∧
      ∀ key map size, ∃ next, inner.insert budget key map size = some next ∧
        (budget < size → next = inner) ∧
        (size ≤ budget → ∃ kept, Represents next (⟨key, map, size⟩ :: kept) ∧
          kept <+: others key (recency budget calls) ∧
          ∀ more, kept <+: more → more <+: others key (recency budget calls) → more ≠ kept →
            budget < total more + size) := by
  obtain ⟨inner, hrun, hrepresents⟩ := represents_empty.run budget calls
  refine ⟨inner, hrun, hrepresents.used_eq_sum, ?_, hrepresents, fun key map size => ?_⟩
  · rw [hrepresents.used_eq]
    exact total_le_of_represents represents_empty (Nat.zero_le budget)
  · obtain ⟨next, hnext, hinsert⟩ := hrepresents.insert budget key map size
    refine ⟨next, hnext, fun hlarge => ?_, fun hsize => ?_⟩
    · rw [ParsedMapCacheInner.insert, if_pos hlarge] at hnext
      exact (Option.some.inj hnext).symm
    · rw [put, if_neg (not_lt.mpr hsize)] at hinsert
      refine ⟨_, hinsert, fitting_isPrefix _ _, fun more hlonger hmore hne => ?_⟩
      have hlt : budget - size < total more := lt_total_of_fitting_isPrefix hmore hlonger hne
      omega

end Rustrak.SourceMaps
