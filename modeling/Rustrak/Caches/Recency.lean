import Mathlib.Algebra.Order.Group.Nat
import Mathlib.Algebra.Order.Ring.Int
import Mathlib.Data.List.Basic

/-!
# What is kept of what was used last

A cache of sized entries, the one used last first.  An entry that comes in takes its room from those
at the end.
-/

namespace Rustrak.Caches

structure Entry (K V : Type*) where
  key : K
  value : V
  size : ℕ
  deriving DecidableEq

variable {K V : Type*}

def total (entries : List (Entry K V)) : ℕ := (entries.map (·.size)).sum

/-- The entries from the first on that there is room for. -/
def fitting (room : ℕ) : List (Entry K V) → List (Entry K V)
  | [] => []
  | entry :: rest => if entry.size ≤ room then entry :: fitting (room - entry.size) rest else []

variable {entries kept more : List (Entry K V)} {entry : Entry K V} {room : ℕ}

@[simp] theorem total_nil : total ([] : List (Entry K V)) = 0 := rfl

@[simp] theorem total_cons : total (entry :: entries) = entry.size + total entries := by
  rw [total, List.map_cons, List.sum_cons, total]

theorem total_perm (h : kept.Perm more) : total kept = total more :=
  (h.map _).sum_nat

theorem fitting_isPrefix (room : ℕ) (entries : List (Entry K V)) : fitting room entries <+: entries := by
  induction entries generalizing room with
  | nil => exact List.prefix_rfl
  | cons entry rest ih =>
      rw [fitting]
      split_ifs
      · exact (List.prefix_cons_inj entry).mpr (ih _)
      · exact List.nil_prefix

theorem total_fitting_le (room : ℕ) (entries : List (Entry K V)) : total (fitting room entries) ≤ room := by
  induction entries generalizing room with
  | nil => exact Nat.zero_le room
  | cons entry rest ih =>
      rw [fitting]
      split_ifs with hfits
      · have hrest := ih (room - entry.size)
        rw [total_cons]
        omega
      · exact Nat.zero_le room

theorem fitting_of_total_le (h : total entries ≤ room) : fitting room entries = entries := by
  induction entries generalizing room with
  | nil => rfl
  | cons entry rest ih =>
      rw [total_cons] at h
      rw [fitting, if_pos (by omega), ih (by omega)]

/-- What there is no room for is taken from the end. -/
theorem fitting_dropLast (h : room < total entries) :
    fitting room entries.dropLast = fitting room entries := by
  induction entries generalizing room with
  | nil => exact absurd h (Nat.not_lt_zero _)
  | cons entry rest ih =>
      cases rest with
      | nil =>
          simp only [total_cons, total_nil, Nat.add_zero] at h
          rw [fitting, if_neg (by omega)]
          rfl
      | cons next rest =>
          rw [List.dropLast_cons_cons, fitting, fitting]
          split_ifs with hfits
          · rw [total_cons] at h
            rw [ih (by omega)]
          · rfl

/-- No more is dropped than has to be. -/
theorem lt_total_of_fitting_isPrefix (hmore : more <+: entries) (hlonger : fitting room entries <+: more)
    (hne : more ≠ fitting room entries) : room < total more := by
  induction entries generalizing room more with
  | nil => exact absurd (List.prefix_nil.mp hmore) hne
  | cons entry rest ih =>
      cases more with
      | nil => exact absurd (List.prefix_nil.mp hlonger).symm hne
      | cons first more =>
          obtain ⟨rfl, hrest⟩ := List.cons_prefix_cons.mp hmore
          rw [fitting] at hlonger hne
          rw [total_cons]
          by_cases hfits : first.size ≤ room
          · rw [if_pos hfits] at hlonger hne
            have hlt := ih hrest ((List.prefix_cons_inj first).mp hlonger) fun heq => hne (heq ▸ rfl)
            omega
          · omega

/-! ## Uses -/

variable [DecidableEq K] {key : K}

def others (key : K) (entries : List (Entry K V)) : List (Entry K V) :=
  entries.filter (·.key ≠ key)

/-- An entry that is used comes first. -/
def use (key : K) (entries : List (Entry K V)) : List (Entry K V) :=
  match entries.find? (·.key = key) with
  | none => entries
  | some entry => entry :: others key entries

/-- A new entry comes first, and those after it have the room that it leaves. -/
def put (budget : ℕ) (entry : Entry K V) (entries : List (Entry K V)) : List (Entry K V) :=
  if budget < entry.size then entries
  else entry :: fitting (budget - entry.size) (others entry.key entries)

section Unique

variable {α : Type*} {f : α → K} {xs : List α} {x : α}

/-- Where keys are unique, a filter takes one element out. -/
theorem perm_cons_filter (hkeys : (xs.map f).Nodup) (hx : x ∈ xs) :
    xs.Perm (x :: xs.filter (f · ≠ f x)) := by
  induction xs with
  | nil => nomatch hx
  | cons y ys ih =>
      obtain ⟨hy, hys⟩ := List.nodup_cons.mp hkeys
      rcases List.mem_cons.mp hx with rfl | hx
      · have hrest : ys.filter (f · ≠ f x) = ys := by
          apply List.filter_eq_self.mpr
          exact fun z hz => decide_eq_true fun heq => hy (heq ▸ List.mem_map_of_mem hz)
        rw [List.filter_cons_of_neg (by simp), hrest]
      · have hne : f y ≠ f x := fun heq => hy (heq ▸ List.mem_map_of_mem hx)
        rw [List.filter_cons_of_pos (by simpa using hne)]
        exact ((ih hys hx).cons y).trans (List.Perm.swap x y _)

theorem find?_eq_some_of_nodup (hkeys : (xs.map f).Nodup) (hx : x ∈ xs) :
    xs.find? (f · = f x) = some x := by
  induction xs with
  | nil => nomatch hx
  | cons y ys ih =>
      obtain ⟨hy, hys⟩ := List.nodup_cons.mp hkeys
      rcases List.mem_cons.mp hx with rfl | hx
      · exact List.find?_cons_of_pos (by simp)
      · have hne : f y ≠ f x := fun heq => hy (heq ▸ List.mem_map_of_mem hx)
        rw [List.find?_cons_of_neg (by simpa using hne)]
        exact ih hys hx

end Unique

theorem total_others (hkeys : (entries.map (·.key)).Nodup) (hentry : entry ∈ entries) :
    total entries = entry.size + total (others entry.key entries) :=
  (total_perm (perm_cons_filter hkeys hentry)).trans total_cons

theorem others_eq_self (h : ∀ entry ∈ entries, entry.key ≠ key) : others key entries = entries :=
  List.filter_eq_self.mpr fun entry hentry => decide_eq_true (h entry hentry)

theorem total_use (hkeys : (entries.map (·.key)).Nodup) (key : K) :
    total (use key entries) = total entries := by
  rw [use]
  cases hfind : entries.find? (·.key = key) with
  | none => rfl
  | some entry =>
      obtain rfl : entry.key = key := by simpa using List.find?_some hfind
      exact (total_others hkeys (List.mem_of_find?_eq_some hfind)).symm

theorem total_put_le {budget : ℕ} (h : total entries ≤ budget) :
    total (put budget entry entries) ≤ budget := by
  rw [put]
  split_ifs with hlarge
  · exact h
  · have hrest := total_fitting_le (budget - entry.size) (others entry.key entries)
    rw [total_cons]
    omega

end Rustrak.Caches
