import Mathlib.Algebra.Order.Ring.Int
import Mathlib.Data.List.Chain
import Mathlib.Data.List.Nodup
import Mathlib.Data.List.Perm.Basic
import Mathlib.Data.List.Sort
import Mathlib.Tactic.Linarith
import Mathlib.Tactic.Ring
import Rustrak.Relational.Table

/-!
# Buckets of one width

The integers are cut into buckets at the multiples of a width, and a grid is a run of them.  Rows
are spread over a grid by the bucket that each falls in (`foldl_put`).  A series that has a point
for some buckets only is filled with points for the others (`Filled`): it keeps its own points,
those that stand outside the grid with the rest, and is in order.
-/

namespace Rustrak.Series

/-! ## The grid -/

/-- The beginning of the bucket in which `t` falls. -/
def align (width t : ℤ) : ℤ := t / width * width

def stepsFrom (width : ℤ) : ℕ → ℤ → List ℤ
  | 0, _ => []
  | n + 1, start => start :: stepsFrom width n (start + width)

/-- From `first`, step by step, as long as `last` is not passed. -/
def steps (width first last : ℤ) : List ℤ :=
  stepsFrom width ((last - first) / width + 1).toNat first

variable {width first last t u b : ℤ}

theorem align_le (hwidth : 0 < width) : align width t ≤ t :=
  Int.ediv_mul_le t hwidth.ne'

theorem lt_align_add (hwidth : 0 < width) : t < align width t + width := by
  have hlt := Int.lt_ediv_add_one_mul_self t hwidth
  unfold align
  linarith

theorem dvd_align : width ∣ align width t := Int.dvd_mul_left _ _

theorem align_mono (hwidth : 0 < width) (h : t ≤ u) : align width t ≤ align width u :=
  Int.mul_le_mul_of_nonneg_right (Int.ediv_le_ediv hwidth h) hwidth.le

/-- A multiple of the width that a point has not passed by more than the width. -/
theorem align_eq (hwidth : 0 < width) (hdvd : width ∣ b) (hle : b ≤ t) (hlt : t < b + width) :
    align width t = b := by
  obtain ⟨k, rfl⟩ := hdvd
  have hquot : t / width = k := by
    apply le_antisymm
    · apply Int.lt_add_one_iff.mp
      apply Int.ediv_lt_of_lt_mul hwidth
      linarith
    · apply Int.le_ediv_of_mul_le hwidth
      linarith
  rw [align, hquot, mul_comm]

theorem align_le_of_lt (hwidth : 0 < width) (hdvd : width ∣ b) (hlt : t < b + width) :
    align width t ≤ b := by
  have hlast : align width (b + width - 1) = b :=
    align_eq hwidth hdvd (by linarith) (by linarith)
  have hmono := @align_mono _ t (b + width - 1) hwidth (by linarith)
  linarith

theorem le_align (hwidth : 0 < width) (hdvd : width ∣ b) (hle : b ≤ t) : b ≤ align width t := by
  obtain ⟨k, rfl⟩ := hdvd
  rw [align, mul_comm]
  apply Int.mul_le_mul_of_nonneg_right ?_ hwidth.le
  apply Int.le_ediv_of_mul_le hwidth
  linarith

/-- One turn of the loop. -/
theorem steps_of_le (hwidth : 0 < width) (h : first ≤ last) :
    steps width first last = first :: steps width (first + width) last := by
  have hquot : (last - first) / width = (last - (first + width)) / width + 1 := by
    rw [← Int.add_mul_ediv_right _ _ hwidth.ne']
    congr 1
    ring
  have hnonneg : 0 ≤ (last - first) / width := Int.ediv_nonneg (by linarith) hwidth.le
  have hcount : ((last - first) / width + 1).toNat =
      ((last - (first + width)) / width + 1).toNat + 1 := by omega
  rw [steps, hcount, stepsFrom, steps]

theorem steps_of_lt (hwidth : 0 < width) (h : last < first) : steps width first last = [] := by
  have hneg : (last - first) / width < 0 := Int.ediv_neg_of_neg_of_pos (by linarith) hwidth
  have hcount : ((last - first) / width + 1).toNat = 0 := by omega
  rw [steps, hcount, stepsFrom]

theorem mem_stepsFrom {n : ℕ} :
    b ∈ stepsFrom width n first ↔ ∃ k : ℕ, k < n ∧ b = first + k * width := by
  induction n generalizing first with
  | zero => simp [stepsFrom]
  | succ n ih =>
      rw [stepsFrom, List.mem_cons, ih]
      constructor
      · rintro (rfl | ⟨k, hk, rfl⟩)
        · exact ⟨0, by omega, by simp⟩
        · refine ⟨k + 1, by omega, ?_⟩
          push_cast
          ring
      · rintro ⟨k, hk, rfl⟩
        cases k with
        | zero =>
            left
            simp
        | succ k =>
            right
            refine ⟨k, by omega, ?_⟩
            push_cast
            ring

theorem mem_steps (hwidth : 0 < width) :
    b ∈ steps width first last ↔ width ∣ b - first ∧ first ≤ b ∧ b ≤ last := by
  rw [steps, mem_stepsFrom]
  constructor
  · rintro ⟨k, hk, rfl⟩
    have hk' : (k : ℤ) ≤ (last - first) / width := by omega
    have hmul := Int.mul_le_of_le_ediv hwidth hk'
    have hnonneg : 0 ≤ (k : ℤ) * width := mul_nonneg (by omega) hwidth.le
    exact ⟨⟨k, by ring⟩, by linarith, by linarith⟩
  · rintro ⟨⟨k, hk⟩, hfirst, hlast⟩
    have hk0 : 0 ≤ k := by
      by_contra hneg
      have hlt := mul_neg_of_pos_of_neg hwidth (not_le.mp hneg)
      linarith
    have hle : k ≤ (last - first) / width := by
      apply Int.le_ediv_of_mul_le hwidth
      linarith
    refine ⟨k.toNat, by omega, ?_⟩
    rw [Int.toNat_of_nonneg hk0]
    linarith

/-- The buckets of a grid. -/
theorem mem_grid (hwidth : 0 < width) : b ∈ steps width (align width t) (align width u) ↔
    width ∣ b ∧ align width t ≤ b ∧ b ≤ u := by
  rw [mem_steps hwidth]
  constructor
  · rintro ⟨hdvd, hle, hge⟩
    refine ⟨?_, hle, hge.trans (align_le hwidth)⟩
    have hsum := Int.dvd_add hdvd (dvd_align : width ∣ align width t)
    rwa [Int.sub_add_cancel] at hsum
  · rintro ⟨hdvd, hle, hge⟩
    exact ⟨Int.dvd_sub hdvd dvd_align, hle, le_align hwidth hdvd hge⟩

/-- What falls between two points falls in a bucket of their grid. -/
theorem align_mem_grid (hwidth : 0 < width) {s : ℤ} (hle : t ≤ s) (hge : s ≤ u) :
    align width s ∈ steps width (align width t) (align width u) :=
  (mem_grid hwidth).mpr ⟨dvd_align, align_mono hwidth hle, (align_le hwidth).trans hge⟩

theorem isChain_stepsFrom (n : ℕ) : (stepsFrom width n first).IsChain fun a c => c = a + width := by
  induction n generalizing first with
  | zero => exact .nil
  | succ n ih =>
      cases n with
      | zero => exact .singleton _
      | succ n => exact .cons_cons rfl ih

/-- A grid has no gaps. -/
theorem isChain_steps : (steps width first last).IsChain fun a c => c = a + width :=
  isChain_stepsFrom _

theorem pairwise_stepsFrom (hwidth : 0 < width) (n : ℕ) :
    (stepsFrom width n first).Pairwise (· < ·) := by
  induction n generalizing first with
  | zero => exact .nil
  | succ n ih =>
      refine .cons (fun c hc => ?_) ih
      obtain ⟨k, -, rfl⟩ := mem_stepsFrom.mp hc
      have hnonneg : 0 ≤ (k : ℤ) * width := mul_nonneg (by omega) hwidth.le
      linarith

theorem pairwise_steps (hwidth : 0 < width) : (steps width first last).Pairwise (· < ·) :=
  pairwise_stepsFrom hwidth _

/-! ## Rows spread over buckets -/

section Spread

variable {Row V : Type*} (bucketOf : Row → ℤ) (add : V → Row → V)

/-- The row is added to the value of its bucket, where there is one. -/
def put (buckets : List (ℤ × V)) (row : Row) : List (ℤ × V) :=
  buckets.map fun entry =>
    if entry.1 = bucketOf row then (entry.1, add entry.2 row) else entry

/-- Every bucket takes its own rows, in their order. -/
theorem foldl_put (rows : List Row) (buckets : List (ℤ × V)) :
    rows.foldl (put bucketOf add) buckets = buckets.map fun entry =>
      (entry.1, (rows.filter fun row => decide (bucketOf row = entry.1)).foldl add entry.2) := by
  induction rows generalizing buckets with
  | nil => simp
  | cons row rows ih =>
      rw [List.foldl_cons, ih, put, List.map_map]
      apply List.map_congr_left
      rintro ⟨b, v⟩ -
      by_cases hb : b = bucketOf row
      · simp [hb]
      · simp [hb, Ne.symm hb]

end Spread

/-! ## A series filled up -/

section Filling

open Rustrak.Relational

variable {P T : Type*} (key : P → ℤ)

/-- A map of the points by their keys: of two with one key the later stays. -/
def collect (points : List P) : List P :=
  points.foldl (fun found p => p :: found.filter fun q => key q ≠ key p) []

/-- The points of a grid in their order, each taken from those that are left or made up, and what
is left after them. -/
def fillFrom (zero : ℤ → P) : List ℤ → List P → List P × List P
  | [], left => ([], left)
  | b :: grid, left =>
      let rest := fillFrom zero grid (left.filter fun p => key p ≠ b)
      ((lookup key b left).getD (zero b) :: rest.1, rest.2)

variable {key} {zero : ℤ → P} {points series : List P} {grid : List ℤ}

/-- Points of different keys are all kept. -/
theorem collect_perm (hnodup : (points.map key).Nodup) : (collect key points).Perm points := by
  have hrun : ∀ points found : List P, ((found ++ points).map key).Nodup →
      (points.foldl (fun found p => p :: found.filter fun q => key q ≠ key p) found).Perm
        (found ++ points) := by
    intro points
    induction points with
    | nil => exact fun found _ => by simp
    | cons p points ih =>
        intro found hnodup
        have hmiddle : (found ++ p :: points).Perm ((p :: found) ++ points) := List.perm_middle
        have hfound : (found.filter fun q => key q ≠ key p) = found := by
          apply List.filter_eq_self.mpr
          intro q hq
          have hne := (List.nodup_cons.mp ((hmiddle.map key).nodup_iff.mp hnodup)).1
          simp only [ne_eq, decide_eq_true_eq]
          rintro heq
          exact hne (heq ▸ List.mem_map_of_mem (List.mem_append_left _ hq))
        rw [List.foldl_cons, hfound]
        exact (ih _ ((hmiddle.map key).nodup_iff.mp hnodup)).trans hmiddle.symm
  exact hrun points [] hnodup

theorem fillFrom_eq (hgrid : grid.Nodup) (left : List P) : fillFrom key zero grid left =
    (grid.map fun b => (lookup key b left).getD (zero b),
      left.filter fun p => !grid.contains (key p)) := by
  induction grid generalizing left with
  | nil => simp [fillFrom]
  | cons b grid ih =>
      obtain ⟨hb, hgrid⟩ := List.nodup_cons.mp hgrid
      rw [fillFrom, ih hgrid]
      apply Prod.ext
      · dsimp only
        rw [List.map_cons]
        congr 1
        apply List.map_congr_left
        intro c hc
        rw [lookup_filter_key (fun k => decide (k ≠ b)), if_pos]
        simp only [ne_eq, decide_eq_true_eq]
        rintro rfl
        exact hb hc
      · dsimp only
        rw [List.filter_filter]
        apply List.filter_congr
        intro p _
        simp only [List.contains_cons]
        by_cases hp : key p = b <;> simp [hp]

/-- The points of the grid have its keys. -/
theorem map_key_fillFrom (hzero : ∀ b ∈ grid, key (zero b) = b) (hgrid : grid.Nodup)
    (left : List P) : (fillFrom key zero grid left).1.map key = grid := by
  rw [fillFrom_eq hgrid, List.map_map]
  refine (List.map_congr_left fun b hb => ?_).trans (List.map_id _)
  dsimp only [Function.comp]
  cases hfound : lookup key b left with
  | none => exact hzero b hb
  | some p => exact key_of_lookup hfound

/-- A series of points of different keys: its own points and one for every other key of the grid. -/
structure Filled (key : P → ℤ) (zero : ℤ → P) (grid : List ℤ) (points series : List P) : Prop where
  nodup : (series.map key).Nodup
  keeps : ∀ p ∈ points, p ∈ series
  covers : ∀ b ∈ grid, b ∈ series.map key
  adds : ∀ p ∈ series, p ∈ points ∨ ∃ b ∈ grid, b ∉ points.map key ∧ p = zero b

/-- The grid filled up from the points, and what is left of them, in any order. -/
theorem filled_of_perm (hzero : ∀ b ∈ grid, key (zero b) = b) (hgrid : grid.Nodup)
    (hnodup : (points.map key).Nodup)
    (hperm : series.Perm ((fillFrom key zero grid (collect key points)).1 ++
      (fillFrom key zero grid (collect key points)).2)) :
    Filled key zero grid points series := by
  have hcollect := collect_perm hnodup
  have hown := map_key_fillFrom hzero hgrid (collect key points)
  rw [fillFrom_eq hgrid] at hperm hown
  dsimp only at hperm hown
  refine ⟨(hperm.map key).nodup_iff.mpr ?_, fun p hp => hperm.mem_iff.mpr ?_, fun b hb => ?_,
    fun p hp => ?_⟩
  · have hleft : (((collect key points).filter fun p => !grid.contains (key p)).map key).Nodup :=
      ((hcollect.map key).nodup_iff.mpr hnodup).sublist (List.filter_sublist.map key)
    rw [List.map_append, hown]
    refine List.nodup_append.mpr ⟨hgrid, hleft, ?_⟩
    rintro b hb _ hc rfl
    obtain ⟨p, hp, rfl⟩ := List.mem_map.mp hc
    simp only [List.mem_filter, Bool.not_eq_true', List.contains_eq_mem,
      decide_eq_false_iff_not] at hp
    exact hp.2 hb
  · have hp' := hcollect.mem_iff.mpr hp
    by_cases hin : key p ∈ grid
    · apply List.mem_append_left
      refine List.mem_map.mpr ⟨key p, hin, ?_⟩
      rw [lookup_of_mem ((hcollect.map key).nodup_iff.mpr hnodup) hp']
      rfl
    · apply List.mem_append_right
      exact List.mem_filter.mpr ⟨hp', by simpa using hin⟩
  · apply (hperm.map key).mem_iff.mpr
    rw [List.map_append, hown]
    exact List.mem_append_left _ hb
  · cases List.mem_append.mp (hperm.mem_iff.mp hp) with
    | inl hp =>
        obtain ⟨b, hb, rfl⟩ := List.mem_map.mp hp
        cases hfound : lookup key b (collect key points) with
        | none =>
            right
            refine ⟨b, hb, fun hkey => ?_, rfl⟩
            obtain ⟨q, hq, rfl⟩ := List.mem_map.mp hkey
            exact lookup_eq_none_iff.mp hfound q (hcollect.mem_iff.mpr hq) rfl
        | some p =>
            left
            exact hcollect.mem_iff.mp (mem_of_lookup hfound)
    | inr hp =>
        left
        exact hcollect.mem_iff.mp (List.mem_of_mem_filter hp)

end Filling

end Rustrak.Series
