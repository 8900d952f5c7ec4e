import Mathlib.Data.Finset.Basic

/-!
# Write-ahead logs

What was committed can be read at once, but it is in the log: a crash may take it.  A
checkpoint that completes puts in the database file what was committed when it
started; what was committed while it ran waits for the next one.

`Extends` says what everything but a crash keeps, `Outlives` what a crash keeps too.
-/

namespace Rustrak.Relational

/-- What was committed, and what of it is in the database file. -/
structure WriteAhead (K : Type*) where
  committed : Finset K
  durable : Finset K
  sub : durable ⊆ committed

namespace WriteAhead

variable {K : Type*}

def empty : WriteAhead K := ⟨∅, ∅, Finset.empty_subset _⟩

variable [DecidableEq K] (w : WriteAhead K)

/-- A commit to the log. -/
def commit (k : K) : WriteAhead K where
  committed := insert k w.committed
  durable := w.durable
  sub := w.sub.trans (Finset.subset_insert _ _)

/-- A commit that is on disk when it returns. -/
def commitDurably (k : K) : WriteAhead K where
  committed := insert k w.committed
  durable := insert k w.durable
  sub := Finset.insert_subset_insert _ w.sub

/-- A checkpoint completes that started when `started` was committed. -/
def checkpoint (started : Finset K) : WriteAhead K where
  committed := w.committed
  durable := w.durable ∪ (started ∩ w.committed)
  sub := Finset.union_subset w.sub Finset.inter_subset_right

/-- A crash, after which `survivors` is what could be read from the log. -/
def crash (survivors : Finset K) : WriteAhead K where
  committed := w.durable ∪ (survivors ∩ w.committed)
  durable := w.durable
  sub := Finset.subset_union_left

/-- What is durable stays durable. -/
def Outlives (w' : WriteAhead K) : Prop := w.durable ⊆ w'.durable

/-- And what is committed stays committed. -/
structure Extends (w' : WriteAhead K) : Prop where
  durable : w.durable ⊆ w'.durable
  committed : w.committed ⊆ w'.committed

variable {w} {w' : WriteAhead K}

omit [DecidableEq K] in
theorem Extends.refl (w : WriteAhead K) : w.Extends w :=
  ⟨Finset.Subset.refl _, Finset.Subset.refl _⟩

omit [DecidableEq K] in
theorem Extends.outlives (h : w.Extends w') : w.Outlives w' := h.durable

theorem extends_commit (w : WriteAhead K) (k : K) : w.Extends (w.commit k) :=
  ⟨Finset.Subset.refl _, Finset.subset_insert _ _⟩

theorem extends_commitDurably (w : WriteAhead K) (k : K) : w.Extends (w.commitDurably k) :=
  ⟨Finset.subset_insert _ _, Finset.subset_insert _ _⟩

theorem extends_checkpoint (w : WriteAhead K) (started : Finset K) :
    w.Extends (w.checkpoint started) :=
  ⟨Finset.subset_union_left, Finset.Subset.refl _⟩

/-- A checkpoint makes durable what was committed when it started and still is. -/
theorem durable_checkpoint {started : Finset K} {k : K} (hstarted : k ∈ started)
    (hcommitted : k ∈ w.committed) : k ∈ (w.checkpoint started).durable :=
  Finset.mem_union_right _ (Finset.mem_inter.mpr ⟨hstarted, hcommitted⟩)

end WriteAhead

end Rustrak.Relational
