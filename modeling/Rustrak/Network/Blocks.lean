import Mathlib.Data.Nat.Bitwise

/-!
# Blocks of addresses

A block is the numbers that agree in all but their last `free` bits, as a network is written
by its first address and a length.  Two blocks are nested or apart, so which of several lists
of blocks an address is in is settled on the lists alone (`refuses_iff`).
-/

namespace Rustrak.Network

/-- The numbers `high · 2^free`, …, `high · 2^free + 2^free - 1`. -/
structure Block where
  high : ℕ
  free : ℕ
  deriving DecidableEq, Repr

namespace Block

def Contains (b : Block) (x : ℕ) : Prop := x / 2 ^ b.free = b.high

instance (b : Block) (x : ℕ) : Decidable (b.Contains x) :=
  inferInstanceAs (Decidable (_ = _))

/-- Every number of `c` is one of `b`. -/
def Covers (b c : Block) : Prop :=
  c.free ≤ b.free ∧ c.high / 2 ^ (b.free - c.free) = b.high

instance (b c : Block) : Decidable (b.Covers c) :=
  inferInstanceAs (Decidable (_ ∧ _))

/-- Neither block covers the other. -/
def Apart (b c : Block) : Prop := ¬b.Covers c ∧ ¬c.Covers b

instance (b c : Block) : Decidable (b.Apart c) :=
  inferInstanceAs (Decidable (_ ∧ _))

variable {b c : Block} {x : ℕ}

/-- Of two blocks of a number, the larger covers the other. -/
theorem Contains.covers (hb : b.Contains x) (hc : c.Contains x) (hfree : c.free ≤ b.free) :
    b.Covers c := by
  refine ⟨hfree, ?_⟩
  unfold Contains at hb hc
  rw [← hc, Nat.div_div_eq_div_mul, ← Nat.pow_add, Nat.add_sub_cancel' hfree, hb]

theorem Covers.contains (h : b.Covers c) (hx : c.Contains x) : b.Contains x := by
  unfold Contains at hx ⊢
  rw [← h.2, ← hx, Nat.div_div_eq_div_mul, ← Nat.pow_add, Nat.add_sub_cancel' h.1]

theorem Apart.not_contains (h : b.Apart c) (hb : b.Contains x) : ¬c.Contains x := by
  intro hc
  rcases Nat.le_total b.free c.free with hfree | hfree
  · exact h.2 (hc.covers hb hfree)
  · exact h.1 (hb.covers hc hfree)

end Block

/-- A number is in one of the blocks. -/
def InBlocks (blocks : List Block) (x : ℕ) : Prop := ∃ b ∈ blocks, b.Contains x

instance (blocks : List Block) (x : ℕ) : Decidable (InBlocks blocks x) :=
  inferInstanceAs (Decidable (∃ b ∈ blocks, b.Contains x))

@[simp] theorem inBlocks_nil {x : ℕ} : ¬InBlocks [] x := by
  simp [InBlocks]

@[simp] theorem inBlocks_cons {b : Block} {blocks : List Block} {x : ℕ} :
    InBlocks (b :: blocks) x ↔ b.Contains x ∨ InBlocks blocks x := by
  simp [InBlocks]

/-- In a block of the list, and in none of the finer blocks taken out of it. -/
def InBlocksBut (blocks out : List Block) (x : ℕ) : Prop :=
  InBlocks blocks x ∧ ¬InBlocks out x

/-- The gaps of a list of blocks: what it lacks of `listed` are the blocks of `gaps`, which
it touches only in what is taken out. -/
structure Gaps (refused listed gaps out : List Block) : Prop where
  rest : ∀ b ∈ listed, (∃ r ∈ refused, r.Covers b) ∨ b ∈ gaps
  listed : ∀ g ∈ gaps, g ∈ listed
  apart : ∀ g ∈ gaps, ∀ r ∈ refused, r.Apart g ∨ ∃ o ∈ out, o.Covers r

/-- What is refused covers what is listed, except in the gaps. -/
theorem Gaps.refuses_iff {refused listed gaps out : List Block}
    (h : Gaps refused listed gaps out) (x : ℕ) :
    (¬InBlocks refused x → ¬InBlocksBut listed out x) ↔ ¬InBlocksBut gaps out x := by
  constructor
  · rintro himp ⟨⟨g, hg, hgx⟩, hout⟩
    refine himp ?_ ⟨⟨g, h.listed g hg, hgx⟩, hout⟩
    rintro ⟨r, hr, hrx⟩
    rcases h.apart g hg r hr with hapart | ⟨o, ho, hcovers⟩
    · exact hapart.not_contains hrx hgx
    · exact hout ⟨o, ho, hcovers.contains hrx⟩
  · rintro hgaps hrefused ⟨⟨b, hb, hbx⟩, hout⟩
    rcases h.rest b hb with ⟨r, hr, hcovers⟩ | hgap
    · exact hrefused ⟨r, hr, hcovers.contains hbx⟩
    · exact hgaps ⟨⟨b, hgap, hbx⟩, hout⟩

/-- Masking out the last `k` bits of a number of `k + n`. -/
theorem and_highMask (x k n : ℕ) :
    x &&& (2 ^ n - 1) * 2 ^ k = x / 2 ^ k % 2 ^ n * 2 ^ k := by
  apply Nat.eq_of_testBit_eq
  intro i
  rw [Nat.testBit_and, Nat.testBit_mul_two_pow, Nat.testBit_mul_two_pow, Nat.testBit_mod_two_pow,
    Nat.testBit_two_pow_sub_one, Nat.testBit_div_two_pow]
  by_cases hi : k ≤ i
  · simp [hi, Nat.sub_add_cancel hi, Bool.and_comm]
  · simp [hi]

end Rustrak.Network
