import Mathlib.Algebra.Order.Ring.Int
import Mathlib.Data.List.Infix
import Mathlib.Order.Lattice
import Mathlib.Tactic.Common

/-!
# Spending a budget on a list

A loop over a list visits each entry with what is left of a budget.  A visit answers what
becomes of the entry and what it leaves, then the entry's fee is taken, and the first entry
that finds nothing left ends the list.  Subtraction stops at zero throughout.

The rules speak of an entry by what a visit with room for it does: `full` is what it then
becomes and `charge` what it then takes.  `Metered` says that nothing else can leave the loop
with a budget to go on with.
-/

namespace Rustrak.Budget

variable {Entry : Type*}

/-- Visits the entries in turn until one finds nothing left. -/
def spend (visit : Entry → Nat → Entry × Nat) (fee : Entry → Nat) :
    List Entry → Nat → List Entry × Nat
  | [], budget => ([], budget)
  | a :: rest, budget =>
      if budget = 0 then ([], 0) else
        let (a', left) := visit a budget
        let (rest', left') := spend visit fee rest (left - fee a)
        (a' :: rest', left')

/-- What the entries take when there is room for all of them. -/
def total (charge fee : Entry → Nat) (entries : List Entry) : Nat :=
  (entries.map fun a => charge a + fee a).sum

/-- A visit with room for the entry takes its charge; one without leaves no more than the
fee. -/
def Metered (visit : Entry → Nat → Entry × Nat) (fee : Entry → Nat) (full : Entry → Entry)
    (charge : Entry → Nat) (a : Entry) : Prop :=
  ∀ budget, (charge a + fee a < budget → visit a budget = (full a, budget - charge a)) ∧
    (budget ≤ charge a + fee a → (visit a budget).2 ≤ fee a)

section Rules

variable {visit : Entry → Nat → Entry × Nat} {fee : Entry → Nat} {full : Entry → Entry}
  {charge : Entry → Nat} {a : Entry} {entries rest : List Entry} {budget : Nat}

@[simp] theorem spend_nil : spend visit fee [] budget = ([], budget) := rfl

@[simp] theorem spend_zero : spend visit fee entries 0 = ([], 0) := by
  cases entries <;> rfl

theorem spend_cons (h : 0 < budget) :
    spend visit fee (a :: rest) budget =
      ((visit a budget).1 :: (spend visit fee rest ((visit a budget).2 - fee a)).1,
        (spend visit fee rest ((visit a budget).2 - fee a)).2) := by
  rw [spend, if_neg (Nat.pos_iff_ne_zero.mp h)]

@[simp] theorem total_nil : total charge fee [] = 0 := rfl

@[simp] theorem total_cons :
    total charge fee (a :: rest) = charge a + fee a + total charge fee rest := rfl

theorem spend_ne_nil (hentries : entries ≠ []) (h : 0 < budget) :
    (spend visit fee entries budget).1 ≠ [] := by
  cases entries with
  | nil => exact absurd rfl hentries
  | cons a rest =>
      rw [spend_cons h]
      exact List.cons_ne_nil _ _

/-- With room to spare, every entry is visited in full. -/
theorem spend_of_lt (hmetered : ∀ a ∈ entries, Metered visit fee full charge a)
    (h : total charge fee entries < budget) :
    spend visit fee entries budget = (entries.map full, budget - total charge fee entries) := by
  induction entries generalizing budget with
  | nil => rfl
  | cons a rest ih =>
      rw [total_cons] at h
      have hvisit := (hmetered a (List.mem_cons_self ..) budget).1 (by omega)
      have hrest := ih (fun b hb => hmetered b (List.mem_cons_of_mem _ hb))
        (show total charge fee rest < budget - charge a - fee a by omega)
      rw [spend_cons (by omega), hvisit, hrest, List.map_cons, total_cons]
      congr 1
      omega

/-- Without, nothing is left. -/
theorem spend_of_le (hmetered : ∀ a ∈ entries, Metered visit fee full charge a)
    (h : budget ≤ total charge fee entries) : (spend visit fee entries budget).2 = 0 := by
  induction entries generalizing budget with
  | nil => exact Nat.le_zero.mp h
  | cons a rest ih =>
      have hmetered' := fun b hb => hmetered b (List.mem_cons_of_mem a hb)
      rcases Nat.eq_zero_or_pos budget with rfl | hpos
      · rw [spend_zero]
      rw [spend_cons hpos]
      have ha := hmetered a (List.mem_cons_self ..) budget
      by_cases hroom : charge a + fee a < budget
      · rw [ha.1 hroom]
        rw [total_cons] at h
        exact ih hmetered' (by omega)
      · rw [Nat.sub_eq_zero_of_le (ha.2 (Nat.le_of_not_lt hroom)), spend_zero]

/-- No more entries are kept than there are. -/
theorem length_spend_le : (spend visit fee entries budget).1.length ≤ entries.length := by
  induction entries generalizing budget with
  | nil => exact le_rfl
  | cons a rest ih =>
      rcases Nat.eq_zero_or_pos budget with rfl | hpos
      · rw [spend_zero]
        exact Nat.zero_le _
      · rw [spend_cons hpos]
        exact Nat.succ_le_succ ih

/-- What a visit makes of an entry holds of the entry and what is kept of it. -/
theorem forall_mem_zip_spend (R : Entry → Entry → Prop)
    (hvisit : ∀ a ∈ entries, ∀ left, R a (visit a left).1) :
    ∀ pair ∈ entries.zip (spend visit fee entries budget).1, R pair.1 pair.2 := by
  induction entries generalizing budget with
  | nil => exact fun pair hpair => absurd hpair List.not_mem_nil
  | cons a rest ih =>
      rcases Nat.eq_zero_or_pos budget with rfl | hpos
      · rw [spend_zero, List.zip_nil_right]
        exact fun pair hpair => absurd hpair List.not_mem_nil
      · rw [spend_cons hpos, List.zip_cons_cons, List.forall_mem_cons]
        exact ⟨hvisit a (List.mem_cons_self ..) budget,
          ih fun b hb => hvisit b (List.mem_cons_of_mem _ hb)⟩

theorem mem_spend {a' : Entry} (h : a' ∈ (spend visit fee entries budget).1) :
    ∃ a ∈ entries, ∃ left, a' = (visit a left).1 := by
  induction entries generalizing budget with
  | nil => exact absurd h List.not_mem_nil
  | cons a rest ih =>
      rcases Nat.eq_zero_or_pos budget with rfl | hpos
      · rw [spend_zero] at h
        exact absurd h List.not_mem_nil
      rw [spend_cons hpos] at h
      rcases List.mem_cons.mp h with rfl | hrest
      · exact ⟨a, List.mem_cons_self .., budget, rfl⟩
      · obtain ⟨b, hb, left, hleft⟩ := ih hrest
        exact ⟨b, List.mem_cons_of_mem _ hb, left, hleft⟩

/-- What no visit changes is kept of the first entries. -/
theorem map_spend_isPrefix {Key : Type*} {key : Entry → Key}
    (hkey : ∀ a left, key (visit a left).1 = key a) :
    (spend visit fee entries budget).1.map key <+: entries.map key := by
  induction entries generalizing budget with
  | nil => exact List.prefix_rfl
  | cons a rest ih =>
      rcases Nat.eq_zero_or_pos budget with rfl | hpos
      · rw [spend_zero]
        exact List.nil_prefix
      · rw [spend_cons hpos, List.map_cons, List.map_cons, hkey]
        exact (List.prefix_cons_inj _).mpr ih

/-- When a second visit with the same budget changes nothing, nor does a second run. -/
theorem spend_spend
    (hvisit : ∀ a ∈ entries, ∀ left, visit (visit a left).1 left = visit a left)
    (hfee : ∀ a left, fee (visit a left).1 = fee a) :
    spend visit fee (spend visit fee entries budget).1 budget =
      spend visit fee entries budget := by
  induction entries generalizing budget with
  | nil => rfl
  | cons a rest ih =>
      rcases Nat.eq_zero_or_pos budget with rfl | hpos
      · rw [spend_zero, spend_zero]
      have ha := hvisit a (List.mem_cons_self ..) budget
      have hrest := @ih ((visit a budget).2 - fee a)
        fun b hb => hvisit b (List.mem_cons_of_mem _ hb)
      rw [spend_cons hpos, spend_cons hpos, ha, hfee, hrest]

end Rules

/-! ### The least budget that changes nothing -/

/-- Each entry but the first needs what is taken before it, and each needs one to be visited
at all. -/
def need (charge fee own : Entry → Nat) : List Entry → Nat
  | [] => 0
  | [a] => max 1 (own a)
  | a :: b :: rest => max (max 1 (own a)) (charge a + fee a + need charge fee own (b :: rest))

section Need

variable {visit : Entry → Nat → Entry × Nat} {fee charge own : Entry → Nat}
  {full : Entry → Entry} {ok : Entry → Prop} {entries : List Entry} {budget : Nat}

theorem need_singleton {a : Entry} : need charge fee own [a] = max 1 (own a) := rfl

theorem need_cons_cons {a b : Entry} {rest : List Entry} :
    need charge fee own (a :: b :: rest) =
      max (max 1 (own a)) (charge a + fee a + need charge fee own (b :: rest)) := rfl

theorem need_pos (charge fee own : Entry → Nat) (a : Entry) (rest : List Entry) :
    0 < need charge fee own (a :: rest) := by
  cases rest with
  | nil => exact Nat.lt_of_lt_of_le Nat.one_pos (Nat.le_max_left ..)
  | cons b rest =>
      exact Nat.lt_of_lt_of_le Nat.one_pos ((Nat.le_max_left ..).trans (Nat.le_max_left ..))

theorem need_cons_le {a : Entry} {rest : List Entry} :
    need charge fee own (a :: rest) ≤ budget ↔
      0 < budget ∧ own a ≤ budget ∧
        (rest ≠ [] → charge a + fee a + need charge fee own rest ≤ budget) := by
  cases rest with
  | nil =>
      rw [need_singleton]
      constructor
      · intro h
        exact ⟨by omega, by omega, fun hne => absurd rfl hne⟩
      · rintro ⟨hpos, hown, -⟩
        omega
  | cons b rest =>
      rw [need_cons_cons]
      constructor
      · intro h
        exact ⟨by omega, by omega, fun _ => by omega⟩
      · rintro ⟨hpos, hown, hrest⟩
        have := hrest (List.cons_ne_nil _ _)
        omega

/-- A run changes nothing exactly when every entry may stay and the budget is no less than
the need. -/
theorem spend_eq_self_iff (hmetered : ∀ a ∈ entries, Metered visit fee full charge a)
    (hvisit : ∀ a ∈ entries, ∀ left, 0 < left → ((visit a left).1 = a ↔ ok a ∧ own a ≤ left)) :
    (spend visit fee entries budget).1 = entries ↔
      (∀ a ∈ entries, ok a) ∧ need charge fee own entries ≤ budget := by
  induction entries generalizing budget with
  | nil => exact ⟨fun _ => ⟨fun a ha => absurd ha List.not_mem_nil, Nat.zero_le _⟩, fun _ => rfl⟩
  | cons a rest ih =>
      rw [need_cons_le, List.forall_mem_cons]
      rcases Nat.eq_zero_or_pos budget with rfl | hpos
      · rw [spend_zero]
        exact ⟨fun h => absurd h.symm (List.cons_ne_nil _ _), fun h => absurd h.2.1 (by omega)⟩
      have hmetered' := fun b hb => hmetered b (List.mem_cons_of_mem a hb)
      have hvisit' := fun b hb => hvisit b (List.mem_cons_of_mem a hb)
      have ha := hmetered a (List.mem_cons_self ..) budget
      rw [spend_cons hpos, List.cons.injEq, hvisit a (List.mem_cons_self ..) budget hpos]
      by_cases hroom : charge a + fee a < budget
      · have hleft : (visit a budget).2 - fee a = budget - charge a - fee a := by
          rw [ha.1 hroom]
        rw [hleft, ih hmetered' hvisit']
        constructor
        · rintro ⟨⟨hok, hown⟩, hoks, hneed⟩
          exact ⟨⟨hok, hoks⟩, hpos, hown, fun _ => by omega⟩
        · rintro ⟨⟨hok, hoks⟩, -, hown, hneed⟩
          refine ⟨⟨hok, hown⟩, hoks, ?_⟩
          cases rest with
          | nil => exact Nat.zero_le _
          | cons b rest =>
              have := hneed (List.cons_ne_nil _ _)
              omega
      · -- Nothing is left for the other entries, so there may be none.
        rw [Nat.sub_eq_zero_of_le (ha.2 (Nat.le_of_not_lt hroom)), spend_zero]
        constructor
        · rintro ⟨⟨hok, hown⟩, rfl⟩
          exact ⟨⟨hok, fun b hb => absurd hb List.not_mem_nil⟩, hpos, hown,
            fun hne => absurd rfl hne⟩
        · rintro ⟨⟨hok, -⟩, -, hown, hneed⟩
          refine ⟨⟨hok, hown⟩, ?_⟩
          cases rest with
          | nil => rfl
          | cons b rest =>
              have hle := hneed (List.cons_ne_nil _ _)
              have hpos' := need_pos charge fee own b rest
              omega

end Need

/-! ### By how much the result may exceed the budget -/

/-- The size of the entries with one separator between each two. -/
def width (size : Entry → Nat) (entries : List Entry) : Nat :=
  (entries.map size).sum + (entries.length - 1)

/-- The most by which the entries visited exceed the budget, when `top` is that of one entry
that is visited last and `net` what one before it adds to it. -/
def overrun (net top : Entry → Int) : List Entry → Int
  | [] => 0
  | [a] => top a
  | a :: b :: rest => max (top a) (net a + overrun net top (b :: rest))

section Overrun

variable {visit : Entry → Nat → Entry × Nat} {fee charge size : Entry → Nat}
  {full : Entry → Entry} {net top : Entry → Int} {a : Entry} {entries rest : List Entry}
  {budget : Nat}

@[simp] theorem width_nil : width size [] = 0 := rfl

@[simp] theorem width_singleton : width size [a] = size a := by simp [width]

theorem overrun_singleton : overrun net top [a] = top a := rfl

theorem overrun_cons_cons {b : Entry} :
    overrun net top (a :: b :: rest) = max (top a) (net a + overrun net top (b :: rest)) := rfl

theorem width_cons (h : rest ≠ []) : width size (a :: rest) = size a + 1 + width size rest := by
  have hlength : 0 < rest.length := List.length_pos_iff.mpr h
  simp only [width, List.map_cons, List.sum_cons, List.length_cons]
  omega

/-- The entries visited in full, when each exceeds what it takes by its net. -/
theorem width_full (hnet : ∀ a ∈ entries, (size (full a) : Int) + 1 = charge a + fee a + net a)
    (h : entries ≠ []) :
    (width size (entries.map full) : Int) + 1 =
      total charge fee entries + (entries.map net).sum := by
  induction entries with
  | nil => exact absurd rfl h
  | cons a rest ih =>
      have ha := hnet a (List.mem_cons_self ..)
      cases rest with
      | nil =>
          simp only [List.map_cons, List.map_nil, width_singleton, total_cons, total_nil,
            List.sum_cons, List.sum_nil]
          omega
      | cons b rest =>
          have hrest := ih (fun c hc => hnet c (List.mem_cons_of_mem _ hc))
            (List.cons_ne_nil _ _)
          rw [List.map_cons, width_cons (by rw [List.map_cons]; exact List.cons_ne_nil _ _),
            total_cons, List.map_cons (f := net), List.sum_cons]
          omega

/-- No run exceeds its budget by more than the overrun. -/
theorem width_spend_le (hmetered : ∀ a ∈ entries, Metered visit fee full charge a)
    (hnet : ∀ a ∈ entries, (size (full a) : Int) + 1 = charge a + fee a + net a)
    (htop : ∀ a ∈ entries, ∀ left, 0 < left → (size (visit a left).1 : Int) ≤ left + top a)
    (h : entries ≠ []) (hpos : 0 < budget) :
    (width size (spend visit fee entries budget).1 : Int) ≤ budget + overrun net top entries := by
  induction entries generalizing budget with
  | nil => exact absurd rfl h
  | cons a rest ih =>
      have ha := hmetered a (List.mem_cons_self ..) budget
      have hlast := htop a (List.mem_cons_self ..) budget hpos
      rw [spend_cons hpos]
      cases rest with
      | nil =>
          rw [spend_nil, width_singleton, overrun_singleton]
          exact hlast
      | cons b rest =>
          rw [overrun_cons_cons]
          by_cases hroom : charge a + fee a < budget
          · -- The entry is visited in full, so the others have what it leaves.
            have hrest := @ih (budget - charge a - fee a)
              (fun c hc => hmetered c (List.mem_cons_of_mem _ hc))
              (fun c hc => hnet c (List.mem_cons_of_mem _ hc))
              (fun c hc => htop c (List.mem_cons_of_mem _ hc)) (List.cons_ne_nil _ _) (by omega)
            have hsize := hnet a (List.mem_cons_self ..)
            rw [ha.1 hroom]
            dsimp only
            rw [width_cons (spend_ne_nil (List.cons_ne_nil _ _) (by omega))]
            omega
          · rw [Nat.sub_eq_zero_of_le (ha.2 (Nat.le_of_not_lt hroom)), spend_zero,
              width_singleton]
            omega

/-- A run that keeps the first entry is at least as wide as the entry. -/
theorem le_width_spend (hpos : 0 < budget) :
    size (visit a budget).1 ≤ width size (spend visit fee (a :: rest) budget).1 := by
  rw [spend_cons hpos, width, List.map_cons, List.sum_cons]
  omega

/-- Some run exceeds its budget by as much as the overrun. -/
theorem exists_le_width_spend (hmetered : ∀ a ∈ entries, Metered visit fee full charge a)
    (hnet : ∀ a ∈ entries, (size (full a) : Int) + 1 = charge a + fee a + net a)
    (htop : ∀ a ∈ entries, ∃ left : Nat, 0 < left ∧ (left + top a : Int) ≤ size (visit a left).1)
    (h : entries ≠ []) :
    ∃ budget : Nat, 0 < budget ∧
      (budget + overrun net top entries : Int) ≤
        width size (spend visit fee entries budget).1 := by
  induction entries with
  | nil => exact absurd rfl h
  | cons a rest ih =>
      obtain ⟨left, hleft, hsize⟩ := htop a (List.mem_cons_self ..)
      have hfirst : size (visit a left).1 ≤ width size (spend visit fee (a :: rest) left).1 :=
        le_width_spend hleft
      cases rest with
      | nil => exact ⟨left, hleft, by rw [overrun_singleton]; omega⟩
      | cons b rest =>
          rw [overrun_cons_cons]
          rcases le_total (net a + overrun net top (b :: rest)) (top a) with hle | hle
          · exact ⟨left, hleft, by omega⟩
          · -- What the others need comes on top of what this one takes.
            obtain ⟨budget, hbudget, hwidth⟩ := ih
              (fun c hc => hmetered c (List.mem_cons_of_mem _ hc))
              (fun c hc => hnet c (List.mem_cons_of_mem _ hc))
              (fun c hc => htop c (List.mem_cons_of_mem _ hc)) (List.cons_ne_nil _ _)
            have hvisit := (hmetered a (List.mem_cons_self ..)
              (budget + charge a + fee a)).1 (by omega)
            have hnext : budget + charge a + fee a - charge a - fee a = budget := by omega
            have ha := hnet a (List.mem_cons_self ..)
            refine ⟨budget + charge a + fee a, by omega, ?_⟩
            rw [spend_cons (by omega), hvisit]
            dsimp only
            rw [hnext, width_cons (spend_ne_nil (List.cons_ne_nil _ _) hbudget)]
            omega

end Overrun

end Rustrak.Budget
