import Mathlib.Logic.Function.Basic
import Rustrak.Transition.Run

/-!
# Items with two keys

Items are put into places one after another.  An item with a known current key goes
where the key leads.  Otherwise, when its legacy key is known, the item goes there
and its current key is recorded for that place; and otherwise a place is opened.
Only current keys are ever recorded.

Which items share a place then depends on their order: an item claims the place of
its legacy key only when that key was recorded before it.  It does not depend on it
exactly when the claims are mutual (`Mirrored`), and items are then together when
they have one current key, or one's legacy key is the other's current key
(`places_eq_iff`).  Two items whose claim is one-sided are together in one order
and apart in the other (`one_sided_together`, `one_sided_apart`).
-/

namespace Rustrak.Claiming

open Rustrak.Transition

variable {Item Key Place : Type*} [DecidableEq Key] (current legacy : Item → Key)

/-- Where an item is put, and where the keys lead after it. -/
inductive Put (owner : Key → Option Place) (x : Item) : Place → (Key → Option Place) → Prop
  | known {place : Place} : owner (current x) = some place → Put owner x place owner
  | claimed {place : Place} : owner (current x) = none → owner (legacy x) = some place →
      Put owner x place (Function.update owner (current x) (some place))
  | opened {place : Place} : owner (current x) = none → owner (legacy x) = none →
      (∀ k, owner k ≠ some place) →
      Put owner x place (Function.update owner (current x) (some place))

/-- One item after another, each with its place. -/
def PutStep (owner : Key → Option Place) (put : Item × Place) (owner' : Key → Option Place) :
    Prop :=
  Put current legacy owner put.1 put.2 owner'

/-- Claims are mutual. -/
def Mirrored (items : List Item) : Prop :=
  ∀ x ∈ items, ∀ y ∈ items, current x ≠ current y →
    (legacy y = current x ↔ legacy x = current y)

/-- The keys of two items lead to one place, when claims are mutual. -/
def Together (x y : Item) : Prop := current x = current y ∨ legacy y = current x

variable {current legacy}

omit [DecidableEq Key] in
theorem Mirrored.together_comm {items : List Item} (h : Mirrored current legacy items) {x y : Item}
    (hx : x ∈ items) (hy : y ∈ items) :
    Together current legacy x y ↔ Together current legacy y x := by
  unfold Together
  by_cases hsame : current x = current y
  · simp [hsame]
  · rw [h x hx y hy hsame, eq_comm (a := current x)]

omit [DecidableEq Key] in
theorem Mirrored.sublist {items some : List Item} (h : Mirrored current legacy items)
    (hsub : some.Sublist items) : Mirrored current legacy some :=
  fun x hx y hy => h x (hsub.subset hx) y (hsub.subset hy)

/-- What the keys know after these items were put. -/
structure Recorded (current : Item → Key) (done : List (Item × Place))
    (owner : Key → Option Place) : Prop where
  leads : ∀ x ∈ done, owner (current x.1) = some x.2
  known : ∀ k place, owner k = some place → ∃ x ∈ done, current x.1 = k

variable {done : List (Item × Place)} {owner owner' : Key → Option Place} {x : Item}
  {place : Place}

theorem Recorded.put (h : Recorded current done owner)
    (hput : Put current legacy owner x place owner') :
    Recorded current (done ++ [(x, place)]) owner' := by
  have hadd : owner (current x) = none →
      Recorded current (done ++ [(x, place)])
        (Function.update owner (current x) (some place)) := by
    intro hfree
    refine ⟨fun y hy => ?_, fun k i hk => ?_⟩
    · rcases List.mem_append.mp hy with hy | hy
      · have hne : current y.1 ≠ current x := by
          intro heq
          have hleads := h.leads y hy
          rw [heq, hfree] at hleads
          cases hleads
        rw [Function.update_of_ne hne]
        exact h.leads y hy
      · obtain rfl := List.mem_singleton.mp hy
        exact Function.update_self ..
    · by_cases hkx : k = current x
      · exact ⟨(x, place), by simp, hkx.symm⟩
      · rw [Function.update_of_ne hkx] at hk
        obtain ⟨y, hy, hcurrent⟩ := h.known k i hk
        exact ⟨y, List.mem_append_left _ hy, hcurrent⟩
  cases hput with
  | known hfound =>
      refine ⟨fun y hy => ?_, fun k i hk => ?_⟩
      · rcases List.mem_append.mp hy with hy | hy
        · exact h.leads y hy
        · obtain rfl := List.mem_singleton.mp hy
          exact hfound
      · obtain ⟨y, hy, hcurrent⟩ := h.known k i hk
        exact ⟨y, List.mem_append_left _ hy, hcurrent⟩
  | claimed hfree _ => exact hadd hfree
  | opened hfree _ _ => exact hadd hfree

/-- A new item shares its place with those it belongs to. -/
theorem place_eq_iff (h : Recorded current done owner)
    (hmirrored : Mirrored current legacy ((done ++ [(x, place)]).map Prod.fst))
    (hsettled : ∀ y ∈ done, ∀ z ∈ done, y.2 = z.2 ↔ Together current legacy y.1 z.1)
    (hput : Put current legacy owner x place owner') {y : Item × Place} (hy : y ∈ done) :
    y.2 = place ↔ Together current legacy y.1 x := by
  have hold : ∀ z ∈ done, z.1 ∈ (done ++ [(x, place)]).map Prod.fst := fun z hz =>
    List.mem_map_of_mem (List.mem_append_left _ hz)
  have hnew : x ∈ (done ++ [(x, place)]).map Prod.fst := by simp
  have hleads := h.leads y hy
  cases hput with
  | known hfound =>
      -- Some item before has this current key, and `y` is together with both or neither.
      obtain ⟨z, hz, hcurrent⟩ := h.known _ _ hfound
      have hplace : z.2 = place := by
        have hz' := h.leads z hz
        rw [hcurrent, hfound] at hz'
        exact (Option.some.inj hz').symm
      calc y.2 = place ↔ y.2 = z.2 := by rw [hplace]
        _ ↔ Together current legacy y.1 z.1 := hsettled y hy z hz
        _ ↔ Together current legacy z.1 y.1 :=
            hmirrored.together_comm (hold y hy) (hold z hz)
        _ ↔ Together current legacy x y.1 := by rw [Together, Together, hcurrent]
        _ ↔ Together current legacy y.1 x := hmirrored.together_comm hnew (hold y hy)
  | claimed hfree hfound =>
      obtain ⟨z, hz, hcurrent⟩ := h.known _ _ hfound
      have hz' := h.leads z hz
      have hplace : z.2 = place := by
        rw [hcurrent, hfound] at hz'
        exact (Option.some.inj hz').symm
      have hxy : current y.1 ≠ current x := by
        intro heq
        rw [heq, hfree] at hleads
        cases hleads
      have hxz : current x ≠ current z.1 := by
        intro heq
        rw [← heq, hfree] at hz'
        cases hz'
      rw [← hplace, hsettled y hy z hz, hmirrored.together_comm (hold y hy) (hold z hz)]
      unfold Together
      constructor
      · rintro (hsame | hclaim)
        · exact .inr (hcurrent.symm.trans hsame)
        · -- The claim of `z` on the key of `y` would be that of `z` on the key of `x`.
          by_cases hyz : current z.1 = current y.1
          · exact .inr (hcurrent.symm.trans hyz)
          · have hback := (hmirrored z.1 (hold z hz) y.1 (hold y hy) hyz).mp hclaim
            have hback' := (hmirrored x hnew z.1 (hold z hz) hxz).mpr hcurrent.symm
            exact absurd (hback.symm.trans hback') hxy
      · rintro (hsame | hclaim)
        · exact absurd hsame hxy
        · exact .inl (hcurrent.trans hclaim)
  | opened hfree hfree' hnone =>
      constructor
      · intro heq
        rw [heq] at hleads
        exact absurd hleads (hnone _)
      · rintro (hsame | hclaim)
        · rw [hsame, hfree] at hleads
          cases hleads
        · rw [← hclaim, hfree'] at hleads
          cases hleads

/-- With mutual claims, a run puts items together by their keys alone. -/
theorem settled_of_run {put : List (Item × Place)}
    (hrun : Run (PutStep current legacy) owner put owner')
    (h : Recorded current done owner)
    (hsettled : ∀ y ∈ done, ∀ z ∈ done, y.2 = z.2 ↔ Together current legacy y.1 z.1)
    (hmirrored : Mirrored current legacy ((done ++ put).map Prod.fst)) :
    ∀ y ∈ done ++ put, ∀ z ∈ done ++ put, y.2 = z.2 ↔ Together current legacy y.1 z.1 := by
  induction hrun generalizing done with
  | nil owner =>
      rw [List.append_nil]
      exact hsettled
  | @cons owner mid owner' next rest hstep _ ih =>
      obtain ⟨x, place⟩ := next
      have hput : Put current legacy owner x place mid := hstep
      have hsplit : done ++ (x, place) :: rest = (done ++ [(x, place)]) ++ rest := by simp
      rw [hsplit] at hmirrored ⊢
      have hmirrored' : Mirrored current legacy ((done ++ [(x, place)]).map Prod.fst) :=
        hmirrored.sublist ((List.sublist_append_left _ _).map _)
      have hnew := fun y hy => place_eq_iff (y := y) h hmirrored' hsettled hput hy
      refine ih (h.put hput) ?_ hmirrored
      intro y hy z hz
      rcases List.mem_append.mp hy with hy | hy <;> rcases List.mem_append.mp hz with hz | hz
      · exact hsettled y hy z hz
      · obtain rfl := List.mem_singleton.mp hz
        exact hnew y hy
      · obtain rfl := List.mem_singleton.mp hy
        rw [eq_comm, hnew z hz]
        exact hmirrored'.together_comm (List.mem_map_of_mem (List.mem_append_left _ hz)) (by simp)
      · obtain rfl := List.mem_singleton.mp hy
        obtain rfl := List.mem_singleton.mp hz
        exact iff_of_true rfl (.inl rfl)

/-- From no keys at all. -/
theorem places_eq_iff {put : List (Item × Place)} (hnone : ∀ k, owner k = none)
    (hmirrored : Mirrored current legacy (put.map Prod.fst))
    (hrun : Run (PutStep current legacy) owner put owner') :
    ∀ y ∈ put, ∀ z ∈ put, y.2 = z.2 ↔ Together current legacy y.1 z.1 := by
  have hstart : Recorded current ([] : List (Item × Place)) owner := by
    refine ⟨by simp, fun k i hk => ?_⟩
    rw [hnone] at hk
    cases hk
  exact settled_of_run hrun hstart (by simp) hmirrored

/-! ## One-sided claims -/

variable {y : Item} {place' : Place} {mid : Key → Option Place}

/-- The first item opens a place. -/
theorem first_opens (hnone : ∀ k, owner k = none)
    (hput : Put current legacy owner x place mid) :
    mid = Function.update owner (current x) (some place) := by
  cases hput with
  | known hfound =>
      rw [hnone] at hfound
      cases hfound
  | claimed _ hfound =>
      rw [hnone] at hfound
  | opened _ _ _ => rfl

/-- After the item whose key it claims, an item goes where that one went. -/
theorem one_sided_together (hnone : ∀ k, owner k = none) (hne : current x ≠ current y)
    (hclaim : legacy y = current x) (hfirst : Put current legacy owner x place mid)
    (hsecond : Put current legacy mid y place' owner') : place' = place := by
  have hmid := first_opens hnone hfirst
  have hx : mid (current x) = some place := by
    rw [hmid]
    exact Function.update_self ..
  have hy : mid (current y) = none := by
    rw [hmid, Function.update_of_ne hne.symm]
    exact hnone _
  cases hsecond with
  | known hfound =>
      rw [hy] at hfound
      cases hfound
  | claimed _ hfound =>
      rw [hclaim, hx] at hfound
      exact (Option.some.inj hfound).symm
  | opened _ hfree _ =>
      rw [hclaim, hx] at hfree
      cases hfree

/-- Before it, it opens a place that the other does not claim. -/
theorem one_sided_apart (hnone : ∀ k, owner k = none) (hne : current x ≠ current y)
    (hclaim : legacy x ≠ current y) (hfirst : Put current legacy owner y place' mid)
    (hsecond : Put current legacy mid x place owner') : place' ≠ place := by
  have hmid := first_opens hnone hfirst
  have hy : mid (current y) = some place' := by
    rw [hmid]
    exact Function.update_self ..
  have hother : ∀ k, k ≠ current y → mid k = none := by
    intro k hk
    rw [hmid, Function.update_of_ne hk]
    exact hnone k
  cases hsecond with
  | known hfound =>
      rw [hother _ hne] at hfound
      cases hfound
  | claimed _ hfound =>
      rw [hother _ hclaim] at hfound
      cases hfound
  | opened _ _ hfresh =>
      intro heq
      rw [heq] at hy
      exact hfresh _ hy

end Rustrak.Claiming
