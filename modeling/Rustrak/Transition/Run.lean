import Mathlib.Tactic.Common
import Mathlib.Order.Basic

/-!
# Runs of a labelled transition system

A system is a step relation `State → Label → State → Prop`.  This file knows
nothing about any particular system: it fixes what a run is and packages the
inductions every later file needs, so that none of them repeats it.

* `Run.invariant`: a predicate that holds at the start and is kept by every
  step holds at the end.
* `Run.relates`: a preorder that relates the two ends of every step relates the
  two ends of every run;
* `Run.history`: what relates the labels so far to the state, and is kept by every step,
  holds at the end;
* `Run.invariant_visits`: a predicate that is kept by the steps between the states visited on the
  way holds at the end;
* `Run.exists_step`: what holds at the end and not at the start was brought about by a step;
* `Run.congr`: step relations that agree wherever an invariant holds have the same
  runs;
* `Run.of_foldlM`, `Run.of_foldl`: where a step is a function its runs are computed;
* `mem_set_or_eq`, `eq_or_exists_of_mem_set`, `forall_set`, `forall_append`: where one of several
  parties goes on, or one more comes, the others stay as they are.

They take the invariant as a side condition of the step, because the interesting
step lemmas are only true in states that satisfy one.
-/

namespace Rustrak.Transition

variable {State Label : Type*} {step : State → Label → State → Prop}

/-- `Run step s labels t`: from `s` the steps `labels`, in this order, lead to `t`. -/
inductive Run (step : State → Label → State → Prop) : State → List Label → State → Prop
  | nil (s : State) : Run step s [] s
  | cons {s t u : State} {label : Label} {labels : List Label} :
      step s label t → Run step t labels u → Run step s (label :: labels) u

/-- `t` is reached from `s` by some run. -/
def Reachable (step : State → Label → State → Prop) (s t : State) : Prop :=
  ∃ labels, Run step s labels t

theorem Run.single {s t : State} {label : Label} (h : step s label t) : Run step s [label] t :=
  .cons h (.nil t)

theorem Run.append {s t u : State} {first second : List Label} (hfirst : Run step s first t)
    (hsecond : Run step t second u) : Run step s (first ++ second) u := by
  induction hfirst with
  | nil s => exact hsecond
  | cons hstep _ ih => exact .cons hstep (ih hsecond)

/-- On the way from `s` to `t` there is the step `label` from `u` to `v`. -/
def Passes (step : State → Label → State → Prop) (s : State) (labels : List Label) (t u : State)
    (label : Label) (v : State) : Prop :=
  ∃ before after, labels = before ++ label :: after ∧ Run step s before u ∧ step u label v ∧
    Run step v after t

/-- An invariant of the steps is an invariant of the runs. -/
theorem Run.invariant (Inv : State → Prop)
    (hkeep : ∀ s label t, Inv s → step s label t → Inv t)
    {s t : State} {labels : List Label} (hrun : Run step s labels t) (hstart : Inv s) : Inv t := by
  induction hrun with
  | nil s => exact hstart
  | cons hstep _ ih => exact ih (hkeep _ _ _ hstart hstep)

/-- A reflexive and transitive relation between the ends of every step relates
the ends of every run, the steps being taken in states that satisfy `Inv`. -/
theorem Run.relates (Inv : State → Prop) (rel : State → State → Prop)
    (hrefl : ∀ s, rel s s) (htrans : ∀ s t u, rel s t → rel t u → rel s u)
    (hkeep : ∀ s label t, Inv s → step s label t → Inv t)
    (hrel : ∀ s label t, Inv s → step s label t → rel s t)
    {s t : State} {labels : List Label} (hrun : Run step s labels t) (hstart : Inv s) :
    rel s t := by
  induction hrun with
  | nil s => exact hrefl s
  | cons hstep _ ih =>
      exact htrans _ _ _ (hrel _ _ _ hstart hstep) (ih (hkeep _ _ _ hstart hstep))

/-- What a step keeps of a relation between what happened and the state, a run keeps. -/
theorem Run.history (Inv : List Label → State → Prop)
    (hkeep : ∀ past s label t, Inv past s → step s label t → Inv (past ++ [label]) t)
    {s t : State} {labels : List Label} (hrun : Run step s labels t) (hstart : Inv [] s) :
    Inv labels t := by
  suffices hgeneral : ∀ past, Inv past s → Inv (past ++ labels) t from hgeneral [] hstart
  clear hstart
  induction hrun with
  | nil s =>
      intro past hpast
      rw [List.append_nil]
      exact hpast
  | @cons s mid t label labels hstep _ ih =>
      intro past hpast
      have hmid := ih (past ++ [label]) (hkeep past s label mid hpast hstep)
      rwa [List.append_assoc] at hmid

/-- A run is cut anywhere. -/
theorem Run.of_append {s t : State} {first second : List Label}
    (hrun : Run step s (first ++ second) t) :
    ∃ mid, Run step s first mid ∧ Run step mid second t := by
  induction first generalizing s with
  | nil => exact ⟨s, .nil s, hrun⟩
  | cons label first ih =>
      cases hrun with
      | cons hstep hrest =>
          obtain ⟨mid, hfirst, hsecond⟩ := ih hrest
          exact ⟨mid, .cons hstep hfirst, hsecond⟩

/-- A run is cut at any of its labels. -/
theorem Run.exists_of_mem {s t : State} {label : Label} {labels : List Label}
    (hrun : Run step s labels t) (hmem : label ∈ labels) : ∃ before after u v,
    labels = before ++ label :: after ∧ Run step s before u ∧ step u label v ∧ Run step v after t := by
  obtain ⟨before, after, rfl⟩ := List.append_of_mem hmem
  obtain ⟨u, hbefore, hrest⟩ := hrun.of_append
  cases hrest with
  | cons hstep hafter => exact ⟨before, after, u, _, rfl, hbefore, hstep, hafter⟩

/-- `u` is a state on the way from `s` to `t`, either end included. -/
def Visits (step : State → Label → State → Prop) (s : State) (labels : List Label)
    (t u : State) : Prop :=
  ∃ before after, labels = before ++ after ∧ Run step s before u ∧ Run step u after t

/-- An invariant of the steps between the states of one run. -/
theorem Run.invariant_visits (Inv : State → Prop) {s t : State} {labels : List Label}
    (hkeep : ∀ u label v, Visits step s labels t u → Visits step s labels t v → Inv u →
      step u label v → Inv v)
    (hrun : Run step s labels t) (hstart : Inv s) : Inv t := by
  suffices hgeneral : ∀ {u : State} {after : List Label}, Run step u after t →
      ∀ before, labels = before ++ after → Run step s before u → Inv u → Inv t from
    hgeneral hrun [] rfl (.nil s) hstart
  intro u after hafter
  induction hafter with
  | nil u =>
      intro before _ _ hu
      exact hu
  | @cons u v t label after hstep hrest ih =>
      intro before hlabels hbefore hu
      have hlabels' : labels = (before ++ [label]) ++ after := by simp [hlabels]
      have hbefore' := hbefore.append (.single hstep)
      exact ih hkeep hrun (before ++ [label]) hlabels' hbefore'
        (hkeep u label v ⟨before, label :: after, hlabels, hbefore, .cons hstep hrest⟩
          ⟨before ++ [label], after, hlabels', hbefore', hrest⟩ hu hstep)

/-- What a run brings about, one of its steps does. -/
theorem Run.exists_step {P : State → Prop} {s t : State} {labels : List Label}
    (hrun : Run step s labels t) (hstart : ¬P s) (hend : P t) :
    ∃ before label after u v, labels = before ++ label :: after ∧ Run step s before u ∧
      step u label v ∧ Run step v after t ∧ ¬P u ∧ P v := by
  induction hrun with
  | nil s => exact absurd hend hstart
  | @cons s mid t label labels hstep hrest ih =>
      by_cases hmid : P mid
      · exact ⟨[], label, labels, s, mid, rfl, .nil s, hstep, hrest, hstart, hmid⟩
      · obtain ⟨before, later, after, u, v, rfl, hbefore, hlater, hafter, hu, hv⟩ := ih hmid hend
        exact ⟨label :: before, later, after, u, v, rfl, .cons hstep hbefore, hlater, hafter, hu, hv⟩

/-- Two step relations that are the same in the states of an invariant have the same
runs from such a state. -/
theorem Run.congr {step' : State → Label → State → Prop} (Inv : State → Prop)
    (hkeep : ∀ s label t, Inv s → step s label t → Inv t)
    (hsame : ∀ s label t, Inv s → (step s label t ↔ step' s label t))
    {s t : State} {labels : List Label} (hstart : Inv s) :
    Run step s labels t ↔ Run step' s labels t := by
  constructor
  · intro hrun
    induction hrun with
    | nil s => exact .nil s
    | cons hstep _ ih =>
        exact .cons ((hsame _ _ _ hstart).mp hstep) (ih (hkeep _ _ _ hstart hstep))
  · intro hrun
    induction hrun with
    | nil s => exact .nil s
    | cons hstep _ ih =>
        have hstep' := (hsame _ _ _ hstart).mpr hstep
        exact .cons hstep' (ih (hkeep _ _ _ hstart hstep'))

theorem Run.mono {step' : State → Label → State → Prop}
    (hstep : ∀ s label t, step s label t → step' s label t) {s t : State} {labels : List Label}
    (hrun : Run step s labels t) : Run step' s labels t := by
  induction hrun with
  | nil s => exact .nil s
  | cons h _ ih => exact .cons (hstep _ _ _ h) ih

section Computed

variable {next : State → Label → Option State} {s t : State} {labels : List Label}

/-- The labels one after another, each of which can be taken. -/
theorem Run.of_foldlM (h : labels.foldlM next s = some t) :
    Run (fun s label t => next s label = some t) s labels t := by
  induction labels generalizing s with
  | nil =>
      obtain rfl := Option.some.inj h
      exact .nil s
  | cons label labels ih =>
      obtain ⟨mid, hstep, hrest⟩ := Option.bind_eq_some_iff.mp h
      exact .cons hstep (ih hrest)

/-- The same where each step has a condition. -/
theorem Run.of_foldlM_guard {guard : State → Label → Prop}
    [∀ s label, Decidable (guard s label)]
    (h : labels.foldlM (fun s label => if guard s label then next s label else none) s = some t) :
    Run (fun s label t => next s label = some t ∧ guard s label) s labels t := by
  refine Run.mono (fun s label t hstep => ?_) (Run.of_foldlM h)
  obtain ⟨hguard, hnext⟩ := Option.ite_none_right_eq_some.mp hstep
  exact ⟨hnext, hguard⟩

/-- Where every label can be taken at any time, the labels one after another are a run, -/
theorem Run.of_foldl {next : State → Label → State} (labels : List Label) (s : State) :
    Run (fun s label t => t = next s label) s labels (labels.foldl next s) := by
  induction labels generalizing s with
  | nil => exact .nil s
  | cons label labels ih => exact .cons rfl (ih _)

/-- and the only one. -/
theorem Run.eq_foldl {next : State → Label → State}
    (hrun : Run (fun s label t => t = next s label) s labels t) : t = labels.foldl next s := by
  induction hrun with
  | nil s => rfl
  | cons hstep _ ih => rw [ih, hstep, List.foldl_cons]

/-- The states on the way are what the beginnings of the labels lead to. -/
theorem Visits.eq_foldl {next : State → Label → State} {u : State}
    (h : Visits (fun s label t => t = next s label) s labels t u) :
    ∃ before, before <+: labels ∧ u = before.foldl next s := by
  obtain ⟨before, after, rfl, hbefore, -⟩ := h
  exact ⟨before, List.prefix_append before after, hbefore.eq_foldl⟩

end Computed

/-! ## One of several parties -/

section Parties

variable {Party : Type*} {parties : List Party} {i : Nat} {old new other : Party}

theorem mem_set_self (h : parties[i]? = some old) : new ∈ parties.set i new :=
  List.mem_set (List.getElem?_eq_some_iff.mp h).1 new

theorem mem_set_or_eq (h : parties[i]? = some old) (hother : other ∈ parties) :
    other ∈ parties.set i new ∨ other = old := by
  obtain ⟨j, hj⟩ := List.mem_iff_getElem?.mp hother
  by_cases hij : i = j
  · subst hij
    exact .inr (Option.some.inj (hj.symm.trans h))
  · refine .inl (List.mem_of_getElem? (i := j) ?_)
    rw [List.getElem?_set_ne hij, hj]

theorem eq_or_exists_of_mem_set (h : other ∈ parties.set i new) :
    other = new ∨ ∃ j, j ≠ i ∧ parties[j]? = some other := by
  obtain ⟨j, hj⟩ := List.mem_iff_getElem?.mp h
  rw [List.getElem?_set] at hj
  split_ifs at hj with hij hlength
  · exact .inl (Option.some.inj hj).symm
  · exact .inr ⟨j, Ne.symm hij, hj⟩

/-- What holds of every party, once it holds of the one that goes on. -/
theorem forall_set {P : Nat → Party → Prop} (h : ∀ j party, parties[j]? = some party → P j party)
    (hnew : P i new) : ∀ j party, (parties.set i new)[j]? = some party → P j party := by
  intro j party hj
  rw [List.getElem?_set] at hj
  split_ifs at hj with hij hlength
  · obtain rfl := Option.some.inj hj
    exact hij ▸ hnew
  · exact h j party hj

/-- What holds of every party, once it holds of one that comes. -/
theorem forall_append {P : Nat → Party → Prop}
    (h : ∀ j party, parties[j]? = some party → P j party) (hnew : P parties.length new) :
    ∀ j party, (parties ++ [new])[j]? = some party → P j party := by
  intro j party hj
  rcases Nat.lt_trichotomy j parties.length with hlt | rfl | hgt
  · exact h j party (by rwa [List.getElem?_append_left hlt] at hj)
  · rw [List.getElem?_concat_length] at hj
    exact Option.some.inj hj ▸ hnew
  · rw [List.getElem?_eq_none (by simp; omega)] at hj
    cases hj

end Parties

end Rustrak.Transition
