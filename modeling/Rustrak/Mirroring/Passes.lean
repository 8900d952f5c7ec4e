import Mathlib.Logic.Function.Basic
import Mathlib.Tactic.Common
import Rustrak.Transition.Run

/-!
# Copying a value that changes

A value is copied to some targets by passes that run side by side.  A pass reads the value,
looks at the targets and writes those that differ, one after another; then it reads the value
again, and starts over if it has changed.  Each change of the value begins a pass.

No pass knows of the others, and any of them may write what it read long ago.  What makes the
copies agree in the end is that a pass which has read another value than the present one is
bound to read again: it owes every target a write (`Owes`).  A target that differs from the
value is owed one by somebody (`Copied.step`), and nobody owes anything once all have ended
(`Copied.of_ended`).  A system whose steps are such steps or none, and which has changed the
value, is in such a state (`copied_of_run`).
-/

namespace Rustrak.Mirroring

open Rustrak.Transition

variable {Value Target Payload : Type*}

/-- Where a pass has come to. -/
inductive Pass (Value Target Payload : Type*)
  | reading
  /-- Has read the value, and what it wants of the targets. -/
  | looking (value : Value) (payload : Payload)
  /-- Is to write these targets, and then to read again. -/
  | writing (value : Value) (payload : Payload) (todo : List Target)
  | ended
  deriving DecidableEq

structure Copies (Value Target Payload : Type*) where
  value : Value
  stored : Target → Payload
  passes : List (Pass Value Target Payload)

/-- Another stage of the pass at a place. -/
def Copies.goOn (c : Copies Value Target Payload) (i : Nat) (next : Pass Value Target Payload) :
    Copies Value Target Payload :=
  { c with passes := c.passes.set i next }

/-- One step, for targets and what a value wants of them, if anything. -/
inductive Step [DecidableEq Target] (wants : Value → Option Payload) (targets : List Target) :
    Copies Value Target Payload → Copies Value Target Payload → Prop
  | change {c : Copies Value Target Payload} (value : Value) :
      Step wants targets c { c with value, passes := c.passes ++ [.reading] }
  | read {c : Copies Value Target Payload} {i : Nat} {payload : Payload} :
      c.passes[i]? = some .reading → wants c.value = some payload →
      Step wants targets c (c.goOn i (.looking c.value payload))
  | leave {c : Copies Value Target Payload} {i : Nat} :
      c.passes[i]? = some .reading → wants c.value = none → Step wants targets c (c.goOn i .ended)
  /-- No target that differs is left out. -/
  | look {c : Copies Value Target Payload} {i : Nat} {value : Value} {payload : Payload}
      {todo : List Target} :
      c.passes[i]? = some (.looking value payload) →
      (∀ t ∈ targets, t ∉ todo → c.stored t = payload) →
      Step wants targets c (c.goOn i (.writing value payload todo))
  | quit {c : Copies Value Target Payload} {i : Nat} {value : Value} {payload : Payload} :
      c.passes[i]? = some (.looking value payload) → targets = [] →
      Step wants targets c (c.goOn i .ended)
  | write {c : Copies Value Target Payload} {i : Nat} {value : Value} {payload : Payload}
      {t : Target} {todo : List Target} :
      c.passes[i]? = some (.writing value payload (t :: todo)) →
      Step wants targets c
        (Copies.goOn { c with stored := Function.update c.stored t payload } i
          (.writing value payload todo))
  | again {c : Copies Value Target Payload} {i : Nat} {value : Value} {payload : Payload} :
      c.passes[i]? = some (.writing value payload []) → c.value ≠ value →
      Step wants targets c (c.goOn i .reading)
  | done {c : Copies Value Target Payload} {i : Nat} {payload : Payload} :
      c.passes[i]? = some (.writing c.value payload []) → Step wants targets c (c.goOn i .ended)

/-- The pass is bound to write the target, if it still differs then. -/
def Owes (present : Value) (t : Target) : Pass Value Target Payload → Prop
  | .reading | .looking _ _ => True
  | .writing value _ todo => value ≠ present ∨ t ∈ todo
  | .ended => False

/-- What a pass holds is what its value wants. -/
def Wanted (wants : Value → Option Payload) : Pass Value Target Payload → Prop
  | .looking value payload | .writing value payload _ => wants value = some payload
  | .reading | .ended => True

structure Copied (wants : Value → Option Payload) (targets : List Target)
    (c : Copies Value Target Payload) : Prop where
  wanted : ∀ pass ∈ c.passes, Wanted wants pass
  owed : ∀ payload, wants c.value = some payload → ∀ t ∈ targets,
    c.stored t = payload ∨ ∃ pass ∈ c.passes, Owes c.value t pass

variable {wants : Value → Option Payload} {targets : List Target}
  {c c' : Copies Value Target Payload}

theorem wanted_of_step [DecidableEq Target] (hstep : Step wants targets c c')
    (h : ∀ pass ∈ c.passes, Wanted wants pass) : ∀ pass ∈ c'.passes, Wanted wants pass := by
  have hset : ∀ (i : Nat) (next : Pass Value Target Payload), Wanted wants next →
      ∀ pass ∈ c.passes.set i next, Wanted wants pass := by
    intro i next hnext pass hpass
    rcases List.mem_or_eq_of_mem_set hpass with hpass | rfl
    · exact h pass hpass
    · exact hnext
  cases hstep with
  | change value =>
      intro pass hpass
      rcases List.mem_append.mp hpass with hold | hnew
      · exact h pass hold
      · rw [List.mem_singleton.mp hnew]
        trivial
  | read hi hwants => exact hset _ _ hwants
  | leave hi hwants => exact hset _ _ trivial
  | @look i value payload todo hi htodo =>
      have hvalue : wants value = some payload := h _ (List.mem_of_getElem? hi)
      exact hset _ _ hvalue
  | quit hi hnone => exact hset _ _ trivial
  | @write i value payload t todo hi =>
      have hvalue : wants value = some payload := h _ (List.mem_of_getElem? hi)
      exact hset _ _ hvalue
  | again hi hchanged => exact hset _ _ trivial
  | done hi => exact hset _ _ trivial

/-- Whatever the targets store, a new pass owes each of them. -/
theorem Copied.of_change [DecidableEq Target] (hwanted : ∀ pass ∈ c.passes, Wanted wants pass)
    (value : Value) : Copied wants targets { c with value, passes := c.passes ++ [.reading] } where
  wanted := wanted_of_step (.change value : Step wants targets c _) hwanted
  owed := fun _ _ _ _ => .inr ⟨.reading, by simp, trivial⟩

/-- A pass goes on, and the target stores what the value wants or is owed it as before. -/
theorem Copied.goOn (h : Copied wants targets c) {i : Nat} {old : Pass Value Target Payload}
    (hold : c.passes[i]? = some old) (next : Pass Value Target Payload) (stored : Target → Payload)
    (hnext : ∀ payload, wants c.value = some payload → ∀ t ∈ targets,
      (c.stored t = payload → stored t = payload ∨ Owes c.value t next) ∧
      (Owes c.value t old → stored t = payload ∨ Owes c.value t next)) :
    ∀ payload, wants c.value = some payload → ∀ t ∈ targets,
      stored t = payload ∨ ∃ pass ∈ c.passes.set i next, Owes c.value t pass := by
  have hmem : next ∈ c.passes.set i next := mem_set_self hold
  intro payload hpayload t ht
  obtain ⟨hstored, howes⟩ := hnext payload hpayload t ht
  rcases h.owed payload hpayload t ht with hsame | ⟨pass, hpass, hpassOwes⟩
  · exact (hstored hsame).imp_right fun hnew => ⟨next, hmem, hnew⟩
  · rcases mem_set_or_eq hold hpass with hkept | rfl
    · exact .inr ⟨pass, hkept, hpassOwes⟩
    · exact (howes hpassOwes).imp_right fun hnew => ⟨next, hmem, hnew⟩

theorem Copied.step [DecidableEq Target] (h : Copied wants targets c)
    (hstep : Step wants targets c c') : Copied wants targets c' := by
  refine ⟨wanted_of_step hstep h.wanted, ?_⟩
  cases hstep with
  | change value => exact (Copied.of_change h.wanted value).owed
  | read hi hwants =>
      exact h.goOn hi _ c.stored fun _ _ _ _ => ⟨.inl, fun _ => .inr trivial⟩
  | leave hi hwants =>
      refine h.goOn hi _ c.stored fun payload hpayload => ?_
      rw [hwants] at hpayload
      contradiction
  | @look i value payload todo hi htodo =>
      have hvalue : wants value = some payload := h.wanted _ (List.mem_of_getElem? hi)
      refine h.goOn hi _ c.stored fun payload' hpayload' t ht => ⟨.inl, fun _ => ?_⟩
      by_cases hpresent : value = c.value
      · -- It has seen the present value, so what it leaves out is stored.
        subst hpresent
        obtain rfl := Option.some.inj (hpayload'.symm.trans hvalue)
        by_cases hmem : t ∈ todo
        · exact .inr (.inr hmem)
        · exact .inl (htodo t ht hmem)
      · exact .inr (.inl hpresent)
  | quit hi hnone =>
      refine h.goOn hi _ c.stored fun _ _ t ht => ?_
      rw [hnone] at ht
      contradiction
  | @write i value payload t₀ todo hi =>
      have hvalue : wants value = some payload := h.wanted _ (List.mem_of_getElem? hi)
      refine h.goOn hi _ (Function.update c.stored t₀ payload) fun payload' hpayload' t ht => ?_
      by_cases hpresent : value = c.value
      · subst hpresent
        obtain rfl := Option.some.inj (hpayload'.symm.trans hvalue)
        by_cases hsame : t = t₀
        · subst hsame
          simp
        · rw [Function.update_of_ne hsame]
          refine ⟨.inl, fun howes => .inr (howes.imp_right fun hmem => ?_)⟩
          exact (List.mem_cons.mp hmem).resolve_left hsame
      · exact ⟨fun _ => .inr (.inl hpresent), fun _ => .inr (.inl hpresent)⟩
  | again hi hchanged =>
      exact h.goOn hi _ c.stored fun _ _ _ _ => ⟨.inl, fun _ => .inr trivial⟩
  | done hi =>
      refine h.goOn hi _ c.stored fun _ _ t _ => ⟨.inl, fun howes => ?_⟩
      exact absurd howes (by simp [Owes])

/-- When every pass has ended the targets store what the value wants. -/
theorem Copied.of_ended (h : Copied wants targets c) (hended : ∀ pass ∈ c.passes, pass = .ended)
    {payload : Payload} (hpayload : wants c.value = some payload) :
    ∀ t ∈ targets, c.stored t = payload := by
  intro t ht
  rcases h.owed payload hpayload t ht with hstored | ⟨pass, hpass, howes⟩
  · exact hstored
  · rw [hended pass hpass] at howes
    exact howes.elim

/-! ## Systems that copy -/

/-- In a system whose steps are steps of the passes or none, every target stores what the value
wants or is owed it once the value has been changed. -/
theorem copied_of_run [DecidableEq Target] {State Label : Type*} {step : State → Label → State → Prop}
    (view : State → Copies Value Target Payload) {changes : Label → Prop}
    (hview : ∀ s label s', step s label s' →
      view s' = view s ∨ Step wants targets (view s) (view s'))
    (hchanges : ∀ s label s', changes label → step s label s' →
      ∃ value, view s' = { view s with value, passes := (view s).passes ++ [.reading] })
    {start s : State} {labels : List Label} (hrun : Run step start labels s)
    (hwanted : ∀ pass ∈ (view start).passes, Wanted wants pass)
    (hchanged : Copied wants targets (view start) ∨ ∃ label ∈ labels, changes label) :
    Copied wants targets (view s) := by
  have hkeep : ∀ (s : State) (label : Label) (s' : State), Copied wants targets (view s) →
      step s label s' → Copied wants targets (view s') := by
    intro s label s' h hstep
    rcases hview s label s' hstep with hsame | hstep
    · rwa [hsame]
    · exact h.step hstep
  rcases hchanged with hstart | ⟨label, hmem, hlabel⟩
  · exact hrun.invariant (fun s => Copied wants targets (view s)) hkeep hstart
  · obtain ⟨before, after, u, v, rfl, hbefore, hstep, hafter⟩ := hrun.exists_of_mem hmem
    have hmid : ∀ pass ∈ (view u).passes, Wanted wants pass := by
      refine hbefore.invariant (fun s => ∀ pass ∈ (view s).passes, Wanted wants pass) ?_ hwanted
      intro s label s' h hstep
      rcases hview s label s' hstep with hsame | hstep
      · rwa [hsame]
      · exact wanted_of_step hstep h
    refine hafter.invariant (fun s => Copied wants targets (view s)) hkeep ?_
    obtain ⟨value, hvalue⟩ := hchanges u label v hlabel hstep
    rw [hvalue]
    exact Copied.of_change hmid value

end Rustrak.Mirroring
