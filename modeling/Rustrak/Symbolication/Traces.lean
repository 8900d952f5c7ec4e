import Rustrak.Core.Json
import Mathlib.Data.List.Nodup

/-!
# Stack traces in an event

A stack trace stands in an exception, in the event itself or in a thread.  To symbolicate one is to
change what holds it, and leaves the others as they are (`traceAt_modifyAt_ne`).
-/

namespace Rustrak.Symbolication

open Rustrak.Core

/-! ## JSON -/

/-- `value[key]`, null where there is none. -/
def index (v : Value) (key : String) : Value := (v.get key).getD .null

def isNull : Value → Bool
  | .null => true
  | _ => false

def array (v : Value) : List Value := v.asArray.getD []

variable {v field event : Value} {key key' : String} {f : Value → Value}

theorem index_set_self (h : v.isObject = true) : index (v.set key field) key = field := by
  rw [index, Value.get_set_self h, Option.getD_some]

theorem index_set_ne (hne : key ≠ key') : index (v.set key' field) key = index v key := by
  rw [index, Value.get_set_ne hne, index]

theorem isObject_of_index (h : index v key ≠ .null) : v.isObject = true := by
  cases hget : v.get key with
  | none =>
      rw [index, hget] at h
      exact absurd rfl h
  | some field => exact Value.isObject_of_get hget

/-! ## What holds a stack trace -/

inductive Container
  | exception (i : ℕ)
  | event
  | thread (i : ℕ)
  deriving DecidableEq, Repr

def valuesOf (event : Value) (key : String) : List Value := array (index (index event key) "values")

/-- `Value::pointer`. -/
def pointer (event : Value) : Container → Option Value
  | .exception i => (valuesOf event "exception")[i]?
  | .event => some event
  | .thread i => (valuesOf event "threads")[i]?

def setValues (event : Value) (key : String) (values : List Value) : Value :=
  event.set key ((index event key).set "values" (.array values))

/-- A change to what `Value::pointer_mut` gives. -/
def modifyAt (event : Value) (f : Value → Value) : Container → Value
  | .exception i => setValues event "exception" ((valuesOf event "exception").modify i f)
  | .event => f event
  | .thread i => setValues event "threads" ((valuesOf event "threads").modify i f)

/-- Exceptions, the event, threads. -/
def containers (event : Value) : List Container :=
  (List.range (valuesOf event "exception").length).map .exception ++
    .event :: (List.range (valuesOf event "threads").length).map .thread

def eventPlatform (event : Value) : String := (event.str "platform").getD "unknown"

def framePlatform (frame : Value) (platform : String) : String :=
  (frame.str "platform").getD platform

def framesOf (container : Value) : List Value :=
  array (index (index container "stacktrace") "frames")

def setFrames (frames : List Value) (holder : Value) : Value :=
  holder.set "stacktrace" ((index holder "stacktrace").set "frames" (.array frames))

/-- `raw_stacktrace`. -/
def rawFramesOf (container : Value) : List Value :=
  array (index (index container "raw_stacktrace") "frames")

/-! ## Changes in one place -/

theorem isObject_of_valuesOf (h : valuesOf event key ≠ []) :
    event.isObject = true ∧ (index event key).isObject = true := by
  have hvalues : index (index event key) "values" ≠ .null := by
    intro hnull
    rw [valuesOf, hnull] at h
    exact h rfl
  have hindex := isObject_of_index hvalues
  refine ⟨@isObject_of_index event key ?_, hindex⟩
  intro hnull
  rw [hnull] at hindex
  cases hindex

theorem valuesOf_setValues_self {values : List Value} (h : valuesOf event key ≠ []) :
    valuesOf (setValues event key values) key = values := by
  obtain ⟨hevent, hindex⟩ := isObject_of_valuesOf h
  rw [valuesOf, setValues, index_set_self hevent, index_set_self hindex]
  rfl

theorem valuesOf_set_ne (hne : key ≠ key') :
    valuesOf (event.set key' field) key = valuesOf event key := by
  rw [valuesOf, index_set_ne hne, valuesOf]

/-- A change to an event that its exceptions and threads do not see. -/
structure Apart (event event' : Value) : Prop where
  exceptions : valuesOf event' "exception" = valuesOf event "exception"
  threads : valuesOf event' "threads" = valuesOf event "threads"

theorem Apart.pointer {event' : Value} (h : Apart event event') {c : Container} (hc : c ≠ .event) :
    pointer event' c = pointer event c := by
  cases c with
  | exception i => rw [Symbolication.pointer, h.exceptions, Symbolication.pointer]
  | event => exact absurd rfl hc
  | thread i => rw [Symbolication.pointer, h.threads, Symbolication.pointer]

theorem apart_set (hexception : key ≠ "exception") (hthreads : key ≠ "threads") :
    Apart event (event.set key field) :=
  ⟨valuesOf_set_ne hexception.symm, valuesOf_set_ne hthreads.symm⟩

theorem pointer_modifyAt_self {c : Container} {holder : Value}
    (h : pointer event c = some holder) : pointer (modifyAt event f c) c = some (f holder) := by
  cases c with
  | exception i =>
      rw [pointer] at h
      have hne : valuesOf event "exception" ≠ [] := fun hnil => by simp [hnil] at h
      rw [modifyAt, pointer, valuesOf_setValues_self hne, List.getElem?_modify_eq, h]
      rfl
  | event =>
      obtain rfl := Option.some.inj h
      rfl
  | thread i =>
      rw [pointer] at h
      have hne : valuesOf event "threads" ≠ [] := fun hnil => by simp [hnil] at h
      rw [modifyAt, pointer, valuesOf_setValues_self hne, List.getElem?_modify_eq, h]
      rfl

/-- The stack trace of a container and the one that it had before. -/
def traceAt (event : Value) (c : Container) : Option (Value × Value) :=
  (pointer event c).map fun holder => (index holder "stacktrace", index holder "raw_stacktrace")

/-- A field beside the stack traces. -/
theorem traceAt_set {c : Container} (hexception : key ≠ "exception") (hthreads : key ≠ "threads")
    (hstacktrace : key ≠ "stacktrace") (hraw : key ≠ "raw_stacktrace") :
    traceAt (event.set key field) c = traceAt event c := by
  by_cases hc : c = .event
  · subst hc
    simp only [traceAt, pointer, Option.map_some, index_set_ne hstacktrace.symm,
      index_set_ne hraw.symm]
  · rw [traceAt, (apart_set hexception hthreads).pointer hc, traceAt]

theorem traceAt_setValues_ne {values : List Value} {c : Container}
    (hstacktrace : key ≠ "stacktrace") (hraw : key ≠ "raw_stacktrace")
    (hc : pointer (setValues event key values) c = pointer event c ∨ c = .event) :
    traceAt (setValues event key values) c = traceAt event c := by
  rcases hc with hc | rfl
  · rw [traceAt, hc, traceAt]
  · simp only [traceAt, pointer, Option.map_some, setValues, index_set_ne hstacktrace.symm,
      index_set_ne hraw.symm]

/-- A change in one place is not seen in another. -/
theorem traceAt_modifyAt_ne {c c' : Container} {holder : Value} (hne : c ≠ c')
    (hc' : pointer event c' = some holder) (hf : c' = .event → Apart event (f event)) :
    traceAt (modifyAt event f c') c = traceAt event c := by
  cases c' with
  | event => rw [traceAt, modifyAt, (hf rfl).pointer hne, traceAt]
  | exception i =>
      apply traceAt_setValues_ne (by decide) (by decide)
      cases c with
      | exception j =>
          left
          rw [pointer] at hc'
          have hvalues : valuesOf event "exception" ≠ [] := fun hnil => by simp [hnil] at hc'
          have hij : i ≠ j := fun hij => hne (by rw [hij])
          rw [pointer, valuesOf_setValues_self hvalues, List.getElem?_modify_ne _ _ hij, pointer]
      | event => exact .inr rfl
      | thread j =>
          left
          rw [pointer, setValues, valuesOf_set_ne (by decide), pointer]
  | thread i =>
      apply traceAt_setValues_ne (by decide) (by decide)
      cases c with
      | exception j =>
          left
          rw [pointer, setValues, valuesOf_set_ne (by decide), pointer]
      | event => exact .inr rfl
      | thread j =>
          left
          rw [pointer] at hc'
          have hvalues : valuesOf event "threads" ≠ [] := fun hnil => by simp [hnil] at hc'
          have hij : i ≠ j := fun hij => hne (by rw [hij])
          rw [pointer, valuesOf_setValues_self hvalues, List.getElem?_modify_ne _ _ hij, pointer]

theorem index_set_open (h : (v.isObject || isNull v) = true) :
    index (v.set key field) key = field := by
  cases v with
  | object fields => exact index_set_self rfl
  | null => rw [index, Value.get_set_null, Option.getD_some]
  | _ => cases h

theorem valuesOf_setValues_modify {i : ℕ} :
    valuesOf (setValues event key ((valuesOf event key).modify i f)) key =
      (valuesOf event key).modify i f := by
  by_cases hvalues : valuesOf event key = []
  · rw [hvalues, List.modify_nil, valuesOf, setValues]
    by_cases hevent : (event.isObject || isNull event) = true
    · rw [index_set_open hevent]
      cases index event key <;> rfl
    · cases event <;> first | rfl | exact absurd rfl hevent
  · exact valuesOf_setValues_self hvalues

/-- A change to an exception that leaves its stack traces. -/
theorem traceAt_modifyAt_exception {i : ℕ} {c : Container}
    (hf : ∀ holder, index (f holder) "stacktrace" = index holder "stacktrace" ∧
      index (f holder) "raw_stacktrace" = index holder "raw_stacktrace") :
    traceAt (modifyAt event f (.exception i)) c = traceAt event c := by
  cases c with
  | exception j =>
      rw [traceAt, modifyAt, pointer, valuesOf_setValues_modify, List.getElem?_modify, traceAt,
        pointer]
      cases (valuesOf event "exception")[j]? with
      | none => rfl
      | some holder =>
          simp only [Option.map_eq_map, Option.map_some]
          split_ifs
          · rw [(hf holder).1, (hf holder).2]
          · rfl
  | event => exact traceAt_setValues_ne (by decide) (by decide) (.inr rfl)
  | thread j =>
      apply traceAt_setValues_ne (by decide) (by decide)
      left
      rw [pointer, setValues, valuesOf_set_ne (by decide), pointer]

theorem nodup_containers (event : Value) : (containers event).Nodup := by
  refine List.nodup_append.mpr ⟨?_, List.nodup_cons.mpr ⟨?_, ?_⟩, ?_⟩
  · exact List.Nodup.map (fun _ _ h => Container.exception.inj h) List.nodup_range
  · simp
  · exact List.Nodup.map (fun _ _ h => Container.thread.inj h) List.nodup_range
  · rintro c hc c' hc' rfl
    obtain ⟨i, -, rfl⟩ := List.mem_map.mp hc
    simp at hc'

/-- A new stack trace for what holds one. -/
theorem traceAt_modifyAt_self {c : Container} {trace after : Value × Value}
    (h : traceAt event c = some trace) (htrace : trace.1.isObject = true)
    (hf : ∀ holder, holder.isObject = true →
      (index holder "stacktrace", index holder "raw_stacktrace") = trace →
        (index (f holder) "stacktrace", index (f holder) "raw_stacktrace") = after) :
    traceAt (modifyAt event f c) c = some after := by
  obtain ⟨holder, hholder, rfl⟩ := Option.map_eq_some_iff.mp h
  have hobject : holder.isObject = true := by
    apply @isObject_of_index holder "stacktrace"
    intro hnull
    rw [hnull] at htrace
    cases htrace
  rw [traceAt, pointer_modifyAt_self hholder, Option.map_some, hf holder hobject rfl]

/-! ## One after the other -/

/-- Containers that are kept from a list of different ones are different. -/
theorem sublist_map_filterMap {A B : Type*} {read : A → Option B} {place : B → A}
    (h : ∀ a b, read a = some b → place b = a) (as : List A) :
    ((as.filterMap read).map place).Sublist as := by
  induction as with
  | nil => exact .slnil
  | cons a as ih =>
      rw [List.filterMap_cons]
      cases hread : read a with
      | none => exact ih.cons a
      | some b =>
          rw [List.map_cons, h a b hread]
          exact ih.cons_cons a

section Run

variable {D : Type*} {step : Value → D → Value} {place : D → Container}
  {before after : D → Value × Value}

/-- What a step needs: the stack trace is where it was found. -/
def Stands (before : D → Value × Value) (place : D → Container) (event : Value) (d : D) : Prop :=
  traceAt event (place d) = some (before d) ∧ (before d).1.isObject = true

/-- A step is not seen at the places of the others. -/
theorem traceAt_foldl_ne
    (hother : ∀ event d c, Stands before place event d → c ≠ place d →
      traceAt (step event d) c = traceAt event c)
    {c : Container} (ds : List D) (hnodup : (ds.map place).Nodup)
    (hbefore : ∀ d ∈ ds, Stands before place event d) (hc : c ∉ ds.map place) :
    traceAt (ds.foldl step event) c = traceAt event c := by
  induction ds generalizing event with
  | nil => rfl
  | cons d ds ih =>
      rw [List.map_cons, List.mem_cons, not_or] at hc
      rw [List.map_cons, List.nodup_cons] at hnodup
      have hfirst := hbefore d List.mem_cons_self
      rw [List.foldl_cons, ih hnodup.2 (fun d' hd' => ⟨?_, ?_⟩) hc.2, hother _ _ _ hfirst hc.1]
      · rw [hother _ _ _ hfirst fun heq => hnodup.1 (heq ▸ List.mem_map_of_mem hd')]
        exact (hbefore d' (List.mem_cons_of_mem _ hd')).1
      · exact (hbefore d' (List.mem_cons_of_mem _ hd')).2

/-- Steps at different places all leave what they make. -/
theorem traceAt_foldl
    (hself : ∀ event d, Stands before place event d →
      traceAt (step event d) (place d) = some (after d))
    (hother : ∀ event d c, Stands before place event d → c ≠ place d →
      traceAt (step event d) c = traceAt event c)
    (ds : List D) (hnodup : (ds.map place).Nodup)
    (hbefore : ∀ d ∈ ds, Stands before place event d) {d : D} (hd : d ∈ ds) :
    traceAt (ds.foldl step event) (place d) = some (after d) := by
  induction ds generalizing event with
  | nil => cases hd
  | cons first ds ih =>
      rw [List.map_cons, List.nodup_cons] at hnodup
      have hfirst := hbefore first List.mem_cons_self
      have hrest : ∀ d' ∈ ds, Stands before place (step event first) d' := by
        refine fun d' hd' => ⟨?_, (hbefore d' (List.mem_cons_of_mem _ hd')).2⟩
        rw [hother _ _ _ hfirst fun heq => hnodup.1 (heq ▸ List.mem_map_of_mem hd')]
        exact (hbefore d' (List.mem_cons_of_mem _ hd')).1
      rw [List.foldl_cons]
      rcases List.mem_cons.mp hd with rfl | hd
      · rw [traceAt_foldl_ne hother ds hnodup.2 hrest hnodup.1]
        exact hself _ _ hfirst
      · exact ih hnodup.2 hrest hd

end Run

end Rustrak.Symbolication
