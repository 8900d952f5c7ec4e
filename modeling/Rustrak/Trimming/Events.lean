import Rustrak.Grouping.Chain
import Rustrak.Trimming.Size

/-!
# Trimming an event

`trim_oversized_event` trims the variables of every frame under `exception` and `threads`, the
data of every breadcrumb, and three fields of the event itself, each with limits of its own.

A list of exceptions, threads or breadcrumbs is an object with `values`, or a bare array.
Trimming looks for the `values` only, so of the second spelling nothing is trimmed, and the two
spellings of an event end up alike exactly when there was nothing to trim.
-/

namespace Rustrak.Trimming

open Rustrak.Core Rustrak.Core.Value Rustrak.Budget

/-! ### Changing a value in place -/

/-- `&mut value[key]`, where there is such a field. -/
def modifyField (v : Value) (key : String) (f : Value → Value) : Value :=
  match v with
  | .object fields =>
      .object (fields.map fun field => if field.1 = key then (field.1, f field.2) else field)
  | other => other

/-- The same for every element of an array. -/
def modifyElements (f : Value → Value) : Value → Value
  | .array values => .array (values.map f)
  | other => other

/-! ### The limits -/

def varsMaxBytes : Nat := 2048

def varsMaxDepth : Nat := 5

def breadcrumbDataMaxBytes : Nat := 2048

def breadcrumbDataMaxDepth : Nat := 5

def extraMaxBytes : Nat := 262144

def extraMaxDepth : Nat := 7

def modulesMaxBytes : Nat := 8192

def modulesMaxDepth : Nat := 7

def requestDataMaxBytes : Nat := 8192

def requestDataMaxDepth : Nat := 7

/-! ### The event -/

def trimVars (frame : Value) : Value :=
  modifyField frame "vars" fun vars => trimDatabag vars varsMaxBytes varsMaxDepth

def trimFrames (value : Value) : Value :=
  modifyField value "stacktrace" fun stacktrace =>
    modifyField stacktrace "frames" (modifyElements trimVars)

def trimCrumb (crumb : Value) : Value :=
  modifyField crumb "data" fun data =>
    trimDatabag data breadcrumbDataMaxBytes breadcrumbDataMaxDepth

def trimFramesUnder (eventData : Value) (rootKey : String) : Value :=
  modifyField eventData rootKey fun root => modifyField root "values" (modifyElements trimFrames)

def trimBreadcrumbData (eventData : Value) : Value :=
  modifyField eventData "breadcrumbs" fun root =>
    modifyField root "values" (modifyElements trimCrumb)

def trimOversizedEvent (eventData : Value) : Value :=
  let frames := trimFramesUnder (trimFramesUnder eventData "exception") "threads"
  let crumbs := trimBreadcrumbData frames
  let extra := modifyField crumbs "extra" fun v => trimDatabag v extraMaxBytes extraMaxDepth
  let modules := modifyField extra "modules" fun v =>
    trimDatabag v modulesMaxBytes modulesMaxDepth
  modifyField modules "request" fun request =>
    modifyField request "data" fun v => trimDatabag v requestDataMaxBytes requestDataMaxDepth

/-! ### The lists of an event -/

/-- The lists whose entries are trimmed. -/
inductive Listed
  | exception
  | threads
  | breadcrumbs
  deriving DecidableEq, Repr

namespace Listed

def key : Listed → String
  | exception => "exception"
  | threads => "threads"
  | breadcrumbs => "breadcrumbs"

def trimEntry : Listed → Value → Value
  | exception | threads => trimFrames
  | breadcrumbs => trimCrumb

/-- The entries of a list, in either spelling. -/
def entries (listed : Listed) (eventData : Value) : Option (List Value) := do
  match ← eventData.get listed.key with
  | .array values => some values
  | root => (root.get "values").bind asArray

end Listed

/-- Grouping reads the exceptions in either spelling. -/
theorem exceptionValues_eq_entries (eventData : Value) :
    Grouping.exceptionValues eventData = Listed.exception.entries eventData := by
  rw [Grouping.exceptionValues, Listed.entries, Listed.key]
  cases eventData.get "exception" with
  | none => rfl
  | some root => cases root <;> rfl

section Modify

variable {v x : Value} {key key' : String} {f : Value → Value}

private theorem fst_modify (field : String × Value) :
    (if field.1 = key' then (field.1, f field.2) else field).1 = field.1 := by
  split_ifs <;> rfl

theorem get_modifyField :
    (modifyField v key' f).get key = (v.get key).map fun x => if key = key' then f x else x := by
  cases v with
  | object fields =>
      have hkeys : ((fun field : String × Value => decide (field.1 = key)) ∘
          fun field => if field.1 = key' then (field.1, f field.2) else field) =
          fun field => decide (field.1 = key) := by
        funext field
        simp only [Function.comp_def, fst_modify]
      simp only [modifyField, Value.get, List.find?_map, hkeys, Option.map_map]
      cases hfind : fields.find? (fun field => decide (field.1 = key)) with
      | none => rfl
      | some field =>
          have hkey : field.1 = key := by simpa using List.find?_some hfind
          subst hkey
          simp only [Option.map_some, Function.comp_def]
          split_ifs <;> rfl
  | _ => rfl

theorem map_eq_self_iff {α : Type} {g : α → α} {l : List α} :
    l.map g = l ↔ ∀ a ∈ l, g a = a := by
  have h := List.map_inj_left (l := l) (f := g) (g := id)
  rwa [List.map_id] at h

theorem get_object_eq_some {fields : List (String × Value)}
    (hkeys : fields.Pairwise fun a b => a.1 < b.1) :
    (Value.object fields).get key = some x ↔ (key, x) ∈ fields := by
  rw [Value.get]
  induction fields with
  | nil => exact ⟨fun h => absurd h.symm (Option.some_ne_none _), fun h => absurd h List.not_mem_nil⟩
  | cons field rest ih =>
      rw [List.pairwise_cons] at hkeys
      by_cases hkey : field.1 = key
      · rw [List.find?_cons_of_pos (by simpa using hkey), Option.map_some, List.mem_cons]
        subst hkey
        constructor
        · intro hx
          exact Or.inl (Prod.ext rfl (Option.some.inj hx).symm)
        · rintro (heq | hrest)
          · rw [← heq]
          · exact absurd (hkeys.1 _ hrest) (lt_irrefl _)
      · rw [List.find?_cons_of_neg (by simpa using hkey), ih hkeys.2, List.mem_cons]
        exact ⟨Or.inr, fun h => h.resolve_left fun heq => hkey (heq ▸ rfl)⟩

/-- A value is left as it is when the change leaves the field as it is. -/
theorem modifyField_eq_self_iff (hordered : Ordered v) :
    modifyField v key f = v ↔ ∀ x, v.get key = some x → f x = x := by
  cases hordered with
  | @object fields hkeys h =>
      rw [modifyField, object.injEq, map_eq_self_iff]
      simp only [get_object_eq_some hkeys]
      constructor
      · intro hsame x hx
        have := hsame (key, x) hx
        rw [if_pos rfl] at this
        exact congrArg Prod.snd this
      · intro hsame field hfield
        split_ifs with hkey
        · subst hkey
          exact Prod.ext rfl (hsame field.2 hfield)
        · rfl
  | _ => exact ⟨fun _ x hx => absurd hx.symm (Option.some_ne_none _), fun _ => rfl⟩

theorem ordered_get (hordered : Ordered v) (h : v.get key = some x) : Ordered x := by
  cases hordered with
  | @object fields hkeys hfields => exact hfields (key, x) ((get_object_eq_some hkeys).mp h)
  | _ => exact absurd h.symm (Option.some_ne_none _)

theorem modifyElements_eq_self_iff :
    modifyElements f v = v ↔ ∀ values, v.asArray = some values → ∀ x ∈ values, f x = x := by
  cases v with
  | array values =>
      rw [modifyElements, array.injEq, map_eq_self_iff]
      exact ⟨fun h _ heq => Option.some.inj heq ▸ h, fun h => h values rfl⟩
  | _ => exact ⟨fun _ _ hx => absurd hx.symm (Option.some_ne_none _), fun _ => rfl⟩

end Modify

/-! ### What there is to trim -/

/-- Trimming to these limits leaves the value as it is. -/
def WithinLimits (maxBytes maxDepth : Nat) (v : Value) : Prop :=
  NestsWithin maxDepth v ∧ need maxDepth v ≤ maxBytes

/-- The frames of an exception or a thread. -/
def frames (entry : Value) : List Value :=
  (((entry.get "stacktrace").bind fun stacktrace => stacktrace.get "frames").bind asArray).getD []

/-- The variables of every frame, or the data of the breadcrumb, are within their limits. -/
def Listed.Fits : Listed → Value → Prop
  | exception, entry | threads, entry =>
      ∀ frame ∈ frames entry, ∀ vars, frame.get "vars" = some vars →
        WithinLimits varsMaxBytes varsMaxDepth vars
  | breadcrumbs, entry =>
      ∀ data, entry.get "data" = some data →
        WithinLimits breadcrumbDataMaxBytes breadcrumbDataMaxDepth data

section Fits

variable {v entry : Value} {listed : Listed} {maxBytes maxDepth : Nat}

theorem trimField_eq_self_iff {key : String} (hordered : Ordered v) :
    (modifyField v key fun x => trimDatabag x maxBytes maxDepth) = v ↔
      ∀ x, v.get key = some x → WithinLimits maxBytes maxDepth x := by
  rw [modifyField_eq_self_iff hordered]
  exact forall₂_congr fun x hx => trimValue_eq_self_iff (ordered_get hordered hx)

theorem trimFrames_eq_self_iff (hordered : Ordered entry) :
    trimFrames entry = entry ↔
      ∀ frame ∈ frames entry, ∀ vars, frame.get "vars" = some vars →
        WithinLimits varsMaxBytes varsMaxDepth vars := by
  rw [trimFrames, modifyField_eq_self_iff hordered, frames]
  cases hstack : entry.get "stacktrace" with
  | none =>
      exact ⟨fun _ frame hframe => absurd hframe List.not_mem_nil,
        fun _ x hx => absurd hx.symm (Option.some_ne_none _)⟩
  | some stacktrace =>
      have hordered' := ordered_get hordered hstack
      simp only [Option.some.injEq, forall_eq', Option.bind_some]
      rw [modifyField_eq_self_iff hordered']
      cases hframes : stacktrace.get "frames" with
      | none =>
          exact ⟨fun _ frame hframe => absurd hframe List.not_mem_nil,
            fun _ x hx => absurd hx.symm (Option.some_ne_none _)⟩
      | some list =>
          have hlist := ordered_get hordered' hframes
          simp only [Option.some.injEq, forall_eq', Option.bind_some]
          rw [modifyElements_eq_self_iff]
          cases list with
          | array values =>
              simp only [asArray, Option.some.injEq, forall_eq', Option.getD_some]
              exact forall₂_congr fun frame hframe => trimField_eq_self_iff (hlist.child hframe)
          | _ =>
              exact ⟨fun _ frame hframe => absurd hframe List.not_mem_nil,
                fun _ x hx => absurd hx.symm (Option.some_ne_none _)⟩

theorem trimEntry_eq_self_iff (hordered : Ordered entry) :
    listed.trimEntry entry = entry ↔ listed.Fits entry := by
  cases listed with
  | exception => exact trimFrames_eq_self_iff hordered
  | threads => exact trimFrames_eq_self_iff hordered
  | breadcrumbs => exact trimField_eq_self_iff hordered

/-! ### The two spellings -/

/-- Of a list, trimming an event trims the `values`. -/
theorem get_trimOversizedEvent (eventData : Value) :
    (trimOversizedEvent eventData).get listed.key =
      (eventData.get listed.key).map fun root =>
        modifyField root "values" (modifyElements listed.trimEntry) := by
  cases listed <;>
    simp [trimOversizedEvent, trimFramesUnder, trimBreadcrumbData, Listed.key, get_modifyField,
      Listed.trimEntry, Function.comp_def]

theorem entries_bare {values : List Value} (h : v.get listed.key = some (.array values)) :
    listed.entries (trimOversizedEvent v) = some values := by
  rw [Listed.entries, get_trimOversizedEvent, h]
  rfl

theorem entries_wrapped {values : List Value}
    (h : v.get listed.key = some (.object [("values", .array values)])) :
    listed.entries (trimOversizedEvent v) = some (values.map listed.trimEntry) := by
  rw [Listed.entries, get_trimOversizedEvent, h]
  rfl

/-- Two spellings of an event keep the same entries of a list exactly when each of them is
within its limits. -/
theorem entries_trimOversizedEvent_eq_iff {eventData : Value} {values : List Value}
    (hobject : eventData.isObject = true) (hordered : ∀ entry ∈ values, Ordered entry) :
    listed.entries (trimOversizedEvent (eventData.set listed.key (.array values))) =
        listed.entries (trimOversizedEvent
          (eventData.set listed.key (.object [("values", .array values)]))) ↔
      ∀ entry ∈ values, listed.Fits entry := by
  rw [entries_bare (get_set_self hobject), entries_wrapped (get_set_self hobject),
    Option.some.injEq, eq_comm, map_eq_self_iff]
  exact forall₂_congr fun entry hentry => trimEntry_eq_self_iff (hordered entry hentry)

/-- A breadcrumb whose data is short. -/
theorem entries_trimOversizedEvent_short :
    Listed.breadcrumbs.entries (trimOversizedEvent ((Value.object []).set "breadcrumbs"
        (.array [.object [("data", .string "clicked")]]))) =
      Listed.breadcrumbs.entries (trimOversizedEvent ((Value.object []).set "breadcrumbs"
        (.object [("values", .array [.object [("data", .string "clicked")]])]))) ↔
      ∀ entry ∈ [Value.object [("data", .string "clicked")]], Listed.breadcrumbs.Fits entry :=
  entries_trimOversizedEvent_eq_iff rfl (by simp)

/-- The variable of a frame nests six deep: in the `values` its innermost array is dropped, and
in a bare array it stays. -/
theorem bare_exceptions_stay_deep :
    ∃ values, (∀ entry ∈ values, Ordered entry) ∧
      Listed.exception.entries (trimOversizedEvent (.object [("exception", .array values)])) ≠
        Listed.exception.entries (trimOversizedEvent
          (.object [("exception", .object [("values", .array values)])])) := by
  refine ⟨[.object [("stacktrace", .object [("frames", .array [.object [("vars",
    .array [.array [.array [.array [.array [.array [.null]]]]]])]])])]], by simp, fun heq => ?_⟩
  exact absurd (congrArg (Option.map (List.map toJson)) heq) (by decide +kernel)

end Fits

end Rustrak.Trimming
