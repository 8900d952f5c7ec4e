import Rustrak.Symbolication.Jvm
import Rustrak.Symbolication.Kept

/-!
# JVM stack traces keep their frames

A remapped frame keeps the position of the frame that it was remapped from, so what is put at a
position is what the mappings answered for the frame there, caller first.  A handled frame may be
answered with nothing at all, at any position.
-/

namespace Rustrak.Symbolication.Jvm

open Rustrak.Core
open Rustrak.Weaving

/-! ## Answers -/

section Answers

variable {mapper : Mapper} {mappers : List Mapper} {releasePackage descriptor : Option String}
  {frame : JvmFrame} {rewrite : Bool}

theorem index_mapFullFrame {carried : Option ℕ} {frames : List JvmFrame}
    (h : (mapFullFrame mapper frame descriptor rewrite carried).1 = .frames frames) :
    ∀ c ∈ frames, c.index = frame.index := by
  rw [mapFullFrame] at h
  dsimp only at h
  split at h
  · cases h
  · split_ifs at h
  · cases h
    intro c hc
    obtain ⟨r, -, rfl⟩ := List.mem_map.mp hc
    rfl

theorem index_mapClassMethod {frames : List JvmFrame}
    (h : (mapClassMethod mapper frame).or (mapClass mapper frame) = some frames) :
    ∀ c ∈ frames, c.index = frame.index := by
  intro c hc
  rcases Option.or_eq_some_iff.mp h with h | ⟨-, h⟩
  · obtain ⟨mapped, -, rfl⟩ := Option.map_eq_some_iff.mp h
    rw [List.mem_singleton.mp hc]
  · obtain ⟨mapped, -, rfl⟩ := Option.map_eq_some_iff.mp h
    rw [List.mem_singleton.mp hc]

theorem index_mapFrame {carried : List (Mapper × Option ℕ)} {frames : List JvmFrame}
    (h : (mapFrame frame descriptor rewrite carried).1 = .mapped (some frames)) :
    ∀ c ∈ frames, c.index = frame.index := by
  induction carried with
  | nil => cases h
  | cons first rest ih =>
      obtain ⟨mapper, carried⟩ := first
      rw [mapFrame] at h
      generalize hfull : mapFullFrame mapper frame descriptor rewrite carried = full at h
      obtain ⟨result, carried⟩ := full
      cases result with
      | outlineFrame => cases h
      | rewriteCleared => cases h
      | frames mapped =>
          cases h
          exact index_mapFullFrame (congrArg Prod.fst hfull)
      | noFrames =>
          dsimp only at h
          cases hother : (mapClassMethod mapper frame).or (mapClass mapper frame) with
          | none =>
              rw [hother] at h
              exact ih h
          | some mapped =>
              rw [hother] at h
              cases h
              exact index_mapClassMethod hother

theorem index_markInApp : (markInApp releasePackage frame).index = frame.index := by
  cases releasePackage with
  | none => rfl
  | some package =>
      rw [markInApp]
      split_ifs <;> rfl

/-- The answer to a frame has its position. -/
theorem index_answerFrame {carried : List (Option ℕ)} :
    ∀ c ∈ (answerFrame mappers releasePackage descriptor frame carried rewrite).1,
      c.index = frame.index := by
  rw [answerFrame]
  generalize hmapped : mapFrame frame descriptor rewrite (mappers.zip carried) = mapped
  obtain ⟨outcome, carried⟩ := mapped
  intro c hc
  cases outcome with
  | skipped cleared => cases hc
  | mapped frames =>
      cases frames with
      | none => rw [List.mem_singleton.mp hc]
      | some frames =>
          have hframes := index_mapFrame (congrArg Prod.fst hmapped)
          obtain ⟨answer, hanswer, rfl⟩ := List.mem_map.mp hc
          rw [index_markInApp]
          split_ifs at hanswer
          · exact hframes answer (List.mem_of_mem_filter hanswer)
          · exact hframes answer hanswer

/-- The answers to the frames, one for each. -/
theorem mapFrom_spec (frames : List JvmFrame) (carried : List (Option ℕ)) (rewrite : Bool)
    (out : List JvmFrame) :
    ∃ answers : List (List JvmFrame),
      mapFrom mappers releasePackage descriptor frames carried rewrite out =
        out ++ answers.flatten ∧
      List.Forall₂ (fun i answer => ∀ c ∈ answer, c.index = i) (frames.map (·.index)) answers := by
  induction frames generalizing carried rewrite out with
  | nil => exact ⟨[], by simp [mapFrom], .nil⟩
  | cons frame frames ih =>
      rw [mapFrom]
      have hown := @index_answerFrame mappers releasePackage descriptor frame rewrite carried
      generalize answerFrame mappers releasePackage descriptor frame carried rewrite = answered
        at hown
      obtain ⟨answer, carried, rewrite⟩ := answered
      obtain ⟨answers, hanswers, hall⟩ := ih carried rewrite (out ++ answer)
      refine ⟨answer :: answers, ?_, .cons hown hall⟩
      rw [List.flatten_cons, ← List.append_assoc]
      exact hanswers

end Answers

/-! ## A stack trace -/

section Event

variable {Data : Type} {files : JvmFiles Data} {patterns : Patterns} {platform : String}
  {releasePackage : Option String} {event event' : Value} {info : StacktraceInfo}

theorem index_applySourceContext (frame : JvmFrame) :
    (applySourceContext files frame).index = frame.index := by
  rw [applySourceContext]
  split
  · rfl
  · split <;> rfl

theorem map_index_requestOf :
    (requestOf platform info).map (·.index) = positions (handlesFrame platform) 0 info.frames := by
  rw [← map_snd_filter_zipIdx, requestOf, List.map_map]
  rfl

/-- What the mappings answer to the handled frames of a stack trace, callee first. -/
def answered (files : JvmFiles Data) (platform : String) (releasePackage : Option String)
    (info : StacktraceInfo) : List JvmFrame :=
  (mapStacktrace files (mappersOf files) (requestOf platform info).reverse releasePackage
    (info.exception.map (mappedException (mappersOf files)))).map (applySourceContext files)

/-- The answers to the requests of a stack trace, and its new frames. -/
theorem newFrames_spec :
    ∃ answers : List (List JvmFrame),
      answers.flatten = answered files platform releasePackage info ∧
      List.Forall₂ (fun i answer => ∀ c ∈ answer, c.index = i)
        (positions (handlesFrame platform) 0 info.frames).reverse answers ∧
      newFrames files platform releasePackage info =
        (blocks (handlesFrame platform) mergeFrame (fun k => answers.getD k [])
          info.frames).flatten := by
  obtain ⟨answers, hanswers, hall⟩ := @mapFrom_spec (mappersOf files) releasePackage
    ((info.exception.map (mappedException (mappersOf files))).map fun exc =>
      files.descriptor exc.fullClassName) (requestOf platform info).reverse
    ((mappersOf files).map fun _ => none) _ []
  have hflatten : (answers.map (List.map (applySourceContext files))).flatten =
      answered files platform releasePackage info := by
    rw [answered, mapStacktrace, hanswers, List.nil_append, List.map_flatten]
  have hpositions : List.Forall₂ (fun i answer => ∀ c ∈ answer, c.index = i)
      (positions (handlesFrame platform) 0 info.frames).reverse
      (answers.map (List.map (applySourceContext files))) := by
    rw [List.map_reverse, map_index_requestOf] at hall
    refine List.forall₂_map_right_iff.mpr (hall.imp fun i answer hanswer c hc => ?_)
    obtain ⟨frame, hframe, rfl⟩ := List.mem_map.mp hc
    rw [index_applySourceContext]
    exact hanswer frame hframe
  refine ⟨_, hflatten, hpositions, ?_⟩
  rw [← placeFrom_answers hpositions, hflatten, newFrames, remappedOf, List.map_reverse]
  rfl

/-- A holder of a stack trace with frames. -/
theorem stacktraces_spec (h : info ∈ stacktraces event) :
    ∃ holder, pointer event info.container = some holder ∧ info.frames = framesOf holder ∧
      (index holder "stacktrace").isObject = true := by
  obtain ⟨c, -, hinfo⟩ := List.mem_filterMap.mp h
  obtain ⟨holder, hholder, hinfo⟩ := Option.bind_eq_some_iff.mp hinfo
  split_ifs at hinfo with hframes
  obtain rfl := Option.some.inj hinfo
  refine ⟨holder, hholder, rfl, @isObject_of_index _ "frames" fun hnull => hframes ?_⟩
  rw [framesOf, hnull]
  rfl

theorem nodup_stacktraces (event : Value) : ((stacktraces event).map (·.container)).Nodup := by
  refine (nodup_containers event).sublist (sublist_map_filterMap (fun c info hinfo => ?_) _)
  obtain ⟨holder, -, hinfo⟩ := Option.bind_eq_some_iff.mp hinfo
  split_ifs at hinfo with hframes
  exact congrArg (·.container) (Option.some.inj hinfo).symm

/-! ## Saving them -/

/-- What becomes of a stack trace and of the raw one. -/
def saved (files : JvmFiles Data) (platform : String) (releasePackage : Option String)
    (info : StacktraceInfo) (trace : Value × Value) : Value × Value :=
  (trace.1.set "frames" (.array (newFrames files platform releasePackage info)),
    if info.container ≠ .event then .object [("frames", .array info.frames)] else trace.2)

section Saving

variable {before : StacktraceInfo → Value × Value}

theorem saveStacktrace_self (h : Stands before (·.container) event info) :
    traceAt (saveStacktrace files platform releasePackage event info) info.container =
      some (saved files platform releasePackage info (before info)) := by
  apply traceAt_modifyAt_self h.1 h.2
  intro holder hholder htrace
  have hset : (setFrames (newFrames files platform releasePackage info) holder).isObject = true :=
    Value.isObject_set hholder
  rw [← htrace, saved]
  dsimp only
  split_ifs with hraw
  · rw [setRaw, index_set_ne (by decide), index_set_self hset, setFrames, index_set_self hholder]
  · rw [setFrames, index_set_self hholder, index_set_ne (by decide)]

theorem saveStacktrace_ne {c : Container} (h : Stands before (·.container) event info)
    (hne : c ≠ info.container) :
    traceAt (saveStacktrace files platform releasePackage event info) c = traceAt event c := by
  obtain ⟨holder, hholder, -⟩ := Option.map_eq_some_iff.mp h.1
  refine traceAt_modifyAt_ne hne hholder fun hevent => ?_
  rw [if_neg fun hraw => hraw hevent]
  exact apart_set (by decide) (by decide)

end Saving

/-- Every stack trace is saved where it stood. -/
theorem traceAt_foldl_save {holder : Value} (hinfo : info ∈ stacktraces event)
    (hholder : pointer event info.container = some holder) :
    traceAt ((stacktraces event).foldl (saveStacktrace files platform releasePackage) event)
      info.container = some (saved files platform releasePackage info
        (index holder "stacktrace", index holder "raw_stacktrace")) := by
  let before (info : StacktraceInfo) : Value × Value :=
    (traceAt event info.container).getD (.null, .null)
  have hstands : ∀ info ∈ stacktraces event, Stands before (·.container) event info := by
    intro info hinfo
    obtain ⟨holder, hholder, -, hobject⟩ := stacktraces_spec hinfo
    have htrace : traceAt event info.container =
        some (index holder "stacktrace", index holder "raw_stacktrace") := by
      rw [traceAt, hholder, Option.map_some]
    exact ⟨by rw [htrace]; simp only [before, htrace, Option.getD_some],
      by simpa only [before, htrace, Option.getD_some] using hobject⟩
  have hsaved := @traceAt_foldl event _ _ _ before
    (fun info => saved files platform releasePackage info (before info))
    (fun _ _ => saveStacktrace_self) (fun _ _ _ => saveStacktrace_ne) _ (nodup_stacktraces event)
    hstands info hinfo
  rw [hsaved]
  simp only [before, traceAt, hholder, Option.map_some, Option.getD_some]

/-! ## What else is saved -/

theorem traceAt_appendErrors (event : Value) (errors : List Value) (c : Container) :
    traceAt (appendErrors event errors) c = traceAt event c := by
  rw [appendErrors]
  split_ifs
  · rfl
  · exact traceAt_set (by decide) (by decide) (by decide) (by decide)

/-- A change to something that holds a stack trace, but not to what it holds. -/
def KeepsTraces (f : Value → Value) : Prop :=
  ∀ holder, index (f holder) "stacktrace" = index holder "stacktrace" ∧
    index (f holder) "raw_stacktrace" = index holder "raw_stacktrace"

theorem keepsTraces_saveException (mapped : JvmException) : KeepsTraces (saveException mapped) := by
  intro holder
  rw [saveException]
  constructor
  · iterate 4 rw [index_set_ne (by decide)]
  · iterate 4 rw [index_set_ne (by decide)]

theorem keepsTraces_saveValue (classes : String → Option String) :
    KeepsTraces (saveValue patterns classes) := by
  intro holder
  rw [saveValue]
  split
  · exact ⟨rfl, rfl⟩
  · split
    · constructor
      · iterate 2 rw [index_set_ne (by decide)]
      · iterate 2 rw [index_set_ne (by decide)]
    · exact ⟨rfl, rfl⟩

theorem keepsTraces_replaceMethod : KeepsTraces replaceMethod := by
  intro holder
  rw [replaceMethod]
  split
  · exact ⟨index_set_ne (by decide), index_set_ne (by decide)⟩
  · exact ⟨rfl, rfl⟩

theorem traceAt_foldl_exceptions {E : Type} {f : E → Value → Value} {place : E → ℕ}
    (hf : ∀ e, KeepsTraces (f e)) (es : List E) (event : Value) (c : Container) :
    traceAt (es.foldl (fun event e => modifyAt event (f e) (.exception (place e))) event) c =
      traceAt event c := by
  induction es generalizing event with
  | nil => rfl
  | cons e es ih => rw [List.foldl_cons, ih, traceAt_modifyAt_exception (hf e)]

theorem traceAt_openValues (h : openValues event = some event') (c : Container) :
    traceAt event' c = traceAt event c := by
  rw [openValues] at h
  split_ifs at h with hopen
  obtain rfl := Option.some.inj h
  cases c with
  | event =>
      simp only [traceAt, pointer, Option.map_some]
      rw [index_set_ne (by decide), index_set_ne (by decide)]
  | exception i =>
      by_cases hevent : (event.isObject || isNull event) = true
      · rw [traceAt, pointer, valuesOf, index_set_open hevent, index_set_open hopen, traceAt,
          pointer, valuesOf]
      · cases event <;> first | rfl | exact absurd rfl hevent
  | thread i =>
      rw [traceAt, pointer, valuesOf_set_ne (by decide), traceAt, pointer]

/-- What is saved after the stack traces does not touch them. -/
theorem traceAt_deobfuscateAndSave {mappers : List Mapper} {found : List (JvmException × ℕ)}
    {mentioned : List (ℕ × List String)} {names : List String}
    (h : deobfuscateAndSave patterns mappers found mentioned names event = some event')
    (c : Container) : traceAt event' c = traceAt event c := by
  obtain ⟨opened, hopened, rfl⟩ := Option.map_eq_some_iff.mp h
  have hfound : traceAt (saveExceptions mappers found opened) c = traceAt event c := by
    rw [← traceAt_openValues hopened]
    exact traceAt_foldl_exceptions (fun exc => keepsTraces_saveException _) found opened c
  split_ifs
  · exact hfound
  · rw [← hfound]
    exact traceAt_foldl_exceptions (fun _ => keepsTraces_saveValue _) mentioned _ c

theorem traceAt_deobfuscateExceptionValue (event : Value) (c : Container) :
    traceAt (deobfuscateExceptionValue event) c = traceAt event c := by
  rw [deobfuscateExceptionValue]
  split_ifs
  · rfl
  · exact traceAt_modifyAt_exception keepsTraces_replaceMethod

/-! ## Kept -/

/-- A JVM stack trace after symbolication.  The answers are what the mappings give, each for the
handled frame whose position it has. -/
structure JvmKept (files : JvmFiles Data) (releasePackage : Option String) (event event' : Value)
    (info : StacktraceInfo) (answers : List (List JvmFrame)) (bs : List (List Value)) : Prop where
  kept : TraceKept (handlesFrame (eventPlatform event)) mergeFrame info.frames info.container
    event' answers bs
  answers_eq : answers.flatten = answered files (eventPlatform event) releasePackage info
  numbered : List.Forall₂ (fun i answer => ∀ c ∈ answer, c.index = i)
    (positions (handlesFrame (eventPlatform event)) 0 info.frames).reverse answers

theorem jvmKept_of_traceAt {trace : Value × Value}
    (htrace : traceAt event' info.container = some trace)
    (hframes : array (index trace.1 "frames") =
      newFrames files (eventPlatform event) releasePackage info)
    (hraw : info.container ≠ .event →
      0 < info.frames.countP (handlesFrame (eventPlatform event)) →
        array (index trace.2 "frames") = info.frames) :
    ∃ answers bs, JvmKept files releasePackage event event' info answers bs := by
  obtain ⟨answers, hanswers, hall, hnew⟩ :=
    @newFrames_spec _ files (eventPlatform event) releasePackage info
  obtain ⟨hnow, hold⟩ := framesOf_of_traceAt htrace
  have hcount : answers.length = info.frames.countP (handlesFrame (eventPlatform event)) := by
    rw [← hall.length_eq, List.length_reverse, length_positions]
  have hrewoven := @rewoven_blocks _ _ _ mergeFrame _ _ hcount
  rw [← hnew, ← hframes, ← hnow] at hrewoven
  refine ⟨answers, _, ⟨hrewoven, fun hc hhandled => ?_⟩, hanswers, hall⟩
  rw [hold]
  exact hraw hc hhandled

/-- JVM symbolication keeps every stack trace. -/
theorem jvm_kept (h : symbolicateEvent files patterns releasePackage event = some event')
    (hinfo : info ∈ stacktraces event) :
    ∃ answers bs, JvmKept files releasePackage event event' info answers bs := by
  obtain ⟨holder, hholder, hframes, hobject⟩ := stacktraces_spec hinfo
  rw [symbolicateEvent] at h
  dsimp only at h
  split at h
  · rename_i hempty
    obtain rfl := Option.some.inj h
    have htrace : traceAt event info.container =
        some (index holder "stacktrace", index holder "raw_stacktrace") := by
      rw [traceAt, hholder, Option.map_some]
    simp only [Bool.and_eq_true] at hempty
    have hrequest : requestOf (eventPlatform event) info = [] :=
      List.isEmpty_iff.mp (List.all_eq_true.mp hempty.1.1 _ (List.mem_map_of_mem hinfo))
    have hcount : info.frames.countP (handlesFrame (eventPlatform event)) = 0 := by
      rw [← length_positions 0, ← map_index_requestOf, hrequest, List.map_nil, List.length_nil]
    obtain ⟨answers, -, -, hnew⟩ :=
      @newFrames_spec _ files (eventPlatform event) releasePackage info
    refine jvmKept_of_traceAt htrace ?_ fun _ hhandled => ?_
    · rw [hnew, flatten_blocks hcount, hframes]
      rfl
    · omega
  · obtain ⟨deobfuscated, hdeobfuscated, rfl⟩ := Option.map_eq_some_iff.mp h
    have hsaved := @traceAt_foldl_save _ files (eventPlatform event) releasePackage event info
      holder hinfo hholder
    rw [← traceAt_appendErrors _ (mappingErrors files),
      ← traceAt_deobfuscateAndSave hdeobfuscated] at hsaved
    have hlast : traceAt (if files.proguard = [] then deobfuscated
        else deobfuscateExceptionValue deobfuscated) info.container =
        traceAt deobfuscated info.container := by
      split_ifs
      · rfl
      · exact traceAt_deobfuscateExceptionValue deobfuscated info.container
    refine jvmKept_of_traceAt (hlast.trans hsaved) ?_ fun hc _ => ?_
    · rw [saved, index_set_self hobject]
      rfl
    · rw [saved, if_pos hc]
      rfl

/-! ## It returns -/

/-- The exceptions can be asked for their values. -/
def Opens (event : Value) : Prop :=
  ((index event "exception").isObject || isNull (index event "exception")) = true

theorem opens_set {key : String} {field : Value} (hne : "exception" ≠ key) (h : Opens event) :
    Opens (event.set key field) := by
  rwa [Opens, index_set_ne hne]

theorem opens_setValues {values : List Value} (h : Opens event) :
    Opens (setValues event "exception" values) := by
  rw [Opens, setValues]
  by_cases hevent : (event.isObject || isNull event) = true
  · rw [index_set_open hevent]
    rw [Opens] at h
    cases hexception : index event "exception" with
    | object fields => rfl
    | null => rfl
    | _ =>
        rw [hexception] at h
        cases h
  · cases event <;> first | exact h | exact absurd rfl hevent

theorem opens_foldl_save (h : Opens event) (infos : List StacktraceInfo) :
    Opens (infos.foldl (saveStacktrace files platform releasePackage) event) := by
  induction infos generalizing event with
  | nil => exact h
  | cons info infos ih =>
      apply ih
      rw [saveStacktrace]
      cases info.container with
      | exception i => exact opens_setValues h
      | event => exact opens_set (by decide) h
      | thread i => exact opens_set (by decide) h

/-- Only exceptions that are a list or a text, of which no value can be asked, make it panic. -/
theorem symbolicateEvent_isSome (h : Opens event) :
    (symbolicateEvent files patterns releasePackage event).isSome = true := by
  rw [symbolicateEvent]
  dsimp only
  split
  · rfl
  · have hopens : Opens (appendErrors ((stacktraces event).foldl
        (saveStacktrace files (eventPlatform event) releasePackage) event)
          (mappingErrors files)) := by
      rw [appendErrors]
      split_ifs
      · exact opens_foldl_save h _
      · exact opens_set (by decide) (opens_foldl_save h _)
    rw [Opens] at hopens
    rw [Option.isSome_map, deobfuscateAndSave, Option.isSome_map, openValues, if_pos hopens]
    rfl

end Event

end Rustrak.Symbolication.Jvm

namespace Rustrak.Symbolication

open Rustrak.Core

/-- Whatever the symbol caches and the mappings answer, every stack trace that is symbolicated
keeps its frames: each is itself, or is replaced by what it was answered with. -/
theorem symbolication_keeps {Data Cache JvmData : Type} (patterns : Native.Patterns) (build : Build)
    (libs : Libraries Data Cache) (search : Pick Module)
    (files : Native.NativeFiles Data) (jvmFiles : Jvm.JvmFiles JvmData)
    (jvmPatterns : Jvm.Patterns) (releasePackage : Option String) (event event' : Value) :
    (Native.symbolicateEvent patterns build libs search files event = some event' →
      ∀ info ∈ Native.nativeStacktraces event, ∃ answers bs,
        NativeKept patterns build libs search files event event' info answers bs) ∧
    (Jvm.symbolicateEvent jvmFiles jvmPatterns releasePackage event = some event' →
      ∀ info ∈ Jvm.stacktraces event, ∃ answers bs,
        Jvm.JvmKept jvmFiles releasePackage event event' info answers bs) ∧
    (Jvm.Opens event →
      (Jvm.symbolicateEvent jvmFiles jvmPatterns releasePackage event).isSome = true) :=
  ⟨fun h _ => native_kept h, fun h _ => Jvm.jvm_kept h, Jvm.symbolicateEvent_isSome⟩

end Rustrak.Symbolication
