import Rustrak.Symbolication.Bounds

/-!
# Native stack traces keep their frames

Every answer says which of the requested frames it is for, and the requested frames are numbered as
the weaving counts them.  So each handled frame gets back its own answer, and it gets none only if
it is the outermost of them, of which a null-ish address or what follows `_start` is left out.
-/

namespace Rustrak.Symbolication

open Rustrak.Core
open Rustrak.Weaving
open Native

/-! ## Answers -/

variable {Data Cache : Type} {patterns : Patterns} {build : Build} {libs : Libraries Data Cache}
  {search : Pick Module} {files : NativeFiles Data} {here : Surroundings}

theorem symbolicateNativeFrame_ok {cache : Cache} {m : Module} {position relative : ℕ}
    {frames : List CompleteFrame}
    (h : symbolicateNativeFrame build libs cache m position relative = some (.ok frames)) :
    frames ≠ [] ∧ ∀ c ∈ frames, c.originalIndex = position := by
  obtain ⟨addr, -, h⟩ := Option.map_eq_some_iff.mp h
  cases hframes : (libs.lookup cache relative).map (located m position addr) with
  | nil =>
      rw [hframes] at h
      cases h
  | cons first rest =>
      rw [hframes] at h
      cases h
      refine ⟨nofun, fun c hc => ?_⟩
      rw [← hframes] at hc
      obtain ⟨location, -, rfl⟩ := List.mem_map.mp hc
      rfl

theorem symbolicateFrame_ok {symcaches : List (String × Option Data)} {addr position : ℕ}
    {mode : AddrMode} {adjust : Adjust} {frames : List CompleteFrame}
    (h : symbolicateFrame build libs search symcaches here addr mode position adjust =
      some (.ok frames)) :
    frames ≠ [] ∧ ∀ c ∈ frames, c.originalIndex = position := by
  rw [symbolicateFrame] at h
  split at h
  · cases h
  · split at h
    · cases h
    · cases h
    · dsimp only at h
      split at h
      · cases h
      · obtain ⟨relative, -, h⟩ := Option.bind_eq_some_iff.mp h
        cases relative with
        | none => cases h
        | some relative => exact symbolicateNativeFrame_ok h

/-- A frame's answer is for it, and is left out for an outermost frame only. -/
theorem frameAnswer_spec {frames : List Value} {position : ℕ} {frame : Value}
    {out answer : List CompleteFrame}
    (h : frameAnswer build libs search files here frames position frame out = some answer) :
    (∀ c ∈ answer, c.originalIndex = position) ∧
      (answer = [] → position + 1 = frames.length) := by
  obtain ⟨result, hresult, rfl⟩ := Option.map_eq_some_iff.mp h
  cases result with
  | ok frames =>
      obtain ⟨hne, hall⟩ := symbolicateFrame_ok hresult
      exact ⟨hall, fun hempty => absurd hempty hne⟩
  | error failure =>
      obtain ⟨status, package⟩ := failure
      simp only [answerOf]
      split_ifs with hends
      · refine ⟨nofun, fun _ => ?_⟩
        simp only [endsUnwinding, Bool.or_eq_true, Bool.and_eq_true, decide_eq_true_eq] at hends
        tauto
      · refine ⟨fun c hc => ?_, nofun⟩
        rw [List.mem_singleton.mp hc]
        rfl

/-- The answers of the frames that are left, one for each. -/
theorem symbolicateFrom_spec {frames rest : List Value} {position : ℕ}
    {out complete : List CompleteFrame}
    (h : symbolicateFrom build libs search files here frames position rest out = some complete) :
    ∃ answers : List (List CompleteFrame), complete = out ++ answers.flatten ∧
      List.Forall₂ (fun i answer => ∀ c ∈ answer, c.originalIndex = i)
        (List.range' position rest.length) answers ∧
      ∀ k, answers[k]? = some [] → position + k + 1 = frames.length := by
  induction rest generalizing position out with
  | nil =>
      obtain rfl := Option.some.inj h
      exact ⟨[], by simp, .nil, nofun⟩
  | cons frame rest ih =>
      obtain ⟨answer, hanswer, h⟩ := Option.bind_eq_some_iff.mp h
      obtain ⟨hown, hempty⟩ := frameAnswer_spec hanswer
      obtain ⟨answers, rfl, hall, hlast⟩ := ih h
      refine ⟨answer :: answers, by simp, ?_, fun k hk => ?_⟩
      · rw [List.length_cons, List.range'_succ]
        exact .cons hown hall
      · cases k with
        | zero => exact hempty (Option.some.inj hk)
        | succ k =>
            have hnext := hlast k hk
            omega

theorem originalIndex_withContext (frame : CompleteFrame) :
    (withContext files frame).originalIndex = frame.originalIndex := by
  rw [withContext, applySourceContext]
  split_ifs
  · split
    · split <;> rfl
    · rfl
  · rfl

/-! ## A stack trace -/

theorem length_framesForSymbolication (frames : List Value) (platform : String)
    (adjustment : Option String) :
    (framesForSymbolication frames platform adjustment).length =
      frames.countP (handlesFrame platform) := by
  have hlength : ((frames.reverse.filter (handlesFrame platform)).map fun f =>
      if adjustment.getD "auto" = "none" then setAdjust false f else f).length =
      frames.countP (handlesFrame platform) := by
    rw [List.length_map, ← List.countP_eq_length_filter, List.countP_reverse]
  rw [framesForSymbolication, ← hlength]
  split
  · rename_i hnil
    rw [hnil]
  · rename_i hcons
    rw [hcons]
    rfl

/-- The new frames of a stack trace, from the answers to its requests. -/
theorem newFrames_eq {platform : String} {info : StacktraceInfo} {complete : List CompleteFrame}
    {answers : List (List CompleteFrame)} (hcomplete : complete = answers.flatten)
    (hall : List.Forall₂ (fun i answer => ∀ c ∈ answer, c.originalIndex = i)
      (List.range' 0 (info.frames.countP (handlesFrame platform))) answers) :
    newFrames patterns platform info complete =
      (blocks (handlesFrame platform) (mergeFrame patterns platform) (fun k => answers.getD k [])
        info.frames).flatten := by
  rw [newFrames, ← reverse_weaveFrom, hcomplete]
  congr 2
  funext k
  exact filter_flatten_range hall k

/-- A holder of a stack trace with frames. -/
theorem nativeStacktraces_spec {event : Value} {info : StacktraceInfo}
    (h : info ∈ nativeStacktraces event) :
    ∃ holder, pointer event info.container = some holder ∧ info.frames = framesOf holder ∧
      holder.isObject = true ∧ (index holder "stacktrace").isObject = true := by
  obtain ⟨c, -, hinfo⟩ := List.mem_filterMap.mp h
  obtain ⟨holder, hholder, hinfo⟩ := Option.bind_eq_some_iff.mp hinfo
  dsimp only at hinfo
  split_ifs at hinfo with hnative
  obtain rfl := Option.some.inj hinfo
  obtain ⟨frame, hframe, -⟩ := List.any_eq_true.mp hnative
  have hframes : index (index holder "stacktrace") "frames" ≠ .null := by
    intro hnull
    rw [framesOf, hnull] at hframe
    cases hframe
  have hstacktrace := isObject_of_index hframes
  refine ⟨holder, hholder, rfl, @isObject_of_index holder "stacktrace" ?_, hstacktrace⟩
  intro hnull
  rw [hnull] at hstacktrace
  cases hstacktrace

theorem nodup_nativeStacktraces (event : Value) :
    ((nativeStacktraces event).map (·.container)).Nodup := by
  refine (nodup_containers event).sublist (sublist_map_filterMap (fun c info hinfo => ?_) _)
  obtain ⟨holder, -, hinfo⟩ := Option.bind_eq_some_iff.mp hinfo
  dsimp only at hinfo
  split_ifs at hinfo with hnative
  exact congrArg (·.container) (Option.some.inj hinfo).symm

/-! ## Saving them -/

/-- What becomes of a stack trace and of the raw one. -/
def saved (patterns : Patterns) (platform : String) (done : StacktraceInfo × List CompleteFrame)
    (trace : Value × Value) : Value × Value :=
  (trace.1.set "frames" (.array (newFrames patterns platform done.1 done.2)),
    if done.1.container ≠ .event ∧ 0 < done.1.frames.countP (handlesFrame platform) then
      .object [("frames", .array done.1.frames), ("registers", done.1.registersValue)]
    else trace.2)

section Saving

variable {platform : String} {before : StacktraceInfo × List CompleteFrame → Value × Value}
  {event : Value} {d : StacktraceInfo × List CompleteFrame}

theorem saveStacktrace_self (h : Stands before (·.1.container) event d) :
    traceAt (saveStacktrace patterns platform event d) d.1.container =
      some (saved patterns platform d (before d)) := by
  apply traceAt_modifyAt_self h.1 h.2
  intro holder hholder htrace
  have hset : (setFrames (newFrames patterns platform d.1 d.2) holder).isObject = true :=
    Value.isObject_set hholder
  rw [← htrace, saved]
  dsimp only
  split_ifs with hraw
  · rw [setRaw, index_set_ne (by decide), index_set_self hset, setFrames, index_set_self hholder]
  · rw [setFrames, index_set_self hholder, index_set_ne (by decide)]

theorem saveStacktrace_ne {c : Container} (h : Stands before (·.1.container) event d)
    (hne : c ≠ d.1.container) :
    traceAt (saveStacktrace patterns platform event d) c = traceAt event c := by
  obtain ⟨holder, hholder, -⟩ := Option.map_eq_some_iff.mp h.1
  refine traceAt_modifyAt_ne hne hholder fun hevent => ?_
  rw [if_neg fun hraw => hraw.1 hevent]
  exact apart_set (by decide) (by decide)

end Saving

theorem traceAt_mergeImages {os : Option String} {referenced : List ℕ} (modules : List Module)
    (run : Value × List Value) (c : Container) :
    traceAt (mergeImages patterns libs files os referenced modules run).1 c = traceAt run.1 c := by
  induction modules generalizing run with
  | nil => rfl
  | cons m modules ih =>
      rw [mergeImages, ih]
      exact traceAt_set (by decide) (by decide) (by decide) (by decide)

theorem traceAt_appendErrors (event : Value) (errors : List Value) (c : Container) :
    traceAt (appendErrors event errors) c = traceAt event c := by
  rw [appendErrors]
  split_ifs
  · rfl
  · exact traceAt_set (by decide) (by decide) (by decide) (by decide)

theorem completeAll_spec {event : Value} {lookup : List Module} {infos : List StacktraceInfo}
    {completed : List (StacktraceInfo × List CompleteFrame)}
    (h : completeAll build libs search files event lookup infos = some completed) :
    completed.map Prod.fst = infos ∧ ∀ d ∈ completed, ∃ out,
      symbolicateStacktrace build libs search files (surroundings event lookup d.1)
        (requestOf event d.1) = some out ∧ d.2 = out.map (withContext files) := by
  induction infos generalizing completed with
  | nil =>
      obtain rfl := Option.some.inj h
      exact ⟨rfl, nofun⟩
  | cons info infos ih =>
      obtain ⟨out, hout, h⟩ := Option.bind_eq_some_iff.mp h
      obtain ⟨rest, hrest, rfl⟩ := Option.map_eq_some_iff.mp h
      obtain ⟨hmap, hall⟩ := ih hrest
      refine ⟨by rw [List.map_cons, hmap], fun d hd => ?_⟩
      rcases List.mem_cons.mp hd with rfl | hd
      · exact ⟨out, hout, rfl⟩
      · exact hall d hd

/-! ## Kept -/

/-- A stack trace after symbolication: its frames are woven from the answers to the handled ones,
and what it belongs to has the original ones beside them. -/
structure TraceKept {C : Type} (handled : Value → Bool) (merge : Value → C → Value)
    (frames : List Value) (c : Container) (event' : Value) (answers : List (List C))
    (bs : List (List Value)) : Prop where
  rewoven : Rewoven handled merge frames answers bs (framesOf ((pointer event' c).getD .null))
  raw : c ≠ .event → 0 < frames.countP handled →
    rawFramesOf ((pointer event' c).getD .null) = frames

/-- A native stack trace after symbolication.  The answers are what the lookups give, each for the
handled frame of its number from the callee, and only the outermost handled frame may have none. -/
structure NativeKept (patterns : Patterns) (build : Build) (libs : Libraries Data Cache)
    (search : Pick Module) (files : NativeFiles Data) (event event' : Value)
    (info : StacktraceInfo) (answers : List (List CompleteFrame)) (bs : List (List Value)) :
    Prop where
  kept : TraceKept (handlesFrame (eventPlatform event)) (mergeFrame patterns (eventPlatform event))
    info.frames info.container event' answers bs
  answers_eq : ∃ lookup out, moduleLookup build (modules libs.lowercase event) = some lookup ∧
    symbolicateStacktrace build libs search files (surroundings event lookup info)
      (requestOf event info) = some out ∧ answers.flatten = out.map (withContext files)
  numbered : ∀ (k : ℕ) answer, answers[k]? = some answer → ∀ c ∈ answer, c.originalIndex = k
  outermost : ∀ (i : ℕ) frame, info.frames[i]? = some frame →
    handlesFrame (eventPlatform event) frame = true → bs[i]? = some [] →
      ∀ j < i, ∀ other, info.frames[j]? = some other →
        handlesFrame (eventPlatform event) other = false

theorem framesOf_of_traceAt {event : Value} {c : Container} {trace : Value × Value}
    (h : traceAt event c = some trace) :
    framesOf ((pointer event c).getD .null) = array (index trace.1 "frames") ∧
      rawFramesOf ((pointer event c).getD .null) = array (index trace.2 "frames") := by
  obtain ⟨holder, hholder, rfl⟩ := Option.map_eq_some_iff.mp h
  rw [hholder]
  exact ⟨rfl, rfl⟩

/-- The answers to the requests of a stack trace. -/
theorem answers_of_symbolicateStacktrace {event : Value} {lookup : List Module}
    {info : StacktraceInfo} {out : List CompleteFrame}
    (h : symbolicateStacktrace build libs search files (surroundings event lookup info)
      (requestOf event info) = some out) :
    ∃ answers : List (List CompleteFrame), out.map (withContext files) = answers.flatten ∧
      List.Forall₂ (fun i answer => ∀ c ∈ answer, c.originalIndex = i)
        (List.range' 0 (info.frames.countP (handlesFrame (eventPlatform event)))) answers ∧
      ∀ k, answers[k]? = some [] →
        k + 1 = info.frames.countP (handlesFrame (eventPlatform event)) := by
  have hlength : (requestOf event info).length =
      info.frames.countP (handlesFrame (eventPlatform event)) := length_framesForSymbolication _ _ _
  obtain ⟨answers, rfl, hall, hlast⟩ := symbolicateFrom_spec h
  refine ⟨answers.map (List.map (withContext files)), ?_, ?_, fun k hk => ?_⟩
  · rw [List.nil_append, List.map_flatten]
  · rw [List.forall₂_map_right_iff, ← hlength]
    refine hall.imp fun i answer hanswer c hc => ?_
    obtain ⟨frame, hframe, rfl⟩ := List.mem_map.mp hc
    rw [originalIndex_withContext]
    exact hanswer frame hframe
  · rw [List.getElem?_map] at hk
    obtain ⟨answer, hanswer, hempty⟩ := Option.map_eq_some_iff.mp hk
    rw [List.map_eq_nil_iff.mp hempty] at hanswer
    have hnumber := hlast k hanswer
    omega

/-- The stack traces that an event came with. -/
def traceOf (event : Value) (d : StacktraceInfo × List CompleteFrame) : Value × Value :=
  (traceAt event d.1.container).getD (.null, .null)

/-- Every stack trace is saved where it stood. -/
theorem traceAt_foldl_save {event merged : Value}
    {completed : List (StacktraceInfo × List CompleteFrame)}
    (hmerged : ∀ c, traceAt merged c = traceAt event c)
    (hmap : completed.map Prod.fst = nativeStacktraces event)
    {d : StacktraceInfo × List CompleteFrame} (hd : d ∈ completed) :
    traceAt (completed.foldl (saveStacktrace patterns (eventPlatform event)) merged)
      d.1.container = some (saved patterns (eventPlatform event) d (traceOf event d)) := by
  have hstands : ∀ d ∈ completed, Stands (traceOf event) (·.1.container) merged d := by
    intro d hd
    obtain ⟨holder, hholder, -, -, hobject⟩ :=
      nativeStacktraces_spec (hmap ▸ List.mem_map_of_mem hd)
    have htrace : traceAt event d.1.container =
        some (index holder "stacktrace", index holder "raw_stacktrace") := by
      rw [traceAt, hholder, Option.map_some]
    rw [Stands, hmerged, traceOf, htrace]
    exact ⟨rfl, hobject⟩
  have hnodup : (completed.map (·.1.container)).Nodup := by
    have hcontainers := nodup_nativeStacktraces event
    rwa [← hmap, List.map_map] at hcontainers
  exact @traceAt_foldl _ _ _ _ _
    (fun d => saved patterns (eventPlatform event) d (traceOf event d))
    (fun _ _ => saveStacktrace_self) (fun _ _ _ => saveStacktrace_ne) completed hnodup hstands d hd

section Event

variable {event event' : Value} {info : StacktraceInfo}

theorem nativeKept_of_traceAt {lookup : List Module} {out : List CompleteFrame}
    {trace : Value × Value}
    (hlookup : moduleLookup build (modules libs.lowercase event) = some lookup)
    (hout : symbolicateStacktrace build libs search files (surroundings event lookup info)
      (requestOf event info) = some out)
    (htrace : traceAt event' info.container = some trace)
    (hframes : array (index trace.1 "frames") =
      newFrames patterns (eventPlatform event) info (out.map (withContext files)))
    (hraw : info.container ≠ .event →
      0 < info.frames.countP (handlesFrame (eventPlatform event)) →
        array (index trace.2 "frames") = info.frames) :
    ∃ answers bs,
      NativeKept patterns build libs search files event event' info answers bs := by
  obtain ⟨answers, hanswers, hall, hlast⟩ := answers_of_symbolicateStacktrace hout
  obtain ⟨hnew, hold⟩ := framesOf_of_traceAt htrace
  have hcount : answers.length = info.frames.countP (handlesFrame (eventPlatform event)) := by
    simpa using hall.length_eq.symm
  have hrewoven := @rewoven_blocks _ _ _ (mergeFrame patterns (eventPlatform event)) _ _ hcount
  rw [← newFrames_eq rfl hall, ← hanswers, ← hframes, ← hnew] at hrewoven
  refine ⟨answers, _, ⟨hrewoven, fun hc hhandled => ?_⟩, ⟨lookup, out, hlookup, hout, hanswers.symm⟩,
    fun k answer => number_eq hall, fun i frame hframe hhandled hempty => ?_⟩
  · rw [hold]
    exact hraw hc hhandled
  · obtain ⟨answer, hanswer, hblock⟩ := hrewoven.merged i frame hframe hhandled
    rw [hempty, Option.some.injEq, eq_comm, List.reverse_eq_nil_iff, List.map_eq_nil_iff] at hblock
    rw [hblock] at hanswer
    exact countP_drop_eq hframe hhandled (hlast _ hanswer)

/-- Native symbolication keeps every stack trace. -/
theorem native_kept (h : symbolicateEvent patterns build libs search files event = some event')
    (hinfo : info ∈ nativeStacktraces event) :
    ∃ answers bs,
      NativeKept patterns build libs search files event event' info answers bs := by
  obtain ⟨lookup, hlookup, h⟩ := Option.bind_eq_some_iff.mp h
  obtain ⟨holder, hholder, hframes, -, hobject⟩ := nativeStacktraces_spec hinfo
  have htrace : traceAt event info.container =
      some (index holder "stacktrace", index holder "raw_stacktrace") := by
    rw [traceAt, hholder, Option.map_some]
  dsimp only at h
  split_ifs at h with hempty
  · obtain rfl := Option.some.inj h
    have hrequest : requestOf event info = [] :=
      List.isEmpty_iff.mp (List.all_eq_true.mp hempty _ (List.mem_map_of_mem hinfo))
    have hcount : info.frames.countP (handlesFrame (eventPlatform event)) = 0 := by
      have hlength : (requestOf event info).length = _ := length_framesForSymbolication _ _ _
      rw [← hlength, hrequest, List.length_nil]
    have hout : symbolicateStacktrace build libs search files (surroundings event lookup info)
        (requestOf event info) = some [] := by
      rw [hrequest]
      rfl
    refine nativeKept_of_traceAt hlookup hout htrace ?_ fun _ hhandled => ?_
    · have hnone : List.Forall₂ (fun i answer => ∀ c ∈ answer, c.originalIndex = i)
          (List.range' 0 (info.frames.countP (handlesFrame (eventPlatform event))))
          ([] : List (List CompleteFrame)) := by
        rw [hcount]
        exact .nil
      have hnew := @newFrames_eq patterns (eventPlatform event) info [] [] rfl hnone
      rw [List.map_nil, hnew, flatten_blocks hcount, hframes]
      rfl
    · omega
  · obtain ⟨completed, hcompleted, rfl⟩ := Option.map_eq_some_iff.mp h
    obtain ⟨hmap, hall⟩ := completeAll_spec hcompleted
    obtain ⟨d, hd, rfl⟩ := List.mem_map.mp (hmap ▸ hinfo)
    obtain ⟨out, hout, hcomplete⟩ := hall d hd
    have hmerged := @traceAt_mergeImages _ _ patterns libs files
      (osFromEvent libs.lowercase event) (referenced libs search lookup
        ((nativeStacktraces event).map (requestOf event))) lookup (event, [])
    generalize mergeImages patterns libs files (osFromEvent libs.lowercase event)
      (referenced libs search lookup ((nativeStacktraces event).map (requestOf event))) lookup
      (event, []) = run at hmerged
    obtain ⟨merged, errors⟩ := run
    have hsaved := @traceAt_foldl_save patterns event merged completed hmerged hmap d hd
    rw [← traceAt_appendErrors _ errors] at hsaved
    refine nativeKept_of_traceAt hlookup hout hsaved ?_ fun hc hhandled => ?_
    · rw [saved, traceOf, htrace, Option.getD_some, index_set_self hobject, ← hcomplete]
      rfl
    · rw [saved, if_pos ⟨hc, hhandled⟩]
      rfl

end Event

end Rustrak.Symbolication
