import Rustrak.Symbolication.Traces
import Rustrak.Core.Text
import Rustrak.Weaving.Blocks

/-!
# JVM stack traces

`symbolicate_event` of `services/jvm.rs`.  The handled frames of a stack trace are remapped callee
first by the first mapping that knows them, each becomes the frames that were inlined into it or
none, and these are put back by the position that they were read from.

What a ProGuard mapping answers is any, and so is what the regular expressions find in a text.
-/

namespace Rustrak.Symbolication.Jvm

open Rustrak.Core
open Rustrak.Weaving

/-! ## Frames and exceptions -/

structure JvmFrame where
  function : String
  module : String
  filename : Option String
  absPath : Option String
  lineno : Option ℕ
  inApp : Option Bool
  preContext : List String
  contextLine : Option String
  postContext : List String
  methodSynthesized : Bool
  index : ℕ
  deriving DecidableEq, Repr

def JvmFrame.fromValue (frame : Value) (position : ℕ) : JvmFrame where
  function := (frame.str "function").getD ""
  module := (frame.str "module").getD ""
  filename := frame.str "filename"
  absPath := frame.str "abs_path"
  lineno := (Symbolication.index frame "lineno").asU64.map (· % 2 ^ 32)
  inApp := (Symbolication.index frame "in_app").asBool
  preContext := []
  contextLine := none
  postContext := []
  methodSynthesized := false
  index := position

structure JvmException where
  ty : String
  module : String
  deriving DecidableEq, Repr

def JvmException.fromValue (exc : Value) : Option JvmException :=
  ((exc.str "type").filter (· ≠ "")).map fun ty => { ty, module := (exc.str "module").getD "" }

def JvmException.fullClassName (exc : JvmException) : String :=
  if exc.module = "" then exc.ty else exc.module ++ "." ++ exc.ty

def javaPlatforms : List String := ["java"]

/-- `_handles_frame`. -/
def handlesFrame (platform : String) (frame : Value) : Bool :=
  (frame.get "function").isSome && (frame.get "module").isSome &&
    javaPlatforms.contains (framePlatform frame platform)

structure StacktraceInfo where
  container : Container
  frames : List Value
  exception : Option JvmException
  deriving Repr

def stacktraceInfo (event : Value) (container : Container) : Option StacktraceInfo :=
  (pointer event container).bind fun holder =>
    if framesOf holder = [] then none
    else
      some
        { container
          frames := framesOf holder
          exception := match container with
            | .exception _ => JvmException.fromValue holder
            | _ => none }

def stacktraces (event : Value) : List StacktraceInfo :=
  (containers event).filterMap (stacktraceInfo event)

def insertText (key : String) (value : String) (frame : Value) : Value :=
  if value = "" then frame else frame.set key (.string value)

def insertOrRemove (key : String) (value : Option String) (frame : Value) : Value :=
  match value.filter (· ≠ "") with
  | some value => frame.set key (.string value)
  | none => frame.remove key

def insertLines (key : String) (lines : List String) (frame : Value) : Value :=
  if lines = [] then frame else frame.set key (.array (lines.map .string))

def insertSome (key : String) (value : Option Value) (frame : Value) : Value :=
  match value with
  | some value => frame.set key value
  | none => frame

/-- `_merge_frame`. -/
def mergeFrame (frame : Value) (symbolicated : JvmFrame) : Value :=
  if frame.isObject then
    let frame := insertText "function" symbolicated.function frame
    let frame := insertOrRemove "abs_path" symbolicated.absPath frame
    let frame := insertOrRemove "filename" symbolicated.filename frame
    let frame := insertSome "lineno" (symbolicated.lineno.map fun n => .number (.int n)) frame
    let frame := insertText "module" symbolicated.module frame
    let frame := insertSome "in_app" (symbolicated.inApp.map .bool) frame
    let frame := insertLines "pre_context" symbolicated.preContext frame
    let frame := insertSome "context_line" (symbolicated.contextLine.map .string) frame
    let frame := insertLines "post_context" symbolicated.postContext frame
    if symbolicated.methodSynthesized then
      (frame.set "method_synthesized" (.bool true)).set "in_app" (.bool false)
    else frame
  else frame

/-! ## Remapping -/

/-- What a mapping makes of a frame. -/
structure Remapped where
  className : String
  method : String
  line : Option ℕ
  file : Option String
  methodSynthesized : Bool
  deriving DecidableEq, Repr

/-- A `ProguardCache`.  `remapFrame` is `remap_frame_with_context`: of a class, a method and a line,
an exception's descriptor, whether to rewrite and the position carried from an outlined frame; it
tells whether there were mappings, what they give, and the position to carry on. -/
structure Mapper where
  remapClass : String → Option String
  remapMethod : String → String → Option (String × String)
  remapFrame : String → String → ℕ → Option String → Bool → Option ℕ →
    Option (Bool × List Remapped) × Option ℕ

/-- What is not of this file: `ProguardCache::parse`, `class_name_to_descriptor`, and what the
source bundles give for a file and a line. -/
structure JvmFiles (Data : Type) where
  proguard : List (String × Option Data)
  parse : Data → Option Mapper
  descriptor : String → String
  context : String → ℕ → Option (List String × String × List String)

/-- The text before and after the last dot. -/
def rsplitDot (text : String) : Option (String × String) :=
  let after := text.toList.reverse.takeWhile (· ≠ '.')
  match text.toList.reverse.dropWhile (· ≠ '.') with
  | [] => none
  | _ :: before => some (String.ofList before.reverse, String.ofList after.reverse)

def mapException (mappers : List Mapper) (exception : JvmException) : Option JvmException :=
  (mappers.findSome? fun m => m.remapClass exception.fullClassName).map fun mapped =>
    match rsplitDot mapped with
    | some (module, ty) => { ty, module }
    | none => { ty := mapped, module := "" }

inductive FullRemapResult
  | outlineFrame
  | rewriteCleared
  | frames (frames : List JvmFrame)
  | noFrames

def remappedFrame (original : JvmFrame) (r : Remapped) : JvmFrame :=
  { original with
    module := r.className
    function := r.method
    lineno := r.line.map (· % 2 ^ 32)
    absPath := r.file.or original.absPath
    filename := r.file.or original.filename
    methodSynthesized := r.methodSynthesized }

def mapFullFrame (mapper : Mapper) (original : JvmFrame) (descriptor : Option String)
    (rewrite : Bool) (carried : Option ℕ) : FullRemapResult × Option ℕ :=
  let (found, carried) := mapper.remapFrame original.module original.function
    (original.lineno.getD 0) descriptor rewrite carried
  (match found with
    | none => .outlineFrame
    | some (hadMappings, []) => if hadMappings then .rewriteCleared else .noFrames
    | some (_, frames) => .frames (frames.map (remappedFrame original)), carried)

def mapClassMethod (mapper : Mapper) (frame : JvmFrame) : Option (List JvmFrame) :=
  (mapper.remapMethod frame.module frame.function).map fun mapped =>
    [{ frame with module := mapped.1, function := mapped.2 }]

def mapClass (mapper : Mapper) (frame : JvmFrame) : Option (List JvmFrame) :=
  (mapper.remapClass frame.module).map fun mapped => [{ frame with module := mapped }]

/-- What the mappings come to: the frame is skipped, with rewriting on or off afterwards, or it is
mapped by the first that knows it, or by none. -/
inductive Outcome
  | skipped (cleared : Bool)
  | mapped (frames : Option (List JvmFrame))

/-- The mappings in turn, each with the position that it carries. -/
def mapFrame (frame : JvmFrame) (descriptor : Option String) (rewrite : Bool) :
    List (Mapper × Option ℕ) → Outcome × List (Option ℕ)
  | [] => (.mapped none, [])
  | (mapper, carried) :: rest =>
      let (result, carried) := mapFullFrame mapper frame descriptor rewrite carried
      let others := rest.map Prod.snd
      match result with
      | .outlineFrame => (.skipped false, carried :: others)
      | .rewriteCleared => (.skipped true, carried :: others)
      | .frames frames => (.mapped (some frames), carried :: others)
      | .noFrames =>
          match (mapClassMethod mapper frame).or (mapClass mapper frame) with
          | some frames => (.mapped (some frames), carried :: others)
          | none =>
              let (outcome, others) := mapFrame frame descriptor rewrite rest
              (outcome, carried :: others)

/-- A frame of the app's own package is in the app. -/
def markInApp (releasePackage : Option String) (frame : JvmFrame) : JvmFrame :=
  match releasePackage with
  | some package =>
      if startsWith frame.module package && frame.inApp.isNone then
        { frame with inApp := some true }
      else frame
  | none => frame

/-- What a frame is answered with, and what is carried on. -/
def answerFrame (mappers : List Mapper) (releasePackage descriptor : Option String)
    (frame : JvmFrame) (carried : List (Option ℕ)) (rewrite : Bool) :
    List JvmFrame × List (Option ℕ) × Bool :=
  let (outcome, carried) := mapFrame frame descriptor rewrite (mappers.zip carried)
  match outcome with
  | .skipped cleared => ([], carried, rewrite && !cleared)
  | .mapped none => ([frame], carried, false)
  | .mapped (some frames) =>
      -- synthesized frames go, but only when the frame had a line number
      let frames := if frame.lineno.isSome then frames.filter (!·.methodSynthesized) else frames
      (frames.map (markInApp releasePackage), carried, false)

def mapFrom (mappers : List Mapper) (releasePackage descriptor : Option String) :
    List JvmFrame → List (Option ℕ) → Bool → List JvmFrame → List JvmFrame
  | [], _, _, out => out
  | frame :: frames, carried, rewrite, out =>
      let (answer, carried, rewrite) :=
        answerFrame mappers releasePackage descriptor frame carried rewrite
      mapFrom mappers releasePackage descriptor frames carried rewrite (out ++ answer)

/-- `map_stacktrace`, with frames callee first. -/
def mapStacktrace {Data : Type} (files : JvmFiles Data) (mappers : List Mapper)
    (stacktrace : List JvmFrame) (releasePackage : Option String)
    (exception : Option JvmException) : List JvmFrame :=
  let descriptor := exception.map fun exc => files.descriptor exc.fullClassName
  mapFrom mappers releasePackage descriptor stacktrace (mappers.map fun _ => none)
    descriptor.isSome []

/-! ## Source context -/

/-- `build_source_file_name`: `~/<package path>/<file stem>.jvm`. -/
def buildSourceFileName (frame : JvmFrame) : String :=
  let slashes (text : String) : String :=
    String.ofList (text.toList.map fun c => if c = '.' then '/' else c)
  let validPath := ((frame.absPath.filter fun p => !p.toList.contains '$').bind rsplitDot).map
    Prod.fst
  "~/" ++ (match validPath with
    | some stem =>
        (match rsplitDot frame.module with
          | some (package, _) => slashes package ++ "/"
          | none => "") ++ stem
    | none => slashes (String.ofList (frame.module.toList.takeWhile (· ≠ '$')))) ++ ".jvm"

section Event

variable {Data : Type} (files : JvmFiles Data)

def applySourceContext (frame : JvmFrame) : JvmFrame :=
  match frame.lineno.filter (· ≠ 0) with
  | none => frame
  | some lineno =>
      match files.context (buildSourceFileName frame) lineno with
      | some (pre, line, post) =>
          { frame with preContext := pre, contextLine := some line, postContext := post }
      | none => frame

/-! ## The event -/

/-- What the regular expressions find in the value of an exception: class names, and what it says
with some of them replaced. -/
structure Patterns where
  classesIn : String → List String
  deobfuscate : (String → Option String) → String → Option String

def mappersOf : List Mapper :=
  files.proguard.filterMap fun file => file.2.bind files.parse

def missing (ty symbolicatorType uuid : String) : Value :=
  .object [("type", .string ty), ("symbolicator_type", .string symbolicatorType),
    ("mapping_uuid", .string uuid)]

def mappingErrors : List Value :=
  files.proguard.filterMap fun file =>
    match file.2.map files.parse with
    | some (some _) => none
    | some none => some (missing "proguard_missing_lineno" "invalid" file.1)
    | none => some (missing "proguard_missing_mapping" "missing" file.1)

/-- The handled frames with their positions. -/
def requestOf (platform : String) (info : StacktraceInfo) : List JvmFrame :=
  (info.frames.zipIdx.filter fun f => handlesFrame platform f.1).map fun f =>
    JvmFrame.fromValue f.1 f.2

def mappedException (mappers : List Mapper) (exception : JvmException) : JvmException :=
  (mapException mappers exception).getD exception

/-- The answers to a stack trace's handled frames, caller first. -/
def remappedOf (platform : String) (releasePackage : Option String) (info : StacktraceInfo) :
    List JvmFrame :=
  ((mapStacktrace files (mappersOf files) (requestOf platform info).reverse releasePackage
    (info.exception.map (mappedException (mappersOf files)))).reverse).map
      (applySourceContext files)

def newFrames (platform : String) (releasePackage : Option String) (info : StacktraceInfo) :
    List Value :=
  let remapped := remappedOf files platform releasePackage info
  placeFrom (handlesFrame platform) mergeFrame
    (fun i => remapped.filter fun f => f.index = i) 0 info.frames

def setRaw (info : StacktraceInfo) (holder : Value) : Value :=
  holder.set "raw_stacktrace" (.object [("frames", .array info.frames)])

def saveStacktrace (platform : String) (releasePackage : Option String) (event : Value)
    (info : StacktraceInfo) : Value :=
  modifyAt event (fun holder =>
    let holder := setFrames (newFrames files platform releasePackage info) holder
    if info.container ≠ .event then setRaw info holder else holder) info.container

def appendErrors (event : Value) (errors : List Value) : Value :=
  if errors = [] then event
  else event.set "errors" (.array (array (index event "errors") ++ errors))

/-- Every exception with a type, and its position. -/
def processable (event : Value) : List (JvmException × ℕ) :=
  (valuesOf event "exception").zipIdx.filterMap fun exc =>
    (JvmException.fromValue exc.1).map fun e => (e, exc.2)

/-- The positions of the exceptions whose values mention classes, with these. -/
def withValues (patterns : Patterns) (event : Value) : List (ℕ × List String) :=
  (valuesOf event "exception").zipIdx.filterMap fun exc =>
    ((exc.1.str "value").filter (· ≠ "")).bind fun value =>
      if patterns.classesIn value = [] then none else some (exc.2, patterns.classesIn value)

def isQuoted (token : List Char) : Bool :=
  decide (2 ≤ token.length) &&
    ((token.head? == some '\'' && token.getLast? == some '\'') ||
      (token.head? == some '"' && token.getLast? == some '"'))

def stripQuotes (token : String) : String :=
  if isQuoted token.toList then String.ofList (token.toList.drop 1).dropLast else token

def classNames (patterns : Patterns) (event : Value) : List String :=
  (withValues patterns event).flatMap fun exc => exc.2.map stripQuotes

def saveException (mapped : JvmException) (exc : Value) : Value :=
  let exc := exc.set "raw_module" (index exc "module")
  let exc := exc.set "raw_type" (index exc "type")
  let exc := exc.set "module" (.string mapped.module)
  exc.set "type" (.string mapped.ty)

def saveValue (patterns : Patterns) (classes : String → Option String) (exc : Value) : Value :=
  match exc.str "value" with
  | none => exc
  | some original =>
      match patterns.deobfuscate classes original with
      | some value => (exc.set "raw_value" (.string original)).set "value" (.string value)
      | none => exc

/-- `&mut event["exception"]["values"]`: they are null if there are none, and to ask for them of a
list or a text panics. -/
def openValues (event : Value) : Option Value :=
  let exception := index event "exception"
  if exception.isObject || isNull exception then
    some (event.set "exception" (exception.set "values" (index exception "values")))
  else none

def saveExceptions (mappers : List Mapper) (found : List (JvmException × ℕ)) (event : Value) :
    Value :=
  found.foldl (fun event exc =>
    modifyAt event (saveException (mappedException mappers exc.1)) (.exception exc.2)) event

/-- What the mappings make of the class names. -/
def mappedClass (mappers : List Mapper) (names : List String) (name : String) : Option String :=
  if names.contains name then mappers.findSome? fun m => m.remapClass name else none

/-- `deobfuscate_and_save`. -/
def deobfuscateAndSave (patterns : Patterns) (mappers : List Mapper)
    (found : List (JvmException × ℕ)) (mentioned : List (ℕ × List String)) (names : List String)
    (event : Value) : Option Value :=
  (openValues event).map fun event =>
    let event := saveExceptions mappers found event
    if names.all fun name => (mappedClass mappers names name).isNone then event
    else mentioned.foldl (fun event exc =>
      modifyAt event (saveValue patterns (mappedClass mappers names)) (.exception exc.1)) event

/-- The method of a frame. -/
def methodOf (frame : Value) : Option String :=
  ((frame.str "module").filter (· ≠ "")).bind fun module =>
    ((frame.str "function").filter (· ≠ "")).map fun function => module ++ "." ++ function

def replaceMethod (exc : Value) : Value :=
  match (framesOf exc).getLast?.bind methodOf, (rawFramesOf exc).getLast?.bind methodOf,
      (exc.str "value").filter (· ≠ "") with
  | some deobfuscated, some raw, some value =>
      exc.set "value" (.string (value.replace raw deobfuscated))
  | _, _, _ => exc

/-- The last exception's value names its raw top frame's method. -/
def deobfuscateExceptionValue (event : Value) : Value :=
  if valuesOf event "exception" = [] then event
  else modifyAt event replaceMethod (.exception ((valuesOf event "exception").length - 1))

/-- `symbolicate_event`, unless it panics. -/
def symbolicateEvent (patterns : Patterns) (releasePackage : Option String) (event : Value) :
    Option Value :=
  let platform := eventPlatform event
  let infos := stacktraces event
  let found := processable event
  let names := classNames patterns event
  if (infos.map (requestOf platform)).all List.isEmpty && found.isEmpty && names.isEmpty then
    some event
  else
    let saved := infos.foldl (saveStacktrace files platform releasePackage) event
    let saved := appendErrors saved (mappingErrors files)
    (deobfuscateAndSave patterns (mappersOf files) found (withValues patterns event) names
      saved).map fun saved =>
        if files.proguard = [] then saved else deobfuscateExceptionValue saved

end Event

end Rustrak.Symbolication.Jvm
