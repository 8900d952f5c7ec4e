import Rustrak.Symbolication.Addresses
import Rustrak.Weaving.Blocks

/-!
# Native stack traces

`symbolicate_event` of `services/native/mod.rs`.  The handled frames of a stack trace are looked up
callee first, each becomes a frame for every inlined function at its address, and these are woven
back among the others.
-/

namespace Rustrak.Symbolication

open Rustrak.Core
open Rustrak.Weaving

namespace Native

/-! ## Stack traces -/

def nativePlatforms : List String := ["objc", "cocoa", "swift", "native", "c", "csharp"]

def isNativePlatform (platform : String) : Bool := nativePlatforms.contains platform

/-- `_handles_frame`. -/
def handlesFrame (platform : String) (frame : Value) : Bool :=
  frame.isObject && isNull (index (index frame "data") "symbolicator_status") &&
    isNativePlatform (framePlatform frame platform) && !isNull (index frame "instruction_addr")

structure StacktraceInfo where
  container : Container
  frames : List Value
  registers : List (String × ℕ)
  registersValue : Value
  adjustment : Option String
  deriving Repr

def registersOf (registers : Value) : List (String × ℕ) :=
  match registers with
  | .object fields => fields.filterMap fun field => (hex field.2).map fun addr => (field.1, addr)
  | _ => []

def stacktraceInfo (event : Value) (container : Container) : Option StacktraceInfo :=
  (pointer event container).bind fun holder =>
    let stacktrace := index holder "stacktrace"
    let frames := framesOf holder
    if frames.any fun f => isNativePlatform (framePlatform f (eventPlatform event)) then
      some
        { container, frames
          registers := registersOf (index stacktrace "registers")
          registersValue := (stacktrace.get "registers").getD .null
          adjustment := stacktrace.str "instruction_addr_adjustment" }
    else none

def nativeStacktraces (event : Value) : List StacktraceInfo :=
  (containers event).filterMap (stacktraceInfo event)

def setAdjust (adjust : Bool) (frame : Value) : Value :=
  frame.set "adjust_instruction_addr" (.bool adjust)

/-- The handled frames, callee first, with the stack trace's adjustment applied. -/
def framesForSymbolication (frames : List Value) (platform : String)
    (adjustment : Option String) : List Value :=
  let adjustment := adjustment.getD "auto"
  let out := (frames.reverse.filter (handlesFrame platform)).map fun f =>
    if adjustment = "none" then setAdjust false f else f
  match out with
  | [] => []
  | first :: rest =>
      (if adjustment = "all" then setAdjust true first
        else if adjustment = "all_but_first" then setAdjust false first
        else first) :: rest

/-! ## Statuses of images -/

/-- What is told by regular expressions. -/
structure Patterns where
  supportFramework : String → Bool
  windowsSysPath : String → Bool
  trimFunctionName : String → String → String

def contains (s part : String) : Bool := s.toList.tails.any part.toList.isPrefixOf

def iosAppPaths : List String :=
  ["/var/containers/Bundle/Application/", "/private/var/containers/Bundle/Application/"]

def macosAppPaths : List String := [".app/Contents/", "/Users/", "/usr/local/"]

def linuxSysPaths : List String := ["/lib/", "/usr/lib/", "linux-gate.so"]

variable (patterns : Patterns)

def isKnownThirdParty (package : String) (os : Option String) : Bool :=
  if patterns.supportFramework package then true
  else if iosAppPaths.any (startsWith package) then false
  else if contains package "/Developer/CoreSimulator/Devices/" &&
      contains package "/Containers/Bundle/Application/" then false
  else
    match os with
    | some "macos" => !macosAppPaths.any (contains package)
    | some "linux" => linuxSysPaths.any (startsWith package)
    | some "windows" => patterns.windowsSysPath package
    | _ => true

def isOptionalPackage (package : String) : Bool :=
  package == "" || patterns.supportFramework package ||
    (iosAppPaths.any (startsWith package) && contains package "/Frameworks/")

def statusType (status : String) (image : Value) (os : Option String) : Option String :=
  if status = "missing" then
    ((image.str "code_file").filter (· ≠ "")).bind fun package =>
      if isKnownThirdParty patterns package os || image.str "type" == some "pe_dotnet" then none
      else if isOptionalPackage patterns package then some "native_optionally_bundled_dsym"
      else some "native_missing_dsym"
  else if status = "malformed" then some "native_bad_dsym"
  else none

def imageStatusError (status : String) (image : Value) (os : Option String) : Option Value :=
  (statusType patterns status image os).map fun ty =>
    let fields := [("image_path", "code_file"), ("image_uuid", "debug_id"), ("image_arch", "arch")]
    .object ([("message", .null), ("type", .string ty)] ++ fields.filterMap fun field =>
      ((image.get field.2).filter fun v => !isNull v).map fun v => (field.1, v))

/-- `get_os_from_event`. -/
def osFromEvent (lowercase : String → String) (event : Value) : Option String :=
  let os := index (index event "contexts") "os"
  let sdkName := (index (index event "debug_meta") "sdk_info").str "sdk_name"
  ((if os.str "type" = some "os" then os.str "name" else none).or sdkName).map lowercase

/-! ## Merging a frame -/

def insertText (key : String) (value : Option String) (frame : Value) : Value :=
  match value.filter (· ≠ "") with
  | some value => frame.set key (.string value)
  | none => frame

def insertLines (key : String) (lines : List String) (frame : Value) : Value :=
  if lines = [] then frame else frame.set key (.array (lines.map .string))

def numberOf (n : ℕ) : Value := .number (.int n)

def hexString (addr : ℕ) : String := "0x" ++ String.ofList (Nat.toDigits 16 addr)

def mergeFunction (platform : String) (function : Option String) (frame : Value) : Value :=
  match function.filter (· ≠ "") with
  | some function =>
      let raw := clamp function 256
      let trimmed := clamp (patterns.trimFunctionName function platform) 256
      (if trimmed ≠ raw then frame.set "raw_function" (.string raw) else frame).set "function"
        (.string trimmed)
  | none => frame

/-- `_merge_frame`, on an object. -/
def mergeObject (platform : String) (symbolicated : CompleteFrame) (frame : Value) : Value :=
  let frame := if platform ≠ "csharp" then
    mergeFunction patterns platform symbolicated.function frame else frame
  let frame := match symbolicated.instructionAddr with
    | some addr => frame.set "instruction_addr" (.string (hexString addr))
    | none => frame
  let frame := insertText "symbol" symbolicated.symbol frame
  let frame := insertText "abs_path" symbolicated.absPath frame
  let frame := match symbolicated.absPath.filter (· ≠ "") with
    | some absPath => frame.set "filename" (.string (afterLast ['/'] absPath))
    | none => frame
  let frame := insertText "filename" symbolicated.filename frame
  let frame := match symbolicated.lineno.filter (· ≠ 0) with
    | some lineno => frame.set "lineno" (numberOf lineno)
    | none => frame
  let frame := if platform ≠ "csharp" then insertText "package" symbolicated.package frame
    else frame
  let frame := insertLines "pre_context" symbolicated.preContext frame
  let frame := match symbolicated.contextLine with
    | some line => frame.set "context_line" (.string line)
    | none => frame
  let frame := insertLines "post_context" symbolicated.postContext frame
  let frame := match symbolicated.addrMode with
    | some mode => frame.set "addr_mode" (.string mode)
    | none => frame.remove "addr_mode"
  let data := (frame.get "data").getD (.object [])
  frame.set "data"
    (if data.isObject then data.set "symbolicator_status" (.string symbolicated.status) else data)

def mergeFrame (platform : String) (frame : Value) (symbolicated : CompleteFrame) : Value :=
  if frame.isObject then
    mergeObject patterns (framePlatform frame platform) symbolicated frame
  else frame

/-! ## Symbolication -/

/-- The files of an event's images: the symbol caches, and what the source bundles give for an
image, a path and a line. -/
structure NativeFiles (Data : Type) where
  symcaches : List (String × Option Data)
  context : String → String → ℕ → Option (List String × String × List String)

variable {Data Cache : Type} (build : Build) (libs : Libraries Data Cache)
  (search : Pick Module) (files : NativeFiles Data)

/-- A frame that was not symbolicated. -/
def failedFrame (position : ℕ) (frame : Value) (status : String) (package : Option String) :
    CompleteFrame :=
  let function := frame.str "function"
  let mangled := match function, frame.str "symbol" with
    | some f, none => some f
    | none, some s => some s
    | _, _ => none
  let demangled := mangled.bind libs.demangle
  { originalIndex := position
    status
    instructionAddr := none
    addrMode := (frame.str "addr_mode").filter fun m => startsWith m "rel:"
    function := demangled
    symbol := if demangled.isSome then function else none
    package
    absPath := none
    filename := none
    lineno := none
    preContext := []
    contextLine := none
    postContext := []
    debugId := none }

/-- An outermost frame that is not answered: one that is unmapped and null-ish ends the unwinding,
and what follows a function without a return address is garbage. -/
def endsUnwinding (status : String) (outermost : Bool) (mode : AddrMode) (addr : ℕ)
    (out : List CompleteFrame) : Bool :=
  (status == "unknown_image" && outermost && mode == .abs && decide (addr < 4096) && out ≠ []) ||
    (status == "unknown_image" && outermost && (out.getLast?.bind (·.function)).any fun f =>
      f == "_start" || f == "__clone" || f == "__clone3")

/-- Any explicit adjustment of a frame makes the others `Yes`. -/
def adjustOf (frames : List Value) (frame : Value) : Adjust :=
  match (index frame "adjust_instruction_addr").asBool with
  | some true => .yes
  | some false => .no
  | none =>
      if frames.any fun f => (index f "adjust_instruction_addr").asBool.isSome then .yes else .auto

def addrOf (frame : Value) : ℕ := (hex (index frame "instruction_addr")).getD 0

def modeOf (here : Surroundings) (frame : Value) : AddrMode :=
  addrMode libs.lowercase (frame.get "addr_mode") here.lookup

/-- What a frame gives, after those before it. -/
def answerOf (here : Surroundings) (frames : List Value) (position : ℕ) (frame : Value)
    (out : List CompleteFrame) (result : FrameResult) : List CompleteFrame :=
  match result with
  | .ok answer => answer
  | .error (status, package) =>
      if endsUnwinding status (decide (position + 1 = frames.length)) (modeOf libs here frame)
          (addrOf frame) out then []
      else [failedFrame libs position frame status package]

def frameAnswer (here : Surroundings) (frames : List Value) (position : ℕ) (frame : Value)
    (out : List CompleteFrame) : Option (List CompleteFrame) :=
  (symbolicateFrame build libs search files.symcaches here (addrOf frame) (modeOf libs here frame)
    position (adjustOf frames frame)).map (answerOf libs here frames position frame out)

def symbolicateFrom (here : Surroundings) (frames : List Value) :
    ℕ → List Value → List CompleteFrame → Option (List CompleteFrame)
  | _, [], out => some out
  | position, frame :: rest, out =>
      (frameAnswer build libs search files here frames position frame out).bind fun answer =>
        symbolicateFrom here frames (position + 1) rest (out ++ answer)

/-- `symbolicate_stacktrace`, frames callee first. -/
def symbolicateStacktrace (here : Surroundings) (frames : List Value) :
    Option (List CompleteFrame) :=
  symbolicateFrom build libs search files here frames 0 frames []

def applySourceContext (frame : CompleteFrame) : CompleteFrame :=
  match frame.debugId, frame.absPath, frame.lineno with
  | some id, some path, some lineno =>
      match files.context id path lineno with
      | some (pre, line, post) =>
          { frame with preContext := pre, contextLine := some line, postContext := post }
      | none => frame
  | _, _, _ => frame

def withContext (frame : CompleteFrame) : CompleteFrame :=
  if frame.status = "symbolicated" then applySourceContext files frame else frame

def signalOf (event : Value) : Option ℕ :=
  let exception := (valuesOf event "exception").head?.getD .null
  let meta' := index (index exception "mechanism") "meta"
  (index (index meta' "signal") "number").asU64.map (· % 2 ^ 32)

def surroundings (event : Value) (lookup : List Module) (info : StacktraceInfo) : Surroundings where
  registers := info.registers
  signal := signalOf event
  lookup

/-- Positions of the images that a frame points into. -/
def referenced (lookup : List Module) (requests : List (List Value)) : List ℕ :=
  requests.flatten.filterMap fun frame =>
    (hex (index frame "instruction_addr")).bind fun addr =>
      (getModule search lookup addr
        (addrMode libs.lowercase (frame.get "addr_mode") lookup)).map Module.index

def debugStatus (referenced : List ℕ) (m : Module) : String :=
  if !referenced.contains m.index then "unused"
  else
    match cacheOf libs files.symcaches m.debugId with
    | some (some _) => "found"
    | some none => "malformed"
    | none => "missing"

/-- `image["debug_status"] = status`. -/
def setImageStatus (event : Value) (position : ℕ) (status : String) : Value :=
  let debugMeta := index event "debug_meta"
  event.set "debug_meta" (debugMeta.set "images" (.array ((array (index debugMeta "images")).modify
    position fun image => image.set "debug_status" (.string status))))

def mergeImages (os : Option String) (referenced : List ℕ) :
    List Module → Value × List Value → Value × List Value
  | [], run => run
  | m :: rest, (event, errors) =>
      let status := debugStatus libs files referenced m
      let event := setImageStatus event m.index status
      let image := (array (index (index event "debug_meta") "images"))[m.index]?.getD .null
      mergeImages os referenced rest
        (event, errors ++ (imageStatusError patterns status image os).toList)

/-- The frames of a stack trace, from those that are complete. -/
def newFrames (platform : String) (info : StacktraceInfo) (complete : List CompleteFrame) :
    List Value :=
  (weaveFrom (handlesFrame platform) (mergeFrame patterns platform)
    (fun k => complete.filter fun c => c.originalIndex = k) 0 info.frames.reverse).reverse

def setRaw (info : StacktraceInfo) (holder : Value) : Value :=
  holder.set "raw_stacktrace"
    (.object [("frames", .array info.frames), ("registers", info.registersValue)])

def saveStacktrace (platform : String) (event : Value)
    (done : StacktraceInfo × List CompleteFrame) : Value :=
  modifyAt event (fun holder =>
    let holder := setFrames (newFrames patterns platform done.1 done.2) holder
    if done.1.container ≠ .event ∧ 0 < done.1.frames.countP (handlesFrame platform) then
      setRaw done.1 holder
    else holder) done.1.container

/-- Errors are appended to the event's. -/
def appendErrors (event : Value) (errors : List Value) : Value :=
  if errors = [] then event
  else event.set "errors" (.array (array (index event "errors") ++ errors))

def requestOf (event : Value) (info : StacktraceInfo) : List Value :=
  framesForSymbolication info.frames (eventPlatform event) info.adjustment

/-- The stack traces with what they are symbolicated to. -/
def completeAll (event : Value) (lookup : List Module) :
    List StacktraceInfo → Option (List (StacktraceInfo × List CompleteFrame))
  | [] => some []
  | info :: infos =>
      (symbolicateStacktrace build libs search files (surroundings event lookup info)
        (requestOf event info)).bind fun out =>
          (completeAll event lookup infos).map fun rest =>
            (info, out.map (withContext files)) :: rest

def symbolicateEvent (event : Value) : Option Value :=
  let infos := nativeStacktraces event
  (moduleLookup build (modules libs.lowercase event)).bind fun lookup =>
    let requests := infos.map (requestOf event)
    if requests.all List.isEmpty then some event
    else
      (completeAll build libs search files event lookup infos).map fun completed =>
        let (merged, errors) := mergeImages patterns libs files (osFromEvent libs.lowercase event)
          (referenced libs search lookup requests) lookup (event, [])
        appendErrors (completed.foldl (saveStacktrace patterns (eventPlatform event)) merged)
          errors

end Native

end Rustrak.Symbolication
