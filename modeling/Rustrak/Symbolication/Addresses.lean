import Mathlib.Data.List.Sort
import Rustrak.Core.Text
import Rustrak.Symbolication.Traces

/-!
# Addresses of native frames

The part of `services/native/mod.rs` that finds an address in an image and reads its symbols.  An
address is a `u64`.  Arithmetic that is not checked panics in a build with overflow checks and
wraps around in one without; `Build` tells the two apart.

What `symbolic` knows of a symbol cache is `Libraries`, and is any.  The one thing asked of it is
that an adjusted address is not above the one it was made from.
-/

namespace Rustrak.Symbolication

open Rustrak.Core

/-! ## 64-bit arithmetic -/

/-- With overflow checks or without. -/
inductive Build
  | checked
  | wrapping
  deriving DecidableEq, Repr

/-- `a + b`. -/
def Build.add (build : Build) (a b : ℕ) : Option ℕ :=
  if a + b < 2 ^ 64 then some (a + b)
  else
    match build with
    | .checked => none
    | .wrapping => some ((a + b) % 2 ^ 64)

/-- `a - b`. -/
def Build.sub (build : Build) (a b : ℕ) : Option ℕ :=
  if b ≤ a then some (a - b)
  else
    match build with
    | .checked => none
    | .wrapping => some (a + 2 ^ 64 - b)

def checkedAdd (a b : ℕ) : Option ℕ := if a + b < 2 ^ 64 then some (a + b) else none

def checkedSub (a b : ℕ) : Option ℕ := if b ≤ a then some (a - b) else none

/-! ## Numbers as they are sent -/

def digitOf (radix : ℕ) (c : Char) : Option ℕ :=
  (if c.isDigit then some (c.toNat - '0'.toNat)
    else if 'a' ≤ c ∧ c ≤ 'z' then some (c.toNat - 'a'.toNat + 10)
    else if 'A' ≤ c ∧ c ≤ 'Z' then some (c.toNat - 'A'.toNat + 10)
    else none).filter (· < radix)

/-- `u64::from_str_radix`. -/
def parseRadix (radix : ℕ) (text : List Char) : Option ℕ :=
  let digits := if text.head? = some '+' then text.tail else text
  if digits = [] then none
  else ((digits.mapM (digitOf radix)).map fun ds => ds.foldl (fun n d => n * radix + d) 0).filter
    (· < 2 ^ 64)

/-- An address as the protocol sends it: a hex string or a number. -/
def hex (value : Value) : Option ℕ :=
  match value with
  | .number _ => value.asU64.filter (· < 2 ^ 64)
  | .string s =>
      match (trim s).toList with
      | '0' :: 'x' :: h => parseRadix 16 h
      | '0' :: 'X' :: h => parseRadix 16 h
      | text => parseRadix 10 text
  | _ => none

/-! ## The libraries -/

/-- What a lookup in a symbol cache finds, innermost inlined function first. -/
structure Location where
  name : String
  demangled : Option String
  fullPath : Option String
  line : ℕ
  deriving DecidableEq, Repr

structure Libraries (Data Cache : Type) where
  /-- `SymCache::parse`. -/
  parse : Data → Option Cache
  /-- `arch().cpu_family().ip_register_name()`. -/
  ipRegisterName : Cache → Option String
  lookup : Cache → ℕ → List Location
  /-- `InstructionInfo`, of a cache's architecture and an address. -/
  previousAddress : Cache → ℕ → ℕ
  alignedAddress : Cache → ℕ → ℕ
  callerAddress : Cache → ℕ → Bool → Option ℕ → Option ℕ → ℕ
  previousAddress_le : ∀ cache addr, previousAddress cache addr ≤ addr
  alignedAddress_le : ∀ cache addr, alignedAddress cache addr ≤ addr
  callerAddress_le : ∀ cache addr crashing signal ip,
    callerAddress cache addr crashing signal ip ≤ addr
  /-- `Name::demangle`. -/
  demangle : String → Option String
  lowercase : String → String

/-- Which one a binary search finds of several that compare equal. -/
structure Pick (α : Type) where
  pick : List α → Option α
  pick_mem : ∀ {l a}, pick l = some a → a ∈ l
  pick_eq_none : ∀ {l}, pick l = none → l = []

/-! ## Images -/

structure Module where
  index : ℕ
  debugId : String
  imageAddr : ℕ
  imageSize : ℕ
  codeFile : Option String
  deriving DecidableEq, Repr

def nativeImageTypes : List String :=
  ["apple", "symbolic", "elf", "macho", "pe", "pe_dotnet", "wasm"]

/-- A debug ID the way it is stored: a lowercase UUID, without an age. -/
def normalizeDebugId (lowercase : String → String) (id : String) : String :=
  let id := lowercase (trim id)
  let digits := (id.toList.filter (· ≠ '-')).take 32
  if digits.length = 32 ∧ digits.all (fun c => (digitOf 16 c).isSome) then
    String.ofList (digits.take 8 ++ '-' :: ((digits.drop 8).take 4 ++ '-' ::
      ((digits.drop 12).take 4 ++ '-' :: ((digits.drop 16).take 4 ++ '-' :: digits.drop 20))))
  else id

def moduleOf (lowercase : String → String) (position : ℕ) (img : Value) : Option Module :=
  ((img.str "debug_id").or ((img.str "id").or (img.str "uuid"))).map fun id =>
    { index := position
      debugId := normalizeDebugId lowercase id
      imageAddr := (hex (index img "image_addr")).getD 0
      imageSize := (hex (index img "image_size")).getD 0
      codeFile := img.str "code_file" }

/-- `native_images_from_data`. -/
def modules (lowercase : String → String) (event : Value) : List Module :=
  ((array (index (index event "debug_meta") "images")).zipIdx.filter fun img =>
    (img.1.str "type").any nativeImageTypes.contains).filterMap fun img =>
      moduleOf lowercase img.2 img.1

/-- A missing size spans up to the next image. -/
def backFill (build : Build) : List Module → Option (List Module)
  | m :: next :: rest => do
      let size ← if m.imageSize = 0 then build.sub next.imageAddr m.imageAddr
        else some m.imageSize
      let rest ← backFill build (next :: rest)
      return { m with imageSize := size } :: rest
  | modules => some modules

/-- `ModuleLookup`: sorted by `image_addr`, sizes back-filled. -/
def moduleLookup (build : Build) (modules : List Module) : Option (List Module) :=
  backFill build (modules.mergeSort fun m n => decide (m.imageAddr ≤ n.imageAddr))

inductive AddrMode
  | abs
  /-- Relative to the image at this position in `debug_meta.images`. -/
  | rel (index : ℕ)
  deriving DecidableEq, Repr

/-- What stands at the address, or before it. -/
def atMost (search : Pick Module) (lookup : List Module) (addr : ℕ) : Option Module :=
  (search.pick (lookup.filter fun m => m.imageAddr = addr)).or
    (lookup.takeWhile fun m => decide (m.imageAddr < addr)).getLast?

/-- `ModuleLookup::get`. -/
def getModule (search : Pick Module) (lookup : List Module) (addr : ℕ) (mode : AddrMode) :
    Option Module :=
  match mode with
  | .abs =>
      (atMost search lookup addr).bind fun m =>
        (checkedAdd m.imageAddr m.imageSize).bind fun finish =>
          if finish < addr ∧ m.imageSize ≠ 0 then none else some m
  | .rel position => lookup.find? fun m => m.index = position

def addrMode (lowercase : String → String) (value : Option Value) (lookup : List Module) :
    AddrMode :=
  match (value.bind Value.asStr).map String.toList with
  | some ('r' :: 'e' :: 'l' :: ':' :: arg) =>
      let id := normalizeDebugId lowercase (String.ofList arg)
      match ((lookup.find? fun m => m.debugId = id).map Module.index).or (parseRadix 10 arg) with
      | some position => .rel position
      | none => .abs
  | _ => .abs

/-! ## Frames -/

inductive Adjust
  | yes
  | no
  | auto
  deriving DecidableEq, Repr

/-- One frame of the answer. -/
structure CompleteFrame where
  originalIndex : ℕ
  status : String
  instructionAddr : Option ℕ
  addrMode : Option String
  function : Option String
  symbol : Option String
  package : Option String
  absPath : Option String
  filename : Option String
  lineno : Option ℕ
  preContext : List String
  contextLine : Option String
  postContext : List String
  debugId : Option String
  deriving DecidableEq, Repr

/-- Each cache by the debug ID of its image: of two for one image the later stays. -/
def cacheOf {Data Cache : Type} (libs : Libraries Data Cache)
    (symcaches : List (String × Option Data)) (id : String) : Option (Option Cache) :=
  ((symcaches.filterMap fun file => file.2.map fun data => (file.1, libs.parse data)).reverse.find?
    fun cache => cache.1 = id).map Prod.snd

/-- What is known of a stack trace and its event. -/
structure Surroundings where
  registers : List (String × ℕ)
  signal : Option ℕ
  lookup : List Module
  deriving DecidableEq, Repr

section Frame

variable {Data Cache : Type} (build : Build) (libs : Libraries Data Cache)
  (search : Pick Module) (symcaches : List (String × Option Data)) (here : Surroundings)

/-- The address of the call that an address returns to. -/
def callerAddr (cache : Cache) (position : ℕ) (adjust : Adjust) (addr : ℕ) : ℕ :=
  let crashing := decide (position = 0)
  let ip := if crashing then (libs.ipRegisterName cache).bind fun reg =>
    (here.registers.find? fun r => r.1 = reg).map Prod.snd else none
  match adjust with
  | .yes => libs.previousAddress cache addr
  | .no => libs.alignedAddress cache addr
  | .auto => libs.callerAddress cache addr crashing here.signal ip

/-- `get_relative_caller_addr`: the address within its image, none if it is not in it.  Images
mounted at 0 have no absolute addresses. -/
def relativeAddr (cache : Cache) (m : Module) (position : ℕ) (adjust : Adjust) (relative : ℕ) :
    Option (Option ℕ) :=
  if m.imageAddr ≠ 0 then
    (build.add m.imageAddr relative).map fun addr =>
      checkedSub (callerAddr libs here cache position adjust addr) m.imageAddr
  else some (some relative)

/-- What follows the last separator. -/
def afterLast (separators : List Char) (path : String) : String :=
  String.ofList (path.toList.reverse.takeWhile fun c => !separators.contains c).reverse

/-- A frame of a location. -/
def located (m : Module) (position instructionAddr : ℕ) (location : Location) : CompleteFrame :=
  let absPath := location.fullPath.filter (· ≠ "")
  { originalIndex := position
    status := "symbolicated"
    instructionAddr := some instructionAddr
    addrMode := if m.imageAddr ≠ 0 then none else some ("rel:" ++ toString m.index)
    function := some (location.demangled.getD location.name)
    symbol := some location.name
    package := m.codeFile
    absPath
    filename := absPath.map (afterLast ['/', '\\'])
    lineno := some location.line
    preContext := []
    contextLine := none
    postContext := []
    debugId := some m.debugId }

/-- What is looked up instead of a frame; an error has a status and a package. -/
abbrev FrameResult := Except (String × Option String) (List CompleteFrame)

/-- `symbolicate_native_frame`: the frames at an address of an image. -/
def symbolicateNativeFrame (cache : Cache) (m : Module) (position relative : ℕ) :
    Option FrameResult :=
  (if m.imageAddr ≠ 0 then build.add m.imageAddr relative else some relative).map fun addr =>
    match (libs.lookup cache relative).map (located m position addr) with
    | [] => .error ("missing_symbol", m.codeFile)
    | frames => .ok frames

/-- The frames at an address within an image, once the call there is found. -/
def symbolicateWithin (cache : Cache) (m : Module) (position : ℕ) (adjust : Adjust)
    (relative : ℕ) : Option FrameResult :=
  (relativeAddr build libs here cache m position adjust relative).bind fun relative =>
    match relative with
    | none => some (.error ("missing_symbol", m.codeFile))
    | some relative => symbolicateNativeFrame build libs cache m position relative

/-- `symbolicate_frame`. -/
def symbolicateFrame (addr : ℕ) (mode : AddrMode) (position : ℕ) (adjust : Adjust) :
    Option FrameResult :=
  match getModule search here.lookup addr mode with
  | none => some (.error ("unknown_image", none))
  | some m =>
      match cacheOf libs symcaches m.debugId with
      | none => some (.error ("missing", m.codeFile))
      | some none => some (.error ("malformed", m.codeFile))
      | some (some cache) =>
          let relative := match mode with
            | .abs => checkedSub addr m.imageAddr
            | .rel _ => some addr
          match relative with
          | none => some (.error ("missing_symbol", m.codeFile))
          | some relative => symbolicateWithin build libs here cache m position adjust relative

end Frame

end Rustrak.Symbolication
