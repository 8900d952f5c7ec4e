import Mathlib.Data.List.TakeWhile
import Rustrak.Symbolication.Native

/-!
# Addresses stay within 64 bits

All addresses of an event come from its sender.  The arithmetic on them is safe wherever the
module was looked up by an address, since it begins at or before it.  An address relative to a
module was not looked up, and is added to that of the module as it came.
-/

namespace Rustrak.Symbolication

open Rustrak.Core
open Native

/-! ## What is read fits -/

theorem parseRadix_lt {radix n : ℕ} {text : List Char} (h : parseRadix radix text = some n) :
    n < 2 ^ 64 := by
  rw [parseRadix] at h
  split_ifs at h <;> exact of_decide_eq_true (Option.filter_eq_some_iff.mp h).2

theorem hex_lt {value : Value} {n : ℕ} (h : hex value = some n) : n < 2 ^ 64 := by
  cases value with
  | number number => exact of_decide_eq_true (Option.filter_eq_some_iff.mp h).2
  | string s =>
      simp only [hex] at h
      split at h <;> exact parseRadix_lt h
  | _ => cases h

theorem hex_getD_lt (value : Value) : (hex value).getD 0 < 2 ^ 64 := by
  cases h : hex value with
  | none => decide
  | some n => exact hex_lt h

theorem imageAddr_lt {lowercase : String → String} {event : Value} {m : Module}
    (hm : m ∈ modules lowercase event) : m.imageAddr < 2 ^ 64 := by
  obtain ⟨img, -, himg⟩ := List.mem_filterMap.mp hm
  obtain ⟨id, -, rfl⟩ := Option.map_eq_some_iff.mp himg
  exact hex_getD_lt _

/-! ## Modules -/

/-- The modules with the sizes that `backFill` gives them. -/
def filled : List Module → List Module
  | m :: next :: rest =>
      { m with imageSize := if m.imageSize = 0 then next.imageAddr - m.imageAddr else m.imageSize } ::
        filled (next :: rest)
  | modules => modules

/-- A module does not begin after the next. -/
theorem backFill_eq (build : Build) {modules : List Module}
    (hsorted : modules.Pairwise fun m n => m.imageAddr ≤ n.imageAddr) :
    backFill build modules = some (filled modules) := by
  induction modules with
  | nil => rfl
  | cons m modules ih =>
      cases modules with
      | nil => rfl
      | cons next rest =>
          obtain ⟨hfirst, hrest⟩ := List.pairwise_cons.mp hsorted
          have hle := hfirst next List.mem_cons_self
          rw [backFill, ih hrest, filled]
          by_cases hsize : m.imageSize = 0
          · simp [hsize, Build.sub, hle]
          · simp [hsize]

theorem mem_filled {modules : List Module} {m : Module} (hm : m ∈ filled modules) :
    ∃ n ∈ modules, n.imageAddr = m.imageAddr := by
  induction modules with
  | nil => exact ⟨m, hm, rfl⟩
  | cons n modules ih =>
      cases modules with
      | nil => exact ⟨m, hm, rfl⟩
      | cons next rest =>
          rw [filled] at hm
          rcases List.mem_cons.mp hm with rfl | hm
          · exact ⟨n, List.mem_cons_self, rfl⟩
          · obtain ⟨other, hother, haddr⟩ := ih hm
            exact ⟨other, List.mem_cons_of_mem _ hother, haddr⟩

/-- The modules of an event as they are looked up. -/
def lookupOf (lowercase : String → String) (event : Value) : List Module :=
  filled ((modules lowercase event).mergeSort fun m n => decide (m.imageAddr ≤ n.imageAddr))

theorem moduleLookup_eq (build : Build) (lowercase : String → String) (event : Value) :
    moduleLookup build (modules lowercase event) = some (lookupOf lowercase event) := by
  apply backFill_eq
  refine (List.pairwise_mergeSort ?_ ?_ _).imp of_decide_eq_true
  · intro m n o hmn hno
    exact decide_eq_true ((of_decide_eq_true hmn).trans (of_decide_eq_true hno))
  · intro m n
    simpa using le_total m.imageAddr n.imageAddr

theorem imageAddr_lt_of_mem_lookupOf {lowercase : String → String} {event : Value} {m : Module}
    (hm : m ∈ lookupOf lowercase event) : m.imageAddr < 2 ^ 64 := by
  obtain ⟨n, hn, haddr⟩ := mem_filled hm
  exact haddr ▸ imageAddr_lt (List.mem_mergeSort.mp hn)

variable {Data Cache : Type} {libs : Libraries Data Cache} {search : Pick Module}
  {symcaches : List (String × Option Data)} {lookup : List Module} {m : Module} {addr : ℕ}

theorem atMost_spec (h : atMost search lookup addr = some m) : m ∈ lookup ∧ m.imageAddr ≤ addr := by
  rcases Option.or_eq_some_iff.mp h with hpick | ⟨-, hlast⟩
  · obtain ⟨hm, haddr⟩ := List.mem_filter.mp (search.pick_mem hpick)
    exact ⟨hm, (of_decide_eq_true haddr).le⟩
  · have hm := List.mem_of_getLast? hlast
    have hlt := List.mem_takeWhile_imp (p := fun m : Module => decide (m.imageAddr < addr)) hm
    exact ⟨(List.takeWhile_sublist _).mem hm, (of_decide_eq_true hlt).le⟩

theorem getModule_abs (h : getModule search lookup addr .abs = some m) :
    m ∈ lookup ∧ m.imageAddr ≤ addr := by
  obtain ⟨found, hfound, h⟩ := Option.bind_eq_some_iff.mp h
  obtain ⟨finish, -, h⟩ := Option.bind_eq_some_iff.mp h
  split_ifs at h
  obtain rfl := Option.some.inj h
  exact atMost_spec hfound

/-! ## A frame -/

/-- The frame's address is relative to a module with symbols, and the sum is not an address. -/
def Escapes (libs : Libraries Data Cache) (search : Pick Module)
    (symcaches : List (String × Option Data)) (lookup : List Module) (addr : ℕ) (mode : AddrMode) :
    Prop :=
  ∃ position m cache, mode = .rel position ∧ getModule search lookup addr mode = some m ∧
    cacheOf libs symcaches m.debugId = some (some cache) ∧ m.imageAddr ≠ 0 ∧
      2 ^ 64 ≤ m.imageAddr + addr

theorem escapes_iff {mode : AddrMode} (hmodule : getModule search lookup addr mode = some m) :
    Escapes libs search symcaches lookup addr mode ↔ (∃ position, mode = .rel position) ∧
      (∃ cache, cacheOf libs symcaches m.debugId = some (some cache)) ∧ m.imageAddr ≠ 0 ∧
        2 ^ 64 ≤ m.imageAddr + addr := by
  constructor
  · rintro ⟨position, m', cache, hmode, hm', hcache, hescapes⟩
    obtain rfl := Option.some.inj (hm'.symm.trans hmodule)
    exact ⟨⟨position, hmode⟩, ⟨cache, hcache⟩, hescapes⟩
  · rintro ⟨⟨position, hmode⟩, ⟨cache, hcache⟩, hescapes⟩
    exact ⟨position, m, cache, hmode, hmodule, hcache, hescapes⟩

theorem not_escapes_of_none {mode : AddrMode} (hmodule : getModule search lookup addr mode = none) :
    ¬Escapes libs search symcaches lookup addr mode := by
  rintro ⟨_, _, _, _, hm, _⟩
  rw [hmodule] at hm
  cases hm

section Frame

variable {here : Surroundings} {cache : Cache} {position relative r : ℕ} {adjust : Adjust}

theorem callerAddr_le : callerAddr libs here cache position adjust addr ≤ addr := by
  cases adjust with
  | yes => exact libs.previousAddress_le _ _
  | no => exact libs.alignedAddress_le _ _
  | auto => exact libs.callerAddress_le _ _ _ _ _

theorem add_checked_eq_none {a b : ℕ} : Build.add .checked a b = none ↔ 2 ^ 64 ≤ a + b := by
  rw [Build.add]
  split_ifs with h
  · exact iff_of_false nofun (not_le.mpr h)
  · exact iff_of_true rfl (not_lt.mp h)

theorem relativeAddr_eq_none :
    relativeAddr .checked libs here cache m position adjust relative = none ↔
      m.imageAddr ≠ 0 ∧ 2 ^ 64 ≤ m.imageAddr + relative := by
  rw [relativeAddr]
  split_ifs with hzero
  · rw [Option.map_eq_none_iff, add_checked_eq_none]
    exact (and_iff_right hzero).symm
  · exact iff_of_false nofun fun h => hzero h.1

/-- Added to its module again, an adjusted address is not above the one it comes from. -/
theorem add_relativeAddr_lt (hzero : m.imageAddr ≠ 0)
    (h : relativeAddr .checked libs here cache m position adjust relative = some (some r)) :
    m.imageAddr + r < 2 ^ 64 := by
  rw [relativeAddr, if_pos hzero] at h
  obtain ⟨addr, hadd, hsub⟩ := Option.map_eq_some_iff.mp h
  rw [Build.add] at hadd
  split_ifs at hadd with hfits
  obtain rfl := Option.some.inj hadd
  rw [checkedSub] at hsub
  split_ifs at hsub with hle
  obtain rfl := Option.some.inj hsub
  have hcaller := @callerAddr_le _ _ libs (m.imageAddr + relative) here cache position adjust
  omega

theorem symbolicateNativeFrame_ne_none (h : m.imageAddr ≠ 0 → m.imageAddr + relative < 2 ^ 64) :
    symbolicateNativeFrame .checked libs cache m position relative ≠ none := by
  rw [symbolicateNativeFrame, ne_eq, Option.map_eq_none_iff]
  split_ifs with hzero
  · rw [add_checked_eq_none, not_le]
    exact h hzero
  · nofun

theorem symbolicateWithin_eq_none :
    symbolicateWithin .checked libs here cache m position adjust relative = none ↔
      m.imageAddr ≠ 0 ∧ 2 ^ 64 ≤ m.imageAddr + relative := by
  rw [symbolicateWithin]
  cases h : relativeAddr .checked libs here cache m position adjust relative with
  | none => exact iff_of_true rfl (relativeAddr_eq_none.mp h)
  | some result =>
      refine iff_of_false ?_ fun hescapes => ?_
      · cases result with
        | none => nofun
        | some r => exact symbolicateNativeFrame_ne_none fun hzero => add_relativeAddr_lt hzero h
      · rw [relativeAddr_eq_none.mpr hescapes] at h
        cases h

/-- Only a frame whose address escapes makes the code panic. -/
theorem symbolicateFrame_eq_none {mode : AddrMode} (haddr : addr < 2 ^ 64) :
    symbolicateFrame .checked libs search symcaches here addr mode position adjust = none ↔
      Escapes libs search symcaches here.lookup addr mode := by
  rw [symbolicateFrame]
  cases hmodule : getModule search here.lookup addr mode with
  | none => exact iff_of_false nofun fun h => not_escapes_of_none hmodule h
  | some m =>
      rw [escapes_iff hmodule]
      dsimp only
      cases hcache : cacheOf libs symcaches m.debugId with
      | none => exact iff_of_false nofun fun h => by simp at h
      | some found =>
          cases found with
          | none => exact iff_of_false nofun fun h => by simp at h
          | some cache =>
              dsimp only
              cases mode with
              | abs =>
                  obtain ⟨-, hle⟩ := getModule_abs hmodule
                  rw [checkedSub, if_pos hle]
                  dsimp only
                  rw [symbolicateWithin_eq_none]
                  refine iff_of_false (fun h => ?_) fun h => by simp at h
                  omega
              | rel position =>
                  dsimp only
                  rw [symbolicateWithin_eq_none]
                  simp

end Frame

/-! ## A stack trace -/

section Trace

variable {files : NativeFiles Data} {here : Surroundings} {frames : List Value}

/-- What a frame's address and mode say. -/
def FrameEscapes (libs : Libraries Data Cache) (search : Pick Module)
    (symcaches : List (String × Option Data)) (lookup : List Module) (frame : Value) : Prop :=
  Escapes libs search symcaches lookup (addrOf frame)
    (addrMode libs.lowercase (frame.get "addr_mode") lookup)

theorem frameAnswer_eq_none {position : ℕ} {frame : Value} {out : List CompleteFrame} :
    frameAnswer .checked libs search files here frames position frame out = none ↔
      FrameEscapes libs search files.symcaches here.lookup frame := by
  rw [frameAnswer, Option.map_eq_none_iff]
  exact symbolicateFrame_eq_none (hex_getD_lt _)

/-- The frames are looked up one after the other until one escapes. -/
theorem symbolicateFrom_isSome {rest : List Value} {position : ℕ} {out : List CompleteFrame} :
    (symbolicateFrom .checked libs search files here frames position rest out).isSome = true ↔
      ∀ frame ∈ rest, ¬FrameEscapes libs search files.symcaches here.lookup frame := by
  induction rest generalizing position out with
  | nil => simp [symbolicateFrom]
  | cons frame rest ih =>
      rw [symbolicateFrom, List.forall_mem_cons]
      cases hanswer : frameAnswer .checked libs search files here frames position frame out with
      | none =>
          have hescapes := frameAnswer_eq_none.mp hanswer
          exact iff_of_false nofun fun h => h.1 hescapes
      | some answer =>
          have hfits : ¬FrameEscapes libs search files.symcaches here.lookup frame := by
            intro hescapes
            rw [frameAnswer_eq_none.mpr hescapes] at hanswer
            cases hanswer
          rw [Option.bind_some, ih]
          exact (and_iff_right hfits).symm

theorem completeAll_isSome {event : Value} {infos : List StacktraceInfo} :
    (completeAll .checked libs search files event lookup infos).isSome = true ↔
      ∀ info ∈ infos, ∀ frame ∈ requestOf event info,
        ¬FrameEscapes libs search files.symcaches lookup frame := by
  induction infos with
  | nil => simp [completeAll]
  | cons info infos ih =>
      have hfirst := @symbolicateFrom_isSome _ _ libs search files (surroundings event lookup info)
        (requestOf event info) (requestOf event info) 0 []
      rw [completeAll, List.forall_mem_cons, ← ih, symbolicateStacktrace]
      cases hout : symbolicateFrom .checked libs search files (surroundings event lookup info)
        (requestOf event info) 0 (requestOf event info) [] with
      | none =>
          rw [hout] at hfirst
          exact iff_of_false nofun fun h => nomatch hfirst.mpr h.1
      | some out =>
          rw [hout] at hfirst
          rw [Option.bind_some, Option.isSome_map]
          exact (and_iff_right (hfirst.mp rfl)).symm

end Trace

/-- Nothing is added or subtracted beyond 64 bits just if no frame's address escapes. -/
theorem addresses_fit_iff (patterns : Patterns) (libs : Libraries Data Cache)
    (search : Pick Module) (files : NativeFiles Data) (event : Value) :
    (symbolicateEvent patterns .checked libs search files event).isSome = true ↔
      ∀ lookup, moduleLookup .checked (modules libs.lowercase event) = some lookup →
        ∀ info ∈ nativeStacktraces event, ∀ frame ∈ requestOf event info,
          ¬FrameEscapes libs search files.symcaches lookup frame := by
  rw [symbolicateEvent, moduleLookup_eq, Option.bind_some]
  have hall := @completeAll_isSome _ _ libs search (lookupOf libs.lowercase event) files event
    (nativeStacktraces event)
  simp only [Option.some.injEq, forall_eq']
  split_ifs with hempty
  · refine iff_of_true rfl fun info hinfo frame hframe => ?_
    have hnil := List.all_eq_true.mp hempty _ (List.mem_map_of_mem hinfo)
    rw [List.isEmpty_iff.mp hnil] at hframe
    cases hframe
  · rw [Option.isSome_map]
    exact hall

/-! ## An address that does not fit -/

/-- A cache of which every address is the beginning of `main`. -/
def mainOnly : Libraries Unit Unit where
  parse := some
  ipRegisterName := fun _ => some "pc"
  lookup := fun _ _ => [⟨"main", none, none, 1⟩]
  previousAddress := fun _ addr => addr - 4
  alignedAddress := fun _ addr => addr / 4 * 4
  callerAddress := fun _ addr _ _ _ => addr - 4
  previousAddress_le := fun _ _ => Nat.sub_le _ _
  alignedAddress_le := fun _ _ => Nat.div_mul_le_self _ _
  callerAddress_le := fun _ _ _ _ _ => Nat.sub_le _ _
  demangle := fun _ => none
  lowercase := id

def pickFirst : Pick Module where
  pick := List.head?
  pick_mem := List.mem_of_head?
  pick_eq_none := List.head?_eq_none_iff.mp

def plainPatterns : Patterns where
  supportFramework := fun _ => false
  windowsSysPath := fun _ => false
  trimFunctionName := fun function _ => function

def appId : String := "c5e1b0a3-7c5d-3f5e-9d9f-2f6a1b3c4d5e"

def appFiles : NativeFiles Unit where
  symcaches := [(appId, some ())]
  context := fun _ _ _ => none

/-- An image at 4096 and a frame at the last address relative to it. -/
def lastRelative : Value :=
  .object
    [("platform", .string "cocoa"),
      ("debug_meta", .object [("images", .array
        [.object [("type", .string "macho"), ("debug_id", .string appId),
          ("image_addr", .string "0x1000")]])]),
      ("exception", .object [("values", .array [.object [("stacktrace", .object
        [("frames", .array [.object [("instruction_addr", .string "0xffffffffffffffff"),
          ("addr_mode", .string "rel:0")]])])]])])]

/-- The address of the image and that of the frame are added unchecked. -/
theorem lastRelative_overflows :
    ¬(symbolicateEvent plainPatterns .checked mainOnly pickFirst appFiles lastRelative).isSome =
      true := by
  decide +kernel

end Rustrak.Symbolication
