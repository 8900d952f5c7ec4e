import Rustrak.Core.Text
import Rustrak.Monitors.Schedule

/-!
# Monitor configurations and check-ins

`models/monitor.rs`: what a client sends and what is made of it before it reaches the
tables.  A configuration is validated and completed with defaults; a check-in is normalised.
A duration is taken in milliseconds, and a trace id is left out.
-/

namespace Rustrak.Monitors

open Rustrak.Core

/-- Minutes after the expected time before a check-in counts as missed. -/
def defaultCheckinMargin : Nat := 1

/-- 28 days. -/
def maxCheckinMargin : Nat := 40320

/-- Minutes an `in_progress` check-in may stay open before it times out. -/
def defaultMaxRuntime : Nat := 30

/-- 7 days. -/
def maxMaxRuntime : Nat := 10080

/-- Bounds of `failure_issue_threshold` and `recovery_threshold`. -/
def maxThreshold : Nat := 720

/-- How early a run may start and still fill the crontab slot it was expected for. -/
def earlyCheckinSecs : Int := 10

/-- A validated configuration, with every default filled in. -/
structure MonitorConfig where
  schedule : Schedule
  /-- Minutes. -/
  checkinMargin : Nat
  /-- Minutes. -/
  maxRuntime : Nat
  /-- IANA name. -/
  timezone : String
  failureIssueThreshold : Nat
  recoveryThreshold : Nat
  deriving DecidableEq, Repr

/-- A configuration as it is sent: every field optional. -/
structure MonitorConfigInput where
  schedule : Option Schedule
  checkinMargin : Option Nat
  maxRuntime : Option Nat
  timezone : Option String
  failureIssueThreshold : Option Nat
  recoveryThreshold : Option Nat
  deriving DecidableEq, Repr

/-- The crontab library and the timezone database. -/
structure Clocks where
  croner : Croner
  zone : String → Option TimeZone

def invalid (message : String) : AppError := .validation ("Invalid monitor config: " ++ message)

/-- An IANA zone, or why it is not one. -/
def parseTimezone (clocks : Clocks) (name : String) : Except String TimeZone :=
  match clocks.zone name with
  | some zone => .ok zone
  | none => .error ("unknown timezone " ++ name)

/-- A number of minutes, clamped rather than rejected. -/
def minutesOr (input current : Option Nat) (default most : Nat) : Nat :=
  ((input.map fun m => min (max m 1) most).or current).getD default

def thresholdOr (input current : Option Nat) (name : String) : AppResult Nat :=
  match input with
  | some n =>
      if 1 ≤ n ∧ n ≤ maxThreshold then .ok n
      else .error (invalid (name ++ s!" must be between 1 and {maxThreshold}"))
  | none => .ok (current.getD 1)

/-- Validates the input at `now`.  A field left out keeps its value in `existing`, and
otherwise takes the default. -/
def MonitorConfigInput.validate (clocks : Clocks) (now : Int) (input : MonitorConfigInput)
    (existing : Option MonitorConfig) : AppResult MonitorConfig := do
  let schedule ← okOr (input.schedule.or (existing.map MonitorConfig.schedule))
    (invalid "schedule is required")
  (schedule.validate clocks.croner now).mapError invalid
  let timezone := (input.timezone.or (existing.map MonitorConfig.timezone)).getD "UTC"
  let _ ← (parseTimezone clocks timezone).mapError invalid
  let failureIssueThreshold ← thresholdOr input.failureIssueThreshold
    (existing.map MonitorConfig.failureIssueThreshold) "failure_issue_threshold"
  let recoveryThreshold ← thresholdOr input.recoveryThreshold
    (existing.map MonitorConfig.recoveryThreshold) "recovery_threshold"
  return {
    schedule, timezone, failureIssueThreshold, recoveryThreshold
    checkinMargin := minutesOr input.checkinMargin (existing.map MonitorConfig.checkinMargin)
      defaultCheckinMargin maxCheckinMargin
    maxRuntime := minutesOr input.maxRuntime (existing.map MonitorConfig.maxRuntime)
      defaultMaxRuntime maxMaxRuntime }

namespace MonitorConfig

variable (clocks : Clocks) (c : MonitorConfig)

def tz : TimeZone := (clocks.zone c.timezone).getD .utc

/-- The first expected check-in after `reference`. -/
def nextCheckin (reference : Int) : Int :=
  c.schedule.nextAfter clocks.croner reference (c.tz clocks)

/-- Once this passes without a check-in, the check-in is missed. -/
def nextCheckinLatest (reference : Int) : Int :=
  c.nextCheckin clocks reference + c.checkinMargin * minute

/-- What the next check-in counts from for a run reporting at `reported`.  A run that started
just before the crontab slot it was `expected` for fills that slot. -/
def checkinReference (started : Int) (expected : Option Int) (reported : Int) : Int :=
  match c.schedule with
  | .interval _ _ => reported
  | .crontab _ =>
      let slot := expected.getD (c.nextCheckin clocks started)
      if started < slot ∧ slot - started < earlyCheckinSecs * second then max reported slot
      else reported

/-- The last expected check-in strictly before `reference`. -/
def prevCheckin (start reference : Int) : Int :=
  c.schedule.prevBefore clocks.croner start reference (c.tz clocks)

/-- When an `in_progress` check-in that started at `started` times out. -/
def timeoutAt (started : Int) : Int := truncateToMinute started + c.maxRuntime * minute

end MonitorConfig

/-! ## Check-ins -/

/-- Status of one check-in. `Missed` and `Timeout` are only ever set by the server. -/
inductive CheckInStatus
  | ok
  | error
  | inProgress
  | missed
  | timeout
  | unknown
  deriving DecidableEq, Repr

namespace CheckInStatus

def asStr : CheckInStatus → String
  | ok => "ok"
  | error => "error"
  | inProgress => "in_progress"
  | missed => "missed"
  | timeout => "timeout"
  | unknown => "unknown"

def parse : String → CheckInStatus
  | "ok" => ok
  | "error" => error
  | "in_progress" => inProgress
  | "missed" => missed
  | "timeout" => timeout
  | _ => unknown

/-- What the tables keep of a status is read back as it. -/
theorem parse_asStr (s : CheckInStatus) : parse s.asStr = s := by
  cases s <;> rfl

/-- A status that counts against a monitor. -/
def isFailure : CheckInStatus → Bool
  | error | missed | timeout => true
  | ok | inProgress | unknown => false

/-- A run that is over, or that never was. -/
def isResult (s : CheckInStatus) : Bool := s = ok || s.isFailure

end CheckInStatus

/-- An id, `0` for the nil one. -/
abbrev Uuid := Nat

def nil : Uuid := 0

/-- A `check_in` item as it is sent. -/
structure CheckInPayload where
  checkInId : Option Uuid
  monitorSlug : String
  /-- Any text at all. -/
  status : String
  environment : Option String
  durationMs : Option Int
  monitorConfig : Option MonitorConfigInput
  deriving DecidableEq

/-- A normalised check-in. -/
structure CheckIn where
  checkInId : Uuid
  monitorSlug : String
  status : CheckInStatus
  environment : String
  durationMs : Option Int
  monitorConfig : Option MonitorConfigInput
  deriving DecidableEq

def maxSlugLength : Nat := 50

def maxEnvironmentLength : Nat := 64

def defaultEnvironment : String := "production"

/-- `char::to_lowercase`, of which only ASCII matters here: the Kelvin sign and the dotted
capital I are the two other characters that lower to some. -/
def toLowercase (c : Char) : List Char :=
  if c = '\u212a' then ['k']
  else if c = '\u0130' then ['i', '\u0307']
  else [c.toLower]

/-- Drops a character at both ends. -/
def trimMatches (c : Char) (cs : List Char) : List Char :=
  ((cs.dropWhile (· = c)).reverse.dropWhile (· = c)).reverse

/-- The characters of a slug, in reverse: a dash for any run of dashes and white space that
letters, digits or underscores follow. -/
def slugChars (slug : List Char) (pendingDash : Bool) : List Char → List Char
  | [] => slug
  | c :: rest =>
      if c.isAlphanum ∨ c = '_' then
        slugChars (c :: if pendingDash ∧ slug ≠ [] then '-' :: slug else slug) false rest
      else if c = '-' ∨ isWhitespace c then slugChars slug true rest
      else slugChars slug pendingDash rest

def slugifyMonitorSlug (raw : String) : String :=
  let slug := (slugChars [] false (raw.toList.flatMap toLowercase)).reverse
  String.ofList (trimMatches '-' ((trimMatches '_' slug).take maxSlugLength))

example : slugifyMonitorSlug " Nightly -- Backup! " = "nightly-backup" := by decide

/-- PostgreSQL rejects NUL in text. -/
def stripNul (s : String) : String := String.ofList (s.toList.filter (· ≠ '\x00'))

/-- Normalises a check-in from any source. -/
def CheckIn.new (checkInId : Uuid) (monitorSlug : String) (status : CheckInStatus)
    (environment : Option String) (durationMs : Option Int)
    (monitorConfig : Option MonitorConfigInput) : AppResult CheckIn :=
  let monitorSlug := slugifyMonitorSlug monitorSlug
  let environment := ((environment.map stripNul).filter (· ≠ "")).getD defaultEnvironment
  if monitorSlug = "" then .error (.validation "check-in monitor_slug is empty")
  else if environment.toList.length > maxEnvironmentLength then
    .error (.validation "check-in environment is longer than 64 characters")
  else
    .ok {
      checkInId, monitorSlug, environment, monitorConfig
      -- Only the server decides a check-in was missed.
      status := match status with
        | .missed => .unknown
        | other => other
      durationMs := durationMs.filter (0 ≤ ·) }

/-- What is made of an item that is well formed. -/
def CheckIn.parse (p : CheckInPayload) : AppResult CheckIn :=
  CheckIn.new (p.checkInId.getD nil) p.monitorSlug (.parse p.status) p.environment p.durationMs
    p.monitorConfig

/-- Health of one monitor environment. -/
inductive MonitorEnvironmentStatus
  /-- Created, waiting for its first successful check-in. -/
  | active
  | ok
  /-- An incident is open. -/
  | error
  deriving DecidableEq, Repr

/-- Why a monitor failed. -/
inductive FailureReason
  | error
  | missed
  | timeout
  deriving DecidableEq, Repr

/-- A failure that must be reported as an issue event. -/
structure MonitorFailure where
  projectId : Int
  monitorSlug : String
  monitorName : String
  environment : String
  monitorEnvironmentId : Uuid
  checkInId : Uuid
  reason : FailureReason
  occurredAt : Int
  deriving DecidableEq, Repr

/-- Every failure of an environment lands in the same issue. -/
def MonitorFailure.fingerprint (monitorEnvironmentId : Uuid) : String :=
  "crons:" ++ toString monitorEnvironmentId

def maxNameLength : Nat := 128

/-- A trimmed, non-empty name of at most `maxNameLength` characters. -/
def validateMonitorName (name : String) : AppResult String :=
  let name := trim name
  if name = "" then
    .error ((AppError.validation "Monitor name is required").withField "name" .required)
  else if name.toList.length > maxNameLength then
    .error ((AppError.validation s!"Monitor name is longer than {maxNameLength} characters").withField
      "name" .tooLong)
  else .ok name

/-! ## What validation makes sure of -/

variable {clocks : Clocks} {input : MonitorConfigInput} {existing : Option MonitorConfig}
  {c : MonitorConfig} {now : Int}

variable (clocks c) in
/-- What is known of a configuration that is stored. -/
structure MonitorConfig.Valid : Prop where
  schedule : ∃ now, c.schedule.validate clocks.croner now = .ok ()
  timezone : (clocks.zone c.timezone).isSome
  margin : 1 ≤ c.checkinMargin ∧ c.checkinMargin ≤ maxCheckinMargin
  runtime : 1 ≤ c.maxRuntime ∧ c.maxRuntime ≤ maxMaxRuntime
  failureIssueThreshold : 1 ≤ c.failureIssueThreshold
  recoveryThreshold : 1 ≤ c.recoveryThreshold

theorem minutesOr_mem {input current : Option Nat} {default most : Nat}
    (hdefault : 1 ≤ default ∧ default ≤ most) (hcurrent : ∀ m ∈ current, 1 ≤ m ∧ m ≤ most) :
    1 ≤ minutesOr input current default most ∧ minutesOr input current default most ≤ most := by
  unfold minutesOr
  cases input with
  | some m =>
      simp only [Option.map_some, Option.some_or, Option.getD_some]
      exact ⟨le_min (le_max_right m 1) (hdefault.1.trans hdefault.2), min_le_right _ _⟩
  | none =>
      cases current with
      | none => exact hdefault
      | some m => exact hcurrent m rfl

theorem thresholdOr_pos {input current : Option Nat} {name : String} {n : Nat}
    (hcurrent : ∀ m ∈ current, 1 ≤ m) (h : thresholdOr input current name = .ok n) : 1 ≤ n := by
  cases input with
  | some m =>
      simp only [thresholdOr] at h
      split_ifs at h with hrange
      cases h
      exact hrange.1
  | none =>
      cases h
      cases current with
      | none => exact le_rfl
      | some m => exact hcurrent m rfl

theorem mapError_eq_ok {α ε δ : Type} {x : Except ε α} {f : ε → δ} {a : α}
    (h : x.mapError f = .ok a) : x = .ok a := by
  cases x with
  | ok b => cases h; rfl
  | error e => cases h

/-- A configuration that passes is valid, and every default with it. -/
theorem valid_of_validate (hexisting : ∀ old ∈ existing, old.Valid clocks)
    (h : input.validate clocks now existing = .ok c) : c.Valid clocks := by
  unfold MonitorConfigInput.validate at h
  obtain ⟨schedule, -, h⟩ := bind_eq_ok h
  obtain ⟨_, hschedule, h⟩ := bind_eq_ok h
  obtain ⟨zone, hzone, h⟩ := bind_eq_ok h
  obtain ⟨failure, hfailure, h⟩ := bind_eq_ok h
  obtain ⟨recovery, hrecovery, h⟩ := bind_eq_ok h
  obtain rfl := Except.ok.inj h
  have hold : ∀ {α : Type} {f : MonitorConfig → α} {p : α → Prop},
      (∀ old : MonitorConfig, old.Valid clocks → p (f old)) → ∀ a ∈ existing.map f, p a := by
    intro α f p hp a ha
    obtain ⟨old, hmem, rfl⟩ := Option.map_eq_some_iff.mp ha
    exact hp old (hexisting old hmem)
  exact
    { schedule := ⟨now, mapError_eq_ok hschedule⟩
      timezone := by
        have hparsed := mapError_eq_ok hzone
        unfold parseTimezone at hparsed
        split at hparsed
        · next hfound => simp only [hfound, Option.isSome_some]
        · cases hparsed
      margin := minutesOr_mem (by decide) (hold fun old hvalid => hvalid.margin)
      runtime := minutesOr_mem (by decide) (hold fun old hvalid => hvalid.runtime)
      failureIssueThreshold :=
        thresholdOr_pos (hold fun old hvalid => hvalid.failureIssueThreshold) hfailure
      recoveryThreshold :=
        thresholdOr_pos (hold fun old hvalid => hvalid.recoveryThreshold) hrecovery }

/-- An interval that passes is not zero. -/
theorem value_pos_of_validate {croner : Croner} {value : Nat} {unit : IntervalUnit}
    (h : (Schedule.interval value unit).validate croner now = .ok ()) : 0 < value := by
  cases value with
  | zero => cases h
  | succ value => exact Nat.succ_pos value

/-- The status of a check-in is the one that was sent, `missed` apart. -/
theorem status_of_parse {p : CheckInPayload} {ci : CheckIn} (h : CheckIn.parse p = .ok ci) :
    ci.status = if CheckInStatus.parse p.status = .missed then .unknown else .parse p.status := by
  simp only [CheckIn.parse, CheckIn.new] at h
  split_ifs at h
  obtain rfl := Except.ok.inj h
  cases CheckInStatus.parse p.status <;> rfl

/-- No check-in is missed before it is sent. -/
theorem status_ne_missed {p : CheckInPayload} {ci : CheckIn} (h : CheckIn.parse p = .ok ci) :
    ci.status ≠ .missed := by
  rw [status_of_parse h]
  split_ifs with hmissed
  · decide
  · exact hmissed

end Rustrak.Monitors
