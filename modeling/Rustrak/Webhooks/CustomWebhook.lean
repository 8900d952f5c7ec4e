import Rustrak.Json.Grammar
import Rustrak.Webhooks.JsonTemplate

/-!
# The body of a custom webhook

`notification/custom_webhook.rs`: a template is rendered against the payload of an alert, and
what comes out is sent if it is JSON.  A template is saved only if both samples render.

The template engine is not part of the code.  It compiles a source, renders one against a
payload, and `serde_json` names what is wrong with a text that is not JSON.  A time stands for
the text that it is serialised as.
-/

namespace Rustrak.Webhooks

open Rustrak.Json.Holes (Kind Symbol Token read)

structure ProjectInfo where
  id : ℤ
  name : Text
  slug : Text
  deriving DecidableEq

structure IssueInfo where
  id : Text
  shortId : Text
  title : Text
  level : Option Text
  firstSeen : Text
  lastSeen : Text
  eventCount : ℤ
  deriving DecidableEq

structure AlertPayload where
  alertId : Text
  alertType : Text
  triggeredAt : Text
  project : ProjectInfo
  issue : IssueInfo
  issueUrl : Text
  actor : Text
  deriving DecidableEq

/-! ## Fields -/

/-- A field that an expression can name. -/
inductive Field
  | alertId
  | alertType
  | triggeredAt
  | project
  | projectId
  | projectName
  | projectSlug
  | issue
  | issueId
  | issueShortId
  | issueTitle
  | issueLevel
  | issueFirstSeen
  | issueLastSeen
  | issueEventCount
  | issueUrl
  | actor
  deriving DecidableEq, Repr

def Field.path : Field → Text
  | .alertId => ascii "alert_id"
  | .alertType => ascii "alert_type"
  | .triggeredAt => ascii "triggered_at"
  | .project => ascii "project"
  | .projectId => ascii "project.id"
  | .projectName => ascii "project.name"
  | .projectSlug => ascii "project.slug"
  | .issue => ascii "issue"
  | .issueId => ascii "issue.id"
  | .issueShortId => ascii "issue.short_id"
  | .issueTitle => ascii "issue.title"
  | .issueLevel => ascii "issue.level"
  | .issueFirstSeen => ascii "issue.first_seen"
  | .issueLastSeen => ascii "issue.last_seen"
  | .issueEventCount => ascii "issue.event_count"
  | .issueUrl => ascii "issue_url"
  | .actor => ascii "actor"

def levelScalar (level : Option Text) : Scalar :=
  match level with
  | some level => .string level
  | none => .none

/-- The value of a field.  The engine keeps the members of an object by their keys. -/
def Field.value (payload : AlertPayload) : Field → Value
  | .alertId => .scalar (.string payload.alertId)
  | .alertType => .scalar (.string payload.alertType)
  | .triggeredAt => .scalar (.string payload.triggeredAt)
  | .project =>
      .object [(ascii "id", .number payload.project.id),
        (ascii "name", .string payload.project.name),
        (ascii "slug", .string payload.project.slug)]
  | .projectId => .scalar (.number payload.project.id)
  | .projectName => .scalar (.string payload.project.name)
  | .projectSlug => .scalar (.string payload.project.slug)
  | .issue =>
      .object [(ascii "event_count", .number payload.issue.eventCount),
        (ascii "first_seen", .string payload.issue.firstSeen),
        (ascii "id", .string payload.issue.id),
        (ascii "last_seen", .string payload.issue.lastSeen),
        (ascii "level", levelScalar payload.issue.level),
        (ascii "short_id", .string payload.issue.shortId),
        (ascii "title", .string payload.issue.title)]
  | .issueId => .scalar (.string payload.issue.id)
  | .issueShortId => .scalar (.string payload.issue.shortId)
  | .issueTitle => .scalar (.string payload.issue.title)
  | .issueLevel => .scalar (levelScalar payload.issue.level)
  | .issueFirstSeen => .scalar (.string payload.issue.firstSeen)
  | .issueLastSeen => .scalar (.string payload.issue.lastSeen)
  | .issueEventCount => .scalar (.number payload.issue.eventCount)
  | .issueUrl => .scalar (.string payload.issueUrl)
  | .actor => .scalar (.string payload.actor)

/-- What a field is in every payload. -/
def Field.kind : Field → Kind
  | .projectId | .issueEventCount => .number
  | .project | .issue | .issueLevel => .other
  | _ => .text

/-! ## Rendering -/

inductive RenderError
  | writeFailure
  | outOfFuel
  | other (message : Text)
  deriving DecidableEq

structure Engine where
  compile : Text → Except Text Unit
  render : Text → AlertPayload → Except RenderError Text
  /-- What is wrong with a text that is not JSON. -/
  invalid : Text → Text

/-- The tokens of a body that is JSON. -/
def readBody (body : Text) : Option (List (Token Field)) := read Field.kind (body.map .char)

def describeRenderError : RenderError → Text
  | .writeFailure => ascii "Rendered body exceeds the 1048576-byte limit"
  | .outOfFuel => ascii "Template is too complex to render within the instruction budget"
  | .other message => ascii "Template rendering failed: " ++ message

variable (engine : Engine)

/-- The source that is rendered, which compiles. -/
def templateEnv (template : Text) : Except Text Text :=
  match engine.compile (autoescape template) with
  | .error e => .error (ascii "Invalid template: " ++ e)
  | .ok () => .ok (autoescape template)

def renderBody (template : Text) (payload : AlertPayload) : Except Text Text := do
  let source ← templateEnv engine template
  match engine.render source payload with
  | .error e => .error (describeRenderError e)
  | .ok body =>
      if (readBody body).isSome then .ok body
      else .error (ascii "Rendered template is not valid JSON: " ++ engine.invalid body)

/-! ## Saving -/

def fullSample (now : Text) : AlertPayload where
  alertId := ascii "00000000-0000-0000-0000-000000000000"
  alertType := ascii "new_issue"
  triggeredAt := now
  project := { id := 1, name := ascii "Sample Project", slug := ascii "sample-project" }
  issue := {
    id := ascii "00000000-0000-0000-0000-000000000000"
    shortId := ascii "SAMPLE-1"
    title := ascii "Sample issue"
    level := some (ascii "error")
    firstSeen := now
    lastSeen := now
    eventCount := 1 }
  issueUrl := ascii "https://rustrak.example/issues/sample"
  actor := ascii "Rustrak"

def sampleWithoutLevel (now : Text) : AlertPayload :=
  { fullSample now with issue := { (fullSample now).issue with level := none } }

def validationSamples (now : Text) : List AlertPayload := [fullSample now, sampleWithoutLevel now]

structure CustomWebhookConfig where
  url : Option Text
  headers : List (Text × Text)
  template : Text

/-- A refusal with another text before its own. -/
def prefixed {α : Type} (before : String) (result : Except Text α) : Except Text α :=
  result.mapError (ascii before ++ ·)

/-- `validate_config`, of a config that is read; `checks` are those of its URL and headers. -/
def validateConfig (checks : Option Text → List (Text × Text) → Except Text Unit) (now : Text)
    (config : CustomWebhookConfig) : Except Text Unit := do
  checks config.url config.headers
  if (trim config.template).isEmpty then .error (ascii "Template cannot be empty")
  else
    let _ ← prefixed "Invalid template syntax: " (templateEnv engine config.template)
    for sample in validationSamples now do
      let _ ← prefixed "Template check failed: " (renderBody engine config.template sample)

end Rustrak.Webhooks
