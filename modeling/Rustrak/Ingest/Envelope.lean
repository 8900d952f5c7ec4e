import Mathlib.Data.List.Infix
import Rustrak.Core.Error

/-!
# Envelopes

`ingest/envelope.rs`, and what `ingest/parser.rs` does to a payload.  An envelope is one
line of headers and then items, each one line of headers and a payload.  The headers and
the payloads of sessions are JSON, which `EnvelopeFormat` reads; any other payload stays
the bytes it came as, without the NUL escapes that one of the databases rejects.

`jsonTokens` says what an escape is, by the grammar of JSON; the copying loop of the
source looks at two bytes of it at a time.
-/

namespace Rustrak.Ingest

open Rustrak.Core

structure SdkInfo where
  name : Option String
  version : Option String
  deriving DecidableEq, Repr

/-- The first line of an envelope. -/
structure EnvelopeHeaders where
  eventId : Option String
  dsn : Option String
  sentAt : Option String
  sdk : Option SdkInfo
  deriving DecidableEq, Repr

structure ItemHeaders where
  itemType : String
  length : Option Nat
  contentType : Option String
  filename : Option String
  attachmentType : Option String
  deriving DecidableEq, Repr

/-- `serde_json::from_slice` at the types it is called with, `Update` and `Aggregates` being
those of session items; an error is its text. -/
structure EnvelopeFormat (Update Aggregates : Type) where
  envelopeHeaders : List UInt8 → Except String EnvelopeHeaders
  itemHeaders : List UInt8 → Except String ItemHeaders
  session : List UInt8 → Except String Update
  sessions : List UInt8 → Except String Aggregates

structure Attachment where
  filename : Option String
  contentType : Option String
  attachmentType : Option String
  payload : List UInt8
  deriving DecidableEq, Repr

inductive EnvelopeItemKind (Update Aggregates : Type)
  | event (payload : List UInt8)
  | transaction (payload : List UInt8)
  | session (update : Update)
  | sessions (aggregates : Aggregates)
  | log (payload : List UInt8)
  | span (payload : List UInt8)
  | spanV2Batch (payload : List UInt8)
  | checkIn (payload : List UInt8)
  | feedback (payload : List UInt8)
  | userReport (payload : List UInt8)
  | attachment (attachment : Attachment)
  | other (itemType : String) (payload : List UInt8)
  deriving DecidableEq, Repr

def spanV2ContentType : String := "application/vnd.sentry.items.span.v2+json"

variable {Update Aggregates : Type}

/-- `EnvelopeItemKind::from`.  A session item that cannot be read is an `other`. -/
def EnvelopeItemKind.from (format : EnvelopeFormat Update Aggregates) (headers : ItemHeaders)
    (payload : List UInt8) : EnvelopeItemKind Update Aggregates :=
  match headers.itemType with
  | "event" => .event payload
  | "transaction" => .transaction payload
  | "log" => .log payload
  | "check_in" => .checkIn payload
  | "feedback" => .feedback payload
  | "user_report" => .userReport payload
  | "attachment" =>
      .attachment ⟨headers.filename, headers.contentType, headers.attachmentType, payload⟩
  | "span" =>
      if headers.contentType = some spanV2ContentType then .spanV2Batch payload else .span payload
  | "session" =>
      match format.session payload with
      | .ok update => .session update
      | .error _ => .other "session" payload
  | "sessions" =>
      match format.sessions payload with
      | .ok aggregates => .sessions aggregates
      | .error _ => .other "sessions" payload
  | itemType => .other itemType payload

structure ParsedEnvelope (Update Aggregates : Type) where
  headers : EnvelopeHeaders
  items : List (EnvelopeItemKind Update Aggregates)
  deriving DecidableEq, Repr

/-! ## NUL escapes -/

def newline : UInt8 := 0x0a

def backslash : UInt8 := 0x5c

/-- `\u0000`. -/
def nulEscape : List UInt8 := [0x5c, 0x75, 0x30, 0x30, 0x30, 0x30]

/-- The copying loop of `strip_nul_escapes`. -/
def copyWithoutNul : List UInt8 → List UInt8
  | [] => []
  | b :: json =>
      if b ≠ backslash then b :: copyWithoutNul json
      else if nulEscape <+: b :: json then copyWithoutNul (json.drop 5)
      -- Any other escape is copied whole, so what follows a backslash is no escape.
      else b :: (json.take 1 ++ copyWithoutNul (json.drop 1))
termination_by json => json.length
decreasing_by
  all_goals
    simp only [List.length_drop, List.length_cons]
    omega

/-- `strip_nul_escapes`: a text without the escape is not copied. -/
def stripNulEscapes (json : List UInt8) : List UInt8 :=
  if nulEscape <:+: json then copyWithoutNul json else json

def isHexDigit (b : UInt8) : Bool :=
  (0x30 ≤ b && b ≤ 0x39) || (0x41 ≤ b && b ≤ 0x46) || (0x61 ≤ b && b ≤ 0x66)

/-- What follows a backslash is the `u` and the digits of a code unit. -/
def isCodeUnit (json : List UInt8) : Bool :=
  json.head? == some 0x75 && 5 ≤ json.length && ((json.drop 1).take 4).all isHexDigit

/-- A JSON text cut into its escapes and the bytes between them. -/
def jsonTokens : List UInt8 → List (List UInt8)
  | [] => []
  | b :: json =>
      if b ≠ backslash then [b] :: jsonTokens json
      else if isCodeUnit json then (b :: json.take 5) :: jsonTokens (json.drop 5)
      else (b :: json.take 1) :: jsonTokens (json.drop 1)
termination_by json => json.length
decreasing_by
  all_goals
    simp only [List.length_drop, List.length_cons]
    omega

/-- A JSON text without its NUL escapes. -/
def withoutNulEscapes (json : List UInt8) : List UInt8 :=
  ((jsonTokens json).filter (· ≠ nulEscape)).flatten

/-- The tokens are the text. -/
theorem flatten_jsonTokens (json : List UInt8) : (jsonTokens json).flatten = json := by
  fun_induction jsonTokens json with
  | case1 => rfl
  | case2 b json _ ih => rw [List.flatten_cons, ih, List.singleton_append]
  | case3 b json _ _ ih => rw [List.flatten_cons, ih, List.cons_append, List.take_append_drop]
  | case4 b json _ _ ih => rw [List.flatten_cons, ih, List.cons_append, List.take_append_drop]

/-- The escape is read as one of a code unit. -/
theorem isCodeUnit_of_nulEscape {b : UInt8} {json : List UInt8} (h : nulEscape <+: b :: json) :
    isCodeUnit json = true := by
  obtain ⟨rest, hrest⟩ := h
  obtain ⟨-, rfl⟩ := List.cons.inj hrest
  simp [isCodeUnit, isHexDigit]

/-- As a token it is that escape. -/
theorem nulEscape_prefix_iff {b : UInt8} {json : List UInt8} :
    nulEscape <+: b :: json ↔ b :: json.take 5 = nulEscape := by
  rw [List.prefix_iff_eq_take, eq_comm]
  rfl

private theorem copyWithoutNul_cons {b : UInt8} {json : List UInt8} (hb : b ≠ backslash) :
    copyWithoutNul (b :: json) = b :: copyWithoutNul json := by
  rw [copyWithoutNul, if_pos hb]

/-- Bytes that escape nothing are copied. -/
private theorem copyWithoutNul_append {plain : List UInt8} (json : List UInt8)
    (hplain : backslash ∉ plain) :
    copyWithoutNul (plain ++ json) = plain ++ copyWithoutNul json := by
  induction plain with
  | nil => rfl
  | cons b plain ih =>
      simp only [List.mem_cons, not_or] at hplain
      obtain ⟨hb, hrest⟩ := hplain
      rw [List.cons_append, copyWithoutNul_cons (Ne.symm hb), ih hrest, List.cons_append]

private theorem withoutNulEscapes_of_tokens {json rest token : List UInt8}
    (h : jsonTokens json = token :: jsonTokens rest) :
    withoutNulEscapes json =
      (if token = nulEscape then [] else token) ++ withoutNulEscapes rest := by
  unfold withoutNulEscapes
  rw [h, List.filter_cons]
  by_cases htoken : token = nulEscape <;> simp [htoken]

/-- The loop removes the NUL escapes: of an escape with digits it copies the first two
bytes, and none of the digits is a backslash. -/
theorem copyWithoutNul_eq (json : List UInt8) : copyWithoutNul json = withoutNulEscapes json := by
  induction json using jsonTokens.induct with
  | case1 => simp [copyWithoutNul, withoutNulEscapes, jsonTokens]
  | case2 b json hb ih =>
      have htokens : jsonTokens (b :: json) = [b] :: jsonTokens json := by
        rw [jsonTokens, if_pos hb]
      have htoken : [b] ≠ nulEscape := by simp [nulEscape]
      rw [withoutNulEscapes_of_tokens htokens, if_neg htoken, copyWithoutNul_cons hb, ih,
        List.singleton_append]
  | case3 b json hb hunit ih =>
      have htokens : jsonTokens (b :: json) = (b :: json.take 5) :: jsonTokens (json.drop 5) := by
        rw [jsonTokens, if_neg hb, if_pos hunit]
      rw [withoutNulEscapes_of_tokens htokens, copyWithoutNul, if_neg hb]
      by_cases hnul : nulEscape <+: b :: json
      · rw [if_pos hnul, if_pos (nulEscape_prefix_iff.mp hnul), ih, List.nil_append]
      · rw [if_neg hnul, if_neg fun heq => hnul (nulEscape_prefix_iff.mpr heq)]
        have hdigits : backslash ∉ (json.drop 1).take 4 := by
          intro hmem
          simp only [isCodeUnit, Bool.and_eq_true] at hunit
          have hdigit := List.all_eq_true.mp hunit.2 backslash hmem
          exact absurd hdigit (by decide)
        have hsplit : json.drop 1 = (json.drop 1).take 4 ++ json.drop 5 := by
          rw [← List.drop_drop (i := 4) (j := 1), List.take_append_drop]
        have htake : json.take (1 + 4) = json.take 1 ++ (json.drop 1).take 4 := List.take_add
        rw [hsplit, copyWithoutNul_append _ hdigits, ih, List.cons_append, htake, List.append_assoc]
  | case4 b json hb hunit ih =>
      have htokens : jsonTokens (b :: json) = (b :: json.take 1) :: jsonTokens (json.drop 1) := by
        rw [jsonTokens, if_neg hb, if_neg hunit]
      have htoken : b :: json.take 1 ≠ nulEscape := by
        intro heq
        have hlength := congrArg List.length heq
        simp [nulEscape] at hlength
        omega
      have hnul : ¬nulEscape <+: b :: json := fun h => hunit (isCodeUnit_of_nulEscape h)
      rw [withoutNulEscapes_of_tokens htokens, if_neg htoken, copyWithoutNul, if_neg hb,
        if_neg hnul, ih, List.cons_append]

/-- `strip_nul_escapes` removes the NUL escapes and nothing else. -/
theorem stripNulEscapes_eq (json : List UInt8) :
    stripNulEscapes json = withoutNulEscapes json := by
  unfold stripNulEscapes
  split_ifs with hnul
  · exact copyWithoutNul_eq json
  · have htokens : ∀ token ∈ jsonTokens json, token ≠ nulEscape := by
      rintro token htoken rfl
      have hinfix := List.infix_of_mem_flatten htoken
      rw [flatten_jsonTokens] at hinfix
      exact hnul hinfix
    rw [withoutNulEscapes, List.filter_eq_self.mpr (by simpa using htokens), flatten_jsonTokens]

example : withoutNulEscapes "a\\\\u0000\\u0000b".toUTF8.toList = "a\\\\u0000b".toUTF8.toList := by
  decide +kernel

end Rustrak.Ingest
