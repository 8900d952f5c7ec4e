import Rustrak.Ingest.Envelope
import Mathlib.Data.List.TakeWhile

/-!
# The envelope parser

`EnvelopeParser` of `ingest/parser.rs`: a buffer and a position in it, which every read
moves forward.  An item says how long its payload is, or its payload is a line.

## Strategy

`At` says what a parser has still to read.  One lemma for each of `readLine`, `readBytes`
and `skipNewline` takes it past what was read and past the newline after it, if there is
one: `tail` of what follows is the same for a newline and for the end of the input.  From
them an item at the head is parsed (`parseItem_render`), and an induction on the items
gives the whole envelope.
-/

namespace Rustrak.Ingest

open Rustrak.Core

def maxHeaderSize : Nat := 8 * 1024

def maxItemSize : Nat := 1024 * 1024

def maxItemCount : Nat := 1024

def maxRawEventSize : Nat := 4 * 1024 * 1024

def maxDecompressedSize : Nat := 100 * 1024 * 1024

structure EnvelopeParser where
  data : List UInt8
  position : Nat
  deriving DecidableEq, Repr

namespace EnvelopeParser

def new (data : List UInt8) : EnvelopeParser := ⟨data, 0⟩

/-- What is not read yet. -/
def rest (p : EnvelopeParser) : List UInt8 := p.data.drop p.position

def atEof (p : EnvelopeParser) : Bool := p.data.length ≤ p.position

/-- The scan of `read_line`: how many bytes stand before the newline, `read` of them
counted already. -/
def scanLine (maxSize : Nat) : List UInt8 → Nat → AppResult Nat
  | [], read => .ok read
  | b :: rest, read =>
      if b = newline then .ok read
      else if maxSize < read + 1 then
        .error (.payloadTooLarge s!"Line exceeds {maxSize} bytes")
      else scanLine maxSize rest (read + 1)

def readLine (p : EnvelopeParser) (maxSize : Nat) : AppResult (List UInt8 × EnvelopeParser) := do
  let read ← scanLine maxSize p.rest 0
  let stop := p.position + read
  return (p.rest.take read,
    { p with position := if stop < p.data.length then stop + 1 else stop })

def readBytes (p : EnvelopeParser) (length : Nat) : AppResult (List UInt8 × EnvelopeParser) :=
  if p.data.length < p.position + length then
    .error (.validation "Unexpected EOF while reading item payload")
  else .ok (p.rest.take length, { p with position := p.position + length })

def skipNewline (p : EnvelopeParser) : EnvelopeParser :=
  if p.data[p.position]? = some newline then { p with position := p.position + 1 } else p

variable {Update Aggregates : Type} (format : EnvelopeFormat Update Aggregates)

def parseEnvelopeHeaders (p : EnvelopeParser) : AppResult (EnvelopeHeaders × EnvelopeParser) := do
  let (line, p) ← p.readLine maxHeaderSize
  if line.isEmpty then .error (.validation "Empty envelope headers")
  else
    match format.envelopeHeaders line with
    | .ok headers => return (headers, p)
    | .error e => .error (.validation s!"Invalid envelope headers JSON: {e}")

/-- What an item of this type may hold. -/
def maxPayloadSize (itemType : String) : Nat :=
  match itemType with
  | "event" => maxRawEventSize
  | "attachment" => maxDecompressedSize
  | _ => maxItemSize

/-- The payload of an item with these headers. -/
def readPayload (p : EnvelopeParser) (headers : ItemHeaders) :
    AppResult (List UInt8 × EnvelopeParser) :=
  let maxSize := maxPayloadSize headers.itemType
  match headers.length with
  | some length => do
      ensure (length ≤ maxSize) (.payloadTooLarge s!"Item payload exceeds {maxSize} bytes")
      let (payload, p) ← p.readBytes length
      return (payload, p.skipNewline)
  | none => p.readLine maxSize

/-- Every item type is JSON except attachments. -/
def cleanPayload (headers : ItemHeaders) (payload : List UInt8) : List UInt8 :=
  if headers.itemType = "attachment" then payload else stripNulEscapes payload

/-- An empty line is no item. -/
def parseItem (p : EnvelopeParser) :
    AppResult (Option (EnvelopeItemKind Update Aggregates) × EnvelopeParser) := do
  let (line, p) ← p.readLine maxHeaderSize
  if line.isEmpty then return (none, p)
  else
    match format.itemHeaders line with
    | .error e => .error (.validation s!"Invalid item headers JSON: {e}")
    | .ok headers => do
        let (payload, p) ← p.readPayload headers
        return (some (.from format headers (cleanPayload headers payload)), p)

/-! ## Reads move forward -/

/-- `q` is `p` further on in the buffer. -/
def Advances (p q : EnvelopeParser) : Prop := q.data = p.data ∧ p.position ≤ q.position

variable {p q : EnvelopeParser}

theorem Advances.trans {r : EnvelopeParser} (h : Advances p q) (h' : Advances q r) :
    Advances p r :=
  ⟨h'.1.trans h.1, h.2.trans h'.2⟩

/-- A line is left behind with its newline, so reading one moves on. -/
theorem readLine_advances {maxSize : Nat} {line : List UInt8}
    (h : p.readLine maxSize = .ok (line, q)) :
    Advances p q ∧ (p.atEof = false → p.position < q.position) := by
  obtain ⟨read, _, h⟩ := bind_eq_ok h
  obtain ⟨-, rfl⟩ := Prod.mk.inj (Except.ok.inj h)
  simp only [Advances, atEof, decide_eq_false_iff_not, true_and]
  split_ifs with hnewline <;> omega

theorem readBytes_advances {length : Nat} {bytes : List UInt8}
    (h : p.readBytes length = .ok (bytes, q)) : Advances p q := by
  unfold readBytes at h
  split_ifs at h
  obtain ⟨-, rfl⟩ := Prod.mk.inj (Except.ok.inj h)
  exact ⟨rfl, Nat.le_add_right _ _⟩

theorem skipNewline_advances (p : EnvelopeParser) : Advances p p.skipNewline := by
  unfold skipNewline
  split_ifs
  · exact ⟨rfl, Nat.le_succ _⟩
  · exact ⟨rfl, le_refl _⟩

theorem readPayload_advances {headers : ItemHeaders} {payload : List UInt8}
    (h : p.readPayload headers = .ok (payload, q)) : Advances p q := by
  unfold readPayload at h
  dsimp only at h
  split at h
  · obtain ⟨_, _, h⟩ := bind_eq_ok h
    obtain ⟨⟨bytes, mid⟩, hbytes, h⟩ := bind_eq_ok h
    obtain ⟨-, rfl⟩ := Prod.mk.inj (Except.ok.inj h)
    exact (readBytes_advances hbytes).trans (skipNewline_advances mid)
  · exact (readLine_advances h).1

theorem parseItem_advances {item : Option (EnvelopeItemKind Update Aggregates)}
    (h : p.parseItem format = .ok (item, q)) :
    Advances p q ∧ (p.atEof = false → p.position < q.position) := by
  obtain ⟨⟨line, mid⟩, hline, h⟩ := bind_eq_ok h
  obtain ⟨hadvances, hmoves⟩ := readLine_advances hline
  dsimp only at h
  split_ifs at h with hempty
  · obtain ⟨-, rfl⟩ := Prod.mk.inj (Except.ok.inj h)
    exact ⟨hadvances, hmoves⟩
  · split at h
    · contradiction
    · obtain ⟨⟨payload, last⟩, hpayload, h⟩ := bind_eq_ok h
      obtain ⟨-, rfl⟩ := Prod.mk.inj (Except.ok.inj h)
      have hrest := readPayload_advances hpayload
      exact ⟨hadvances.trans hrest, fun hend => (hmoves hend).trans_le hrest.2⟩

/-! ## The envelope -/

/-- The loop of `parse`, with the items so far. -/
def parseItems (p : EnvelopeParser) (items : List (EnvelopeItemKind Update Aggregates)) :
    AppResult (List (EnvelopeItemKind Update Aggregates)) :=
  if _hend : p.atEof = true then .ok items
  else if maxItemCount ≤ items.length then
    .error (.payloadTooLarge s!"Envelope contains more than {maxItemCount} items")
  else
    match _hitem : p.parseItem format with
    | .error e => .error e
    | .ok (item, q) => parseItems q (items ++ item.toList)
termination_by p.data.length - p.position
decreasing_by
  obtain ⟨⟨hdata, _⟩, hmoves⟩ := parseItem_advances format _hitem
  have hposition := hmoves (by simpa using _hend)
  simp only [atEof, decide_eq_true_eq] at _hend
  rw [hdata]
  omega

def parse (p : EnvelopeParser) : AppResult (ParsedEnvelope Update Aggregates) := do
  let (headers, p) ← p.parseEnvelopeHeaders format
  let items ← p.parseItems format []
  return { headers, items }

/-! ## Reading what was rendered -/

/-- The parser stands before these bytes. -/
def At (p : EnvelopeParser) (bytes : List UInt8) : Prop :=
  ∃ before, p.data = before ++ bytes ∧ p.position = before.length

/-- A newline, or the end of the input. -/
def Terminated (bytes : List UInt8) : Prop := ∀ b ∈ bytes.head?, b = newline

variable {bytes line tail : List UInt8}

theorem At.rest_eq (h : p.At bytes) : p.rest = bytes := by
  obtain ⟨before, hdata, hposition⟩ := h
  rw [rest, hdata, hposition, List.drop_left]

theorem At.atEof_iff (h : p.At bytes) : p.atEof = true ↔ bytes = [] := by
  obtain ⟨before, hdata, hposition⟩ := h
  rw [atEof, hdata, hposition, decide_eq_true_eq, List.length_append, ← List.length_eq_zero_iff]
  omega

theorem At.length_eq (h : p.At bytes) : p.data.length = p.position + bytes.length := by
  obtain ⟨before, hdata, hposition⟩ := h
  rw [hdata, hposition, List.length_append]

/-- After so many bytes the parser stands before the others. -/
theorem At.moved (h : p.At (bytes ++ tail)) :
    EnvelopeParser.At { p with position := p.position + bytes.length } tail := by
  obtain ⟨before, hdata, hposition⟩ := h
  exact ⟨before ++ bytes, by rw [hdata, List.append_assoc],
    by rw [hposition, List.length_append]⟩

theorem scanLine_append {maxSize read : Nat} (hline : newline ∉ line) (htail : Terminated tail)
    (hsize : read + line.length ≤ maxSize) :
    scanLine maxSize (line ++ tail) read = .ok (read + line.length) := by
  induction line generalizing read with
  | nil =>
      cases tail with
      | nil => rfl
      | cons b tail =>
          obtain rfl : b = newline := htail b rfl
          rfl
  | cons b line ih =>
      simp only [List.mem_cons, not_or] at hline
      rw [List.length_cons] at hsize ⊢
      have hroom : ¬maxSize < read + 1 := by omega
      rw [List.cons_append, scanLine, if_neg (Ne.symm hline.1), if_neg hroom,
        ih hline.2 (by omega), Nat.add_right_comm, Nat.add_assoc]

theorem At.skipNewline (h : p.At tail) (htail : Terminated tail) :
    p.skipNewline.At tail.tail := by
  have hnext : p.data[p.position]? = tail.head? := by
    obtain ⟨before, hdata, hposition⟩ := h
    rw [hdata, hposition, List.getElem?_append_right (le_refl _), Nat.sub_self,
      List.head?_eq_getElem?]
  unfold EnvelopeParser.skipNewline
  rw [hnext]
  cases tail with
  | nil => exact h
  | cons b tail =>
      obtain rfl : b = newline := htail b rfl
      rw [List.head?_cons, if_pos rfl]
      exact @At.moved p [newline] tail h

/-- A line is read up to its newline, which is left behind. -/
theorem At.readLine {maxSize : Nat} (h : p.At (line ++ tail)) (hline : newline ∉ line)
    (htail : Terminated tail) (hsize : line.length ≤ maxSize) :
    ∃ q, p.readLine maxSize = .ok (line, q) ∧ q.At tail.tail := by
  have hscan : scanLine maxSize p.rest 0 = .ok line.length := by
    rw [h.rest_eq, scanLine_append hline htail (by omega), Nat.zero_add]
  have hread : p.readLine maxSize = .ok (line, { p with
      position := if p.position + line.length < p.data.length then p.position + line.length + 1
        else p.position + line.length }) := by
    unfold EnvelopeParser.readLine
    rw [hscan, h.rest_eq]
    simp only [bind, Except.bind, pure, Except.pure, List.take_left]
  refine ⟨_, hread, ?_⟩
  have hlength := h.length_eq
  rw [List.length_append] at hlength
  cases tail with
  | nil =>
      rw [List.length_nil] at hlength
      rw [if_neg (by omega)]
      exact h.moved
  | cons b tail =>
      rw [List.length_cons] at hlength
      rw [if_pos (by omega), List.tail_cons]
      have hmoved : p.At ((line ++ [b]) ++ tail) := by
        rw [List.append_assoc, List.singleton_append]
        exact h
      simpa only [List.length_append, List.length_singleton, Nat.add_assoc] using hmoved.moved

theorem At.readBytes (h : p.At (bytes ++ tail)) :
    ∃ q, p.readBytes bytes.length = .ok (bytes, q) ∧ q.At tail := by
  have hlength := h.length_eq
  rw [List.length_append] at hlength
  refine ⟨_, ?_, h.moved⟩
  unfold EnvelopeParser.readBytes
  rw [if_neg (by omega), h.rest_eq, List.take_left]

/-- A payload is read by its length, or up to the newline it does not hold. -/
theorem At.readPayload {headers : ItemHeaders} {payload : List UInt8}
    (h : p.At (payload ++ tail)) (htail : Terminated tail)
    (hsize : payload.length ≤ maxPayloadSize headers.itemType)
    (hlength : headers.length = some payload.length ∨
      headers.length = none ∧ newline ∉ payload) :
    ∃ q, p.readPayload headers = .ok (payload, q) ∧ q.At tail.tail := by
  unfold EnvelopeParser.readPayload
  rcases hlength with hexplicit | ⟨hline, hpayload⟩
  · obtain ⟨q, hread, hq⟩ := h.readBytes
    refine ⟨q.skipNewline, ?_, hq.skipNewline htail⟩
    simp [hexplicit, ensure, hsize, hread]
    rfl
  · rw [hline]
    exact h.readLine hpayload htail hsize

end EnvelopeParser

/-- An item as it is written: a line of headers, and a payload that is as long as they say
or is a line itself. -/
structure ItemText (format : EnvelopeFormat Update Aggregates) where
  line : List UInt8
  headers : ItemHeaders
  payload : List UInt8
  reads : format.itemHeaders line = .ok headers
  line_ne : line ≠ []
  line_newline : newline ∉ line
  line_size : line.length ≤ maxHeaderSize
  payload_size : payload.length ≤ EnvelopeParser.maxPayloadSize headers.itemType
  payload_length : headers.length = some payload.length ∨
    headers.length = none ∧ newline ∉ payload

/-- The first line of an envelope as it is written. -/
structure HeaderText (format : EnvelopeFormat Update Aggregates) where
  line : List UInt8
  headers : EnvelopeHeaders
  reads : format.envelopeHeaders line = .ok headers
  line_ne : line ≠ []
  line_newline : newline ∉ line
  line_size : line.length ≤ maxHeaderSize

section Render

variable {Update Aggregates : Type} {format : EnvelopeFormat Update Aggregates}

/-- The item that was written: a payload that is JSON has lost its NUL escapes. -/
def ItemText.kind (item : ItemText format) : EnvelopeItemKind Update Aggregates :=
  .from format item.headers
    (if item.headers.itemType = "attachment" then item.payload
    else withoutNulEscapes item.payload)

/-- What follows a line: every item starts on a new one, and a last newline may be there. -/
def renderItems (closed : Bool) : List (ItemText format) → List UInt8
  | [] => if closed then [newline] else []
  | item :: items =>
      newline :: (item.line ++ newline :: (item.payload ++ renderItems closed items))

def render (header : HeaderText format) (items : List (ItemText format)) (closed : Bool) :
    List UInt8 :=
  header.line ++ renderItems closed items

theorem terminated_renderItems (closed : Bool) (items : List (ItemText format)) :
    EnvelopeParser.Terminated (renderItems closed items) := by
  intro b hb
  cases items with
  | nil => cases closed <;> simp_all [renderItems]
  | cons item items => simpa [renderItems, eq_comm] using hb

open EnvelopeParser in
/-- An item at the head is parsed, and the newline after it left behind. -/
theorem parseItem_render {p : EnvelopeParser} (item : ItemText format) {tail : List UInt8}
    (htail : Terminated tail) (h : p.At (item.line ++ newline :: (item.payload ++ tail))) :
    ∃ q, p.parseItem format = .ok (some item.kind, q) ∧ q.At tail.tail := by
  obtain ⟨mid, hline, hmid⟩ := h.readLine item.line_newline (by simp [Terminated]) item.line_size
  obtain ⟨q, hpayload, hq⟩ :=
    EnvelopeParser.At.readPayload hmid htail item.payload_size item.payload_length
  refine ⟨q, ?_, hq⟩
  have hkind : EnvelopeItemKind.from format item.headers (cleanPayload item.headers item.payload) =
      item.kind := by
    unfold cleanPayload ItemText.kind
    rw [stripNulEscapes_eq]
  have hempty : item.line.isEmpty = false := by simpa using item.line_ne
  unfold EnvelopeParser.parseItem
  rw [hline]
  simp only [bind, Except.bind, hempty, Bool.false_eq_true, if_false, item.reads, hpayload, hkind]
  rfl

open EnvelopeParser in
/-- The items that are left are appended to those there are. -/
theorem parseItems_render {p : EnvelopeParser} {closed : Bool} {items : List (ItemText format)}
    (parsed : List (EnvelopeItemKind Update Aggregates))
    (h : p.At (renderItems closed items).tail)
    (hcount : parsed.length + items.length ≤ maxItemCount) :
    p.parseItems format parsed = .ok (parsed ++ items.map ItemText.kind) := by
  induction items generalizing p parsed with
  | nil =>
      have hend : p.atEof = true := by
        rw [h.atEof_iff]
        cases closed <;> rfl
      rw [parseItems, dif_pos hend, List.map_nil, List.append_nil]
  | cons item items ih =>
      rw [renderItems, List.tail_cons] at h
      have hend : ¬p.atEof = true := by
        rw [h.atEof_iff]
        simp
      rw [List.length_cons] at hcount
      obtain ⟨q, hitem, hq⟩ := parseItem_render item (terminated_renderItems closed items) h
      rw [parseItems, dif_neg hend, if_neg (by omega)]
      split
      · next heq =>
          rw [hitem] at heq
          contradiction
      · next parsedItem after heq =>
          rw [hitem] at heq
          obtain ⟨rfl, rfl⟩ := Prod.mk.inj (Except.ok.inj heq)
          have hlength : (parsed ++ [item.kind]).length = parsed.length + 1 := by simp
          have hrest := ih (parsed ++ [item.kind]) hq (by omega)
          rw [Option.toList_some, hrest, List.map_cons, List.append_assoc, List.singleton_append]

/-- Parsing an envelope undoes writing it: the headers and up to 1024 items come back in
order, those with a length and those without, whatever the payloads hold and whether or not
a newline ends the last of them. -/
theorem parse_render (header : HeaderText format) (items : List (ItemText format))
    (closed : Bool) (hcount : items.length ≤ maxItemCount) :
    (EnvelopeParser.new (render header items closed)).parse format =
      .ok { headers := header.headers, items := items.map ItemText.kind } := by
  have hstart : (EnvelopeParser.new (render header items closed)).At
      (header.line ++ renderItems closed items) := ⟨[], rfl, rfl⟩
  obtain ⟨q, hline, hq⟩ := hstart.readLine header.line_newline
    (terminated_renderItems closed items) header.line_size
  have hempty : header.line.isEmpty = false := by simpa using header.line_ne
  have hheaders : (EnvelopeParser.new (render header items closed)).parseEnvelopeHeaders format =
      .ok (header.headers, q) := by
    unfold EnvelopeParser.parseEnvelopeHeaders
    rw [hline]
    simp only [bind, Except.bind, hempty, Bool.false_eq_true, if_false, header.reads]
    rfl
  have hitems := parseItems_render [] hq (by simpa using hcount)
  unfold EnvelopeParser.parse
  rw [hheaders]
  simp only [bind, Except.bind, hitems]
  rfl

end Render

/-- What JSON says of three lines. -/
def threeLines : EnvelopeFormat Unit Unit where
  envelopeHeaders line :=
    if line = "\x7b\x7d".toUTF8.toList then .ok ⟨none, none, none, none⟩ else .error "other"
  itemHeaders line :=
    if line = "\x7b\"type\":\"attachment\",\"length\":3\x7d".toUTF8.toList then
      .ok ⟨"attachment", some 3, none, none, none⟩
    else if line = "\x7b\"type\":\"event\"\x7d".toUTF8.toList then
      .ok ⟨"event", none, none, none, none⟩
    else .error "other"
  session _ := .error "other"
  sessions _ := .error "other"

def emptyHeader : HeaderText threeLines where
  line := "\x7b\x7d".toUTF8.toList
  headers := ⟨none, none, none, none⟩
  reads := by decide +kernel
  line_ne := by decide +kernel
  line_newline := by decide +kernel
  line_size := by decide +kernel

/-- An attachment of three newlines. -/
def newlines : ItemText threeLines where
  line := "\x7b\"type\":\"attachment\",\"length\":3\x7d".toUTF8.toList
  headers := ⟨"attachment", some 3, none, none, none⟩
  payload := [newline, newline, newline]
  reads := by decide +kernel
  line_ne := by decide +kernel
  line_newline := by decide +kernel
  line_size := by decide +kernel
  payload_size := by decide +kernel
  payload_length := .inl rfl

/-- An event whose payload is an escape and nothing else. -/
def nulEvent : ItemText threeLines where
  line := "\x7b\"type\":\"event\"\x7d".toUTF8.toList
  headers := ⟨"event", none, none, none, none⟩
  payload := nulEscape
  reads := by decide +kernel
  line_ne := by decide +kernel
  line_newline := by decide +kernel
  line_size := by decide +kernel
  payload_size := by decide +kernel
  payload_length := .inr ⟨rfl, by decide⟩

theorem parse_render_newlines :
    (EnvelopeParser.new (render emptyHeader [newlines, nulEvent] false)).parse threeLines =
      .ok ⟨⟨none, none, none, none⟩,
        [.attachment ⟨none, none, none, [newline, newline, newline]⟩, .event []]⟩ := by
  have hkinds : [newlines, nulEvent].map ItemText.kind =
      [.attachment ⟨none, none, none, [newline, newline, newline]⟩, .event []] := by
    decide +kernel
  rw [parse_render emptyHeader [newlines, nulEvent] false (by decide), hkinds]
  rfl

end Rustrak.Ingest
