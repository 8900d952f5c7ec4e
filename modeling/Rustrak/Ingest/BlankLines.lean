import Mathlib.Logic.Relation
import Rustrak.Ingest.Parser

/-!
# Blank lines in an envelope

The loop of `parse` skips an empty line where an item would start.  Here newlines are put in
and taken out where the loop stands, and the results compared.

## Strategy

What a parser reads depends on the bytes it has still to read and on nothing else, so each
read is restated on lists (`itemOf`), and `Reads` is the loop without its limit.  An item leaves
off in one of three ways (`Leaves`): after a newline it consumed, before something that is no
newline, or at the end of the input.  In each of them a newline after it changes nothing that
is read (`Reads.insert`, `Reads.remove`).  Only the limit on the number of items sees it, because
it is tested before the line is read.
-/

namespace Rustrak.Ingest

open Rustrak.Core EnvelopeParser

variable {Update Aggregates : Type} {format : EnvelopeFormat Update Aggregates}

/-! ## Reading from a list -/

/-- The line at the head, and what follows its newline. -/
def lineOf (maxSize : Nat) (bytes : List UInt8) : AppResult (List UInt8 × List UInt8) := do
  let read ← scanLine maxSize bytes 0
  return (bytes.take read, (bytes.drop read).tail)

def bytesOf (length : Nat) (bytes : List UInt8) : AppResult (List UInt8 × List UInt8) :=
  if bytes.length < length then
    .error (.validation "Unexpected EOF while reading item payload")
  else .ok (bytes.take length, bytes.drop length)

def afterNewline : List UInt8 → List UInt8
  | [] => []
  | b :: bytes => if b = newline then bytes else b :: bytes

def payloadOf (headers : ItemHeaders) (bytes : List UInt8) :
    AppResult (List UInt8 × List UInt8) :=
  let maxSize := maxPayloadSize headers.itemType
  match headers.length with
  | some length => do
      ensure (length ≤ maxSize) (.payloadTooLarge s!"Item payload exceeds {maxSize} bytes")
      let (payload, rest) ← bytesOf length bytes
      return (payload, afterNewline rest)
  | none => lineOf maxSize bytes

variable (format) in
/-- What an item is, from its first line on. -/
def itemAfter (line rest : List UInt8) :
    AppResult (Option (EnvelopeItemKind Update Aggregates) × List UInt8) :=
  if line.isEmpty then .ok (none, rest)
  else
    match format.itemHeaders line with
    | .error e => .error (.validation s!"Invalid item headers JSON: {e}")
    | .ok headers => payloadOf headers rest >>= fun r =>
        .ok (some (.from format headers (cleanPayload headers r.1)), r.2)

variable (format) in
def itemOf (bytes : List UInt8) :
    AppResult (Option (EnvelopeItemKind Update Aggregates) × List UInt8) :=
  lineOf maxHeaderSize bytes >>= fun r => itemAfter format r.1 r.2

variable (format) in
def headersAfter (line rest : List UInt8) : AppResult (EnvelopeHeaders × List UInt8) :=
  if line.isEmpty then .error (.validation "Empty envelope headers")
  else
    match format.envelopeHeaders line with
    | .ok headers => .ok (headers, rest)
    | .error e => .error (.validation s!"Invalid envelope headers JSON: {e}")

variable (format) in
def headersOf (bytes : List UInt8) : AppResult (EnvelopeHeaders × List UInt8) :=
  lineOf maxHeaderSize bytes >>= fun r => headersAfter format r.1 r.2

/-- A read of the parser and one of a list come to the same, and leave the same behind. -/
def Agrees {α : Type} (read : AppResult (α × EnvelopeParser))
    (listed : AppResult (α × List UInt8)) : Prop :=
  match listed with
  | .ok (a, rest) => ∃ q, read = .ok (a, q) ∧ q.At rest
  | .error e => read = .error e

variable {α β : Type}

theorem Agrees.bind {read : AppResult (α × EnvelopeParser)}
    {listed : AppResult (α × List UInt8)} (h : Agrees read listed)
    {f : α × EnvelopeParser → AppResult (β × EnvelopeParser)}
    {g : α × List UInt8 → AppResult (β × List UInt8)}
    (hfg : ∀ a q rest, q.At rest → Agrees (f (a, q)) (g (a, rest))) :
    Agrees (read >>= f) (listed >>= g) := by
  cases listed with
  | error e =>
      obtain rfl : read = .error e := h
      rfl
  | ok r =>
      obtain ⟨q, rfl, hq⟩ := h
      exact hfg r.1 q r.2 hq

variable {p : EnvelopeParser} {bytes line rest : List UInt8}

theorem scanLine_spec {maxSize read stop : Nat} (hread : read ≤ maxSize)
    (h : scanLine maxSize bytes read = .ok stop) :
    ∃ line tail, bytes = line ++ tail ∧ newline ∉ line ∧ Terminated tail ∧
      stop = read + line.length ∧ stop ≤ maxSize := by
  induction bytes generalizing read with
  | nil =>
      obtain rfl := Except.ok.inj h
      exact ⟨[], [], rfl, List.not_mem_nil, by simp [Terminated], rfl, hread⟩
  | cons b bytes ih =>
      rw [scanLine] at h
      split_ifs at h with hnewline hsize
      · obtain rfl := Except.ok.inj h
        exact ⟨[], b :: bytes, rfl, List.not_mem_nil, by simpa [Terminated] using hnewline, rfl,
          hread⟩
      · obtain ⟨line, tail, rfl, hline, htail, rfl, hstop⟩ := ih (by omega) h
        refine ⟨b :: line, tail, rfl, ?_, htail, ?_, hstop⟩
        · rw [List.mem_cons, not_or]
          exact ⟨Ne.symm hnewline, hline⟩
        · rw [List.length_cons]
          omega

/-- A line is what stands before a newline or the end, and no longer than it may be. -/
theorem lineOf_eq_ok_iff {maxSize : Nat} : lineOf maxSize bytes = .ok (line, rest) ↔
    ∃ tail, bytes = line ++ tail ∧ newline ∉ line ∧ Terminated tail ∧ line.length ≤ maxSize ∧
      rest = tail.tail := by
  constructor
  · intro h
    obtain ⟨stop, hscan, h⟩ := bind_eq_ok h
    obtain ⟨rfl, rfl⟩ := Prod.mk.inj (Except.ok.inj h)
    obtain ⟨line, tail, rfl, hline, htail, rfl, hsize⟩ := scanLine_spec (Nat.zero_le _) hscan
    rw [Nat.zero_add] at hsize ⊢
    rw [List.take_left, List.drop_left]
    exact ⟨tail, rfl, hline, htail, hsize, rfl⟩
  · rintro ⟨tail, rfl, hline, htail, hsize, rfl⟩
    have hscan : scanLine maxSize (line ++ tail) 0 = .ok line.length := by
      rw [scanLine_append hline htail (by omega), Nat.zero_add]
    rw [lineOf, hscan, ok_bind, List.take_left, List.drop_left]
    rfl

theorem agrees_readLine (h : p.At bytes) (maxSize : Nat) :
    Agrees (p.readLine maxSize) (lineOf maxSize bytes) := by
  cases hlisted : lineOf maxSize bytes with
  | error e =>
      unfold EnvelopeParser.readLine
      unfold lineOf at hlisted
      rw [h.rest_eq]
      cases hscan : scanLine maxSize bytes 0 with
      | error e' =>
          rw [hscan] at hlisted
          exact congrArg _ (Except.error.inj hlisted)
      | ok read =>
          rw [hscan] at hlisted
          contradiction
  | ok r =>
      obtain ⟨line, rest⟩ := r
      obtain ⟨tail, rfl, hline, htail, hsize, rfl⟩ := lineOf_eq_ok_iff.mp hlisted
      exact h.readLine hline htail hsize

theorem agrees_readBytes (h : p.At bytes) (length : Nat) :
    Agrees (p.readBytes length) (bytesOf length bytes) := by
  have hlength := h.length_eq
  unfold bytesOf
  split_ifs with hshort
  · show p.readBytes length = _
    unfold EnvelopeParser.readBytes
    rw [if_pos (by omega)]
  · have hat : p.At (bytes.take length ++ bytes.drop length) := by
      rwa [List.take_append_drop]
    have htake : (bytes.take length).length = length := List.length_take_of_le (by omega)
    have hread := hat.readBytes
    rwa [htake] at hread

theorem at_skipNewline (h : p.At bytes) : p.skipNewline.At (afterNewline bytes) := by
  cases bytes with
  | nil => exact h.skipNewline (by simp [Terminated])
  | cons b bytes =>
      rw [afterNewline]
      split_ifs with hnewline
      · exact h.skipNewline (by simpa [Terminated] using hnewline)
      · have hnext : ¬p.data[p.position]? = some newline := by
          obtain ⟨before, hdata, hposition⟩ := h
          rw [hdata, hposition, List.getElem?_append_right (le_refl _), Nat.sub_self]
          simpa using hnewline
        rw [skipNewline, if_neg hnext]
        exact h

theorem agrees_readPayload (h : p.At bytes) (headers : ItemHeaders) :
    Agrees (p.readPayload headers) (payloadOf headers bytes) := by
  unfold EnvelopeParser.readPayload payloadOf
  dsimp only
  cases headers.length with
  | none => exact agrees_readLine h _
  | some length =>
      dsimp only
      cases ensure (decide (length ≤ maxPayloadSize headers.itemType))
          (.payloadTooLarge s!"Item payload exceeds {maxPayloadSize headers.itemType} bytes") with
      | error e => rfl
      | ok _ =>
          exact (agrees_readBytes h length).bind fun payload q rest hq =>
            ⟨_, rfl, at_skipNewline hq⟩

variable (format) in
theorem agrees_parseItem (h : p.At bytes) : Agrees (p.parseItem format) (itemOf format bytes) := by
  refine (agrees_readLine h maxHeaderSize).bind fun line q rest hq => ?_
  dsimp only
  unfold itemAfter
  split_ifs with hempty
  · exact ⟨q, rfl, hq⟩
  · cases format.itemHeaders line with
    | error e => rfl
    | ok headers =>
        exact (agrees_readPayload hq headers).bind fun payload last rest hlast => ⟨_, rfl, hlast⟩

variable (format) in
theorem agrees_parseEnvelopeHeaders (h : p.At bytes) :
    Agrees (p.parseEnvelopeHeaders format) (headersOf format bytes) := by
  refine (agrees_readLine h maxHeaderSize).bind fun line q rest hq => ?_
  dsimp only
  unfold headersAfter
  split_ifs with hempty
  · rfl
  · cases format.envelopeHeaders line with
    | error e => rfl
    | ok headers => exact ⟨q, rfl, hq⟩

/-! ## How a read leaves off -/

/-- After a newline it consumed, before something that is no newline, or at the end of the
input, where one more newline makes no difference. -/
inductive Leaves (listed : List UInt8 → AppResult (α × List UInt8)) (a : α)
    (consumed : List UInt8) : List UInt8 → Prop
  | closed (rest : List UInt8) (hclosed : ∀ t, listed (consumed ++ t) = .ok (a, t)) :
      Leaves listed a consumed rest
  | before (rest : List UInt8) (hrest : rest.head? ≠ some newline)
      (hopen : ∀ t, listed (consumed ++ t) = .ok (a, afterNewline t)) :
      Leaves listed a consumed rest
  | ended (hnewline : listed (consumed ++ [newline]) = .ok (a, [])) :
      Leaves listed a consumed []

/-- A read leaves off somewhere in what it was given. -/
def LeavesOff (listed : List UInt8 → AppResult (α × List UInt8)) (bytes : List UInt8) (a : α)
    (rest : List UInt8) : Prop :=
  ∃ consumed, bytes = consumed ++ rest ∧ Leaves listed a consumed rest

theorem afterNewline_of_ne (h : rest.head? ≠ some newline) : afterNewline rest = rest := by
  cases rest with
  | nil => rfl
  | cons b rest => exact if_neg fun hb => h (congrArg some hb)

theorem lineOf_closed {maxSize : Nat} {bytes line rest : List UInt8}
    (h : lineOf maxSize bytes = .ok (line, rest)) :
    (∃ consumed, bytes = consumed ++ rest ∧ ∀ t, lineOf maxSize (consumed ++ t) = .ok (line, t)) ∨
      rest = [] ∧ lineOf maxSize (bytes ++ [newline]) = .ok (line, []) := by
  obtain ⟨tail, rfl, hline, htail, hsize, rfl⟩ := lineOf_eq_ok_iff.mp h
  cases tail with
  | nil =>
      refine .inr ⟨rfl, lineOf_eq_ok_iff.mpr ⟨[newline], ?_, hline, ?_, hsize, rfl⟩⟩
      · rw [List.append_nil]
      · simp [Terminated]
  | cons b tail =>
      obtain rfl : b = newline := htail b rfl
      refine .inl ⟨line ++ [newline], by simp, fun t => lineOf_eq_ok_iff.mpr ?_⟩
      exact ⟨newline :: t, by simp, hline, by simp [Terminated], hsize, rfl⟩

/-- A line, and what is read after it. -/
theorem leavesOff_line {maxSize : Nat} {bytes line mid rest : List UInt8} {a : α}
    {after : List UInt8 → List UInt8 → AppResult (α × List UInt8)}
    (hline : lineOf maxSize bytes = .ok (line, mid)) (hafter : after line mid = .ok (a, rest))
    (h : LeavesOff (after line) mid a rest) :
    LeavesOff (fun bytes => lineOf maxSize bytes >>= fun r => after r.1 r.2) bytes a rest := by
  obtain ⟨consumed, rfl, hleaves⟩ := h
  rcases lineOf_closed hline with ⟨before, rfl, hbefore⟩ | ⟨hmid, hnewline⟩
  · refine ⟨before ++ consumed, by rw [List.append_assoc], ?_⟩
    have hread : ∀ t, (lineOf maxSize (before ++ consumed ++ t) >>= fun r => after r.1 r.2) =
        after line (consumed ++ t) := by
      intro t
      rw [List.append_assoc, hbefore, ok_bind]
    cases hleaves with
    | closed _ hclosed => exact .closed _ fun t => (hread t).trans (hclosed t)
    | before _ hrest hopen => exact .before _ hrest fun t => (hread t).trans (hopen t)
    | ended hend => exact .ended ((hread _).trans hend)
  · obtain ⟨rfl, rfl⟩ := List.append_eq_nil_iff.mp hmid
    refine ⟨bytes, by rw [List.append_nil], .ended ?_⟩
    rw [hnewline, ok_bind]
    exact hafter

theorem Leaves.map {listed : List UInt8 → AppResult (α × List UInt8)} {a : α}
    {consumed rest : List UInt8} (h : Leaves listed a consumed rest) (g : α → β) :
    Leaves (fun bytes => listed bytes >>= fun r => .ok (g r.1, r.2)) (g a) consumed rest := by
  cases h with
  | closed _ hclosed => exact .closed _ fun t => by rw [hclosed, ok_bind]
  | before _ hrest hopen => exact .before _ hrest fun t => by rw [hopen, ok_bind]
  | ended hend => exact .ended (by rw [hend, ok_bind])

theorem leavesOff_payload {headers : ItemHeaders} {bytes payload rest : List UInt8}
    (h : payloadOf headers bytes = .ok (payload, rest)) :
    LeavesOff (payloadOf headers) bytes payload rest := by
  cases hlength : headers.length with
  | none =>
      have hline : payloadOf headers = lineOf (maxPayloadSize headers.itemType) := by
        funext bytes
        simp [payloadOf, hlength]
      rw [hline] at h ⊢
      rcases lineOf_closed h with ⟨consumed, rfl, hclosed⟩ | ⟨rfl, hnewline⟩
      · exact ⟨consumed, rfl, .closed _ hclosed⟩
      · exact ⟨bytes, by rw [List.append_nil], .ended hnewline⟩
  | some length =>
      have hexplicit : ∀ bytes, payloadOf headers bytes = (do
          ensure (length ≤ maxPayloadSize headers.itemType)
            (.payloadTooLarge s!"Item payload exceeds {maxPayloadSize headers.itemType} bytes")
          let (payload, rest) ← bytesOf length bytes
          return (payload, afterNewline rest)) := by
        intro bytes
        simp [payloadOf, hlength]
      rw [hexplicit] at h
      obtain ⟨_, hensure, h⟩ := bind_eq_ok h
      obtain ⟨⟨payload, after⟩, hbytes, h⟩ := bind_eq_ok h
      obtain ⟨rfl, rfl⟩ := Prod.mk.inj (Except.ok.inj h)
      unfold bytesOf at hbytes
      split_ifs at hbytes with hshort
      obtain ⟨rfl, rfl⟩ := Prod.mk.inj (Except.ok.inj hbytes)
      have htake : (bytes.take length).length = length := List.length_take_of_le (by omega)
      have hread : ∀ t, payloadOf headers (bytes.take length ++ t) =
          .ok (bytes.take length, afterNewline t) := by
        intro t
        rw [hexplicit, hensure, ok_bind, bytesOf,
          if_neg (by rw [List.length_append, htake]; omega), ok_bind]
        simp only [pure, Except.pure]
        rw [List.take_append_of_le_length (by omega), List.take_take, Nat.min_self,
          List.drop_append_of_le_length (by omega), List.drop_take_self]
        rfl
      have hsplit := List.take_append_drop length bytes
      by_cases hnewline : (bytes.drop length).head? = some newline
      · obtain ⟨t, ht⟩ := List.head?_eq_some_iff.mp hnewline
        refine ⟨bytes.take length ++ [newline], ?_, .closed _ fun t => ?_⟩
        · rw [ht, afterNewline, if_pos rfl, List.append_assoc, List.singleton_append, ← ht, hsplit]
        · rw [List.append_assoc, hread, List.singleton_append, afterNewline, if_pos rfl]
      · rw [afterNewline_of_ne hnewline]
        exact ⟨bytes.take length, hsplit.symm, .before _ hnewline hread⟩

theorem leavesOff_item {bytes rest : List UInt8}
    {item : Option (EnvelopeItemKind Update Aggregates)}
    (h : itemOf format bytes = .ok (item, rest)) :
    LeavesOff (itemOf format) bytes item rest := by
  obtain ⟨⟨line, mid⟩, hline, hafter⟩ := bind_eq_ok h
  refine leavesOff_line hline hafter ?_
  dsimp only at hafter
  unfold itemAfter at hafter ⊢
  split_ifs at hafter with hempty
  · obtain ⟨rfl, rfl⟩ := Prod.mk.inj (Except.ok.inj hafter)
    refine ⟨[], rfl, .closed _ fun t => ?_⟩
    rw [if_pos hempty, List.nil_append]
  · cases hheaders : format.itemHeaders line with
    | error e =>
        rw [hheaders] at hafter
        contradiction
    | ok headers =>
        rw [hheaders] at hafter
        obtain ⟨⟨payload, after⟩, hpayload, hafter⟩ := bind_eq_ok hafter
        obtain ⟨rfl, rfl⟩ := Prod.mk.inj (Except.ok.inj hafter)
        obtain ⟨consumed, hmid, hleaves⟩ := leavesOff_payload hpayload
        refine ⟨consumed, hmid, ?_⟩
        simp only [if_neg hempty]
        exact hleaves.map fun payload =>
          some (EnvelopeItemKind.from format headers (cleanPayload headers payload))

theorem leavesOff_headers {bytes rest : List UInt8} {headers : EnvelopeHeaders}
    (h : headersOf format bytes = .ok (headers, rest)) :
    LeavesOff (headersOf format) bytes headers rest := by
  obtain ⟨⟨line, mid⟩, hline, hafter⟩ := bind_eq_ok h
  refine leavesOff_line hline hafter ?_
  dsimp only at hafter
  unfold headersAfter at hafter ⊢
  split_ifs at hafter with hempty
  cases hheaders : format.envelopeHeaders line with
  | error e =>
      rw [hheaders] at hafter
      contradiction
  | ok headers =>
      rw [hheaders] at hafter
      obtain ⟨rfl, rfl⟩ := Prod.mk.inj (Except.ok.inj hafter)
      refine ⟨[], rfl, .closed _ fun t => ?_⟩
      rw [if_neg hempty, List.nil_append]

/-! ## The loop -/

variable (format) in
/-- The loop without its limit: the items read on the way to `rest`. -/
inductive Reads : List UInt8 → List (EnvelopeItemKind Update Aggregates) → List UInt8 → Prop
  | stop (rest : List UInt8) : Reads rest [] rest
  | read {bytes mid rest : List UInt8} {item : Option (EnvelopeItemKind Update Aggregates)}
      {items : List (EnvelopeItemKind Update Aggregates)} (hmore : bytes ≠ [])
      (hitem : itemOf format bytes = .ok (item, mid)) (hrun : Reads mid items rest) :
      Reads bytes (item.toList ++ items) rest

variable {mid : List UInt8} {items : List (EnvelopeItemKind Update Aggregates)}

theorem Reads.suffix (h : Reads format bytes items rest) : rest <:+ bytes := by
  induction h with
  | stop rest => exact List.suffix_refl rest
  | read _ hitem _ ih =>
      obtain ⟨consumed, rfl, -⟩ := leavesOff_item hitem
      exact ih.trans (List.suffix_append _ _)

/-- An item takes something. -/
theorem itemOf_shorter {item : Option (EnvelopeItemKind Update Aggregates)}
    (hmore : bytes ≠ []) (h : itemOf format bytes = .ok (item, rest)) :
    rest.length < bytes.length := by
  obtain ⟨⟨line, mid⟩, hline, hafter⟩ := bind_eq_ok h
  have hmid : mid.length < bytes.length := by
    obtain ⟨tail, rfl, -, -, -, rfl⟩ := lineOf_eq_ok_iff.mp hline
    have hlength := List.length_pos_iff.mpr hmore
    rw [List.length_append] at hlength ⊢
    rw [List.length_tail]
    omega
  refine lt_of_le_of_lt ?_ hmid
  dsimp only at hafter
  unfold itemAfter at hafter
  split_ifs at hafter with hempty
  · obtain ⟨-, rfl⟩ := Prod.mk.inj (Except.ok.inj hafter)
    exact le_refl _
  · split at hafter
    · contradiction
    · obtain ⟨⟨payload, after⟩, hpayload, hafter⟩ := bind_eq_ok hafter
      obtain ⟨-, rfl⟩ := Prod.mk.inj (Except.ok.inj hafter)
      obtain ⟨consumed, rfl, -⟩ := leavesOff_payload hpayload
      rw [List.length_append]
      exact Nat.le_add_left _ _

/-- An empty line is read as no item. -/
theorem itemOf_blank (rest : List UInt8) :
    itemOf format (newline :: rest) = .ok (none, rest) := by
  have hline : lineOf maxHeaderSize (newline :: rest) = .ok ([], rest) :=
    lineOf_eq_ok_iff.mpr ⟨newline :: rest, rfl, List.not_mem_nil, by simp [Terminated],
      Nat.zero_le _, rfl⟩
  rw [itemOf, hline, ok_bind]
  rfl

/-- A blank line where the loop stands is skipped. -/
theorem Reads.skip (h : Reads format bytes items rest) : Reads format (newline :: bytes) items rest :=
  .read (List.cons_ne_nil _ _) (itemOf_blank bytes) h

/-- What a read leaves may begin otherwise if it begins with the same byte. -/
theorem Leaves.continue {listed : List UInt8 → AppResult (α × List UInt8)} {a : α}
    {consumed : List UInt8} (h : Leaves listed a consumed rest) {more : List UInt8}
    (hne : rest ≠ []) (hhead : more.head? = rest.head?) :
    listed (consumed ++ more) = .ok (a, more) := by
  cases h with
  | closed _ hclosed => exact hclosed more
  | before _ hrest hopen =>
      rw [hopen, afterNewline_of_ne]
      rwa [hhead]
  | ended _ => contradiction

/-- A newline right after a read is left, or read with it. -/
theorem Leaves.insert {listed : List UInt8 → AppResult (α × List UInt8)} {a : α}
    {consumed : List UInt8} (h : Leaves listed a consumed rest) :
    listed (consumed ++ newline :: rest) = .ok (a, newline :: rest) ∨
      listed (consumed ++ newline :: rest) = .ok (a, rest) := by
  cases h with
  | closed _ hclosed => exact .inl (hclosed _)
  | before _ _ hopen =>
      refine .inr ?_
      rw [hopen, afterNewline, if_pos rfl]
  | ended hnewline => exact .inr hnewline

/-- A read that leaves a newline does so without it. -/
theorem Leaves.remove {listed : List UInt8 → AppResult (α × List UInt8)} {a : α}
    {consumed : List UInt8} (h : Leaves listed a consumed (newline :: rest)) :
    listed (consumed ++ rest) = .ok (a, rest) := by
  cases h with
  | closed _ hclosed => exact hclosed rest
  | before _ hrest _ => exact absurd rfl hrest

/-- Where the loop stands a newline may be put. -/
theorem Reads.insert {front : List UInt8} (h : Reads format (front ++ rest) items rest) :
    Reads format (front ++ newline :: rest) items rest := by
  generalize hbytes : front ++ rest = bytes at h
  induction h generalizing front with
  | stop rest =>
      obtain rfl : front = [] := by simpa using hbytes
      exact (Reads.stop rest).skip
  | @read bytes mid rest item items hmore hitem hrun ih =>
      obtain ⟨consumed, rfl, hleaves⟩ := leavesOff_item hitem
      obtain ⟨before, rfl⟩ := hrun.suffix
      have hfront : front = consumed ++ before := by
        rw [← List.append_assoc] at hbytes
        exact List.append_cancel_right hbytes
      rw [hfront, List.append_assoc]
      cases before with
      | nil =>
          rw [List.nil_append] at hleaves hrun ih ⊢
          rcases hleaves.insert with hleft | hread
          · exact .read (by simp) hleft (ih (List.nil_append rest))
          · exact .read (by simp) hread hrun
      | cons b before => exact .read (by simp) (hleaves.continue (by simp) rfl) (ih rfl)

/-- A blank line where the loop stands may be taken out. -/
theorem Reads.remove {front : List UInt8}
    (h : Reads format (front ++ newline :: rest) items (newline :: rest)) :
    Reads format (front ++ rest) items rest := by
  generalize hbytes : front ++ newline :: rest = bytes at h
  generalize hstand : newline :: rest = stand at h hbytes
  induction h generalizing front with
  | stop stand =>
      obtain rfl : front = [] := by simpa using hbytes
      exact .stop rest
  | @read bytes mid stand item items hmore hitem hrun ih =>
      have hshorter := itemOf_shorter hmore hitem
      obtain ⟨consumed, rfl, hleaves⟩ := leavesOff_item hitem
      obtain ⟨before, rfl⟩ := hrun.suffix
      have hfront : front = consumed ++ before := by
        rw [← List.append_assoc] at hbytes
        exact List.append_cancel_right hbytes
      have hconsumed : consumed ≠ [] := by
        rintro rfl
        simp at hshorter
      rw [hfront, List.append_assoc]
      refine .read (by simp [hconsumed]) ?_ (ih hstand rfl)
      subst hstand
      cases before with
      | nil =>
          rw [List.nil_append] at hleaves ⊢
          exact hleaves.remove
      | cons b before => exact hleaves.continue (by simp) rfl

/-! ## The limit -/

def tooMany : AppError := .payloadTooLarge s!"Envelope contains more than {maxItemCount} items"

/-- One turn of the loop, on lists. -/
theorem parseItems_step {parsed : List (EnvelopeItemKind Update Aggregates)} {mid : List UInt8}
    {item : Option (EnvelopeItemKind Update Aggregates)} (hp : p.At bytes) (hmore : bytes ≠ [])
    (hroom : parsed.length < maxItemCount) (hitem : itemOf format bytes = .ok (item, mid)) :
    ∃ q : EnvelopeParser, q.At mid ∧
      p.parseItems format parsed = q.parseItems format (parsed ++ item.toList) := by
  have hagrees := agrees_parseItem format hp
  rw [hitem] at hagrees
  obtain ⟨q, hparsed, hq⟩ := hagrees
  refine ⟨q, hq, ?_⟩
  have hend : ¬p.atEof = true := by rwa [hp.atEof_iff]
  rw [parseItems, dif_neg hend, if_neg (by omega)]
  split
  · next heq =>
      rw [hparsed] at heq
      contradiction
  · next heq =>
      rw [hparsed] at heq
      obtain ⟨rfl, rfl⟩ := Prod.mk.inj (Except.ok.inj heq)
      rfl

theorem parseItems_full {parsed : List (EnvelopeItemKind Update Aggregates)} (hp : p.At bytes)
    (hmore : bytes ≠ []) (hfull : maxItemCount ≤ parsed.length) :
    p.parseItems format parsed = .error tooMany := by
  have hend : ¬p.atEof = true := by rwa [hp.atEof_iff]
  rw [parseItems, dif_neg hend, if_pos hfull]
  rfl

variable (format) in
/-- Something follows the last item there is room for. -/
def Overruns (bytes : List UInt8) (room : Nat) : Prop :=
  ∃ items rest, Reads format bytes items rest ∧ rest ≠ [] ∧ room ≤ items.length

theorem parseItems_of_run {parsed : List (EnvelopeItemKind Update Aggregates)} (hp : p.At bytes)
    (hrun : Reads format bytes items [])
    (hlimit : ¬Overruns format bytes (maxItemCount - parsed.length)) :
    p.parseItems format parsed = .ok (parsed ++ items) := by
  generalize hstop : [] = stop at hrun
  induction hrun generalizing p parsed with
  | stop rest =>
      subst hstop
      rw [parseItems, dif_pos (hp.atEof_iff.mpr rfl), List.append_nil]
  | @read bytes mid rest item items hmore hitem hrun ih =>
      have hroom : parsed.length < maxItemCount := by
        by_contra hfull
        exact hlimit ⟨[], bytes, .stop bytes, hmore, by simp; omega⟩
      obtain ⟨q, hq, hstep⟩ := parseItems_step hp hmore hroom hitem
      rw [hstep, ih hq ?_ hstop, List.append_assoc]
      rintro ⟨items', rest', hrun', hrest', hlength⟩
      refine hlimit ⟨_, rest', .read hmore hitem hrun', hrest', ?_⟩
      rw [List.length_append] at hlength ⊢
      omega

theorem parseItems_overruns {parsed : List (EnvelopeItemKind Update Aggregates)}
    (hp : p.At bytes) (h : Overruns format bytes (maxItemCount - parsed.length)) :
    p.parseItems format parsed = .error tooMany := by
  obtain ⟨items, rest, hrun, hrest, hlength⟩ := h
  induction hrun generalizing p parsed with
  | stop rest =>
      rw [List.length_nil] at hlength
      exact parseItems_full hp hrest (by omega)
  | read hmore hitem hrun ih =>
      by_cases hroom : parsed.length < maxItemCount
      · obtain ⟨q, hq, hstep⟩ := parseItems_step hp hmore hroom hitem
        rw [hstep]
        refine ih hq hrest ?_
        rw [List.length_append] at hlength ⊢
        omega
      · exact parseItems_full hp hmore (by omega)

theorem run_of_parseItems {parsed result : List (EnvelopeItemKind Update Aggregates)}
    (hp : p.At bytes) (h : p.parseItems format parsed = .ok result) :
    ∃ items, result = parsed ++ items ∧ Reads format bytes items [] := by
  induction hlength : bytes.length using Nat.strongRecOn generalizing p bytes parsed with
  | ind length ih =>
      subst hlength
      by_cases hmore : bytes = []
      · subst hmore
        rw [parseItems, dif_pos (hp.atEof_iff.mpr rfl)] at h
        exact ⟨[], by rw [List.append_nil, Except.ok.inj h], .stop []⟩
      · by_cases hroom : parsed.length < maxItemCount
        · cases hitem : itemOf format bytes with
          | error e =>
              have hagrees := agrees_parseItem format hp
              rw [hitem] at hagrees
              have hend : ¬p.atEof = true := by rwa [hp.atEof_iff]
              rw [parseItems, dif_neg hend, if_neg (by omega)] at h
              split at h
              · contradiction
              · next heq =>
                  rw [show p.parseItem format = .error e from hagrees] at heq
                  contradiction
          | ok r =>
              obtain ⟨item, mid⟩ := r
              obtain ⟨q, hq, hstep⟩ := parseItems_step hp hmore hroom hitem
              rw [hstep] at h
              obtain ⟨items, rfl, hrun⟩ := ih mid.length (itemOf_shorter hmore hitem) hq h rfl
              exact ⟨item.toList ++ items, by rw [List.append_assoc], .read hmore hitem hrun⟩
        · rw [parseItems_full hp hmore (by omega)] at h
          contradiction

/-! ## Envelopes -/

variable (format) in
/-- The loop of an envelope stands before `rest`, its limit aside. -/
def Stands (data : List UInt8) (headers : EnvelopeHeaders)
    (items : List (EnvelopeItemKind Update Aggregates)) (rest : List UInt8) : Prop :=
  ∃ mid, headersOf format data = .ok (headers, mid) ∧ Reads format mid items rest

variable (format) in
/-- Something follows the last of the items an envelope may have. -/
def Overfull (data : List UInt8) : Prop :=
  ∃ headers items rest, Stands format data headers items rest ∧ rest ≠ [] ∧
    maxItemCount ≤ items.length

variable (format) in
/-- A blank line put in where the loop stands, or taken out there. -/
inductive BlankLine : List UInt8 → List UInt8 → Prop
  | insert {front rest : List UInt8} {headers : EnvelopeHeaders}
      {items : List (EnvelopeItemKind Update Aggregates)}
      (hstands : Stands format (front ++ rest) headers items rest) :
      BlankLine (front ++ rest) (front ++ newline :: rest)
  | remove {front rest : List UInt8} {headers : EnvelopeHeaders}
      {items : List (EnvelopeItemKind Update Aggregates)}
      (hstands : Stands format (front ++ newline :: rest) headers items (newline :: rest)) :
      BlankLine (front ++ newline :: rest) (front ++ rest)

variable {data front : List UInt8} {headers : EnvelopeHeaders}

theorem Stands.insert (h : Stands format (front ++ rest) headers items rest) :
    Stands format (front ++ newline :: rest) headers items rest := by
  obtain ⟨mid, hheaders, hrun⟩ := h
  obtain ⟨consumed, hdata, hleaves⟩ := leavesOff_headers hheaders
  obtain ⟨before, rfl⟩ := hrun.suffix
  have hfront : front = consumed ++ before := by
    rw [← List.append_assoc] at hdata
    exact List.append_cancel_right hdata
  rw [hfront, List.append_assoc]
  cases before with
  | nil =>
      rw [List.nil_append] at hleaves hrun ⊢
      rcases hleaves.insert with hleft | hread
      · exact ⟨_, hleft, hrun.skip⟩
      · exact ⟨_, hread, hrun⟩
  | cons b before => exact ⟨_, hleaves.continue (by simp) rfl, hrun.insert⟩

theorem Stands.remove
    (h : Stands format (front ++ newline :: rest) headers items (newline :: rest)) :
    Stands format (front ++ rest) headers items rest := by
  obtain ⟨mid, hheaders, hrun⟩ := h
  obtain ⟨consumed, hdata, hleaves⟩ := leavesOff_headers hheaders
  obtain ⟨before, rfl⟩ := hrun.suffix
  have hfront : front = consumed ++ before := by
    rw [← List.append_assoc] at hdata
    exact List.append_cancel_right hdata
  rw [hfront, List.append_assoc]
  refine ⟨before ++ rest, ?_, hrun.remove⟩
  cases before with
  | nil =>
      rw [List.nil_append] at hleaves ⊢
      exact hleaves.remove
  | cons b before => exact hleaves.continue (by simp) rfl

theorem Reads.append {others : List (EnvelopeItemKind Update Aggregates)} {last : List UInt8}
    (h : Reads format bytes items rest) (h' : Reads format rest others last) :
    Reads format bytes (items ++ others) last := by
  induction h with
  | stop rest => exact h'
  | read hmore hitem _ ih =>
      rw [List.append_assoc]
      exact .read hmore hitem (ih h')

/-- The loop takes one way. -/
theorem Reads.rest_of {all : List (EnvelopeItemKind Update Aggregates)}
    (h : Reads format bytes items rest) (hall : Reads format bytes all []) :
    ∃ others, all = items ++ others ∧ Reads format rest others [] := by
  induction h generalizing all with
  | stop rest => exact ⟨all, rfl, hall⟩
  | read hmore hitem _ ih =>
      cases hall with
      | stop _ => contradiction
      | read _ hitem' hrun' =>
          obtain ⟨rfl, rfl⟩ := Prod.mk.inj (Except.ok.inj (hitem.symm.trans hitem'))
          obtain ⟨others, rfl, hothers⟩ := ih hrun'
          exact ⟨others, by rw [List.append_assoc], hothers⟩

theorem Reads.unskip (h : Reads format (newline :: bytes) items []) : Reads format bytes items [] := by
  cases h with
  | read _ hitem hrun =>
      rw [itemOf_blank] at hitem
      obtain ⟨rfl, rfl⟩ := Prod.mk.inj (Except.ok.inj hitem)
      exact hrun

theorem Stands.append {others : List (EnvelopeItemKind Update Aggregates)}
    (h : Stands format data headers items rest) (h' : Reads format rest others []) :
    Stands format data headers (items ++ others) [] := by
  obtain ⟨mid, hheaders, hrun⟩ := h
  exact ⟨mid, hheaders, hrun.append h'⟩

/-- What is read to the end goes on from where the loop stands. -/
theorem Stands.rest_of {headers' : EnvelopeHeaders}
    {all : List (EnvelopeItemKind Update Aggregates)}
    (h : Stands format data headers' items rest) (hall : Stands format data headers all []) :
    headers' = headers ∧ ∃ others, all = items ++ others ∧ Reads format rest others [] := by
  obtain ⟨mid, hheaders, hrun⟩ := h
  obtain ⟨mid', hheaders', hrun'⟩ := hall
  obtain ⟨rfl, rfl⟩ := Prod.mk.inj (Except.ok.inj (hheaders.symm.trans hheaders'))
  exact ⟨rfl, hrun.rest_of hrun'⟩

/-- A blank line changes nothing that is read to the end. -/
theorem Stands.blankLine {data' : List UInt8} (h : Stands format data headers items [])
    (hline : BlankLine format data data') : Stands format data' headers items [] := by
  cases hline with
  | insert hstands =>
      obtain ⟨rfl, others, rfl, hothers⟩ := hstands.rest_of h
      exact hstands.insert.append hothers
  | remove hstands =>
      obtain ⟨rfl, others, rfl, hothers⟩ := hstands.rest_of h
      exact hstands.remove.append hothers.unskip

theorem Stands.blankLines {data' : List UInt8} (h : Stands format data headers items [])
    (hlines : Relation.ReflTransGen (BlankLine format) data data') :
    Stands format data' headers items [] := by
  induction hlines with
  | refl => exact h
  | tail _ hline ih => exact ih.blankLine hline

/-! ## Parsing -/

theorem at_new (data : List UInt8) : (EnvelopeParser.new data).At data := ⟨[], rfl, rfl⟩

/-- What is accepted was read to the end. -/
theorem stands_of_parse {envelope : ParsedEnvelope Update Aggregates}
    (h : (EnvelopeParser.new data).parse format = .ok envelope) :
    Stands format data envelope.headers envelope.items [] := by
  obtain ⟨⟨headers, p⟩, hheaders, h⟩ := bind_eq_ok h
  obtain ⟨items, hitems, h⟩ := bind_eq_ok h
  obtain rfl := Except.ok.inj h
  have hagrees := agrees_parseEnvelopeHeaders format (at_new data)
  cases hlisted : headersOf format data with
  | error e =>
      rw [hlisted] at hagrees
      rw [show _ = Except.error e from hagrees] at hheaders
      contradiction
  | ok r =>
      obtain ⟨headers', mid⟩ := r
      rw [hlisted] at hagrees
      obtain ⟨q, hq, hat⟩ := hagrees
      obtain ⟨rfl, rfl⟩ := Prod.mk.inj (Except.ok.inj (hq.symm.trans hheaders))
      obtain ⟨read, rfl, hrun⟩ := run_of_parseItems hat hitems
      exact ⟨mid, hlisted, hrun⟩

/-- The first line of an envelope, on lists. -/
theorem parse_of_headers {mid : List UInt8}
    (h : headersOf format data = .ok (headers, mid)) :
    ∃ p : EnvelopeParser, p.At mid ∧ (EnvelopeParser.new data).parse format =
      (p.parseItems format []).map fun items => { headers, items } := by
  have hagrees := agrees_parseEnvelopeHeaders format (at_new data)
  rw [h] at hagrees
  obtain ⟨p, hp, hat⟩ := hagrees
  refine ⟨p, hat, ?_⟩
  rw [EnvelopeParser.parse, hp, ok_bind]
  dsimp only
  cases p.parseItems format [] <;> rfl

theorem parse_of_stands (h : Stands format data headers items [])
    (hlimit : ¬Overfull format data) :
    (EnvelopeParser.new data).parse format = .ok { headers, items } := by
  obtain ⟨mid, hheaders, hrun⟩ := h
  obtain ⟨p, hp, hparse⟩ := parse_of_headers hheaders
  rw [hparse, parseItems_of_run hp hrun]
  · rfl
  · rintro ⟨items', rest, hrun', hrest, hcount⟩
    exact hlimit ⟨headers, items', rest, ⟨mid, hheaders, hrun'⟩, hrest, hcount⟩

theorem parse_of_overfull (h : Overfull format data) :
    (EnvelopeParser.new data).parse format = .error tooMany := by
  obtain ⟨headers, items, rest, ⟨mid, hheaders, hrun⟩, hrest, hcount⟩ := h
  obtain ⟨p, hp, hparse⟩ := parse_of_headers hheaders
  have hover : Overruns format mid maxItemCount := ⟨items, rest, hrun, hrest, hcount⟩
  rw [hparse, parseItems_overruns hp hover]
  rfl

/-- For every envelope that is accepted and every way of putting in and taking out blank lines
where the loop stands: the result is the same if and only if nothing follows the last of the
items an envelope may have. -/
theorem parse_blankLines_iff {data' : List UInt8}
    {envelope : ParsedEnvelope Update Aggregates}
    (haccepted : (EnvelopeParser.new data).parse format = .ok envelope)
    (hlines : Relation.ReflTransGen (BlankLine format) data data') :
    (EnvelopeParser.new data').parse format = (EnvelopeParser.new data).parse format ↔
      ¬Overfull format data' := by
  have hwhole := (stands_of_parse haccepted).blankLines hlines
  rw [haccepted]
  constructor
  · intro hsame hover
    rw [parse_of_overfull hover] at hsame
    contradiction
  · exact parse_of_stands hwhole

/-! ## A full envelope -/

/-- An item as a piece of text, with the newline after it. -/
def ItemText.text (item : ItemText format) : List UInt8 :=
  item.line ++ newline :: (item.payload ++ [newline])

theorem renderItems_closed (items : List (ItemText format)) :
    renderItems true items = newline :: items.flatMap ItemText.text := by
  induction items with
  | nil => rfl
  | cons item items ih =>
      rw [renderItems, ih, List.flatMap_cons, ItemText.text]
      simp

theorem itemOf_text (item : ItemText format) (rest : List UInt8) :
    itemOf format (item.text ++ rest) = .ok (some item.kind, rest) := by
  have htext : item.text ++ rest =
      item.line ++ newline :: (item.payload ++ newline :: rest) := by
    simp [ItemText.text]
  have hat := at_new (item.line ++ newline :: (item.payload ++ newline :: rest))
  obtain ⟨q, hparsed, hq⟩ := parseItem_render item (by simp [Terminated]) hat
  have hagrees := agrees_parseItem format hat
  rw [htext]
  cases hitem : itemOf format (item.line ++ newline :: (item.payload ++ newline :: rest)) with
  | error e =>
      rw [hitem] at hagrees
      rw [show _ = Except.error e from hagrees] at hparsed
      contradiction
  | ok r =>
      rw [hitem] at hagrees
      obtain ⟨q', hparsed', hq'⟩ := hagrees
      obtain ⟨hkind, rfl⟩ := Prod.mk.inj (Except.ok.inj (hparsed.symm.trans hparsed'))
      have hrest : rest = r.2 := hq.rest_eq.symm.trans hq'.rest_eq
      rw [hkind, hrest]

theorem run_texts (items : List (ItemText format)) (rest : List UInt8) :
    Reads format (items.flatMap ItemText.text ++ rest) (items.map ItemText.kind) rest := by
  induction items with
  | nil => exact .stop rest
  | cons item items ih =>
      rw [List.flatMap_cons, List.append_assoc]
      exact .read (by simp [ItemText.text]) (itemOf_text item _) ih

theorem headersOf_render (header : HeaderText format) (items : List (ItemText format))
    (rest : List UInt8) :
    headersOf format (render header items true ++ rest) =
      .ok (header.headers, items.flatMap ItemText.text ++ rest) := by
  have hline : lineOf maxHeaderSize (render header items true ++ rest) =
      .ok (header.line, items.flatMap ItemText.text ++ rest) := by
    refine lineOf_eq_ok_iff.mpr ⟨newline :: (items.flatMap ItemText.text ++ rest), ?_,
      header.line_newline, by simp [Terminated], header.line_size, rfl⟩
    rw [render, renderItems_closed, List.append_assoc, List.cons_append]
  have hempty : ¬header.line.isEmpty = true := by simpa using header.line_ne
  rw [headersOf, hline, ok_bind, headersAfter, if_neg hempty, header.reads]

/-- After the items that were written the loop stands before what follows them. -/
theorem stands_render (header : HeaderText format) (items : List (ItemText format))
    (rest : List UInt8) :
    Stands format (render header items true ++ rest) header.headers (items.map ItemText.kind)
      rest :=
  ⟨_, headersOf_render header items rest, run_texts items rest⟩

theorem parse_render_closed (header : HeaderText format) {items : List (ItemText format)}
    (hcount : items.length ≤ maxItemCount) :
    (EnvelopeParser.new (render header items true)).parse format =
      .ok ⟨header.headers, items.map ItemText.kind⟩ := by
  have hheaders := headersOf_render header items []
  rw [List.append_nil] at hheaders
  obtain ⟨p, hp, hparse⟩ := parse_of_headers hheaders
  have hat : p.At (renderItems true items).tail := by
    rwa [renderItems_closed, List.tail_cons, ← List.append_nil (items.flatMap ItemText.text)]
  rw [hparse, parseItems_render [] hat (by simpa using hcount)]
  rfl

/-- As many attachments as an envelope may have. -/
def fullEnvelope : List UInt8 := render emptyHeader (List.replicate maxItemCount newlines) true

/-- A blank line after the last of them has the envelope refused. -/
theorem fullEnvelope_refused :
    (∃ envelope, (EnvelopeParser.new fullEnvelope).parse threeLines = .ok envelope ∧
        envelope.items.length = maxItemCount) ∧
      BlankLine threeLines fullEnvelope (fullEnvelope ++ [newline]) ∧
      (EnvelopeParser.new (fullEnvelope ++ [newline])).parse threeLines = .error tooMany := by
  have hcount : (List.replicate maxItemCount newlines).length = maxItemCount :=
    List.length_replicate
  have haccepted := parse_render_closed emptyHeader (le_of_eq hcount)
  refine ⟨⟨_, haccepted, by rw [List.length_map, hcount]⟩, ?_, ?_⟩
  · have hline := BlankLine.insert
      (stands_render emptyHeader (List.replicate maxItemCount newlines) [])
    rwa [List.append_nil] at hline
  · have hstands := stands_render emptyHeader (List.replicate maxItemCount newlines) [newline]
    exact parse_of_overfull ⟨_, _, _, hstands, List.cons_ne_nil _ _,
      by rw [List.length_map, hcount]⟩

/-- A blank line after an attachment, in an envelope that is not full. -/
theorem parse_blankLines_iff_newlines :
    (EnvelopeParser.new (render emptyHeader [newlines] true ++ [newline])).parse threeLines =
        (EnvelopeParser.new (render emptyHeader [newlines] true)).parse threeLines ↔
      ¬Overfull threeLines (render emptyHeader [newlines] true ++ [newline]) := by
  have hstands := stands_render emptyHeader [newlines] []
  have hline := BlankLine.insert hstands
  rw [List.append_nil] at hline
  exact parse_blankLines_iff (parse_render_closed emptyHeader (by decide))
    (Relation.ReflTransGen.single hline)

end Rustrak.Ingest
