import Rustrak.Core.Error
import Rustrak.Relational.Keyset
import Mathlib.Data.Prod.Lex
import Mathlib.Data.String.Basic
import Mathlib.Algebra.Order.Ring.Int

/-!
# Listing events

`list_paginated` of `services/event.rs` reads the events of an issue a page at a time, by
their time and, where they share one, by their id.  The route hands out a cursor made from
the last row of a page, and the next request gives it back as text.

How a cursor is written as text is left to `serde_json` and `base64`; of them no more is
asked than that what is written is read back (`Serde.Reads`).
-/

namespace Rustrak.Events

open Rustrak.Core Rustrak.Relational

/-- In the byte order of the database; the same as that of the text. -/
abbrev Uuid := String

/-- The columns of `EVENT_LIST_COLUMNS`. -/
structure EventSummary where
  id : Uuid
  eventId : Uuid
  issueId : Option Uuid
  /-- In microseconds. -/
  timestamp : Int
  calculatedType : String
  calculatedValue : String
  level : String
  platform : String
  release : String
  environment : String
  eventType : String
  deriving DecidableEq, Repr

/-- The table `events`. -/
structure EventTable where
  rows : List EventSummary
  primaryKey : (rows.map (·.id)).Nodup

inductive SortOrder
  | asc
  | desc
  deriving DecidableEq, Repr

def SortOrder.asStr : SortOrder → String
  | .asc => "asc"
  | .desc => "desc"

structure EventCursor where
  order : String
  lastTimestamp : Int
  lastId : Uuid
  deriving DecidableEq, Repr

def EventCursor.new (order : String) (lastTimestamp : Int) (lastId : Uuid) : EventCursor :=
  { order, lastTimestamp, lastId }

/-- `(timestamp, id)`. -/
def EventSummary.key (e : EventSummary) : Int ×ₗ Uuid := toLex (e.timestamp, e.id)

def EventCursor.key (c : EventCursor) : Int ×ₗ Uuid := toLex (c.lastTimestamp, c.lastId)

/-! ## The code -/

/-- `issue_id = $1 AND ($3 IS NULL OR environment = $3)`. -/
def matching (issueId : Uuid) (environment : Option String) (rows : List EventSummary) :
    List EventSummary :=
  rows.filter fun e => e.issueId == some issueId && environment.all (e.environment == ·)

/-- The events of a page, and whether there are more. -/
def listPaginated (rows : List EventSummary) (issueId : Uuid) (order : SortOrder)
    (cursor : Option EventCursor) (limit : ℕ) (environment : Option String) :
    List EventSummary × Bool :=
  let fetchLimit := limit + 1
  let selected := matching issueId environment rows
  let events :=
    match order, cursor with
    | .desc, none => (orderBy (OrderDual.toDual ∘ EventSummary.key) selected).take fetchLimit
    | .desc, some c =>
        (orderBy (OrderDual.toDual ∘ EventSummary.key)
          (selected.filter fun e => decide (e.key < c.key))).take fetchLimit
    | .asc, none => (orderBy EventSummary.key selected).take fetchLimit
    | .asc, some c =>
        (orderBy EventSummary.key
          (selected.filter fun e => decide (c.key < e.key))).take fetchLimit
  let hasMore := decide (limit < events.length)
  (events.take limit, hasMore)

/-- What `serde_json` and `base64` do to a cursor. -/
structure Serde where
  toJson : EventCursor → Except String String
  fromJson : String → Option EventCursor
  /-- `URL_SAFE_NO_PAD`. -/
  base64Encode : ByteArray → String
  base64Decode : String → Option ByteArray

namespace Serde

variable (serde : Serde)

def encode (c : EventCursor) : AppResult String :=
  match serde.toJson c with
  | .ok json => .ok (serde.base64Encode json.toByteArray)
  | .error e => .error (.internal ("Cursor serialization failed: " ++ e))

def decode (s : String) : AppResult EventCursor := do
  let bytes ← okOr (serde.base64Decode s) (.validation "Invalid cursor encoding")
  let json ← okOr (String.fromUTF8? bytes) (.validation "Invalid cursor encoding")
  okOr (serde.fromJson json) (.validation "Invalid cursor format")

/-- The cursor is written as a text that is read back. -/
def Reads (c : EventCursor) : Prop :=
  ∃ json, serde.toJson c = .ok json ∧
    serde.base64Decode (serde.base64Encode json.toByteArray) = some json.toByteArray ∧
    serde.fromJson json = some c

end Serde

structure ListEventsQuery where
  order : SortOrder
  cursor : Option String
  environment : Option String
  deriving DecidableEq, Repr

structure PaginatedResponse where
  items : List EventSummary
  nextCursor : Option String
  hasMore : Bool
  deriving DecidableEq, Repr

/-- The route, for an issue of the project; its limit is `PAGE_SIZE`. -/
def listEvents (serde : Serde) (rows : List EventSummary) (issueId : Uuid)
    (query : ListEventsQuery) (limit : ℕ) : AppResult PaginatedResponse := do
  let cursor ← query.cursor.mapM serde.decode
  let (events, hasMore) := listPaginated rows issueId query.order cursor limit query.environment
  let nextCursor ←
    if hasMore then
      events.getLast?.mapM fun last =>
        serde.encode (EventCursor.new query.order.asStr last.timestamp last.id)
    else pure none
  pure { items := events, nextCursor, hasMore }

/-- A reader who goes on from page to page; `none` when the fuel runs out before the last. -/
def follow (serde : Serde) (rows : List EventSummary) (issueId : Uuid) (order : SortOrder)
    (environment : Option String) (limit : ℕ) :
    ℕ → Option String → AppResult (Option (List PaginatedResponse))
  | 0, _ => pure none
  | fuel + 1, cursor => do
      let page ← listEvents serde rows issueId { order, cursor, environment } limit
      if page.hasMore then
        let pages ← follow serde rows issueId order environment limit fuel page.nextCursor
        pure (pages.map (page :: ·))
      else pure (some [page])

/-! ## Reading on -/

theorem Serde.Reads.encode {serde : Serde} {c : EventCursor} (h : serde.Reads c) :
    ∃ s, serde.encode c = .ok s ∧ serde.decode s = .ok c := by
  obtain ⟨json, hjson, hbase, hread⟩ := h
  refine ⟨serde.base64Encode json.toByteArray, by simp [Serde.encode, hjson], ?_⟩
  have hutf : String.fromUTF8? json.toByteArray = some json := by
    rw [String.fromUTF8?, dif_pos json.isValidUTF8]
    rfl
  simp only [Serde.decode, hbase, okOr, ok_bind, hutf, hread]

variable {rows : List EventSummary} {issueId : Uuid} {environment : Option String} {limit : ℕ}

/-- What is left to read after a cursor, in the order asked for. -/
def left (rows : List EventSummary) (issueId : Uuid) (environment : Option String)
    (order : SortOrder) (cursor : Option EventCursor) : List EventSummary :=
  match order with
  | .asc =>
      orderBy EventSummary.key
        (beyond EventSummary.key (cursor.map EventCursor.key) (matching issueId environment rows))
  | .desc =>
      orderBy (OrderDual.toDual ∘ EventSummary.key)
        (beyond (OrderDual.toDual ∘ EventSummary.key)
          (cursor.map (OrderDual.toDual ∘ EventCursor.key)) (matching issueId environment rows))

theorem listPaginated_eq (order : SortOrder) (cursor : Option EventCursor) :
    listPaginated rows issueId order cursor limit environment =
      pageOf limit (left rows issueId environment order cursor) := by
  cases order <;> cases cursor <;> rfl

theorem nodup_keys (hnodup : (rows.map (·.id)).Nodup) :
    ((matching issueId environment rows).map EventSummary.key).Nodup := by
  have hids : ((matching issueId environment rows).map (·.id)).Nodup :=
    hnodup.sublist (List.filter_sublist.map _)
  refine List.Nodup.of_map (fun k : Int ×ₗ Uuid => (ofLex k).2) ?_
  simpa [List.map_map, Function.comp_def, EventSummary.key] using hids

theorem mem_of_mem_left {order : SortOrder} {e : EventSummary}
    (h : e ∈ left rows issueId environment order none) : e ∈ rows := by
  have hmatching : e ∈ matching issueId environment rows := by
    cases order with
    | asc => exact (orderBy_perm _).mem_iff.mp h
    | desc => exact (orderBy_perm _).mem_iff.mp h
  exact List.mem_of_mem_filter hmatching

/-- The cursor of the last row read leaves the rows after it. -/
theorem left_cursor (hnodup : (rows.map (·.id)).Nodup) (order : SortOrder)
    {done rest : List EventSummary} {last : EventSummary} (text : String)
    (hread : left rows issueId environment order none = done ++ last :: rest) :
    left rows issueId environment order (some (.new text last.timestamp last.id)) = rest := by
  have hkeys : ((matching issueId environment rows).map EventSummary.key).Nodup :=
    nodup_keys hnodup
  cases order with
  | asc => exact orderBy_beyond hkeys hread
  | desc =>
      have hkeys := hkeys.map OrderDual.toDual.injective
      rw [List.map_map] at hkeys
      exact orderBy_beyond hkeys hread

/-- A request for a page, from what is left at its cursor. -/
theorem listEvents_last (serde : Serde) {order : SortOrder} {text : Option String}
    {cursor : Option EventCursor} (htext : text.mapM serde.decode = .ok cursor)
    (hle : (left rows issueId environment order cursor).length ≤ limit) :
    listEvents serde rows issueId ⟨order, text, environment⟩ limit =
      .ok ⟨left rows issueId environment order cursor, none, false⟩ := by
  simp only [listEvents, htext, ok_bind, listPaginated_eq, pageOf_of_le hle]
  rfl

theorem listEvents_more {serde : Serde} {order : SortOrder} {text : Option String}
    {cursor : Option EventCursor} {read rest : List EventSummary} {last : EventSummary} {s : String}
    (htext : text.mapM serde.decode = .ok cursor)
    (hleft : left rows issueId environment order cursor = read ++ last :: rest)
    (hlength : limit = read.length + 1) (hrest : rest ≠ [])
    (hs : serde.encode (.new order.asStr last.timestamp last.id) = .ok s) :
    listEvents serde rows issueId ⟨order, text, environment⟩ limit =
      .ok ⟨read ++ [last], some s, true⟩ := by
  have hlt : limit < (left rows issueId environment order cursor).length := by
    have := List.length_pos_iff.mpr hrest
    rw [hleft, List.length_append, List.length_cons]
    omega
  have htake : (left rows issueId environment order cursor).take limit = read ++ [last] := by
    rw [hleft, hlength, List.append_cons, List.take_left' (by simp)]
  simp only [listEvents, htext, ok_bind, listPaginated_eq, pageOf_of_lt hlt, htake]
  simp [hs]

/-- From what is left at a cursor, the pages that are still to come. -/
theorem follow_of_left {serde : Serde} (hnodup : (rows.map (·.id)).Nodup) {order : SortOrder}
    (hlimit : 1 ≤ limit)
    (hreads : ∀ e ∈ rows, serde.Reads (.new order.asStr e.timestamp e.id))
    {done rest : List EventSummary} {text : Option String} {cursor : Option EventCursor}
    (htext : text.mapM serde.decode = .ok cursor)
    (hread : left rows issueId environment order none = done ++ rest)
    (hleft : left rows issueId environment order cursor = rest) :
    ∃ pages : List PaginatedResponse,
      Pages limit rest (pages.map fun page => (page.items, page.hasMore)) ∧
      ∀ fuel, rest.length < fuel →
        follow serde rows issueId order environment limit fuel text = .ok (some pages) := by
  induction hn : rest.length using Nat.strongRecOn generalizing done rest text cursor with
  | ind n ih =>
      subst hn
      by_cases hle : rest.length ≤ limit
      · refine ⟨[⟨rest, none, false⟩], .last hle, fun fuel hfuel => ?_⟩
        obtain ⟨fuel, rfl⟩ := Nat.exists_eq_succ_of_ne_zero (Nat.ne_zero_of_lt hfuel)
        rw [← hleft] at hle ⊢
        rw [follow, listEvents_last serde htext hle]
        rfl
      -- The last row of a full page makes the next cursor.
      · obtain ⟨read, last, after, hrest, hlength⟩ :
            ∃ read last after, rest = read ++ last :: after ∧ limit = read.length + 1 := by
          obtain ⟨n, rfl⟩ := Nat.exists_eq_succ_of_ne_zero (Nat.ne_zero_of_lt hlimit)
          have hn : n < rest.length := by omega
          refine ⟨rest.take n, rest[n], rest.drop (n + 1), ?_, ?_⟩
          · rw [← List.drop_eq_getElem_cons, List.take_append_drop]
          · rw [List.length_take]
            omega
        have hafter : after ≠ [] := by
          rintro rfl
          rw [hrest, List.length_append, List.length_singleton, hlength] at hle
          exact hle le_rfl
        rw [hrest] at hread hleft
        have hmem : last ∈ left rows issueId environment order none := by
          rw [hread]
          simp
        obtain ⟨s, hs, hdecode⟩ := (hreads last (mem_of_mem_left hmem)).encode
        rw [← List.append_assoc] at hread
        have htext' : (some s).mapM serde.decode =
            .ok (some (EventCursor.new order.asStr last.timestamp last.id)) := by
          simp [hdecode]
        have hshorter : after.length < rest.length := by
          rw [hrest, List.length_append, List.length_cons]
          omega
        obtain ⟨pages, hpages, hfollow⟩ := ih after.length hshorter htext'
          ((List.append_cons ..).symm.trans hread.symm).symm
          (left_cursor hnodup order order.asStr hread) rfl
        refine ⟨⟨read ++ [last], some s, true⟩ :: pages, ?_, fun fuel hfuel => ?_⟩
        · rw [hrest, List.append_cons, List.map_cons]
          exact .more (by simp [hlength]) hafter hpages
        · obtain ⟨fuel, rfl⟩ := Nat.exists_eq_succ_of_ne_zero (Nat.ne_zero_of_lt hfuel)
          rw [follow, listEvents_more htext hleft hlength hafter hs, ok_bind, if_pos rfl,
            hfollow fuel (by simp [hrest] at hfuel; omega)]
          rfl

/-- One event comes before another in the order asked for. -/
def SortOrder.Before (order : SortOrder) (a b : EventSummary) : Prop :=
  match order with
  | .asc => a.key < b.key
  | .desc => b.key < a.key

theorem pairwise_left (hnodup : (rows.map (·.id)).Nodup) (order : SortOrder) :
    (left rows issueId environment order none).Pairwise order.Before := by
  have hkeys : ((matching issueId environment rows).map EventSummary.key).Nodup :=
    nodup_keys hnodup
  cases order with
  | asc => exact pairwise_orderBy hkeys
  | desc =>
      have hkeys := hkeys.map OrderDual.toDual.injective
      rw [List.map_map] at hkeys
      exact pairwise_orderBy hkeys

theorem left_perm (order : SortOrder) :
    (left rows issueId environment order none).Perm (matching issueId environment rows) := by
  cases order with
  | asc => exact orderBy_perm _
  | desc => exact orderBy_perm _

/-- Going on from page to page ends.  It shows the matching events, each once and in the
order asked for, and says that there are more on every page but the last: those pages are
full, and unless there is no event at all, none is empty. -/
theorem follow_pages (serde : Serde) (table : EventTable) (issueId : Uuid) (order : SortOrder)
    (environment : Option String) {limit : ℕ} (hlimit : 1 ≤ limit)
    (hreads : ∀ e ∈ table.rows, serde.Reads (.new order.asStr e.timestamp e.id)) :
    ∃ pages : List PaginatedResponse,
      (∀ fuel, table.rows.length < fuel →
        follow serde table.rows issueId order environment limit fuel none = .ok (some pages)) ∧
      (pages.flatMap (·.items)).Perm (matching issueId environment table.rows) ∧
      (pages.flatMap (·.items)).Pairwise order.Before ∧
      (∀ i page, pages[i]? = some page → (page.hasMore = true ↔ i + 1 < pages.length)) ∧
      (∀ page ∈ pages, page.hasMore = true → page.items.length = limit) ∧
      (matching issueId environment table.rows ≠ [] → ∀ page ∈ pages, page.items ≠ []) := by
  have hfirst : (none : Option String).mapM serde.decode = .ok none := rfl
  have hread : left table.rows issueId environment order none =
      [] ++ left table.rows issueId environment order none := rfl
  obtain ⟨pages, hpages, hfollow⟩ :=
    follow_of_left table.primaryKey hlimit hreads hfirst hread rfl
  have hitems : pages.flatMap (·.items) = left table.rows issueId environment order none := by
    rw [← hpages.flatMap, List.flatMap_map]
  have hmem : ∀ page ∈ pages, (page.items, page.hasMore) ∈
      pages.map fun page => (page.items, page.hasMore) := fun page hpage =>
    List.mem_map_of_mem hpage
  refine ⟨pages, fun fuel hfuel => hfollow fuel (lt_of_le_of_lt ?_ hfuel), ?_, ?_, ?_, ?_, ?_⟩
  · rw [(left_perm order).length_eq]
    exact List.length_filter_le _ _
  · rw [hitems]
    exact left_perm order
  · rw [hitems]
    exact pairwise_left table.primaryKey order
  · intro i page hpage
    have hpage : (pages.map fun page => (page.items, page.hasMore))[i]? =
        some (page.items, page.hasMore) := by
      rw [List.getElem?_map, hpage, Option.map_some]
    simpa using hpages.more_iff hpage
  · exact fun page hpage hmore => hpages.length_of_more (hmem page hpage) hmore
  · intro hne page hpage
    refine hpages.ne_nil_of_mem hlimit ?_ (hmem page hpage)
    exact fun hnil => hne (List.Perm.nil_eq (hnil ▸ left_perm order)).symm

/-! ### Two events of the same time, a page each -/

def sampleEvent (id : Uuid) : EventSummary where
  id := id
  eventId := "9fec79a27d4f4a3d8b0e6e6d2f8a1c01"
  issueId := some "51a0c2ee-0d8e-4b8b-a1ff-0b6a2f3c1d00"
  timestamp := 1714564800000000
  calculatedType := "TypeError"
  calculatedValue := "x is undefined"
  level := "error"
  platform := "javascript"
  release := "1.0.0"
  environment := "production"
  eventType := "error"

def sampleTable : EventTable where
  rows := [sampleEvent "0b0b6f0e-55a4-4f0c-9d0b-3d6c6f1f0a01",
    sampleEvent "0b0b6f0e-55a4-4f0c-9d0b-3d6c6f1f0a02"]
  primaryKey := by decide

def sampleCursor (e : EventSummary) : EventCursor :=
  .new "desc" e.timestamp e.id

def sampleJson (c : EventCursor) : String :=
  "\x7b\"order\":\"desc\",\"last_timestamp\":\"2024-05-01T12:00:00Z\",\"last_id\":\"" ++
    c.lastId ++ "\"\x7d"

/-- The texts of the sample's cursors. -/
def sampleTexts : List (EventCursor × String) :=
  (sampleTable.rows.map sampleCursor).zip
    ["eyJvcmRlciI6ImRlc2MiLCJsYXN0X3RpbWVzdGFtcCI6IjIwMjQtMDUtMDFUMTI6MDA6MDBaIiwibGFzdF9pZCI6IjBiMGI2ZjBlLTU1YTQtNGYwYy05ZDBiLTNkNmM2ZjFmMGEwMSJ9",
     "eyJvcmRlciI6ImRlc2MiLCJsYXN0X3RpbWVzdGFtcCI6IjIwMjQtMDUtMDFUMTI6MDA6MDBaIiwibGFzdF9pZCI6IjBiMGI2ZjBlLTU1YTQtNGYwYy05ZDBiLTNkNmM2ZjFmMGEwMiJ9"]

def sampleSerde : Serde where
  toJson c := .ok (sampleJson c)
  fromJson s := (sampleTexts.find? fun t => sampleJson t.1 == s).map Prod.fst
  base64Encode b :=
    ((sampleTexts.find? fun t => (sampleJson t.1).toByteArray.data == b.data).map Prod.snd).getD ""
  base64Decode s := (sampleTexts.find? fun t => t.2 == s).map fun t => (sampleJson t.1).toByteArray

theorem sampleSerde_reads {e : EventSummary} (he : e ∈ sampleTable.rows) :
    sampleSerde.Reads (.new SortOrder.desc.asStr e.timestamp e.id) := by
  refine ⟨sampleJson (sampleCursor e), rfl, ?_, ?_⟩
  · revert e
    decide +kernel
  · revert e
    decide +kernel

theorem sample_pages :
    ∃ pages : List PaginatedResponse,
      (∀ fuel, 2 < fuel →
        follow sampleSerde sampleTable.rows "51a0c2ee-0d8e-4b8b-a1ff-0b6a2f3c1d00" .desc
          (some "production") 1 fuel none = .ok (some pages)) ∧
      (pages.flatMap (·.items)).Perm sampleTable.rows ∧
      (pages.flatMap (·.items)).Pairwise SortOrder.desc.Before := by
  obtain ⟨pages, hfollow, hperm, hsorted, -⟩ :=
    follow_pages sampleSerde sampleTable "51a0c2ee-0d8e-4b8b-a1ff-0b6a2f3c1d00" .desc
      (some "production") le_rfl fun _ he => sampleSerde_reads he
  exact ⟨pages, hfollow, hperm, hsorted⟩

end Rustrak.Events
