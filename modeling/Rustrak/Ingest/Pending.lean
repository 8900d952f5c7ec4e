import Mathlib.Data.List.Basic
import Mathlib.Tactic.Common

/-!
# Pending records

`ingest/storage.rs`: the file an accepted event waits in.  It is one JSON object with a
version, the event's metadata and its payload in base64, written in chunks.  JSON, base64
and UUIDs are other people's code: `PendingFormat` has what is used of them.
-/

namespace Rustrak.Ingest

structure EventMetadata where
  eventId : String
  projectId : Int
  ingestedAt : Int
  remoteAddr : Option String
  deriving DecidableEq

structure PendingEventRecord where
  version : Nat
  metadata : EventMetadata
  eventData : String
  deriving DecidableEq

structure PendingFormat (Bytes Uuid : Type) where
  /-- `Uuid::parse_str`. -/
  parseUuid : String → Option Uuid
  /-- `serde_json::from_slice`. -/
  fromSlice : Bytes → Option PendingEventRecord
  /-- The text `{"version":…,"metadata":…,"event_data":"…"}`. -/
  text : Nat → EventMetadata → String → Bytes
  encode : List UInt8 → String
  decode : String → Option (List UInt8)
  /-- Three bytes are four characters. -/
  encode_append : ∀ a b, 3 ∣ a.length → encode (a ++ b) = encode a ++ encode b
  decode_encode : ∀ data, decode (encode data) = some data
  fromSlice_text : ∀ version metadata data, fromSlice (text version metadata (encode data)) =
    some ⟨version, metadata, encode data⟩

def pendingEventVersion : Nat := 1

def base64WriteChunkSize : Nat := 48 * 1024

/-- The next range of a payload to encode, from an offset. -/
def nextChunk (dataLen offset : Nat) : Option (Nat × Nat) :=
  let fullLen := dataLen - dataLen % 3
  if offset < fullLen then some (offset, min (offset + base64WriteChunkSize) fullLen)
  else if offset = fullLen ∧ fullLen < dataLen then some (fullLen, dataLen)
  else none

def chunkRangesFrom (dataLen : Nat) : Nat → Nat → List (Nat × Nat)
  | 0, _ => []
  | fuel + 1, offset =>
    match nextChunk dataLen offset with
    | none => []
    | some (start, stop) => (start, stop) :: chunkRangesFrom dataLen fuel stop

/-- Every range takes a byte at least, so there are no more of them than bytes. -/
def base64ChunkRanges (dataLen : Nat) : List (Nat × Nat) := chunkRangesFrom dataLen dataLen 0

def sameEventId {Bytes Uuid : Type} [DecidableEq Uuid] (format : PendingFormat Bytes Uuid)
    (left right : String) : Bool :=
  decide (format.parseUuid left = format.parseUuid right)

/-- The payload of a record, if it is the one of this event of this project. -/
def validatePendingRecord {Bytes Uuid : Type} [DecidableEq Uuid]
    (format : PendingFormat Bytes Uuid) (record : PendingEventRecord) (eventId : String)
    (projectId : Option Int) : Option (List UInt8) :=
  if record.version ≠ pendingEventVersion ∨
      !sameEventId format record.metadata.eventId eventId ∨
      projectId.any (record.metadata.projectId != ·) then none
  else format.decode record.eventData

def writePendingRecord {Bytes Uuid : Type} (format : PendingFormat Bytes Uuid)
    (metadata : EventMetadata) (eventData : List UInt8) : Bytes :=
  format.text pendingEventVersion metadata <|
    ((base64ChunkRanges eventData.length).map fun (start, stop) =>
      format.encode (eventData.extract start stop)).foldr (· ++ ·) ""

variable {Bytes Uuid : Type} {format : PendingFormat Bytes Uuid}

/-! ## What is written can be read -/

/-- A range begins at the offset; it ends between bytes that are encoded together only if
it is the last. -/
theorem nextChunk_eq_some {dataLen offset start stop : Nat} (hoffset : 3 ∣ offset)
    (h : nextChunk dataLen offset = some (start, stop)) :
    start = offset ∧ offset < stop ∧ stop ≤ dataLen ∧ (3 ∣ stop ∨ stop = dataLen) := by
  unfold nextChunk base64WriteChunkSize at h
  dsimp only at h
  split_ifs at h with hfull hrest
  · obtain ⟨rfl, rfl⟩ := Prod.mk.inj (Option.some.inj h)
    omega
  · obtain ⟨rfl, rfl⟩ := Prod.mk.inj (Option.some.inj h)
    omega

theorem nextChunk_eq_none {dataLen offset : Nat} (hoffset : 3 ∣ offset)
    (h : nextChunk dataLen offset = none) : dataLen ≤ offset := by
  unfold nextChunk at h
  dsimp only at h
  split_ifs at h
  omega

section Chunks

variable {encode : List UInt8 → String}
  (happend : ∀ a b, 3 ∣ a.length → encode (a ++ b) = encode a ++ encode b)

include happend

theorem encode_nil : encode [] = "" := by
  have htwice := happend [] [] (Nat.dvd_zero 3)
  have hlength := congrArg String.length htwice
  rw [List.append_nil, String.length_append] at hlength
  exact String.length_eq_zero_iff.mp (by omega)

/-- The chunks from an offset are the encoding of what is there from it on. -/
theorem encode_chunks (data : List UInt8) {fuel offset : Nat}
    (hoffset : 3 ∣ offset ∨ offset = data.length) (hfuel : data.length ≤ offset + fuel) :
    ((chunkRangesFrom data.length fuel offset).map fun (start, stop) =>
      encode (data.extract start stop)).foldr (· ++ ·) "" = encode (data.drop offset) := by
  induction fuel generalizing offset with
  | zero =>
      rw [List.drop_eq_nil_of_le (by omega), encode_nil happend]
      rfl
  | succ fuel ih =>
      unfold chunkRangesFrom
      cases hnext : nextChunk data.length offset with
      | none =>
          have hend : data.length ≤ offset := by
            rcases hoffset with hoffset | rfl
            · exact nextChunk_eq_none hoffset hnext
            · exact Nat.le_refl _
          rw [List.drop_eq_nil_of_le hend, encode_nil happend]
          rfl
      | some range =>
          obtain ⟨start, stop⟩ := range
          have hoffset : 3 ∣ offset := by
            rcases hoffset with hoffset | rfl
            · exact hoffset
            · unfold nextChunk at hnext
              dsimp only at hnext
              split_ifs at hnext
              · omega
              · omega
          obtain ⟨rfl, hlt, hle, hstop⟩ := nextChunk_eq_some hoffset hnext
          have hsplit : data.drop start = data.extract start stop ++ data.drop stop := by
            have hrest : data.drop stop = (data.drop start).drop (stop - start) := by
              rw [List.drop_drop]
              congr 1
              omega
            rw [List.extract_eq_take_drop, hrest, List.take_append_drop]
          simp only [List.map_cons, List.foldr_cons]
          rw [ih hstop (by omega), hsplit]
          rcases hstop with hstop | rfl
          · refine (happend _ _ ?_).symm
            rw [List.extract_eq_take_drop, List.length_take, List.length_drop]
            omega
          · rw [List.drop_length, List.append_nil, encode_nil happend, String.append_empty]

end Chunks

theorem writePendingRecord_eq (format : PendingFormat Bytes Uuid) (metadata : EventMetadata)
    (eventData : List UInt8) :
    writePendingRecord format metadata eventData =
      format.text pendingEventVersion metadata (format.encode eventData) := by
  unfold writePendingRecord base64ChunkRanges
  rw [encode_chunks format.encode_append eventData (.inl (Nat.dvd_zero 3)) (by omega), List.drop_zero]

variable [DecidableEq Uuid]

theorem validatePendingRecord_isSome {record : PendingEventRecord} {eventId : String}
    {projectId : Int} :
    (validatePendingRecord format record eventId (some projectId)).isSome ↔
      record.version = pendingEventVersion ∧
        format.parseUuid record.metadata.eventId = format.parseUuid eventId ∧
        record.metadata.projectId = projectId ∧ (format.decode record.eventData).isSome := by
  unfold validatePendingRecord sameEventId
  split_ifs with h
  · simp only [Option.isSome_none, Bool.false_eq_true, false_iff]
    rintro ⟨hversion, huuid, hproject, -⟩
    simp [hversion, huuid, hproject] at h
  · simp only [not_or, ne_eq, not_not, Bool.not_eq_true', Bool.not_eq_false,
      decide_eq_true_eq, Option.any_some, bne_iff_ne] at h
    obtain ⟨hversion, huuid, hproject⟩ := h
    simp [hversion, huuid, hproject]

end Rustrak.Ingest
