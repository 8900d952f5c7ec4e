import Mathlib.Order.Basic
import Rustrak.Encoding.Base64
import Rustrak.Ingest.Pending

/-!
# Chunks of a payload

`base64_chunk_ranges` cuts a payload into ranges that are encoded one after the other.  The engine
that encodes them is that of the `base64` crate, with the standard alphabet and padding.
-/

namespace Rustrak.Ingest

open Rustrak.Encoding

/-- Ranges that follow each other, none of them empty. -/
inductive Consecutive : ℕ → ℕ → List (ℕ × ℕ) → Prop
  | nil {finish : ℕ} : Consecutive finish finish []
  | cons {start stop finish : ℕ} {rest : List (ℕ × ℕ)} (hsome : start < stop)
      (hrest : Consecutive stop finish rest) : Consecutive start finish ((start, stop) :: rest)

theorem Consecutive.le {start finish : ℕ} {ranges : List (ℕ × ℕ)}
    (h : Consecutive start finish ranges) : start ≤ finish := by
  induction h with
  | nil => exact Nat.le_refl _
  | cons hsome _ ih => exact Nat.le_trans (Nat.le_of_lt hsome) ih

theorem nextChunk_end {dataLen : ℕ} : nextChunk dataLen dataLen = none := by
  rw [nextChunk, if_neg (by omega), if_neg (by omega)]

theorem chunkRangesFrom_consecutive {dataLen fuel offset : ℕ} (hle : offset ≤ dataLen)
    (hoffset : 3 ∣ offset ∨ offset = dataLen) (hfuel : dataLen ≤ offset + fuel) :
    Consecutive offset dataLen (chunkRangesFrom dataLen fuel offset) := by
  induction fuel generalizing offset with
  | zero =>
      obtain rfl : offset = dataLen := by omega
      exact .nil
  | succ fuel ih =>
      rw [chunkRangesFrom]
      rcases hoffset with hoffset | rfl
      · cases hnext : nextChunk dataLen offset with
        | none =>
            obtain rfl : offset = dataLen := Nat.le_antisymm hle (nextChunk_eq_none hoffset hnext)
            exact .nil
        | some range =>
            obtain ⟨start, stop⟩ := range
            obtain ⟨rfl, hlt, hle, hstop⟩ := nextChunk_eq_some hoffset hnext
            exact .cons hlt (ih hle hstop (by omega))
      · rw [nextChunk_end]
        exact .nil

/-- A range with another after it ends before the last one does. -/
theorem Consecutive.stop_lt {start finish : ℕ} {ranges : List (ℕ × ℕ)} {range : ℕ × ℕ}
    (h : Consecutive start finish ranges) (hmem : range ∈ ranges.dropLast) :
    range.1 < range.2 ∧ range.2 < finish := by
  induction h with
  | nil => nomatch hmem
  | cons hsome hrest ih =>
      cases hrest with
      | nil => nomatch hmem
      | cons hnext hlast =>
          rcases List.mem_cons.mp hmem with rfl | hmem
          · exact ⟨hsome, Nat.lt_of_lt_of_le hnext hlast.le⟩
          · exact ih hmem

/-- A range begins between groups of bytes, and ends there or with the payload. -/
theorem dvd_of_mem_chunkRangesFrom {dataLen fuel offset : ℕ} {range : ℕ × ℕ}
    (hoffset : 3 ∣ offset ∨ offset = dataLen) (h : range ∈ chunkRangesFrom dataLen fuel offset) :
    3 ∣ range.1 ∧ (3 ∣ range.2 ∨ range.2 = dataLen) := by
  induction fuel generalizing offset with
  | zero => nomatch h
  | succ fuel ih =>
      rw [chunkRangesFrom] at h
      rcases hoffset with hoffset | rfl
      · cases hnext : nextChunk dataLen offset with
        | none =>
            rw [hnext] at h
            nomatch h
        | some first =>
            obtain ⟨start, stop⟩ := first
            obtain ⟨rfl, -, -, hstop⟩ := nextChunk_eq_some hoffset hnext
            rw [hnext] at h
            rcases List.mem_cons.mp h with rfl | hrest
            · exact ⟨hoffset, hstop⟩
            · exact ih hstop hrest
      · rw [nextChunk_end] at h
        nomatch h

section Standard

/-- What the `base64` crate documents of its engine `STANDARD`. -/
def IsStandard (encode : List UInt8 → String) : Prop :=
  ∀ data, encode data = String.ofList (Base64.encode Base64.standardSymbol '=' data)

variable {encode : List UInt8 → String} (hencode : IsStandard encode)

include hencode

theorem IsStandard.append (a b : List UInt8) (h : 3 ∣ a.length) :
    encode (a ++ b) = encode a ++ encode b := by
  rw [hencode, hencode, hencode, Base64.encode_append h, String.ofList_append]

theorem IsStandard.pad_notMem {data : List UInt8} (h : 3 ∣ data.length) :
    '=' ∉ (encode data).toList := by
  rw [hencode, String.toList_ofList]
  exact Base64.pad_notMem_encode Base64.standardSymbol_ne_pad h

/-- The chunks of a payload cover it, and one after the other they are its encoding. -/
theorem base64_chunks (data : List UInt8) :
    Consecutive 0 data.length (base64ChunkRanges data.length) ∧
    ((base64ChunkRanges data.length).map fun (start, stop) =>
      encode (data.extract start stop)).foldr (· ++ ·) "" = encode data ∧
    (∀ range ∈ (base64ChunkRanges data.length).dropLast,
      '=' ∉ (encode (data.extract range.1 range.2)).toList) ∧
    ∃ body count, '=' ∉ body ∧ count ≤ 2 ∧
      (encode data).toList = body ++ List.replicate count '=' := by
  have hcover : Consecutive 0 data.length (base64ChunkRanges data.length) :=
    chunkRangesFrom_consecutive (Nat.zero_le _) (.inl (Nat.dvd_zero 3)) (by omega)
  refine ⟨hcover, ?_, ?_, ?_⟩
  · have hchunks := encode_chunks hencode.append data (.inl (Nat.dvd_zero 3))
      (Nat.le_add_left data.length 0)
    rwa [List.drop_zero] at hchunks
  · intro range hrange
    obtain ⟨hlt, hend⟩ := hcover.stop_lt hrange
    obtain ⟨hstart, hstop⟩ := dvd_of_mem_chunkRangesFrom (.inl (Nat.dvd_zero 3))
      (List.dropLast_subset _ hrange)
    apply hencode.pad_notMem
    rw [List.extract_eq_take_drop, List.length_take, List.length_drop]
    omega
  · obtain ⟨body, count, hbody, hcount, -, heq⟩ :=
      Base64.encode_eq_append_replicate Base64.standardSymbol_ne_pad data
    refine ⟨body, count, hbody, hcount, ?_⟩
    rw [hencode, String.toList_ofList, heq]

end Standard

theorem base64_chunks_four : Consecutive 0 4 (base64ChunkRanges 4) ∧
    ((base64ChunkRanges 4).map fun (start, stop) =>
      String.ofList (Base64.encode Base64.standardSymbol '=' ([77, 97, 110, 33].extract start stop))).foldr
        (· ++ ·) "" = String.ofList (Base64.encode Base64.standardSymbol '=' [77, 97, 110, 33]) :=
  have h := base64_chunks (fun _ => rfl) [77, 97, 110, 33]
  ⟨h.1, h.2.1⟩

end Rustrak.Ingest
