import PyLeveldb.Snappy.Fragment
import PyLeveldb.Snappy.Uncompress

/-!
# Compression (`Compress`, `RawCompress`) and the round trip

The input is compressed block by block, behind its length. A block that the source does not show in one
region is put together in a buffer first.

* `compressBlocks_run`: the blocks' code decodes to the bytes of the source.
* `compress_run`: `Compress` needs no more room than `MaxCompressedLength`.
* `uncompress_compress`: what was compressed is decompressed again, whatever the two sources and the
  host, and the refusal of inputs whose length does not fit in the header.
-/

namespace Snappy

open SnappyDecompressor (Scratch)

/-- `MaxCompressedLength`. -/
def maxCompressedLength (sourceLen : Nat) : Nat := (32 + sourceLen + sourceLen / 6) % 2 ^ 64

/-- `UncheckedByteArraySink`: the array, and `dest_` as an offset into it. -/
structure UncheckedByteArraySink where
  array : Bytes
  dest : Nat

/-- `Append` of bytes that are not at `dest_` already. -/
def UncheckedByteArraySink.append (s : UncheckedByteArraySink) (data : Bytes) :
    Option UncheckedByteArraySink := do
  some ⟨← Region.write s.array s.dest data, s.dest + data.length⟩

/-- The loop of `Compress` that reads a block from several regions. -/
def gatherBlock : Nat → Source → Bytes → Nat → Nat → Option (Source × Bytes)
  | 0, _, _, _, _ => none
  | fuel + 1, reader, scratch, bytesRead, numToRead =>
    if bytesRead < numToRead then do
      let fragment := reader.peek
      let n := min fragment.length (numToRead - bytesRead)
      let scratch ← memcpy fragment 0 scratch bytesRead n
      let reader ← reader.skip n
      gatherBlock fuel reader scratch (bytesRead + n) numToRead
    else some (reader, scratch)

/-- The next block: its bytes, the source, the buffer if there is one, and the bytes of the block that
are still to be skipped. A new buffer has no content that is read. -/
def nextBlock (reader : Source) (scratch : Option Bytes) (numToRead : Nat) :
    Option (Bytes × Source × Option Bytes × Nat) := do
  let fragment := reader.peek
  guard (fragment.length ≠ 0)
  if numToRead ≤ fragment.length then some (fragment.take numToRead, reader, scratch, numToRead)
  else
    let buffer := scratch.getD (List.replicate numToRead 0)
    let buffer ← memcpy fragment 0 buffer 0 fragment.length
    let reader ← reader.skip fragment.length
    let (reader, buffer) ← gatherBlock (numToRead + 1) reader buffer fragment.length numToRead
    some (← Region.read buffer 0 numToRead, reader, some buffer, 0)

/-- The loop of `Compress`. `GetAppendBuffer` of the sink is `dest_`, so that `Append` has only to move
it behind the code. -/
def compressBlocks (arch : Arch) :
    Nat → Source → Nat → UncheckedByteArraySink → Nat → Option Bytes → Option (UncheckedByteArraySink × Nat)
  | 0, _, _, _, _, _ => none
  | fuel + 1, reader, n, writer, written, scratch =>
    if 0 < n then do
      let numToRead := min n kBlockSize
      let (fragment, reader, scratch, pendingAdvance) ← nextBlock reader scratch numToRead
      let (array, finish) ← compressFragment arch fragment writer.array writer.dest (getHashTable numToRead)
      let written := written + (finish - writer.dest)
      let reader ← reader.skip pendingAdvance
      compressBlocks arch fuel reader (n - numToRead) ⟨array, finish⟩ written scratch
    else some (writer, written)

/-- `Compress`. The length is stored as a `uint32`. -/
def compress (arch : Arch) (reader : Source) (writer : UncheckedByteArraySink) :
    Option (UncheckedByteArraySink × Nat) := do
  let n := reader.available
  let ulength := Varint.encode32 (n % 2 ^ 32)
  let writer ← writer.append ulength
  compressBlocks arch (n + 1) reader n writer ulength.length none

/-- `RawCompress`: the array and `*compressed_length`. -/
def rawCompress (arch : Arch) (input compressed : Bytes) : Option (Bytes × Nat) := do
  let (writer, _) ← compress arch (.ofByteArray input) ⟨compressed, 0⟩
  some (writer.array, writer.dest)

/-- `Compress` into a string: the result and the string. -/
def compressString (arch : Arch) (input compressed : Bytes) : Option (Nat × Bytes) := do
  let (compressed, compressedLength) ←
    rawCompress arch input (resize compressed (maxCompressedLength input.length))
  some (compressedLength, resize compressed compressedLength)

/-! ## Reading a block -/

theorem gatherBlock_run (fuel : Nat) {reader : Source} (scratch : Bytes) {ip : Bytes} {bytesRead : Nat}
    (numToRead : Nat) (hs : numToRead ≤ scratch.length) (hn : bytesRead ≤ numToRead)
    (hfuel : numToRead - bytesRead < fuel)
    (hip : scratch.take bytesRead ++ reader.bytes = ip) (hlen : numToRead ≤ ip.length) :
    ∃ reader' scratch', gatherBlock fuel reader scratch bytesRead numToRead = some (reader', scratch') ∧
      scratch'.length = scratch.length ∧ scratch'.take numToRead = ip.take numToRead ∧
      reader'.bytes = ip.drop numToRead := by
  induction fuel generalizing reader scratch bytesRead with
  | zero => omega
  | succ fuel ih =>
    have hl := congrArg List.length hip
    rw [List.length_append, List.length_take, Nat.min_eq_left (by omega)] at hl
    rw [gatherBlock]
    split
    · next hlt =>
      have hpeek := reader.length_peek_le
      have hpos : 0 < reader.peek.length := Nat.pos_of_ne_zero fun h0 => by
        have hnil := Source.peek_eq_nil.mp (List.eq_nil_of_length_eq_zero h0)
        rw [hnil, List.length_nil] at hl
        omega
      obtain ⟨n, hmin⟩ : ∃ n, min reader.peek.length (numToRead - bytesRead) = n := ⟨_, rfl⟩
      obtain ⟨scratch₁, hm, hl₁, ht₁, -⟩ := memcpy_run reader.peek 0 scratch bytesRead n (by omega) (by omega)
      obtain ⟨reader₁, hskip, hb₁⟩ := Source.skip_run (s := reader) (n := n) (by omega)
      have hip₁ : scratch₁.take (bytesRead + n) ++ reader₁.bytes = ip := by
        rw [ht₁ n (Nat.le_refl n), hb₁, List.append_assoc, List.drop_zero, ← hip]
        have : reader.peek.take n = reader.bytes.take n := by
          rw [← reader.peek_append_drop, List.take_append_of_le_length (by omega)]
        rw [this, List.take_append_drop]
      obtain ⟨reader', scratch', hr, hlen', hrest⟩ := ih scratch₁ (by omega) (by omega) (by omega) hip₁
      dsimp only
      rw [hmin, hm, some_bind, hskip, some_bind]
      exact ⟨reader', scratch', hr, hlen'.trans hl₁, hrest⟩
    · next hge =>
      obtain rfl : bytesRead = numToRead := by omega
      have ht : (scratch.take bytesRead).length = bytesRead := by rw [List.length_take]; omega
      refine ⟨reader, scratch, rfl, rfl, ?_, ?_⟩
      · rw [← hip, List.take_append_of_le_length (by omega), List.take_take, Nat.min_self]
      · rw [← hip, List.drop_append, ht, Nat.sub_self, List.drop_zero,
          List.drop_of_length_le (l := scratch.take bytesRead) (Nat.le_of_eq ht), List.nil_append]

/-- The next block is the next bytes of the source, however it shows them. -/
theorem nextBlock_run (reader : Source) (scratch : Option Bytes) (k : Nat) (hk : 0 < k)
    (hle : k ≤ reader.bytes.length) (hs : ∀ buffer, scratch = some buffer → k ≤ buffer.length) :
    ∃ reader' scratch' advance, nextBlock reader scratch k =
        some (reader.bytes.take k, reader', scratch', advance) ∧
      advance ≤ reader'.bytes.length ∧ reader'.bytes.drop advance = reader.bytes.drop k ∧
      ∀ buffer, scratch' = some buffer → k ≤ buffer.length := by
  have hpeek := reader.length_peek_le
  have hpos : reader.peek.length ≠ 0 := fun h0 => by
    have hnil := Source.peek_eq_nil.mp (List.eq_nil_of_length_eq_zero h0)
    rw [hnil, List.length_nil] at hle
    omega
  rw [nextBlock]
  dsimp only
  rw [guard_of hpos, some_bind]
  split
  · next hbig =>
    refine ⟨reader, scratch, k, ?_, by omega, rfl, hs⟩
    rw [← reader.peek_append_drop, List.take_append_of_le_length (by omega)]
  · next hsmall =>
    obtain ⟨buffer, hbuf⟩ : ∃ buffer, scratch.getD (List.replicate k 0) = buffer := ⟨_, rfl⟩
    have hbl : k ≤ buffer.length := by
      rw [← hbuf]
      cases scratch with
      | none => exact Nat.le_of_eq List.length_replicate.symm
      | some b => exact hs b rfl
    obtain ⟨buffer₁, hm, hl₁, ht₁, -⟩ := memcpy_run reader.peek 0 buffer 0 reader.peek.length (by omega)
      (by omega)
    obtain ⟨reader₁, hskip, hb₁⟩ := Source.skip_run hpeek
    have hip : buffer₁.take reader.peek.length ++ reader₁.bytes = reader.bytes := by
      have := ht₁ reader.peek.length (Nat.le_refl _)
      rw [Nat.zero_add, List.take_zero, List.nil_append, List.drop_zero, List.take_length] at this
      rw [this, hb₁, reader.peek_append_drop]
    obtain ⟨reader₂, buffer₂, hr, hl₂, ht₂, hb₂⟩ := gatherBlock_run (k + 1) buffer₁ k (by omega)
      (by omega) (by omega) hip hle
    rw [hbuf, hm, some_bind, hskip, some_bind, hr, some_bind]
    dsimp only
    rw [Region.read_eq (by omega), some_bind, List.drop_zero, ht₂]
    refine ⟨reader₂, some buffer₂, 0, rfl, Nat.zero_le _, hb₂, ?_⟩
    rintro _ ⟨⟩
    omega

/-! ## The blocks -/

/-- All blocks together: the code of the bytes `x` left in the source, the same on either host and
however the source shows them. Only the last block can be so short that it costs more than a sixth. -/
theorem compressBlocks_run (fuel written : Nat) (x : Bytes) (writer : UncheckedByteArraySink)
    (hroom : writer.dest + (7 * x.length + 5) / 6 + 17 ≤ writer.array.length) (hfuel : x.length < fuel) :
    ∃ writer' code,
      (∀ arch reader scratch, reader.bytes = x →
        (∀ buffer, scratch = some buffer → min x.length kBlockSize ≤ buffer.length) →
        compressBlocks arch fuel reader x.length writer written scratch =
          some (writer', written + code.length)) ∧
      Emitted writer.array writer.dest writer'.array writer'.dest code ∧
      (∀ pre, Format.decode code pre = some (pre ++ x)) ∧ 6 * code.length ≤ 7 * x.length + 5 := by
  induction fuel generalizing written x writer with
  | zero => omega
  | succ fuel ih =>
    obtain ⟨n, hn⟩ : ∃ n, x.length = n := ⟨_, rfl⟩
    rw [hn] at hroom hfuel ⊢
    rcases Nat.eq_zero_or_pos n with rfl | hpos
    · refine ⟨writer, [], fun arch reader scratch _ _ => rfl,
        ⟨rfl, rfl, by omega, (List.append_nil _).symm⟩, fun pre => ?_, Nat.zero_le _⟩
      rw [List.eq_nil_of_length_eq_zero hn, Format.decode_nil, List.append_nil]
    · obtain ⟨k, hk⟩ : ∃ k, min n kBlockSize = k := ⟨_, rfl⟩
      have hblock : kBlockSize = 65536 := rfl
      have hkl : (x.take k).length = k := by rw [List.length_take]; omega
      obtain ⟨j, htable, h8, h14, hzero⟩ := getHashTable_spec k
      obtain ⟨array, op, code, hr, he, hd, hl, hl6⟩ := compressFragment_run (x.take k) writer.array
        writer.dest (getHashTable k) (by omega) (by rw [hkl]; omega) h8 h14 htable hzero
      rw [hkl] at hl hl6
      have hlen₂ : (x.drop k).length = n - k := by rw [List.length_drop, hn]
      have hop := he.op_eq
      have hel := he.length
      -- a block that is not the last is a whole one
      have hshort : k < n → 6 ≤ k := fun h => by omega
      have hroom₂ : op + (7 * (n - k) + 5) / 6 + 17 ≤ array.length := by
        rcases Nat.lt_or_ge k n with hlt | hge
        · have := hl6 (hshort hlt)
          omega
        · omega
      obtain ⟨writer', code', hr', he', hd', hl'⟩ := ih (written + code.length) (x.drop k) ⟨array, op⟩
        (by rw [hlen₂]; exact hroom₂) (by omega)
      rw [hlen₂] at hr' hl'
      refine ⟨writer', code ++ code', fun arch reader scratch hbytes hs => ?_, he.trans he',
        fun pre => ?_, ?_⟩
      · obtain ⟨reader₁, scratch₁, advance, hnext, hadv, hdrop, hs₁⟩ := nextBlock_run reader scratch k
          (by omega) (by rw [hbytes]; omega) (fun b hb => hk ▸ hs b hb)
        obtain ⟨reader₂, hskip, hb₂⟩ := Source.skip_run hadv
        rw [hbytes] at hnext hdrop
        rw [compressBlocks, if_pos hpos]
        dsimp only
        rw [hk, hnext, some_bind]
        dsimp only
        rw [hr arch, some_bind]
        dsimp only
        rw [hskip, some_bind, hop, Nat.add_sub_cancel_left, List.length_append, ← Nat.add_assoc, ← hop]
        exact hr' arch reader₂ scratch₁ (hb₂.trans hdrop) fun b hb => by have := hs₁ b hb; omega
      · rw [Format.decode_append (hd pre), hd', List.append_assoc, List.take_append_drop]
      · rw [List.length_append]
        rcases Nat.lt_or_ge k n with hlt | hge
        · have := hl6 (hshort hlt)
          omega
        · obtain rfl : k = n := by omega
          have hnil : code' = [] ∨ 0 < code'.length := by
            cases code' with
            | nil => exact .inl rfl
            | cons => exact .inr (Nat.succ_pos _)
          rw [Nat.sub_self] at hl'
          omega

theorem encode32_length_le (v : Nat) : (Varint.encode32 v).length ≤ 5 := by
  unfold Varint.encode32
  split
  · exact Nat.le_add_left 1 4
  split
  · exact Nat.le_add_left 2 3
  split
  · exact Nat.le_add_left 3 2
  split
  · exact Nat.le_add_left 4 1
  · exact Nat.le_refl 5

/-- `Compress` runs to its end in any array with `MaxCompressedLength` bytes behind `dest_`, from a
source of any shape: no access is outside of a buffer. It emits the length modulo 2^32 and code for the
bytes, `n + n / 6 + 6` bytes at most, the same on either host and from any source of the bytes. -/
theorem compress_run (x : Bytes) (writer : UncheckedByteArraySink)
    (hroom : writer.dest + (32 + x.length + x.length / 6) ≤ writer.array.length) :
    ∃ writer' code,
      (∀ arch reader, reader.bytes = x → compress arch reader writer =
        some (writer', (Varint.encode32 (x.length % 2 ^ 32)).length + code.length)) ∧
      Emitted writer.array writer.dest writer'.array writer'.dest
        (Varint.encode32 (x.length % 2 ^ 32) ++ code) ∧
      (∀ pre, Format.decode code pre = some (pre ++ x)) ∧
      (Varint.encode32 (x.length % 2 ^ 32)).length + code.length ≤ x.length + x.length / 6 + 6 := by
  have hhead := encode32_length_le (x.length % 2 ^ 32)
  obtain ⟨array, hw, he⟩ := store_run writer.array writer.dest (Varint.encode32 (x.length % 2 ^ 32))
    (by omega)
  have hl := he.length
  obtain ⟨writer', code, hr, he', hd, hlen⟩ := compressBlocks_run (x.length + 1)
    (Varint.encode32 (x.length % 2 ^ 32)).length x
    ⟨array, writer.dest + (Varint.encode32 (x.length % 2 ^ 32)).length⟩ (by dsimp only; omega) (by omega)
  refine ⟨writer', code, fun arch reader hbytes => ?_, he.trans he', hd, by omega⟩
  rw [compress, Source.available, hbytes, UncheckedByteArraySink.append, hw, some_bind, some_bind]
  exact hr arch reader none hbytes fun b hb => (by cases hb)

/-! ## The round trip -/

/-- The bytes that code behind their length stands for. From 2^32 bytes on the length in front is not
the one that the code makes. -/
theorem uncompressed_of_code {x code : Bytes} (h : ∀ pre, Format.decode code pre = some (pre ++ x)) :
    Format.uncompressed (Varint.encode32 (x.length % 2 ^ 32) ++ code) =
      if x.length < 2 ^ 32 then some x else none := by
  have hmod : x.length % 2 ^ 32 < 2 ^ 32 := Nat.mod_lt _ (by decide)
  have hh := header_of_parse (Varint.parse32WithLimit_encode32 hmod code)
  have hd : Format.decode code [] = some x := h []
  apply Option.ext
  intro out
  rw [Format.uncompressed_of_header hh, hd]
  split
  · next hlt =>
    rw [Nat.mod_eq_of_lt hlt]
    exact ⟨And.left, fun ho => ⟨ho, congrArg List.length (Option.some.inj ho).symm⟩⟩
  · next hge =>
    refine ⟨?_, fun ho => (by cases ho)⟩
    rintro ⟨⟨⟩, hlen⟩
    omega

/-- `RawCompress` of a flat input leaves a buffer that stands for it. -/
theorem rawCompress_run (arch : Arch) (input compressed : Bytes)
    (hroom : 32 + input.length + input.length / 6 ≤ compressed.length) :
    ∃ array k, rawCompress arch input compressed = some (array, k) ∧ array.length = compressed.length ∧
      k ≤ input.length + input.length / 6 + 6 ∧
      getUncompressedLength (array.take k) = some (input.length % 2 ^ 32) ∧
      Format.uncompressed (array.take k) = if input.length < 2 ^ 32 then some input else none := by
  obtain ⟨writer, code, hr, he, hd, hle⟩ := compress_run input ⟨compressed, 0⟩
    (by rw [Nat.zero_add]; exact hroom)
  have hop := he.op_eq
  have htake := he.take
  rw [List.take_zero, List.nil_append] at htake
  rw [List.length_append, Nat.zero_add] at hop
  refine ⟨writer.array, writer.dest, ?_, he.length, by omega, ?_, ?_⟩
  · rw [rawCompress, hr arch _ (Source.bytes_ofByteArray input)]
    rfl
  · rw [htake, getUncompressedLength, Varint.parse32WithLimit_encode32 (Nat.mod_lt _ (by decide))]
    rfl
  · rw [htake]
    exact uncompressed_of_code hd

/-- The same with strings, as callers of the library use it. -/
theorem uncompress_compressString (arch : Arch) (input compressed : Bytes)
    (hmax : 32 + input.length + input.length / 6 < 2 ^ 64) :
    ∃ k s, compressString arch input compressed = some (k, s) ∧ s.length = k ∧
      ∀ (maxSize : Nat) (scratch : Scratch) (out : Bytes), input.length ≤ maxSize →
        ∃ out', uncompress maxSize s scratch out = some (decide (input.length < 2 ^ 32), out') ∧
          (input.length < 2 ^ 32 → out' = input) := by
  obtain ⟨array, k, hr, hlen, hk, hul, hu⟩ := rawCompress_run arch input
    (resize compressed (maxCompressedLength input.length))
    (by rw [length_resize, maxCompressedLength, Nat.mod_eq_of_lt hmax])
  rw [length_resize, maxCompressedLength, Nat.mod_eq_of_lt hmax] at hlen
  have hs : resize array k = array.take k := by
    rw [resize, Nat.sub_eq_zero_of_le (by omega), List.replicate_zero, List.append_nil]
  refine ⟨k, array.take k, ?_, by rw [List.length_take]; omega, fun maxSize scratch out hle => ?_⟩
  · rw [compressString, hr, some_bind]
    dsimp only
    rw [hs]
  · obtain ⟨ok, out', hun, hok, hout⟩ := uncompress_run maxSize (array.take k) scratch out
    have hmod : input.length % 2 ^ 32 ≤ maxSize := (Nat.mod_le _ _).trans hle
    rw [hu] at hok hout
    refine ⟨out', ?_, fun hlt => ?_⟩
    · rw [hun]
      congr 2
      rw [Bool.eq_iff_iff, hok, decide_eq_true_iff]
      split
      · next hlt => exact iff_of_true ⟨rfl, _, hul, hmod⟩ hlt
      · next hge => exact iff_of_false (fun h => (by cases h.1)) hge
    · have := hout (hok.mpr ⟨by rw [if_pos hlt]; rfl, _, hul, hmod⟩)
      rw [if_pos hlt] at this
      exact (Option.some.inj this).symm

end Snappy
