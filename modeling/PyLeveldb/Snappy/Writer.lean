import PyLeveldb.Snappy.Format

/-!
# Writers of decompressed bytes (`snappy.cc`)

`DecompressAllTags` writes through a `Writer`. Two of the three writers: one that fills a flat array,
and one that only counts.

* `Writer.Produces`: what a writer has to do to be one. `append` adds bytes, `appendFromSelf` copies
  back, both up to the expected length and not further.
* `incrementalCopyFastPath_run`: the fast copy makes what a copy byte by byte makes, and ten bytes
  more at most.
* `SnappyArrayWriter.produces`, `SnappyDecompressionValidator.produces`.
-/

namespace Snappy

open Lz77 (copyBack)

/-- The signature of the writers. `ip` is the memory that can be read from a pointer on; `none` is an
access outside of a buffer. -/
class Writer (W : Type) where
  setExpectedLength : W → Nat → W
  checkLength : W → Bool
  append (w : W) (ip : Bytes) (len : Nat) : Option (Bool × W)
  tryFastAppend (w : W) (ip : Bytes) (available len : Nat) : Option (Bool × W)
  appendFromSelf (w : W) (offset len : Nat) : Option (Bool × W)

/-- `kMaximumTagLength`. -/
def kMaximumTagLength : Nat := 5

/-- A writer with room for `limit` bytes: `P w out` says that `w` has taken `out` so far, and `Q` holds
of it whatever happens. -/
structure Writer.Produces {W : Type} [Writer W] (limit : Nat) (P : W → Bytes → Prop) (Q : W → Prop) :
    Prop where
  within : ∀ {w out}, P w out → out.length ≤ limit
  always : ∀ {w out}, P w out → Q w
  checked : ∀ {w out}, P w out → Writer.checkLength w = decide (out.length = limit)
  appends : ∀ {w out}, P w out → ∀ {ip n}, n ≤ ip.length → n ≤ 2 ^ 32 →
    ∃ ok w', Writer.append w ip n = some (ok, w') ∧ (ok = true ↔ out.length + n ≤ limit) ∧
      (ok = true → P w' (out ++ ip.take n)) ∧ Q w'
  tries : ∀ {w out}, P w out → ∀ {ip available n}, available ≤ ip.length →
    ∃ ok w', Writer.tryFastAppend w ip available n = some (ok, w') ∧ (ok = false → w' = w) ∧
      (ok = true → n + kMaximumTagLength ≤ available ∧ n < 61 ∧ P w' (out ++ ip.take n))
  copies : ∀ {w out}, P w out → ∀ {offset len}, offset < 2 ^ 32 → 0 < len → len ≤ 64 →
    ∃ ok w', Writer.appendFromSelf w offset len = some (ok, w') ∧
      (ok = true ↔ 0 < offset ∧ offset ≤ out.length ∧ out.length + len ≤ limit) ∧
      (ok = true → P w' (copyBack out offset len)) ∧ Q w'

/-! ## Copies within the output -/

/-- `IncrementalCopy`: byte by byte, at least one. -/
def incrementalCopy (m : Bytes) (src op : Nat) : Nat → Option Bytes
  | 0 => none
  | len + 1 => do
    let m ← memcpy m src m op 1
    if len = 0 then some m else incrementalCopy m (src + 1) (op + 1) len

/-- The first loop of `IncrementalCopyFastPath`: eight bytes at a time from the same place, until the
regions no longer overlap. -/
def expandPattern : Nat → Bytes → Nat → Nat → Int → Option (Bytes × Nat × Int)
  | 0, _, _, _, _ => none
  | fuel + 1, m, src, op, len =>
    if (op : Int) - src < 8 then do
      let m ← unalignedCopy64 m src m op
      expandPattern fuel m src (op + (op - src)) (len - (op - src))
    else some (m, op, len)

/-- The second loop. -/
def copyEights : Nat → Bytes → Nat → Nat → Int → Option Bytes
  | 0, _, _, _, _ => none
  | fuel + 1, m, src, op, len =>
    if len > 0 then do
      let m ← unalignedCopy64 m src m op
      copyEights fuel m (src + 8) (op + 8) (len - 8)
    else some m

/-- `IncrementalCopyFastPath`. The first loop doubles the distance and so ends within four rounds. -/
def incrementalCopyFastPath (m : Bytes) (src op len : Nat) : Option Bytes := do
  let (m, op, left) ← expandPattern 8 m src op len
  copyEights (len + 1) m src op left

/-- `kMaxIncrementCopyOverflow`. -/
def kMaxIncrementCopyOverflow : Nat := 10

/-- Up to `op`, `m` is `out` copied on at the distance `offset`, and `src` is a place from which the
copy may go on. -/
structure Copied (out : Bytes) (offset : Nat) (m : Bytes) (src op : Nat) : Prop where
  filled : m.take op = copyBack out offset (op - out.length)
  room : op ≤ m.length
  start : out.length ≤ op
  low : out.length ≤ src + offset
  distance : ∃ k, op = src + k * offset

theorem Copied.begin (m : Bytes) (src op : Nat) (h : src < op) (hop : op ≤ m.length) :
    Copied (m.take op) (op - src) m src op := by
  have hlen : (m.take op).length = op := by rw [List.length_take]; omega
  refine ⟨?_, hop, ?_, ?_, 1, ?_⟩
  · rw [hlen, Nat.sub_self]
    rfl
  all_goals omega

variable {out m : Bytes} {offset src op : Nat}

/-- `w` bytes are copied, and the first `n` of them are right if they do not reach `op`. -/
theorem Copied.step (h : Copied out offset m src op) (h0 : 0 < offset) (ho : offset ≤ out.length)
    {w n : Nat} (hnw : n ≤ w) (hn : n ≤ op - src) (hsrc : src ≤ op) (hroom : op + w ≤ m.length) :
    ∃ m', memcpy m src m op w = some m' ∧ m'.length = m.length ∧
      m'.take (op + n) = copyBack out offset (op + n - out.length) ∧
      ∀ k, op + w ≤ k → m'.drop k = m.drop k := by
  obtain ⟨m', hm, hlen, htake, hdrop⟩ := memcpy_run m src m op w (by omega) hroom
  obtain ⟨k, hk⟩ := h.distance
  have hst := h.start
  have hfill := h.filled
  have hc := congrArg List.length hfill
  rw [List.length_take, Nat.min_eq_left h.room] at hc
  refine ⟨m', hm, hlen, ?_, hdrop⟩
  rw [htake n hnw, Nat.sub_add_comm h.start,
    Lz77.copyBack_append_take src k h0 ho (by omega) h.low (by omega), ← hfill,
    List.drop_take, List.take_take, Nat.min_eq_left hn]

theorem Copied.prefix (h : Copied out offset m src op) (h0 : 0 < offset) (ho : offset ≤ out.length)
    {n : Nat} (hn : out.length + n ≤ op) : m.take (out.length + n) = copyBack out offset n := by
  have h1 := congrArg (List.take (out.length + n)) h.filled
  rw [List.take_take, Nat.min_eq_left hn] at h1
  rw [h1, show op - out.length = n + (op - out.length - n) by omega, Lz77.copyBack_add h0 ho,
    ← Lz77.length_copyBack h0 ho n, Lz77.take_copyBack]

theorem incrementalCopy_run {len : Nat} (h : Copied out offset m src op) (h0 : 0 < offset)
    (ho : offset ≤ out.length) (hsrc : src < op) (hlen : 0 < len) (hroom : op + len ≤ m.length) :
    ∃ m', incrementalCopy m src op len = some m' ∧ m'.length = m.length ∧
      m'.take (op + len) = copyBack out offset (op + len - out.length) ∧
      ∀ k, op + len ≤ k → m'.drop k = m.drop k := by
  induction len generalizing m src op with
  | zero => omega
  | succ len ih =>
    obtain ⟨m₁, hm₁, hl₁, ht₁, hd₁⟩ := h.step h0 ho (w := 1) (n := 1) (Nat.le_refl 1) (by omega)
      (Nat.le_of_lt hsrc) (by omega)
    have hst := h.start
    have hlow := h.low
    obtain ⟨k, hk⟩ := h.distance
    rw [incrementalCopy, hm₁]
    simp only [Option.bind_eq_bind, Option.bind_some]
    split
    · next hz =>
      subst hz
      exact ⟨m₁, rfl, hl₁, ht₁, hd₁⟩
    · next hz =>
      obtain ⟨m', hm', hl', ht', hd'⟩ := @ih m₁ (src + 1) (op + 1)
        ⟨ht₁, by omega, by omega, by omega, k, by omega⟩ (by omega) (by omega) (by omega)
      rw [show op + (len + 1) = op + 1 + len by omega]
      exact ⟨m', hm', hl'.trans hl₁, ht', fun k hk => (hd' k (by omega)).trans (hd₁ k (by omega))⟩

/-- The first loop: when it ends, `op` is at least eight bytes past `src`. -/
theorem expandPattern_run (fuel : Nat) (len : Int) (h : Copied out offset m src op) (h0 : 0 < offset)
    (ho : offset ≤ out.length) (hsrc : src + offset = out.length) (hlt : src < op)
    (hdist : op - src = offset ∨ op - src = 2 * offset ∨ op - src = 4 * offset ∨ 8 ≤ op - src)
    (hfuel : 8 - (op - src) < fuel) (hroom : out.length + 11 ≤ m.length) :
    ∃ m' op', expandPattern fuel m src op len = some (m', op', len - (op' - op : Nat)) ∧ op ≤ op' ∧
      8 ≤ op' - src ∧ Copied out offset m' src op' ∧ m'.length = m.length ∧
      ∀ k, out.length + 11 ≤ k → m'.drop k = m.drop k := by
  induction fuel generalizing m op len with
  | zero => omega
  | succ fuel ih =>
    rw [expandPattern]
    obtain ⟨k, hk⟩ := h.distance
    have hst := h.start
    split
    · next h8 =>
      obtain ⟨m₁, hm₁, hl₁, ht₁, hd₁⟩ := h.step h0 ho (w := 8) (n := op - src) (by omega)
        (Nat.le_refl _) (Nat.le_of_lt hlt) (by omega)
      have hc : Copied out offset m₁ src (op + (op - src)) := by
        refine ⟨ht₁, by omega, by omega, h.low, k + k, ?_⟩
        rw [Nat.add_mul]
        omega
      obtain ⟨m', op', hr, hop, h8', hc', hl', hd'⟩ := ih (len - (op - src)) hc (by omega)
        (by omega) (by omega) (by omega)
      rw [unalignedCopy64, hm₁]
      simp only [Option.bind_eq_bind, Option.bind_some]
      refine ⟨m', op', ?_, by omega, h8', hc', hl'.trans hl₁,
        fun k hk => (hd' k hk).trans (hd₁ k (by omega))⟩
      rw [hr]
      congr 3
      omega
    · next h8 =>
      refine ⟨m, op, ?_, Nat.le_refl _, by omega, h, rfl, fun _ _ => rfl⟩
      rw [Nat.sub_self]
      simp

/-- The second loop writes less than eight bytes past the end. -/
theorem copyEights_run (fuel finish : Nat) (len : Int) (h : Copied out offset m src op) (h0 : 0 < offset)
    (ho : offset ≤ out.length) (h8 : 8 ≤ op - src) (hlen : (op : Int) + len = finish)
    (hfuel : len.toNat < fuel) (hfinish : out.length ≤ finish) (hroom : finish + 10 ≤ m.length) :
    ∃ m', copyEights fuel m src op len = some m' ∧ m'.length = m.length ∧
      m'.take finish = copyBack out offset (finish - out.length) ∧
      ∀ k, finish + 10 ≤ k → m'.drop k = m.drop k := by
  induction fuel generalizing m src op len with
  | zero => omega
  | succ fuel ih =>
    rw [copyEights]
    obtain ⟨k, hk⟩ := h.distance
    have hst := h.start
    have hlow := h.low
    split
    · next hpos =>
      obtain ⟨m₁, hm₁, hl₁, ht₁, hd₁⟩ := h.step h0 ho (w := 8) (n := 8) (Nat.le_refl 8) h8 (by omega)
        (by omega)
      obtain ⟨m', hr, hl', ht', hd'⟩ := @ih m₁ (src + 8) (op + 8) (len - 8)
        ⟨ht₁, by omega, by omega, by omega, k, by omega⟩ (by omega) (by omega) (by omega) (by omega)
      rw [unalignedCopy64, hm₁]
      exact ⟨m', hr, hl'.trans hl₁, ht', fun k hk => (hd' k hk).trans (hd₁ k (by omega))⟩
    · next hpos =>
      refine ⟨m, rfl, rfl, ?_, fun _ _ => rfl⟩
      have := h.prefix h0 ho (n := finish - out.length) (by omega)
      rwa [Nat.add_sub_cancel' hfinish] at this

/-- The fast copy: what the copy byte by byte makes, and no more than ten bytes behind it. -/
theorem incrementalCopyFastPath_run {len : Nat} (h : Copied out offset m src op) (h0 : 0 < offset)
    (ho : offset ≤ out.length) (hsrc : src + offset = op) (hop : op = out.length) (hlen : 0 < len)
    (hroom : op + len + kMaxIncrementCopyOverflow ≤ m.length) :
    ∃ m', incrementalCopyFastPath m src op len = some m' ∧ m'.length = m.length ∧
      m'.take (op + len) = copyBack out offset (op + len - out.length) ∧
      ∀ k, op + len + kMaxIncrementCopyOverflow ≤ k → m'.drop k = m.drop k := by
  unfold kMaxIncrementCopyOverflow at *
  obtain ⟨m₁, op₁, hr₁, hop₁, h8, hc₁, hl₁, hd₁⟩ := expandPattern_run 8 len h h0 ho
    (by omega) (by omega) (by omega) (by omega) (by omega)
  obtain ⟨m₂, hr₂, hl₂, ht₂, hd₂⟩ := copyEights_run (len + 1) (op + len)
    (len - (op₁ - op : Nat)) hc₁ h0 ho h8 (by omega) (by omega) (by omega) (by omega)
  refine ⟨m₂, ?_, hl₂.trans hl₁, ht₂, fun k hk => (hd₂ k hk).trans (hd₁ k (by omega))⟩
  rw [incrementalCopyFastPath, hr₁]
  exact hr₂

/-! ## The flat array -/

/-- `SnappyArrayWriter`: the array at `base_`, with `op_` and `op_limit_` as offsets into it. -/
structure SnappyArrayWriter where
  base : Bytes
  op : Nat
  opLimit : Nat

namespace SnappyArrayWriter

/-- `op_limit_ - op`. -/
def spaceLeft (w : SnappyArrayWriter) : Nat := sizeSub w.opLimit w.op

def append (w : SnappyArrayWriter) (ip : Bytes) (len : Nat) : Option (Bool × SnappyArrayWriter) :=
  if w.spaceLeft < len then some (false, w)
  else do
    let base ← memcpy ip 0 w.base w.op len
    some (true, { w with base, op := w.op + len })

def tryFastAppend (w : SnappyArrayWriter) (ip : Bytes) (available len : Nat) :
    Option (Bool × SnappyArrayWriter) :=
  if len ≤ 16 ∧ 16 + kMaximumTagLength ≤ available ∧ 16 ≤ w.spaceLeft then do
    let base ← unalignedCopy64 ip 0 w.base w.op
    let base ← unalignedCopy64 ip 8 base (w.op + 8)
    some (true, { w with base, op := w.op + len })
  else some (false, w)

/-- `AppendFromSelf`: sixteen bytes at once, the fast copy, or byte by byte, as the room allows. -/
def appendFromSelf (w : SnappyArrayWriter) (offset len : Nat) : Option (Bool × SnappyArrayWriter) :=
  if w.op ≤ sizeSub offset 1 then some (false, w)
  else if len ≤ 16 ∧ 8 ≤ offset ∧ 16 ≤ w.spaceLeft then do
    let base ← unalignedCopy64 w.base (w.op - offset) w.base w.op
    let base ← unalignedCopy64 base (w.op - offset + 8) base (w.op + 8)
    some (true, { w with base, op := w.op + len })
  else if len + kMaxIncrementCopyOverflow ≤ w.spaceLeft then do
    let base ← incrementalCopyFastPath w.base (w.op - offset) w.op len
    some (true, { w with base, op := w.op + len })
  else if w.spaceLeft < len then some (false, w)
  else do
    let base ← incrementalCopy w.base (w.op - offset) w.op len
    some (true, { w with base, op := w.op + len })

instance : Writer SnappyArrayWriter where
  setExpectedLength w len := { w with opLimit := w.op + len }
  checkLength w := w.op = w.opLimit
  append := append
  tryFastAppend := tryFastAppend
  appendFromSelf := appendFromSelf

/-- What the array held from `limit` on is still there. -/
structure Spares (initial : Bytes) (limit : Nat) (w : SnappyArrayWriter) : Prop where
  rest : w.base.drop limit = initial.drop limit
  length : w.base.length = initial.length

/-- The array starts with `out`. -/
structure Holds (initial : Bytes) (limit : Nat) (w : SnappyArrayWriter) (out : Bytes) : Prop
    extends Spares initial limit w where
  op : w.op = out.length
  opLimit : w.opLimit = limit
  within : out.length ≤ limit
  filled : w.base.take out.length = out

variable {initial : Bytes} {limit : Nat} {w : SnappyArrayWriter}

theorem Holds.spaceLeft (h : Holds initial limit w out) (hl : limit < 2 ^ 32) :
    w.spaceLeft = limit - out.length := by
  have := h.within
  rw [SnappyArrayWriter.spaceLeft, h.op, h.opLimit, sizeSub_eq (by omega) (by omega)]

/-- The array after the bytes up to `out'` were put down, none of them past the limit. -/
theorem Holds.next (h : Holds initial limit w out) {base out' : Bytes} {len : Nat}
    (hlen : out'.length = out.length + len) (hlimit : out.length + len ≤ limit)
    (hbase : base.length = w.base.length) (htake : base.take (w.op + len) = out')
    (hdrop : base.drop limit = w.base.drop limit) :
    Holds initial limit { w with base, op := w.op + len } out' where
  op := by rw [h.op, hlen]
  opLimit := h.opLimit
  within := by omega
  filled := by rw [hlen, ← h.op, htake]
  rest := hdrop.trans h.rest
  length := hbase.trans h.length

theorem append_run (h : Holds initial limit w out) (hl : limit < 2 ^ 32)
    (hroom : limit ≤ initial.length) {ip : Bytes} {n : Nat} (hn : n ≤ ip.length) :
    ∃ ok w', w.append ip n = some (ok, w') ∧ (ok = true ↔ out.length + n ≤ limit) ∧
      (ok = true → Holds initial limit w' (out ++ ip.take n)) ∧ Spares initial limit w' := by
  have hwithin := h.within
  have hlength := h.length
  have hop := h.op
  rw [append, h.spaceLeft hl]
  split
  · exact ⟨false, w, rfl, by simp; omega, fun h => (by cases h), h.toSpares⟩
  · next hs =>
    obtain ⟨base, hm, hb, ht, hd⟩ := memcpy_run ip 0 w.base w.op n
      (by omega) (by omega)
    have hnext : Holds initial limit { w with base, op := w.op + n } (out ++ ip.take n) := by
      refine h.next ?_ (by omega) hb ?_ (hd _ (by omega))
      · rw [List.length_append, List.length_take]
        omega
      · rw [ht n (Nat.le_refl n), hop, h.filled]
        rfl
    rw [hm]
    exact ⟨true, _, rfl, by simp; omega, fun _ => hnext, hnext.toSpares⟩

theorem tryFastAppend_run (h : Holds initial limit w out) (hl : limit < 2 ^ 32)
    (hroom : limit ≤ initial.length) {ip : Bytes} {available n : Nat} (ha : available ≤ ip.length) :
    ∃ ok w', w.tryFastAppend ip available n = some (ok, w') ∧ (ok = false → w' = w) ∧
      (ok = true → n + kMaximumTagLength ≤ available ∧ n < 61 ∧
        Holds initial limit w' (out ++ ip.take n)) := by
  have hwithin := h.within
  have hlength := h.length
  have hop := h.op
  unfold kMaximumTagLength
  rw [tryFastAppend, h.spaceLeft hl]
  split
  · next hs =>
    unfold kMaximumTagLength at hs
    obtain ⟨b₁, b₂, hm₁, hm₂, hb, ht, hd⟩ := unalignedCopy64_twice ip 0 w.base w.op (by omega) (by omega)
    rw [hm₁, Option.bind_eq_bind, Option.bind_some, hm₂]
    refine ⟨true, _, rfl, fun h => (by cases h), fun _ => ⟨by omega, by omega, h.next ?_ (by omega)
      hb ?_ (hd _ (by omega))⟩⟩
    · rw [List.length_append, List.length_take]
      omega
    -- of the sixteen bytes copied the first `n` count
    · rw [ht n hs.1, hop, h.filled]
      rfl
  · exact ⟨false, w, rfl, fun _ => rfl, fun h => by cases h⟩

theorem appendFromSelf_run (h : Holds initial limit w out) (hl : limit < 2 ^ 32)
    (hroom : limit ≤ initial.length) {offset len : Nat} (hoff : offset < 2 ^ 32) (hlen : 0 < len) :
    ∃ ok w', w.appendFromSelf offset len = some (ok, w') ∧
      (ok = true ↔ 0 < offset ∧ offset ≤ out.length ∧ out.length + len ≤ limit) ∧
      (ok = true → Holds initial limit w' (copyBack out offset len)) ∧ Spares initial limit w' := by
  have hwithin := h.within
  have hlength := h.length
  have hop := h.op
  have hsub : w.op ≤ sizeSub offset 1 ↔ ¬(0 < offset ∧ offset ≤ out.length) := by
    unfold sizeSub
    omega
  rw [appendFromSelf, h.spaceLeft hl]
  by_cases hvalid : 0 < offset ∧ offset ≤ out.length
  swap
  · rw [if_pos (hsub.mpr hvalid)]
    exact ⟨false, w, rfl, ⟨fun h => (by cases h), fun h => absurd ⟨h.1, h.2.1⟩ hvalid⟩,
      fun h => (by cases h), h.toSpares⟩
  rw [if_neg (fun h => hsub.mp h hvalid)]
  obtain ⟨h0, ho⟩ := hvalid
  -- `out` is what stands before `op_`
  have hout : w.base.take w.op = out := by rw [hop, h.filled]
  have hc : Copied out offset w.base (w.op - offset) w.op := by
    have := Copied.begin w.base (w.op - offset) w.op (by omega) (by omega)
    rwa [hout, show w.op - (w.op - offset) = offset by omega] at this
  have hsplit : w.op + len - out.length = len := by omega
  -- one of the copies has put the bytes down
  have hput {base : Bytes} (hle : out.length + len ≤ limit) (hb : base.length = w.base.length)
      (ht : base.take (w.op + len) = copyBack out offset len) (hd : base.drop limit = w.base.drop limit) :
      (true = true ↔ 0 < offset ∧ offset ≤ out.length ∧ out.length + len ≤ limit) ∧
        (true = true → Holds initial limit { w with base, op := w.op + len } (copyBack out offset len)) ∧
        Spares initial limit { w with base, op := w.op + len } := by
    have hnext := h.next (Lz77.length_copyBack h0 ho len) hle hb ht hd
    exact ⟨iff_of_true rfl ⟨h0, ho, hle⟩, fun _ => hnext, hnext.toSpares⟩
  split
  · next hs =>
    obtain ⟨b₁, hm₁, hb₁, ht₁, hd₁⟩ := hc.step h0 ho (w := 8) (n := 8) (Nat.le_refl 8) (by omega)
      (by omega) (by omega)
    have hc₁ : Copied out offset b₁ (w.op - offset + 8) (w.op + 8) :=
      ⟨ht₁, by omega, by omega, by omega, 1, by omega⟩
    obtain ⟨b₂, hm₂, hb₂, ht₂, hd₂⟩ := hc₁.step h0 ho (w := 8) (n := 8) (Nat.le_refl 8) (by omega)
      (by omega) (by omega)
    have hc₂ : Copied out offset b₂ (w.op - offset + 16) (w.op + 16) :=
      ⟨ht₂, by omega, by omega, by omega, 1, by omega⟩
    rw [unalignedCopy64, hm₁, Option.bind_eq_bind, Option.bind_some, unalignedCopy64, hm₂]
    refine ⟨true, _, rfl, hput (by omega) (hb₂.trans hb₁) ?_ ((hd₂ _ (by omega)).trans (hd₁ _ (by omega)))⟩
    rw [hop, hc₂.prefix h0 ho (by omega)]
  · split
    · next hs =>
      unfold kMaxIncrementCopyOverflow at hs
      obtain ⟨b, hm, hb, ht, hd⟩ := incrementalCopyFastPath_run hc h0 ho (by omega) hop hlen
        (by unfold kMaxIncrementCopyOverflow; omega)
      rw [hm]
      rw [hsplit] at ht
      exact ⟨true, _, rfl, hput (by omega) hb ht (hd _ (by unfold kMaxIncrementCopyOverflow; omega))⟩
    · split
      · exact ⟨false, w, rfl, ⟨fun h => (by cases h), fun h => (by omega)⟩, fun h => (by cases h),
          h.toSpares⟩
      · obtain ⟨b, hm, hb, ht, hd⟩ := incrementalCopy_run hc h0 ho (by omega) hlen (by omega)
        rw [hm]
        rw [hsplit] at ht
        exact ⟨true, _, rfl, hput (by omega) hb ht (hd _ (by omega))⟩

/-- The array writer with room for the expected length. -/
theorem produces (hl : limit < 2 ^ 32) (hroom : limit ≤ initial.length) :
    Writer.Produces limit (Holds initial limit) (Spares initial limit) where
  within h := h.within
  always h := h.toSpares
  checked {w out} h := by
    show decide (w.op = w.opLimit) = _
    rw [h.op, h.opLimit]
  appends h _ _ hn _ := append_run h hl hroom hn
  tries h _ _ _ := tryFastAppend_run h hl hroom
  copies h _ _ hoff hlen _ := appendFromSelf_run h hl hroom hoff hlen

end SnappyArrayWriter

/-! ## No output -/

/-- `SnappyDecompressionValidator`. -/
structure SnappyDecompressionValidator where
  expected : Nat
  produced : Nat

namespace SnappyDecompressionValidator

def append (w : SnappyDecompressionValidator) (_ip : Bytes) (len : Nat) :
    Option (Bool × SnappyDecompressionValidator) :=
  let produced := (w.produced + len) % 2 ^ 64
  some (produced ≤ w.expected, { w with produced })

def appendFromSelf (w : SnappyDecompressionValidator) (offset len : Nat) :
    Option (Bool × SnappyDecompressionValidator) :=
  if w.produced ≤ sizeSub offset 1 then some (false, w)
  else
    let produced := (w.produced + len) % 2 ^ 64
    some (produced ≤ w.expected, { w with produced })

instance : Writer SnappyDecompressionValidator where
  setExpectedLength w len := { w with expected := len }
  checkLength w := w.expected = w.produced
  append := append
  tryFastAppend w _ _ _ := some (false, w)
  appendFromSelf := appendFromSelf

/-- The validator has counted the bytes of `out`. -/
structure Counts (limit : Nat) (w : SnappyDecompressionValidator) (out : Bytes) : Prop where
  expected : w.expected = limit
  produced : w.produced = out.length
  within : out.length ≤ limit

/-- What the validator says of `len` bytes more. -/
theorem Counts.next {limit : Nat} {w : SnappyDecompressionValidator} (h : Counts limit w out)
    {out' : Bytes} {len : Nat} (hl : limit < 2 ^ 32) (hlen : len ≤ 2 ^ 32)
    (hout : out'.length = out.length + len) :
    (decide ((w.produced + len) % 2 ^ 64 ≤ w.expected) = true ↔ out.length + len ≤ limit) ∧
      (decide ((w.produced + len) % 2 ^ 64 ≤ w.expected) = true →
        Counts limit { w with produced := (w.produced + len) % 2 ^ 64 } out') := by
  have hwithin := h.within
  have hmod : (w.produced + len) % 2 ^ 64 = out.length + len := by
    rw [h.produced]
    omega
  rw [hmod, h.expected, decide_eq_true_iff]
  exact ⟨Iff.rfl, fun hle => ⟨rfl, hout.symm, by omega⟩⟩

theorem produces {limit : Nat} (hl : limit < 2 ^ 32) :
    Writer.Produces limit (Counts limit) fun _ => True where
  within h := h.within
  always _ := trivial
  checked {w out} h := by
    show decide (w.expected = w.produced) = _
    rw [h.expected, h.produced, decide_eq_decide]
    exact eq_comm
  appends {w out} h ip n hn hn32 := by
    have hlen : (out ++ ip.take n).length = out.length + n := by
      rw [List.length_append, List.length_take, Nat.min_eq_left hn]
    obtain ⟨hiff, hnext⟩ := h.next hl hn32 hlen
    exact ⟨_, _, rfl, hiff, hnext, trivial⟩
  tries {w out} _ _ _ _ _ := ⟨false, w, rfl, fun _ => rfl, fun h => (by cases h)⟩
  copies {w out} h offset len hoff hpos hlen := by
    show ∃ ok w', w.appendFromSelf offset len = _ ∧ _
    have hsub : w.produced ≤ sizeSub offset 1 ↔ ¬(0 < offset ∧ offset ≤ out.length) := by
      have := h.produced
      have := h.within
      unfold sizeSub
      omega
    rw [appendFromSelf]
    by_cases hvalid : 0 < offset ∧ offset ≤ out.length
    · rw [if_neg (fun h => hsub.mp h hvalid)]
      obtain ⟨hiff, hnext⟩ := h.next hl (by omega) (Lz77.length_copyBack hvalid.1 hvalid.2 len)
      exact ⟨_, _, rfl, hiff.trans ⟨fun hle => ⟨hvalid.1, hvalid.2, hle⟩, fun hc => hc.2.2⟩, hnext,
        trivial⟩
    · rw [if_pos (hsub.mpr hvalid)]
      exact ⟨false, w, rfl, ⟨fun h => (by cases h), fun h => absurd ⟨h.1, h.2.1⟩ hvalid⟩,
        fun h => (by cases h), trivial⟩

end SnappyDecompressionValidator

end Snappy
