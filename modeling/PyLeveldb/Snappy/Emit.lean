import PyLeveldb.Snappy.Format

/-!
# Emitting elements (`EmitLiteral`, `EmitCopy`)

The compressor writes through a pointer `op` into a buffer. The fast path of `EmitLiteral` writes up to
fifteen bytes more than it emits, so what lies behind `op` is not kept.

* `Emitted`: the buffer up to `op` has grown by `code`.
* `emitLiteral_run`, `emitCopy_run`: the code that is emitted decodes to the literal, or to the bytes
  copied back, and how long it is at most. A copy saves what the literal before it may cost.
-/

namespace Snappy

open Lz77 (Token copyBack)

/-- The loop of `EmitLiteral` that stores `n`, lowest byte first. More than four rounds would fail the
assertion behind it. -/
def emitLength : Nat → Bytes → Nat → Nat → Nat → Option (Bytes × Nat × Nat)
  | 0, dst, op, n, count => if 0 < n then none else some (dst, op, count)
  | fuel + 1, dst, op, n, count =>
    if 0 < n then do
      let dst ← Region.write dst op [UInt8.ofNat (n &&& 0xff)]
      emitLength fuel dst (op + 1) (n >>> 8) (count + 1)
    else some (dst, op, count)

/-- `EmitLiteral`: the buffer and the new `op`. A literal of no bytes is disallowed. -/
def emitLiteral (input : Bytes) (literal len : Nat) (allowFastPath : Bool) (dst : Bytes) (op : Nat) :
    Option (Bytes × Nat) :=
  if len = 0 then none
  else
    let n := len - 1
    if n < 60 then do
      let dst ← Region.write dst op [UInt8.ofNat (n <<< 2)]
      let op := op + 1
      if allowFastPath && len ≤ 16 then
        let dst ← unalignedCopy64 input literal dst op
        let dst ← unalignedCopy64 input (literal + 8) dst (op + 8)
        some (dst, op + len)
      else
        let dst ← memcpy input literal dst op len
        some (dst, op + len)
    else do
      let base := op
      let (dst, op, count) ← emitLength 4 dst (op + 1) n 0
      let dst ← Region.write dst base [UInt8.ofNat ((59 + count) <<< 2)]
      let dst ← memcpy input literal dst op len
      some (dst, op + len)

/-- `EmitCopyLessThan64`, with its assertions. -/
def emitCopyLessThan64 (dst : Bytes) (op offset len : Nat) : Option (Bytes × Nat) :=
  if len ≤ 64 ∧ 4 ≤ len ∧ offset < 65536 then
    if len < 12 ∧ offset < 2048 then do
      let dst ← Region.write dst op [UInt8.ofNat (1 + ((len - 4) <<< 2) + ((offset >>> 8) <<< 5))]
      let dst ← Region.write dst (op + 1) [UInt8.ofNat (offset &&& 0xff)]
      some (dst, op + 2)
    else do
      let dst ← Region.write dst op [UInt8.ofNat (2 + ((len - 1) <<< 2))]
      let dst ← Region.write dst (op + 1) (LittleEndian.ofNat 2 offset)
      some (dst, op + 3)
  else none

/-- The loop of `EmitCopy` that emits copies of 64 bytes. -/
def emitCopies64 : Nat → Bytes → Nat → Nat → Nat → Option (Bytes × Nat × Nat)
  | 0, _, _, _, _ => none
  | fuel + 1, dst, op, offset, len =>
    if 68 ≤ len then do
      let (dst, op) ← emitCopyLessThan64 dst op offset 64
      emitCopies64 fuel dst op offset (len - 64)
    else some (dst, op, len)

/-- `EmitCopy`: at least four bytes are kept back for the last copy. -/
def emitCopy (dst : Bytes) (op offset len : Nat) : Option (Bytes × Nat) := do
  let (dst, op, len) ← emitCopies64 (len + 1) dst op offset len
  if 64 < len then
    let (dst, op) ← emitCopyLessThan64 dst op offset 60
    emitCopyLessThan64 dst op offset (len - 60)
  else emitCopyLessThan64 dst op offset len

/-! ## What is emitted -/

/-- Up to `op'` the buffer is what it was up to `op`, and `code`. -/
structure Emitted (dst : Bytes) (op : Nat) (dst' : Bytes) (op' : Nat) (code : Bytes) : Prop where
  length : dst'.length = dst.length
  op_eq : op' = op + code.length
  room : op' ≤ dst.length
  take : dst'.take op' = dst.take op ++ code

variable {dst dst' dst'' : Bytes} {op op' op'' : Nat} {code code' : Bytes}

theorem Emitted.trans (h : Emitted dst op dst' op' code) (h' : Emitted dst' op' dst'' op'' code') :
    Emitted dst op dst'' op'' (code ++ code') where
  length := h'.length.trans h.length
  op_eq := by rw [h'.op_eq, h.op_eq, List.length_append, Nat.add_assoc]
  room := h.length ▸ h'.room
  take := by rw [h'.take, h.take, List.append_assoc]

/-- The code stands where it was emitted. -/
theorem Emitted.code_eq (h : Emitted dst op dst' op' code) : (dst'.drop op).take code.length = code := by
  have hop := h.op_eq
  have hroom := h.room
  have hl := List.length_take_of_le (show op ≤ dst.length by omega)
  have htake : (dst'.take op').drop op = code := by
    rw [h.take, List.drop_left' hl]
  rw [List.drop_take, hop, Nat.add_sub_cancel_left] at htake
  exact htake

/-- What stood before the code is not changed. -/
theorem Emitted.before (h : Emitted dst op dst' op' code) : dst'.take op = dst.take op := by
  have hop := h.op_eq
  have hroom := h.room
  have hl := List.length_take_of_le (show op ≤ dst.length by omega)
  have htake := congrArg (List.take op) h.take
  rwa [List.take_take, Nat.min_eq_left (by omega), List.take_left' hl] at htake

theorem store_run (dst : Bytes) (op : Nat) (l : Bytes) (h : op + l.length ≤ dst.length) :
    ∃ dst', Region.write dst op l = some dst' ∧ Emitted dst op dst' (op + l.length) l := by
  obtain ⟨dst', hw⟩ := Region.write_exists h
  exact ⟨dst', hw, Region.length_write hw, rfl, h, Region.take_write hw⟩

/-- The length of a literal in as few bytes as it takes. -/
theorem emitLength_run (fuel : Nat) (dst : Bytes) (op n count : Nat) (hn : n < 256 ^ fuel)
    (hroom : op + fuel ≤ dst.length) :
    ∃ k dst', emitLength fuel dst op n count = some (dst', op + k, count + k) ∧ n < 256 ^ k ∧
      (∀ j, n < 256 ^ j → k ≤ j) ∧ Emitted dst op dst' (op + k) (LittleEndian.ofNat k n) := by
  induction fuel generalizing dst op n count with
  | zero =>
    obtain rfl : n = 0 := Nat.lt_one_iff.mp hn
    exact ⟨0, dst, rfl, Nat.one_pos, fun _ _ => Nat.zero_le _, rfl, rfl, hroom, (List.append_nil _).symm⟩
  | succ fuel ih =>
    rw [emitLength]
    split
    · next hpos =>
      obtain ⟨d₁, hw, he⟩ := store_run dst op [UInt8.ofNat (n &&& 0xff)]
        (by rw [List.length_singleton]; omega)
      have hdiv : n >>> 8 = n / 256 := Nat.shiftRight_eq_div_pow n 8
      have hlow : UInt8.ofNat (n &&& 0xff) = UInt8.ofNat n := by
        apply UInt8.toNat_inj.mp
        rw [UInt8.toNat_ofNat', UInt8.toNat_ofNat', show 0xff = 2 ^ 8 - 1 from rfl,
          Nat.and_two_pow_sub_one_eq_mod, Nat.mod_mod]
      have hlt {j : Nat} : n / 256 < 256 ^ j ↔ n < 256 ^ (j + 1) := by
        rw [Nat.div_lt_iff_lt_mul (by decide), ← Nat.pow_succ]
      obtain ⟨k, d₂, hr, hk, hmin, he₂⟩ := ih d₁ (op + 1) (n / 256) (count + 1)
        (hlt.mpr hn) (by rw [he.length]; omega)
      rw [hw, hdiv]
      refine ⟨k + 1, d₂, ?_, hlt.mp hk, fun j hj => ?_, ?_⟩
      · rw [show op + (k + 1) = op + 1 + k by omega, show count + (k + 1) = count + 1 + k by omega]
        exact hr
      · obtain _ | j := j
        · exact absurd (Nat.lt_one_iff.mp hj) (by omega)
        · exact Nat.succ_le_succ (hmin j (hlt.mpr hj))
      · rw [show op + (k + 1) = op + 1 + k by omega, LittleEndian.ofNat, ← hlow]
        exact he.trans he₂
    · next hpos =>
      obtain rfl : n = 0 := by omega
      exact ⟨0, dst, rfl, Nat.one_pos, fun _ _ => Nat.zero_le _, rfl, rfl, by omega,
        (List.append_nil _).symm⟩

/-- A byte put in front of what was emitted behind it. -/
theorem Emitted.tag (h : Emitted dst (op + 1) dst' op' code) (b : UInt8) :
    ∃ dst'', Region.write dst' op [b] = some dst'' ∧ Emitted dst op dst'' op' (b :: code) := by
  have hop := h.op_eq
  have hroom := h.room
  have hlen := h.length
  obtain ⟨dst'', hw⟩ := Region.write_exists (m := dst') (i := op) (l := [b])
    (by rw [List.length_singleton]; omega)
  have hbefore : dst'.take op = dst.take op := by
    have := congrArg (List.take op) h.take
    rwa [List.take_take, Nat.min_eq_left (by omega), List.take_append_of_le_length
      (by rw [List.length_take]; omega), List.take_take, Nat.min_eq_left (by omega)] at this
  have hbehind : (dst'.drop (op + 1)).take code.length = code := by
    have := congrArg (List.drop (op + 1)) h.take
    have h1 : (dst.take (op + 1)).length = op + 1 := by rw [List.length_take]; omega
    rwa [List.drop_take, List.drop_append, List.drop_of_length_le (l := dst.take (op + 1)) (by omega), h1,
      Nat.sub_self, List.drop_zero, List.nil_append, hop, Nat.add_sub_cancel_left] at this
  refine ⟨dst'', hw, (Region.length_write hw).trans hlen, ?_, hroom, ?_⟩
  · rw [List.length_cons]
    omega
  · have htake := Region.take_write hw
    rw [List.length_singleton, hbefore] at htake
    have hdrop := Region.drop_write hw (k := op + 1) (Nat.le_refl _)
    rw [hop, List.take_add, htake, hdrop, hbehind, List.append_assoc]
    rfl

/-- The code of one element. -/
theorem decode_element {t : Token UInt8} (h : Format.element code = some (t, [])) {out out' : Bytes}
    (ht : t.expand out = some out') : Format.decode code out = some out' := by
  rw [Format.decode_of_element h, ht]
  exact Format.decode_nil out'

theorem toNat_tag {n : Nat} (h : n < 256) : (UInt8.ofNat n).toNat = n := by
  rw [UInt8.toNat_ofNat']
  exact Nat.mod_eq_of_lt h

/-- A literal's tag and its bytes are an element. -/
theorem element_literal {tag : UInt8} {lengthBytes lit : Bytes} (h0 : tag.toNat % 4 = 0)
    (hx : Format.extra tag.toNat = lengthBytes.length)
    (hl : Format.literalLength tag.toNat (LittleEndian.toNat lengthBytes) = lit.length) :
    Format.element (tag :: (lengthBytes ++ lit)) = some (.literal lit, []) := by
  have htake : (lengthBytes ++ lit).take (Format.extra tag.toNat) = lengthBytes := by
    rw [hx, List.take_left]
  rw [Format.element_cases, htake, List.length_append, hx]
  refine ⟨by omega, .inl ⟨h0, lit.length, hl, Nat.le_refl _, ?_, ?_⟩⟩
  · rw [List.drop_left, List.take_length]
  · rw [List.drop_of_length_le (by rw [List.length_append])]

/-- `EmitLiteral` emits the literal. A long literal costs less than a sixth of its bytes; a short one
costs one byte. -/
theorem emitLiteral_run (input : Bytes) (literal len : Nat) (allowFastPath : Bool) (dst : Bytes) (op : Nat)
    (hlen : 0 < len)    (h32 : len < 2 ^ 32) (hin : literal + len ≤ input.length)
    (hfast : allowFastPath = true → literal + 16 ≤ input.length) (hroom : op + len + 17 ≤ dst.length) :
    ∃ dst' op' code, emitLiteral input literal len allowFastPath dst op = some (dst', op') ∧
      Emitted dst op dst' op' code ∧
      (∀ out, Format.decode code out = some (out ++ (input.drop literal).take len)) ∧
      6 * code.length ≤ 7 * len + 5 ∧ (6 ≤ len → 6 * code.length ≤ 7 * len) := by
  have hlit : ((input.drop literal).take len).length = len := by
    rw [List.length_take, List.length_drop]
    omega
  rw [emitLiteral, if_neg (by omega)]
  dsimp only
  split
  · next h60 =>
    obtain ⟨d₁, hw, he⟩ := store_run dst op [UInt8.ofNat ((len - 1) <<< 2)]
      (by rw [List.length_singleton]; omega)
    have hl₁ := he.length
    have htag : (UInt8.ofNat ((len - 1) <<< 2)).toNat = (len - 1) * 4 := by
      rw [Nat.shiftLeft_eq]
      exact toNat_tag (by omega)
    -- either path leaves the literal behind the tag
    have hdone {d₂ : Bytes} (hl₂ : d₂.length = d₁.length)
        (ht₂ : d₂.take (op + 1 + len) = d₁.take (op + 1) ++ (input.drop literal).take len) :
        Emitted dst op d₂ (op + 1 + len)
            (UInt8.ofNat ((len - 1) <<< 2) :: ([] ++ (input.drop literal).take len)) ∧
          (∀ out, Format.decode (UInt8.ofNat ((len - 1) <<< 2) :: ([] ++ (input.drop literal).take len))
            out = some (out ++ (input.drop literal).take len)) ∧
          6 * (UInt8.ofNat ((len - 1) <<< 2) :: ([] ++ (input.drop literal).take len)).length ≤ 7 * len + 5 ∧
          (6 ≤ len →
            6 * (UInt8.ofNat ((len - 1) <<< 2) :: ([] ++ (input.drop literal).take len)).length ≤
              7 * len) := by
      refine ⟨he.trans ⟨hl₂, by rw [hlit]; rfl, by omega, ht₂⟩, fun out => ?_, ?_⟩
      · refine decode_element (element_literal ?_ ?_ ?_) rfl
        · rw [htag]
          exact Nat.mul_mod_left _ _
        · rw [htag, Format.extra, Nat.mul_mod_left]
          exact if_pos (by omega)
        · rw [htag, Format.literalLength, if_pos (by omega), hlit]
          omega
      · rw [List.length_cons, List.nil_append, hlit]
        omega
    rw [hw, Option.bind_eq_bind, Option.bind_some]
    split
    · next hf =>
      rw [Bool.and_eq_true, decide_eq_true_iff] at hf
      have := hfast hf.1
      obtain ⟨d₂, d₃, hm₂, hm₃, hl₃, ht₃, -⟩ := unalignedCopy64_twice input literal d₁ (op + 1)
        (by omega) (by omega)
      rw [hm₂, Option.bind_some, hm₃]
      exact ⟨d₃, op + 1 + len, _, rfl, hdone hl₃ (ht₃ len hf.2)⟩
    · obtain ⟨d₂, hm₂, hl₂, ht₂, -⟩ := memcpy_run input literal d₁ (op + 1) len hin (by omega)
      rw [hm₂]
      exact ⟨d₂, op + 1 + len, _, rfl, hdone hl₂ (ht₂ len (Nat.le_refl _))⟩
  · next h60 =>
    obtain ⟨k, d₁, hr, hk, hmin, he⟩ := emitLength_run 4 dst (op + 1) (len - 1) 0
      (by omega) (by omega)
    have hk4 : k ≤ 4 := hmin 4 (by omega)
    have hk0 : 0 < k := Nat.pos_of_ne_zero fun h => by rw [h] at hk; omega
    obtain ⟨d₂, hw, he₂⟩ := he.tag (UInt8.ofNat ((59 + k) <<< 2))
    have hl₂ := he₂.length
    obtain ⟨d₃, hm, hl₃, ht₃, -⟩ := memcpy_run input literal d₂ (op + 1 + k) len hin (by omega)
    have htag : (UInt8.ofNat ((59 + k) <<< 2)).toNat = (59 + k) * 4 := by
      rw [Nat.shiftLeft_eq]
      exact toNat_tag (by omega)
    rw [hr, Option.bind_eq_bind, Option.bind_some, Nat.zero_add]
    dsimp only
    rw [hw, Option.bind_eq_bind, Option.bind_some, hm]
    refine ⟨d₃, op + 1 + k + len, _, rfl, he₂.trans ⟨hl₃, by rw [hlit], by omega, ht₃ len (Nat.le_refl _)⟩,
      fun out => ?_, ?_⟩
    · refine decode_element (element_literal ?_ ?_ ?_) rfl
      · rw [htag]
        exact Nat.mul_mod_left _ _
      · rw [htag, Format.extra, Nat.mul_mod_left, LittleEndian.length_ofNat]
        exact (if_neg (by omega)).trans (by omega)
      · have h256 : 2 ^ (8 * k) = 256 ^ k := Nat.pow_mul 2 8 k
        rw [htag, Format.literalLength, if_neg (by omega), LittleEndian.toNat_ofNat, h256,
          Nat.mod_eq_of_lt hk, hlit]
        omega
    -- one byte of length up to 256, two up to 65536, and at most four
    · have h1 : len ≤ 256 → k ≤ 1 := fun h => hmin 1 (by omega)
      have h2 : len ≤ 65536 → k ≤ 2 := fun h => hmin 2 (by omega)
      rw [List.cons_append, List.length_cons, List.length_append, LittleEndian.length_ofNat, hlit]
      omega

/-- `EmitCopyLessThan64` emits one copy, in three bytes at most. -/
theorem emitCopyLessThan64_run (dst : Bytes) (op offset len : Nat) (h4 : 4 ≤ len) (h64 : len ≤ 64)
    (h0 : 0 < offset) (hoff : offset < 65536) (hroom : op + 3 ≤ dst.length) :
    ∃ dst' op' code, emitCopyLessThan64 dst op offset len = some (dst', op') ∧
      Emitted dst op dst' op' code ∧ code.length ≤ 3 ∧
      ∀ out : Bytes, offset ≤ out.length → Format.decode code out = some (copyBack out offset len) := by
  rw [emitCopyLessThan64, if_pos ⟨h64, h4, hoff⟩]
  split
  · next hs =>
    obtain ⟨n, hn⟩ : ∃ n, 1 + ((len - 4) <<< 2) + ((offset >>> 8) <<< 5) = n := ⟨_, rfl⟩
    have hn' : n = 1 + (len - 4) * 4 + offset / 256 * 32 := by
      rw [← hn, Nat.shiftLeft_eq, Nat.shiftLeft_eq, Nat.shiftRight_eq_div_pow]
    obtain ⟨d₁, hw₁, he₁⟩ := store_run dst op [UInt8.ofNat n]
      (by rw [List.length_singleton]; omega)
    obtain ⟨d₂, hw₂, he₂⟩ := store_run d₁ (op + 1) [UInt8.ofNat (offset &&& 0xff)]
      (by rw [List.length_singleton, he₁.length]; omega)
    rw [hn, hw₁, Option.bind_eq_bind, Option.bind_some, hw₂]
    refine ⟨d₂, op + 2, _, rfl, he₁.trans he₂, Nat.le_succ 2, fun out ho => decode_element ?_
      (Lz77.Token.expand_copy h0 ho len)⟩
    have hlow : (UInt8.ofNat (offset &&& 0xff)).toNat = offset % 256 := by
      rw [show 0xff = 2 ^ 8 - 1 from rfl, Nat.and_two_pow_sub_one_eq_mod]
      exact toNat_tag (by omega)
    have hx : Format.extra n = 1 := by
      rw [Format.extra, show n % 4 = 1 by omega]
      rfl
    rw [List.singleton_append, Format.element_cases, toNat_tag (by omega), hx]
    refine ⟨Nat.le_refl 1, .inr ⟨by omega, ?_, rfl⟩⟩
    rw [List.take_of_length_le (Nat.le_refl 1), LittleEndian.toNat, hlow, LittleEndian.toNat,
      Format.copyOf, if_pos (by omega)]
    congr 1 <;> omega
  · next hs =>
    obtain ⟨n, hn⟩ : ∃ n, 2 + ((len - 1) <<< 2) = n := ⟨_, rfl⟩
    have hn' : n = 2 + (len - 1) * 4 := by rw [← hn, Nat.shiftLeft_eq]
    obtain ⟨d₁, hw₁, he₁⟩ := store_run dst op [UInt8.ofNat n]
      (by rw [List.length_singleton]; omega)
    obtain ⟨d₂, hw₂, he₂⟩ := store_run d₁ (op + 1) (LittleEndian.ofNat 2 offset)
      (by rw [LittleEndian.length_ofNat, he₁.length]; omega)
    rw [hn, hw₁, Option.bind_eq_bind, Option.bind_some, hw₂]
    refine ⟨d₂, op + 3, _, rfl, he₁.trans he₂, Nat.le_refl 3, fun out ho => decode_element ?_
      (Lz77.Token.expand_copy h0 ho len)⟩
    have hx : Format.extra n = 2 := by
      rw [Format.extra, show n % 4 = 2 by omega]
      rfl
    rw [List.singleton_append, Format.element_cases, toNat_tag (by omega), hx]
    refine ⟨Nat.le_refl 2, .inr ⟨by omega, ?_, rfl⟩⟩
    rw [List.take_of_length_le (Nat.le_refl 2), LittleEndian.toNat_ofNat, Format.copyOf, if_neg (by omega)]
    congr 1 <;> omega

/-- A copy behind a copy from the same distance. -/
theorem decode_copies {offset m n : Nat} (h0 : 0 < offset)
    (h : ∀ out : Bytes, offset ≤ out.length → Format.decode code out = some (copyBack out offset m))
    (h' : ∀ out : Bytes, offset ≤ out.length → Format.decode code' out = some (copyBack out offset n))
    (out : Bytes) (ho : offset ≤ out.length) :
    Format.decode (code ++ code') out = some (copyBack out offset (m + n)) := by
  rw [Format.decode_append (h out ho), h' _ (by rw [Lz77.length_copyBack h0 ho]; omega),
    Lz77.copyBack_add h0 ho]

theorem emitCopies64_run (fuel : Nat) {offset len : Nat} (h4 : 4 ≤ len) (h0 : 0 < offset)
    (hoff : offset < 65536) (hroom : op + len ≤ dst.length) (hfuel : len < fuel) :
    ∃ dst' op' q code, emitCopies64 fuel dst op offset len = some (dst', op', len - 64 * q) ∧
      Emitted dst op dst' op' code ∧ code.length ≤ 3 * q ∧ 64 * q + 4 ≤ len ∧ len < 64 * q + 68 ∧
      ∀ out : Bytes, offset ≤ out.length → Format.decode code out = some (copyBack out offset (64 * q)) := by
  induction fuel generalizing dst op len with
  | zero => omega
  | succ fuel ih =>
    rw [emitCopies64]
    split
    · next h68 =>
      obtain ⟨d₁, op₁, code₁, hr₁, he₁, hl₁, hd₁⟩ := emitCopyLessThan64_run dst op offset 64 (by decide)
        (by decide) h0 hoff (by omega)
      have hop₁ := he₁.op_eq
      obtain ⟨d₂, op₂, q, code₂, hr₂, he₂, hl₂, hq, hq', hd₂⟩ := @ih d₁ op₁ (len - 64) (by omega)
        (by rw [he₁.length]; omega) (by omega)
      rw [hr₁]
      refine ⟨d₂, op₂, q + 1, code₁ ++ code₂, ?_, he₁.trans he₂, ?_, by omega, by omega, ?_⟩
      · rw [show len - 64 * (q + 1) = len - 64 - 64 * q by omega]
        exact hr₂
      · rw [List.length_append]
        omega
      · rw [show 64 * (q + 1) = 64 + 64 * q by omega]
        exact decode_copies h0 hd₁ hd₂
    · next h68 =>
      exact ⟨dst, op, 0, [], rfl, ⟨rfl, rfl, by omega, (List.append_nil _).symm⟩, Nat.le_refl 0, by omega,
        by omega, fun out _ => Format.decode_nil out⟩

/-- `EmitCopy` emits copies of `len` bytes together, and saves ten sixths of a byte at least. -/
theorem emitCopy_run (dst : Bytes) (op offset len : Nat) (h4 : 4 ≤ len) (h0 : 0 < offset)
    (hoff : offset < 65536) (hroom : op + len ≤ dst.length) :
    ∃ dst' op' code, emitCopy dst op offset len = some (dst', op') ∧ Emitted dst op dst' op' code ∧
      6 * code.length + 10 ≤ 7 * len ∧
      ∀ out : Bytes, offset ≤ out.length → Format.decode code out = some (copyBack out offset len) := by
  obtain ⟨d₁, op₁, q, code₁, hr₁, he₁, hl₁, hq, hq', hd₁⟩ := emitCopies64_run (len + 1) h4 h0 hoff
    hroom (by omega)
  have hop₁ := he₁.op_eq
  have hlen₁ := he₁.length
  rw [emitCopy, hr₁, Option.bind_eq_bind, Option.bind_some]
  dsimp only
  split
  · next h64 =>
    obtain ⟨d₂, op₂, code₂, hr₂, he₂, hl₂, hd₂⟩ := emitCopyLessThan64_run d₁ op₁ offset 60 (by decide)
      (by decide) h0 hoff (by omega)
    have hop₂ := he₂.op_eq
    have hlen₂ := he₂.length
    obtain ⟨d₃, op₃, code₃, hr₃, he₃, hl₃, hd₃⟩ := emitCopyLessThan64_run d₂ op₂ offset
      (len - 64 * q - 60) (by omega) (by omega) h0 hoff (by omega)
    rw [hr₂]
    refine ⟨d₃, op₃, code₁ ++ (code₂ ++ code₃), hr₃, he₁.trans (he₂.trans he₃), ?_, ?_⟩
    · rw [List.length_append, List.length_append]
      omega
    · rw [show len = 64 * q + (60 + (len - 64 * q - 60)) by omega]
      exact decode_copies h0 hd₁ (decode_copies h0 hd₂ hd₃)
  · next h64 =>
    obtain ⟨d₂, op₂, code₂, hr₂, he₂, hl₂, hd₂⟩ := emitCopyLessThan64_run d₁ op₁ offset (len - 64 * q)
      (by omega) (by omega) h0 hoff (by omega)
    refine ⟨d₂, op₂, code₁ ++ code₂, hr₂, he₁.trans he₂, ?_, ?_⟩
    · rw [List.length_append]
      omega
    · rw [show len = 64 * q + (len - 64 * q) by omega]
      exact decode_copies h0 hd₁ hd₂

end Snappy
