import PyLeveldb.Lib.Region
import PyLeveldb.Lib.LittleEndian
import PyLeveldb.Lib.Leb128

/-!
# Loads, copies and the length prefix (`snappy-stubs-internal.h`)

A buffer is a region of bytes, a pointer into it an offset. The host is little endian, a pointer and a
`size_t` have 64 bits.

* `Varint.encode32` is the shortest LEB128 spelling (`encode32_eq`).
* `Varint.parse32WithLimit_eq_some`: what the parser takes is a LEB128 number below 2^32 in at most
  five bytes.
-/

namespace Snappy

/-- `string`, and the bytes that a `const char*` and a length stand for. -/
abbrev Bytes := List UInt8

/-- A step of the code that has a result. -/
theorem some_bind {α β : Type} (a : α) (f : α → Option β) : (some a >>= f) = f a := rfl

/-- An assertion that holds. -/
theorem guard_of {p : Prop} [Decidable p] (h : p) : (guard p : Option Unit) = some () := if_pos h

/-- `a - b` on `size_t`. -/
def sizeSub (a b : Nat) : Nat := (a + 2 ^ 64 - b) % 2 ^ 64

theorem sizeSub_eq {a b : Nat} (h : b ≤ a) (ha : a < 2 ^ 64) : sizeSub a b = a - b := by
  rw [sizeSub]
  omega

/-- `UNALIGNED_LOAD32`. -/
def unalignedLoad32 (m : Bytes) (p : Nat) : Option (BitVec 32) :=
  (Region.read m p 4).map (LittleEndian.word 32)

/-- `UNALIGNED_LOAD64`. -/
def unalignedLoad64 (m : Bytes) (p : Nat) : Option (BitVec 64) :=
  (Region.read m p 8).map (LittleEndian.word 64)

/-- `memcpy` of `n` bytes between two regions. -/
def memcpy (src : Bytes) (p : Nat) (dst : Bytes) (op n : Nat) : Option Bytes := do
  Region.write dst op (← Region.read src p n)

/-- `UnalignedCopy64`: all eight bytes are loaded before one is stored. -/
def unalignedCopy64 (src : Bytes) (p : Nat) (dst : Bytes) (op : Nat) : Option Bytes :=
  memcpy src p dst op 8

theorem unalignedLoad32_eq {m : Bytes} {p : Nat} (h : p + 4 ≤ m.length) :
    unalignedLoad32 m p = some (LittleEndian.word 32 ((m.drop p).take 4)) := by
  rw [unalignedLoad32, Region.read_eq h]
  rfl

theorem unalignedLoad64_eq {m : Bytes} {p : Nat} (h : p + 8 ≤ m.length) :
    unalignedLoad64 m p = some (LittleEndian.word 64 ((m.drop p).take 8)) := by
  rw [unalignedLoad64, Region.read_eq h]
  rfl

/-- What a `memcpy` between regions that are large enough leaves. -/
theorem memcpy_run (src : Bytes) (p : Nat) (dst : Bytes) (op n : Nat) (hp : p + n ≤ src.length)
    (hop : op + n ≤ dst.length) :
    ∃ dst', memcpy src p dst op n = some dst' ∧ dst'.length = dst.length ∧
      (∀ k, k ≤ n → dst'.take (op + k) = dst.take op ++ (src.drop p).take k) ∧
      (∀ k, op + n ≤ k → dst'.drop k = dst.drop k) := by
  have hlen : ((src.drop p).take n).length = n := by
    rw [List.length_take, List.length_drop]
    omega
  obtain ⟨dst', hw⟩ := Region.write_exists (m := dst) (l := (src.drop p).take n) (by rwa [hlen])
  refine ⟨dst', ?_, Region.length_write hw, fun k hk => ?_, fun k hk => ?_⟩
  · rw [memcpy, Region.read_eq hp]
    exact hw
  · rw [Region.take_write_add hw (by rwa [hlen]), List.take_take, Nat.min_eq_left hk]
  · exact Region.drop_write hw (by rwa [hlen])

/-- Two copies in a row move sixteen bytes. -/
theorem unalignedCopy64_twice (src : Bytes) (p : Nat) (dst : Bytes) (op : Nat) (hp : p + 16 ≤ src.length)
    (hop : op + 16 ≤ dst.length) :
    ∃ d₁ d₂, unalignedCopy64 src p dst op = some d₁ ∧ unalignedCopy64 src (p + 8) d₁ (op + 8) = some d₂ ∧
      d₂.length = dst.length ∧ (∀ k, k ≤ 16 → d₂.take (op + k) = dst.take op ++ (src.drop p).take k) ∧
      (∀ k, op + 16 ≤ k → d₂.drop k = dst.drop k) := by
  obtain ⟨d₁, h₁, hl₁, ht₁, hd₁⟩ := memcpy_run src p dst op 8
    (by omega) (by omega)
  obtain ⟨d₂, h₂, hl₂, ht₂, hd₂⟩ := memcpy_run src (p + 8) d₁ (op + 8) 8 (by omega) (by omega)
  have h16 : d₂.take (op + 16) = dst.take op ++ (src.drop p).take 16 := by
    have := ht₂ 8 (Nat.le_refl 8)
    rwa [ht₁ 8 (Nat.le_refl 8), List.append_assoc, ← List.drop_drop, ← List.take_add] at this
  refine ⟨d₁, d₂, h₁, h₂, hl₂.trans hl₁, fun k hk => ?_,
    fun k hk => (hd₂ k (by omega)).trans (hd₁ k (by omega))⟩
  have hlen : (dst.take op).length = op := by rw [List.length_take]; omega
  have := congrArg (List.take (op + k)) h16
  rwa [List.take_take, Nat.min_eq_left (by omega), List.take_append,
    List.take_of_length_le (l := dst.take op) (by omega), List.take_take, hlen, Nat.add_sub_cancel_left,
    Nat.min_eq_left hk] at this

namespace Bits

/-- `__builtin_ctzll`, the version that `HAVE_BUILTIN_CTZ` selects. -/
def findLSBSetNonZero64 (n : BitVec 64) : Nat := n.ctz.toNat

/-- `__builtin_ctz`. -/
def findLSBSetNonZero (n : BitVec 32) : Nat := n.ctz.toNat

/-- `31 ^ __builtin_clz`; `-1` of 0. -/
def log2Floor (n : BitVec 32) : Int := if n = 0 then -1 else ((31 ^^^ n.clz.toNat : Nat) : Int)

end Bits

namespace Varint

/-- The bytes that `Encode32` stores: `v | B` for each group but the last. -/
def encode32 (v : Nat) : Bytes :=
  if v < 1 <<< 7 then [UInt8.ofNat v]
  else if v < 1 <<< 14 then [UInt8.ofNat (v ||| 128), UInt8.ofNat (v >>> 7)]
  else if v < 1 <<< 21 then
    [UInt8.ofNat (v ||| 128), UInt8.ofNat (v >>> 7 ||| 128), UInt8.ofNat (v >>> 14)]
  else if v < 1 <<< 28 then
    [UInt8.ofNat (v ||| 128), UInt8.ofNat (v >>> 7 ||| 128), UInt8.ofNat (v >>> 14 ||| 128),
      UInt8.ofNat (v >>> 21)]
  else
    [UInt8.ofNat (v ||| 128), UInt8.ofNat (v >>> 7 ||| 128), UInt8.ofNat (v >>> 14 ||| 128),
      UInt8.ofNat (v >>> 21 ||| 128), UInt8.ofNat (v >>> 28)]

/-- One round for each `(shift, bound)`: the next byte's seven bits go to `shift`, and a byte below
`bound` is the last. -/
def parseRounds : List (Nat × Nat) → Nat → Bytes → Option (Nat × Bytes)
  | [], _, _ => none
  | (shift, bound) :: rounds, result, ptr =>
    match ptr with
    | [] => none
    | b :: ptr =>
      let result := result ||| ((b.toNat &&& 127) <<< shift) % 2 ^ 32
      if b.toNat < bound then some (result, ptr) else parseRounds rounds result ptr

/-- `Parse32WithLimit`: the value and the bytes behind it. -/
def parse32WithLimit (ptr : Bytes) : Option (Nat × Bytes) :=
  parseRounds [(0, 128), (7, 128), (14, 128), (21, 128), (28, 16)] 0 ptr

theorem ofNat_or_128 (v : Nat) : UInt8.ofNat (v ||| 128) = UInt8.ofNat (v % 128 + 128) := by
  have h : ∀ x : Fin 256, x.val ||| 128 = x.val % 128 + 128 := by decide +kernel
  have hv := h ⟨v % 256, Nat.mod_lt _ (by decide)⟩
  apply UInt8.toNat_inj.mp
  rw [UInt8.toNat_ofNat', UInt8.toNat_ofNat', Nat.or_mod_two_pow]
  simp only [Nat.reducePow, Nat.reduceMod] at hv ⊢
  omega

/-- `Encode32` spells a `uint32` in as few groups as there can be. -/
theorem encode32_eq {v : Nat} (h : v < 2 ^ 32) : encode32 v = Leb128.encode v := by
  have last {n : Nat} (hn : n < 128) : Leb128.encode n = [UInt8.ofNat n] := by
    rw [Leb128.encode, if_pos hn]
  have more {n : Nat} (hn : 128 ≤ n) :
      Leb128.encode n = UInt8.ofNat (n ||| 128) :: Leb128.encode (n >>> 7) := by
    rw [Leb128.encode, if_neg (by omega), ofNat_or_128, Nat.shiftRight_eq_div_pow]
  have shift (n k : Nat) : v >>> n >>> k = v >>> (n + k) := (Nat.shiftRight_add v n k).symm
  have large {n b : Nat} (hn : 2 ^ n * b ≤ v) : b ≤ v >>> n := by
    rwa [Nat.shiftRight_eq_div_pow, Nat.le_div_iff_mul_le (Nat.two_pow_pos n), Nat.mul_comm]
  have small {n b : Nat} (hn : v < 2 ^ n * b) : v >>> n < b := by
    rwa [Nat.shiftRight_eq_div_pow, Nat.div_lt_iff_lt_mul (Nat.two_pow_pos n), Nat.mul_comm]
  unfold encode32
  split
  · next h7 => exact (last h7).symm
  rw [more (by omega)]
  split
  · next h14 => rw [last (small (by omega))]
  rw [more (large (by omega)), shift]
  split
  · next h21 => rw [last (small (by omega))]
  rw [more (large (by omega)), shift]
  split
  · next h28 => rw [last (small (by omega))]
  · rw [more (large (by omega)), shift, last (small (by omega))]

/-- The bits of a round fall above those read before. -/
theorem or_round {s r : Nat} (hr : r < 2 ^ s) (hs : s ≤ 32) (b : Nat) :
    r ||| ((b &&& 127) <<< s) % 2 ^ 32 = r + (b % 128 * 2 ^ s) % 2 ^ 32 := by
  have h127 : b &&& 127 = b % 128 := Nat.and_two_pow_sub_one_eq_mod b 7
  have h32 : 2 ^ 32 = 2 ^ s * 2 ^ (32 - s) := by
    rw [← Nat.pow_add]
    congr 1
    omega
  rw [h127, Nat.shiftLeft_eq, Nat.mul_comm, h32, Nat.mul_mod_mul_left, Nat.or_comm,
    ← Nat.two_pow_add_eq_or_of_lt hr, Nat.add_comm]

/-- What `rounds` reads behind a result that fills the bits below `s`: a LEB128 number of at most `k`
bytes, and below `2 ^ (32 - s)` when the last round is `strict`. -/
def Reads (rounds : List (Nat × Nat)) (strict : Prop) (k s : Nat) : Prop :=
  ∀ r, r < 2 ^ s → ∀ ptr v rest, parseRounds rounds r ptr = some (v, rest) ↔
    ∃ m, Leb128.decode ptr = some (m, rest) ∧ ptr.length ≤ rest.length + k ∧
      (strict → m * 2 ^ s < 2 ^ 32) ∧ v = r + m * 2 ^ s % 2 ^ 32

theorem Reads.last {bound : Nat} {strict : Prop} (hb : bound ≤ 128)
    (hs : ∀ b < 128, b < bound ↔ (strict → b * 2 ^ 28 < 2 ^ 32)) :
    Reads [(28, bound)] strict 1 28 := by
  intro r hr ptr v rest
  obtain _ | ⟨b, ptr⟩ := ptr
  · simp [parseRounds, Leb128.decode]
  rw [parseRounds, or_round hr (by decide)]
  simp only [parseRounds]
  rcases Nat.lt_or_ge b.toNat 128 with hlt | hge
  · rw [Leb128.decode_cons_of_lt hlt, Nat.mod_eq_of_lt hlt]
    constructor
    · intro h
      obtain ⟨hbd, ⟨⟩⟩ := Option.ite_none_right_eq_some.mp h
      exact ⟨b.toNat, rfl, Nat.le_refl _, (hs _ hlt).mp hbd, rfl⟩
    · rintro ⟨m, hm, -, hfit, rfl⟩
      obtain ⟨rfl, rfl⟩ := Prod.mk.inj (Option.some.inj hm)
      rw [if_pos ((hs _ hlt).mpr hfit)]
  · rw [if_neg (by omega)]
    refine ⟨fun h => (by cases h), ?_⟩
    rintro ⟨m, hm, hlen, -⟩
    obtain ⟨m', hm', -⟩ := (Leb128.decode_cons_of_le hge).mp hm
    have := (Leb128.decode_lt hm').1
    rw [List.length_cons] at hlen
    omega

theorem Reads.cons {rounds : List (Nat × Nat)} {strict : Prop} {k s : Nat} (hs : s + 7 ≤ 28)
    (h : Reads rounds strict k (s + 7)) : Reads ((s, 128) :: rounds) strict (k + 1) s := by
  intro r hr ptr v rest
  obtain _ | ⟨b, ptr⟩ := ptr
  · simp [parseRounds, Leb128.decode]
  obtain ⟨q, hq, h32⟩ : ∃ q, 0 < q ∧ 2 ^ 32 = 2 ^ s * 128 * q := by
    refine ⟨2 ^ (32 - (s + 7)), Nat.two_pow_pos _, ?_⟩
    rw [show 2 ^ s * 128 = 2 ^ (s + 7) from (Nat.pow_add 2 s 7).symm, ← Nat.pow_add]
    congr 1
    omega
  have h7 : 2 ^ (s + 7) = 2 ^ s * 128 := Nat.pow_add 2 s 7
  have hs0 := Nat.two_pow_pos s
  have hmod : b.toNat % 128 * 2 ^ s < 2 ^ s * 128 := by
    rw [Nat.mul_comm]
    exact Nat.mul_lt_mul_of_pos_left (Nat.mod_lt _ (by decide)) hs0
  have hle : 2 ^ s * 128 ≤ 2 ^ 32 := h32 ▸ Nat.le_mul_of_pos_right _ hq
  rw [parseRounds, or_round hr (by omega), Nat.mod_eq_of_lt (Nat.lt_of_lt_of_le hmod hle)]
  rcases Nat.lt_or_ge b.toNat 128 with hlt | hge
  · simp only [if_pos hlt]
    rw [Leb128.decode_cons_of_lt hlt, Nat.mod_eq_of_lt hlt]
    rw [Nat.mod_eq_of_lt hlt] at hmod
    constructor
    · rintro ⟨⟩
      refine ⟨b.toNat, rfl, ?_, fun _ => Nat.lt_of_lt_of_le hmod hle, ?_⟩
      · rw [List.length_cons]
        omega
      · rw [Nat.mod_eq_of_lt (Nat.lt_of_lt_of_le hmod hle)]
    · rintro ⟨m, hm, -, -, rfl⟩
      obtain ⟨rfl, rfl⟩ := Prod.mk.inj (Option.some.inj hm)
      rw [Nat.mod_eq_of_lt (Nat.lt_of_lt_of_le hmod hle)]
  · simp only [if_neg (Nat.not_lt.mpr hge)]
    have hb := b.toNat_lt
    have hbm : b.toNat % 128 = b.toNat - 128 := by omega
    rw [hbm] at hmod ⊢
    -- the groups that follow stand `2 ^ 7` higher, and the sum stays below a multiple of it
    have hsum (m : Nat) : (b.toNat - 128 + 128 * m) * 2 ^ s =
        (b.toNat - 128) * 2 ^ s + 2 ^ s * 128 * m := by
      rw [Nat.add_mul, Nat.mul_comm (128 * m), Nat.mul_assoc (2 ^ s)]
    have hfit (m : Nat) : m * 2 ^ (s + 7) < 2 ^ 32 ↔ (b.toNat - 128 + 128 * m) * 2 ^ s < 2 ^ 32 := by
      rw [hsum, h7, h32, Nat.mul_comm m]
      constructor
      · intro hm
        have := Nat.mul_le_mul_left (2 ^ s * 128) (Nat.lt_of_mul_lt_mul_left hm)
        rw [Nat.mul_succ] at this
        omega
      · omega
    have hval (m : Nat) : (b.toNat - 128) * 2 ^ s + m * 2 ^ (s + 7) % 2 ^ 32 =
        (b.toNat - 128 + 128 * m) * 2 ^ s % 2 ^ 32 := by
      rw [hsum, h7, h32, Nat.mul_comm m, Nat.mul_mod_mul_left]
      conv_rhs => rw [Nat.mul_assoc (2 ^ s), Nat.add_comm, ← Nat.mul_assoc,
        Nat.mod_mul, Nat.mul_add_mod, Nat.mod_eq_of_lt hmod, Nat.mul_add_div (by omega),
        Nat.div_eq_of_lt hmod, Nat.add_zero]
    have hr' : r + (b.toNat - 128) * 2 ^ s < 2 ^ (s + 7) := by
      have := Nat.mul_le_mul_right (2 ^ s) (show b.toNat - 128 ≤ 127 by omega)
      omega
    rw [h _ hr' ptr v rest]
    constructor
    · rintro ⟨m, hm, hlen, hst, rfl⟩
      refine ⟨_, (Leb128.decode_cons_of_le hge).mpr ⟨m, hm, rfl⟩, ?_, fun h => (hfit m).mp (hst h), ?_⟩
      · rw [List.length_cons]
        omega
      · rw [Nat.add_assoc, hval]
    · rintro ⟨n, hn, hlen, hst, rfl⟩
      obtain ⟨m, hm, rfl⟩ := (Leb128.decode_cons_of_le hge).mp hn
      refine ⟨m, hm, ?_, fun h => (hfit m).mpr (hst h), ?_⟩
      · rw [List.length_cons] at hlen
        omega
      · rw [Nat.add_assoc, hval]

/-- The five rounds, with the bound of the last. -/
theorem reads_rounds (bound : Nat) (strict : Prop) (hb : bound ≤ 128)
    (hs : ∀ b < 128, b < bound ↔ (strict → b * 2 ^ 28 < 2 ^ 32)) :
    Reads [(0, 128), (7, 128), (14, 128), (21, 128), (28, bound)] strict 5 0 :=
  .cons (by decide) <| .cons (by decide) <| .cons (by decide) <| .cons (by decide) <| .last hb hs

/-- `Parse32WithLimit` takes the LEB128 numbers below 2^32 that have at most five bytes. -/
theorem parse32WithLimit_eq_some {ptr rest : Bytes} {v : Nat} :
    parse32WithLimit ptr = some (v, rest) ↔
      Leb128.decode ptr = some (v, rest) ∧ ptr.length ≤ rest.length + 5 ∧ v < 2 ^ 32 := by
  rw [parse32WithLimit, reads_rounds _ True (by decide) (fun b hb => by simp; omega) 0
    (by decide)]
  constructor
  · rintro ⟨m, hm, hlen, hfit, rfl⟩
    have hfit := hfit trivial
    rw [Nat.pow_zero, Nat.mul_one] at hfit ⊢
    rw [Nat.zero_add, Nat.mod_eq_of_lt hfit]
    exact ⟨hm, hlen, hfit⟩
  · rintro ⟨hm, hlen, hfit⟩
    refine ⟨v, hm, hlen, fun _ => by omega, ?_⟩
    rw [Nat.pow_zero, Nat.mul_one, Nat.mod_eq_of_lt hfit, Nat.zero_add]

/-- What `Encode32` stores is read back, whatever follows. -/
theorem parse32WithLimit_encode32 {v : Nat} (h : v < 2 ^ 32) (rest : Bytes) :
    parse32WithLimit (encode32 v ++ rest) = some (v, rest) := by
  have hlen : (Leb128.encode v).length ≤ 5 := Leb128.length_encode_le_of_lt (by omega)
  rw [parse32WithLimit_eq_some, encode32_eq h]
  refine ⟨Leb128.decode_encode v rest, ?_, h⟩
  rw [List.length_append]
  omega

/-- Of all spellings of a number that `Parse32WithLimit` takes, `Encode32` stores the shortest. -/
theorem encode32_shortest {ptr rest : Bytes} {v : Nat} (h : parse32WithLimit ptr = some (v, rest)) :
    parse32WithLimit (encode32 v ++ rest) = some (v, rest) ∧
      (encode32 v).length + rest.length ≤ ptr.length := by
  obtain ⟨hd, -, hlt⟩ := parse32WithLimit_eq_some.mp h
  refine ⟨parse32WithLimit_encode32 hlt rest, ?_⟩
  rw [encode32_eq hlt]
  exact Leb128.length_encode_le hd

/-- A 5 spelled in five bytes. -/
theorem encode32_shortest_sample :
    parse32WithLimit (encode32 5 ++ [7]) = some (5, [7]) ∧ (encode32 5).length + 1 ≤ 6 :=
  encode32_shortest (show parse32WithLimit [133, 128, 128, 128, 0, 7] = some (5, [7]) from rfl)

end Varint

end Snappy
