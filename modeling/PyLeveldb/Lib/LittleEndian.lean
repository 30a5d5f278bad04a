import Mathlib.Data.List.Basic
import Mathlib.Data.Nat.Bitwise

/-!
# Little endian words

* `toNat` and `ofNat`: the number that bytes stand for, lowest byte first, and the bytes of a number.
* `word`: the bytes as a machine word. `ctz_xor_word`: the lowest bit in which two words differ lies
  in the first byte in which they differ.
-/

namespace LittleEndian

/-- The number of `bytes`, lowest byte first. -/
def toNat : List UInt8 → Nat
  | [] => 0
  | b :: bytes => b.toNat + 2 ^ 8 * toNat bytes

/-- The `k` lowest bytes of `n`, lowest byte first. -/
def ofNat : Nat → Nat → List UInt8
  | 0, _ => []
  | k + 1, n => UInt8.ofNat n :: ofNat k (n / 2 ^ 8)

@[simp] theorem length_ofNat (k n : Nat) : (ofNat k n).length = k := by
  induction k generalizing n with
  | zero => rfl
  | succ k ih => rw [ofNat, List.length_cons, ih]

theorem toNat_ofNat (k n : Nat) : toNat (ofNat k n) = n % 2 ^ (8 * k) := by
  induction k generalizing n with
  | zero => rw [Nat.mul_zero, Nat.pow_zero, Nat.mod_one]; rfl
  | succ k ih =>
    rw [ofNat, toNat, ih, UInt8.toNat_ofNat', Nat.mul_add, Nat.mul_one, Nat.add_comm (8 * k), Nat.pow_add,
      Nat.mod_mul]

theorem toNat_lt (l : List UInt8) : toNat l < 2 ^ (8 * l.length) := by
  induction l with
  | nil => exact Nat.one_pos
  | cons b l ih =>
    have hb := b.toNat_lt
    rw [toNat, List.length_cons, Nat.mul_add, Nat.mul_one, Nat.add_comm (8 * l.length), Nat.pow_add]
    omega

theorem toNat_append (l l' : List UInt8) :
    toNat (l ++ l') = toNat l + 2 ^ (8 * l.length) * toNat l' := by
  induction l with
  | nil => rw [List.nil_append, List.length_nil, Nat.mul_zero, Nat.pow_zero, Nat.one_mul, toNat, Nat.zero_add]
  | cons b l ih =>
    rw [List.cons_append, toNat, ih, toNat, List.length_cons, Nat.mul_add 8, Nat.mul_one,
      Nat.add_comm (8 * l.length), Nat.pow_add, Nat.mul_add, Nat.mul_assoc, Nat.add_assoc]

/-- The lower bytes are the remainder. -/
theorem toNat_take (l : List UInt8) (k : Nat) : toNat (l.take k) = toNat l % 2 ^ (8 * k) := by
  rcases Nat.lt_or_ge l.length k with hk | hk
  · rw [List.take_of_length_le (by omega), Nat.mod_eq_of_lt]
    exact Nat.lt_of_lt_of_le (toNat_lt l) (Nat.pow_le_pow_right (by decide) (by omega))
  · have hlen : (l.take k).length = k := by rw [List.length_take]; omega
    have hlt := toNat_lt (l.take k)
    conv_rhs => rw [← List.take_append_drop k l, toNat_append]
    rw [hlen] at hlt ⊢
    rw [Nat.add_mul_mod_self_left, Nat.mod_eq_of_lt hlt]

/-- The upper bytes are the quotient. -/
theorem toNat_drop (l : List UInt8) (k : Nat) : toNat (l.drop k) = toNat l / 2 ^ (8 * k) := by
  rcases Nat.lt_or_ge l.length k with hk | hk
  · rw [List.drop_of_length_le (by omega), Nat.div_eq_of_lt]
    · rfl
    · exact Nat.lt_of_lt_of_le (toNat_lt l) (Nat.pow_le_pow_right (by decide) (by omega))
  · have hlen : (l.take k).length = k := by rw [List.length_take]; omega
    have hlt := toNat_lt (l.take k)
    conv_rhs => rw [← List.take_append_drop k l, toNat_append]
    rw [hlen] at hlt ⊢
    rw [Nat.add_mul_div_left _ _ (Nat.two_pow_pos _), Nat.div_eq_of_lt hlt, Nat.zero_add]

/-- Bit `j` is a bit of byte `j / 8`. -/
theorem testBit_toNat (l : List UInt8) (j : Nat) :
    (toNat l).testBit j = (l[j / 8]?.getD 0).toNat.testBit (j % 8) := by
  induction l generalizing j with
  | nil => rw [toNat, List.getElem?_nil]; exact (Nat.zero_testBit _).trans (Nat.zero_testBit _).symm
  | cons b l ih =>
    rw [toNat, Nat.add_comm, Nat.testBit_two_pow_mul_add _ b.toNat_lt]
    split
    · next hj => rw [Nat.div_eq_of_lt hj, Nat.mod_eq_of_lt hj, List.getElem?_cons_zero]; rfl
    · next hj =>
      obtain ⟨k, rfl⟩ : ∃ k, j = k + 8 := ⟨j - 8, by omega⟩
      rw [Nat.add_sub_cancel, ih, show (k + 8) / 8 = k / 8 + 1 by omega, List.getElem?_cons_succ,
        Nat.add_mod_right]

theorem toNat_inj {l l' : List UInt8} (hlen : l.length = l'.length) (h : toNat l = toNat l') : l = l' := by
  induction l generalizing l' with
  | nil => exact (List.eq_nil_of_length_eq_zero hlen.symm).symm
  | cons b l ih =>
    obtain _ | ⟨b', l'⟩ := l'
    · exact absurd hlen (Nat.succ_ne_zero _)
    · have hb := b.toNat_lt
      have hb' := b'.toNat_lt
      simp only [toNat] at h
      rw [ih (Nat.succ.inj hlen) (by omega), UInt8.toNat_inj.mp (show b.toNat = b'.toNat by omega)]

/-- The machine word that `l` is in memory. -/
def word (w : Nat) (l : List UInt8) : BitVec w := BitVec.ofNat w (toNat l)

theorem toNat_word {w : Nat} {l : List UInt8} (h : 8 * l.length ≤ w) : (word w l).toNat = toNat l := by
  rw [word, BitVec.toNat_ofNat, Nat.mod_eq_of_lt]
  exact Nat.lt_of_lt_of_le (toNat_lt l) (Nat.pow_le_pow_right (by decide) h)

theorem word_inj {w : Nat} {l l' : List UInt8} (hl : 8 * l.length ≤ w) (hlen : l.length = l'.length) :
    word w l = word w l' ↔ l = l' := by
  refine ⟨fun h => toNat_inj hlen ?_, fun h => by rw [h]⟩
  have := congrArg BitVec.toNat h
  rwa [toNat_word hl, toNat_word (by omega)] at this

/-- The first byte in which two words differ, from the lowest bit in which they do. -/
theorem ctz_xor_word {w : Nat} {l l' : List UInt8} (hl : 8 * l.length = w) (hlen : l.length = l'.length)
    (hne : word w l ≠ word w l') {n : Nat}
    (hn : (word w l ^^^ word w l').ctz.toNat / 8 = n) :
    l.take n = l'.take n ∧ l[n]? ≠ l'[n]? ∧ n < l.length := by
  obtain ⟨x, hx⟩ : ∃ x, word w l ^^^ word w l' = x := ⟨_, rfl⟩
  rw [hx] at hn
  have hx0 : x ≠ 0#w := fun h => hne (BitVec.xor_eq_zero_iff.mp (hx.trans h))
  have hbit (j : Nat) (hj : j < w) : x.getLsbD j =
      ((l[j / 8]?.getD 0).toNat.testBit (j % 8) ^^ (l'[j / 8]?.getD 0).toNat.testBit (j % 8)) := by
    rw [← hx, BitVec.getLsbD_xor, word, word, BitVec.getLsbD_ofNat, BitVec.getLsbD_ofNat,
      testBit_toNat, testBit_toNat, decide_eq_true hj, Bool.true_and, Bool.true_and]
  have hlt : x.ctz.toNat < w := by
    have := BitVec.lt_def.mp (BitVec.ctz_lt_iff_ne_zero.mpr hx0)
    refine Nat.lt_of_lt_of_le this ?_
    rw [BitVec.natCast_eq_ofNat, BitVec.toNat_ofNat]
    exact Nat.mod_le _ _
  have hn' : n < l.length := by omega
  refine ⟨?_, ?_, hn'⟩
  · apply List.ext_getElem?
    intro k
    rw [List.getElem?_take, List.getElem?_take]
    split
    · next hk =>
      rw [List.getElem?_eq_getElem (by omega), List.getElem?_eq_getElem (by omega)]
      refine congrArg some (UInt8.toNat_inj.mp (Nat.eq_of_testBit_eq fun i => ?_))
      rcases Nat.lt_or_ge i 8 with hi | hi
      · have h0 := BitVec.getLsbD_false_of_lt_ctz (x := x) (i := 8 * k + i) (by omega)
        rw [hbit _ (by omega), show (8 * k + i) / 8 = k by omega, show (8 * k + i) % 8 = i by omega,
          List.getElem?_eq_getElem (by omega), List.getElem?_eq_getElem (by omega)] at h0
        simpa using h0
      · rw [Nat.testBit_lt_two_pow, Nat.testBit_lt_two_pow]
        · exact Nat.lt_of_lt_of_le (UInt8.toNat_lt _) (Nat.pow_le_pow_right (by decide) hi)
        · exact Nat.lt_of_lt_of_le (UInt8.toNat_lt _) (Nat.pow_le_pow_right (by decide) hi)
    · rfl
  · intro heq
    have h1 := BitVec.getLsbD_true_ctz_of_ne_zero hx0
    rw [hbit _ hlt, hn, heq, Bool.xor_self] at h1
    exact absurd h1 (by decide)

end LittleEndian
