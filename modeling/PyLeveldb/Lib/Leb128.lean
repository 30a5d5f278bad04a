import Mathlib.Algebra.Group.Nat.Defs
import Mathlib.Data.List.Basic

/-!
# Numbers in groups of seven bits

A number as bytes of seven bits each, lowest first; every byte but the last has its high bit set.

* `decode_encode`: what was encoded is read back, with the bytes behind it.
* `length_encode_le`: `encode` takes no more bytes than any other spelling of the number.
-/

namespace Leb128

/-- The bytes of `n`. -/
def encode (n : Nat) : List UInt8 :=
  if n < 128 then [UInt8.ofNat n] else UInt8.ofNat (n % 128 + 128) :: encode (n / 128)
termination_by n
decreasing_by omega

/-- The number at the start of the bytes, and the bytes behind it. -/
def decode : List UInt8 → Option (Nat × List UInt8)
  | [] => none
  | b :: l =>
    if b.toNat < 128 then some (b.toNat, l)
    else (decode l).map fun (m, rest) => (b.toNat - 128 + 128 * m, rest)

theorem decode_cons_of_lt {b : UInt8} (h : b.toNat < 128) (l : List UInt8) :
    decode (b :: l) = some (b.toNat, l) := by rw [decode, if_pos h]

theorem decode_cons_of_le {b : UInt8} (h : 128 ≤ b.toNat) {l : List UInt8} {n : Nat} {rest : List UInt8} :
    decode (b :: l) = some (n, rest) ↔
      ∃ m, decode l = some (m, rest) ∧ n = b.toNat - 128 + 128 * m := by
  rw [decode, if_neg (by omega), Option.map_eq_some_iff]
  constructor
  · rintro ⟨⟨m, l'⟩, hm, heq⟩
    obtain ⟨rfl, rfl⟩ := Prod.mk.inj heq
    exact ⟨m, hm, rfl⟩
  · rintro ⟨m, hm, rfl⟩
    exact ⟨(m, rest), hm, rfl⟩

theorem toNat_last {n : Nat} (h : n < 128) : (UInt8.ofNat n).toNat = n := by
  rw [UInt8.toNat_ofNat']
  omega

theorem toNat_more (n : Nat) : (UInt8.ofNat (n % 128 + 128)).toNat = n % 128 + 128 := by
  rw [UInt8.toNat_ofNat']
  omega

theorem decode_encode (n : Nat) (rest : List UInt8) : decode (encode n ++ rest) = some (n, rest) := by
  induction n using Nat.strongRecOn with
  | ind n ih =>
    rw [encode]
    split
    · next h => rw [List.singleton_append, decode_cons_of_lt (by rwa [toNat_last h]), toNat_last h]
    · next h =>
      rw [List.cons_append, decode_cons_of_le (by rw [toNat_more]; omega), toNat_more]
      exact ⟨n / 128, ih _ (by omega), by omega⟩

/-- A number of `k + 1` groups takes at most as many bytes. -/
theorem length_encode_le_of_lt {k n : Nat} (h : n < 128 ^ (k + 1)) : (encode n).length ≤ k + 1 := by
  induction k generalizing n with
  | zero => rw [encode, if_pos (by omega)]; exact Nat.le_refl 1
  | succ k ih =>
    rw [encode]
    split
    · exact Nat.le_add_left 1 _
    · rw [List.length_cons]
      have := ih (n := n / 128) (by rw [Nat.div_lt_iff_lt_mul (by decide), ← Nat.pow_succ]; exact h)
      omega

/-- What is read has a group for each byte taken. -/
theorem decode_lt {l rest : List UInt8} {n : Nat} (h : decode l = some (n, rest)) :
    rest.length < l.length ∧ n < 128 ^ (l.length - rest.length) := by
  induction l generalizing n with
  | nil => exact absurd h (by rw [decode]; exact fun h => by cases h)
  | cons b l ih =>
    rcases Nat.lt_or_ge b.toNat 128 with hb | hb
    · rw [decode_cons_of_lt hb] at h
      obtain ⟨rfl, rfl⟩ := Prod.mk.inj (Option.some.inj h)
      rw [List.length_cons, Nat.add_sub_cancel_left]
      exact ⟨Nat.lt_succ_self _, hb⟩
    · obtain ⟨m, hm, rfl⟩ := (decode_cons_of_le hb).mp h
      obtain ⟨hlen, hlt⟩ := ih hm
      have hb' := b.toNat_lt
      rw [List.length_cons, Nat.sub_add_comm (by omega), Nat.pow_succ]
      exact ⟨by omega, by omega⟩

/-- No spelling of `n` is shorter. -/
theorem length_encode_le {l rest : List UInt8} {n : Nat} (h : decode l = some (n, rest)) :
    (encode n).length + rest.length ≤ l.length := by
  obtain ⟨hlen, hlt⟩ := decode_lt h
  obtain ⟨k, hk⟩ : ∃ k, l.length - rest.length = k + 1 := ⟨l.length - rest.length - 1, by omega⟩
  rw [hk] at hlt
  have := length_encode_le_of_lt hlt
  omega

end Leb128
