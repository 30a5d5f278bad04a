import PyLeveldb.Snappy.Stubs

/-!
# Bit scans without builtins (`snappy-stubs-internal.h`)

`Bits` exists twice: over `__builtin_clz` and `__builtin_ctz`, and over loops that halve the shift.

* `log2Rounds_run`, `lsbRounds_run`: the two loops.
* `portable_eq`: the versions agree, and the assertion in `Log2Floor` holds.
-/

namespace Snappy.Bits

namespace Portable

/-- The loop of `Log2Floor`, from `i - 1` down: `value` and `log`. -/
def log2Rounds : Nat → BitVec 32 → Nat → BitVec 32 × Nat
  | 0, value, log => (value, log)
  | i + 1, value, log =>
    let shift := 1 <<< i
    let x := value >>> shift
    if x ≠ 0 then log2Rounds i x (log + shift) else log2Rounds i value log

def log2Floor (n : BitVec 32) : Option Int :=
  if n = 0 then some (-1)
  else do
    let (value, log) := log2Rounds 5 n 0
    guard (value = 1)
    some log

/-- The loop of `FindLSBSetNonZero`, from `i - 1` down: `rc`. -/
def lsbRounds : Nat → BitVec 32 → Int → Nat → Int
  | 0, _, rc, _ => rc
  | i + 1, n, rc, shift =>
    let x := n <<< shift
    if x ≠ 0 then lsbRounds i x (rc - shift) (shift >>> 1) else lsbRounds i n rc (shift >>> 1)

def findLSBSetNonZero (n : BitVec 32) : Int := lsbRounds 5 n 31 (1 <<< 4)

def findLSBSetNonZero64 (n : BitVec 64) : Int :=
  let bottombits := n.setWidth 32
  if bottombits = 0 then 32 + findLSBSetNonZero ((n >>> 32).setWidth 32)
  else findLSBSetNonZero bottombits

end Portable

/-! ## The highest bit -/

/-- Of the bits from `log` on no more than `2 ^ i` are left. -/
theorem log2Rounds_run (i : Nat) {n value : BitVec 32} {log : Nat} (h0 : value ≠ 0)
    (hv : value.toNat = n.toNat / 2 ^ log) (hlt : value.toNat < 2 ^ 2 ^ i) :
    ∃ log', Portable.log2Rounds i value log = (1, log') ∧ n.toNat / 2 ^ log' = 1 := by
  induction i generalizing value log with
  | zero =>
    have hpos : value.toNat ≠ 0 := fun h => h0 (BitVec.eq_of_toNat_eq h)
    have h1 : value.toNat = 1 := by omega
    exact ⟨log, by rw [Portable.log2Rounds, show value = 1 from BitVec.eq_of_toNat_eq h1], hv ▸ h1⟩
  | succ i ih =>
    have hx : (value >>> (1 <<< i)).toNat = value.toNat / 2 ^ 2 ^ i := by
      rw [BitVec.toNat_ushiftRight, Nat.shiftRight_eq_div_pow, Nat.one_shiftLeft]
    have hsq : 2 ^ 2 ^ (i + 1) = 2 ^ 2 ^ i * 2 ^ 2 ^ i := by
      rw [← Nat.pow_add, Nat.pow_succ, Nat.mul_two]
    rw [Portable.log2Rounds]
    split
    · next hne =>
      refine ih hne ?_ ?_
      · rw [hx, hv, Nat.div_div_eq_div_mul, Nat.pow_add, Nat.one_shiftLeft]
      · rw [hx, Nat.div_lt_iff_lt_mul (Nat.two_pow_pos _), ← hsq]
        exact hlt
    · next hz =>
      have hzero : value.toNat / 2 ^ 2 ^ i = 0 := by
        rw [← hx, not_not.mp hz]
        rfl
      exact ih h0 hv (Nat.lt_of_div_eq_zero (Nat.two_pow_pos _) hzero)

theorem log2Floor_portable (n : BitVec 32) : Portable.log2Floor n = some (log2Floor n) := by
  rw [Portable.log2Floor, log2Floor]
  split
  · rfl
  · next h0 =>
    obtain ⟨log, hr, hlog⟩ := log2Rounds_run 5 h0
      (show n.toNat = n.toNat / 2 ^ 0 from (Nat.div_one _).symm) n.isLt
    have hlow := BitVec.two_pow_sub_clz_le_toNat_of_ne_zero (x := n) (by decide) h0
    have hhigh := BitVec.toNat_lt_two_pow_sub_clz (x := n)
    have hc : n.clz.toNat < 32 := BitVec.lt_def.mp (BitVec.clz_lt_iff_ne_zero.mpr h0)
    have hxor : ∀ c : Fin 32, 31 ^^^ c.val = 31 - c.val := by decide
    have hge : 2 ^ log ≤ n.toNat := by
      have := Nat.div_mul_le_self n.toNat (2 ^ log)
      rwa [hlog, Nat.one_mul] at this
    have hlt : n.toNat < 2 ^ (log + 1) := by
      rw [Nat.pow_succ, Nat.mul_comm, ← Nat.div_lt_iff_lt_mul (Nat.two_pow_pos _), hlog]
      exact Nat.lt_succ_self 1
    have h1 := (Nat.pow_lt_pow_iff_right (a := 2) (by decide)).mp (Nat.lt_of_le_of_lt hge hhigh)
    have h2 := (Nat.pow_lt_pow_iff_right (a := 2) (by decide)).mp (Nat.lt_of_le_of_lt hlow hlt)
    rw [hr, hxor ⟨_, hc⟩]
    dsimp only
    rw [guard_of rfl, some_bind, show log = 31 - n.clz.toNat by omega]

/-! ## The lowest bit -/

/-- The bit `p` is set, and none below it. -/
def IsLowest {w : Nat} (n : BitVec w) (p : Nat) : Prop :=
  n.getLsbD p = true ∧ ∀ j, j < p → n.getLsbD j = false

theorem IsLowest.unique {w p p' : Nat} {n : BitVec w} (h : IsLowest n p) (h' : IsLowest n p') : p = p' := by
  rcases Nat.lt_trichotomy p p' with hlt | rfl | hgt
  · exact absurd (h'.2 p hlt) (by rw [h.1]; decide)
  · rfl
  · exact absurd (h.2 p' hgt) (by rw [h'.1]; decide)

theorem isLowest_ctz {w : Nat} {n : BitVec w} (h : n ≠ 0) : IsLowest n n.ctz.toNat :=
  ⟨BitVec.getLsbD_true_ctz_of_ne_zero h, fun _ => BitVec.getLsbD_false_of_lt_ctz⟩

/-- A shift moves the lowest bit, or shifts everything out. -/
theorem IsLowest.shift {w p s : Nat} {n : BitVec w} (h : IsLowest n p) :
    n <<< s = 0 ∧ w ≤ p + s ∨ n <<< s ≠ 0 ∧ IsLowest (n <<< s) (p + s) := by
  rcases Nat.lt_or_ge (p + s) w with hlt | hge
  · have hbit : (n <<< s).getLsbD (p + s) = true := by
      rw [BitVec.getLsbD_shiftLeft, Nat.add_sub_cancel, h.1, decide_eq_true hlt]
      simp
    refine .inr ⟨fun hz => ?_, hbit, fun j hj => ?_⟩
    · rw [hz] at hbit
      simp at hbit
    · rw [BitVec.getLsbD_shiftLeft]
      rcases Nat.lt_or_ge j s with hs | hs
      · rw [decide_eq_true hs]
        simp
      · rw [h.2 (j - s) (by omega), Bool.and_false]
  · refine .inl ⟨BitVec.eq_of_getLsbD_eq fun j hj => ?_, hge⟩
    rw [BitVec.getLsbD_shiftLeft]
    rcases Nat.lt_or_ge j s with hs | hs
    · rw [decide_eq_true hs]
      simp
    · rw [h.2 (j - s) (by omega), Bool.and_false]
      simp

/-- The lowest bit is one of the last `2 ^ i`, and `rc` says where it was. -/
theorem lsbRounds_run (i : Nat) {n : BitVec 32} {p shift : Nat} {rc : Int} (h : IsLowest n p)
    (hp : p < 32) (hlow : 32 ≤ p + 2 ^ i) (hs : i = 0 ∨ 2 * shift = 2 ^ i) :
    Portable.lsbRounds i n rc shift = rc + p - 31 := by
  induction i generalizing n p shift rc with
  | zero =>
    rw [Portable.lsbRounds]
    omega
  | succ i ih =>
    obtain rfl : shift = 2 ^ i := by
      have := hs.resolve_left (Nat.succ_ne_zero i)
      rw [Nat.pow_succ] at this
      omega
    have hnext : i = 0 ∨ 2 * (2 ^ i >>> 1) = 2 ^ i := by
      rcases i with _ | i
      · exact .inl rfl
      · right
        rw [Nat.shiftRight_eq_div_pow, Nat.pow_succ]
        omega
    rw [Nat.pow_succ] at hlow
    rw [Portable.lsbRounds]
    rcases h.shift (s := 2 ^ i) with ⟨hz, hge⟩ | ⟨hne, h'⟩
    · rw [if_neg (not_not.mpr hz)]
      exact ih h hp hge hnext
    · rw [if_pos hne, ih h' (BitVec.lt_of_getLsbD h'.1) (by omega) hnext]
      push_cast
      omega

theorem findLSBSetNonZero_portable {n : BitVec 32} {p : Nat} (hl : IsLowest n p) :
    Portable.findLSBSetNonZero n = p := by
  have hp := BitVec.lt_of_getLsbD hl.1
  rw [Portable.findLSBSetNonZero, lsbRounds_run 5 hl hp (by omega) (.inr rfl)]
  omega

/-- The lower half has the lowest bit of the whole, or is zero; then the upper half has it. -/
theorem IsLowest.halves {n : BitVec 64} {p : Nat} (h : IsLowest n p) :
    n.setWidth 32 = 0 ∧ 32 ≤ p ∧ IsLowest ((n >>> 32).setWidth 32) (p - 32) ∨
      n.setWidth 32 ≠ 0 ∧ IsLowest (n.setWidth 32) p := by
  have hp := BitVec.lt_of_getLsbD h.1
  have hlow (j : Nat) : (n.setWidth 32).getLsbD j = (decide (j < 32) && n.getLsbD j) :=
    BitVec.getLsbD_setWidth 32 n j
  have hhigh (j : Nat) : ((n >>> 32).setWidth 32).getLsbD j = (decide (j < 32) && n.getLsbD (32 + j)) := by
    rw [BitVec.getLsbD_setWidth, BitVec.getLsbD_ushiftRight]
  rcases Nat.lt_or_ge p 32 with hlt | hge
  · have hbit : (n.setWidth 32).getLsbD p = true := by rw [hlow, h.1, decide_eq_true hlt]; rfl
    refine .inr ⟨fun hz => ?_, hbit, fun j hj => ?_⟩
    · rw [hz] at hbit
      simp at hbit
    · rw [hlow, h.2 j hj, Bool.and_false]
  · refine .inl ⟨BitVec.eq_of_getLsbD_eq fun j hj => ?_, hge, ?_, fun j hj => ?_⟩
    · rw [hlow, h.2 j (by omega), Bool.and_false]
      simp
    · rw [hhigh, Nat.add_sub_cancel' hge, h.1, decide_eq_true (by omega)]
      rfl
    · rw [hhigh, h.2 (32 + j) (by omega), Bool.and_false]

/-- **The two versions of `Bits`** agree on every number for which the result is defined, and the
assertion in the portable `Log2Floor` holds. -/
theorem portable_eq :
    (∀ n, Portable.log2Floor n = some (log2Floor n)) ∧
      (∀ n, n ≠ 0 → Portable.findLSBSetNonZero n = findLSBSetNonZero n) ∧
      ∀ n, n ≠ 0 → Portable.findLSBSetNonZero64 n = findLSBSetNonZero64 n := by
  refine ⟨log2Floor_portable, fun n h => findLSBSetNonZero_portable (isLowest_ctz h), fun n h => ?_⟩
  have hl := isLowest_ctz h
  rw [Portable.findLSBSetNonZero64]
  rcases hl.halves with ⟨hz, hge, hhigh⟩ | ⟨hne, hlow⟩
  · rw [if_pos hz, findLSBSetNonZero_portable hhigh, findLSBSetNonZero64]
    omega
  · rw [if_neg hne, findLSBSetNonZero_portable hlow]
    rfl

end Snappy.Bits
