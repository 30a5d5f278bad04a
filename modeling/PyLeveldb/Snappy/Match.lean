import PyLeveldb.Snappy.Stubs

/-!
# Matches and hashes (`snappy-internal.h`, `snappy.cc`)

`FindMatchLength` and `GetEightBytesAt` exist twice, for x86-64 and for other hosts.

* `findMatchLength_run`: either finds the largest number of bytes that agree. `findMatchLength_arch`: so
  they are the same function, and read nothing at the limit or behind it.
* `getEightBytesAt_run`: the words cut out of one load of eight bytes are those that separate loads
  give.
-/

namespace Snappy

/-- `ARCH_K8`, or not. -/
inductive Arch where
  | k8
  | other
  deriving DecidableEq, Repr

/-- The byte loop of `FindMatchLength`. -/
def matchBytes : Nat → Bytes → Nat → Nat → Nat → Nat → Option Nat
  | 0, _, _, _, _, _ => none
  | fuel + 1, m, s1, s2, limit, matched =>
    if s2 < limit then do
      if (← m[s1 + matched]?) = (← m[s2]?) then matchBytes fuel m s1 (s2 + 1) limit (matched + 1)
      else some matched
    else some matched

/-- `FindMatchLength` for x86-64: 64 bits at a time, then byte by byte. -/
def matchWords64 : Nat → Bytes → Nat → Nat → Nat → Nat → Option Nat
  | 0, _, _, _, _, _ => none
  | fuel + 1, m, s1, s2, limit, matched =>
    if s2 + 8 ≤ limit then do
      let y ← unalignedLoad64 m s2
      let x ← unalignedLoad64 m (s1 + matched)
      if y = x then matchWords64 fuel m s1 (s2 + 8) limit (matched + 8)
      else some (matched + Bits.findLSBSetNonZero64 (y ^^^ x) >>> 3)
    else matchBytes (limit + 1) m s1 s2 limit matched

/-- `FindMatchLength` for other hosts: 32 bits at a time. -/
def matchWords32 : Nat → Bytes → Nat → Nat → Nat → Nat → Option Nat
  | 0, _, _, _, _, _ => none
  | fuel + 1, m, s1, s2, limit, matched =>
    if s2 + 4 ≤ limit then do
      let y ← unalignedLoad32 m s2
      let x ← unalignedLoad32 m (s1 + matched)
      if y = x then matchWords32 fuel m s1 (s2 + 4) limit (matched + 4)
      else some (matched + Bits.findLSBSetNonZero (y ^^^ x) >>> 3)
    else matchBytes (limit + 1) m s1 s2 limit matched

/-- `FindMatchLength`, of two pointers into one buffer. -/
def findMatchLength (arch : Arch) (m : Bytes) (s1 s2 limit : Nat) : Option Nat :=
  match arch with
  | .k8 => matchWords64 (limit + 1) m s1 s2 limit 0
  | .other => matchWords32 (limit + 1) m s1 s2 limit 0

/-- The largest `n` such that the `n` bytes from `s1` and from `s2` on agree, up to `limit`. -/
structure IsMatch (m : Bytes) (s1 s2 limit n : Nat) : Prop where
  within : s2 + n ≤ limit
  agree : ∀ k, k < n → m[s1 + k]? = m[s2 + k]?
  maximal : s2 + n < limit → m[s1 + n]? ≠ m[s2 + n]?

theorem IsMatch.unique {m : Bytes} {s1 s2 limit n n' : Nat} (h : IsMatch m s1 s2 limit n)
    (h' : IsMatch m s1 s2 limit n') : n = n' := by
  rcases Nat.lt_trichotomy n n' with hlt | rfl | hgt
  · exact absurd (h'.agree n hlt) (h.maximal (by have := h'.within; omega))
  · rfl
  · exact absurd (h.agree n' hgt) (h'.maximal (by have := h.within; omega))

variable {m : Bytes} {s1 s2 limit n : Nat}

/-- A byte of a window. -/
theorem getElem?_window {p w k : Nat} (hk : k < w) : ((m.drop p).take w)[k]? = m[p + k]? := by
  rw [List.getElem?_take_of_lt hk, List.getElem?_drop]

/-- Windows that agree in front agree byte by byte. -/
theorem agree_of_take {p q w j : Nat} (hj : j ≤ w)
    (h : ((m.drop p).take w).take j = ((m.drop q).take w).take j) {k : Nat} (hk : k < j) :
    m[p + k]? = m[q + k]? := by
  have := congrArg (·[k]?) h
  simpa only [List.getElem?_take_of_lt hk, getElem?_window (m := m) (show k < w by omega)] using this

theorem matchBytes_run {fuel : Nat} (h12 : s1 < s2) (hl : limit ≤ m.length) (hn : s2 + n ≤ limit)
    (hag : ∀ k, k < n → m[s1 + k]? = m[s2 + k]?) (hfuel : limit - (s2 + n) < fuel) :
    ∃ n', matchBytes fuel m s1 (s2 + n) limit n = some n' ∧ IsMatch m s1 s2 limit n' := by
  induction fuel generalizing n with
  | zero => omega
  | succ fuel ih =>
    rw [matchBytes]
    split
    · next hlt =>
      rw [List.getElem?_eq_getElem (show s1 + n < m.length by omega),
        List.getElem?_eq_getElem (show s2 + n < m.length by omega), Option.bind_eq_bind, Option.bind_some,
        Option.bind_some]
      split
      · next heq =>
        refine ih (n := n + 1) (by omega) (fun k hk => ?_) (by omega)
        rcases Nat.lt_succ_iff_lt_or_eq.mp hk with hk | rfl
        · exact hag k hk
        · rw [List.getElem?_eq_getElem (by omega), List.getElem?_eq_getElem (by omega), heq]
      · next hne =>
        refine ⟨n, rfl, hn, hag, fun _ h => hne ?_⟩
        rw [List.getElem?_eq_getElem (by omega), List.getElem?_eq_getElem (by omega)] at h
        exact Option.some.inj h
    · next hge => exact ⟨n, rfl, hn, hag, fun h => absurd h hge⟩

/-- The loop that compares words of `w` bytes goes on behind equal words. -/
theorem agree_of_word {w : Nat} (hag : ∀ k, k < n → m[s1 + k]? = m[s2 + k]?)
    (hw : (m.drop (s2 + n)).take w = (m.drop (s1 + n)).take w) :
    ∀ k, k < n + w → m[s1 + k]? = m[s2 + k]? := by
  intro k hk
  rcases Nat.lt_or_ge k n with hlt | hge
  · exact hag k hlt
  · have := agree_of_take (j := w) (Nat.le_refl w) (congrArg (List.take w) hw) (k := k - n) (by omega)
    rw [show s2 + n + (k - n) = s2 + k by omega, show s1 + n + (k - n) = s1 + k by omega] at this
    exact this.symm

/-- It ends in the first byte in which the words differ. -/
theorem isMatch_of_word {w bits : Nat} (hbits : 8 * w = bits) (h12 : s1 < s2) (hl : limit ≤ m.length)
    (hn : s2 + n + w ≤ limit) (hag : ∀ k, k < n → m[s1 + k]? = m[s2 + k]?)
    (hne : LittleEndian.word bits ((m.drop (s2 + n)).take w) ≠
      LittleEndian.word bits ((m.drop (s1 + n)).take w)) :
    IsMatch m s1 s2 limit (n + (LittleEndian.word bits ((m.drop (s2 + n)).take w) ^^^
      LittleEndian.word bits ((m.drop (s1 + n)).take w)).ctz.toNat >>> 3) := by
  have hlen2 : ((m.drop (s2 + n)).take w).length = w := by rw [List.length_take, List.length_drop]; omega
  have hlen1 : ((m.drop (s1 + n)).take w).length = w := by rw [List.length_take, List.length_drop]; omega
  rw [Nat.shiftRight_eq_div_pow]
  obtain ⟨htake, hdiff, hlt⟩ := LittleEndian.ctz_xor_word (by rw [hlen2, hbits]) (hlen2.trans hlen1.symm)
    hne rfl
  obtain ⟨j, hj⟩ : ∃ j, (LittleEndian.word bits ((m.drop (s2 + n)).take w) ^^^
    LittleEndian.word bits ((m.drop (s1 + n)).take w)).ctz.toNat / 8 = j := ⟨_, rfl⟩
  rw [hj] at htake hdiff hlt
  rw [show (2 : Nat) ^ 3 = 8 from rfl, hj]
  rw [hlen2] at hlt
  refine ⟨by omega, fun k hk => ?_, fun _ h => hdiff ?_⟩
  · rcases Nat.lt_or_ge k n with hkn | hkn
    · exact hag k hkn
    · have := agree_of_take (Nat.le_of_lt hlt) htake (k := k - n) (by omega)
      rw [show s2 + n + (k - n) = s2 + k by omega, show s1 + n + (k - n) = s1 + k by omega] at this
      exact this.symm
  · rw [getElem?_window hlt, getElem?_window hlt, Nat.add_assoc, Nat.add_assoc, h]

theorem matchWords64_run {fuel : Nat} (h12 : s1 < s2) (hl : limit ≤ m.length) (hn : s2 + n ≤ limit)
    (hag : ∀ k, k < n → m[s1 + k]? = m[s2 + k]?) (hfuel : limit - (s2 + n) < fuel) :
    ∃ n', matchWords64 fuel m s1 (s2 + n) limit n = some n' ∧ IsMatch m s1 s2 limit n' := by
  induction fuel generalizing n with
  | zero => omega
  | succ fuel ih =>
    rw [matchWords64]
    split
    · next h8 =>
      rw [unalignedLoad64_eq (by omega), unalignedLoad64_eq (by omega), Option.bind_eq_bind,
        Option.bind_some, Option.bind_some]
      split
      · next heq =>
        refine ih (by omega) (agree_of_word hag ((LittleEndian.word_inj ?_ ?_).mp heq)) (by omega)
        all_goals rw [List.length_take, List.length_drop]
        · omega
        · rw [List.length_take, List.length_drop]
          omega
      · next hne => exact ⟨_, rfl, isMatch_of_word rfl h12 hl h8 hag hne⟩
    · exact matchBytes_run h12 hl hn hag (by omega)

theorem matchWords32_run {fuel : Nat} (h12 : s1 < s2) (hl : limit ≤ m.length) (hn : s2 + n ≤ limit)
    (hag : ∀ k, k < n → m[s1 + k]? = m[s2 + k]?) (hfuel : limit - (s2 + n) < fuel) :
    ∃ n', matchWords32 fuel m s1 (s2 + n) limit n = some n' ∧ IsMatch m s1 s2 limit n' := by
  induction fuel generalizing n with
  | zero => omega
  | succ fuel ih =>
    rw [matchWords32]
    split
    · next h4 =>
      rw [unalignedLoad32_eq (by omega), unalignedLoad32_eq (by omega), Option.bind_eq_bind,
        Option.bind_some, Option.bind_some]
      split
      · next heq =>
        refine ih (by omega) (agree_of_word hag ((LittleEndian.word_inj ?_ ?_).mp heq)) (by omega)
        all_goals rw [List.length_take, List.length_drop]
        · omega
        · rw [List.length_take, List.length_drop]
          omega
      · next hne => exact ⟨_, rfl, isMatch_of_word rfl h12 hl h4 hag hne⟩
    · exact matchBytes_run h12 hl hn hag (by omega)

/-- `FindMatchLength` returns the largest number of bytes that agree, in either version. -/
theorem findMatchLength_run (m : Bytes) (s1 s2 limit : Nat) (h12 : s1 < s2) (h2 : s2 ≤ limit)
    (hl : limit ≤ m.length) :
    ∃ n, (∀ arch, findMatchLength arch m s1 s2 limit = some n) ∧ IsMatch m s1 s2 limit n := by
  have hnil (k : Nat) (hk : k < 0) : m[s1 + k]? = m[s2 + k]? := absurd hk (Nat.not_lt_zero k)
  obtain ⟨n, hn, h⟩ := matchWords64_run h12 hl h2 hnil
    (show limit - (s2 + 0) < limit + 1 by omega)
  obtain ⟨n', hn', h'⟩ := matchWords32_run h12 hl h2 hnil
    (show limit - (s2 + 0) < limit + 1 by omega)
  obtain rfl := h.unique h'
  refine ⟨n, fun arch => ?_, h⟩
  cases arch with
  | k8 => exact hn
  | other => exact hn'

/-- **`FindMatchLength`**: the version for x86-64 and the other one find the same length, the largest
there is, and neither reads at the limit or behind it. -/
theorem findMatchLength_arch (m : Bytes) (s1 s2 limit : Nat) (h12 : s1 < s2) (h2 : s2 ≤ limit)
    (hl : limit ≤ m.length) :
    ∃ n, IsMatch m s1 s2 limit n ∧ ∀ arch behind, findMatchLength arch m s1 s2 limit = some n ∧
      findMatchLength arch (m.take limit ++ behind) s1 s2 limit = some n := by
  obtain ⟨n, hn, h⟩ := findMatchLength_run m s1 s2 limit h12 h2 hl
  refine ⟨n, h, fun arch behind => ⟨hn arch, ?_⟩⟩
  have htake (k : Nat) (hk : k < limit) : (m.take limit ++ behind)[k]? = m[k]? := by
    rw [List.getElem?_append_left (by rw [List.length_take]; omega), List.getElem?_take_of_lt hk]
  obtain ⟨n', hn', h'⟩ := findMatchLength_run (m.take limit ++ behind) s1 s2 limit h12 h2
    (by rw [List.length_append, List.length_take]; omega)
  have hwithin := h'.within
  have h'' : IsMatch m s1 s2 limit n' := by
    refine ⟨hwithin, fun k hk => ?_, fun hlt => ?_⟩
    · have := h'.agree k hk
      rwa [htake _ (by omega), htake _ (by omega)] at this
    · have := h'.maximal hlt
      rwa [htake _ (by omega), htake _ (by omega)] at this
  rw [hn' arch, h.unique h'']

theorem findMatchLength_arch_sample :
    findMatchLength .k8 [1, 2, 1, 2, 1, 2, 1, 2, 1, 2, 3] 0 2 11 =
      findMatchLength .other [1, 2, 1, 2, 1, 2, 1, 2, 1, 2, 3] 0 2 11 := by
  obtain ⟨n, -, h⟩ := findMatchLength_arch [1, 2, 1, 2, 1, 2, 1, 2, 1, 2, 3] 0 2 11 (by decide) (by decide)
    (by decide)
  rw [(h .k8 []).1, (h .other []).1]

/-! ## Hashes -/

/-- `HashBytes`. -/
def hashBytes (bytes : BitVec 32) (shift : Nat) : Nat := ((bytes * 0x1e35a7bd#32) >>> shift).toNat

/-- `Hash`. -/
def hash (input : Bytes) (p shift : Nat) : Option Nat := (unalignedLoad32 input p).map (hashBytes · shift)

theorem hashBytes_lt (bytes : BitVec 32) {shift : Nat} (h : shift ≤ 32) :
    hashBytes bytes shift < 2 ^ (32 - shift) := by
  rw [hashBytes, BitVec.toNat_ushiftRight, Nat.shiftRight_eq_div_pow,
    Nat.div_lt_iff_lt_mul (Nat.two_pow_pos _), ← Nat.pow_add, Nat.sub_add_cancel h]
  exact BitVec.isLt _

/-- `EightBytesReference`: eight bytes loaded, or a pointer to them. -/
inductive EightBytesReference where
  | value (v : BitVec 64)
  | pointer (p : Nat)

/-- `GetEightBytesAt`. -/
def getEightBytesAt (arch : Arch) (input : Bytes) (ptr : Nat) : Option EightBytesReference :=
  match arch with
  | .k8 => (unalignedLoad64 input ptr).map .value
  | .other => some (.pointer ptr)

/-- `GetUint32AtOffset`, of an offset up to 4. -/
def getUint32AtOffset (input : Bytes) (v : EightBytesReference) (offset : Nat) : Option (BitVec 32) :=
  if offset ≤ 4 then
    match v with
    | .value v => some ((v >>> (8 * offset)).setWidth 32)
    | .pointer p => unalignedLoad32 input (p + offset)
  else none

/-- The word at an offset of the eight bytes is the word there. -/
theorem getEightBytesAt_run (arch : Arch) (input : Bytes) (ptr : Nat) (h : ptr + 8 ≤ input.length) :
    ∃ v, getEightBytesAt arch input ptr = some v ∧
      ∀ offset, offset ≤ 4 → getUint32AtOffset input v offset = unalignedLoad32 input (ptr + offset) := by
  cases arch with
  | other => exact ⟨.pointer ptr, rfl, fun offset ho => if_pos ho⟩
  | k8 =>
    refine ⟨_, by rw [getEightBytesAt, unalignedLoad64_eq h]; rfl, fun offset ho => ?_⟩
    have hlen : ((input.drop ptr).take 8).length = 8 := by rw [List.length_take, List.length_drop]; omega
    have hlen4 : ((input.drop (ptr + offset)).take 4).length = 4 := by
      rw [List.length_take, List.length_drop]
      omega
    rw [getUint32AtOffset, if_pos ho, unalignedLoad32_eq (by omega)]
    refine congrArg some (BitVec.eq_of_toNat_eq ?_)
    rw [BitVec.toNat_setWidth, BitVec.toNat_ushiftRight, LittleEndian.toNat_word (by omega),
      LittleEndian.toNat_word (by omega), Nat.shiftRight_eq_div_pow, ← LittleEndian.toNat_drop,
      show (2 : Nat) ^ 32 = 2 ^ (8 * 4) from rfl, ← LittleEndian.toNat_take, List.drop_take,
      List.drop_drop, List.take_take, Nat.min_eq_left (by omega)]

end Snappy
