import PyLeveldb.Snappy.Emit
import PyLeveldb.Snappy.Match

/-!
# Compressing one block (`CompressFragment`)

The block is scanned with a table of hashes for four bytes that occurred before; what was skipped is
emitted as a literal, and the match as copies, for as long as one match follows another.

* `Coded`: the code emitted so far decodes to the bytes before `nextEmit`.
* `scan_run`, `copies_run`, `fragmentRounds_run`: the loops. The table holds places before `ip`, and
  the code is at most seven sixths of what it stands for.
* `compressFragment_run`: any block of at most 2^16 bytes, with any table size the code uses.
-/

namespace Snappy

open Lz77 (copyBack)

/-- `kBlockSize`. -/
def kBlockSize : Nat := 1 <<< 16

/-- `kMaxHashTableSize`. -/
def kMaxHashTableSize : Nat := 1 <<< 14

/-- `kInputMarginBytes`. -/
def kInputMarginBytes : Nat := 15

/-- The doublings of `GetHashTable`. -/
def hashTableSize : Nat → Nat → Nat → Nat
  | 0, htsize, _ => htsize
  | fuel + 1, htsize, inputSize =>
    if htsize < kMaxHashTableSize ∧ htsize < inputSize then hashTableSize fuel (htsize <<< 1) inputSize
    else htsize

/-- `GetHashTable`: a table of zeros. Six doublings reach the largest size. -/
def getHashTable (inputSize : Nat) : List Nat := List.replicate (hashTableSize 6 256 inputSize) 0

/-- `table[h] = p`, of 16 bits. -/
def setEntry (table : List Nat) (h p : Nat) : Option (List Nat) := Region.write table h [p % 2 ^ 16]

/-- Step 1 of `CompressFragment`: scan forward for four bytes that match an earlier place. The result is
the match, or `none` near the end of the input. -/
def scan (input : Bytes) (shift ipLimit : Nat) :
    Nat → List Nat → Nat → Nat → Nat → Option (Option (Nat × Nat) × List Nat)
  | 0, _, _, _, _ => none
  | fuel + 1, table, nextIp, nextHash, skip => do
    let ip := nextIp
    let hashed := nextHash
    guard (hash input ip shift = some hashed)
    let bytesBetweenHashLookups := skip >>> 5
    let skip := (skip + 1) % 2 ^ 32
    let nextIp := ip + bytesBetweenHashLookups
    if ipLimit < nextIp then some (none, table)
    else
      let nextHash ← hash input nextIp shift
      let candidate ← table[hashed]?
      guard (candidate < ip)
      let table ← setEntry table hashed ip
      if (← unalignedLoad32 input ip) ≠ (← unalignedLoad32 input candidate) then
        scan input shift ipLimit fuel table nextIp nextHash skip
      else some (some (ip, candidate), table)

/-- Step 3: emit the match at `ip`, and go on while the next four bytes match as well. The result is
`next_emit`, the output, and what the next scan starts with unless the input is nearly exhausted. -/
def copies (arch : Arch) (input : Bytes) (shift ipLimit : Nat) :
    Nat → List Nat → Bytes → Nat → Nat → Nat → Option (Nat × Bytes × Nat × Option (List Nat × Nat × Nat))
  | 0, _, _, _, _, _ => none
  | fuel + 1, table, dst, op, ip, candidate => do
    let base := ip
    let matched := 4 + (← findMatchLength arch input (candidate + 4) (ip + 4) input.length)
    let ip := ip + matched
    let offset := base - candidate
    guard ((input.drop base).take matched = (input.drop candidate).take matched)
    let (dst, op) ← emitCopy dst op offset matched
    let insertTail := ip - 1
    let nextEmit := ip
    if ipLimit ≤ ip then some (nextEmit, dst, op, none)
    else
      let inputBytes ← getEightBytesAt arch input insertTail
      let prevHash := hashBytes (← getUint32AtOffset input inputBytes 0) shift
      let table ← setEntry table prevHash (ip - 1)
      let curHash := hashBytes (← getUint32AtOffset input inputBytes 1) shift
      let candidate ← table[curHash]?
      let candidateBytes ← unalignedLoad32 input candidate
      let table ← setEntry table curHash ip
      if (← getUint32AtOffset input inputBytes 1) = candidateBytes then
        copies arch input shift ipLimit fuel table dst op ip candidate
      else
        let nextHash := hashBytes (← getUint32AtOffset input inputBytes 2) shift
        some (nextEmit, dst, op, some (table, ip + 1, nextHash))

/-- The main loop of `CompressFragment`, up to `emit_remainder`: `next_emit` and the output there. -/
def fragmentRounds (arch : Arch) (input : Bytes) (shift ipLimit : Nat) :
    Nat → List Nat → Bytes → Nat → Nat → Nat → Nat → Option (Nat × Bytes × Nat)
  | 0, _, _, _, _, _, _ => none
  | fuel + 1, table, dst, op, nextEmit, ip, nextHash => do
    guard (nextEmit < ip)
    let (found, table) ← scan input shift ipLimit (input.length + 1) table ip nextHash 32
    match found with
    | none => some (nextEmit, dst, op)
    | some (ip, candidate) =>
      guard (nextEmit + 16 ≤ input.length)
      let (dst, op) ← emitLiteral input nextEmit (ip - nextEmit) true dst op
      let (nextEmit, dst, op, next) ←
        copies arch input shift ipLimit (input.length + 1) table dst op ip candidate
      match next with
      | none => some (nextEmit, dst, op)
      | some (table, ip, nextHash) =>
        fragmentRounds arch input shift ipLimit fuel table dst op nextEmit ip nextHash

/-- `CompressFragment` up to `emit_remainder`. A short block is not scanned. -/
def emitMatches (arch : Arch) (input : Bytes) (shift : Nat) (table : List Nat) (dst : Bytes) (op : Nat) :
    Option (Nat × Bytes × Nat) :=
  if kInputMarginBytes ≤ input.length then do
    let ipLimit := input.length - kInputMarginBytes
    let nextHash ← hash input 1 shift
    fragmentRounds arch input shift ipLimit (input.length + 1) table dst op 0 1 nextHash
  else some (0, dst, op)

/-- `CompressFragment`: the output buffer and the new `op`. -/
def compressFragment (arch : Arch) (input dst : Bytes) (op : Nat) (table : List Nat) :
    Option (Bytes × Nat) := do
  guard (input.length ≤ kBlockSize)
  guard (table.length &&& (table.length - 1) = 0)
  let shift := (32 - Bits.log2Floor (BitVec.ofNat 32 table.length)).toNat
  guard ((2 ^ 32 - 1) >>> shift = table.length - 1)
  let (nextEmit, dst, op) ← emitMatches arch input shift table dst op
  if nextEmit < input.length then
    emitLiteral input nextEmit (input.length - nextEmit) false dst op
  else some (dst, op)

/-! ## The table -/

theorem hashTableSize_eq (fuel k : Nat) (hk : k + fuel = 14) (inputSize : Nat) :
    ∃ j, hashTableSize fuel (2 ^ k) inputSize = 2 ^ j ∧ k ≤ j ∧ j ≤ 14 := by
  induction fuel generalizing k with
  | zero => exact ⟨k, rfl, Nat.le_refl k, by omega⟩
  | succ fuel ih =>
    rw [hashTableSize]
    split
    · rw [show (2 : Nat) ^ k <<< 1 = 2 ^ (k + 1) by rw [Nat.shiftLeft_eq, Nat.pow_add]]
      obtain ⟨j, hj, hkj, hle⟩ := ih (k := k + 1) (by omega)
      exact ⟨j, hj, by omega, hle⟩
    · exact ⟨k, rfl, Nat.le_refl k, by omega⟩

/-- The table of a block: a power of two of zeros. -/
theorem getHashTable_spec (inputSize : Nat) :
    ∃ k, (getHashTable inputSize).length = 2 ^ k ∧ 8 ≤ k ∧ k ≤ 14 ∧
      ∀ v, v ∈ getHashTable inputSize → v = 0 := by
  obtain ⟨k, hk, h8, h14⟩ := hashTableSize_eq 6 8 rfl inputSize
  refine ⟨k, ?_, h8, h14, fun v hv => List.eq_of_mem_replicate hv⟩
  rw [getHashTable, List.length_replicate]
  exact hk

/-- An entry is set within the table. -/
theorem setEntry_run (table : List Nat) (p bound : Nat) {h : Nat} (hh : h < table.length) (hp : p < 2 ^ 16)
    (hpb : p ≤ bound) (ht : ∀ v, v ∈ table → v ≤ bound) :
    ∃ table', setEntry table h p = some table' ∧ table'.length = table.length ∧
      ∀ v, v ∈ table' → v ≤ bound := by
  obtain ⟨table', hw⟩ := Region.write_exists (m := table) (i := h) (l := [p % 2 ^ 16])
    (by rw [List.length_singleton]; omega)
  refine ⟨table', hw, Region.length_write hw, fun v hv => ?_⟩
  obtain ⟨-, rfl⟩ := Region.write_inv hw
  rw [Nat.mod_eq_of_lt hp] at hv
  rcases List.mem_append.mp hv with hv | hv
  · exact ht v (List.mem_of_mem_take hv)
  · rcases List.mem_cons.mp hv with rfl | hv
    · exact hpb
    · exact ht v (List.mem_of_mem_drop hv)

/-! ## The code and what it stands for -/

/-- Behind `op₀` stands `code`, which decodes to the bytes before `nextEmit`. -/
structure Coded (input dst₀ : Bytes) (op₀ : Nat) (dst : Bytes) (op nextEmit : Nat) (code : Bytes) : Prop where
  emitted : Emitted dst₀ op₀ dst op code
  decodes : ∀ pre, Format.decode code pre = some (pre ++ input.take nextEmit)

variable {input dst₀ dst dst' code code' : Bytes} {op₀ op op' nextEmit : Nat}

theorem Coded.literal (h : Coded input dst₀ op₀ dst op nextEmit code)
    (he : Emitted dst op dst' op' code') {len : Nat}
    (hd : ∀ out, Format.decode code' out = some (out ++ (input.drop nextEmit).take len)) :
    Coded input dst₀ op₀ dst' op' (nextEmit + len) (code ++ code') where
  emitted := h.emitted.trans he
  decodes pre := by
    rw [Format.decode_append (h.decodes pre), hd, List.append_assoc, List.take_add]

theorem Coded.copy (h : Coded input dst₀ op₀ dst op nextEmit code)
    (he : Emitted dst op dst' op' code') {candidate len : Nat} (hc : candidate < nextEmit)
    (hle : nextEmit + len ≤ input.length)
    (hm : ∀ k, k < len → input[candidate + k]? = input[nextEmit + k]?)
    (hd : ∀ out : Bytes, nextEmit - candidate ≤ out.length →
      Format.decode code' out = some (copyBack out (nextEmit - candidate) len)) :
    Coded input dst₀ op₀ dst' op' (nextEmit + len) (code ++ code') where
  emitted := h.emitted.trans he
  decodes pre := by
    have hlen : (pre ++ input.take nextEmit).length = pre.length + nextEmit := by
      rw [List.length_append, List.length_take]
      omega
    rw [Format.decode_append (h.decodes pre), hd _ (by omega),
      Lz77.copyBack_match (by omega) (by omega) hle fun k hk => ?_]
    rw [Nat.sub_sub_self (Nat.le_of_lt hc)]
    exact hm k hk

/-- Four bytes that load as the same word. -/
theorem agree_of_load {p q : Nat} (hp : p + 4 ≤ input.length) (hq : q + 4 ≤ input.length)
    (h : unalignedLoad32 input p = unalignedLoad32 input q) {k : Nat} (hk : k < 4) :
    input[p + k]? = input[q + k]? := by
  rw [unalignedLoad32_eq hp, unalignedLoad32_eq hq] at h
  have hw := (LittleEndian.word_inj (by rw [List.length_take]; omega)
    (by rw [List.length_take, List.length_take, List.length_drop, List.length_drop]; omega)).mp
    (Option.some.inj h)
  exact agree_of_take (j := 4) (Nat.le_refl 4) (congrArg (List.take 4) hw) hk

theorem hash_eq (input : Bytes) (p shift : Nat) (h : p + 4 ≤ input.length) :
    ∃ v, hash input p shift = some v := by
  rw [hash, unalignedLoad32_eq h]
  exact ⟨_, rfl⟩

theorem hash_lt {p shift v : Nat} (hs : shift ≤ 32) (h : hash input p shift = some v) :
    v < 2 ^ (32 - shift) ∧ p + 4 ≤ input.length := by
  obtain ⟨word, hw, rfl⟩ := Option.map_eq_some_iff.mp h
  obtain ⟨l, hl, -⟩ := Option.map_eq_some_iff.mp hw
  exact ⟨hashBytes_lt word hs, (Region.read_eq_some.mp hl).1⟩

/-! ## The loops -/

/-- The sizes that the loops rely on. -/
structure Sizes (input : Bytes) (shift ipLimit : Nat) (table : List Nat) : Prop where
  block : input.length ≤ 2 ^ 16
  limit : ipLimit + kInputMarginBytes = input.length
  shift_le : shift ≤ 32
  table_eq : table.length = 2 ^ (32 - shift)

variable {shift ipLimit : Nat} {table : List Nat}

/-- The scan ends at a match of four bytes with an earlier place, or near the end of the input. -/
theorem scan_run (fuel skip : Nat) {nextIp nextHash : Nat} (hs : Sizes input shift ipLimit table)
    (ht : ∀ v, v ∈ table → v < nextIp) (hh : hash input nextIp shift = some nextHash)
    (hskip : 32 ≤ skip) (hskip' : skip ≤ 32 + nextIp) (hfuel : ipLimit - nextIp < fuel) :
    ∃ found table', scan input shift ipLimit fuel table nextIp nextHash skip = some (found, table') ∧
      Sizes input shift ipLimit table' ∧
      ∀ ip candidate, found = some (ip, candidate) → nextIp ≤ ip ∧ ip < ipLimit ∧ candidate < ip ∧
        (∀ k, k < 4 → input[candidate + k]? = input[ip + k]?) ∧ ∀ v, v ∈ table' → v ≤ ip := by
  induction fuel generalizing table nextIp nextHash skip with
  | zero => omega
  | succ fuel ih =>
    have hblock := hs.block
    have hlim := hs.limit
    unfold kInputMarginBytes at hlim
    obtain ⟨hhlt, hin⟩ := hash_lt hs.shift_le hh
    have hstep : 1 ≤ skip >>> 5 := by
      rw [Nat.shiftRight_eq_div_pow]
      omega
    rw [scan, guard_of hh, some_bind]
    dsimp only
    split
    · exact ⟨none, table, rfl, hs, fun ip candidate h => (by cases h)⟩
    · next hge =>
      obtain ⟨v, hv⟩ := hash_eq input (nextIp + skip >>> 5) shift (by omega)
      have hget : nextHash < table.length := hs.table_eq ▸ hhlt
      obtain ⟨candidate, hcand⟩ : ∃ c, table[nextHash]? = some c := ⟨_, List.getElem?_eq_getElem hget⟩
      have hclt : candidate < nextIp := ht _ (List.mem_of_getElem? hcand)
      obtain ⟨table', hset, hlen', ht'⟩ := setEntry_run _ nextIp nextIp hget (by omega)
        (Nat.le_refl _) (fun v hv => Nat.le_of_lt (ht v hv))
      have hs' : Sizes input shift ipLimit table' :=
        ⟨hs.block, hs.limit, hs.shift_le, hlen'.trans hs.table_eq⟩
      rw [hv, some_bind, hcand, some_bind, guard_of hclt, some_bind, hset, some_bind, unalignedLoad32_eq hin,
        some_bind, unalignedLoad32_eq (by omega), some_bind]
      split
      · next hne =>
        obtain ⟨found, table'', hr, hs'', hfound⟩ := ih ((skip + 1) % 2 ^ 32) hs'
          (fun v hv => Nat.lt_of_le_of_lt (ht' v hv) (by omega)) hv (by omega) (by omega) (by omega)
        refine ⟨found, table'', hr, hs'', fun ip c h => ?_⟩
        obtain ⟨hle, hrest⟩ := hfound ip c h
        exact ⟨by omega, hrest⟩
      · next heq =>
        refine ⟨some (nextIp, candidate), table', rfl, hs', ?_⟩
        rintro ip c ⟨⟩
        refine ⟨Nat.le_refl _, by omega, hclt, fun k hk => ?_, ht'⟩
        refine (agree_of_load hin (by omega) ?_ hk).symm
        rw [unalignedLoad32_eq hin, unalignedLoad32_eq (by omega), Classical.not_not.mp heq]

/-- The copies from one literal to the next, on either host. -/
theorem copies_run (fuel : Nat) {ip candidate : Nat} (hs : Sizes input shift ipLimit table)
    (hroom : op₀ + input.length + input.length / 6 + 17 ≤ dst₀.length)
    (hcode : Coded input dst₀ op₀ dst op ip code) (hsize : 6 * code.length ≤ 7 * ip + 5)
    (ht : ∀ v, v ∈ table → v ≤ ip) (hip : ip < ipLimit) (hc : candidate < ip)
    (hm : ∀ k, k < 4 → input[candidate + k]? = input[ip + k]?) (hfuel : ipLimit - ip < fuel) :
    ∃ nextEmit dst' op' next code',
      (∀ arch, copies arch input shift ipLimit fuel table dst op ip candidate =
          some (nextEmit, dst', op', next)) ∧
        Coded input dst₀ op₀ dst' op' nextEmit code' ∧ 6 * code'.length + 5 ≤ 7 * nextEmit ∧
        ip < nextEmit ∧ nextEmit ≤ input.length ∧
        ∀ table' ip' nextHash, next = some (table', ip', nextHash) →
          Sizes input shift ipLimit table' ∧ ip' = nextEmit + 1 ∧ nextEmit < ipLimit ∧
            (∀ v, v ∈ table' → v < ip') ∧ hash input ip' shift = some nextHash := by
  induction fuel generalizing table dst op ip candidate code with
  | zero => omega
  | succ fuel ih =>
    have hblock := hs.block
    have hlim := hs.limit
    unfold kInputMarginBytes at hlim
    obtain ⟨n, hn, hmatch⟩ := findMatchLength_run input (candidate + 4) (ip + 4) input.length
      (by omega) (by omega) (Nat.le_refl _)
    have hwithin := hmatch.within
    have hagree (k : Nat) (hk : k < 4 + n) : input[candidate + k]? = input[ip + k]? := by
      rcases Nat.lt_or_ge k 4 with h4 | h4
      · exact hm k h4
      · have := hmatch.agree (k - 4) (by omega)
        rwa [show candidate + 4 + (k - 4) = candidate + k by omega,
          show ip + 4 + (k - 4) = ip + k by omega] at this
    have hcmp : (input.drop ip).take (4 + n) = (input.drop candidate).take (4 + n) := by
      apply List.ext_getElem?
      intro k
      rcases Nat.lt_or_ge k (4 + n) with hk | hk
      · rw [getElem?_window hk, getElem?_window hk, hagree k hk]
      · rw [List.getElem?_eq_none (by rw [List.length_take]; omega),
          List.getElem?_eq_none (by rw [List.length_take]; omega)]
    have hop := hcode.emitted.op_eq
    have hlen := hcode.emitted.length
    obtain ⟨d₁, op₁, code₁, hr₁, he₁, hl₁, hd₁⟩ := emitCopy_run dst op (ip - candidate) (4 + n)
      (by omega) (by omega) (by omega) (by omega)
    have hcode₁ := hcode.copy he₁ hc (by omega) hagree hd₁
    have hsize₁ : 6 * (code ++ code₁).length + 5 ≤ 7 * (ip + (4 + n)) := by
      rw [List.length_append]
      omega
    obtain ⟨ip₁, hip₁⟩ : ∃ ip₁, ip + (4 + n) = ip₁ := ⟨_, rfl⟩
    rw [hip₁] at hcode₁ hsize₁
    rcases Nat.lt_or_ge ip₁ ipLimit with hlt | hge
    swap
    · refine ⟨ip₁, d₁, op₁, none, _, fun arch => ?_, hcode₁, hsize₁, by omega, by omega,
        fun _ _ _ h => (by cases h)⟩
      rw [copies, hn arch, some_bind]
      dsimp only
      rw [guard_of hcmp, some_bind, hr₁, some_bind, hip₁]
      exact if_pos hge
    obtain ⟨table₁, hset₁, hlen₁, ht₁⟩ := setEntry_run table (ip₁ - 1) (ip₁ - 1)
      (hs.table_eq ▸ hashBytes_lt (LittleEndian.word 32 ((input.drop (ip₁ - 1 + 0)).take 4)) hs.shift_le)
      (by omega) (Nat.le_refl _) (fun v hv => Nat.le_trans (ht v hv) (by omega))
    have hcur := hashBytes_lt (LittleEndian.word 32 ((input.drop ip₁).take 4)) hs.shift_le
    rw [← hs.table_eq, ← hlen₁] at hcur
    obtain ⟨cand, hcand⟩ : ∃ c, table₁[hashBytes (LittleEndian.word 32 ((input.drop ip₁).take 4)) shift]? =
      some c := ⟨_, List.getElem?_eq_getElem hcur⟩
    have hclt : cand < ip₁ := by
      have := ht₁ _ (List.mem_of_getElem? hcand)
      omega
    obtain ⟨table₂, hset₂, hlen₂, ht₂⟩ := setEntry_run _ ip₁ ip₁ hcur (by omega)
      (Nat.le_refl _) (fun v hv => Nat.le_trans (ht₁ v hv) (by omega))
    have hs₂ : Sizes input shift ipLimit table₂ :=
      ⟨hs.block, hs.limit, hs.shift_le, hlen₂.trans (hlen₁.trans hs.table_eq)⟩
    -- the rest of the round, with the words that either host reads
    have hround (arch : Arch) : copies arch input shift ipLimit (fuel + 1) table dst op ip candidate =
        if LittleEndian.word 32 ((input.drop ip₁).take 4) =
            LittleEndian.word 32 ((input.drop cand).take 4) then
          copies arch input shift ipLimit fuel table₂ d₁ op₁ ip₁ cand
        else some (ip₁, d₁, op₁, some (table₂, ip₁ + 1,
          hashBytes (LittleEndian.word 32 ((input.drop (ip₁ + 1)).take 4)) shift)) := by
      obtain ⟨bytes, hbytes, hget⟩ := getEightBytesAt_run arch input (ip₁ - 1) (by omega)
      have hw0 := hget 0 (by decide)
      have hw1 := hget 1 (by decide)
      have hw2 := hget 2 (by decide)
      rw [show ip₁ - 1 + 1 = ip₁ by omega] at hw1
      rw [show ip₁ - 1 + 2 = ip₁ + 1 by omega] at hw2
      rw [unalignedLoad32_eq (by omega)] at hw0 hw1 hw2
      rw [copies, hn arch, some_bind]
      dsimp only
      rw [guard_of hcmp, some_bind, hr₁, some_bind, hip₁]
      dsimp only
      rw [if_neg (by omega), hbytes, some_bind, hw0, some_bind, hset₁, some_bind, hw1, some_bind, hcand,
        some_bind, unalignedLoad32_eq (by omega), some_bind, hset₂, some_bind, some_bind, hw2, some_bind]
    by_cases heq : LittleEndian.word 32 ((input.drop ip₁).take 4) =
        LittleEndian.word 32 ((input.drop cand).take 4)
    · obtain ⟨nextEmit, d₂, op₂, next, code₂, hr₂, hcode₂, hsize₂, hlt₂, hrest⟩ := ih hs₂ hcode₁ (by omega)
        ht₂ hlt hclt (fun k hk => agree_of_load (by omega) (by omega) (by
          rw [unalignedLoad32_eq (by omega), unalignedLoad32_eq (by omega), heq]) hk) (by omega)
      refine ⟨nextEmit, d₂, op₂, next, code₂, fun arch => ?_, hcode₂, hsize₂, by omega, hrest⟩
      rw [hround, if_pos heq, hr₂]
    · refine ⟨ip₁, d₁, op₁, _, _, fun arch => by rw [hround, if_neg heq], hcode₁, hsize₁, by omega,
        by omega, ?_⟩
      rintro table' ip' nextHash ⟨⟩
      refine ⟨hs₂, rfl, hlt, fun v hv => Nat.lt_succ_of_le (ht₂ v hv), ?_⟩
      rw [hash, unalignedLoad32_eq (by omega)]
      rfl

/-- Nothing is emitted yet, or the copies have saved more than the literals cost. -/
def Slack (code : Bytes) (nextEmit : Nat) : Prop :=
  (nextEmit = 0 ∧ code = []) ∨ 6 * code.length + 5 ≤ 7 * nextEmit

theorem Slack.le (h : Slack code nextEmit) : 6 * code.length ≤ 7 * nextEmit := by
  rcases h with ⟨rfl, rfl⟩ | h
  · exact Nat.le_refl 0
  · omega

theorem fragmentRounds_run {fuel ip nextHash : Nat} (hs : Sizes input shift ipLimit table)
    (hroom : op₀ + input.length + input.length / 6 + 17 ≤ dst₀.length)
    (hcode : Coded input dst₀ op₀ dst op nextEmit code) (hslack : Slack code nextEmit)
    (ht : ∀ v, v ∈ table → v < ip) (hip : nextEmit < ip) (hh : hash input ip shift = some nextHash)
    (hfuel : input.length - nextEmit < fuel) (hle : nextEmit ≤ input.length) :
    ∃ nextEmit' dst' op' code',
      (∀ arch, fragmentRounds arch input shift ipLimit fuel table dst op nextEmit ip nextHash =
          some (nextEmit', dst', op')) ∧
        Coded input dst₀ op₀ dst' op' nextEmit' code' ∧ Slack code' nextEmit' ∧
        nextEmit' ≤ input.length := by
  induction fuel generalizing table dst op nextEmit ip nextHash code with
  | zero => omega
  | succ fuel ih =>
    have hblock := hs.block
    have hlim := hs.limit
    unfold kInputMarginBytes at hlim
    obtain ⟨found, table₁, hr₁, hs₁, hfound⟩ := scan_run (input.length + 1) 32 hs ht hh
      (Nat.le_refl 32) (by omega) (by omega)
    rcases found with _ | ⟨ip₁, candidate⟩
    · refine ⟨nextEmit, dst, op, code, fun arch => ?_, hcode, hslack, hle⟩
      rw [fragmentRounds, guard_of hip, some_bind, hr₁]
      rfl
    · obtain ⟨hge₁, hlt₁, hc, hm, ht₁⟩ := hfound ip₁ candidate rfl
      have hop := hcode.emitted.op_eq
      have hlen := hcode.emitted.length
      have hsize := hslack.le
      obtain ⟨d₂, op₂, code₂, hr₂, he₂, hd₂, hl₂, -⟩ := emitLiteral_run input nextEmit (ip₁ - nextEmit)
        true dst op (by omega) (by omega) (by omega) (fun _ => by omega) (by omega)
      have hcode₂ := hcode.literal he₂ hd₂
      rw [Nat.add_sub_cancel' (by omega)] at hcode₂
      obtain ⟨nextEmit₃, d₃, op₃, next, code₃, hr₃, hcode₃, hl₃, hlt₃, hle₃, hnext⟩ := copies_run
        (input.length + 1) hs₁ hroom hcode₂ (by rw [List.length_append]; omega) ht₁ hlt₁ hc hm
        (by omega)
      have hround (arch : Arch) :
          fragmentRounds arch input shift ipLimit (fuel + 1) table dst op nextEmit ip nextHash =
            next.elim (some (nextEmit₃, d₃, op₃)) fun (table, ip, nextHash) =>
              fragmentRounds arch input shift ipLimit fuel table d₃ op₃ nextEmit₃ ip nextHash := by
        rw [fragmentRounds, guard_of hip, some_bind, hr₁, some_bind]
        dsimp only
        rw [guard_of (show nextEmit + 16 ≤ input.length by omega), some_bind, hr₂, some_bind, hr₃ arch]
        rcases next with _ | ⟨table₃, ip₃, nextHash₃⟩ <;> rfl
      rcases next with _ | ⟨table₃, ip₃, nextHash₃⟩
      · exact ⟨nextEmit₃, d₃, op₃, code₃, hround, hcode₃, .inr hl₃, hle₃⟩
      · obtain ⟨hs₃, rfl, hlt, ht₃, hh₃⟩ := hnext table₃ ip₃ nextHash₃ rfl
        obtain ⟨nextEmit', dst', op', code', hr, hrest⟩ := ih hs₃ hcode₃ (.inr hl₃) ht₃
          (Nat.lt_succ_self _) hh₃ (by omega) hle₃
        exact ⟨nextEmit', dst', op', code', fun arch => (hround arch).trans (hr arch), hrest⟩

theorem emitMatches_run (shift : Nat) (hblock : input.length ≤ kBlockSize)
    (hroom : op₀ + input.length + input.length / 6 + 17 ≤ dst₀.length) (hshift : shift ≤ 32)
    (htable : table.length = 2 ^ (32 - shift)) (hzero : ∀ v, v ∈ table → v = 0) :
    ∃ nextEmit dst op code,
      (∀ arch, emitMatches arch input shift table dst₀ op₀ = some (nextEmit, dst, op)) ∧
        Coded input dst₀ op₀ dst op nextEmit code ∧ Slack code nextEmit ∧ nextEmit ≤ input.length := by
  have hstart : Coded input dst₀ op₀ dst₀ op₀ 0 [] :=
    ⟨⟨rfl, rfl, by omega, (List.append_nil _).symm⟩, fun pre => by
      rw [Format.decode_nil, List.take_zero, List.append_nil]⟩
  rcases Nat.lt_or_ge input.length kInputMarginBytes with h15 | h15
  · exact ⟨0, dst₀, op₀, [], fun arch => if_neg (Nat.not_le_of_lt h15), hstart, .inl ⟨rfl, rfl⟩,
      Nat.zero_le _⟩
  · have hlimit : input.length - kInputMarginBytes + kInputMarginBytes = input.length :=
      Nat.sub_add_cancel h15
    have hge : 15 ≤ input.length := h15
    obtain ⟨v, hv⟩ := hash_eq input 1 shift (by omega)
    have hs : Sizes input shift (input.length - kInputMarginBytes) table := ⟨hblock, hlimit, hshift, htable⟩
    obtain ⟨nextEmit, dst, op, code, hr, hrest⟩ := fragmentRounds_run hs hroom hstart
      (.inl ⟨rfl, rfl⟩) (fun v hv => by rw [hzero v hv]; decide) Nat.one_pos hv
      (show input.length - 0 < input.length + 1 by omega) (Nat.zero_le _)
    refine ⟨nextEmit, dst, op, code, fun arch => ?_, hrest⟩
    rw [emitMatches, if_pos h15, hv]
    exact hr arch

/-- **`CompressFragment`** runs to its end on any block, without an access outside of the input, the
table or an output of `MaxCompressedLength` bytes. The code decodes to the block, whatever was decoded
before it, and only a block of less than six bytes costs more than a sixth. -/
theorem compressFragment_run (input dst₀ : Bytes) (op₀ : Nat) (table : List Nat)
    (hblock : input.length ≤ kBlockSize)
    (hroom : op₀ + input.length + input.length / 6 + 17 ≤ dst₀.length) {k : Nat} (h8 : 8 ≤ k) (h14 : k ≤ 14)
    (htable : table.length = 2 ^ k) (hzero : ∀ v, v ∈ table → v = 0) :
    ∃ dst op code, (∀ arch, compressFragment arch input dst₀ op₀ table = some (dst, op)) ∧
      Emitted dst₀ op₀ dst op code ∧ (∀ pre, Format.decode code pre = some (pre ++ input)) ∧
      6 * code.length ≤ 7 * input.length + 5 ∧ (6 ≤ input.length → 6 * code.length ≤ 7 * input.length) := by
  have hsize : ∀ k : Fin 15, 8 ≤ k.val → 2 ^ k.val &&& (2 ^ k.val - 1) = 0 ∧
      (32 - Bits.log2Floor (BitVec.ofNat 32 (2 ^ k.val))).toNat = 32 - k.val ∧
      (2 ^ 32 - 1) >>> (32 - k.val) = 2 ^ k.val - 1 := by decide
  obtain ⟨hpow, hshift, hmax⟩ := hsize ⟨k, by omega⟩ h8
  dsimp only at hpow hshift hmax
  have hblock' : input.length ≤ 2 ^ 16 := hblock
  obtain ⟨nextEmit, dst, op, code, hr, hcode, hslack, hle⟩ := emitMatches_run (32 - k)
    hblock hroom (by omega) (by rw [htable]; congr 1; omega) hzero
  have hop := hcode.emitted.op_eq
  have hlen := hcode.emitted.length
  have hcl := hslack.le
  have hrun (arch : Arch) : compressFragment arch input dst₀ op₀ table =
      if nextEmit < input.length then emitLiteral input nextEmit (input.length - nextEmit) false dst op
      else some (dst, op) := by
    rw [compressFragment, guard_of hblock, some_bind, htable, guard_of hpow, some_bind]
    dsimp only
    rw [hshift, guard_of hmax, some_bind, hr arch, some_bind]
  rcases Nat.lt_or_ge nextEmit input.length with hlt | hge
  · obtain ⟨d₁, op₁, code₁, hr₁, he₁, hd₁, hl₁, hl₁'⟩ := emitLiteral_run input nextEmit
      (input.length - nextEmit) false dst op (by omega) (by omega)
      (by omega) (fun h => (by cases h)) (by omega)
    have hcode₁ := hcode.literal he₁ hd₁
    rw [Nat.add_sub_cancel' hle] at hcode₁
    refine ⟨d₁, op₁, code ++ code₁, fun arch => ?_, hcode₁.emitted, fun pre => ?_, ?_⟩
    · rw [hrun, if_pos hlt, hr₁]
    · rw [hcode₁.decodes, List.take_length]
    · rw [List.length_append]
      rcases hslack with ⟨rfl, rfl⟩ | hs
      · rw [List.length_nil]
        omega
      · omega
  · refine ⟨dst, op, code, fun arch => ?_, hcode.emitted, fun pre => ?_, by omega, fun _ => by omega⟩
    · rw [hrun, if_neg (Nat.not_lt_of_le hge)]
    · rw [hcode.decodes, List.take_of_length_le hge]

end Snappy
