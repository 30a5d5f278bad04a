import PyLeveldb.Snappy.SinkSource
import PyLeveldb.Snappy.Writer

/-!
# The decompressor (`SnappyDecompressor`)

`DecompressAllTags` reads tags out of a source whose bytes come in regions of any size. A tag that
does not end in its region is put together in a buffer of five bytes (`refillTag`), and a literal is
written region by region (`appendLiteral`).

* `Settled d ip`, `Ready d ip`: what is left to read is `ip`; and its first tag can be read where `ip_`
  points.
* `refillTag_run`, `appendLiteral_run`, `step_run`: what each part does to the bytes left.
* `decompressAllTags_run`: the whole run ends, in the end of the input and with the bytes that
  `Format.decode` gives exactly when there are such bytes and they have the expected length.
-/

namespace Snappy

open Lz77 (copyBack)

/-- `char_table`: length, offset / 256 and number of further bytes, for each first byte of a tag. -/
def charTable : List Nat :=
  [0x0001, 0x0804, 0x1001, 0x2001, 0x0002, 0x0805, 0x1002, 0x2002, 0x0003, 0x0806, 0x1003, 0x2003,
   0x0004, 0x0807, 0x1004, 0x2004, 0x0005, 0x0808, 0x1005, 0x2005, 0x0006, 0x0809, 0x1006, 0x2006,
   0x0007, 0x080a, 0x1007, 0x2007, 0x0008, 0x080b, 0x1008, 0x2008, 0x0009, 0x0904, 0x1009, 0x2009,
   0x000a, 0x0905, 0x100a, 0x200a, 0x000b, 0x0906, 0x100b, 0x200b, 0x000c, 0x0907, 0x100c, 0x200c,
   0x000d, 0x0908, 0x100d, 0x200d, 0x000e, 0x0909, 0x100e, 0x200e, 0x000f, 0x090a, 0x100f, 0x200f,
   0x0010, 0x090b, 0x1010, 0x2010, 0x0011, 0x0a04, 0x1011, 0x2011, 0x0012, 0x0a05, 0x1012, 0x2012,
   0x0013, 0x0a06, 0x1013, 0x2013, 0x0014, 0x0a07, 0x1014, 0x2014, 0x0015, 0x0a08, 0x1015, 0x2015,
   0x0016, 0x0a09, 0x1016, 0x2016, 0x0017, 0x0a0a, 0x1017, 0x2017, 0x0018, 0x0a0b, 0x1018, 0x2018,
   0x0019, 0x0b04, 0x1019, 0x2019, 0x001a, 0x0b05, 0x101a, 0x201a, 0x001b, 0x0b06, 0x101b, 0x201b,
   0x001c, 0x0b07, 0x101c, 0x201c, 0x001d, 0x0b08, 0x101d, 0x201d, 0x001e, 0x0b09, 0x101e, 0x201e,
   0x001f, 0x0b0a, 0x101f, 0x201f, 0x0020, 0x0b0b, 0x1020, 0x2020, 0x0021, 0x0c04, 0x1021, 0x2021,
   0x0022, 0x0c05, 0x1022, 0x2022, 0x0023, 0x0c06, 0x1023, 0x2023, 0x0024, 0x0c07, 0x1024, 0x2024,
   0x0025, 0x0c08, 0x1025, 0x2025, 0x0026, 0x0c09, 0x1026, 0x2026, 0x0027, 0x0c0a, 0x1027, 0x2027,
   0x0028, 0x0c0b, 0x1028, 0x2028, 0x0029, 0x0d04, 0x1029, 0x2029, 0x002a, 0x0d05, 0x102a, 0x202a,
   0x002b, 0x0d06, 0x102b, 0x202b, 0x002c, 0x0d07, 0x102c, 0x202c, 0x002d, 0x0d08, 0x102d, 0x202d,
   0x002e, 0x0d09, 0x102e, 0x202e, 0x002f, 0x0d0a, 0x102f, 0x202f, 0x0030, 0x0d0b, 0x1030, 0x2030,
   0x0031, 0x0e04, 0x1031, 0x2031, 0x0032, 0x0e05, 0x1032, 0x2032, 0x0033, 0x0e06, 0x1033, 0x2033,
   0x0034, 0x0e07, 0x1034, 0x2034, 0x0035, 0x0e08, 0x1035, 0x2035, 0x0036, 0x0e09, 0x1036, 0x2036,
   0x0037, 0x0e0a, 0x1037, 0x2037, 0x0038, 0x0e0b, 0x1038, 0x2038, 0x0039, 0x0f04, 0x1039, 0x2039,
   0x003a, 0x0f05, 0x103a, 0x203a, 0x003b, 0x0f06, 0x103b, 0x203b, 0x003c, 0x0f07, 0x103c, 0x203c,
   0x0801, 0x0f08, 0x103d, 0x203d, 0x1001, 0x0f09, 0x103e, 0x203e, 0x1801, 0x0f0a, 0x103f, 0x203f,
   0x2001, 0x0f0b, 0x1040, 0x2040]

/-- `MakeEntry`. -/
def makeEntry (extra len copyOffset : Nat) : Nat := len ||| (copyOffset <<< 8) ||| (extra <<< 11)

/-- `ComputeTable`: the assignments of its five loops, by the first byte they are for. -/
def computeTable : List (Nat × Nat) :=
  (List.range' 1 60).map (fun len => ((len - 1) <<< 2, makeEntry 0 len 0)) ++
  (List.range' 1 4).map (fun extra => ((extra + 59) <<< 2, makeEntry extra 1 0)) ++
  (List.range' 4 8).flatMap (fun len => (List.range 8).map fun i =>
    (1 ||| ((len - 4) <<< 2) ||| (i <<< 5), makeEntry 1 len i)) ++
  (List.range' 1 64).map (fun len => (2 ||| ((len - 1) <<< 2), makeEntry 2 len 0)) ++
  (List.range' 1 64).map (fun len => (3 ||| ((len - 1) <<< 2), makeEntry 4 len 0))

/-- The loops assign each entry once, and what the table holds. -/
theorem computeTable_eq :
    computeTable.length = 256 ∧ (List.range 256).map (List.lookup · computeTable) = charTable.map some := by
  decide +kernel

/-- The entry of a byte. -/
def entryOf (c : UInt8) : Nat := charTable.getD c.toNat 0

/-- `wordmask`. -/
def wordmask : List (BitVec 32) := [0x0, 0xff, 0xffff, 0xffffff, 0xffffffff]

/-- A `SnappyDecompressor`. `ip` is the memory that can be read from `ip_` on, and `avail` is
`ip_limit_ - ip_`. -/
structure SnappyDecompressor where
  reader : Source
  ip : Bytes
  avail : Nat
  peeked : Nat
  eof : Bool
  scratch : Bytes

namespace SnappyDecompressor

/-- What the uninitialised `scratch_` holds. -/
abbrev Scratch := { scratch : Bytes // scratch.length = kMaximumTagLength }

/-- A new decompressor. -/
def new (reader : Source) (scratch : Scratch) : SnappyDecompressor where
  reader
  ip := []
  avail := 0
  peeked := 0
  eof := false
  scratch := scratch.val

/-- `ip += n`, which must not pass `ip_limit_`. -/
def advance (d : SnappyDecompressor) (n : Nat) : Option SnappyDecompressor :=
  if n ≤ d.avail then some { d with ip := d.ip.drop n, avail := d.avail - n } else none

/-- `ReadUncompressedLength`: `none` inside is the result `false`. -/
def readLength : Nat → Source → Nat → Nat → Option (Option Nat × Source)
  | 0, _, _, _ => none
  | fuel + 1, reader, shift, result =>
    if 32 ≤ shift then some (none, reader)
    else
      match reader.peek with
      | [] => some (none, reader)
      | c :: _ => do
        let reader ← reader.skip 1
        let result := result ||| ((c.toNat &&& 0x7f) <<< shift) % 2 ^ 32
        if c.toNat < 128 then some (some result, reader)
        else readLength fuel reader (shift + 7) result

def readUncompressedLength (reader : Source) : Option (Option Nat × Source) := readLength 6 reader 0 0

/-- The loop of `RefillTag` that reads into `scratch_` until it holds `needed` bytes. -/
def gather : Nat → Source → Bytes → Nat → Nat → Option (Bool × Source × Bytes)
  | 0, _, _, _, _ => none
  | fuel + 1, reader, scratch, nbuf, needed =>
    if nbuf < needed then
      let src := reader.peek
      if src.length = 0 then some (false, reader, scratch)
      else do
        let toAdd := min (needed - nbuf) src.length
        let scratch ← memcpy src 0 scratch nbuf toAdd
        let reader ← reader.skip toAdd
        gather fuel reader scratch (nbuf + toAdd) needed
    else some (true, reader, scratch)

/-- The part of `RefillTag` behind the fetch: `ip` points to the first byte of a tag. -/
def fetchTag (d : SnappyDecompressor) : Option (Bool × SnappyDecompressor) := do
  let c ← d.ip.head?
  let needed := (entryOf c >>> 11) + 1
  let nbuf := d.avail
  if nbuf < needed then
    let scratch ← memcpy d.ip 0 d.scratch 0 nbuf
    let reader ← d.reader.skip d.peeked
    let (ok, reader, scratch) ← gather (needed + 1) reader scratch nbuf needed
    if ok then some (true, { d with reader, scratch, peeked := 0, ip := scratch, avail := needed })
    else some (false, { d with reader, scratch, peeked := 0 })
  else if nbuf < kMaximumTagLength then
    let scratch ← memcpy d.ip 0 d.scratch 0 nbuf
    let reader ← d.reader.skip d.peeked
    some (true, { d with reader, scratch, peeked := 0, ip := scratch, avail := nbuf })
  else some (true, d)

/-- `RefillTag`. -/
def refillTag (d : SnappyDecompressor) : Option (Bool × SnappyDecompressor) :=
  if d.avail = 0 then do
    let reader ← d.reader.skip d.peeked
    let ip := reader.peek
    if ip.length = 0 then some (false, { d with reader, peeked := 0, eof := true })
    else fetchTag { d with reader, ip, avail := ip.length, peeked := ip.length }
  else fetchTag d

/-- `MAYBE_REFILL`. -/
def maybeRefill (d : SnappyDecompressor) : Option (Bool × SnappyDecompressor) :=
  if d.avail < kMaximumTagLength then refillTag d else some (true, d)

variable {W : Type} [Writer W]

/-- The literal of `literalLength` bytes at `ip`, region by region. -/
def appendLiteral : Nat → SnappyDecompressor → W → Nat → Option (Bool × SnappyDecompressor × W)
  | 0, _, _, _ => none
  | fuel + 1, d, w, literalLength =>
    if d.avail < literalLength then do
      let (ok, w) ← Writer.append w d.ip d.avail
      if !ok then some (false, d, w)
      else
        let reader ← d.reader.skip d.peeked
        let ip := reader.peek
        let next := { d with reader, ip, avail := ip.length, peeked := ip.length }
        -- the input ends too early
        if ip.length = 0 then some (false, next, w)
        else appendLiteral fuel next w (literalLength - d.avail)
    else do
      let (ok, w) ← Writer.append w d.ip literalLength
      if !ok then some (false, d, w)
      else
        let d ← d.advance literalLength
        let (more, d) ← maybeRefill d
        some (more, d, w)

/-- One round of `DecompressAllTags`. `false` is a return. -/
def step (d : SnappyDecompressor) (w : W) : Option (Bool × SnappyDecompressor × W) := do
  let c ← d.ip.head?
  let d ← d.advance 1
  if c.toNat &&& 0x3 = 0 then
    let literalLength := (c.toNat >>> 2) + 1
    let (fast, w) ← Writer.tryFastAppend w d.ip d.avail literalLength
    if fast then
      let d ← d.advance literalLength
      some (true, d, w)
    else if 61 ≤ literalLength then
      let literalLengthLength := literalLength - 60
      let length := ((← unalignedLoad32 d.ip 0) &&& (← wordmask[literalLengthLength]?)) + 1
      let d ← d.advance literalLengthLength
      appendLiteral (d.reader.available + 2) d w length.toNat
    else appendLiteral (d.reader.available + 2) d w literalLength
  else
    let entry := entryOf c
    let trailer := (← unalignedLoad32 d.ip 0) &&& (← wordmask[entry >>> 11]?)
    let length := entry &&& 0xff
    let d ← d.advance (entry >>> 11)
    let copyOffset := BitVec.ofNat 32 (entry &&& 0x700)
    let (ok, w) ← Writer.appendFromSelf w (copyOffset + trailer).toNat length
    if !ok then some (false, d, w)
    else
      let (more, d) ← maybeRefill d
      some (more, d, w)

/-- The rounds. -/
def rounds : Nat → SnappyDecompressor → W → Option (SnappyDecompressor × W)
  | 0, _, _ => none
  | fuel + 1, d, w => do
    let (more, d, w) ← step d w
    if more then rounds fuel d w else some (d, w)

/-- `DecompressAllTags`. Each round takes at least the tag's first byte. -/
def decompressAllTags (d : SnappyDecompressor) (w : W) : Option (SnappyDecompressor × W) := do
  let (more, d) ← maybeRefill d
  if more then rounds (d.avail + d.reader.available + 1) d w else some (d, w)

/-! ## The table and the words behind a tag byte -/

/-- What an entry of the table says. -/
theorem entryOf_spec (c : UInt8) :
    entryOf c >>> 11 = Format.extra c.toNat ∧ 0 < entryOf c &&& 0xff ∧ entryOf c &&& 0xff ≤ 64 ∧
      (c.toNat % 4 ≠ 0 → ∀ trailer, trailer < 2 ^ (8 * Format.extra c.toNat) →
        (entryOf c &&& 0x700) + trailer < 2 ^ 32 ∧
          Format.copyOf c.toNat trailer = .copy ((entryOf c &&& 0x700) + trailer) (entryOf c &&& 0xff)) := by
  have h : ∀ n : Fin 256,
      charTable.getD n 0 >>> 11 = Format.extra n ∧ 0 < charTable.getD n 0 &&& 0xff ∧
        charTable.getD n 0 &&& 0xff ≤ 64 ∧
        (n.val % 4 ≠ 0 → (charTable.getD n 0 &&& 0x700) + 2 ^ (8 * Format.extra n) ≤ 2 ^ 32 ∧
          (if n.val % 4 = 1 then
            charTable.getD n 0 &&& 0x700 = n.val / 32 * 256 ∧ charTable.getD n 0 &&& 0xff = n.val / 4 % 8 + 4
          else charTable.getD n 0 &&& 0x700 = 0 ∧ charTable.getD n 0 &&& 0xff = n.val / 4 + 1)) := by
    decide +kernel
  have hc := h ⟨c.toNat, c.toNat_lt⟩
  dsimp only at hc
  obtain ⟨hx, hpos, hle, hcopy⟩ := hc
  refine ⟨hx, hpos, hle, fun h0 trailer ht => ?_⟩
  obtain ⟨hlt, hval⟩ := hcopy h0
  unfold entryOf
  refine ⟨by omega, ?_⟩
  unfold Format.copyOf
  split at hval
  · next h1 => rw [if_pos h1, hval.1, hval.2]
  · next h1 => rw [if_neg h1, hval.1, hval.2, Nat.zero_add]

/-- A masked load of four bytes is the number of the first `k`. -/
theorem load_and_wordmask (ip : Bytes) (k : Nat) (hip : 4 ≤ ip.length) (hk : k ≤ 4) :
    ∃ word mask, unalignedLoad32 ip 0 = some word ∧ wordmask[k]? = some mask ∧
      (word &&& mask).toNat = LittleEndian.toNat (ip.take k) := by
  have hmask : wordmask[k]? = some (BitVec.ofNat 32 (2 ^ (8 * k) - 1)) := by
    have : ∀ k : Fin 5, wordmask[k.val]? = some (BitVec.ofNat 32 (2 ^ (8 * k.val) - 1)) := by decide
    exact this ⟨k, by omega⟩
  have hle : 2 ^ (8 * k) ≤ 2 ^ 32 := Nat.pow_le_pow_right (by decide) (by omega)
  refine ⟨_, _, unalignedLoad32_eq (by omega), hmask, ?_⟩
  rw [BitVec.toNat_and, BitVec.toNat_ofNat, Nat.mod_eq_of_lt (by omega), Nat.and_two_pow_sub_one_eq_mod,
    LittleEndian.toNat_word (by rw [List.length_take]; omega), ← LittleEndian.toNat_take, List.drop_zero,
    List.take_take, Nat.min_eq_left hk]

/-! ## What is left to read -/

/-- The bytes left to read are `ip`. -/
structure Settled (d : SnappyDecompressor) (ip : Bytes) : Prop where
  buffered : d.avail ≤ d.ip.length
  peeked : d.peeked ≤ d.reader.bytes.length
  left : d.ip.take d.avail ++ d.reader.bytes.drop d.peeked = ip
  scratch : d.scratch.length = kMaximumTagLength
  eof : d.eof = false

/-- The whole first tag stands at `ip_`, and a load of four bytes behind its first is in bounds. -/
structure Ready (d : SnappyDecompressor) (ip : Bytes) : Prop extends Settled d ip where
  readable : kMaximumTagLength ≤ d.ip.length
  tag : ∃ c rest, d.ip = c :: rest ∧ Format.extra c.toNat < d.avail

/-- The run is over; `eof` says whether in the end of the input. -/
structure Ended (d : SnappyDecompressor) (eof : Bool) : Prop where
  peeked : d.peeked ≤ d.reader.bytes.length
  eof_eq : d.eof = eof

/-- Between two tags, with `ip` left: either the next tag is ready, or there is none, or the input
ends inside it. -/
structure Between (more : Bool) (d : SnappyDecompressor) (ip : Bytes) : Prop where
  ready : more = true → Ready d ip
  ended : more = false → Ended d (decide (ip = [])) ∧ (ip ≠ [] → Format.element ip = none)

theorem Between.of_ready {d : SnappyDecompressor} {ip : Bytes} (h : Ready d ip) : Between true d ip :=
  ⟨fun _ => h, fun hf => (by cases hf)⟩

theorem advance_run {d : SnappyDecompressor} {ip : Bytes} (h : Settled d ip) {n : Nat} (hn : n ≤ d.avail) :
    ∃ d', d.advance n = some d' ∧ d' = { d with ip := d.ip.drop n, avail := d.avail - n } ∧
      Settled d' (ip.drop n) := by
  have hb := h.buffered
  refine ⟨_, if_pos hn, rfl, ?_, h.peeked, ?_, h.scratch, h.eof⟩
  · rw [List.length_drop]
    exact Nat.sub_le_sub_right hb n
  · rw [← h.left, List.drop_append_of_le_length (by rw [List.length_take]; omega), List.drop_take]

/-- All buffered bytes are used up: the next region. -/
theorem skip_peeked_run {d : SnappyDecompressor} {ip : Bytes} (h : Settled d ip) :
    ∃ reader, d.reader.skip d.peeked = some reader ∧ reader.bytes = ip.drop d.avail ∧
      d.avail ≤ ip.length ∧ d.ip.take d.avail = ip.take d.avail := by
  obtain ⟨reader, hskip, hbytes⟩ := Source.skip_run h.peeked
  have hlen : (d.ip.take d.avail).length = d.avail := by
    have := h.buffered
    rw [List.length_take]
    omega
  refine ⟨reader, hskip, ?_, ?_, ?_⟩
  · rw [hbytes, ← h.left, List.drop_append, List.drop_of_length_le (l := d.ip.take d.avail) (by omega),
      List.nil_append, hlen, Nat.sub_self, List.drop_zero]
  · rw [← h.left, List.length_append]
    omega
  · rw [← h.left, List.take_append_of_le_length (by omega), List.take_take, Nat.min_self]

/-- The reader's next region as the buffer. -/
theorem Settled.fetched {d : SnappyDecompressor} (hs : d.scratch.length = kMaximumTagLength)
    (he : d.eof = false) (reader : Source) :
    Settled { d with reader, ip := reader.peek, avail := reader.peek.length, peeked := reader.peek.length }
      reader.bytes where
  buffered := Nat.le_refl _
  peeked := reader.length_peek_le
  left := by rw [List.take_length, Source.peek_append_drop]
  scratch := hs
  eof := he

/-- `gather` ends with the first `needed` bytes of `ip` in the buffer, or finds the input too short. -/
theorem gather_run (fuel needed : Nat) {reader : Source} {scratch ip : Bytes} {nbuf : Nat}
    (hs : scratch.length = kMaximumTagLength) (hneed : needed ≤ kMaximumTagLength) (hn : nbuf ≤ needed)
    (hfuel : needed - nbuf < fuel) (hip : scratch.take nbuf ++ reader.bytes = ip) :
    ∃ ok reader' scratch', gather fuel reader scratch nbuf needed = some (ok, reader', scratch') ∧
      scratch'.length = kMaximumTagLength ∧
      (ok = true → scratch'.take needed ++ reader'.bytes = ip) ∧ (ok = false → ip.length < needed) := by
  induction fuel generalizing reader scratch nbuf with
  | zero => omega
  | succ fuel ih =>
    unfold kMaximumTagLength at *
    have hl := congrArg List.length hip
    rw [List.length_append, List.length_take, Nat.min_eq_left (by omega)] at hl
    rw [gather]
    split
    · next hlt =>
      dsimp only
      split
      · next h0 =>
        have hnil := Source.peek_eq_nil.mp (List.eq_nil_of_length_eq_zero h0)
        rw [hnil, List.length_nil] at hl
        exact ⟨false, reader, scratch, rfl, hs, fun h => (by cases h), fun _ => by omega⟩
      · next h0 =>
        obtain ⟨n, hadd⟩ : ∃ n, min (needed - nbuf) reader.peek.length = n := ⟨_, rfl⟩
        have hpeek := reader.length_peek_le
        obtain ⟨scratch₁, hm, hl₁, ht₁, -⟩ := memcpy_run reader.peek 0 scratch nbuf n (by omega) (by omega)
        obtain ⟨reader₁, hskip, hb₁⟩ := Source.skip_run (s := reader) (n := n) (by omega)
        have hip₁ : scratch₁.take (nbuf + n) ++ reader₁.bytes = ip := by
          rw [ht₁ n (Nat.le_refl n), hb₁, List.append_assoc, List.drop_zero, ← hip]
          have : reader.peek.take n = reader.bytes.take n := by
            rw [← reader.peek_append_drop, List.take_append_of_le_length (by omega)]
          rw [this, List.take_append_drop]
        obtain ⟨ok, reader', scratch', hr, hrest⟩ := ih (hl₁.trans hs) (by omega) (by omega) hip₁
        refine ⟨ok, reader', scratch', ?_, hrest⟩
        simp only [hadd, hm, hskip, Option.bind_eq_bind, Option.bind_some]
        exact hr
    · next hge =>
      obtain rfl : nbuf = needed := by omega
      exact ⟨true, reader, scratch, rfl, hs, fun _ => hip, fun h => (by cases h)⟩

/-- A stream that ends inside its first tag has no first element. -/
theorem element_eq_none {c : UInt8} {ip : Bytes} (h : ip.length < Format.extra c.toNat) :
    Format.element (c :: ip) = none := if_neg (by omega)

theorem fetchTag_run {d : SnappyDecompressor} {c : UInt8} {ip : Bytes} (h : Settled d (c :: ip))
    (ha : 0 < d.avail) : ∃ more d', d.fetchTag = some (more, d') ∧ Between more d' (c :: ip) := by
  have hbuf := h.buffered
  have hs := h.scratch
  obtain ⟨rest, hd⟩ : ∃ rest, d.ip = c :: rest := by
    have hleft := h.left
    rcases hip : d.ip with _ | ⟨c', rest⟩
    · rw [hip, List.length_nil] at hbuf
      omega
    · obtain ⟨n, hn⟩ : ∃ n, d.avail = n + 1 := ⟨d.avail - 1, by omega⟩
      rw [hip, hn, List.take_succ_cons, List.cons_append] at hleft
      exact ⟨rest, by rw [(List.cons.inj hleft).1]⟩
  obtain ⟨hx, -⟩ := entryOf_spec c
  have hx4 := Format.extra_le c.toNat c.toNat_lt
  obtain ⟨reader, hskip, hbytes, hlen, htake⟩ := skip_peeked_run h
  rw [fetchTag, hd]
  simp only [List.head?_cons, Option.bind_eq_bind, Option.bind_some, hx]
  rw [← hd]
  unfold kMaximumTagLength at *
  split
  · next hneed =>
    obtain ⟨scratch, hm, hl, ht, -⟩ := memcpy_run d.ip 0 d.scratch 0 d.avail (by omega) (by omega)
    have hip : scratch.take d.avail ++ reader.bytes = c :: ip := by
      have := ht d.avail (Nat.le_refl _)
      rw [Nat.zero_add, List.take_zero, List.nil_append, List.drop_zero] at this
      rw [this, htake, hbytes, List.take_append_drop]
    obtain ⟨ok, reader', scratch', hg, hl', hok, hbad⟩ := gather_run (Format.extra c.toNat + 1 + 1)
      (Format.extra c.toNat + 1) (hl.trans hs) (by unfold kMaximumTagLength; omega) (by omega) (by omega)
      hip
    unfold kMaximumTagLength at hl'
    rw [hm, Option.bind_some, hskip, Option.bind_some, hg, Option.bind_some]
    cases ok with
    | true =>
      have hleft := hok rfl
      refine ⟨true, _, rfl, .of_ready ⟨⟨?_, Nat.zero_le _, hleft, hl', h.eof⟩, ?_, ?_⟩⟩
      · exact hl' ▸ (show Format.extra c.toNat + 1 ≤ 5 by omega)
      · exact Nat.le_of_eq hl'.symm
      · obtain _ | ⟨c', rest'⟩ := scratch'
        · cases hl'
        · rw [List.take_succ_cons, List.cons_append] at hleft
          exact ⟨c', rest', rfl, (List.cons.inj hleft).1 ▸ Nat.lt_succ_self _⟩
    | false =>
      have hshort := hbad rfl
      rw [List.length_cons] at hshort
      refine ⟨false, _, rfl, fun h => (by cases h), fun _ => ⟨⟨Nat.zero_le _, ?_⟩, fun _ => ?_⟩⟩
      · rw [decide_eq_false (List.cons_ne_nil c ip)]
        exact h.eof
      · exact element_eq_none (by omega)
  · next hneed =>
    split
    · next h5 =>
      obtain ⟨scratch, hm, hl, ht, -⟩ := memcpy_run d.ip 0 d.scratch 0 d.avail (by omega) (by omega)
      have ht' := ht d.avail (Nat.le_refl _)
      rw [Nat.zero_add, List.take_zero, List.nil_append, List.drop_zero] at ht'
      rw [hm, Option.bind_some, hskip, Option.bind_some]
      refine ⟨true, _, rfl, .of_ready ⟨⟨?_, Nat.zero_le _, ?_, hl.trans hs, h.eof⟩, ?_, ?_⟩⟩
      · exact Nat.le_of_lt ((hl.trans hs).symm ▸ h5)
      · show scratch.take d.avail ++ reader.bytes.drop 0 = c :: ip
        rw [ht', htake, List.drop_zero, hbytes, List.take_append_drop]
      · exact Nat.le_of_eq (hl.trans hs).symm
      · obtain _ | ⟨c', rest'⟩ := scratch
        · rw [hs] at hl
          cases hl
        · obtain ⟨n, hn⟩ : ∃ n, d.avail = n + 1 := ⟨d.avail - 1, by omega⟩
          rw [hn, hd, List.take_succ_cons, List.take_succ_cons] at ht'
          refine ⟨c', rest', rfl, ?_⟩
          rw [(List.cons.inj ht').1]
          exact Nat.lt_of_succ_le (Nat.le_of_not_lt hneed)
    · next h5 =>
      exact ⟨true, d, rfl, .of_ready ⟨h, by unfold kMaximumTagLength; omega, c, rest, hd, by omega⟩⟩

theorem refillTag_run {d : SnappyDecompressor} {ip : Bytes} (h : Settled d ip) :
    ∃ more d', d.refillTag = some (more, d') ∧ Between more d' ip := by
  rw [refillTag]
  split
  · next h0 =>
    obtain ⟨reader, hskip, hbytes, -, -⟩ := skip_peeked_run h
    rw [h0, List.drop_zero] at hbytes
    rw [hskip, Option.bind_eq_bind, Option.bind_some]
    dsimp only
    split
    · next hp =>
      have hnil : ip = [] := hbytes ▸ Source.peek_eq_nil.mp (List.eq_nil_of_length_eq_zero hp)
      refine ⟨false, _, rfl, fun h => (by cases h), fun _ => ⟨⟨Nat.zero_le _, ?_⟩, fun h => absurd hnil h⟩⟩
      exact (decide_eq_true hnil).symm
    · next hp =>
      have hset := Settled.fetched h.scratch h.eof reader
      rw [hbytes] at hset
      obtain _ | ⟨c, ip⟩ := ip
      · exact absurd (congrArg List.length (Source.peek_eq_nil.mpr hbytes)) hp
      · exact fetchTag_run hset (Nat.pos_of_ne_zero hp)
  · next h0 =>
    obtain ⟨c, ip', rfl⟩ : ∃ c ip', ip = c :: ip' := by
      obtain _ | ⟨c, ip'⟩ := ip
      · have := congrArg List.length h.left
        have hb := h.buffered
        rw [List.length_append, List.length_take, List.length_nil] at this
        omega
      · exact ⟨c, ip', rfl⟩
    exact fetchTag_run h (Nat.pos_of_ne_zero h0)

theorem maybeRefill_run {d : SnappyDecompressor} {ip : Bytes} (h : Settled d ip) :
    ∃ more d', d.maybeRefill = some (more, d') ∧ Between more d' ip := by
  rw [maybeRefill]
  split
  · exact refillTag_run h
  · next h5 =>
    have hb := h.buffered
    refine ⟨true, d, rfl, .of_ready ⟨h, by omega, ?_⟩⟩
    unfold kMaximumTagLength at h5
    rcases hip : d.ip with _ | ⟨c, rest⟩
    · rw [hip, List.length_nil] at hb
      omega
    · have := Format.extra_le c.toNat c.toNat_lt
      exact ⟨c, rest, rfl, by omega⟩

/-! ## One round, and all of them -/

variable {limit : Nat} {P : W → Bytes → Prop} {Q : W → Prop} {d : SnappyDecompressor} {w : W} {ip out : Bytes}

/-- A literal is written as a whole, or the run is over and no output fits. -/
theorem appendLiteral_run (hw : Writer.Produces limit P Q) {fuel n : Nat} (h : Settled d ip)
    (hP : P w out) (hn : n ≤ 2 ^ 32) (hfuel : ip.length - d.avail + 1 < fuel) :
    ∃ more d' w', appendLiteral fuel d w n = some (more, d', w') ∧
      ((n ≤ ip.length ∧ P w' (out ++ ip.take n) ∧ Between more d' (ip.drop n)) ∨
        (more = false ∧ Ended d' false ∧ Q w' ∧ (ip.length < n ∨ limit < out.length + n))) := by
  induction fuel generalizing d w ip out n with
  | zero => omega
  | succ fuel ih =>
    obtain ⟨reader, hskip, hbytes, hlen, htake⟩ := skip_peeked_run h
    rw [appendLiteral]
    split
    · next hlt =>
      obtain ⟨ok, w₁, hr, hok, hP₁, hQ₁⟩ := hw.appends hP h.buffered (by omega)
      rw [hr, Option.bind_eq_bind, Option.bind_some]
      dsimp only
      cases ok with
      | false =>
        have hno : ¬(out.length + d.avail ≤ limit) := fun hle => by cases hok.mpr hle
        exact ⟨false, d, w₁, rfl, .inr ⟨rfl, ⟨h.peeked, h.eof⟩, hQ₁, by omega⟩⟩
      | true =>
        have hP₁ := hP₁ rfl
        rw [htake] at hP₁
        have hset := Settled.fetched h.scratch h.eof reader
        simp only [Bool.not_true, Bool.false_eq_true, if_false, hskip, Option.bind_eq_bind, Option.bind_some]
        split
        · next h0 =>
          have hnil := hbytes ▸ Source.peek_eq_nil.mp (List.eq_nil_of_length_eq_zero h0)
          have hle := List.drop_eq_nil_iff.mp hnil
          exact ⟨false, _, w₁, rfl, .inr ⟨rfl, ⟨hset.peeked, h.eof⟩, hQ₁, by omega⟩⟩
        · next h0 =>
          have hleft := congrArg List.length hbytes
          rw [List.length_drop] at hleft
          obtain ⟨more, d', w', hr', hres⟩ := ih (n := n - d.avail) hset hP₁ (by omega) (by
            have := reader.length_peek_le
            show reader.bytes.length - reader.peek.length + 1 < fuel
            omega)
          refine ⟨more, d', w', hr', hres.imp ?_ ?_⟩
          · rintro ⟨hle, hP', hb⟩
            rw [hbytes, List.append_assoc, ← List.take_add, Nat.add_sub_cancel' (by omega)] at hP'
            rw [hbytes, List.drop_drop, Nat.add_sub_cancel' (by omega)] at hb
            exact ⟨by omega, hP', hb⟩
          · rintro ⟨hm, he, hQ, hs⟩
            rw [List.length_append, List.length_take, Nat.min_eq_left hlen] at hs
            exact ⟨hm, he, hQ, by omega⟩
    · next hge =>
      have hbuf := h.buffered
      obtain ⟨ok, w₁, hr, hok, hP₁, hQ₁⟩ := hw.appends hP (show n ≤ d.ip.length by omega) hn
      rw [hr, Option.bind_eq_bind, Option.bind_some]
      dsimp only
      cases ok with
      | false =>
        have hno : ¬(out.length + n ≤ limit) := fun hle => by cases hok.mpr hle
        exact ⟨false, d, w₁, rfl, .inr ⟨rfl, ⟨h.peeked, h.eof⟩, hQ₁, by omega⟩⟩
      | true =>
        have hn' : d.ip.take n = ip.take n := by
          have := congrArg (List.take n) htake
          rwa [List.take_take, List.take_take, Nat.min_eq_left (by omega)] at this
        obtain ⟨d₁, hadv, -, hset⟩ := advance_run h (n := n) (by omega)
        obtain ⟨more, d₂, hfill, hb⟩ := maybeRefill_run hset
        simp only [Bool.not_true, Bool.false_eq_true, if_false, hadv, Option.bind_eq_bind, Option.bind_some,
          hfill]
        exact ⟨more, d₂, w₁, rfl, .inl ⟨by omega, hn' ▸ hP₁ rfl, hb⟩⟩

/-- What one round does: it expands the first element into the output, or ends the run because there
is no such element, it refers to nothing, or its bytes do not fit. -/
theorem step_run (hw : Writer.Produces limit P Q) (h : Ready d ip) (hP : P w out) :
    ∃ more d' w', step d w = some (more, d', w') ∧
      ((∃ t rest out', Format.element ip = some (t, rest) ∧ t.expand out = some out' ∧ P w' out' ∧
          Between more d' rest) ∨
        (more = false ∧ Ended d' false ∧ Q w' ∧ ∀ t rest out', Format.element ip = some (t, rest) →
          t.expand out = some out' → limit < out'.length)) := by
  obtain ⟨c, buf, hd, htag⟩ := h.tag
  have hread := h.readable
  have hbuf := h.buffered
  obtain ⟨hx, hpos, h64, hcopy⟩ := entryOf_spec c
  have hx4 := Format.extra_le c.toNat c.toNat_lt
  obtain ⟨ip, rfl⟩ : ∃ ip', ip = c :: ip' := by
    have hleft := h.left
    obtain ⟨n, hn⟩ : ∃ n, d.avail = n + 1 := ⟨d.avail - 1, by omega⟩
    rw [hd, hn, List.take_succ_cons, List.cons_append] at hleft
    exact ⟨_, hleft.symm⟩
  obtain ⟨d₁, hadv, hd₁, hset⟩ := advance_run h.toSettled (n := 1) (by omega)
  rw [List.drop_succ_cons, List.drop_zero] at hset
  have hip₁ : d₁.ip = buf := by rw [hd₁, hd]; rfl
  have havail : d₁.avail = d.avail - 1 := by rw [hd₁]
  rw [hd, List.length_cons] at hread hbuf
  unfold kMaximumTagLength at hread
  -- the bytes behind the first are those of the tag
  have htake : d₁.ip.take (Format.extra c.toNat) = ip.take (Format.extra c.toNat) ∧
      Format.extra c.toNat ≤ ip.length := by
    obtain ⟨-, -, -, hlen, ht⟩ := skip_peeked_run hset
    have := congrArg (List.take (Format.extra c.toNat)) ht
    rw [List.take_take, List.take_take, Nat.min_eq_left (by omega)] at this
    exact ⟨this, by omega⟩
  have helem := @Format.element_cases c ip
  obtain ⟨v, hv⟩ : ∃ v, LittleEndian.toNat (ip.take (Format.extra c.toNat)) = v := ⟨_, rfl⟩
  rw [hv] at helem
  have hvlt : v < 2 ^ (8 * Format.extra c.toNat) := by
    have := LittleEndian.toNat_lt (ip.take (Format.extra c.toNat))
    rwa [hv, List.length_take, Nat.min_eq_left htake.2] at this
  rw [step, hd]
  simp only [List.head?_cons, Option.bind_eq_bind, Option.bind_some, hadv]
  have hand : c.toNat &&& 0x3 = c.toNat % 4 := Nat.and_two_pow_sub_one_eq_mod c.toNat 2
  rw [hand]
  split
  · next h0 =>
    have hlit : c.toNat >>> 2 = c.toNat / 4 := Nat.shiftRight_eq_div_pow c.toNat 2
    rw [hlit]
    obtain ⟨fast, w₁, htry, hsame, hfast⟩ := hw.tries hP (n := c.toNat / 4 + 1) hset.buffered
    rw [htry, Option.bind_some]
    -- a literal of `n` bytes behind `k` bytes of its length, as `appendLiteral` takes it
    have hrun {k n : Nat} (hk : Format.extra c.toNat = k) (hn : Format.literalLength c.toNat v = n)
        {d₂ : SnappyDecompressor} (hset₂ : Settled d₂ (ip.drop k)) (hn32 : n ≤ 2 ^ 32) {fuel : Nat}
        (hfuel : (ip.drop k).length - d₂.avail + 1 < fuel) :
        ∃ more d' w', appendLiteral fuel d₂ w n = some (more, d', w') ∧
          ((∃ t rest out', Format.element (c :: ip) = some (t, rest) ∧ t.expand out = some out' ∧ P w' out' ∧
              Between more d' rest) ∨
            (more = false ∧ Ended d' false ∧ Q w' ∧ ∀ t rest out', Format.element (c :: ip) = some (t, rest) →
              t.expand out = some out' → limit < out'.length)) := by
      obtain ⟨more, d', w', hr, hres⟩ := appendLiteral_run hw hset₂ hP hn32 hfuel
      have hdrop := List.length_drop (i := k) (l := ip)
      refine ⟨more, d', w', hr, hres.imp ?_ ?_⟩
      · rintro ⟨hle, hP', hb⟩
        refine ⟨.literal ((ip.drop k).take n), ip.drop (k + n), out ++ (ip.drop k).take n,
          helem.mpr ⟨htake.2, .inl ⟨h0, n, hn, by omega, by rw [hk], by rw [hk]⟩⟩, rfl, hP', ?_⟩
        rwa [← List.drop_drop]
      · rintro ⟨hm, he, hQ, hno⟩
        refine ⟨hm, he, hQ, fun t rest out' ht hout => ?_⟩
        obtain ⟨-, ⟨-, n', hn', hlen, rfl, -⟩ | ⟨hne, -⟩⟩ := helem.mp ht
        · obtain rfl := Option.some.inj hout
          obtain rfl : n = n' := hn.symm.trans hn'
          rw [List.length_append, List.length_take, hk]
          omega
        · exact absurd h0 hne
    cases fast with
    | true =>
      obtain ⟨havl, h61, hP₁⟩ := hfast rfl
      unfold kMaximumTagLength at havl
      have hx0 : Format.extra c.toNat = 0 := by
        rw [Format.extra, h0]
        exact if_pos (by omega)
      have hn : Format.literalLength c.toNat v = c.toNat / 4 + 1 := if_pos (by omega)
      obtain ⟨d₂, hadv₂, hd₂, hset₂⟩ := advance_run hset (n := c.toNat / 4 + 1) (by omega)
      have hb₂ := hset₂.buffered
      obtain ⟨-, -, -, hlen, ht⟩ := skip_peeked_run hset
      have ht' : d₁.ip.take (c.toNat / 4 + 1) = ip.take (c.toNat / 4 + 1) := by
        have := congrArg (List.take (c.toNat / 4 + 1)) ht
        rwa [List.take_take, List.take_take, Nat.min_eq_left (by omega)] at this
      rw [if_pos rfl, hadv₂, Option.bind_some]
      refine ⟨true, d₂, w₁, rfl,
        .inl ⟨_, _, _, helem.mpr ⟨htake.2, .inl ⟨h0, _, hn, ?_, rfl, rfl⟩⟩, rfl, ?_, ?_⟩⟩
      · omega
      · rw [hx0, List.drop_zero, ← ht']
        exact hP₁
      · rw [hx0, Nat.zero_add]
        -- at least five bytes are left in the region
        have ha₂ : d₂.avail = d₁.avail - (c.toNat / 4 + 1) := by rw [hd₂]
        refine .of_ready ⟨hset₂, by unfold kMaximumTagLength; omega, ?_⟩
        rcases hip : d₂.ip with _ | ⟨c', rest⟩
        · rw [hip, List.length_nil] at hb₂
          omega
        · have := Format.extra_le c'.toNat c'.toNat_lt
          exact ⟨c', rest, rfl, by omega⟩
    | false =>
      obtain rfl := hsame rfl
      rw [if_neg (fun h => (by cases h))]
      split
      · next h61 =>
        have hk : Format.extra c.toNat = c.toNat / 4 + 1 - 60 := by
          rw [Format.extra, h0]
          exact (if_neg (by omega)).trans (by omega)
        obtain ⟨word, mask, hload, hmask, hval⟩ := load_and_wordmask d₁.ip (Format.extra c.toNat)
          (by rw [hip₁]; omega) hx4
        rw [htake.1, hv] at hval
        rw [← hk]
        obtain ⟨d₂, hadv₂, hd₂, hset₂⟩ := advance_run hset (n := Format.extra c.toNat) (by omega)
        simp only [hload, hmask, Option.bind_some, hadv₂]
        refine hrun rfl ?_ hset₂ (Nat.le_of_lt (BitVec.isLt _)) ?_
        · rw [BitVec.toNat_add, hval]
          exact if_neg (by omega)
        · obtain ⟨-, -, hb, hle, -⟩ := skip_peeked_run hset₂
          have := congrArg List.length hset₂.left
          rw [List.length_append, List.length_take, Nat.min_eq_left hset₂.buffered, List.length_drop] at this
          unfold Source.available
          omega
      · next h61 =>
        have hx0 : Format.extra c.toNat = 0 := by
          rw [Format.extra, h0]
          exact if_pos (by omega)
        refine hrun hx0 (if_pos (by omega)) hset (by omega) ?_
        have := congrArg List.length hset.left
        rw [List.length_append, List.length_take, Nat.min_eq_left hset.buffered, List.length_drop] at this
        rw [List.drop_zero]
        unfold Source.available
        omega
  · next h0 =>
    obtain ⟨hlt, hcp⟩ := hcopy h0 v hvlt
    obtain ⟨word, mask, hload, hmask, hval⟩ := load_and_wordmask d₁.ip (Format.extra c.toNat)
      (by rw [hip₁]; omega) hx4
    rw [htake.1, hv] at hval
    obtain ⟨d₂, hadv₂, -, hset₂⟩ := advance_run hset (n := Format.extra c.toNat) (by omega)
    have hoff : (BitVec.ofNat 32 (entryOf c &&& 0x700) + (word &&& mask)).toNat =
        (entryOf c &&& 0x700) + v := by
      rw [BitVec.toNat_add, hval, BitVec.toNat_ofNat, Nat.mod_eq_of_lt (a := entryOf c &&& 0x700) (by omega),
        Nat.mod_eq_of_lt hlt]
    obtain ⟨ok, w₁, hr, hok, hP₁, hQ₁⟩ := hw.copies hP hlt hpos h64
    rw [hx]
    simp only [hload, hmask, Option.bind_some, hadv₂, hoff, hr]
    -- the first element is the copy that was asked for
    have hfirst {t : Lz77.Token UInt8} {rest : Bytes} (ht : Format.element (c :: ip) = some (t, rest)) :
        t = .copy ((entryOf c &&& 0x700) + v) (entryOf c &&& 0xff) := by
      obtain ⟨-, ⟨hz, -⟩ | ⟨-, rfl, -⟩⟩ := helem.mp ht
      · exact absurd hz h0
      · exact hcp
    cases ok with
    | false =>
      refine ⟨false, d₂, w₁, rfl, .inr ⟨rfl, ⟨hset₂.peeked, hset₂.eof⟩, hQ₁, fun t rest out' ht hout => ?_⟩⟩
      obtain rfl := hfirst ht
      obtain ⟨⟨hp, ho⟩, ⟨⟩⟩ := Option.ite_none_right_eq_some.mp hout
      rw [Lz77.length_copyBack hp ho]
      exact Nat.lt_of_not_le fun hle => by cases hok.mpr ⟨hp, ho, hle⟩
    | true =>
      obtain ⟨hp, ho, hle⟩ := hok.mp rfl
      obtain ⟨more, d₃, hfill, hb⟩ := maybeRefill_run hset₂
      simp only [Bool.not_true, Bool.false_eq_true, if_false, hfill, Option.bind_some]
      exact ⟨more, d₃, w₁, rfl, .inl ⟨_, _, _, helem.mpr ⟨htake.2, .inr ⟨h0, rfl, rfl⟩⟩,
        hcp ▸ Lz77.Token.expand_copy hp ho _, hP₁ rfl, hb⟩⟩

/-- The run is over, and it is a success exactly when `ip` makes of `out` as many bytes as expected. -/
structure Done (limit : Nat) (P : W → Bytes → Prop) (Q : W → Prop) (d : SnappyDecompressor) (w : W)
    (ip out : Bytes) : Prop where
  peeked : d.peeked ≤ d.reader.bytes.length
  always : Q w
  success : (d.eof && Writer.checkLength w) = true ↔
    ∃ out', Format.decode ip out = some out' ∧ out'.length = limit
  output : ∀ out', Format.decode ip out = some out' → out'.length = limit → P w out'

/-- A run that ended, without an error or with one. -/
theorem Done.of_between (hw : Writer.Produces limit P Q) (h : Between false d ip) (hP : P w out) :
    Done limit P Q d w ip out := by
  obtain ⟨⟨hp, he⟩, hnone⟩ := h.ended rfl
  obtain _ | ⟨c, ip⟩ := ip
  · refine ⟨hp, hw.always hP, ?_, ?_⟩
    · rw [he, hw.checked hP, Format.decode_nil]
      simp
    · intro out' h _
      rw [Format.decode_nil] at h
      exact Option.some.inj h ▸ hP
  · have hdec : Format.decode (c :: ip) out = none := by
      rw [Format.decode_cons, hnone (List.cons_ne_nil c ip)]
      rfl
    refine ⟨hp, hw.always hP, ?_, fun out' h => (by rw [hdec] at h; cases h)⟩
    rw [he, hdec]
    simp

/-- The bytes behind the first element decide, once it is expanded. -/
theorem Done.of_element {t : Lz77.Token UInt8} {rest out' : Bytes}
    (ht : Format.element ip = some (t, rest)) (hout : t.expand out = some out')
    (h : Done limit P Q d w rest out') : Done limit P Q d w ip out := by
  have hdec : Format.decode ip out = Format.decode rest out' := by
    rw [Format.decode_of_element ht, hout]
    rfl
  exact ⟨h.peeked, h.always, hdec ▸ h.success, hdec ▸ h.output⟩

theorem rounds_run (hw : Writer.Produces limit P Q) {fuel : Nat} (h : Ready d ip)
    (hP : P w out) (hfuel : ip.length < fuel) :
    ∃ d' w', rounds fuel d w = some (d', w') ∧ Done limit P Q d' w' ip out := by
  induction fuel generalizing d w ip out with
  | zero => omega
  | succ fuel ih =>
    obtain ⟨more, d₁, w₁, hr, ⟨t, rest, out', ht, hout, hP₁, hb⟩ | ⟨rfl, ⟨hp, he⟩, hQ, hno⟩⟩ :=
      step_run hw h hP
    · rw [rounds, hr, Option.bind_eq_bind, Option.bind_some]
      cases more with
      | false => exact ⟨d₁, w₁, rfl, .of_element ht hout (.of_between hw hb hP₁)⟩
      | true =>
        have := (Format.element_suffix ht).1
        obtain ⟨d', w', hr', hd⟩ := ih (hb.ready rfl) hP₁ (by omega)
        exact ⟨d', w', hr', .of_element ht hout hd⟩
    · rw [rounds, hr, Option.bind_eq_bind, Option.bind_some]
      -- no output that starts with the first element has the expected length
      have hnone (out' : Bytes) (hdec : Format.decode ip out = some out') : out'.length ≠ limit := by
        obtain ⟨c, buf, hd, -⟩ := h.tag
        obtain _ | ⟨c, ip⟩ := ip
        · have := congrArg List.length h.left
          have := h.readable
          have := h.buffered
          have ha : 0 < d.avail := by
            obtain ⟨_, _, -, htag⟩ := h.tag
            omega
          rw [List.length_append, List.length_take, List.length_nil] at *
          omega
        · rw [Format.decode_cons] at hdec
          obtain ⟨⟨t, rest⟩, ht, hrest⟩ := Option.bind_eq_some_iff.mp hdec
          obtain ⟨mid, hmid, hdec⟩ := Option.bind_eq_some_iff.mp hrest
          have := (Format.decode_prefix hdec).length_le
          have := hno t rest mid ht hmid
          omega
      refine ⟨d₁, w₁, rfl, hp, hQ, ?_, fun out' h hlen => absurd hlen (hnone out' h)⟩
      rw [he, Bool.false_and]
      exact ⟨fun h => (by cases h), fun ⟨out', h, hlen⟩ => absurd hlen (hnone out' h)⟩

/-- **`DecompressAllTags` is total and right**: over any source, and with any writer that has room for
the expected length, it makes no access outside of a buffer, it ends, and it ends well exactly when
the elements of the input make as many bytes as expected. -/
theorem decompressAllTags_run (hw : Writer.Produces limit P Q) (h : Settled d ip)
    (hP : P w out) :
    ∃ d' w', decompressAllTags d w = some (d', w') ∧ Done limit P Q d' w' ip out := by
  obtain ⟨more, d₁, hfill, hb⟩ := maybeRefill_run h
  rw [decompressAllTags, hfill, Option.bind_eq_bind, Option.bind_some]
  cases more with
  | false => exact ⟨d₁, w, rfl, .of_between hw hb hP⟩
  | true =>
    have hready := hb.ready rfl
    have := congrArg List.length hready.left
    rw [List.length_append, List.length_take, Nat.min_eq_left hready.buffered, List.length_drop] at this
    exact rounds_run hw hready hP (by unfold Source.available; omega)

end SnappyDecompressor

end Snappy
