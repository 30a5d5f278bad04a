import PyLeveldb.Lib.Segments
import PyLeveldb.Snappy.Uncompress

/-!
# Decompression into several buffers (`SnappyIOVecWriter`, `RawUncompressToIOVec`)

The third writer. Its buffers, one behind the other, are one memory (`Segments`); a copy from the
output so far may start in a buffer that was left long ago.

* `appendRounds_run`, `locate_run`, `copyRounds_run`: the three loops.
* `rawUncompressToIOVec_run`: decompression into buffers that together have the room.
* `rawUncompressToIOVec_flat`: they hold what the flat array would.
-/

namespace Snappy

open Lz77 (copyBack)
open SnappyDecompressor (Scratch)

/-- `SnappyIOVecWriter`. A buffer of the iovec is its bytes. -/
structure SnappyIOVecWriter where
  outputIov : List Bytes
  currIovIndex : Nat
  currIovWritten : Nat
  totalWritten : Nat
  outputLimit : Nat

namespace SnappyIOVecWriter

/-- The constructor. -/
def new (iov : List Bytes) : SnappyIOVecWriter := ⟨iov, 0, 0, 0, 2 ^ 64 - 1⟩

/-- `iov_len - offset`. The difference of sizes that would wrap around has no result. -/
def bytesBehind (iov : Bytes) (offset : Nat) : Option Nat := do
  guard (offset ≤ iov.length)
  some (iov.length - offset)

/-- The current buffer is now `curr`, with `n` bytes more. -/
def put (w : SnappyIOVecWriter) (curr : Bytes) (n : Nat) : SnappyIOVecWriter :=
  { w with
    outputIov := w.outputIov.set w.currIovIndex curr
    currIovWritten := w.currIovWritten + n
    totalWritten := w.totalWritten + n }

/-- "This iovec is full. Go to the next one", if there is one. -/
def next (w : SnappyIOVecWriter) : Option SnappyIOVecWriter :=
  if w.outputIov.length ≤ w.currIovIndex + 1 then none
  else some { w with currIovIndex := w.currIovIndex + 1, currIovWritten := 0 }

/-- The part of a round of `Append` that moves to another buffer. -/
def makeSpace (w : SnappyIOVecWriter) : Option (Option SnappyIOVecWriter) := do
  let curr ← w.outputIov[w.currIovIndex]?
  guard (w.currIovWritten ≤ curr.length)
  some (if curr.length ≤ w.currIovWritten then w.next else some w)

/-- The loop of `Append`. -/
def appendRounds : Nat → SnappyIOVecWriter → Bytes → Nat → Option (Bool × SnappyIOVecWriter)
  | 0, _, _, _ => none
  | fuel + 1, w, ip, len =>
    if 0 < len then do
      match ← w.makeSpace with
      | none => some (false, w)
      | some w =>
        let curr ← w.outputIov[w.currIovIndex]?
        let toWrite := min len (← bytesBehind curr w.currIovWritten)
        let curr ← memcpy ip 0 curr w.currIovWritten toWrite
        appendRounds fuel (w.put curr toWrite) (ip.drop toWrite) (len - toWrite)
    else some (true, w)

def append (w : SnappyIOVecWriter) (ip : Bytes) (len : Nat) : Option (Bool × SnappyIOVecWriter) :=
  if w.outputLimit < (w.totalWritten + len) % 2 ^ 64 then some (false, w)
  else appendRounds (len + w.outputIov.length + 1) w ip len

def tryFastAppend (w : SnappyIOVecWriter) (ip : Bytes) (available len : Nat) :
    Option (Bool × SnappyIOVecWriter) :=
  if len ≤ 16 ∧ 16 + kMaximumTagLength ≤ available ∧ 16 ≤ sizeSub w.outputLimit w.totalWritten then do
    let curr ← w.outputIov[w.currIovIndex]?
    if 16 ≤ (← bytesBehind curr w.currIovWritten) then do
      let curr ← unalignedCopy64 ip 0 curr w.currIovWritten
      let curr ← unalignedCopy64 ip 8 curr (w.currIovWritten + 8)
      some (true, w.put curr len)
    else some (false, w)
  else some (false, w)

/-- "Locate the iovec from which we need to start the copy", from a place in the buffer `index` on. -/
def locate (iov : List Bytes) : Nat → Nat → Nat → Option (Nat × Nat)
  | index, fromIovOffset, offset =>
    if 0 < offset then
      if offset ≤ fromIovOffset then some (index, fromIovOffset - offset)
      else
        match index with
        | 0 => none
        | index + 1 => do
          let previous ← iov[index]?
          locate iov index previous.length (offset - fromIovOffset)
    else some (index, fromIovOffset)

/-- The second loop of `AppendFromSelf`. What `Append` returns is not looked at. -/
def copyRounds : Nat → SnappyIOVecWriter → Nat → Nat → Nat → Option (Bool × SnappyIOVecWriter)
  | 0, _, _, _, _ => none
  | fuel + 1, w, fromIovIndex, fromIovOffset, len =>
    if 0 < len then do
      guard (fromIovIndex ≤ w.currIovIndex)
      if fromIovIndex ≠ w.currIovIndex then do
        let src ← w.outputIov[fromIovIndex]?
        let toCopy := min (← bytesBehind src fromIovOffset) len
        let (_, w) ← w.append (src.drop fromIovOffset) toCopy
        if 0 < len - toCopy then copyRounds fuel w (fromIovIndex + 1) 0 (len - toCopy)
        else copyRounds fuel w fromIovIndex fromIovOffset (len - toCopy)
      else do
        let curr ← w.outputIov[w.currIovIndex]?
        let toCopy := min (← bytesBehind curr w.currIovWritten) len
        if toCopy = 0 then
          match w.next with
          | none => some (false, w)
          | some w => copyRounds fuel w fromIovIndex fromIovOffset len
        else do
          let curr ← incrementalCopy curr fromIovOffset w.currIovWritten toCopy
          copyRounds fuel (w.put curr toCopy) fromIovIndex (fromIovOffset + toCopy) (len - toCopy)
    else some (true, w)

def appendFromSelf (w : SnappyIOVecWriter) (offset len : Nat) : Option (Bool × SnappyIOVecWriter) :=
  if w.totalWritten < offset ∨ offset = 0 then some (false, w)
  else if sizeSub w.outputLimit w.totalWritten < len then some (false, w)
  else do
    let (fromIovIndex, fromIovOffset) ← locate w.outputIov w.currIovIndex w.currIovWritten offset
    copyRounds (len + 2 * w.outputIov.length + 1) w fromIovIndex fromIovOffset len

instance : Writer SnappyIOVecWriter where
  setExpectedLength w len := { w with outputLimit := len }
  checkLength w := w.totalWritten = w.outputLimit
  append := append
  tryFastAppend := tryFastAppend
  appendFromSelf := appendFromSelf

/-! ## What is held -/

/-- The buffers have their sizes, and hold what they held from `limit` on. -/
structure Spares (initial : List Bytes) (limit : Nat) (w : SnappyIOVecWriter) : Prop where
  sizes : w.outputIov.map List.length = initial.map List.length
  rest : w.outputIov.flatten.drop limit = initial.flatten.drop limit

/-- The memory of the buffers starts with `out`, and the current place is behind it. -/
structure Holds (initial : List Bytes) (limit : Nat) (w : SnappyIOVecWriter) (out : Bytes) : Prop
    extends Spares initial limit w where
  total : w.totalWritten = out.length
  outputLimit : w.outputLimit = limit
  within : out.length ≤ limit
  filled : w.outputIov.flatten.take out.length = out
  place : out.length < limit → ∃ curr, w.outputIov[w.currIovIndex]? = some curr ∧
    w.currIovWritten ≤ curr.length ∧
    Segments.start w.outputIov w.currIovIndex + w.currIovWritten = out.length

variable {initial : List Bytes} {limit : Nat} {w : SnappyIOVecWriter} {out : Bytes}

theorem Spares.flatten_length (h : Spares initial limit w) :
    w.outputIov.flatten.length = initial.flatten.length := by
  rw [List.length_flatten, List.length_flatten, h.sizes]

theorem Spares.length (h : Spares initial limit w) : w.outputIov.length = initial.length := by
  have := congrArg List.length h.sizes
  rwa [List.length_map, List.length_map] at this

theorem bytesBehind_eq {iov : Bytes} {offset : Nat} (h : offset ≤ iov.length) :
    bytesBehind iov offset = some (iov.length - offset) := by
  rw [bytesBehind, guard_of h, some_bind]

/-- What is held, split at the start of the current buffer. -/
theorem Holds.out_eq (h : Holds initial limit w out) {curr : Bytes}
    (hget : w.outputIov[w.currIovIndex]? = some curr) (hle : w.currIovWritten ≤ curr.length)
    (hplace : Segments.start w.outputIov w.currIovIndex + w.currIovWritten = out.length) :
    out = (w.outputIov.take w.currIovIndex).flatten ++ curr.take w.currIovWritten := by
  rw [← Segments.take_start hget hle, hplace, h.filled]

/-- `d` was put behind what is held, in the current buffer; nothing was changed from `u` bytes on. -/
theorem Holds.put (h : Holds initial limit w out) {curr curr' d : Bytes} {u : Nat}
    (hget : w.outputIov[w.currIovIndex]? = some curr)
    (hplace : Segments.start w.outputIov w.currIovIndex + w.currIovWritten = out.length)
    (hl : curr'.length = curr.length) (hu : d.length ≤ u) (hfit : w.currIovWritten + u ≤ curr.length)
    (hlimit : out.length + u ≤ limit)
    (ht : curr'.take (w.currIovWritten + d.length) = curr.take w.currIovWritten ++ d)
    (hd : ∀ j, w.currIovWritten + u ≤ j → curr'.drop j = curr.drop j) :
    Holds initial limit (w.put curr' d.length) (out ++ d) where
  sizes := (Segments.map_length_set hget hl).trans h.sizes
  rest := (Segments.drop_set hget hd hl (by omega)).trans h.rest
  total := by rw [List.length_append, ← h.total]; rfl
  outputLimit := h.outputLimit
  within := by rw [List.length_append]; omega
  filled := by
    rw [List.length_append, ← hplace, Nat.add_assoc]
    refine (Segments.take_set hget hl (by omega)).trans ?_
    rw [ht, ← List.append_assoc, ← h.out_eq hget (by omega) hplace]
  place _ := by
    have hk := (List.getElem?_eq_some_iff.mp hget).1
    refine ⟨curr', List.getElem?_set_self hk, ?_, ?_⟩
    · rw [hl]
      exact Nat.le_trans (Nat.add_le_add_left hu _) hfit
    · rw [List.length_append, ← hplace, Nat.add_assoc]
      exact congrArg (· + _) (Segments.start_congr (Segments.map_length_set hget hl) _)

/-- There is a next buffer while something is still to be written. -/
theorem Holds.next_run (h : Holds initial limit w out) (hroom : limit ≤ initial.flatten.length)
    (hlt : out.length < limit) {curr : Bytes} (hget : w.outputIov[w.currIovIndex]? = some curr)
    (hplace : Segments.start w.outputIov w.currIovIndex + w.currIovWritten = out.length)
    (hfull : w.currIovWritten = curr.length) :
    ∃ w', w.next = some w' ∧ Holds initial limit w' out ∧ w'.outputIov = w.outputIov ∧
      w'.currIovIndex = w.currIovIndex + 1 ∧ w.currIovIndex + 1 < initial.length := by
  have hcap := h.flatten_length
  have hlen := h.length
  have hk : w.currIovIndex + 1 < w.outputIov.length := Segments.exists_next hget (by omega)
  refine ⟨_, if_neg (by omega), ⟨⟨h.sizes, h.rest⟩, h.total, h.outputLimit, h.within, h.filled, fun _ => ?_⟩,
    rfl, rfl, by omega⟩
  refine ⟨_, List.getElem?_eq_getElem hk, Nat.zero_le _, ?_⟩
  show Segments.start w.outputIov (w.currIovIndex + 1) + 0 = _
  rw [Segments.start_succ hget]
  omega

/-! ## `Append` -/

theorem makeSpace_run (h : Holds initial limit w out) (hroom : limit ≤ initial.flatten.length)
    (hlt : out.length < limit) :
    ∃ w', w.makeSpace = some (some w') ∧ Holds initial limit w' out ∧
      (w.currIovIndex < w'.currIovIndex ∧ w.currIovIndex < initial.length ∨
        w' = w ∧ ∀ curr, w.outputIov[w.currIovIndex]? = some curr → w.currIovWritten < curr.length) := by
  obtain ⟨curr, hget, hle, hplace⟩ := h.place hlt
  rw [makeSpace, hget, some_bind, guard_of hle, some_bind]
  split
  · next hfull =>
    obtain ⟨w', hn, h', -, hk', hk⟩ := h.next_run hroom hlt hget hplace (by omega)
    exact ⟨w', congrArg some hn, h', .inl ⟨by omega, by omega⟩⟩
  · next hfree =>
    refine ⟨w, rfl, h, .inr ⟨rfl, ?_⟩⟩
    rintro _ ⟨⟩
    omega

/-- The loop of `Append` puts the bytes behind what is held, over as many buffers as they take. Every
round writes something or leaves a buffer. -/
theorem appendRounds_run (fuel : Nat) {ip : Bytes} {n : Nat} (h : Holds initial limit w out)
    (hroom : limit ≤ initial.flatten.length) (hn : n ≤ ip.length) (hle : out.length + n ≤ limit)
    (hfuel : n + (initial.length - w.currIovIndex) < fuel) :
    ∃ w', appendRounds fuel w ip n = some (true, w') ∧ Holds initial limit w' (out ++ ip.take n) ∧
      w.currIovIndex ≤ w'.currIovIndex := by
  induction fuel generalizing w out ip n with
  | zero => omega
  | succ fuel ih =>
    rw [appendRounds]
    split
    swap
    · next hz =>
      obtain rfl : n = 0 := by omega
      rw [List.take_zero, List.append_nil]
      exact ⟨w, rfl, h, Nat.le_refl _⟩
    next hpos =>
    obtain ⟨w₁, hspace, h₁, hmoved⟩ := makeSpace_run h hroom (by omega)
    obtain ⟨curr, hget, hcw, hplace⟩ := h₁.place (by omega)
    have hcap := Segments.start_add_le hget
    rw [h₁.flatten_length] at hcap
    obtain ⟨t, ht⟩ : ∃ t, min n (curr.length - w₁.currIovWritten) = t := ⟨_, rfl⟩
    obtain ⟨curr', hm, hl', htake, hdrop⟩ := memcpy_run ip 0 curr w₁.currIovWritten t (by omega) (by omega)
    have htl : (ip.take t).length = t := by rw [List.length_take]; omega
    have h₂ := h₁.put hget hplace hl' (d := ip.take t) (u := t) (Nat.le_of_eq htl) (by omega) (by omega)
      (by rw [htl]; exact htake t (Nat.le_refl t)) hdrop
    rw [htl] at h₂
    have hmeasure : n - t + (initial.length - w₁.currIovIndex) < fuel := by
      obtain ⟨hlt, hk⟩ | ⟨rfl, hfree⟩ := hmoved
      · omega
      · have := hfree curr hget
        omega
    obtain ⟨w', hr, h', hk⟩ := ih h₂ (show n - t ≤ (ip.drop t).length by rw [List.length_drop]; omega)
      (by rw [List.length_append, htl]; omega) hmeasure
    refine ⟨w', ?_, ?_, ?_⟩
    · rw [hspace, some_bind]
      dsimp only
      rw [hget, some_bind, bytesBehind_eq hcw, some_bind, ht, hm, some_bind]
      exact hr
    · rw [show ip.take n = ip.take t ++ (ip.drop t).take (n - t) by
        rw [← List.take_add, Nat.add_sub_cancel' (by omega)], ← List.append_assoc]
      exact h'
    · obtain ⟨hlt, -⟩ | ⟨rfl, -⟩ := hmoved
      · exact Nat.le_trans (Nat.le_of_lt hlt) hk
      · exact hk

theorem append_fits (h : Holds initial limit w out) (hl : limit < 2 ^ 32)
    (hroom : limit ≤ initial.flatten.length) {ip : Bytes} {n : Nat} (hn : n ≤ ip.length)
    (hle : out.length + n ≤ limit) :
    ∃ w', w.append ip n = some (true, w') ∧ Holds initial limit w' (out ++ ip.take n) ∧
      w.currIovIndex ≤ w'.currIovIndex := by
  have htotal := h.total
  have hlimit := h.outputLimit
  have hlen := h.length
  rw [append, if_neg (by omega)]
  exact appendRounds_run _ h hroom hn hle (by omega)

theorem append_run (h : Holds initial limit w out) (hl : limit < 2 ^ 32)
    (hroom : limit ≤ initial.flatten.length) {ip : Bytes} {n : Nat} (hn : n ≤ ip.length) (h32 : n ≤ 2 ^ 32) :
    ∃ ok w', w.append ip n = some (ok, w') ∧ (ok = true ↔ out.length + n ≤ limit) ∧
      (ok = true → Holds initial limit w' (out ++ ip.take n)) ∧ Spares initial limit w' := by
  have htotal := h.total
  have hlimit := h.outputLimit
  have hwithin := h.within
  rcases Nat.lt_or_ge limit (out.length + n) with hlt | hle
  · rw [append, if_pos (by omega)]
    exact ⟨false, w, rfl, iff_of_false (fun h => (by cases h)) (by omega), fun h => (by cases h), h.toSpares⟩
  · obtain ⟨w', hr, h', -⟩ := append_fits h hl hroom hn hle
    exact ⟨true, w', hr, iff_of_true rfl hle, fun _ => h', h'.toSpares⟩

theorem tryFastAppend_run (h : Holds initial limit w out) (hl : limit < 2 ^ 32)
    (hroom : limit ≤ initial.flatten.length) {ip : Bytes} {available n : Nat} (ha : available ≤ ip.length) :
    ∃ ok w', w.tryFastAppend ip available n = some (ok, w') ∧ (ok = false → w' = w) ∧
      (ok = true → n + kMaximumTagLength ≤ available ∧ n < 61 ∧
        Holds initial limit w' (out ++ ip.take n)) := by
  have hwithin := h.within
  have hspace : sizeSub w.outputLimit w.totalWritten = limit - out.length := by
    rw [h.total, h.outputLimit, sizeSub_eq hwithin (by omega)]
  have hfail : ∃ ok w', some (false, w) = some (ok, w') ∧ (ok = false → w' = w) ∧
      (ok = true → n + kMaximumTagLength ≤ available ∧ n < 61 ∧
        Holds initial limit w' (out ++ ip.take n)) :=
    ⟨false, w, rfl, fun _ => rfl, fun h => (by cases h)⟩
  unfold kMaximumTagLength at *
  rw [tryFastAppend, hspace]
  split
  swap
  · exact hfail
  next hs =>
  unfold kMaximumTagLength at hs
  obtain ⟨curr, hget, hcw, hplace⟩ := h.place (by omega)
  rw [hget, some_bind, bytesBehind_eq hcw, some_bind]
  split
  swap
  · exact hfail
  next hfit =>
  obtain ⟨d₁, curr', hm₁, hm₂, hl', htake, hdrop⟩ := unalignedCopy64_twice ip 0 curr w.currIovWritten
    (by omega) (by omega)
  have htl : (ip.take n).length = n := by rw [List.length_take]; omega
  -- of the sixteen bytes copied the first `n` count
  have h' := h.put hget hplace hl' (d := ip.take n) (u := 16) (by omega) (by omega) (by omega)
    (by rw [htl]; exact htake n hs.1) hdrop
  rw [htl] at h'
  rw [hm₁, some_bind, hm₂]
  exact ⟨true, _, rfl, fun h => (by cases h), fun _ => ⟨by omega, by omega, h'⟩⟩

/-! ## `AppendFromSelf` -/

/-- The loop that goes back over the buffers finds the place `offset` bytes before. -/
theorem locate_run {iov : List Bytes} {index fromOffset offset total : Nat} {src : Bytes} (h0 : 0 < offset)
    (hget : iov[index]? = some src) (hfrom : fromOffset ≤ src.length)
    (htotal : Segments.start iov index + fromOffset = total) (hoff : offset ≤ total) :
    ∃ i o b, locate iov index fromOffset offset = some (i, o) ∧ i ≤ index ∧ iov[i]? = some b ∧
      o ≤ b.length ∧ Segments.start iov i + o + offset = total := by
  induction index generalizing fromOffset offset src total with
  | zero =>
    rw [Segments.start_zero] at htotal
    rw [locate, if_pos h0, if_pos (by omega)]
    exact ⟨0, _, src, rfl, Nat.le_refl 0, hget, by omega, by rw [Segments.start_zero]; omega⟩
  | succ index ih =>
    rw [locate, if_pos h0]
    split
    · next hle => exact ⟨index + 1, _, src, rfl, Nat.le_refl _, hget, by omega, by omega⟩
    · next hgt =>
      have hk := (List.getElem?_eq_some_iff.mp hget).1
      have hprev : iov[index]? = some iov[index] := List.getElem?_eq_getElem (by omega)
      have hstart := Segments.start_succ hprev
      obtain ⟨i, o, b, hr, hi, hb, ho, hsum⟩ := @ih _ (offset - fromOffset)
        (Segments.start iov index + iov[index].length) _ (by omega) hprev (Nat.le_refl _) rfl (by omega)
      rw [hprev, some_bind]
      exact ⟨i, o, b, hr, by omega, hb, ho, by omega⟩

/-- The bytes behind a place in the output are read from its buffer. -/
theorem Holds.read (h : Holds initial limit w out) {i o t : Nat} {src : Bytes}
    (hget : w.outputIov[i]? = some src) (hfit : o + t ≤ src.length)
    (hout : Segments.start w.outputIov i + o + t ≤ out.length) :
    (src.drop o).take t = (out.drop (Segments.start w.outputIov i + o)).take t := by
  conv_rhs => rw [← h.filled]
  rw [← Segments.drop_start hget hfit, List.drop_take, List.take_take, Nat.min_eq_left (by omega)]

/-- The second loop of `AppendFromSelf` copies on at the distance `offset`: out of another buffer
through `Append`, and byte by byte within the current one. Every round writes something or moves one
of the two places to its next buffer. -/
theorem copyRounds_run (fuel : Nat) {i o offset len : Nat} (h : Holds initial limit w out)
    (hl : limit < 2 ^ 32) (hroom : limit ≤ initial.flatten.length) (h0 : 0 < offset)
    (hoff : offset ≤ out.length) (hle : out.length + len ≤ limit)
    (hsrc : 0 < len → ∃ src, w.outputIov[i]? = some src ∧ o ≤ src.length ∧ i ≤ w.currIovIndex ∧
      Segments.start w.outputIov i + o + offset = out.length)
    (hfuel : len + (initial.length - i) + (initial.length - w.currIovIndex) < fuel) :
    ∃ w', copyRounds fuel w i o len = some (true, w') ∧
      Holds initial limit w' (copyBack out offset len) := by
  induction fuel generalizing w out i o len with
  | zero => omega
  | succ fuel ih =>
    rw [copyRounds]
    split
    swap
    · next hz =>
      obtain rfl : len = 0 := by omega
      exact ⟨w, rfl, h⟩
    next hpos =>
    obtain ⟨src, hget, ho, hik, hdist⟩ := hsrc hpos
    obtain ⟨curr, hcurr, hcw, hplace⟩ := h.place (by omega)
    have hN := h.length
    have hk := (List.getElem?_eq_some_iff.mp hcurr).1
    rw [guard_of hik, some_bind]
    split
    · next hne =>
      rw [hget, some_bind, bytesBehind_eq ho, some_bind]
      obtain ⟨t, ht⟩ : ∃ t, min (src.length - o) len = t := ⟨_, rfl⟩
      have hend := Segments.start_succ hget
      have hmono := Segments.start_mono (show i + 1 ≤ w.currIovIndex by omega) w.outputIov
      -- the buffer the bytes come from ends before the current one
      have hdata : out ++ (src.drop o).take t = copyBack out offset t := by
        have hstep := Lz77.copyBack_append_take (m := 0) (n := t) (Segments.start w.outputIov i + o) 1 h0
          hoff (by rw [Nat.one_mul]; exact hdist) (by omega) (by omega)
        rw [Nat.zero_add] at hstep
        rw [h.read hget (by omega) (by omega), hstep]
        rfl
      obtain ⟨w₁, hr₁, h₁, hk₁⟩ := append_fits h hl hroom
        (show t ≤ (src.drop o).length by rw [List.length_drop]; omega) (by omega)
      rw [hdata] at h₁
      have hlen₁ := Lz77.length_copyBack h0 hoff t
      have hstart (j : Nat) : Segments.start w₁.outputIov j = Segments.start w.outputIov j :=
        Segments.start_congr (h₁.sizes.trans h.sizes.symm) j
      have hsplit : copyBack out offset len = copyBack (copyBack out offset t) offset (len - t) := by
        rw [← Lz77.copyBack_add h0 hoff, Nat.add_sub_cancel' (by omega)]
      dsimp only
      rw [ht, hr₁, some_bind, hsplit]
      dsimp only
      split
      · next hmore =>
        obtain ⟨curr₁, hcurr₁, -, -⟩ := h₁.place (by omega)
        have hk' := (List.getElem?_eq_some_iff.mp hcurr₁).1
        refine ih h₁ (by omega) (by omega) (fun _ => ?_) (by omega)
        refine ⟨_, List.getElem?_eq_getElem (by omega), Nat.zero_le _, by omega, ?_⟩
        rw [hstart, hend]
        omega
      · next hlast => exact ih h₁ (by omega) (by omega) (fun hc => absurd hc hlast) (by omega)
    · next heq =>
      obtain rfl : i = w.currIovIndex := by omega
      rw [hcurr, some_bind, bytesBehind_eq hcw, some_bind]
      dsimp only
      split
      · next hfull =>
        obtain ⟨w₁, hn₁, h₁, hiov, hk₁, hlt⟩ := h.next_run hroom (by omega) hcurr hplace (by omega)
        rw [hn₁]
        dsimp only
        refine ih h₁ hoff hle (fun _ => ?_) (by omega)
        rw [hiov]
        exact ⟨src, hget, ho, by omega, hdist⟩
      · next hfree =>
        obtain ⟨t, ht⟩ : ∃ t, min (curr.length - w.currIovWritten) len = t := ⟨_, rfl⟩
        rw [ht] at hfree ⊢
        -- the place copied from is `offset` bytes before the current one, in the same buffer
        have hpre := Copied.begin curr o w.currIovWritten (by omega) (by omega)
        have hcl : (curr.take w.currIovWritten).length = w.currIovWritten := by rw [List.length_take]; omega
        obtain ⟨curr', hc, hl', htake, hdrop⟩ := incrementalCopy_run hpre (by omega) (by omega)
          (by omega) (show 0 < t by omega) (by omega)
        rw [hcl, Nat.add_sub_cancel_left, show w.currIovWritten - o = offset by omega] at htake
        obtain ⟨d, hd⟩ := Lz77.prefix_copyBack (curr.take w.currIovWritten) offset t
        have hdl := congrArg List.length hd
        rw [List.length_append, Lz77.length_copyBack h0 (by omega)] at hdl
        obtain rfl : d.length = t := by omega
        have h₁ := h.put hcurr hplace hl' (Nat.le_refl d.length) (by omega) (by omega)
          (htake.trans hd.symm) hdrop
        have hcopied : out ++ d = copyBack out offset d.length := by
          rw [h.out_eq hcurr hcw hplace, Lz77.copyBack_append _ h0 (by omega), ← hd, List.append_assoc]
        rw [hcopied] at h₁
        have hlen₁ := Lz77.length_copyBack h0 hoff d.length
        rw [hc, some_bind, ← Nat.add_sub_cancel' (show d.length ≤ len by omega), Lz77.copyBack_add h0 hoff,
          Nat.add_sub_cancel_left]
        refine ih h₁ (by omega) (by omega) (fun _ => ?_) ?_
        · refine ⟨curr', List.getElem?_set_self hk, by omega, Nat.le_refl _, ?_⟩
          show Segments.start (w.outputIov.set w.currIovIndex curr') w.currIovIndex + _ + _ = _
          rw [Segments.start_congr (Segments.map_length_set hcurr hl')]
          omega
        · show _ + (initial.length - w.currIovIndex) < fuel
          omega

theorem appendFromSelf_run (h : Holds initial limit w out) (hl : limit < 2 ^ 32)
    (hroom : limit ≤ initial.flatten.length) {offset len : Nat} (hlen : 0 < len) :
    ∃ ok w', w.appendFromSelf offset len = some (ok, w') ∧
      (ok = true ↔ 0 < offset ∧ offset ≤ out.length ∧ out.length + len ≤ limit) ∧
      (ok = true → Holds initial limit w' (copyBack out offset len)) ∧ Spares initial limit w' := by
  have hwithin := h.within
  have hspace : sizeSub w.outputLimit w.totalWritten = limit - out.length := by
    rw [h.total, h.outputLimit, sizeSub_eq hwithin (by omega)]
  have hfail (hno : ¬(0 < offset ∧ offset ≤ out.length ∧ out.length + len ≤ limit)) :
      ∃ ok w', some (false, w) = some (ok, w') ∧
        (ok = true ↔ 0 < offset ∧ offset ≤ out.length ∧ out.length + len ≤ limit) ∧
        (ok = true → Holds initial limit w' (copyBack out offset len)) ∧ Spares initial limit w' :=
    ⟨false, w, rfl, iff_of_false (fun h => (by cases h)) hno, fun h => (by cases h), h.toSpares⟩
  rw [appendFromSelf, hspace, h.total]
  split
  · exact hfail (by omega)
  split
  · exact hfail (by omega)
  obtain ⟨curr, hget, hcw, hplace⟩ := h.place (by omega)
  obtain ⟨i, o, src, hr, hi, hsrc, ho, hsum⟩ := locate_run (show 0 < offset by omega) hget hcw hplace
    (by omega)
  have hN := h.length
  obtain ⟨w', hr', h'⟩ := copyRounds_run (len + 2 * w.outputIov.length + 1) h hl hroom (by omega) (by omega)
    (show out.length + len ≤ limit by omega) (fun _ => ⟨src, hsrc, ho, hi, hsum⟩) (by omega)
  rw [hr, some_bind]
  exact ⟨true, w', hr', iff_of_true rfl (by omega), fun _ => h', h'.toSpares⟩

/-- The writer into buffers that together have room for the expected length. -/
theorem produces (hl : limit < 2 ^ 32) (hroom : limit ≤ initial.flatten.length) :
    Writer.Produces limit (Holds initial limit) (Spares initial limit) where
  within h := h.within
  always h := h.toSpares
  checked {w out} h := by
    show decide (w.totalWritten = w.outputLimit) = _
    rw [h.total, h.outputLimit]
  appends h _ _ hn h32 := append_run h hl hroom hn h32
  tries h _ _ _ := tryFastAppend_run h hl hroom
  copies h _ _ _ hlen _ := appendFromSelf_run h hl hroom hlen

end SnappyIOVecWriter

/-! ## The entry point -/

/-- `RawUncompressToIOVec`. -/
def rawUncompressToIOVec (compressed : Source) (scratch : Scratch) (iov : List Bytes) :
    Option (Bool × List Bytes) := do
  let (ok, _, w) ← internalUncompress compressed scratch (SnappyIOVecWriter.new iov)
  some (ok, w.outputIov)

/-- **`RawUncompressToIOVec`**, into buffers whose sizes add up to the length in front of the stream at
least, empty ones among them: no access outside of a buffer, `true` exactly when the stream stands for
bytes of that length, and then the buffers, one behind the other, start with them. They are not touched
behind that length, and their sizes stay. -/
theorem rawUncompressToIOVec_run (compressed : Source) (scratch : Scratch) (iov : List Bytes)
    (hroom : ∀ n rest, Format.header compressed.bytes = some (n, rest) → n ≤ iov.flatten.length) :
    ∃ iov', rawUncompressToIOVec compressed scratch iov =
        some ((Format.uncompressed compressed.bytes).isSome, iov') ∧
      iov'.map List.length = iov.map List.length ∧
      (∀ out, Format.uncompressed compressed.bytes = some out →
        iov'.flatten = out ++ iov.flatten.drop out.length) ∧
      ∀ n rest, Format.header compressed.bytes = some (n, rest) →
        iov'.flatten.drop n = iov.flatten.drop n := by
  rcases hh : Format.header compressed.bytes with _ | ⟨n, rest⟩
  · obtain ⟨reader, hr⟩ := internalUncompress_none scratch (SnappyIOVecWriter.new iov) hh
    rw [rawUncompressToIOVec, hr, Format.uncompressed_of_header_none hh]
    exact ⟨iov, rfl, rfl, fun out h => (by cases h), fun n rest h => (by cases h)⟩
  · have hfit := hroom n rest hh
    have hstart :
        SnappyIOVecWriter.Holds iov n (Writer.setExpectedLength (SnappyIOVecWriter.new iov) n) [] := by
      refine ⟨⟨rfl, rfl⟩, rfl, rfl, Nat.zero_le n, List.take_zero, fun hpos => ?_⟩
      obtain _ | ⟨b, bs⟩ := iov
      · exact absurd hfit (Nat.not_le_of_lt hpos)
      · exact ⟨b, rfl, Nat.zero_le _, rfl⟩
    obtain ⟨reader, w, hr, hQ, hP⟩ := internalUncompress_some scratch hh
      (SnappyIOVecWriter.produces (Format.header_lt hh) hfit) hstart
    rw [rawUncompressToIOVec, hr]
    refine ⟨w.outputIov, rfl, hQ.sizes, fun out ho => ?_, ?_⟩
    · have hd := hQ.rest
      rw [← ((Format.uncompressed_of_header hh).mp ho).2] at hd
      conv_lhs => rw [← List.take_append_drop out.length w.outputIov.flatten, (hP out ho).filled, hd]
    · rintro _ _ ⟨⟩
      exact hQ.rest

end Snappy
