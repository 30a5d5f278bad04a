import Mathlib.Data.List.Basic
import Mathlib.Data.Nat.ModEq

/-!
# Sequences with back references

A sequence as a list of tokens: symbols of its own (`literal`), or a reference to `length` symbols
that stand `offset` places back (`copy`). A reference may reach into the symbols it makes itself.

* `copyBack out offset n`: `out` with `n` symbols more, one at a time.
* `eq_copyBack`: a list that starts with `out` and repeats itself at distance `offset` from there on
  is what `copyBack` makes. The offset counts only up to a multiple (`copyBack_append_take`).
* `expand`: the tokens in turn.
-/

namespace Lz77

variable {α : Type}

/-- `out` and `n` symbols behind it, each the one `offset` places before it. -/
def copyBack (out : List α) (offset : Nat) : Nat → List α
  | 0 => out
  | n + 1 =>
    match out[out.length - offset]? with
    | some a => copyBack (out ++ [a]) offset n
    | none => out

/-- From `start` on, `l` is its own shift by `offset`. -/
def Repeats (l : List α) (start offset : Nat) : Prop :=
  ∀ i, start ≤ i → i < l.length → l[i]? = l[i - offset]?

theorem Repeats.take {l : List α} {start offset : Nat} (h : Repeats l start offset) (n : Nat) :
    Repeats (l.take n) start offset := by
  intro i hi hn
  rw [List.length_take] at hn
  rw [List.getElem?_take_of_lt (by omega), List.getElem?_take_of_lt (by omega)]
  exact h i hi (by omega)

/-- The shift by a multiple of the offset. -/
theorem Repeats.mul {l : List α} {start offset : Nat} (h : Repeats l start offset) {i k : Nat}
    (hi : i < l.length) (hk : start + k * offset ≤ i + offset) (hk' : k * offset ≤ i) :
    l[i]? = l[i - k * offset]? := by
  induction k with
  | zero => rw [Nat.zero_mul, Nat.sub_zero]
  | succ k ih =>
    rw [Nat.add_mul, Nat.one_mul] at hk hk'
    rw [ih (by omega) (by omega), h (i - k * offset) (by omega) (by omega), Nat.add_mul, Nat.one_mul,
      Nat.sub_sub]

theorem copyBack_succ {out : List α} {offset : Nat} {a : α} (h : out[out.length - offset]? = some a)
    (n : Nat) : copyBack out offset (n + 1) = copyBack (out ++ [a]) offset n := by
  rw [copyBack, h]

theorem exists_back {out : List α} {offset : Nat} (h0 : 0 < offset) (h : offset ≤ out.length) :
    ∃ a, out[out.length - offset]? = some a := ⟨_, List.getElem?_eq_getElem (by omega)⟩

theorem length_copyBack {out : List α} {offset : Nat} (h0 : 0 < offset) (h : offset ≤ out.length)
    (n : Nat) : (copyBack out offset n).length = out.length + n := by
  induction n generalizing out with
  | zero => rfl
  | succ n ih =>
    obtain ⟨a, ha⟩ := exists_back h0 h
    rw [copyBack_succ ha, ih (by rw [List.length_append]; omega), List.length_append,
      List.length_singleton]
    omega

theorem prefix_copyBack (out : List α) (offset n : Nat) : out <+: copyBack out offset n := by
  induction n generalizing out with
  | zero => exact List.prefix_rfl
  | succ n ih =>
    unfold copyBack
    split
    · next a _ => exact (List.prefix_append out [a]).trans (ih _)
    · exact List.prefix_rfl

/-- A list that repeats itself behind `out` is `out` copied on. -/
theorem eq_copyBack {l : List α} {start offset : Nat} (h0 : 0 < offset) (h : offset ≤ start)
    (hr : Repeats l start offset) (hs : start ≤ l.length) :
    l = copyBack (l.take start) offset (l.length - start) := by
  obtain ⟨n, hn⟩ : ∃ n, l.length - start = n := ⟨_, rfl⟩
  induction n generalizing start with
  | zero => rw [hn, copyBack, List.take_of_length_le (by omega)]
  | succ n ih =>
    have hlen : (l.take start).length = start := by rw [List.length_take]; omega
    have hnext : (l.take start)[(l.take start).length - offset]? = some l[start] := by
      rw [hlen, List.getElem?_take_of_lt (by omega), ← hr start (Nat.le_refl _) (by omega),
        List.getElem?_eq_getElem (by omega)]
    have hr' : Repeats l (start + 1) offset := fun i hi hl => hr i (by omega) hl
    rw [hn, copyBack_succ hnext, List.take_append_getElem]
    have := ih (by omega) hr' (by omega) (by omega)
    rwa [show l.length - (start + 1) = n by omega] at this

theorem repeats_copyBack {out : List α} {offset : Nat} (h0 : 0 < offset) (h : offset ≤ out.length)
    (n : Nat) : Repeats (copyBack out offset n) out.length offset := by
  induction n generalizing out with
  | zero => exact fun i hi hl => absurd (show i < out.length from hl) (by omega)
  | succ n ih =>
    obtain ⟨a, ha⟩ := exists_back h0 h
    rw [copyBack_succ ha]
    intro i hi hl
    rcases Nat.lt_or_ge out.length i with hlt | hge
    · exact ih (by rw [List.length_append]; omega) i
        (by rw [List.length_append, List.length_singleton]; omega) hl
    -- the first symbol made is `a`, which `out` holds `offset` places back
    · obtain rfl : i = out.length := by omega
      obtain ⟨t, ht⟩ := prefix_copyBack (out ++ [a]) offset n
      rw [← ht, List.append_assoc, List.getElem?_append_left (i := out.length - offset) (by omega),
        ha, List.getElem?_append_right (Nat.le_refl _), Nat.sub_self]
      rfl

theorem take_copyBack (out : List α) (offset n : Nat) :
    (copyBack out offset n).take out.length = out :=
  List.prefix_iff_eq_take.mp (prefix_copyBack out offset n) |>.symm

theorem copyBack_add {out : List α} {offset : Nat} (h0 : 0 < offset) (h : offset ≤ out.length)
    (m n : Nat) :
    copyBack out offset (m + n) = copyBack (copyBack out offset m) offset n := by
  induction m generalizing out with
  | zero => rw [Nat.zero_add]; rfl
  | succ m ih =>
    obtain ⟨a, ha⟩ := exists_back h0 h
    rw [Nat.add_right_comm, copyBack_succ ha, copyBack_succ ha, ih (by rw [List.length_append]; omega)]

/-- What stands further back than the offset is not read. -/
theorem copyBack_append (pre : List α) {out : List α} {offset : Nat} (h0 : 0 < offset)
    (h : offset ≤ out.length) (n : Nat) : copyBack (pre ++ out) offset n = pre ++ copyBack out offset n := by
  induction n generalizing out with
  | zero => rfl
  | succ n ih =>
    obtain ⟨a, ha⟩ := exists_back h0 h
    have hpre : (pre ++ out)[(pre ++ out).length - offset]? = some a := by
      rw [List.length_append, Nat.add_sub_assoc h, List.getElem?_append_right (by omega),
        Nat.add_sub_cancel_left, ha]
    rw [copyBack_succ hpre, copyBack_succ ha, List.append_assoc,
      ih (by rw [List.length_append]; omega)]

/-- The next symbols of a copy may be read from any place that is a multiple of the offset back and
not before the symbols the copy started from. -/
theorem copyBack_append_take {out : List α} {offset m n : Nat} (source k : Nat) (h0 : 0 < offset)
    (h : offset ≤ out.length) (hs : source + k * offset = (copyBack out offset m).length)
    (hlow : out.length ≤ source + offset) (hn : n ≤ k * offset) :
    copyBack out offset (m + n) =
      copyBack out offset m ++ ((copyBack out offset m).drop source).take n := by
  have hm := length_copyBack h0 h m
  have hmn := length_copyBack h0 h (m + n)
  have hr := repeats_copyBack h0 h (m + n)
  have hpre : (copyBack out offset (m + n)).take (out.length + m) = copyBack out offset m := by
    have := take_copyBack (copyBack out offset m) offset n
    rwa [← copyBack_add h0 h, hm] at this
  apply List.ext_getElem?
  intro i
  rcases Nat.lt_or_ge i (out.length + m) with hi | hi
  · rw [List.getElem?_append_left (by omega), ← hpre, List.getElem?_take_of_lt hi]
  rw [List.getElem?_append_right (by omega), hm]
  rcases Nat.lt_or_ge i (out.length + (m + n)) with hin | hin
  · rw [hr.mul (k := k) (by omega) (by omega) (by omega), List.getElem?_take_of_lt (by omega),
      List.getElem?_drop, ← hpre, List.getElem?_take_of_lt (by omega)]
    congr 1
    omega
  · rw [List.getElem?_eq_none (by omega),
      List.getElem?_eq_none (by rw [List.length_take, List.length_drop]; omega)]

/-- A match that was compared: the bytes behind `ip` are those `offset` places back. -/
theorem copyBack_match {pre l : List α} {ip offset n : Nat} (h0 : 0 < offset) (ho : offset ≤ ip)
    (hle : ip + n ≤ l.length) (hm : ∀ k, k < n → l[ip - offset + k]? = l[ip + k]?) :
    copyBack (pre ++ l.take ip) offset n = pre ++ l.take (ip + n) := by
  have hlen : (pre ++ l.take (ip + n)).length = pre.length + ip + n := by
    rw [List.length_append, List.length_take]
    omega
  have htake : (pre ++ l.take (ip + n)).take (pre.length + ip) = pre ++ l.take ip := by
    rw [List.take_append, List.take_of_length_le (by omega), List.take_take, Nat.add_sub_cancel_left,
      Nat.min_eq_left (by omega)]
  have hr : Repeats (pre ++ l.take (ip + n)) (pre.length + ip) offset := by
    intro i hi hl
    obtain ⟨k, rfl⟩ : ∃ k, i = pre.length + (ip + k) := ⟨i - pre.length - ip, by omega⟩
    rw [List.getElem?_append_right (by omega), List.getElem?_append_right (by omega),
      show pre.length + (ip + k) - offset - pre.length = ip - offset + k by omega, Nat.add_sub_cancel_left,
      List.getElem?_take_of_lt (by omega), List.getElem?_take_of_lt (by omega)]
    exact (hm k (by omega)).symm
  have := eq_copyBack h0 (by omega) hr (by omega)
  rw [htake, hlen, Nat.add_sub_cancel_left] at this
  exact this.symm

/-- A piece of a sequence: its own symbols, or a reference back. -/
inductive Token (α : Type) where
  | literal (symbols : List α)
  | copy (offset length : Nat)
  deriving DecidableEq, Repr

/-- What `out` becomes by one token. A reference to nothing or to before the start is refused. -/
def Token.expand (out : List α) : Token α → Option (List α)
  | .literal symbols => some (out ++ symbols)
  | .copy offset length =>
    if 0 < offset ∧ offset ≤ out.length then some (copyBack out offset length) else none

theorem Token.expand_copy {out : List α} {offset : Nat} (h0 : 0 < offset) (h : offset ≤ out.length)
    (length : Nat) : (Token.copy offset length).expand out = some (copyBack out offset length) :=
  if_pos ⟨h0, h⟩

/-- The symbols a token stands for. -/
def Token.length : Token α → Nat
  | .literal symbols => symbols.length
  | .copy _ length => length

theorem Token.prefix_expand {t : Token α} {out out' : List α} (h : t.expand out = some out') :
    out <+: out' := by
  cases t with
  | literal symbols =>
    obtain rfl := Option.some.inj h
    exact List.prefix_append _ _
  | copy offset length =>
    obtain ⟨-, ⟨⟩⟩ := Option.ite_none_right_eq_some.mp h
    exact prefix_copyBack _ _ _

end Lz77
