import PyLeveldb.Lib.Lz77
import PyLeveldb.Snappy.Stubs

/-!
# The compressed format (`format_description.txt`)

What a compressed stream means, apart from how it is read: a length, then elements, each a literal or
a copy.

* `element`: the first element of a stream. `decode`: what a stream makes of the bytes before it.
* `decode_append`: streams may be put behind each other.
-/

namespace Snappy.Format

open Lz77 (Token)

/-- How many bytes belong to the tag behind its first byte `c`. -/
def extra (c : Nat) : Nat :=
  match c % 4 with
  | 0 => if c / 4 < 60 then 0 else c / 4 - 59
  | 1 => 1
  | 2 => 2
  | _ => 4

/-- The length of a literal. The length less one is written out from 61 on; four bytes of ones are
read as the length 0. -/
def literalLength (c trailer : Nat) : Nat := if c / 4 < 60 then c / 4 + 1 else (trailer + 1) % 2 ^ 32

/-- The offset and the length of a copy. -/
def copyOf (c trailer : Nat) : Token UInt8 :=
  if c % 4 = 1 then .copy (c / 32 * 256 + trailer) (c / 4 % 8 + 4) else .copy trailer (c / 4 + 1)

/-- The first element of a stream, and the stream behind it. -/
def element : Bytes → Option (Token UInt8 × Bytes)
  | [] => none
  | b :: ip =>
    let c := b.toNat
    if extra c ≤ ip.length then
      let trailer := LittleEndian.toNat (ip.take (extra c))
      let ip := ip.drop (extra c)
      if c % 4 = 0 then
        let length := literalLength c trailer
        if length ≤ ip.length then some (.literal (ip.take length), ip.drop length) else none
      else some (copyOf c trailer, ip)
    else none

theorem extra_le (c : Nat) (h : c < 256) : extra c ≤ 4 := by
  unfold extra
  split
  · split <;> omega
  all_goals decide

/-- The two ways in which a stream starts with an element. -/
theorem element_cases {b : UInt8} {ip rest : Bytes} {t : Token UInt8} :
    element (b :: ip) = some (t, rest) ↔
      extra b.toNat ≤ ip.length ∧
        ((b.toNat % 4 = 0 ∧ ∃ n,
            literalLength b.toNat (LittleEndian.toNat (ip.take (extra b.toNat))) = n ∧
            extra b.toNat + n ≤ ip.length ∧ t = .literal ((ip.drop (extra b.toNat)).take n) ∧
            rest = ip.drop (extra b.toNat + n)) ∨
          (b.toNat % 4 ≠ 0 ∧ t = copyOf b.toNat (LittleEndian.toNat (ip.take (extra b.toNat))) ∧
            rest = ip.drop (extra b.toNat))) := by
  rw [element, Option.ite_none_right_eq_some]
  refine and_congr_right fun hx => ?_
  split
  · next h0 =>
    rw [Option.ite_none_right_eq_some, List.length_drop]
    constructor
    · rintro ⟨hn, ⟨⟩⟩
      exact .inl ⟨h0, _, rfl, by omega, rfl, List.drop_drop⟩
    · rintro (⟨-, n, rfl, hn, rfl, rfl⟩ | ⟨h, -⟩)
      · exact ⟨by omega, by rw [List.drop_drop]⟩
      · exact absurd h0 h
  · next h0 =>
    constructor
    · rintro ⟨⟩
      exact .inr ⟨h0, rfl, rfl⟩
    · rintro (⟨h, -⟩ | ⟨-, rfl, rfl⟩)
      · exact absurd h h0
      · rfl

/-- An element takes bytes off the front of the stream. -/
theorem element_suffix {ip rest : Bytes} {t : Token UInt8} (h : element ip = some (t, rest)) :
    rest.length < ip.length ∧ rest <:+ ip := by
  obtain _ | ⟨b, ip⟩ := ip
  · cases h
  rw [List.length_cons]
  obtain ⟨hx, ⟨-, n, -, hn, -, rfl⟩ | ⟨-, -, rfl⟩⟩ := element_cases.mp h
  · exact ⟨by rw [List.length_drop]; omega, (List.drop_suffix _ _).trans (List.suffix_cons b ip)⟩
  · exact ⟨by rw [List.length_drop]; omega, (List.drop_suffix _ _).trans (List.suffix_cons b ip)⟩

/-- What stands behind an element has no part in it. -/
theorem element_append {ip rest : Bytes} {t : Token UInt8} (h : element ip = some (t, rest))
    (tail : Bytes) : element (ip ++ tail) = some (t, rest ++ tail) := by
  obtain _ | ⟨b, ip⟩ := ip
  · cases h
  rw [List.cons_append, element_cases]
  obtain ⟨hx, hcase⟩ := element_cases.mp h
  have htake : (ip ++ tail).take (extra b.toNat) = ip.take (extra b.toNat) :=
    List.take_append_of_le_length hx
  rw [htake, List.length_append]
  refine ⟨by omega, hcase.imp ?_ ?_⟩
  · rintro ⟨h0, n, hn, hlen, rfl, rfl⟩
    refine ⟨h0, n, hn, by omega, ?_, ?_⟩
    · rw [List.drop_append_of_le_length hx, List.take_append_of_le_length (by rw [List.length_drop]; omega)]
    · rw [List.drop_append_of_le_length hlen]
  · rintro ⟨h0, rfl, rfl⟩
    exact ⟨h0, rfl, by rw [List.drop_append_of_le_length hx]⟩

/-- What the elements of a stream make of the bytes `out` before them. -/
def decode (ip : Bytes) (out : Bytes) : Option Bytes :=
  if ip = [] then some out
  else
    match h : element ip with
    | none => none
    | some (t, rest) =>
      have : rest.length < ip.length := (element_suffix h).1
      (t.expand out).bind (decode rest)
termination_by ip.length

@[simp] theorem decode_nil (out : Bytes) : decode [] out = some out := by rw [decode, if_pos rfl]

/-- One element, then the rest. -/
theorem decode_cons (b : UInt8) (ip : Bytes) (out : Bytes) :
    decode (b :: ip) out = (element (b :: ip)).bind fun (t, rest) => (t.expand out).bind (decode rest) := by
  rw [decode, if_neg (List.cons_ne_nil b ip)]
  split
  · next h => simp only [h, Option.bind_none]
  · next h => simp only [h, Option.bind_some]

theorem decode_of_element {ip rest : Bytes} {t : Token UInt8} (h : element ip = some (t, rest))
    (out : Bytes) : decode ip out = (t.expand out).bind (decode rest) := by
  obtain _ | ⟨b, ip⟩ := ip
  · cases h
  · rw [decode_cons, h]
    rfl

/-- A stream behind a stream. -/
theorem decode_append {ip : Bytes} {out out' : Bytes} (h : decode ip out = some out') (tail : Bytes) :
    decode (ip ++ tail) out = decode tail out' := by
  obtain ⟨n, hn⟩ : ∃ n, ip.length = n := ⟨_, rfl⟩
  induction n using Nat.strongRecOn generalizing ip out with
  | ind n ih =>
    obtain _ | ⟨b, ip⟩ := ip
    · rw [decode_nil] at h
      rw [List.nil_append, Option.some.inj h]
    · rw [decode_cons] at h
      obtain ⟨⟨t, rest⟩, ht, hrest⟩ := Option.bind_eq_some_iff.mp h
      obtain ⟨mid, hmid, hdec⟩ := Option.bind_eq_some_iff.mp hrest
      rw [decode_of_element (element_append ht tail), hmid]
      exact ih rest.length (hn ▸ (element_suffix ht).1) hdec rfl

/-- A stream only adds to what is there. -/
theorem decode_prefix {ip : Bytes} {out out' : Bytes} (h : decode ip out = some out') :
    out <+: out' := by
  obtain ⟨n, hn⟩ : ∃ n, ip.length = n := ⟨_, rfl⟩
  induction n using Nat.strongRecOn generalizing ip out with
  | ind n ih =>
    obtain _ | ⟨b, ip⟩ := ip
    · rw [decode_nil] at h
      obtain rfl := Option.some.inj h
      exact List.prefix_rfl
    · rw [decode_cons] at h
      obtain ⟨⟨t, rest⟩, ht, hrest⟩ := Option.bind_eq_some_iff.mp h
      obtain ⟨mid, hmid, hdec⟩ := Option.bind_eq_some_iff.mp hrest
      exact (Lz77.Token.prefix_expand hmid).trans (ih rest.length (hn ▸ (element_suffix ht).1) hdec rfl)

/-- The length in front of a stream, as a reader of the stream takes it: at most five bytes, of which
the upper bits of the fifth are not looked at. -/
def header (ip : Bytes) : Option (Nat × Bytes) :=
  (Leb128.decode ip).bind fun (n, rest) =>
    if ip.length ≤ rest.length + 5 then some (n % 2 ^ 32, rest) else none

/-- What a compressed buffer stands for: its elements make as many bytes as its length says. -/
def uncompressed (ip : Bytes) : Option Bytes :=
  (header ip).bind fun (n, rest) => (decode rest []).filter fun out => out.length = n

theorem header_eq_some {ip rest : Bytes} {n : Nat} :
    header ip = some (n, rest) ↔
      ∃ m, Leb128.decode ip = some (m, rest) ∧ ip.length ≤ rest.length + 5 ∧ n = m % 2 ^ 32 := by
  rw [header, Option.bind_eq_some_iff]
  constructor
  · rintro ⟨⟨m, r⟩, hm, h⟩
    obtain ⟨hlen, ⟨⟩⟩ := Option.ite_none_right_eq_some.mp h
    exact ⟨m, hm, hlen, rfl⟩
  · rintro ⟨m, hm, hlen, rfl⟩
    exact ⟨(m, rest), hm, if_pos hlen⟩

theorem header_lt {ip rest : Bytes} {n : Nat} (h : header ip = some (n, rest)) : n < 2 ^ 32 := by
  obtain ⟨m, -, -, rfl⟩ := header_eq_some.mp h
  exact Nat.mod_lt _ (by decide)

theorem uncompressed_eq_some {ip out : Bytes} :
    uncompressed ip = some out ↔
      ∃ rest, header ip = some (out.length, rest) ∧ decode rest [] = some out := by
  rw [uncompressed, Option.bind_eq_some_iff]
  constructor
  · rintro ⟨⟨n, rest⟩, hh, h⟩
    obtain ⟨hd, hl⟩ := Option.filter_eq_some_iff.mp h
    obtain rfl := of_decide_eq_true hl
    exact ⟨rest, hh, hd⟩
  · rintro ⟨rest, hh, hd⟩
    exact ⟨_, hh, Option.filter_eq_some_iff.mpr ⟨hd, decide_eq_true rfl⟩⟩

theorem uncompressed_of_header {ip rest : Bytes} {n : Nat} (h : header ip = some (n, rest)) {out : Bytes} :
    uncompressed ip = some out ↔ decode rest [] = some out ∧ out.length = n := by
  rw [uncompressed_eq_some, h]
  constructor
  · rintro ⟨_, ⟨⟩, hd⟩
    exact ⟨hd, rfl⟩
  · rintro ⟨hd, rfl⟩
    exact ⟨rest, rfl, hd⟩

theorem uncompressed_of_header_none {ip : Bytes} (h : header ip = none) : uncompressed ip = none := by
  rw [uncompressed, h]
  rfl

end Snappy.Format
