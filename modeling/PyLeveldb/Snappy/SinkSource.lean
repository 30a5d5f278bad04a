import PyLeveldb.Snappy.Stubs

/-!
# Byte sources (`snappy-sinksource.h`)

A `Source` hands out its bytes in flat regions; how the bytes are divided is the source's own affair.
The model is the list of the regions still to come. `ByteArraySource` has one.

`skip_run` and `peek_prefix` are all that the codec relies on: `Skip` drops bytes, and `Peek` shows
some of those ahead, none only at the end.
-/

namespace Snappy

/-- A `Source`: the flat regions that `Peek` has yet to show. No region is empty. -/
structure Source where
  regions : List Bytes
  nonempty : ∀ r ∈ regions, r ≠ []

namespace Source

/-- The regions behind the first `n` bytes. -/
def dropBytes : List Bytes → Nat → List Bytes
  | [], _ => []
  | r :: regions, n => if n < r.length then r.drop n :: regions else dropBytes regions (n - r.length)

theorem dropBytes_nonempty {regions : List Bytes} (h : ∀ r ∈ regions, r ≠ []) (n : Nat) :
    ∀ r ∈ dropBytes regions n, r ≠ [] := by
  induction regions generalizing n with
  | nil => exact h
  | cons r regions ih =>
    have hrest : ∀ r ∈ regions, r ≠ [] := fun r hr => h r (List.mem_cons_of_mem _ hr)
    unfold dropBytes
    split
    · next hn =>
      intro a ha
      rcases List.mem_cons.mp ha with rfl | ha
      · exact List.ne_nil_of_length_pos (by rw [List.length_drop]; omega)
      · exact hrest a ha
    · exact ih hrest _

theorem flatten_dropBytes (regions : List Bytes) (n : Nat) :
    (dropBytes regions n).flatten = regions.flatten.drop n := by
  induction regions generalizing n with
  | nil => exact List.drop_nil.symm
  | cons r regions ih =>
    unfold dropBytes
    split
    · next hn => rw [List.flatten_cons, List.flatten_cons, List.drop_append_of_le_length (by omega)]
    · next hn =>
      rw [ih, List.flatten_cons, List.drop_append, List.drop_of_length_le (l := r) (by omega),
        List.nil_append]

/-- The bytes left to read. -/
def bytes (s : Source) : Bytes := s.regions.flatten

/-- `Available`. -/
def available (s : Source) : Nat := s.bytes.length

/-- `Peek`: the flat region that comes next. -/
def peek (s : Source) : Bytes := s.regions.headD []

/-- `Skip`, which requires `Available() >= n`. -/
def skip (s : Source) (n : Nat) : Option Source :=
  if n ≤ s.available then some ⟨dropBytes s.regions n, dropBytes_nonempty s.nonempty n⟩ else none

/-- `ByteArraySource`. -/
def ofByteArray (b : Bytes) : Source where
  regions := if b = [] then [] else [b]
  nonempty := by
    split
    · exact fun r hr => absurd hr List.not_mem_nil
    · next h => exact fun r hr => List.mem_singleton.mp hr ▸ h

@[simp] theorem bytes_ofByteArray (b : Bytes) : (ofByteArray b).bytes = b := by
  unfold bytes ofByteArray
  by_cases h : b = []
  · subst h
    rfl
  · simp only [if_neg h, List.flatten_singleton]

theorem skip_run {s : Source} {n : Nat} (h : n ≤ s.bytes.length) :
    ∃ s', s.skip n = some s' ∧ s'.bytes = s.bytes.drop n :=
  ⟨_, if_pos h, flatten_dropBytes s.regions n⟩

theorem peek_prefix (s : Source) : s.peek <+: s.bytes := by
  obtain ⟨_ | ⟨r, regions⟩, _⟩ := s
  · exact List.prefix_rfl
  · exact List.prefix_append r regions.flatten

theorem peek_eq_nil {s : Source} : s.peek = [] ↔ s.bytes = [] := by
  obtain ⟨_ | ⟨r, regions⟩, h⟩ := s
  · exact Iff.rfl
  · have hr := h r List.mem_cons_self
    constructor
    · exact fun hp => absurd hp hr
    · exact fun hb => absurd (List.append_eq_nil_iff.mp hb).1 hr

theorem length_peek_le (s : Source) : s.peek.length ≤ s.bytes.length := s.peek_prefix.length_le

/-- What `Peek` shows, and what comes behind it. -/
theorem peek_append_drop (s : Source) : s.peek ++ s.bytes.drop s.peek.length = s.bytes := by
  obtain ⟨t, ht⟩ := s.peek_prefix
  rw [← ht, List.drop_left]

end Source

end Snappy
