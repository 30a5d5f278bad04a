import Mathlib.Data.List.Basic

/-!
# Bounded regions of memory

A region is the list of its cells; an address is an offset from its start. An access that is not
within the region has no result (`none`).

* `read m i n`: the `n` cells from `i` on. `write m i l`: `m` with `l` at `i`.
* What a write leaves: the cells before and behind (`drop_write`), and with
  `take_write` the cells up to the end of what was written.
-/

namespace Region

variable {α : Type}

/-- The `n` cells from `i` on. -/
def read (m : List α) (i n : Nat) : Option (List α) :=
  if i + n ≤ m.length then some ((m.drop i).take n) else none

/-- `m` with `l` in place of the cells from `i` on. -/
def write (m : List α) (i : Nat) (l : List α) : Option (List α) :=
  if i + l.length ≤ m.length then some (m.take i ++ (l ++ m.drop (i + l.length))) else none

variable {m m' l : List α} {i k n : Nat}

theorem read_eq (h : i + n ≤ m.length) : read m i n = some ((m.drop i).take n) := if_pos h

theorem read_eq_some : read m i n = some l ↔ i + n ≤ m.length ∧ (m.drop i).take n = l := by
  unfold read
  split <;> simp [*]

theorem write_eq (h : i + l.length ≤ m.length) :
    write m i l = some (m.take i ++ (l ++ m.drop (i + l.length))) := if_pos h

theorem write_exists (h : i + l.length ≤ m.length) : ∃ m', write m i l = some m' :=
  ⟨_, write_eq h⟩

theorem write_inv (h : write m i l = some m') :
    i + l.length ≤ m.length ∧ m' = m.take i ++ (l ++ m.drop (i + l.length)) := by
  obtain ⟨hb, ⟨⟩⟩ := Option.ite_none_right_eq_some.mp h
  exact ⟨hb, rfl⟩

theorem length_write (h : write m i l = some m') : m'.length = m.length := by
  obtain ⟨hb, rfl⟩ := write_inv h
  rw [List.length_append, List.length_append, List.length_take, List.length_drop]
  omega

/-- What is written stands behind the cells before it. -/
theorem take_write (h : write m i l = some m') : m'.take (i + l.length) = m.take i ++ l := by
  obtain ⟨hb, rfl⟩ := write_inv h
  have hi : (m.take i).length = i := by rw [List.length_take]; omega
  rw [← List.append_assoc, List.take_append_of_le_length (by rw [List.length_append]; omega),
    List.take_of_length_le (by rw [List.length_append]; omega)]

/-- A prefix of what is written. -/
theorem take_write_add (h : write m i l = some m') (hn : n ≤ l.length) :
    m'.take (i + n) = m.take i ++ l.take n := by
  have h' := congrArg (List.take (i + n)) (take_write h)
  have hi : (m.take i).length = i := by
    obtain ⟨hb, -⟩ := write_inv h
    rw [List.length_take]
    omega
  rw [List.take_take, Nat.min_eq_left (by omega)] at h'
  rw [h', List.take_append, hi, List.take_of_length_le (by omega), Nat.add_sub_cancel_left]

theorem drop_write (h : write m i l = some m') (hk : i + l.length ≤ k) : m'.drop k = m.drop k := by
  obtain ⟨hb, rfl⟩ := write_inv h
  have hi : (m.take i).length = i := by rw [List.length_take]; omega
  rw [List.drop_append, List.drop_append, List.drop_drop, List.drop_of_length_le (by omega),
    List.drop_of_length_le (by omega), hi, List.nil_append, List.nil_append]
  congr 1
  omega

end Region
