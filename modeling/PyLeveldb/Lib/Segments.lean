import Mathlib.Data.List.Basic

/-!
# One memory in several buffers

Buffers, one behind the other, read as the memory that they make together.

* `start`: where a buffer starts in that memory.
* `drop_start`: what is read from a buffer is read from the memory. `take_set`, `drop_set`: what a
  change of one buffer is to the memory.
-/

namespace Segments

variable {α : Type}

/-- Where the buffer `k` starts. -/
def start (bufs : List (List α)) (k : Nat) : Nat := (bufs.take k).flatten.length

variable {bufs bufs' : List (List α)} {b b' : List α} {k : Nat}

@[simp] theorem start_zero (bufs : List (List α)) : start bufs 0 = 0 := rfl

theorem start_succ (h : bufs[k]? = some b) : start bufs (k + 1) = start bufs k + b.length := by
  rw [start, start, List.take_add_one, h, List.flatten_append, List.length_append]
  simp

theorem start_mono {j : Nat} (h : j ≤ k) (bufs : List (List α)) : start bufs j ≤ start bufs k := by
  obtain ⟨d, rfl⟩ := Nat.exists_eq_add_of_le h
  rw [start, start, List.take_add, List.flatten_append, List.length_append]
  exact Nat.le_add_right _ _

theorem start_length (bufs : List (List α)) : start bufs bufs.length = bufs.flatten.length := by
  rw [start, List.take_length]

/-- A buffer starts where the buffers before it end, whatever they hold. -/
theorem start_congr (h : bufs'.map List.length = bufs.map List.length) (k : Nat) :
    start bufs' k = start bufs k := by
  rw [start, start, List.length_flatten, List.length_flatten, List.map_take, List.map_take, h]

theorem split (h : bufs[k]? = some b) :
    bufs.flatten = (bufs.take k).flatten ++ (b ++ (bufs.drop (k + 1)).flatten) := by
  obtain ⟨hk, rfl⟩ := List.getElem?_eq_some_iff.mp h
  rw [← List.flatten_cons, ← List.flatten_append, List.getElem_cons_drop, List.take_append_drop]

theorem split_set (h : bufs[k]? = some b) (b' : List α) :
    (bufs.set k b').flatten = (bufs.take k).flatten ++ (b' ++ (bufs.drop (k + 1)).flatten) := by
  have hk := (List.getElem?_eq_some_iff.mp h).1
  have hget : (bufs.set k b')[k]? = some b' := List.getElem?_set_self hk
  rw [split hget, List.take_set, List.drop_set, if_pos (Nat.lt_succ_self k),
    List.set_eq_of_length_le (by rw [List.length_take]; exact Nat.min_le_left _ _)]

theorem map_length_set (h : bufs[k]? = some b) (hl : b'.length = b.length) :
    (bufs.set k b').map List.length = bufs.map List.length := by
  obtain ⟨hk, rfl⟩ := List.getElem?_eq_some_iff.mp h
  have hk' : k < (bufs.map List.length).length := by rwa [List.length_map]
  rw [List.map_set, hl, ← List.getElem_map List.length (h := hk'), List.set_getElem_self]

theorem start_add_le (h : bufs[k]? = some b) : start bufs k + b.length ≤ bufs.flatten.length := by
  rw [split h, List.length_append, List.length_append, start]
  omega

/-- Behind a buffer that is not the last of the memory stands another one. -/
theorem exists_next (h : bufs[k]? = some b) (hlt : start bufs k + b.length < bufs.flatten.length) :
    k + 1 < bufs.length := by
  obtain ⟨hk, -⟩ := List.getElem?_eq_some_iff.mp h
  rcases Nat.lt_or_ge (k + 1) bufs.length with hlt' | hge
  · exact hlt'
  · have := start_succ h
    rw [show k + 1 = bufs.length by omega, start_length] at this
    omega

theorem drop_start (h : bufs[k]? = some b) {i n : Nat} (hn : i + n ≤ b.length) :
    (bufs.flatten.drop (start bufs k + i)).take n = (b.drop i).take n := by
  rw [split h, start, ← List.drop_drop, List.drop_left, List.drop_append_of_le_length (by omega),
    List.take_append_of_le_length (by rw [List.length_drop]; omega)]

/-- The cells up to the `n`th of a changed buffer. -/
theorem take_set (h : bufs[k]? = some b) (hl : b'.length = b.length) {n : Nat} (hn : n ≤ b.length) :
    (bufs.set k b').flatten.take (start bufs k + n) = (bufs.take k).flatten ++ b'.take n := by
  rw [split_set h, start, List.take_length_add_append, List.take_append_of_le_length (by omega)]

/-- The cells up to the `n`th of a buffer. -/
theorem take_start (h : bufs[k]? = some b) {n : Nat} (hn : n ≤ b.length) :
    bufs.flatten.take (start bufs k + n) = (bufs.take k).flatten ++ b.take n := by
  rw [split h, start, List.take_length_add_append, List.take_append_of_le_length hn]

/-- A change of a buffer up to its cell `n` is none behind it. -/
theorem drop_set (h : bufs[k]? = some b) {n : Nat} (hd : ∀ j, n ≤ j → b'.drop j = b.drop j)
    (hl : b'.length = b.length) {i : Nat} (hi : start bufs k + n ≤ i) :
    (bufs.set k b').flatten.drop i = bufs.flatten.drop i := by
  obtain ⟨j, rfl⟩ := Nat.exists_eq_add_of_le hi
  rw [split_set h, split h, start, Nat.add_assoc, List.drop_length_add_append,
    List.drop_length_add_append, List.drop_append, List.drop_append, hd (n + j) (by omega), hl]

end Segments
