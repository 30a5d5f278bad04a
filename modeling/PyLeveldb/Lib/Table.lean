import Mathlib.Logic.Function.Basic
import Mathlib.Data.List.Count

/-!
# Tables of identified rows

`Table α`: objects with an identity. An identity is a number that is given out once (`push`), has a
row while the object lives and none after `free`. This is the shape of a heap of objects of one
type: a pointer is an identity, a dangling pointer an identity without a row.

* `get`/`set`/`free`/`push` and how `get` sees them (simp set).
* `count p`: how many rows have `p`. `count_set`, `count_free` and `count_push` say how a count
  moves when one row changes.
* `Only base p`: of the objects made since a point, `p` is the one that lives. `Within`: no object
  is new.
-/


/-- Rows by identity; identities from `next` on have never been given out. -/
structure Table (α : Type) where
  get : Nat → Option α
  next : Nat
  fresh : ∀ i, next ≤ i → get i = none

namespace Table

variable {α : Type}

/-- No row. -/
def empty : Table α := ⟨fun _ => none, 0, fun _ _ => rfl⟩

instance : Inhabited (Table α) := ⟨empty⟩

/-- The row of `i` is `a`. -/
def set (T : Table α) (i : Nat) (a : α) : Table α where
  get j := if j = i then some a else T.get j
  next := max T.next (i + 1)
  fresh j hj := by
    rw [if_neg (by omega)]
    exact T.fresh j (by omega)

/-- No row for `i`: the object is gone, its identity is not given out again. -/
def free (T : Table α) (i : Nat) : Table α where
  get j := if j = i then none else T.get j
  next := T.next
  fresh j hj := by
    split
    · rfl
    · exact T.fresh j hj

/-- `free`, of an identity if there is one. -/
def freeOpt (T : Table α) : Option Nat → Table α
  | none => T
  | some i => T.free i

/-- A new object: the row of the identity `T.next`. -/
def push (T : Table α) (a : α) : Table α := T.set T.next a

@[simp] theorem get_empty (i : Nat) : (empty : Table α).get i = none := rfl

@[simp] theorem get_set (T : Table α) (i j : Nat) (a : α) :
    (T.set i a).get j = if j = i then some a else T.get j := rfl

@[simp] theorem get_free (T : Table α) (i j : Nat) :
    (T.free i).get j = if j = i then none else T.get j := rfl

@[simp] theorem freeOpt_none (T : Table α) : T.freeOpt none = T := rfl

@[simp] theorem freeOpt_some (T : Table α) (i : Nat) : T.freeOpt (some i) = T.free i := rfl

@[simp] theorem get_push (T : Table α) (j : Nat) (a : α) :
    (T.push a).get j = if j = T.next then some a else T.get j := rfl

theorem get_push_next (T : Table α) (a : α) : (T.push a).get T.next = some a := if_pos rfl

@[simp] theorem set_set (T : Table α) (i : Nat) (a b : α) : (T.set i a).set i b = T.set i b := by
  unfold set
  simp only [mk.injEq]
  refine ⟨?_, by omega⟩
  funext j
  by_cases h : j = i <;> simp [h]

@[simp] theorem push_set (T : Table α) (a b : α) : (T.push a).set T.next b = T.push b :=
  set_set T T.next a b

/-- A row that is set and freed. -/
theorem set_free {T : Table α} {i : Nat} {a b : α} (h : T.get i = some b) :
    (T.set i a).free i = T.free i := by
  have : i < T.next := by
    by_contra hn
    rw [T.fresh i (by omega)] at h
    cases h
  unfold set free
  simp only [mk.injEq]
  refine ⟨?_, by omega⟩
  funext j
  by_cases hj : j = i <;> simp [hj]

/-- The rows after a `set`: the new one, and the others. -/
theorem get_set_some {T : Table α} {i j : Nat} {a b : α} (h : (T.set i a).get j = some b) :
    j = i ∧ b = a ∨ j ≠ i ∧ T.get j = some b := by
  rw [get_set] at h
  split at h
  · next hj =>
    cases h
    exact .inl ⟨hj, rfl⟩
  · next hj => exact .inr ⟨hj, h⟩

/-- The rows after a `push`: the new one, and the others. -/
theorem get_push_some {T : Table α} {j : Nat} {a b : α} (h : (T.push a).get j = some b) :
    j = T.next ∧ b = a ∨ j ≠ T.next ∧ T.get j = some b := get_set_some h

/-- The rows after a `free`. -/
theorem get_free_some {T : Table α} {i j : Nat} {b : α} (h : (T.free i).get j = some b) :
    j ≠ i ∧ T.get j = some b := by
  rw [get_free] at h
  split at h
  · cases h
  · next hj => exact ⟨hj, h⟩

/-- A row that is set leaves every row there. -/
theorem exists_set {T : Table α} (i : Nat) (a : α) {j : Nat} {b : α} (h : T.get j = some b) :
    ∃ c, (T.set i a).get j = some c := by
  by_cases hj : j = i
  · exact ⟨a, by simp [hj]⟩
  · exact ⟨b, by simp [hj, h]⟩

theorem get_next (T : Table α) : T.get T.next = none := T.fresh _ (Nat.le_refl _)

theorem lt_next {T : Table α} {i : Nat} {a : α} (h : T.get i = some a) : i < T.next := by
  by_contra hn
  rw [T.fresh i (by omega)] at h
  cases h

theorem ne_next {T : Table α} {i : Nat} {a : α} (h : T.get i = some a) : i ≠ T.next :=
  Nat.ne_of_lt (lt_next h)

/-- A new object leaves the rows that are there. -/
theorem get_push_of {T : Table α} {i : Nat} {b : α} (a : α) (h : T.get i = some b) :
    (T.push a).get i = some b := by simp [ne_next h, h]

theorem get_push_free_of {T : Table α} {i : Nat} {b : α} (a : α) (h : T.get i = some b) :
    ((T.push a).free T.next).get i = some b := by simp [ne_next h, h]

@[simp] theorem next_free (T : Table α) (i : Nat) : (T.free i).next = T.next := rfl

@[simp] theorem next_freeOpt (T : Table α) (p : Option Nat) : (T.freeOpt p).next = T.next := by
  cases p <;> rfl

@[simp] theorem next_push (T : Table α) (a : α) : (T.push a).next = T.next + 1 := by
  simp [push, set]

theorem next_set {T : Table α} {i : Nat} {a b : α} (h : T.get i = some b) :
    (T.set i a).next = T.next := by
  have := lt_next h
  simp only [set]
  omega

/-! ## Counting rows -/

/-- How many rows have `p`. -/
def count (p : α → Bool) (T : Table α) : Nat :=
  (List.range T.next).countP fun i => (T.get i).any p

/-- What one row adds to a count. -/
def weight (p : α → Bool) (r : Option α) : Nat := if r.any p then 1 else 0

@[simp] theorem weight_none (p : α → Bool) : weight p none = 0 := rfl

@[simp] theorem weight_some (p : α → Bool) (a : α) : weight p (some a) = if p a then 1 else 0 := rfl

/-- Counting `i < n` in two row functions that differ at `k < n` only. -/
private theorem countP_range_update (p : α → Bool) (f g : Nat → Option α) (k : Nat)
    (h : ∀ i, i ≠ k → f i = g i) (n : Nat) (hk : k < n) :
    ((List.range n).countP fun i => (f i).any p) + weight p (g k) =
      ((List.range n).countP fun i => (g i).any p) + weight p (f k) := by
  have same : ∀ m, m ≤ k → ((List.range m).countP fun i => (f i).any p) =
      (List.range m).countP fun i => (g i).any p := by
    intro m hm
    apply List.countP_congr
    intro i hi
    rw [h i (by have := List.mem_range.mp hi; omega)]
  induction n with
  | zero => omega
  | succ n ih =>
    simp only [List.range_succ, List.countP_append, List.countP_singleton]
    by_cases hn : k = n
    · subst hn
      rw [same k (Nat.le_refl _)]
      simp only [weight]
      omega
    · rw [h n (Ne.symm hn)]
      have := ih (by omega)
      omega

/-- Rows from `T.next` on do not count. -/
theorem count_eq_range (p : α → Bool) (T : Table α) {n : Nat} (hn : T.next ≤ n) :
    T.count p = (List.range n).countP fun i => (T.get i).any p := by
  obtain ⟨d, rfl⟩ := Nat.exists_eq_add_of_le hn
  induction d with
  | zero => rfl
  | succ d ih =>
    rw [ih (by omega), ← Nat.add_assoc, List.range_succ, List.countP_append, List.countP_singleton,
      T.fresh _ (by omega)]
    simp

/-- **How a count moves when the row of `i` is set.** -/
theorem count_set (p : α → Bool) (T : Table α) (i : Nat) (a : α) :
    (T.set i a).count p + weight p (T.get i) = T.count p + weight p (some a) := by
  rw [count_eq_range p T (n := (T.set i a).next) (by simp only [set]; omega)]
  have := countP_range_update p (T.set i a).get T.get i (fun j hj => by simp [hj])
    (T.set i a).next (by simp only [set]; omega)
  simpa [count] using this

/-- How a count moves when the row of `i` goes. -/
theorem count_free (p : α → Bool) (T : Table α) (i : Nat) :
    (T.free i).count p + weight p (T.get i) = T.count p := by
  by_cases hi : i < T.next
  · have := countP_range_update p (T.free i).get T.get i (fun j hj => by simp [hj]) T.next hi
    simpa [count] using this
  · have hg : T.get i = none := T.fresh i (by omega)
    rw [hg]
    simp only [weight_none, Nat.add_zero, count, next_free]
    apply List.countP_congr
    intro j hj
    have : j ≠ i := by have := List.mem_range.mp hj; omega
    simp [this]

theorem count_push (p : α → Bool) (T : Table α) (a : α) :
    (T.push a).count p = T.count p + weight p (some a) := by
  have h := count_set p T T.next a
  rw [get_next, weight_none, Nat.add_zero] at h
  exact h

@[simp] theorem count_empty (p : α → Bool) : (empty : Table α).count p = 0 := rfl

/-- No row has `p`. -/
theorem count_eq_zero {p : α → Bool} {T : Table α} (h : ∀ i a, T.get i = some a → p a = false) :
    T.count p = 0 := by
  rw [count, List.countP_eq_zero]
  intro i _
  cases hi : T.get i with
  | none => simp
  | some a => simp [h i a hi]

theorem count_of_none {T : Table α} (p : α → Bool) (h : ∀ i, T.get i = none) : T.count p = 0 := by
  refine count_eq_zero fun i a hi => ?_
  rw [h i] at hi
  cases hi

/-! ## One row since a point -/

/-- Of the identities given out from `base` on, exactly `p` has a row: the rest are gone. -/
structure Only (T : Table α) (base : Nat) (p : Option Nat) : Prop where
  base_le : base ≤ T.next
  live : ∀ i, p = some i → base ≤ i ∧ ∃ a, T.get i = some a
  only : ∀ i a, base ≤ i → T.get i = some a → p = some i

/-- Nothing was given out yet. -/
theorem only_next (T : Table α) : T.Only T.next none where
  base_le := Nat.le_refl _
  live i h := nomatch h
  only i a hi h := by
    have := lt_next h
    omega

namespace Only

variable {T : Table α} {base i : Nat} {p : Option Nat}

theorem push (h : T.Only base none) (a : α) : (T.push a).Only base (some T.next) where
  base_le := by
    have := h.base_le
    rw [next_push]
    omega
  live j hj := by
    cases hj
    exact ⟨h.base_le, a, by simp⟩
  only j b hj hb := by
    rcases get_push_some hb with ⟨rfl, -⟩ | ⟨-, hb⟩
    · rfl
    · cases h.only j b hj hb

/-- The row is deleted. -/
theorem freeOpt (h : T.Only base p) : (T.freeOpt p).Only base none where
  base_le := by
    cases p with
    | none => exact h.base_le
    | some i => exact h.base_le
  live j hj := nomatch hj
  only j b hj hb := by
    cases p with
    | none => exact h.only j b hj hb
    | some i =>
      obtain ⟨hne, hb⟩ := get_free_some hb
      cases h.only j b hj hb
      exact absurd rfl hne

theorem set (h : T.Only base (some i)) (a : α) : (T.set i a).Only base (some i) where
  base_le := by
    obtain ⟨-, b, hb⟩ := h.live i rfl
    rw [next_set hb]
    exact h.base_le
  live j hj := by
    cases hj
    exact ⟨(h.live i rfl).1, a, by simp⟩
  only j b hj hb := by
    rcases get_set_some hb with ⟨rfl, -⟩ | ⟨-, hb⟩
    · rfl
    · exact h.only j b hj hb

/-- No row is left. -/
theorem get_eq_none (h : T.Only base none) (hi : base ≤ i) : T.get i = none := by
  cases hg : T.get i with
  | none => rfl
  | some a => cases h.only i a hi hg

end Only

/-! ## No new rows -/

/-- Every row of `T'` is a row of `T`, if not the same. -/
def Within (T' T : Table α) : Prop := ∀ i a, T'.get i = some a → ∃ b, T.get i = some b

namespace Within

variable {T T' T'' : Table α} {i : Nat} {a b : α}

theorem refl (T : Table α) : T.Within T := fun _ a h => ⟨a, h⟩

theorem trans (h : T''.Within T') (h' : T'.Within T) : T''.Within T := fun i a ha => by
  obtain ⟨b, hb⟩ := h i a ha
  exact h' i b hb

theorem set (h : T.get i = some b) : (T.set i a).Within T := by
  intro j c hc
  rcases get_set_some hc with ⟨rfl, -⟩ | ⟨-, hc⟩
  · exact ⟨b, h⟩
  · exact ⟨c, hc⟩

theorem free (T : Table α) (i : Nat) : (T.free i).Within T := fun _ c hc => ⟨c, (get_free_some hc).2⟩

/-- A new row that is freed. -/
theorem push_free (T : Table α) (a : α) : ((T.push a).free T.next).Within T := by
  intro j c hc
  obtain ⟨hne, hc⟩ := get_free_some hc
  rcases get_push_some hc with ⟨rfl, -⟩ | ⟨-, hc⟩
  · exact absurd rfl hne
  · exact ⟨c, hc⟩

end Within

end Table
