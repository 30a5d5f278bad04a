import Mathlib.Data.List.TakeWhile
import PyLeveldb.Lib.Sorted

/-!
# Cursors over a list

A cursor over a list is at an element or past either end (`Option Nat`). `ahead` is what it has yet
to deliver, in the direction of its moves; it delivers its head and a move leaves the tail
(`head?_ahead`, `ahead_step`).

A cursor over a sorted list is placed by `seek`, which finds the first element at or above a key.
`ahead_seek` and `ahead_floor` say what lies ahead of the two placements that a range scan uses.
-/

namespace Cursor

variable {α κ : Type} {l : List α} {i : Nat}

/-- The elements that a cursor at `p` has ahead, its own first. -/
def ahead (reverse : Bool) (l : List α) : Option Nat → List α
  | none => []
  | some i => if reverse then (l.take (i + 1)).reverse else l.drop i

/-- The first element. -/
def first (l : List α) : Option Nat := if l = [] then none else some 0

/-- The last element. -/
def last (l : List α) : Option Nat := if l = [] then none else some (l.length - 1)

/-- One element up from `i`. -/
def next (l : List α) (i : Nat) : Option Nat := if i + 1 < l.length then some (i + 1) else none

/-- One element down from `i`. -/
def prev (i : Nat) : Option Nat := if i = 0 then none else some (i - 1)

/-- One element in the direction of the scan. -/
def step (reverse : Bool) (l : List α) (i : Nat) : Option Nat :=
  if reverse then prev i else next l i

/-! ### Cursors stay in the list -/

variable {j : Nat}

theorem first_lt (h : first l = some i) : i < l.length := by
  unfold first at h
  split at h
  · cases h
  · next hne =>
    cases h
    exact List.length_pos_of_ne_nil hne

theorem last_lt (h : last l = some i) : i < l.length := by
  unfold last at h
  split at h
  · cases h
  · next hne =>
    cases h
    have := List.length_pos_of_ne_nil hne
    omega

theorem next_lt (h : next l i = some j) : j < l.length := by
  unfold next at h
  split at h
  · cases h
    assumption
  · cases h

theorem prev_lt (h : prev i = some j) : j < i := by
  unfold prev at h
  split at h
  · cases h
  · cases h
    omega

/-! ### What lies ahead -/

@[simp] theorem ahead_none (reverse : Bool) (l : List α) : ahead reverse l none = [] := rfl

theorem head?_ahead (reverse : Bool) (h : i < l.length) :
    (ahead reverse l (some i)).head? = some l[i] := by
  cases reverse with
  | false => simp [ahead, h]
  | true =>
    simp only [ahead, ↓reduceIte, List.head?_reverse, List.getLast?_take]
    rw [if_neg (by omega)]
    simp [h]

theorem ahead_prev (l : List α) (i : Nat) : ahead true l (prev i) = (l.take i).reverse := by
  unfold prev
  split
  · next h => simp [h]
  · next h =>
    simp only [ahead, ↓reduceIte]
    rw [show i - 1 + 1 = i by omega]

/-- **A move takes the cursor's own element off what lies ahead.** -/
theorem ahead_step (reverse : Bool) (h : i < l.length) :
    ahead reverse l (step reverse l i) = (ahead reverse l (some i)).tail := by
  cases reverse with
  | true =>
    simp only [step, ↓reduceIte, ahead_prev]
    simp only [ahead, ↓reduceIte]
    rw [List.take_succ_eq_append_getElem h, List.reverse_append]
    rfl
  | false =>
    by_cases hn : i + 1 < l.length
    · simp [step, next, ahead, hn]
    · simp [step, next, ahead, hn, List.drop_eq_nil_of_le (Nat.le_of_not_lt hn)]

theorem ahead_first (l : List α) : ahead false l (first l) = l := by
  unfold first
  split
  · next h => simp [h]
  · rfl

theorem ahead_last (l : List α) : ahead true l (last l) = l.reverse := by
  unfold last
  split
  · next h => simp [h]
  · next h =>
    have := List.length_pos_of_ne_nil h
    simp only [ahead, ↓reduceIte]
    rw [List.take_of_length_le (by omega)]

/-! ## Calls -/

/-- What `k` calls of an iterator give that delivers `l` and is then at its end. -/
def calls (l : List α) (k : Nat) : List (Option α) := (List.range k).map fun j => l[j]?

@[simp] theorem calls_zero (l : List α) : calls l 0 = [] := rfl

@[simp] theorem calls_nil (k : Nat) : calls ([] : List α) (k + 1) = none :: calls [] k := by
  simp only [calls, List.range_succ_eq_map, List.map_cons, List.map_map]
  rfl

@[simp] theorem calls_cons (a : α) (l : List α) (k : Nat) :
    calls (a :: l) (k + 1) = some a :: calls l k := by
  simp only [calls, List.range_succ_eq_map, List.map_cons, List.map_map]
  rfl

/-- Calls that all deliver something deliver a prefix. -/
theorem prefix_of_calls {l' : List α} (h : calls l l'.length = l'.map some) : l' <+: l := by
  induction l' generalizing l with
  | nil => exact List.nil_prefix
  | cons a l' ih =>
    cases l with
    | nil =>
      rw [List.length_cons, calls_nil, List.map_cons] at h
      cases h
    | cons b l =>
      rw [List.length_cons, calls_cons, List.map_cons, List.cons.injEq, Option.some.injEq] at h
      obtain ⟨rfl, h⟩ := h
      exact List.prefix_cons_inj b |>.mpr (ih h)

/-! ## Placement by a key -/

variable {cmp : κ → κ → Int} {key : α → κ}

/-- The first element at or above `k`. -/
def seek (cmp : κ → κ → Int) (key : α → κ) (k : κ) (l : List α) : Option Nat :=
  l.findIdx? fun a => decide (cmp k (key a) ≤ 0)

theorem seek_lt {k : κ} (h : seek cmp key k l = some i) : i < l.length :=
  (List.findIdx?_eq_some_iff_findIdx_eq.mp h).1

theorem ahead_seek (k : κ) (l : List α) : ahead false l (seek cmp key k l) =
    l.dropWhile fun a => !decide (cmp k (key a) ≤ 0) := by
  rw [← Sorted.drop_findIdx?]
  unfold seek
  cases l.findIdx? _ <;> rfl

/-- The last element at or below `k`, found from the first one at or above it. -/
def floor (cmp : κ → κ → Int) (key : α → κ) (k : κ) (l : List α) : Option Nat :=
  match seek cmp key k l with
  | none => last l
  | some i => if l[i]?.any fun a => decide (cmp k (key a) = 0) then some i else prev i

/-- A prefix that `p` holds of, and no longer. -/
private theorem takeWhile_eq_take {p : α → Bool} (n : Nat) (l : List α)
    (h : ∀ j (hj : j < l.length), j < n → p l[j] = true)
    (hn : ∀ hn : n < l.length, p l[n] = false) : l.takeWhile p = l.take n := by
  induction l generalizing n with
  | nil => simp
  | cons a l ih =>
    cases n with
    | zero =>
      have h0 : p a = false := hn (by simp)
      rw [List.takeWhile_cons_of_neg (by simp [h0]), List.take_zero]
    | succ n =>
      have ha : p a = true := h 0 (by simp) (by omega)
      rw [List.takeWhile_cons_of_pos ha, List.take_succ_cons, ih n]
      · exact fun j hj hjn => h (j + 1) (by simp; omega) (by omega)
      · exact fun hn' => hn (by simp; omega)

/-- **What lies ahead, downwards, of the last element at or below `k`.** -/
theorem ahead_floor (hc : Compares cmp) (hl : Sorted.Increasing cmp key l) (k : κ) :
    ahead true l (floor cmp key k l) =
      (l.takeWhile fun a => decide (cmp (key a) k ≤ 0)).reverse := by
  unfold floor
  split
  · next h =>
    have hall : ∀ a ∈ l, decide (cmp (key a) k ≤ 0) = true := by
      intro a ha
      have := List.findIdx?_eq_none_iff.mp h a ha
      have := hc.flip (key a) k
      simp_all
      omega
    rw [ahead_last, List.takeWhile_eq_self_iff.mpr hall]
  · next i h =>
    obtain ⟨hi, hk, hbefore⟩ := List.findIdx?_eq_some_iff_getElem.mp h
    have hk : cmp k (key l[i]) ≤ 0 := by simpa using hk
    have hbefore : ∀ j (hj : j < i), decide (cmp (key l[j]) k ≤ 0) = true := by
      intro j hj
      have := hbefore j hj
      have := hc.flip (key l[j]) k
      simp_all
      omega
    rw [List.getElem?_eq_getElem hi]
    simp only [Option.any_some, decide_eq_true_eq]
    split
    · next h0 =>
      -- the element is equal to `k`: it is the last one, the next is greater
      simp only [ahead, ↓reduceIte]
      rw [takeWhile_eq_take (i + 1)]
      · intro j hj hji
        rcases Nat.lt_succ_iff_lt_or_eq.mp hji with hlt | rfl
        · exact hbefore j hlt
        · have := (hc.zero_iff _ _).mp h0
          simp [this]
      · intro hn
        have hlt : cmp (key l[i]) (key l[i + 1]) < 0 :=
          List.pairwise_iff_getElem.mp hl i (i + 1) hi hn (by omega)
        have := hc.lt_of_le_of_lt hk hlt
        have := hc.flip k (key l[i + 1])
        simp
        omega
    · next h0 =>
      rw [ahead_prev, takeWhile_eq_take i]
      · exact fun j hj hji => hbefore j hji
      · intro hn
        have := hc.flip k (key l[i])
        simp
        omega

end Cursor
