import Mathlib.Data.List.Basic

/-!
# Sorted lists under a three-way comparison

`Compares cmp`: the sign of `cmp a b` orders `α` totally. Elements that compare equal need not be
equal; `Compares.Strict` adds that they are.

A range of a sorted list can be had in two ways: as the elements that satisfy both bounds
(`between`, the meaning), or by a walk that starts at the first (last) element within one bound and
stops at the first that is past the other (what a cursor does). `walk_up` and `walk_down` say that
the two agree, in both directions.
-/

/-- The sign of `cmp` is a total preorder. -/
structure Compares {α : Type} (cmp : α → α → Int) : Prop where
  flip : ∀ a b, cmp a b < 0 ↔ 0 < cmp b a
  trans : ∀ a b c, cmp a b ≤ 0 → cmp b c ≤ 0 → cmp a c ≤ 0

/-- The sign of `cmp` is a total order. -/
structure Compares.Strict {α : Type} (cmp : α → α → Int) : Prop extends Compares cmp where
  eq : ∀ a b, cmp a b = 0 → a = b

namespace Compares

variable {α : Type} {cmp : α → α → Int}

theorem refl (h : Compares cmp) (a : α) : cmp a a = 0 := by
  have := h.flip a a
  omega

theorem le_of_not_lt (h : Compares cmp) {a b : α} (hn : ¬ cmp a b < 0) : cmp b a ≤ 0 := by
  have := h.flip a b
  omega

theorem lt_iff (h : Compares cmp) (a b : α) : cmp a b < 0 ↔ ¬ cmp b a ≤ 0 := by
  have := h.flip a b
  omega

theorem le_iff (h : Compares cmp) (a b : α) : cmp a b ≤ 0 ↔ 0 ≤ cmp b a := by
  have h1 := h.flip b a
  omega

theorem zero_iff (h : Compares cmp) (a b : α) : cmp a b = 0 ↔ cmp b a = 0 := by
  have h1 := h.flip a b
  have h2 := h.flip b a
  omega

theorem lt_of_le_of_lt (h : Compares cmp) {a b c : α} (h1 : cmp a b ≤ 0) (h2 : cmp b c < 0) :
    cmp a c < 0 := by
  by_contra hn
  have hca := h.le_of_not_lt hn
  have := h.trans c a b hca h1
  have := h.flip b c
  omega

theorem lt_of_lt_of_le (h : Compares cmp) {a b c : α} (h1 : cmp a b < 0) (h2 : cmp b c ≤ 0) :
    cmp a c < 0 := by
  by_contra hn
  have hca := h.le_of_not_lt hn
  have := h.trans b c a h2 hca
  have := h.flip a b
  omega

end Compares

namespace Sorted

variable {α : Type} {p : α → Bool} {l : List α}

/-- The elements before the first without `p` are all those with `p`, if `p` only holds of a
prefix. -/
theorem takeWhile_eq_filter (h : l.Pairwise fun a b => p b = true → p a = true) :
    l.takeWhile p = l.filter p := by
  induction l with
  | nil => rfl
  | cons a l ih =>
    obtain ⟨ha, hl⟩ := List.pairwise_cons.mp h
    by_cases hp : p a = true
    · rw [List.takeWhile_cons_of_pos hp, List.filter_cons_of_pos hp, ih hl]
    · rw [List.takeWhile_cons_of_neg hp, List.filter_cons_of_neg hp, eq_comm,
        List.filter_eq_nil_iff]
      exact fun b hb hpb => hp (ha b hb hpb)

/-- The elements from the first with `p` on are all those with `p`, if `p` only holds of a
suffix. -/
theorem dropWhile_eq_filter (h : l.Pairwise fun a b => p a = true → p b = true) :
    l.dropWhile (!p ·) = l.filter p := by
  induction l with
  | nil => rfl
  | cons a l ih =>
    obtain ⟨ha, hl⟩ := List.pairwise_cons.mp h
    by_cases hp : p a = true
    · rw [List.dropWhile_cons_of_neg (by simp [hp]), List.filter_cons_of_pos hp, eq_comm]
      congr 1
      exact List.filter_eq_self.mpr fun b hb => ha b hb hp
    · rw [List.dropWhile_cons_of_pos (by simpa using hp), List.filter_cons_of_neg hp, ih hl]

/-- `findIdx?` splits a list at the first element with `p`. -/
theorem drop_findIdx? (l : List α) (p : α → Bool) :
    ((l.findIdx? p).elim [] fun i => l.drop i) = l.dropWhile (!p ·) := by
  induction l with
  | nil => rfl
  | cons a l ih =>
    rw [List.findIdx?_cons]
    by_cases hp : p a = true
    · rw [List.dropWhile_cons_of_neg (by simp [hp])]
      simp [hp]
    · rw [List.dropWhile_cons_of_pos (by simpa using hp), ← ih]
      simp only [hp, Bool.false_eq_true, ↓reduceIte]
      cases l.findIdx? p <;> rfl

/-- The elements before the first with `p`. -/
theorem take_findIdx? (l : List α) (p : α → Bool) :
    ((l.findIdx? p).elim l fun i => l.take i) = l.takeWhile (!p ·) := by
  induction l with
  | nil => rfl
  | cons a l ih =>
    rw [List.findIdx?_cons]
    by_cases hp : p a = true
    · rw [List.takeWhile_cons_of_neg (by simp [hp])]
      simp [hp]
    · rw [List.takeWhile_cons_of_pos (by simpa using hp), ← ih]
      simp only [hp, Bool.false_eq_true, ↓reduceIte]
      cases l.findIdx? p <;> rfl

/-! ## Ranges -/

variable {κ : Type} {cmp : κ → κ → Int} {key : α → κ}

/-- The keys of `l` increase strictly. -/
def Increasing (cmp : κ → κ → Int) (key : α → κ) (l : List α) : Prop :=
  l.Pairwise fun a b => cmp (key a) (key b) < 0

/-- `k` is within the bounds that are given, both inclusive. -/
def inRange (cmp : κ → κ → Int) (lo hi : Option κ) (k : κ) : Bool :=
  lo.all (fun a => decide (cmp a k ≤ 0)) && hi.all (fun b => decide (cmp k b ≤ 0))

/-- The range of `l` between two bounds. -/
def between (cmp : κ → κ → Int) (key : α → κ) (lo hi : Option κ) (l : List α) : List α :=
  l.filter fun a => inRange cmp lo hi (key a)

theorem between_eq (lo hi : Option κ) (l : List α) : between cmp key lo hi l =
    (l.filter fun a => lo.all fun b => decide (cmp b (key a) ≤ 0)).filter
      fun a => hi.all fun b => decide (cmp (key a) b ≤ 0) := by
  rw [List.filter_filter]
  simp only [between, inRange, Bool.and_comm]

/-- **A walk up**: from the first element at or above `lo`, while at or below `hi`. -/
theorem walk_up (hc : Compares cmp) {l : List α} (hl : Increasing cmp key l) (lo hi : Option κ) :
    (l.dropWhile fun a => !lo.all fun b => decide (cmp b (key a) ≤ 0)).takeWhile
      (fun a => hi.all fun b => decide (cmp (key a) b ≤ 0)) = between cmp key lo hi l := by
  rw [between_eq, dropWhile_eq_filter (p := fun a => lo.all fun b => decide (cmp b (key a) ≤ 0)),
    takeWhile_eq_filter]
  · refine (hl.filter _).imp fun {a b} hab h => ?_
    cases hi with
    | none => rfl
    | some k =>
      simp only [Option.all_some, decide_eq_true_eq] at h ⊢
      exact hc.trans _ _ _ (by omega) h
  · refine hl.imp fun {a b} hab h => ?_
    cases lo with
    | none => rfl
    | some k =>
      simp only [Option.all_some, decide_eq_true_eq] at h ⊢
      exact hc.trans _ _ _ h (by omega)

/-- **A walk down**: from the last element at or below `hi`, while at or above `lo`. -/
theorem walk_down (hc : Compares cmp) {l : List α} (hl : Increasing cmp key l) (lo hi : Option κ) :
    (l.takeWhile fun a => hi.all fun b => decide (cmp (key a) b ≤ 0)).reverse.takeWhile
      (fun a => lo.all fun b => decide (cmp b (key a) ≤ 0)) =
        (between cmp key lo hi l).reverse := by
  have hhi : l.Pairwise fun a b => (hi.all fun k => decide (cmp (key b) k ≤ 0)) = true →
      (hi.all fun k => decide (cmp (key a) k ≤ 0)) = true := by
    refine hl.imp fun {a b} hab h => ?_
    cases hi with
    | none => rfl
    | some k =>
      simp only [Option.all_some, decide_eq_true_eq] at h ⊢
      exact hc.trans _ _ _ (by omega) h
  rw [takeWhile_eq_filter hhi, takeWhile_eq_filter, List.filter_reverse, List.filter_filter, between]
  · rfl
  · rw [List.pairwise_reverse]
    refine (hl.filter _).imp fun {a b} hab h => ?_
    cases lo with
    | none => rfl
    | some k =>
      simp only [Option.all_some, decide_eq_true_eq] at h ⊢
      exact hc.trans _ _ _ h (by omega)

end Sorted
