import PyLeveldb.Lib.Prog
import PyLeveldb.Lib.Table

/-!
# Programs that do not see a part of the state

`R s t` says that the state `s` is the state `t` without something. A program *lifts* over `R` if it does
in `t` what it does in `s`: whatever can be said of its end from `s` can be said of its end from `t`, of
the state without that part. So a judgement about the smaller state is enough.

* `Lifts` and its rules: sequencing, reading the state, a value that may be missing.
* `Table.Joins`: the rows of a table come from a smaller table and from a part that stays as it is.
* `Table.Keeps`: the rows of a table stay when others come and go.
-/

namespace Prog

variable {σ ε l α β : Type} {R : σ → σ → Prop} {F : ε → Prop} {s t : σ}

/-- From `t` the program `q` does what `p` does from `s`. -/
def Follows (R : σ → σ → Prop) (F : ε → Prop) (p q : Prog σ ε l α) (s t : σ) : Prop :=
  ∀ Q : α → σ → Unit → Prop, p.wp (.alone F) Q s () →
    q.wp (.alone F) (fun a t' _ => ∃ s', R s' t' ∧ Q a s' ()) t ()

/-- The program does in a state what it does in the state without the part that `R` leaves out. -/
def Lifts (R : σ → σ → Prop) (F : ε → Prop) (p : Prog σ ε l α) : Prop :=
  ∀ s t, R s t → Follows R F p p s t

namespace Follows

variable {p q : Prog σ ε l α}

theorem bind {f g : α → Prog σ ε l β} (h : Follows R F p q s t)
    (hf : ∀ a s t, R s t → Follows R F (f a) (g a) s t) : Follows R F (p >>= f) (q >>= g) s t := by
  intro Q hQ
  rw [wp_bind] at hQ ⊢
  refine wp_mono (h _ hQ) fun a t' _ h' => ?_
  obtain ⟨s', hR, hs'⟩ := h'
  exact hf a s' t' hR Q hs'

theorem pure (h : R s t) (a : α) : Follows R F (pure a) (pure a : Prog σ ε l α) s t :=
  fun _ hQ => ⟨s, h, hQ⟩

theorem put {s' t' : σ} (h : R s' t') : Follows R F (put s') (put t' : Prog σ ε l Unit) s t :=
  fun _ hQ => ⟨s', h, hQ⟩

/-- A value that is there without the part is there. -/
theorem ofOption {e : ε} (he : ¬ F e) {o o' : Option α} (h : R s t)
    (ho : ∀ a, o = some a → o' = some a) :
    Follows R F (ofOption e o) (ofOption e o' : Prog σ ε l α) s t := by
  intro Q hQ
  cases o with
  | none => exact absurd hQ he
  | some a =>
    rw [ho a rfl]
    exact ⟨s, h, hQ⟩

end Follows

namespace Lifts

variable {p : Prog σ ε l α}

theorem pure (a : α) : Lifts R F (pure a : Prog σ ε l α) := fun _ _ h => .pure h a

theorem fault (e : ε) : Lifts R F (fault e : Prog σ ε l α) := fun _ _ _ _ hQ => hQ

theorem event (x : l) : Lifts R F (event x : Prog σ ε l Unit) := fun s _ h _ hQ => ⟨s, h, hQ⟩

theorem modify {f : σ → σ} (h : ∀ s t, R s t → R (f s) (f t)) :
    Lifts R F (modify f : Prog σ ε l Unit) := fun s t hR _ hQ => ⟨f s, h s t hR, hQ⟩

theorem bind {f : α → Prog σ ε l β} (hp : Lifts R F p) (hf : ∀ a, Lifts R F (f a)) :
    Lifts R F (p >>= f) := fun s t h => (hp s t h).bind hf

theorem map {f : α → β} (hp : Lifts R F p) : Lifts R F (f <$> p) := by
  rw [map_eq_pure_bind]
  exact hp.bind fun a => .pure (f a)

theorem when {b : Bool} {p : Prog σ ε l Unit} (hp : Lifts R F p) : Lifts R F (when b p) := by
  cases b with
  | true => exact hp
  | false => exact .pure ()

/-- The state is read. -/
theorem state_bind {f : σ → Prog σ ε l β} (h : ∀ s t, R s t → Follows R F (f s) (f t) s t) :
    Lifts R F (state >>= f) := fun s t hR Q hQ => h s t hR Q hQ

/-- **A judgement about the smaller state.** -/
theorem wp (hp : Lifts R F p) (h : R s t) {Q Q' : α → σ → Unit → Prop} (hs : p.wp (.alone F) Q s ())
    (hQ : ∀ a s' t', R s' t' → Q a s' () → Q' a t' ()) : p.wp (.alone F) Q' t () := by
  refine wp_mono (hp s t h Q hs) fun a t' _ h' => ?_
  obtain ⟨s', hR, hs'⟩ := h'
  exact hQ a s' t' hR hs'

end Lifts

end Prog

namespace Table

variable {α : Type} {T A : Table α} {C : Nat → Option α} {i : Nat}

/-- The rows of `T` are those of `A` and those of `C`, at other identities. -/
structure Joins (T A : Table α) (C : Nat → Option α) : Prop where
  get : ∀ i, T.get i = (A.get i).or (C i)
  apart : ∀ i a, A.get i = some a → C i = none

namespace Joins

variable (h : T.Joins A C)
include h

theorem found {a : α} (hi : A.get i = some a) : T.get i = some a := by
  rw [h.get, hi, Option.some_or]

/-- A row of `T` is of one of the two. -/
theorem cases {a : α} (hi : T.get i = some a) : A.get i = some a ∨ A.get i = none ∧ C i = some a := by
  rw [h.get] at hi
  cases ha : A.get i with
  | none => exact .inr ⟨rfl, by rwa [ha, Option.none_or] at hi⟩
  | some b => exact .inl (by rwa [ha, Option.some_or] at hi)

theorem set {a b : α} (hi : A.get i = some b) : (T.set i a).Joins (A.set i a) C where
  get j := by
    rw [get_set, get_set]
    split
    · rfl
    · exact h.get j
  apart j c hj := by
    rcases get_set_some hj with ⟨rfl, -⟩ | ⟨-, hj⟩
    · exact h.apart j b hi
    · exact h.apart j c hj

theorem free {b : α} (hi : A.get i = some b) : (T.free i).Joins (A.free i) C where
  get j := by
    rw [get_free, get_free]
    split
    · next hj =>
      subst hj
      rw [h.apart j b hi]
      rfl
    · exact h.get j
  apart j c hj := h.apart j c (get_free_some hj).2

/-- The rows of one identity change. -/
theorem change {T' A' : Table α} {K : Nat → Option α} (hT : ∀ j, j ≠ i → T'.get j = T.get j)
    (hA : ∀ j, j ≠ i → A'.get j = A.get j) (hK : ∀ j, j ≠ i → K j = C j)
    (hi : T'.get i = (A'.get i).or (K i)) (ha : A'.get i = none ∨ K i = none) : T'.Joins A' K where
  get j := by
    by_cases hj : j = i
    · rw [hj, hi]
    · rw [hT j hj, hA j hj, hK j hj, h.get]
  apart j a hja := by
    by_cases hj : j = i
    · subst hj
      rcases ha with ha | ha
      · rw [ha] at hja
        cases hja
      · exact ha
    · rw [hK j hj]
      exact h.apart j a ((hA j hj).symm.trans hja)

end Joins

/-- `T'` has the rows of `T`. -/
def Keeps (T T' : Table α) : Prop := ∀ i a, T.get i = some a → T'.get i = some a

namespace Keeps

theorem refl (T : Table α) : T.Keeps T := fun _ _ h => h

theorem push (T : Table α) (a : α) : T.Keeps (T.push a) := fun _ _ h => get_push_of a h

/-- A new row is freed again. -/
theorem push_free (T : Table α) (a : α) : T.Keeps ((T.push a).free T.next) := fun _ _ h =>
  get_push_free_of a h

end Keeps

end Table
