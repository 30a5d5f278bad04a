import PyLeveldb.Lib.Prog

/-!
# Runs of calls

A system of calls: what a client may call in a state, and the program of each call. A run is a
sequence of calls that all end, one after the other, with their results.

* `Calls.Run.inv`: what every call preserves holds along every run.
* `Calls.Run.safe`: a call after a run ends, or stops with a fault that is allowed.
-/

/-- A system of calls `ω`, with results `ρ`. -/
structure Calls (σ ε l ω ρ : Type) where
  /-- The call may be made in a state. -/
  allowed : ω → σ → Prop
  prog : ω → Prog σ ε l ρ

namespace Calls

variable {σ ε l ω ρ : Type} {K : Calls σ ε l ω ρ} {s s' : σ} {h : List (ω × ρ)} {F : ε → Prop}

/-- From `s` the calls of `h` give their results and lead to the last state. -/
inductive Run (K : Calls σ ε l ω ρ) (s : σ) : List (ω × ρ) → σ → Prop where
  | nil : Run K s [] s
  | snoc {h : List (ω × ρ)} {s' s'' : σ} {a : ω} {r : ρ} : Run K s h s' → K.allowed a s' →
      (K.prog a).run s' = .ok (r, s'') → Run K s (h ++ [(a, r)]) s''

/-- Every call preserves `I`; `F` are the faults that it may have. -/
def Preserves (K : Calls σ ε l ω ρ) (F : ε → Prop) (I : σ → Prop) : Prop :=
  ∀ a s, I s → K.allowed a s → (K.prog a).wp (.alone F) (fun _ s' _ => I s') s ()

/-- **What every call preserves holds along every run.** -/
theorem Run.inv {I : σ → Prop} (hp : K.Preserves F I) (hrun : K.Run s h s') (hs : I s) : I s' := by
  induction hrun with
  | nil => exact hs
  | snoc _ ha hr ih => exact Prog.wp_of_run (hp _ _ ih ha) hr

/-- **The next call of a run ends, or stops with a fault that is allowed.** -/
theorem Run.safe {I : σ → Prop} (hp : K.Preserves F I) (hrun : K.Run s h s') (hs : I s) {a : ω}
    (ha : K.allowed a s') :
    (∃ r s'', (K.prog a).run s' = .ok (r, s'')) ∨ ∃ e, (K.prog a).run s' = .error e ∧ F e := by
  have hwp := hp a s' (hrun.inv hp hs) ha
  rcases (Prog.wp_alone_iff F _ _ _).mp hwp with ⟨r, s'', hr, -⟩ | he
  · exact .inl ⟨r, s'', hr⟩
  · exact .inr he

end Calls
