import PyLeveldb.Lib.Prog

/-!
# Monitors

The event sequences of a program, and automata that read them.

* `Prog.Path`: the event sequences of the program in any environment, where a read returns any state.
  `Prog.trace` is the one of a run without interference (`trace_path`).
* `Monitor`: an automaton over events. Some events are good in some of its states, and a program may
  stop with a fault in some of its states.
* `Monitor.Along`: a judgement along every path (`Along.path`). `Monitor.Moves` is the case where the
  state at the end does not depend on the path; it has a rule for each statement.
-/

namespace Prog

variable {σ ε l α : Type}

/-- The event sequences of a program. Every read may return any state: other parties may write
between two events. A path may stop at a fault. -/
inductive Path : Prog σ ε l α → List l → Option α → Prop where
  | ret (a : α) : Path (ret a) [] (some a)
  | fault (e : ε) : Path (fault e) [] none
  | get {k : σ → Prog σ ε l α} {π : List l} {r : Option α} (s : σ) : Path (k s) π r → Path (get k) π r
  | set {k : Prog σ ε l α} {π : List l} {r : Option α} (s : σ) : Path k π r → Path (set s k) π r
  | emit {k : Prog σ ε l α} {π : List l} {r : Option α} (x : l) : Path k π r → Path (emit x k) (x :: π) r

/-- The events of a run without interference. -/
def trace : Prog σ ε l α → σ → List l
  | ret _, _ => []
  | fault _, _ => []
  | get k, s => (k s).trace s
  | set s k, _ => k.trace s
  | emit x k, s => x :: k.trace s

/-- The result of a run, if it ends. -/
def result (p : Prog σ ε l α) (s : σ) : Option α :=
  match p.run s with
  | .ok (a, _) => some a
  | .error _ => none

theorem trace_path (p : Prog σ ε l α) (s : σ) : p.Path (p.trace s) (p.result s) := by
  induction p generalizing s with
  | ret a => exact .ret a
  | fault e => exact .fault e
  | get k ih => exact .get s (ih s s)
  | set s' k ih => exact .set s' (ih s')
  | emit x k ih => exact .emit x (ih s)

end Prog

/-- An automaton over events `l` with states `τ`. -/
structure Monitor (l τ : Type) where
  step : l → τ → τ
  good : l → τ → Prop
  /-- A program may stop with a fault. -/
  halt : τ → Prop

namespace Monitor

variable {σ ε l α β τ : Type} {M : Monitor l τ}

/-- Every event of `π` is good in the state before it. -/
def GoodFrom (M : Monitor l τ) : List l → τ → Prop
  | [], _ => True
  | x :: π, r => M.good x r ∧ M.GoodFrom π (M.step x r)

/-- The state after the events `π`. -/
def after (M : Monitor l τ) : List l → τ → τ
  | [], r => r
  | x :: π, r => M.after π (M.step x r)

instance decidableGoodFrom [∀ x r, Decidable (M.good x r)] (π : List l) (r : τ) :
    Decidable (M.GoodFrom π r) :=
  match π with
  | [] => isTrue trivial
  | x :: π =>
    have := decidableGoodFrom π (M.step x r)
    inferInstanceAs (Decidable (M.good x r ∧ M.GoodFrom π (M.step x r)))

/-- Along every path from `r` every event is good. A path that ends with `a` in `r'` has `Q a r'`, and
one that stops with a fault stops where it may. -/
def Along (M : Monitor l τ) : Prog σ ε l α → (α → τ → Prop) → τ → Prop
  | .ret a, Q, r => Q a r
  | .fault _, _, r => M.halt r
  | .get k, Q, r => ∀ s, M.Along (k s) Q r
  | .set _ k, Q, r => M.Along k Q r
  | .emit x k, Q, r => M.good x r ∧ M.Along k Q (M.step x r)

/-- **A judgement along a program holds of each of its paths.** -/
theorem Along.path {p : Prog σ ε l α} {Q : α → τ → Prop} {r : τ} (h : M.Along p Q r)
    {π : List l} {res : Option α} (hp : p.Path π res) :
    M.GoodFrom π r ∧ (∀ a, res = some a → Q a (M.after π r)) ∧
      (res = none → M.halt (M.after π r)) := by
  induction hp generalizing r with
  | ret a => exact ⟨trivial, fun b hb => Option.some.inj hb ▸ h, fun hb => nomatch hb⟩
  | fault e => exact ⟨trivial, fun b hb => (nomatch hb), fun _ => h⟩
  | get s _ ih => exact ih (h s)
  | set s _ ih => exact ih h
  | emit x _ ih => exact ⟨⟨h.1, (ih h.2).1⟩, (ih h.2).2⟩

theorem along_bind (p : Prog σ ε l α) (f : α → Prog σ ε l β) (Q : β → τ → Prop) (r : τ) :
    M.Along (p >>= f) Q r ↔ M.Along p (fun a r' => M.Along (f a) Q r') r := by
  show M.Along (p.bind f) Q r ↔ _
  induction p generalizing r with
  | ret a => exact Iff.rfl
  | fault e => exact Iff.rfl
  | get k ih => exact forall_congr' fun s => ih s r
  | set s' k ih => exact ih r
  | emit x k ih => exact and_congr Iff.rfl (ih _)

theorem along_mono {p : Prog σ ε l α} {Q Q' : α → τ → Prop} {r : τ} (h : M.Along p Q r)
    (hQ : ∀ a r', Q a r' → Q' a r') : M.Along p Q' r := by
  induction p generalizing r with
  | ret a => exact hQ a r h
  | fault e => exact h
  | get k ih => exact fun s => ih s (h s)
  | set s' k ih => exact ih h
  | emit x k ih => exact ⟨h.1, ih h.2⟩

/-- Along every path from `r` every event is good, and a path that ends does so in `r'`. -/
def Moves (M : Monitor l τ) (r : τ) (p : Prog σ ε l α) (r' : τ) : Prop :=
  M.Along p (fun _ s => s = r') r

namespace Moves

variable {r r' r'' : τ}

theorem pure (a : α) : M.Moves r (Pure.pure a : Prog σ ε l α) r := rfl

theorem fault (e : ε) (h : M.halt r) : M.Moves r (Prog.fault e : Prog σ ε l α) r' := h

theorem bind {p : Prog σ ε l α} {f : α → Prog σ ε l β} (hp : M.Moves r p r')
    (hf : ∀ a, M.Moves r' (f a) r'') : M.Moves r (p >>= f) r'' := by
  unfold Moves
  rw [along_bind]
  refine along_mono hp ?_
  rintro a _ rfl
  exact hf a

theorem map {p : Prog σ ε l α} (f : α → β) (hp : M.Moves r p r') : M.Moves r (f <$> p) r' := by
  rw [map_eq_pure_bind]
  exact hp.bind fun a => pure (f a)

theorem state : M.Moves r (Prog.state : Prog σ ε l σ) r := fun _ => rfl

theorem put (s : σ) : M.Moves r (Prog.put s : Prog σ ε l Unit) r := rfl

theorem modify (f : σ → σ) : M.Moves r (Prog.modify f : Prog σ ε l Unit) r := fun _ => rfl

theorem event (x : l) (h : M.good x r) (hs : M.step x r = r') :
    M.Moves r (Prog.event x : Prog σ ε l Unit) r' := ⟨h, hs⟩

theorem when {b : Bool} {p : Prog σ ε l Unit} (hp : M.Moves r p r) :
    M.Moves r (Prog.when b p) r := by
  cases b with
  | true => exact hp
  | false => exact rfl

theorem ofOption (e : ε) (o : Option α) (h : M.halt r) :
    M.Moves r (Prog.ofOption e o : Prog σ ε l α) r := by
  cases o with
  | none => exact h
  | some a => exact rfl

/-- What holds of the paths of a program that `Moves`. -/
theorem path {p : Prog σ ε l α} (hp : M.Moves r p r') {π : List l} {res : Option α}
    (h : p.Path π res) : M.GoodFrom π r ∧ (∀ a, res = some a → M.after π r = r') ∧
      (res = none → M.halt (M.after π r)) := Along.path hp h

end Moves

end Monitor
