import Mathlib.Tactic.Common

/-!
# Programs over a state, with faults and events

`Prog σ ε l α` is a program that reads and writes a state `σ`, may stop with a fault `ε` (undefined
behaviour of the modelled language), emits events `l` and returns an `α`. Events say what an
observer sees: they do not change the state. One program text has several readings:

* `run`: the sequential meaning; events do nothing.
* `wp`: weakest preconditions, for given `Rules` of what a fault and an event mean. With the rules
  `alone` it is about `run` (`wp_alone_iff`).
* `Path` (`Lib/Monitor.lean`): the event sequences of the program in any environment.

What a program does to the state, whatever it returns, is a relation (`Effect`).
-/

/-- A program over states `σ`, with faults `ε` and events `l`. -/
inductive Prog (σ ε l α : Type) : Type where
  | ret (a : α)
  | fault (e : ε)
  | get (k : σ → Prog σ ε l α)
  | set (s : σ) (k : Prog σ ε l α)
  | emit (x : l) (k : Prog σ ε l α)

namespace Prog

variable {σ ε l α β γ : Type}

/-- Sequencing. -/
def bind : Prog σ ε l α → (α → Prog σ ε l β) → Prog σ ε l β
  | ret a, f => f a
  | fault e, _ => fault e
  | get k, f => get fun s => (k s).bind f
  | set s k, f => set s (k.bind f)
  | emit x k, f => emit x (k.bind f)

instance : Monad (Prog σ ε l) where
  pure := ret
  bind := bind

private theorem bind_assoc' (p : Prog σ ε l α) (f : α → Prog σ ε l β) (g : β → Prog σ ε l γ) :
    (p.bind f).bind g = p.bind fun a => (f a).bind g := by
  induction p with
  | ret a => rfl
  | fault e => rfl
  | get k ih => simp only [bind, ih]
  | set s k ih => simp only [bind, ih]
  | emit x k ih => simp only [bind, ih]

private theorem bind_ret (p : Prog σ ε l α) : p.bind ret = p := by
  induction p with
  | ret a => rfl
  | fault e => rfl
  | get k ih => simp only [bind, ih]
  | set s k ih => simp only [bind, ih]
  | emit x k ih => simp only [bind, ih]

instance : LawfulMonad (Prog σ ε l) :=
  LawfulMonad.mk' _ bind_ret (fun _ _ => rfl) bind_assoc'

/-! ## Statements -/

/-- The current state. -/
def state : Prog σ ε l σ := get ret

/-- A new state. -/
def put (s : σ) : Prog σ ε l Unit := set s (ret ())

/-- The state changed by `f`. -/
def modify (f : σ → σ) : Prog σ ε l Unit := get fun s => set (f s) (ret ())

/-- One event. -/
def event (x : l) : Prog σ ε l Unit := emit x (ret ())

/-- `p`, if `c`. -/
def when (c : Bool) (p : Prog σ ε l Unit) : Prog σ ε l Unit :=
  match c with
  | true => p
  | false => ret ()

/-- A value that may be missing: `e` is the fault of using it then. -/
def ofOption (e : ε) : Option α → Prog σ ε l α
  | some a => ret a
  | none => fault e

/-! ## Sequential meaning -/

/-- The sequential meaning: the result and the state, or the first fault. -/
def run : Prog σ ε l α → σ → Except ε (α × σ)
  | ret a, s => .ok (a, s)
  | fault e, _ => .error e
  | get k, s => (k s).run s
  | set s k, _ => k.run s
  | emit _ k, s => k.run s

/-- What `run` continues with after a first part. -/
def andThen (x : Except ε (α × σ)) (f : α → σ → Except ε (β × σ)) : Except ε (β × σ) :=
  match x with
  | .ok (a, s) => f a s
  | .error e => .error e

@[simp] theorem andThen_ok (a : α) (s : σ) (f : α → σ → Except ε (β × σ)) :
    andThen (.ok (a, s)) f = f a s := rfl

@[simp] theorem andThen_error (e : ε) (f : α → σ → Except ε (β × σ)) :
    andThen (.error e) f = .error e := rfl

@[simp] theorem run_pure (a : α) (s : σ) : (pure a : Prog σ ε l α).run s = .ok (a, s) := rfl

@[simp] theorem run_ret (a : α) (s : σ) : (ret a : Prog σ ε l α).run s = .ok (a, s) := rfl

@[simp] theorem run_fault (e : ε) (s : σ) : (fault e : Prog σ ε l α).run s = .error e := rfl

@[simp] theorem run_state (s : σ) : (state : Prog σ ε l σ).run s = .ok (s, s) := rfl

@[simp] theorem run_put (s s' : σ) : (put s' : Prog σ ε l Unit).run s = .ok ((), s') := rfl

@[simp] theorem run_modify (f : σ → σ) (s : σ) :
    (modify f : Prog σ ε l Unit).run s = .ok ((), f s) := rfl

@[simp] theorem run_event (x : l) (s : σ) : (event x : Prog σ ε l Unit).run s = .ok ((), s) := rfl

@[simp] theorem run_ofOption_some (e : ε) (a : α) (s : σ) :
    (ofOption e (some a) : Prog σ ε l α).run s = .ok (a, s) := rfl

@[simp] theorem run_ofOption_none (e : ε) (s : σ) :
    (ofOption e none : Prog σ ε l α).run s = .error e := rfl

@[simp] theorem when_true (p : Prog σ ε l Unit) : when true p = p := rfl

@[simp] theorem when_false (p : Prog σ ε l Unit) : when false p = pure () := rfl

theorem run_bind (p : Prog σ ε l α) (f : α → Prog σ ε l β) (s : σ) :
    (p >>= f).run s = andThen (p.run s) fun a s' => (f a).run s' := by
  show (p.bind f).run s = _
  induction p generalizing s with
  | ret a => rfl
  | fault e => rfl
  | get k ih => exact ih s s
  | set s' k ih => exact ih s'
  | emit x k ih => exact ih s

/-- The second part of a run whose first part is known. -/
theorem run_bind_ok {p : Prog σ ε l α} {f : α → Prog σ ε l β} {s s' : σ} {a : α}
    (h : p.run s = .ok (a, s')) : (p >>= f).run s = (f a).run s' := by
  rw [run_bind, h, andThen_ok]

theorem run_bind_error {p : Prog σ ε l α} {f : α → Prog σ ε l β} {s : σ} {e : ε}
    (h : p.run s = .error e) : (p >>= f).run s = .error e := by
  rw [run_bind, h, andThen_error]

/-! ## Weakest preconditions -/

/-- How a judgement about programs reads faults and events. It allows some faults. It keeps a record
`κ` along the program; at an event, `event` says what must hold for the rest of the program to be
judged, and where. -/
structure Rules (σ ε l κ : Type) where
  allows : ε → Prop
  event : l → σ → κ → (σ → κ → Prop) → Prop
  mono : ∀ x s c (P P' : σ → κ → Prop), (∀ s c, P s c → P' s c) → event x s c P → event x s c P'

variable {κ : Type} {J : Rules σ ε l κ}

/-- Under the rules `J` the events that are `quiet` do nothing. -/
def Rules.Silent (J : Rules σ ε l κ) (quiet : l → Prop) : Prop :=
  ∀ x, quiet x → ∀ s c P, J.event x s c P ↔ P s c

/-- The rules of a program that runs alone: an event does nothing. -/
def Rules.alone (F : ε → Prop) : Rules σ ε l Unit where
  allows := F
  event _ s c P := P s c
  mono _ s c _ _ h := h s c

/-- From `s` the program ends with `Q`, or stops with a fault that is allowed. -/
def wp (J : Rules σ ε l κ) : Prog σ ε l α → (α → σ → κ → Prop) → σ → κ → Prop
  | ret a, Q, s, c => Q a s c
  | fault e, _, _, _ => J.allows e
  | get k, Q, s, c => (k s).wp J Q s c
  | set s k, Q, _, c => k.wp J Q s c
  | emit x k, Q, s, c => J.event x s c (k.wp J Q)

theorem alone_silent (F : ε → Prop) (quiet : l → Prop) :
    (Rules.alone F : Rules σ ε l Unit).Silent quiet := fun _ _ _ _ _ => Iff.rfl

@[simp] theorem alone_allows (F : ε → Prop) : (Rules.alone F : Rules σ ε l Unit).allows = F := rfl

@[simp] theorem alone_event (F : ε → Prop) (x : l) (s : σ) (c : Unit) (P : σ → Unit → Prop) :
    (Rules.alone F : Rules σ ε l Unit).event x s c P ↔ P s c := Iff.rfl

/-- **What the judgement for a program that runs alone says of its run.** -/
theorem wp_alone_iff (F : ε → Prop) (p : Prog σ ε l α) (Q : α → σ → Unit → Prop) (s : σ) :
    p.wp (.alone F) Q s () ↔
      (∃ a s', p.run s = .ok (a, s') ∧ Q a s' ()) ∨ ∃ e, p.run s = .error e ∧ F e := by
  induction p generalizing s with
  | ret a =>
    constructor
    · exact fun h => .inl ⟨a, s, rfl, h⟩
    · rintro (⟨a', s', h, hQ⟩ | ⟨e, h, -⟩)
      · cases h
        exact hQ
      · cases h
  | fault e =>
    constructor
    · exact fun h => .inr ⟨e, rfl, h⟩
    · rintro (⟨a', s', h, -⟩ | ⟨e', h, hF⟩)
      · cases h
      · cases h
        exact hF
  | get k ih => exact ih s s
  | set s' k ih => exact ih s'
  | emit x k ih => exact ih s

/-- A judgement without faults: the program ends with `Q`. -/
theorem wp_run {p : Prog σ ε l α} {Q : α → σ → Unit → Prop} {s : σ}
    (h : p.wp (.alone fun _ => False) Q s ()) : ∃ a s', p.run s = .ok (a, s') ∧ Q a s' () := by
  rcases (wp_alone_iff _ p Q s).mp h with h | ⟨e, -, h⟩
  · exact h
  · exact h.elim

/-- What a run that ends leaves behind. -/
theorem wp_of_run {F : ε → Prop} {p : Prog σ ε l α} {Q : α → σ → Unit → Prop} {s s' : σ} {a : α}
    (h : p.wp (.alone F) Q s ()) (hr : p.run s = .ok (a, s')) : Q a s' () := by
  rcases (wp_alone_iff F p Q s).mp h with ⟨a', s'', hr', hQ⟩ | ⟨e, hr', -⟩
  · rw [hr] at hr'
    cases hr'
    exact hQ
  · rw [hr] at hr'
    cases hr'

/-- A run that stops does so with a fault that is allowed. -/
theorem wp_of_error {F : ε → Prop} {p : Prog σ ε l α} {Q : α → σ → Unit → Prop} {s : σ} {e : ε}
    (h : p.wp (.alone F) Q s ()) (hr : p.run s = .error e) : F e := by
  rcases (wp_alone_iff F p Q s).mp h with ⟨a', s'', hr', -⟩ | ⟨e', hr', hF⟩
  · rw [hr] at hr'
    cases hr'
  · rw [hr] at hr'
    cases hr'
    exact hF

/-- Two judgements about one program that runs alone. -/
theorem wp_alone_and {F F' : ε → Prop} {p : Prog σ ε l α} {Q Q' : α → σ → Unit → Prop} {s : σ}
    (h : p.wp (.alone F) Q s ()) (h' : p.wp (.alone F') Q' s ()) :
    p.wp (.alone F) (fun a s c => Q a s c ∧ Q' a s c) s () := by
  rcases (wp_alone_iff F p Q s).mp h with ⟨a, s', hr, hQ⟩ | he
  · exact (wp_alone_iff F p _ s).mpr (.inl ⟨a, s', hr, hQ, wp_of_run h' hr⟩)
  · exact (wp_alone_iff F p _ s).mpr (.inr he)

/-- More faults may be allowed. -/
theorem wp_alone_mono {F F' : ε → Prop} (hF : ∀ e, F e → F' e) {p : Prog σ ε l α}
    {Q : α → σ → Unit → Prop} {s : σ} (h : p.wp (.alone F) Q s ()) : p.wp (.alone F') Q s () := by
  rw [wp_alone_iff] at h ⊢
  exact h.imp_right fun ⟨e, he, hFe⟩ => ⟨e, he, hF e hFe⟩

/-- The rule of consequence. -/
theorem wp_mono {p : Prog σ ε l α} {Q Q' : α → σ → κ → Prop} {s : σ} {c : κ} (h : p.wp J Q s c)
    (hQ : ∀ a s c, Q a s c → Q' a s c) : p.wp J Q' s c := by
  induction p generalizing s c with
  | ret a => exact hQ a s c h
  | fault e => exact h
  | get k ih => exact ih s h
  | set s' k ih => exact ih h
  | emit x k ih => exact J.mono x s c _ _ (fun s c h => ih h) h

theorem wp_bind (p : Prog σ ε l α) (f : α → Prog σ ε l β) (Q : β → σ → κ → Prop) (s : σ) (c : κ) :
    (p >>= f).wp J Q s c ↔ p.wp J (fun a s c => (f a).wp J Q s c) s c := by
  show (p.bind f).wp J Q s c ↔ _
  induction p generalizing s c with
  | ret a => exact Iff.rfl
  | fault e => exact Iff.rfl
  | get k ih => exact ih s s c
  | set s' k ih => exact ih s' c
  | emit x k ih =>
    constructor
    · exact J.mono x s c _ _ fun s c h => (ih s c).mp h
    · exact J.mono x s c _ _ fun s c h => (ih s c).mpr h

@[simp] theorem wp_pure (a : α) (Q : α → σ → κ → Prop) (s : σ) (c : κ) :
    (pure a : Prog σ ε l α).wp J Q s c ↔ Q a s c := Iff.rfl

@[simp] theorem wp_ret (a : α) (Q : α → σ → κ → Prop) (s : σ) (c : κ) :
    (ret a : Prog σ ε l α).wp J Q s c ↔ Q a s c := Iff.rfl

@[simp] theorem wp_fault (e : ε) (Q : α → σ → κ → Prop) (s : σ) (c : κ) :
    (fault e : Prog σ ε l α).wp J Q s c ↔ J.allows e := Iff.rfl

@[simp] theorem wp_state (Q : σ → σ → κ → Prop) (s : σ) (c : κ) :
    (state : Prog σ ε l σ).wp J Q s c ↔ Q s s c := Iff.rfl

@[simp] theorem wp_put (s' : σ) (Q : Unit → σ → κ → Prop) (s : σ) (c : κ) :
    (put s' : Prog σ ε l Unit).wp J Q s c ↔ Q () s' c := Iff.rfl

@[simp] theorem wp_modify (f : σ → σ) (Q : Unit → σ → κ → Prop) (s : σ) (c : κ) :
    (modify f : Prog σ ε l Unit).wp J Q s c ↔ Q () (f s) c := Iff.rfl

@[simp] theorem wp_event (x : l) (Q : Unit → σ → κ → Prop) (s : σ) (c : κ) :
    (event x : Prog σ ε l Unit).wp J Q s c ↔ J.event x s c (Q ()) := Iff.rfl

@[simp] theorem wp_map (p : Prog σ ε l α) (f : α → β) (Q : β → σ → κ → Prop) (s : σ) (c : κ) :
    (f <$> p).wp J Q s c ↔ p.wp J (fun a s c => Q (f a) s c) s c := by
  rw [map_eq_pure_bind, wp_bind]
  rfl

theorem wp_when (b : Bool) (p : Prog σ ε l Unit) (Q : Unit → σ → κ → Prop) (s : σ) (c : κ) :
    (when b p).wp J Q s c ↔ (b = true → p.wp J Q s c) ∧ (b = false → Q () s c) := by
  cases b <;> simp

/-- A value that may be missing. -/
def Found (J : Rules σ ε l κ) (e : ε) (o : Option α) (P : α → Prop) : Prop :=
  match o with
  | some a => P a
  | none => J.allows e

@[simp] theorem found_some (e : ε) (a : α) (P : α → Prop) : Found J e (some a) P ↔ P a := Iff.rfl

@[simp] theorem found_none (e : ε) (P : α → Prop) : Found J e none P ↔ J.allows e := Iff.rfl

/-- `Found` where the fault is allowed: the value may be taken to be there. -/
theorem found_of_allows {e : ε} {o : Option α} {P : α → Prop} (he : J.allows e)
    (h : ∀ a, o = some a → P a) : Found J e o P := by
  cases o with
  | none => exact he
  | some a => exact h a rfl

@[simp] theorem wp_ofOption (e : ε) (o : Option α) (Q : α → σ → κ → Prop) (s : σ) (c : κ) :
    (ofOption e o : Prog σ ε l α).wp J Q s c ↔ Found J e o fun a => Q a s c := by
  cases o <;> rfl

/-- The program keeps `I`: from every state that has it, it ends in one that has it. -/
def Keeps (J : Rules σ ε l κ) (I : σ → κ → Prop) (p : Prog σ ε l α) : Prop :=
  ∀ s c, I s c → p.wp J (fun _ s c => I s c) s c

namespace Keeps

variable {I : σ → κ → Prop}

theorem pure (a : α) : Keeps J I (pure a : Prog σ ε l α) := fun _ _ h => h

theorem bind {p : Prog σ ε l α} {f : α → Prog σ ε l β} (hp : Keeps J I p)
    (hf : ∀ a, Keeps J I (f a)) : Keeps J I (p >>= f) := by
  intro s c h
  rw [wp_bind]
  exact wp_mono (hp s c h) fun a s c h => hf a s c h

theorem when {b : Bool} {p : Prog σ ε l Unit} (hp : Keeps J I p) : Keeps J I (when b p) := by
  cases b with
  | true => exact hp
  | false => exact fun _ _ h => h

/-- What a program that keeps `I` is followed by. -/
theorem wp {p : Prog σ ε l α} (hp : Keeps J I p) {s : σ} {c : κ} {Q : α → σ → κ → Prop}
    (h : I s c) (hQ : ∀ a s c, I s c → Q a s c) : p.wp J Q s c := wp_mono (hp s c h) hQ

end Keeps

/-- Wherever the program ends, the states before and after it are related. -/
def Effect (R : σ → σ → Prop) (p : Prog σ ε l α) : Prop :=
  ∀ s, p.wp (.alone fun _ => True) (fun _ s' _ => R s s') s ()

namespace Effect

variable {R R' : σ → σ → Prop} {p : Prog σ ε l α}

theorem run (hp : Effect R p) {s s' : σ} {a : α} (hr : p.run s = .ok (a, s')) : R s s' :=
  wp_of_run (hp s) hr

/-- What a program is followed by, where faults are no matter. -/
theorem wp (hp : Effect R p) {s : σ} {Q : α → σ → Unit → Prop} (hQ : ∀ a s', R s s' → Q a s' ()) :
    p.wp (.alone fun _ => True) Q s () := wp_mono (hp s) fun a s' _ h => hQ a s' h

theorem mono (hp : Effect R p) (h : ∀ s s', R s s' → R' s s') : Effect R' p :=
  fun s => hp.wp fun _ s' hs => h s s' hs

theorem pure [Std.Refl R] (a : α) : Effect R (pure a : Prog σ ε l α) := fun s => Std.Refl.refl s

theorem fault (e : ε) : Effect R (fault e : Prog σ ε l α) := fun _ => trivial

theorem event [Std.Refl R] (x : l) : Effect R (event x : Prog σ ε l Unit) :=
  fun s => Std.Refl.refl s

theorem ofOption [Std.Refl R] (e : ε) (o : Option α) : Effect R (ofOption e o : Prog σ ε l α) := by
  intro s
  cases o with
  | none => trivial
  | some a => exact Std.Refl.refl s

theorem modify {f : σ → σ} (h : ∀ s, R s (f s)) : Effect R (modify f : Prog σ ε l Unit) := h

theorem bind [IsTrans σ R] {f : α → Prog σ ε l β} (hp : Effect R p) (hf : ∀ a, Effect R (f a)) :
    Effect R (p >>= f) := by
  intro s
  rw [wp_bind]
  exact hp.wp fun a s' h => (hf a).wp fun b s'' h' => IsTrans.trans _ _ _ h h'

theorem map {f : α → β} (hp : Effect R p) : Effect R (f <$> p) := by
  intro s
  rw [wp_map]
  exact hp s

/-- The state is read. -/
theorem state_bind {f : σ → Prog σ ε l β} (h : ∀ s, (f s).wp (.alone fun _ => True)
    (fun _ s' _ => R s s') s ()) : Effect R (state >>= f) := by
  intro s
  rw [wp_bind]
  exact h s

theorem when [Std.Refl R] {b : Bool} {p : Prog σ ε l Unit} (hp : Effect R p) :
    Effect R (when b p) := by
  cases b with
  | true => exact hp
  | false => exact fun s => Std.Refl.refl s

end Effect

end Prog
