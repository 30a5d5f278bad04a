import PyLeveldb.Lib.Prog

/-!
# What an observer sees of a sequential run

`Prog.history p s` is the list of the events of the run of `p` from `s`, each with the state that it
happens in. Two judgements speak about it, with the rules of `wp`:

* `Rules.checking`: every event of the history has a property (`wp_checking_iff`).
* `Rules.recording`: what an observer writes down of each event, in order (`wp_recording_iff`).
-/

namespace Prog

variable {σ ε l α β : Type} {F : ε → Prop}

/-- The events of the run from a state, each with the state that it happens in. -/
def history : Prog σ ε l α → σ → List (l × σ)
  | ret _, _ => []
  | fault _, _ => []
  | get k, s => (k s).history s
  | set s k, _ => k.history s
  | emit x k, s => (x, s) :: k.history s

/-- Every event has the property `check` in the state that it happens in. -/
def Rules.checking (F : ε → Prop) (check : l → σ → Prop) : Rules σ ε l Unit where
  allows := F
  event x s c P := check x s ∧ P s c
  mono _ s c _ _ h := And.imp_right (h s c)

/-- The observer writes down `see x s` of each event. -/
def Rules.recording (F : ε → Prop) (see : l → σ → Option β) : Rules σ ε l (List β) where
  allows := F
  event x s c P := P s (c ++ (see x s).toList)
  mono _ s _ _ _ h := h s _

/-- The rules let an event pass: the program may do without it. -/
def Rules.Passes {κ : Type} (J : Rules σ ε l κ) (x : l) (s : σ) : Prop :=
  ∀ c P, P s c → J.event x s c P

section

variable {check : l → σ → Prop} {see : l → σ → Option β}

@[simp] theorem checking_allows : (Rules.checking F check).allows = F := rfl

@[simp] theorem checking_event (x : l) (s : σ) (c : Unit) (P : σ → Unit → Prop) :
    (Rules.checking F check).event x s c P ↔ check x s ∧ P s c := Iff.rfl

@[simp] theorem recording_allows : (Rules.recording F see).allows = F := rfl

@[simp] theorem recording_event (x : l) (s : σ) (c : List β) (P : σ → List β → Prop) :
    (Rules.recording F see).event x s c P ↔ P s (c ++ (see x s).toList) := Iff.rfl

theorem checking_passes {x : l} {s : σ} (h : check x s) :
    (Rules.checking F check : Rules σ ε l Unit).Passes x s := fun _ _ hP => ⟨h, hP⟩

theorem recording_passes {x : l} {s : σ} (h : see x s = none) :
    (Rules.recording F see : Rules σ ε l (List β)).Passes x s := by
  intro c P hP
  simpa [h] using hP

/-- **A judgement that checks the events** is one about the run, and one about its history. -/
theorem wp_checking_iff (p : Prog σ ε l α) (Q : α → σ → Unit → Prop) (s : σ) :
    p.wp (.checking F check) Q s () ↔
      (∀ e ∈ p.history s, check e.1 e.2) ∧ p.wp (.alone F) Q s () := by
  induction p generalizing s with
  | ret a => simp [history, wp]
  | fault e => simp [history, wp]
  | get k ih => exact ih s s
  | set s' k ih => exact ih s'
  | emit x k ih =>
    show check x s ∧ k.wp (.checking F check) Q s () ↔ _
    rw [ih]
    simp [history, wp, and_assoc]

/-- **A judgement that records the events**: what the observer has at the end. -/
theorem wp_recording_iff (p : Prog σ ε l α) (Q : α → σ → List β → Prop) (s : σ) (c : List β) :
    p.wp (.recording F see) Q s c ↔
      p.wp (.alone F) (fun a s' _ => Q a s' (c ++ (p.history s).filterMap fun e => see e.1 e.2))
        s () := by
  induction p generalizing s c with
  | ret a => simp [history, wp]
  | fault e => simp [wp]
  | get k ih => exact ih s s c
  | set s' k ih => exact ih s' c
  | emit x k ih =>
    show k.wp (.recording F see) Q s (c ++ (see x s).toList) ↔ _
    rw [ih]
    cases hx : see x s <;> simp [history, wp, hx]

/-- What a run that ends leaves to be seen. -/
theorem recorded_of_run {p : Prog σ ε l α} {Q : α → σ → List β → Prop} {s s' : σ} {a : α}
    (h : p.wp (.recording F see) Q s []) (hr : p.run s = .ok (a, s')) :
    Q a s' ((p.history s).filterMap fun e => see e.1 e.2) :=
  wp_of_run ((wp_recording_iff p Q s []).mp h) hr

end

end Prog
