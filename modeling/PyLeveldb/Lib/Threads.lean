import Mathlib.Logic.Function.Basic
import PyLeveldb.Lib.Prog

/-!
# Threads under one lock

Any number of threads make calls whose bodies are programs over one shared state. There is one lock,
and a thread holds it when it is between calls; events of a call may do something to it (`LockAct`).
A step of the pool is a *block* of one thread: it performs the event that it stands at, and runs on
to its next event where control may pass (`pauses`), or to the end of the call. Between the blocks of
a thread that holds the lock there are only blocks of threads that gave it up.

* `Pool.step`, `Run`: the steps, and the runs, with the pools that they went through.
* `Discipline`: what the blocks of a call do, in terms of what its thread knows. `Obeys` is judged by
  `wp`, one call at a time.
* `Keeps.run`: an invariant over the pool and what its threads know, kept by every block that the
  discipline allows, holds along every run.
-/

namespace Threads

variable {σ ε l α ω ρ κ : Type}

/-! ## Blocks -/

/-- Where a block stops, and the events that it passed over. -/
inductive Stop (σ ε l α : Type) : Type where
  /-- The end of the program. -/
  | ended (π : List l) (a : α) (s : σ)
  /-- Before an event. -/
  | event (π : List l) (x : l) (k : Prog σ ε l α) (s : σ)
  | failed (e : ε)

/-- The first block of a program that has passed over `π`. -/
def block (pauses : l → Bool) : Prog σ ε l α → σ → List l → Stop σ ε l α
  | .ret a, s, π => .ended π a s
  | .fault e, _, _ => .failed e
  | .get k, s, π => block pauses (k s) s π
  | .set s k, _, π => block pauses k s π
  | .emit x k, s, π => if pauses x then .event π x k s else block pauses k s (π ++ [x])

/-- What a judgement says of the first block. -/
def Stop.wp (J : Prog.Rules σ ε l κ) (Q : α → σ → κ → Prop) (c : κ) : Stop σ ε l α → Prop
  | ended _ a s => Q a s c
  | event _ x k s => J.event x s c (k.wp J Q)
  | failed e => J.allows e

theorem wp_block {J : Prog.Rules σ ε l κ} {pauses : l → Bool}
    (hJ : ∀ x s c P, pauses x = false → J.event x s c P → P s c) {p : Prog σ ε l α}
    {Q : α → σ → κ → Prop} {s : σ} {c : κ} {π : List l} (h : p.wp J Q s c) :
    (block pauses p s π).wp J Q c := by
  induction p generalizing s π with
  | ret a => exact h
  | fault e => exact h
  | get k ih => exact ih s h
  | set s' k ih => exact ih h
  | emit x k ih =>
    unfold block
    cases hx : pauses x with
    | true => exact h
    | false => exact ih (hJ x s c _ hx h)

/-- The events that a block passes over, and the one before which it stops. -/
def Stop.Paused (pauses : l → Bool) : Stop σ ε l α → Prop
  | ended π _ _ => ∀ x ∈ π, pauses x = false
  | event π x _ _ => (∀ x ∈ π, pauses x = false) ∧ pauses x = true
  | failed _ => True

theorem block_paused_of {pauses : l → Bool} {p : Prog σ ε l α} {s : σ} {π : List l}
    (h : ∀ x ∈ π, pauses x = false) : (block pauses p s π).Paused pauses := by
  induction p generalizing s π with
  | ret a => exact h
  | fault e => trivial
  | get k ih => exact ih s h
  | set s' k ih => exact ih h
  | emit x k ih =>
    unfold block
    cases hx : pauses x with
    | true => exact ⟨h, hx⟩
    | false =>
      refine ih fun y hy => ?_
      rcases List.mem_append.mp hy with hy | hy
      · exact h y hy
      · rw [List.mem_singleton.mp hy, hx]

theorem block_paused (pauses : l → Bool) (p : Prog σ ε l α) (s : σ) :
    (block pauses p s []).Paused pauses :=
  block_paused_of fun _ hx => by cases hx

/-! ## Pools -/

/-- What an event does to the lock. -/
inductive LockAct where
  /-- Nothing. -/
  | keep
  /-- The holder gives it up. -/
  | release
  /-- It is taken, once it is free. -/
  | acquire
  /-- It is taken, unless the thread holds it already. -/
  | ensure
  /-- What the last `ensure` did is undone. -/
  | restore
  /-- The holder runs other code, and may give it up meanwhile. -/
  | yield
  deriving DecidableEq

/-- The bodies of the calls, what events do to the lock, and where control may pass. -/
structure Host (σ ε l ω ρ : Type) where
  prog : ω → Prog σ ε l ρ
  act : l → LockAct
  pauses : l → Bool

/-- A call that ended: its events and its result. -/
structure Done (l ω ρ : Type) where
  call : ω
  trace : List l
  result : ρ

structure Thread (σ ε l ω ρ : Type) where
  /-- The calls that it has yet to make. -/
  todo : List ω
  /-- The call that runs, the event that it stands at, and what comes after the event. -/
  call : Option (ω × l × Prog σ ε l ρ)
  /-- The events of that call so far. -/
  trace : List l
  /-- For each `ensure` that is not undone: did the thread hold the lock before? -/
  saved : List Bool
  /-- It has given up the lock at a `yield`. -/
  out : Bool
  done : List (Done l ω ρ)

structure Pool (σ ε l ω ρ : Type) where
  shared : σ
  holder : Option Nat
  fault : Option ε
  threads : Nat → Thread σ ε l ω ρ

/-- The steps of a thread. -/
inductive Move where
  /-- Between calls: take the lock, give it up, begin the next call. -/
  | take | drop | start
  /-- In a call: give up the lock at a `yield`, perform the event. -/
  | leave | go
  deriving DecidableEq

namespace Pool

variable (K : Host σ ε l ω ρ) (p q : Pool σ ε l ω ρ) (t : Nat)

/-- Thread `t` changed to `th`. -/
def put (th : Thread σ ε l ω ρ) : Pool σ ε l ω ρ :=
  { p with threads := Function.update p.threads t th }

/-- The end of a block of the call `a` that began in `q`. A step from `p` that fails is not made. -/
def settle (a : ω) : Stop σ ε l ρ → Pool σ ε l ω ρ
  | .ended π r s =>
    let th := q.threads t
    { q.put t { th with call := none, trace := [], done := th.done ++ [⟨a, th.trace ++ π, r⟩] } with
      shared := s }
  | .event π x k s =>
    let th := q.threads t
    { q.put t { th with call := some (a, x, k), trace := th.trace ++ π } with shared := s }
  | .failed e => { p with fault := some e }

/-- What an event does to the lock, if it can happen now. -/
def relock (act : LockAct) : Option (Pool σ ε l ω ρ) :=
  let th := p.threads t
  match act with
  | .keep => some p
  | .release => if p.holder = some t then some { p with holder := none } else none
  | .acquire => if p.holder = none then some { p with holder := some t } else none
  | .ensure =>
    if p.holder = some t then some (p.put t { th with saved := true :: th.saved })
    else if p.holder = none then
      some { p.put t { th with saved := false :: th.saved } with holder := some t }
    else none
  | .restore =>
    match th.saved with
    | true :: saved => some (p.put t { th with saved := saved })
    | false :: saved =>
      if p.holder = some t then some { p.put t { th with saved := saved } with holder := none }
      else none
    | [] => none
  | .yield =>
    if th.out then
      if p.holder = none then some { p.put t { th with out := false } with holder := some t }
      else none
    else if p.holder = some t then some p else none

/-- The event is performed: the lock, and the trace. -/
def perform (x : l) : Option (Pool σ ε l ω ρ) :=
  (p.relock t (K.act x)).map fun q =>
    q.put t { q.threads t with trace := (q.threads t).trace ++ [x] }

/-- One step of thread `t`. -/
def step (m : Move) : Option (Pool σ ε l ω ρ) :=
  let th := p.threads t
  if p.fault.isSome then none
  else
    match m, th.call with
    | .take, none => if p.holder = none then some { p with holder := some t } else none
    | .drop, none => if p.holder = some t then some { p with holder := none } else none
    | .start, none =>
      match th.todo with
      | [] => none
      | a :: todo =>
        if p.holder = some t then
          some (p.settle (p.put t { th with todo := todo }) t a (block K.pauses (K.prog a) p.shared []))
        else none
    | .leave, some (_, x, _) =>
      if K.act x = .yield ∧ th.out = false ∧ p.holder = some t then
        some { p.put t { th with out := true } with holder := none }
      else none
    | .go, some (a, x, k) => (p.perform K t x).map fun q => p.settle q t a (block K.pauses k p.shared [])
    | _, _ => none

/-- No thread is in a call yet. -/
def Fresh : Prop :=
  ∀ t, (p.threads t).call = none ∧ (p.threads t).trace = [] ∧ (p.threads t).done = []

end Pool

/-- From `p₀` the pool goes through the pools of the list, each with the thread that takes the next
step, to the last one. Every step meets the condition `C`. -/
inductive Run (K : Host σ ε l ω ρ) (C : Pool σ ε l ω ρ → Nat → Move → Prop) (p₀ : Pool σ ε l ω ρ) :
    List (Pool σ ε l ω ρ × Nat) → Pool σ ε l ω ρ → Prop where
  | nil : Run K C p₀ [] p₀
  | snoc {h : List (Pool σ ε l ω ρ × Nat)} {p p' : Pool σ ε l ω ρ} {t : Nat} {m : Move} :
      Run K C p₀ h p → C p t m → p.step K t m = some p' → Run K C p₀ (h ++ [(p, t)]) p'

/-- The condition of a run that may take any step. -/
abbrev anyStep : Pool σ ε l ω ρ → Nat → Move → Prop := fun _ _ _ => True

/-- A pool in which every thread is before its first call. -/
def Pool.start (s : σ) (todo : Nat → List ω) : Pool σ ε l ω ρ where
  shared := s
  holder := none
  fault := none
  threads t := ⟨todo t, none, [], [], false, []⟩

theorem Pool.start_fresh (s : σ) (todo : Nat → List ω) :
    (Pool.start s todo : Pool σ ε l ω ρ).Fresh := fun _ => ⟨rfl, rfl, rfl⟩

/-- The run that takes the steps of a schedule. -/
def follow (K : Host σ ε l ω ρ) : List (Nat × Move) → List (Pool σ ε l ω ρ × Nat) × Pool σ ε l ω ρ →
    Option (List (Pool σ ε l ω ρ × Nat) × Pool σ ε l ω ρ)
  | [], x => some x
  | (t, m) :: rest, (h, p) => (p.step K t m).bind fun p' => follow K rest (h ++ [(p, t)], p')

theorem Run.follow {K : Host σ ε l ω ρ} {p₀ : Pool σ ε l ω ρ} {ms : List (Nat × Move)}
    {x y : List (Pool σ ε l ω ρ × Nat) × Pool σ ε l ω ρ} (hrun : Run K anyStep p₀ x.1 x.2)
    (h : Threads.follow K ms x = some y) : Run K anyStep p₀ y.1 y.2 := by
  induction ms generalizing x with
  | nil =>
    cases h
    exact hrun
  | cons tm ms ih =>
    obtain ⟨p', hstep, hrest⟩ := Option.bind_eq_some_iff.mp h
    exact ih (hrun.snoc trivial hstep) hrest

/-- The threads whose steps made `f` greater, in the order of these steps. -/
def increases (f : Pool σ ε l ω ρ → Nat → Nat) :
    List (Pool σ ε l ω ρ × Nat) → Pool σ ε l ω ρ → List Nat
  | [], _ => []
  | (q, t) :: h, p =>
    (if f q t < f ((h.head?.map Prod.fst).getD p) t then [t] else []) ++ increases f h p

theorem increases_snoc (f : Pool σ ε l ω ρ → Nat → Nat) (h : List (Pool σ ε l ω ρ × Nat))
    (p p' : Pool σ ε l ω ρ) (t : Nat) : increases f (h ++ [(p, t)]) p' =
      increases f h p ++ if f p t < f p' t then [t] else [] := by
  induction h with
  | nil =>
    rw [List.nil_append, increases, increases, increases, List.append_nil, List.nil_append]
    rfl
  | cons qu h ih =>
    obtain ⟨q, u⟩ := qu
    have hnext : (((h ++ [(p, t)]).head?.map Prod.fst).getD p') = (h.head?.map Prod.fst).getD p := by
      cases h <;> rfl
    rw [List.cons_append, increases, increases, ih, hnext, List.append_assoc]

/-! ## What a step does -/

namespace Pool

variable {K : Host σ ε l ω ρ} {p p' q : Pool σ ε l ω ρ} {t u : Nat} {m : Move} {x : l} {a : ω}

/-- A step, by its kind. -/
inductive Moves (K : Host σ ε l ω ρ) (p : Pool σ ε l ω ρ) (t : Nat) :
    Move → Pool σ ε l ω ρ → Prop where
  | take : (p.threads t).call = none → p.holder = none →
      Moves K p t .take { p with holder := some t }
  | drop : (p.threads t).call = none → p.holder = some t →
      Moves K p t .drop { p with holder := none }
  | leave {a : ω} {x : l} {k : Prog σ ε l ρ} : (p.threads t).call = some (a, x, k) →
      K.act x = .yield → p.holder = some t →
      Moves K p t .leave { p.put t { p.threads t with out := true } with holder := none }
  | start {a : ω} {todo : List ω} : (p.threads t).call = none → p.holder = some t →
      (p.threads t).todo = a :: todo → Moves K p t .start
        (p.settle (p.put t { p.threads t with todo := todo }) t a
          (block K.pauses (K.prog a) p.shared []))
  | go {a : ω} {x : l} {k : Prog σ ε l ρ} {q : Pool σ ε l ω ρ} :
      (p.threads t).call = some (a, x, k) → p.perform K t x = some q →
      Moves K p t .go (p.settle q t a (block K.pauses k p.shared []))

/-- **Every step is one of the five.** -/
theorem moves_of_step (h : p.step K t m = some p') : p.fault = none ∧ p.Moves K t m p' := by
  unfold step at h
  dsimp only at h
  split at h
  · cases h
  next hf =>
  refine ⟨by simpa using hf, ?_⟩
  split at h
  next hc =>
    obtain ⟨hfree, ⟨⟩⟩ := Option.ite_none_right_eq_some.mp h
    exact .take hc hfree
  next hc =>
    obtain ⟨hheld, ⟨⟩⟩ := Option.ite_none_right_eq_some.mp h
    exact .drop hc hheld
  next hc =>
    split at h
    · cases h
    next htodo =>
    obtain ⟨hheld, ⟨⟩⟩ := Option.ite_none_right_eq_some.mp h
    exact .start hc hheld htodo
  next hc =>
    obtain ⟨⟨hyield, -, hheld⟩, ⟨⟩⟩ := Option.ite_none_right_eq_some.mp h
    exact .leave hc hyield hheld
  next hc =>
    obtain ⟨q, hq, ⟨⟩⟩ := Option.map_eq_some_iff.mp h
    exact .go hc hq
  · cases h

@[simp] theorem put_self (th : Thread σ ε l ω ρ) : (p.put t th).threads t = th := by
  simp [put]

theorem put_of_ne (th : Thread σ ε l ω ρ) (h : u ≠ t) : (p.put t th).threads u = p.threads u := by
  simp [put, h]

@[simp] theorem put_shared (th : Thread σ ε l ω ρ) : (p.put t th).shared = p.shared := rfl

@[simp] theorem put_holder (th : Thread σ ε l ω ρ) : (p.put t th).holder = p.holder := rfl

@[simp] theorem put_fault (th : Thread σ ε l ω ρ) : (p.put t th).fault = p.fault := rfl

section Settle

variable {π : List l} {k : Prog σ ε l ρ} {r : ρ} {s : σ}

theorem settle_event_self : (p.settle q t a (.event π x k s)).threads t =
    { q.threads t with call := some (a, x, k), trace := (q.threads t).trace ++ π } := put_self _

theorem settle_event_of_ne (h : u ≠ t) :
    (p.settle q t a (.event π x k s)).threads u = q.threads u := put_of_ne _ h

theorem settle_ended_self : (p.settle q t a (.ended π r s)).threads t =
    { q.threads t with
      call := none
      trace := []
      done := (q.threads t).done ++ [⟨a, (q.threads t).trace ++ π, r⟩] } := put_self _

theorem settle_ended_of_ne (h : u ≠ t) :
    (p.settle q t a (.ended π r s)).threads u = q.threads u := put_of_ne _ h

end Settle

/-- What an event does to a pool: thread `t` changes hands of the lock, and has `trace` now. -/
structure Relocked (act : LockAct) (p q : Pool σ ε l ω ρ) (t : Nat) (trace : List l) : Prop where
  shared : q.shared = p.shared
  fault : q.fault = p.fault
  others : ∀ u, u ≠ t → q.threads u = p.threads u
  todo : (q.threads t).todo = (p.threads t).todo
  call : (q.threads t).call = (p.threads t).call
  done : (q.threads t).done = (p.threads t).done
  trace : (q.threads t).trace = trace
  keep : act = .keep → q.holder = p.holder
  release : act = .release → p.holder = some t ∧ q.holder = none
  acquire : act = .acquire → p.holder = none ∧ q.holder = some t
  /-- Another thread holds the lock if it held it before. -/
  holds : ∀ u, u ≠ t → (q.holder = some u ↔ p.holder = some u)

theorem relocked_of_relock {act : LockAct} (h : p.relock t act = some q) :
    Relocked act p q t (p.threads t).trace := by
  have hnone : p.holder = none → ∀ u, u ≠ t → ((some t : Option Nat) = some u ↔ p.holder = some u) :=
    fun hf u hu => by simp [hf, Ne.symm hu]
  have hsome : p.holder = some t → ∀ u, u ≠ t → ((none : Option Nat) = some u ↔ p.holder = some u) :=
    fun hf u hu => by simp [hf, Ne.symm hu]
  have hput : ∀ th : Thread σ ε l ω ρ, ∀ u, u ≠ t → (p.put t th).threads u = p.threads u :=
    fun th u hu => put_of_ne th hu
  unfold relock at h
  dsimp only at h
  cases act with
  | keep =>
    cases h
    exact ⟨rfl, rfl, fun _ _ => rfl, rfl, rfl, rfl, rfl, fun _ => rfl, nofun, nofun, fun _ _ => Iff.rfl⟩
  | release =>
    obtain ⟨hheld, ⟨⟩⟩ := Option.ite_none_right_eq_some.mp h
    exact ⟨rfl, rfl, fun _ _ => rfl, rfl, rfl, rfl, rfl, nofun, fun _ => ⟨hheld, rfl⟩, nofun,
      hsome hheld⟩
  | acquire =>
    obtain ⟨hfree, ⟨⟩⟩ := Option.ite_none_right_eq_some.mp h
    exact ⟨rfl, rfl, fun _ _ => rfl, rfl, rfl, rfl, rfl, nofun, nofun, fun _ => ⟨hfree, rfl⟩,
      hnone hfree⟩
  | ensure =>
    dsimp only at h
    split at h
    · cases h
      refine ⟨rfl, rfl, hput _, ?_, ?_, ?_, ?_, nofun, nofun, nofun, fun _ _ => Iff.rfl⟩ <;> simp
    · obtain ⟨hfree, ⟨⟩⟩ := Option.ite_none_right_eq_some.mp h
      refine ⟨rfl, rfl, hput _, ?_, ?_, ?_, ?_, nofun, nofun, nofun, hnone hfree⟩ <;> simp
  | restore =>
    dsimp only at h
    split at h
    · cases h
      refine ⟨rfl, rfl, hput _, ?_, ?_, ?_, ?_, nofun, nofun, nofun, fun _ _ => Iff.rfl⟩ <;> simp
    · obtain ⟨hheld, ⟨⟩⟩ := Option.ite_none_right_eq_some.mp h
      refine ⟨rfl, rfl, hput _, ?_, ?_, ?_, ?_, nofun, nofun, nofun, hsome hheld⟩ <;> simp
    · cases h
  | yield =>
    dsimp only at h
    split at h
    · obtain ⟨hfree, ⟨⟩⟩ := Option.ite_none_right_eq_some.mp h
      refine ⟨rfl, rfl, hput _, ?_, ?_, ?_, ?_, nofun, nofun, nofun, hnone hfree⟩ <;> simp
    · obtain ⟨hheld, ⟨⟩⟩ := Option.ite_none_right_eq_some.mp h
      exact ⟨rfl, rfl, fun _ _ => rfl, rfl, rfl, rfl, rfl, nofun, nofun, nofun, fun _ _ => Iff.rfl⟩

/-- **What performing an event changes.** -/
theorem relocked_of_perform (h : p.perform K t x = some q) :
    Relocked (K.act x) p q t ((p.threads t).trace ++ [x]) := by
  obtain ⟨q', hq', rfl⟩ := Option.map_eq_some_iff.mp h
  obtain ⟨h1, h2, h3, h4, h5, h6, h7, h8, h9, h10, h11⟩ := relocked_of_relock hq'
  refine ⟨h1, h2, fun u hu => ?_, ?_, ?_, ?_, ?_, h8, h9, h10, h11⟩
  · rw [put_of_ne _ hu, h3 u hu]
  · simp [h4]
  · simp [h5]
  · simp [h6]
  · simp [h7]

/-- A thread that is in a call after a step was in it before, or has begun it. -/
theorem call_of_step (h : p.step K t m = some p') {x : l} {k : Prog σ ε l ρ}
    (hc : (p'.threads u).call = some (a, x, k)) :
    (∃ x k, (p.threads u).call = some (a, x, k)) ∨
      m = .start ∧ u = t ∧ (p.threads t).todo.head? = some a := by
  obtain ⟨-, hmove⟩ := moves_of_step h
  -- the call of a thread where a block of the call `b` stops
  have hsettle : ∀ {q : Pool σ ε l ω ρ} {b : ω} {stop : Stop σ ε l ρ},
      (∀ v, v ≠ t → (q.threads v).call = (p.threads v).call) →
      ((p.settle q t b stop).threads u).call = some (a, x, k) →
      (∃ x k, (p.threads u).call = some (a, x, k)) ∨ u = t ∧ a = b := by
    intro q b stop hq hs
    by_cases hut : u = t
    · subst hut
      cases stop with
      | failed e => exact .inl ⟨x, k, hs⟩
      | ended π r s =>
        rw [settle_ended_self] at hs
        cases hs
      | event π y j s =>
        rw [settle_event_self] at hs
        cases hs
        exact .inr ⟨rfl, rfl⟩
    · cases stop with
      | failed e => exact .inl ⟨x, k, hs⟩
      | ended π r s =>
        rw [settle_ended_of_ne hut, hq u hut] at hs
        exact .inl ⟨x, k, hs⟩
      | event π y j s =>
        rw [settle_event_of_ne hut, hq u hut] at hs
        exact .inl ⟨x, k, hs⟩
  cases hmove with
  | take _ _ => exact .inl ⟨x, k, hc⟩
  | drop _ _ => exact .inl ⟨x, k, hc⟩
  | leave hcall _ _ =>
    refine .inl ⟨x, k, ?_⟩
    by_cases hut : u = t
    · subst hut
      have hput : (((p.put u { p.threads u with out := true }).threads u)).call = some (a, x, k) := hc
      rwa [put_self] at hput
    · have hput : (((p.put t { p.threads t with out := true }).threads u)).call = some (a, x, k) := hc
      rwa [put_of_ne _ hut] at hput
  | start hcall _ htodo =>
    rcases hsettle (fun v hv => by rw [put_of_ne _ hv]) hc with hc | ⟨rfl, rfl⟩
    · exact .inl hc
    · exact .inr ⟨rfl, rfl, by rw [htodo]; rfl⟩
  | go hcall hq =>
    have hrel := relocked_of_perform hq
    rcases hsettle (fun v hv => by rw [hrel.others v hv]) hc with hc | ⟨rfl, rfl⟩
    · exact .inl hc
    · exact .inl ⟨_, _, hcall⟩

end Pool

/-! ## A proof rule -/

/-- What the blocks of calls do, in terms of what the thread knows (`κ`). -/
structure Discipline (σ l κ : Type) where
  /-- What it knows is true of the state in which a block begins. -/
  knows : κ → σ → Prop
  /-- A block begins with some knowledge in a state, and stops with other knowledge in another one:
  before an event, or at the end of the call. -/
  does : κ → σ → Option l → κ → σ → Prop
  /-- What it knows after it has performed an event. -/
  perform : l → κ → κ

namespace Discipline

variable (D : Discipline σ l κ) (F : ε → Prop) (pauses : l → Bool)

/-- A judgement by blocks: with its knowledge it carries the state in which the block began. Where
control may pass, the state is any that the thread's knowledge is true of. -/
def rules : Prog.Rules σ ε l (κ × σ) where
  allows := F
  event x s c P :=
    if pauses x then ∃ c', D.does c.1 c.2 (some x) c' s ∧
      ∀ s', D.knows (D.perform x c') s' → P s' (D.perform x c', s')
    else P s c
  mono x _ _ _ _ h := by
    cases pauses x with
    | true => exact fun ⟨c', hb, hP⟩ => ⟨c', hb, fun s' hk => h _ _ (hP s' hk)⟩
    | false => exact h _ _

/-- With the knowledge `c`, all blocks of the program are as they should be; `post` is what is known
at its end. -/
def Obeys (p : Prog σ ε l α) (post : α → κ → Prop) (c : κ) : Prop :=
  ∀ s, D.knows c s → p.wp (D.rules F pauses)
    (fun r s' b => ∃ c', D.does b.1 b.2 none c' s' ∧ post r c') s (c, s)

variable {D F pauses}

theorem event_of_pauses {x : l} {s s₀ : σ} {c c' : κ} {P : σ → κ × σ → Prop}
    (hx : pauses x = true) (h : D.does c s₀ (some x) c' s)
    (hP : ∀ s', D.knows (D.perform x c') s' → P s' (D.perform x c', s')) :
    (D.rules F pauses).event x s (c, s₀) P := by
  simp only [rules, hx, ↓reduceIte]
  exact ⟨c', h, hP⟩

theorem event_of_passes {x : l} (hx : pauses x = false) (s : σ) (c : κ × σ)
    (P : σ → κ × σ → Prop) : (D.rules F pauses).event x s c P ↔ P s c := by
  simp only [rules, hx, Bool.false_eq_true, ↓reduceIte]

/-- **The first block, and what is left.** -/
theorem Obeys.stop {p : Prog σ ε l α} {post : α → κ → Prop} {c : κ}
    (h : D.Obeys F pauses p post c) {s : σ} (hs : D.knows c s) :
    match block pauses p s [] with
    | .ended _ r s' => ∃ c', D.does c s none c' s' ∧ post r c'
    | .event _ x k s' =>
      ∃ c', D.does c s (some x) c' s' ∧ D.Obeys F pauses k post (D.perform x c')
    | .failed e => F e := by
  have hwp : (Threads.block pauses p s []).wp (D.rules F pauses) _ (c, s) :=
    wp_block (fun x s c P hx => (event_of_passes hx s c P).mp) (h s hs)
  have hpaused := block_paused pauses p s
  cases hb : block pauses p s [] with
  | ended π r s' =>
    rw [hb] at hwp
    exact hwp
  | event π x k s' =>
    rw [hb] at hwp hpaused
    simp only [Stop.wp, rules, hpaused.2, ↓reduceIte] at hwp
    obtain ⟨c', hdoes, hk⟩ := hwp
    exact ⟨c', hdoes, fun s₁ hs₁ => hk s₁ hs₁⟩
  | failed e =>
    rw [hb] at hwp
    exact hwp

/-- By the step `m`, thread `t` begins a block of the call `a` with the knowledge `c`; the pool is
`q` then. -/
inductive Enters (D : Discipline σ l κ) (K : Host σ ε l ω ρ) (init : ω → κ) (g : Nat → κ)
    (p : Pool σ ε l ω ρ) (t : Nat) : Move → ω → κ → Pool σ ε l ω ρ → Prop where
  | start {a : ω} {todo : List ω} : (p.threads t).call = none → p.holder = some t →
      (p.threads t).todo = a :: todo →
      Enters D K init g p t .start a (init a) (p.put t { p.threads t with todo := todo })
  | go {a : ω} {x : l} {k : Prog σ ε l ρ} {q : Pool σ ε l ω ρ} :
      (p.threads t).call = some (a, x, k) → p.perform K t x = some q →
      Enters D K init g p t .go a (D.perform x (g t)) q

/-- Until the block itself, only thread `t` and the lock change. -/
theorem Enters.same {D : Discipline σ l κ} {K : Host σ ε l ω ρ} {init : ω → κ} {g : Nat → κ}
    {p q : Pool σ ε l ω ρ} {t : Nat} {m : Move} {a : ω} {c : κ}
    (h : D.Enters K init g p t m a c q) : q.shared = p.shared ∧ q.fault = p.fault ∧
      (∀ u, u ≠ t → q.threads u = p.threads u) ∧ (q.threads t).done = (p.threads t).done := by
  cases h with
  | start hcall hheld htodo =>
    refine ⟨rfl, rfl, fun u hu => Pool.put_of_ne _ hu, ?_⟩
    rw [Pool.put_self]
  | go hcall hperform =>
    have hq := Pool.relocked_of_perform hperform
    exact ⟨hq.shared, hq.fault, hq.others, hq.done⟩

/-- Only the lock changes hands: thread `t` is between calls, or at a `yield`. -/
structure Swaps (K : Host σ ε l ω ρ) (p : Pool σ ε l ω ρ) (t : Nat) (p' : Pool σ ε l ω ρ) :
    Prop where
  shared : p'.shared = p.shared
  fault : p'.fault = p.fault
  todo : ∀ u, (p'.threads u).todo = (p.threads u).todo
  call : ∀ u, (p'.threads u).call = (p.threads u).call
  trace : ∀ u, (p'.threads u).trace = (p.threads u).trace
  done : ∀ u, (p'.threads u).done = (p.threads u).done
  idle : ∀ a x k, (p.threads t).call = some (a, x, k) → K.act x = .yield
  holds : ∀ u, u ≠ t → (p'.holder = some u ↔ p.holder = some u)
  gives : (p.threads t).call ≠ none → p'.holder = none

/-- The invariant `I`, over the history, what the threads know, and the pool, is kept by every step
that meets `C` and whose block the discipline allows. -/
structure Keeps (D : Discipline σ l κ) (F : ε → Prop) (K : Host σ ε l ω ρ)
    (C : Pool σ ε l ω ρ → Nat → Move → Prop) (init : ω → κ) (post : ω → ρ → κ → Prop)
    (I : List (Pool σ ε l ω ρ × Nat) → (Nat → κ) → Pool σ ε l ω ρ → Prop) : Prop where
  swaps : ∀ {h g p t m p'}, I h g p → C p t m → Swaps K p t p' → I (h ++ [(p, t)]) g p'
  knows : ∀ {h g p t m a c q}, I h g p → C p t m → D.Enters K init g p t m a c q →
    D.knows c p.shared
  event : ∀ {h g p t m a c q π x k c' s}, I h g p → C p t m → D.Enters K init g p t m a c q →
    (∀ y ∈ π, K.pauses y = false) → K.pauses x = true → D.does c p.shared (some x) c' s →
    I (h ++ [(p, t)]) (Function.update g t c') (p.settle q t a (.event π x k s))
  ended : ∀ {h g p t m a c q π r c' s}, I h g p → C p t m → D.Enters K init g p t m a c q →
    (∀ y ∈ π, K.pauses y = false) → D.does c p.shared none c' s → post a r c' →
    I (h ++ [(p, t)]) (Function.update g t c') (p.settle q t a (.ended π r s))
  failed : ∀ {h g p t m e}, I h g p → C p t m → F e → I (h ++ [(p, t)]) g { p with fault := some e }

/-- Every call that runs obeys, from what its thread knows. -/
def Rests (D : Discipline σ l κ) (F : ε → Prop) (pauses : l → Bool) (post : ω → ρ → κ → Prop)
    (g : Nat → κ) (p : Pool σ ε l ω ρ) : Prop :=
  ∀ t a x k, (p.threads t).call = some (a, x, k) → D.Obeys F pauses k (post a) (D.perform x (g t))

variable {K : Host σ ε l ω ρ} {C : Pool σ ε l ω ρ → Nat → Move → Prop} {init : ω → κ}
  {post : ω → ρ → κ → Prop} {I : List (Pool σ ε l ω ρ × Nat) → (Nat → κ) → Pool σ ε l ω ρ → Prop}
  {h : List (Pool σ ε l ω ρ × Nat)} {g : Nat → κ} {p p' q : Pool σ ε l ω ρ} {t : Nat} {m : Move}

theorem Rests.of_calls (hr : D.Rests F K.pauses post g p)
    (hcall : ∀ u, (q.threads u).call = (p.threads u).call) : D.Rests F K.pauses post g q :=
  fun u a x k h => hr u a x k (hcall u ▸ h)

/-- A block that begins, and its end. -/
theorem Keeps.enters (hI : D.Keeps F K C init post I) (hr : D.Rests F K.pauses post g p)
    (h₀ : I h g p) (hC : C p t m) {a : ω} {c : κ} {k : Prog σ ε l ρ}
    (he : D.Enters K init g p t m a c q) (hk : D.Obeys F K.pauses k (post a) c)
    (hcall : ∀ u, (q.threads u).call = (p.threads u).call) :
    ∃ g', I (h ++ [(p, t)]) g' (p.settle q t a (Threads.block K.pauses k p.shared [])) ∧
      D.Rests F K.pauses post g' (p.settle q t a (Threads.block K.pauses k p.shared [])) := by
  have hstop := hk.stop (hI.knows h₀ hC he)
  have hpaused := block_paused K.pauses k p.shared
  have hr' := hr.of_calls hcall
  cases hb : Threads.block K.pauses k p.shared [] with
  | ended π r s =>
    rw [hb] at hstop hpaused
    obtain ⟨c', hdoes, hpost⟩ := hstop
    refine ⟨_, hI.ended h₀ hC he hpaused hdoes hpost, fun u b y j hu => ?_⟩
    rcases eq_or_ne u t with rfl | hne
    · simp [Pool.settle] at hu
    · rw [Function.update_of_ne hne]
      exact hr' u b y j (by simpa [Pool.settle, Pool.put_of_ne _ hne] using hu)
  | event π x k' s =>
    rw [hb] at hstop hpaused
    obtain ⟨c', hdoes, hobeys⟩ := hstop
    refine ⟨_, hI.event h₀ hC he hpaused.1 hpaused.2 hdoes, fun u b y j hu => ?_⟩
    rcases eq_or_ne u t with rfl | hne
    · simp only [Pool.settle, Pool.put_self, Option.some.injEq, Prod.mk.injEq] at hu
      obtain ⟨rfl, rfl, rfl⟩ := hu
      rw [Function.update_self]
      exact hobeys
    · rw [Function.update_of_ne hne]
      exact hr' u b y j (by simpa [Pool.settle, Pool.put_of_ne _ hne] using hu)
  | failed e =>
    rw [hb] at hstop
    exact ⟨g, hI.failed h₀ hC hstop, hr⟩

/-- One step. -/
theorem Keeps.step (hI : D.Keeps F K C init post I)
    (hobeys : ∀ a, D.Obeys F K.pauses (K.prog a) (post a) (init a))
    (hr : D.Rests F K.pauses post g p) (h₀ : I h g p) (hC : C p t m) (hstep : p.Moves K t m p') :
    ∃ g', I (h ++ [(p, t)]) g' p' ∧ D.Rests F K.pauses post g' p' := by
  have hput : ∀ (th : Thread σ ε l ω ρ), th.call = (p.threads t).call →
      ∀ u, ((p.put t th).threads u).call = (p.threads u).call := by
    intro th hth u
    rcases eq_or_ne u t with rfl | hne
    · rw [Pool.put_self, hth]
    · rw [Pool.put_of_ne _ hne]
  cases hstep with
  | take hc hfree =>
    refine ⟨g, hI.swaps h₀ hC ⟨rfl, rfl, fun _ => rfl, fun _ => rfl, fun _ => rfl, fun _ => rfl, ?_,
      ?_, fun h => absurd hc h⟩, hr⟩
    · rw [hc]
      nofun
    · intro u hu
      simp [hfree, Ne.symm hu]
  | drop hc hheld =>
    refine ⟨g, hI.swaps h₀ hC ⟨rfl, rfl, fun _ => rfl, fun _ => rfl, fun _ => rfl, fun _ => rfl, ?_,
      ?_, fun h => absurd hc h⟩, hr⟩
    · rw [hc]
      nofun
    · intro u hu
      simp [hheld, Ne.symm hu]
  | leave hc hyield hheld =>
    have hsame : ∀ {β : Type} (f : Thread σ ε l ω ρ → β) (th : Thread σ ε l ω ρ),
        f th = f (p.threads t) → ∀ u, f ((p.put t th).threads u) = f (p.threads u) := by
      intro β f th hth u
      rcases eq_or_ne u t with rfl | hne
      · rw [Pool.put_self, hth]
      · rw [Pool.put_of_ne _ hne]
    refine ⟨g, hI.swaps h₀ hC ⟨rfl, rfl, hsame Thread.todo _ rfl, hsame Thread.call _ rfl,
      hsame Thread.trace _ rfl, hsame Thread.done _ rfl, ?_, ?_, fun _ => rfl⟩, hr.of_calls (hput _ rfl)⟩
    · intro b y j hb
      rw [hc] at hb
      cases hb
      exact hyield
    · intro u hu
      simp [hheld, Ne.symm hu]
  | start hc hheld htodo =>
    exact hI.enters hr h₀ hC (.start hc hheld htodo) (hobeys _) (hput _ rfl)
  | go hc hperform =>
    refine hI.enters hr h₀ hC (.go hc hperform) (hr t _ _ _ hc) fun u => ?_
    have hq := Pool.relocked_of_perform hperform
    rcases eq_or_ne u t with rfl | hne
    · exact hq.call
    · rw [hq.others u hne]

/-- **An invariant that every allowed block keeps holds along every run.** -/
theorem Keeps.run (hI : D.Keeps F K C init post I)
    (hobeys : ∀ a, D.Obeys F K.pauses (K.prog a) (post a) (init a)) {p₀ : Pool σ ε l ω ρ}
    (hfresh : p₀.Fresh) {g₀ : Nat → κ} (h₀ : I [] g₀ p₀) (hrun : Run K C p₀ h p) :
    ∃ g, I h g p := by
  suffices ∃ g, I h g p ∧ D.Rests F K.pauses post g p from this.imp fun _ h => h.1
  induction hrun with
  | nil => exact ⟨g₀, h₀, fun t a x k hc => by rw [(hfresh t).1] at hc; cases hc⟩
  | snoc _ hC hstep ih =>
    obtain ⟨g, hg, hr⟩ := ih
    exact hI.step hobeys hr hg hC (Pool.moves_of_step hstep).2

end Discipline

end Threads
