import PyLeveldb.Gil
import PyLeveldb.Lib.Watch

/-!
# The GIL and the mutex of a database

Threads make any calls of the binding, and leveldb's background thread works on one instance. It
takes the mutex of the instance, and with the mutex it compares keys: a Python comparator then needs
the GIL. A call into leveldb on the instance (`LdbOp.locks`) waits until the mutex is free.

`GetStats`, `CreateSnapshot` and `Snapshot.__init__` make such calls with the GIL
(`createSnapshot_deadlocks`). All other calls give it up first, and if none of the three overlaps with
a wait of the background thread for the GIL, no thread ever waits for the mutex with the GIL while the
background thread waits for the GIL with the mutex (`no_lock_cycle`).
-/

namespace PyLeveldb

open Threads (Host Pool Hold Watch Watched)

variable {E : Env}

/-- Threads that make calls of the binding. They stop where they give up the GIL or take it, where
Python code runs, and where they need a mutex. -/
def apiHost (E : Env) : Host (World E) Fault Ev (ApiOp E) Answer where
  prog := ApiOp.prog
  act := gilAct
  pauses x := decide (gilAct x ≠ .keep) || x.locks

abbrev ApiPool (E : Env) := Pool (World E) Fault Ev (ApiOp E) Answer

/-- leveldb's background thread, with regard to one instance. -/
inductive Background where
  /-- Without the mutex. -/
  | idle
  /-- With it. -/
  | working
  /-- With it, in `PythonComparatorWrapper::Compare`, waiting for the GIL. -/
  | comparing
  /-- With it and the GIL, in the callable. -/
  | inPython
  deriving DecidableEq

/-- The threads of Python and the background thread of one instance. -/
structure Site (E : Env) where
  pool : ApiPool E
  background : Background

/-- The steps: one of a thread of Python, or one of the background thread. -/
inductive SiteMove where
  | thread (t : Nat) (m : Threads.Move)
  /-- The background thread takes the mutex, and gives it up. -/
  | lock | unlock
  /-- It begins a comparison, gets the GIL, loses it to another thread while the callable runs, and
  ends the comparison. -/
  | compare | ensure | yield | finish
  deriving DecidableEq

namespace Site

variable (b d : Nat) (x : Site E)

/-- Thread `t` needs the mutex of instance `d` for its next event. -/
def awaitsMutex (t : Nat) : Bool :=
  match (x.pool.threads t).call with
  | some (_, .ldb op d', _) => op.locks && decide (d' = d)
  | _ => false

/-- The steps, for the background thread `b` of instance `d`. A thread of Python has the mutex only
within an event. -/
def step : SiteMove → Option (Site E)
  | .thread t m =>
    if t = b ∨ (m = .go ∧ x.awaitsMutex d t = true ∧ x.background ≠ .idle) then none
    else (x.pool.step (apiHost E) t m).map fun p => { x with pool := p }
  | .lock => if x.background = .idle then some { x with background := .working } else none
  | .unlock => if x.background = .working then some { x with background := .idle } else none
  | .compare => if x.background = .working then some { x with background := .comparing } else none
  | .ensure =>
    if x.background = .comparing then
      (x.pool.step (apiHost E) b .take).map fun p => ⟨p, .inPython⟩
    else none
  | .yield =>
    if x.background = .inPython then
      (x.pool.step (apiHost E) b .drop).map fun p => ⟨p, .comparing⟩
    else none
  | .finish =>
    if x.background = .inPython then
      (x.pool.step (apiHost E) b .drop).map fun p => ⟨p, .working⟩
    else none

/-- A thread has the GIL and waits for the mutex, and the background thread has the mutex and waits
for the GIL. -/
def Deadlocked : Prop :=
  x.background = .comparing ∧ ∃ t, x.pool.holder = some t ∧ x.awaitsMutex d t = true

/-- A call that takes the mutex with the GIL is in progress. -/
def Risky : Prop := ∃ t a y k, (x.pool.threads t).call = some (a, y, k) ∧ a.locksHeld = true

/-- The step is none with which a call that takes the mutex with the GIL and a wait of the background
thread for the GIL come to overlap. -/
def Apart : SiteMove → Prop
  | .thread t .start =>
    ∀ a, (x.pool.threads t).todo.head? = some a → a.locksHeld = true → x.background ≠ .comparing
  | .compare | .yield => ¬ x.Risky
  | _ => True

end Site

/-- A run whose steps meet the condition `C`. -/
inductive SiteRun (b d : Nat) (C : Site E → SiteMove → Prop) (x₀ : Site E) : Site E → Prop where
  | nil : SiteRun b d C x₀ x₀
  | snoc {x x' : Site E} {m : SiteMove} : SiteRun b d C x₀ x → C x m → x.step b d m = some x' →
      SiteRun b d C x₀ x'

/-! ## The calls -/

/-- The GIL, as the monitor of a call sees it. -/
def gilHold (r : Gil × Phase) : Hold := ⟨r.1.held, r.1.saved⟩

/-- The monitors of the calls: one of the three may take the mutex with the GIL. -/
def lockMonitor (a : ApiOp E) : Monitor Ev (Gil × Phase) := gilStrict a.locksHeld

/-- **Every call keeps to its monitor.** -/
theorem lock_watch : Watch (apiHost E) lockMonitor gilHold (⟨true, []⟩, .outside) where
  step a x r := by cases x <;> rfl
  passes x hx := by
    simp only [apiHost, Bool.or_eq_false_iff, decide_eq_false_iff_not, not_not] at hx
    exact hx.1
  first := rfl
  prog a := Monitor.along_mono (prog_goes rfl a id) fun _ r hr => by rw [hr]; rfl

variable {b d : Nat} {x x' : Site E} {m : SiteMove}

/-- A thread that needs the mutex with the GIL is in one of the three calls. -/
theorem risky_of_awaits {t : Nat} (hw : Watched lockMonitor gilHold gilAct x.pool t)
    (hgil : x.pool.holder = some t) (ha : x.awaitsMutex d t = true) : x.Risky := by
  unfold Site.awaitsMutex at ha
  split at ha
  next a op d' k hc =>
    unfold Watched at hw
    rw [hc] at hw
    obtain ⟨r, hwithin, -, ⟨-, hlocks⟩, -⟩ := hw
    have hop : op.locks = true := (Bool.and_eq_true _ _ ▸ ha).1
    refine ⟨t, a, _, k, hc, (hlocks hop).resolve_right fun hfree => ?_⟩
    have hheld : r.1.held = true := hwithin.held hgil
    rw [hfree] at hheld
    cases hheld
  next => cases ha

/-- While the background thread waits for the GIL, none of the three calls is in progress. -/
structure Site.Clear (x : Site E) : Prop where
  watched : ∀ t, Watched lockMonitor gilHold gilAct x.pool t
  apart : x.background = .comparing → ¬ x.Risky

/-- A step of the background thread begins no call. -/
theorem risky_of_step {p : ApiPool E} {t : Nat} {m : Threads.Move} {bg bg' : Background}
    (hstep : x.pool.step (apiHost E) t m = some p) (h : Site.Risky ⟨p, bg⟩)
    (hm : ∀ a, m = .start → (x.pool.threads t).todo.head? = some a → a.locksHeld = false) :
    Site.Risky ⟨x.pool, bg'⟩ := by
  obtain ⟨u, a, y, k, hc, ha⟩ := h
  rcases Pool.call_of_step hstep hc with ⟨y, k, hc⟩ | ⟨rfl, rfl, htodo⟩
  · exact ⟨u, a, y, k, hc, ha⟩
  · rw [hm a rfl htodo] at ha
    cases ha

/-- **A step keeps the three calls apart from the waits of the background thread.** -/
theorem clear_step (h : x.Clear) (hC : x.Apart m) (hstep : x.step b d m = some x') : x'.Clear := by
  obtain ⟨p, bg⟩ := x
  cases m with
  | thread t m =>
    obtain ⟨-, hstep⟩ := Option.ite_none_left_eq_some.mp hstep
    obtain ⟨p', hp, rfl⟩ := Option.map_eq_some_iff.mp hstep
    refine ⟨lock_watch.keeps h.watched hp, fun hbg hrisky => h.apart hbg ?_⟩
    refine risky_of_step hp hrisky fun a hm htodo => ?_
    subst hm
    exact Bool.eq_false_iff.mpr fun ha => hC a htodo ha hbg
  | lock =>
    obtain ⟨-, ⟨⟩⟩ := Option.ite_none_right_eq_some.mp hstep
    exact ⟨h.watched, fun hbg => by cases hbg⟩
  | unlock =>
    obtain ⟨-, ⟨⟩⟩ := Option.ite_none_right_eq_some.mp hstep
    exact ⟨h.watched, fun hbg => by cases hbg⟩
  | compare =>
    obtain ⟨-, ⟨⟩⟩ := Option.ite_none_right_eq_some.mp hstep
    exact ⟨h.watched, fun _ => hC⟩
  | ensure =>
    obtain ⟨-, hstep⟩ := Option.ite_none_right_eq_some.mp hstep
    obtain ⟨p', hp, rfl⟩ := Option.map_eq_some_iff.mp hstep
    exact ⟨lock_watch.keeps h.watched hp, fun hbg => by cases hbg⟩
  | yield =>
    obtain ⟨-, hstep⟩ := Option.ite_none_right_eq_some.mp hstep
    obtain ⟨p', hp, rfl⟩ := Option.map_eq_some_iff.mp hstep
    refine ⟨lock_watch.keeps h.watched hp, fun _ hrisky => hC ?_⟩
    exact risky_of_step hp hrisky fun a hm => by cases hm
  | finish =>
    obtain ⟨-, hstep⟩ := Option.ite_none_right_eq_some.mp hstep
    obtain ⟨p', hp, rfl⟩ := Option.map_eq_some_iff.mp hstep
    exact ⟨lock_watch.keeps h.watched hp, fun hbg => by cases hbg⟩

/-! ## Results -/

/-- **No lock-order deadlock.** From any world, with any calls of any number of threads and any work
of the background thread: if no call of `GetStats`, `CreateSnapshot` or `Snapshot.__init__` overlaps
with a wait of the background thread for the GIL, no state of the run is deadlocked. -/
theorem no_lock_cycle (b d : Nat) (w : World E) (todo : Nat → List (ApiOp E)) (x : Site E)
    (hrun : SiteRun b d Site.Apart ⟨.start w todo, .idle⟩ x) : ¬ x.Deadlocked d := by
  have hclear : x.Clear := by
    induction hrun with
    | nil => exact ⟨Watch.start (K := apiHost E) w todo, fun hbg => by cases hbg⟩
    | snoc _ hC hstep ih => exact clear_step ih hC hstep
  rintro ⟨hbg, t, hgil, ha⟩
  exact hclear.apart hbg (risky_of_awaits (hclear.watched t) hgil ha)

/-- A database with a Python comparator, and a thread that makes the calls `ops`. -/
def lockSite (ops : List (ApiOp soundStore)) : Site soundStore :=
  ⟨.start (World.single sample (.python 0)) fun t => if t = 1 then ops else [], .idle⟩

/-- `Put` waits for the mutex while the background thread waits for the GIL. -/
theorem no_lock_cycle_sample : ∃ x : Site soundStore,
    SiteRun 0 0 Site.Apart (lockSite [.put 0 { key := ⟨7, some [98]⟩, value := ⟨8, some []⟩ }]) x ∧
      x.background = .comparing ∧ x.awaitsMutex 0 1 = true ∧ ¬ x.Deadlocked 0 := by
  have h₀ : SiteRun 0 0 Site.Apart
      (lockSite [.put 0 { key := ⟨7, some [98]⟩, value := ⟨8, some []⟩ }]) _ := .nil
  have h₂ := (h₀.snoc (m := .lock) trivial rfl).snoc (m := .compare)
    (fun ⟨_, _, _, _, hc, _⟩ => by cases hc) rfl
  have h₄ := (h₂.snoc (m := .thread 1 .take) trivial rfl).snoc (m := .thread 1 .start)
    (by rintro _ ⟨⟩ h; cases h) rfl
  have h₅ := h₄.snoc (m := .thread 1 .go) trivial rfl
  exact ⟨_, h₅, rfl, rfl, no_lock_cycle 0 0 _ _ _ h₅⟩

/-- **`CreateSnapshot` deadlocks.** It waits for the mutex with the GIL, and the background thread
waits for the GIL with the mutex. -/
theorem createSnapshot_deadlocks : ∃ x : Site soundStore,
    SiteRun 0 0 (fun _ _ => True) (lockSite [.createSnapshot 0 true]) x ∧ x.Deadlocked 0 := by
  have h₀ : SiteRun 0 0 (fun _ _ => True) (lockSite [.createSnapshot 0 true]) _ := .nil
  have h₂ := (h₀.snoc (m := .thread 1 .take) trivial rfl).snoc (m := .thread 1 .start) trivial rfl
  have h₄ := (h₂.snoc (m := .lock) trivial rfl).snoc (m := .compare) trivial rfl
  exact ⟨_, h₄, rfl, 1, rfl, rfl⟩

end PyLeveldb
