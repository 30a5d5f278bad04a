import PyLeveldb.HandleRun

/-!
# The end of an iterator that threads share

Any number of threads call `next` on one iterator object. Control passes where the GIL is given up: in the
comparator, and in `PyLevelDBIter_clean`, which gives it up between the first and the last of its effects.

* `Teardown.Stage`: how far the object is torn down. `World.Torn`: what is left of it then.
* `Teardown.Block`: what the blocks of a call of `next` do to the stage. `next_tears` is the judgement.
* `Alone`: the steps in which no other thread is in the middle of the teardown, and that find the iterator
  where they go on with it.
* `torn_down_once`: where every step is such a step, the object is torn down once.
-/

namespace PyLeveldb

open Threads (Host Pool Run Discipline)
open PyLevelDBIter (Item NextAllocs)

variable {E : Env} {w w' : World E}

/-- The events at which another thread may run, and the delete of a leveldb iterator. -/
def yieldsGil : Ev → Bool
  | .call _ | .callInside _ | .beginAllowThreads | .endAllowThreads | .ldb (.deleteIterator _) _ => true
  | _ => false

/-- Threads that call `next` on iterator `i`, with the GIL. -/
def sharedHost (E : Env) (i : Nat) : Host (World E) Fault Ev NextAllocs (Except Exn (Option Item)) where
  prog := PyLevelDBIter.next i
  act := gilAct
  pauses := yieldsGil

abbrev SharedPool (E : Env) := Pool (World E) Fault Ev NextAllocs (Except Exn (Option Item))

/-! ## The object -/

namespace Teardown

/-- How far an iterator object is torn down: the counter of its LevelDB object is decremented, the leveldb
iterator is deleted, the string is deleted, the reference is dropped and the fields are cleared. -/
inductive Stage where
  | inUse | counted | deleted | unbound | ended
  deriving DecidableEq

namespace Stage

def hasIterator : Stage → Bool
  | inUse | counted => true
  | _ => false

def hasBound : Stage → Bool
  | inUse | counted | deleted => true
  | _ => false

/-- The iterator object, which was `it`. -/
def object (it : PyLevelDBIter) : Stage → PyLevelDBIter
  | ended => ⟨none, none, none, none, it.isReverse, false⟩
  | _ => it

/-- The LevelDB object of the iterator object `i`, which was `r`. -/
def owner (i : Nat) (r : PyLevelDB) : Stage → PyLevelDB
  | inUse => r
  | ended => { r with nIterators := r.nIterators + -1, refs := r.refs.erase (.iter i) }
  | _ => { r with nIterators := r.nIterators + -1 }

end Stage

/-- The iterator object `i` of the LevelDB object `D`, as they are while the iterator object is in use, with
the leveldb iterator `n` of the instance `d`. -/
structure Handle where
  i : Nat
  it : PyLevelDBIter
  D : Nat
  r : PyLevelDB
  n : Nat
  d : Nat
  ref : it.ref = some D
  db : it.db = some D
  iterator : it.iterator = some n
  held : .iter i ∈ r.refs
  /-- Someone else holds a reference to the LevelDB object. -/
  shared : r.refs.erase (.iter i) ≠ []

end Teardown

open Teardown (Stage Handle)

/-- In the stage `T` of the teardown of `H`: what is left of it. -/
structure World.Torn (w : World E) (H : Handle) (T : Stage) : Prop where
  object : w.iters.get H.i = some (T.object H.it)
  owner : w.levelDBs.get H.D = some (T.owner H.i H.r)
  iterator : if T.hasIterator then ∃ x, w.ldbIterators.get H.n = some ⟨H.d, x⟩
    else w.ldbIterators.get H.n = none
  bound : ∀ b, H.it.bound = some b → if T.hasBound then ∃ s, w.strings.get b = some s
    else w.strings.get b = none
  inst : ∃ x, w.dbs.get H.d = some x
  comparator : ∃ o opts, H.r.options = some o ∧ w.options.get o = some opts ∧
    ∀ p, opts.comparator = .python p → ∃ x, w.comparators.get p = some x

namespace World.Torn

variable {H : Handle} {T T' : Stage}

/-- An object is in one stage. -/
theorem inUse_or (h : w.Torn H T) (h' : w.Torn H T') : T = .ended ↔ T' = .ended := by
  have hne : ∀ {T : Stage}, T ≠ .ended → T.object H.it ≠ Stage.ended.object H.it := by
    intro T hT e
    have href : H.it = Stage.ended.object H.it := by cases T <;> first | exact e | exact absurd rfl hT
    have := congrArg PyLevelDBIter.ref href
    rw [H.ref] at this
    cases this
  have heq : T.object H.it = T'.object H.it := Option.some.inj (h.object.symm.trans h'.object)
  constructor
  · rintro rfl
    by_contra hT'
    exact hne hT' heq.symm
  · rintro rfl
    by_contra hT
    exact hne hT heq

/-- The counted resources do not matter. -/
theorem noise (h : w.Torn H T) (o : Int) (c : Nat) : World.Torn { w with owned := o, calls := c } H T :=
  ⟨h.object, h.owner, h.iterator, h.bound, h.inst, h.comparator⟩

end World.Torn

end PyLeveldb
