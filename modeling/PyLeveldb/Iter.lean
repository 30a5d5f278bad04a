import PyLeveldb.LevelDB

/-!
# Iterator objects

`PyLevelDBIter_New`, `PyLevelDBIter_clean`, `PyLevelDBIter_dealloc` and `PyLevelDBIter_next`.
-/

namespace PyLeveldb

variable {E : Env}

namespace PyLevelDBIter

/-- `PyLevelDBIter_clean`. The last step is the five assignments; between the first one and them the
GIL is given up for the deletes, and again if the reference dropped is the last one. -/
def clean (iter : Nat) : C E Unit := inFrame (.clean iter) do
  PyLevelDB.addIterators (← load iter).db (-1)
  beginAllowThreads
  deleteIterator (← load iter).iterator
  deleteString (← load iter).bound
  endAllowThreads
  PyLevelDB.xdecref (← load iter).ref (.iter iter)
  update iter fun it =>
    { it with ref := none, db := none, iterator := none, bound := none, includeValue := false }

/-- `PyLevelDBIter_dealloc`. -/
def dealloc (iter : Nat) : C E Unit := inFrame (.iterDealloc iter) do
  clean iter
  py
  Prog.modify fun w => { w with iters := w.iters.free iter }

/-- Which of the three allocations of `PyLevelDBIter_next` succeed. -/
structure NextAllocs where
  key : Bool := true
  value : Bool := true
  tuple : Bool := true
  deriving DecidableEq

/-- What `next` returns: a key, or a pair of a key and a value. -/
structure Item where
  key : Bytes
  value : Option Bytes
  deriving DecidableEq

/-- `iter->ref == 0 || !iter->iterator->Valid()`. -/
def atEnd (it : PyLevelDBIter) : C E Bool :=
  match it.ref with
  | none => return true
  | some _ => return !(← iterValid (← deref it.iterator))

/-- The bound test of `PyLevelDBIter_next`: has the iterator run past its bound? The flag is read
after the comparison. -/
def pastBound (iter : Nat) (it : PyLevelDBIter) : C E Bool :=
  match it.bound with
  | none => return false
  | some bound => do
    let a ← loadString bound
    let b ← iterKey (← deref it.iterator)
    let options ← row World.options (← deref (← PyLevelDB.load (← deref it.db)).options)
    let c ← options.comparator.compare a b
    let it ← load iter
    return (!it.isReverse && !decide (0 ≤ c)) || (it.isReverse && !decide (0 ≥ c))

/-- The Python objects that `PyLevelDBIter_next` makes of the current entry. -/
def makeItem (iter : Nat) (allocs : NextAllocs) : C E (Except Exn Item) := do
  let it ← load iter
  let key ← iterKey (← deref it.iterator)
  if !allocs.key then raise .memoryError
  else
    newRef
    if !it.includeValue then
      giveRef
      return .ok ⟨key, none⟩
    else
      let value ← iterValue (← deref it.iterator)
      if !allocs.value then
        dropRef
        raise .memoryError
      else
        newRef
        if !allocs.tuple then
          dropRef
          dropRef
          raise .memoryError
        else
          newRef
          -- the tuple takes over both references, and is returned
          giveRef
          giveRef
          giveRef
          return .ok ⟨key, some value⟩

/-- The step to the next entry of `PyLevelDBIter_next`. -/
def advance (iter : Nat) : C E Unit := do
  let it ← load iter
  let n ← deref it.iterator
  if it.isReverse then iterMove n E.prevBegin E.prevEnd
  else iterMove n E.nextBegin E.nextEnd

/-- `PyLevelDBIter_next`: `.ok none` is the end of the iteration (null without an exception). -/
def next (iter : Nat) (allocs : NextAllocs) : C E (Except Exn (Option Item)) :=
    inFrame (.next iter) do
  let it ← load iter
  if ← atEnd it then
    clean iter
    return .ok none
  else if ← pastBound iter it then
    clean iter
    return .ok none
  else
    match ← makeItem iter allocs with
    | .error e => return .error e
    | .ok item =>
      advance iter
      return .ok (some item)

/-- `PyLevelDBIter_New`; `alloc` is whether the object can be made. -/
def new (ref db iterator bound : Option Nat) (includeValue isReverse alloc : Bool) :
    C E (Except Exn Nat) := do
  py
  if !alloc then
    beginAllowThreads
    deleteIterator iterator
    endAllowThreads
    return .error .memoryError
  else
    let iter := (← Prog.state).iters.next
    PyLevelDB.xincref ref (.iter iter)
    Prog.modify fun w =>
      { w with iters := w.iters.push ⟨ref, db, iterator, bound, isReverse, includeValue⟩ }
    PyLevelDB.addIterators db 1
    py
    return .ok iter

end PyLevelDBIter
end PyLeveldb
