import PyLeveldb.Iter

/-!
# Range scans

`PyLevelDB_RangeIter_`: the arguments, the first position of the leveldb iterator, and the iterator
object. `PyLevelDB_RangeIter` and `PyLevelDBSnapshot_RangeIter` call it with and without a snapshot.
-/

namespace PyLeveldb

variable {E : Env}

/-- The arguments of `RangeIter`; none is `None`, or absent. -/
structure RangeArgs where
  wellFormed : Bool := true
  keyFrom : Option Arg := none
  keyTo : Option Arg := none
  verifyChecksums : Bool := false
  fillCache : Bool := true
  includeValue : Bool := true
  reverse : Bool := false

namespace RangeArgs

/-- The arguments can be parsed. -/
def parses (args : RangeArgs) : Bool :=
  args.wellFormed && args.keyFrom.all (·.data.isSome) && args.keyTo.all (·.data.isSome)

/-- The lower bound. -/
def lo (args : RangeArgs) : Option Bytes := args.keyFrom.map Arg.bytes

/-- The upper bound. -/
def hi (args : RangeArgs) : Option Bytes := args.keyTo.map Arg.bytes

end RangeArgs

namespace PyLevelDB

/-- The first position of the iterator `iter`. Forward: the first entry, or the first one from
`key_from` on. In reverse: the last entry, or the last one up to `key_to`, which is where `Seek`
lands, or one before, or the last entry if `Seek` runs off the end. -/
def position (self : Nat) (iter : Nat) (reverse : Bool) (keyFrom keyTo : Option Bytes) :
    C E Unit := do
  if !reverse then
    match keyFrom with
    | none => iterPosition iter E.seekToFirst
    | some key => iterPosition iter (E.seek key)
  else
    match keyTo with
    | none => iterPosition iter E.seekToLast
    | some key =>
      iterPosition iter (E.seek key)
      if !(← iterValid iter) then
        iterPosition iter E.seekToLast
      else
        let b ← iterKey iter
        let options ← row World.options (← deref (← load self).options)
        let c ← options.comparator.compare key b
        Prog.when (c ≠ 0) (iterPosition iter E.prev)

/-- `position`, if there is an iterator. -/
def positionNew (self : Nat) (iter : Option Nat) (reverse : Bool) (keyFrom keyTo : Option Bytes) :
    C E Unit :=
  match iter with
  | none => pure ()
  | some n => position self n reverse keyFrom keyTo

/-- The bound of the iterator object: the end of the range in the direction of the scan. -/
def scanBound (reverse : Bool) (keyFrom keyTo : Option Bytes) : Option Bytes :=
  if reverse then keyFrom else keyTo

/-- `new std::string(to)`, `new std::string(from)` or no bound. -/
def newBound : Option Bytes → C E (Option Nat)
  | none => return none
  | some b => return some (← newString b)

/-- `PyLevelDB_RangeIter_`; `alloc` is whether the iterator object can be made. -/
def rangeIter_ (self : Option Nat) (snapshot : Option Nat) (args : RangeArgs) (alloc : Bool) :
    C E (Except Exn Nat) := do
  if !(← parse args.wellFormed []) then return .error .parse
  if !(← parseOptional args.keyFrom) then return .error .parse
  if !(← parseOptional args.keyTo) then return .error .parse
  let keyFrom := args.keyFrom.map Arg.bytes
  let keyTo := args.keyTo.map Arg.bytes
  releaseOptional args.keyFrom
  releaseOptional args.keyTo
  beginAllowThreads
  let this ← deref self
  let iter ← dbNewIterator (← deref (← load this).db) args.verifyChecksums args.fillCache snapshot
  positionNew this iter args.reverse keyFrom keyTo
  endAllowThreads
  match iter with
  | none => raise .memoryError
  | some n =>
    if !(← iterValid n) then
      beginAllowThreads
      deleteIterator (some n)
      endAllowThreads
      PyLevelDBIter.new none none none none false false alloc
    else
      let bound ← newBound (scanBound args.reverse keyFrom keyTo)
      PyLevelDBIter.new this this n bound args.includeValue args.reverse alloc

/-- `PyLevelDB_RangeIter`. -/
def rangeIter (self : Nat) (args : RangeArgs) (alloc : Bool) : C E (Except Exn Nat) :=
  rangeIter_ (some self) none args alloc

end PyLevelDB

/-- `PyLevelDBSnapshot_RangeIter`. -/
def PyLevelDBSnapshot.rangeIter (self : Nat) (args : RangeArgs) (alloc : Bool) :
    C E (Except Exn Nat) := do
  let s ← PyLevelDBSnapshot.load self
  PyLevelDB.rangeIter_ s.db s.snapshot args alloc

end PyLeveldb
