import PyLeveldb.World

/-!
# Comparators

`PythonComparatorWrapper` (constructor, destructor, `GetSign`, `Compare`) and the choice of a
comparator by the `comparator` argument (`pyleveldb_get_comparator`, with `pyleveldb_str_eq`), for
Python 3.
-/

namespace PyLeveldb

variable {E : Env}

namespace PythonComparatorWrapper

/-- `new PythonComparatorWrapper(name, comparator)`: it holds a reference to the callable and one
to the integer zero. -/
def new (name : String) (comparator : Nat) : C E Nat := do
  newRef
  newRef
  let w ← Prog.state
  Prog.put { w with comparators := w.comparators.push ⟨name, comparator⟩ }
  return w.comparators.next

/-- `~PythonComparatorWrapper`, and the memory. -/
def delete (self : Nat) : C E Unit := do
  let _ ← row World.comparators self
  inFrame (.destroyComparator self) do
    dropRef
    dropRef
    Prog.modify fun w => { w with comparators := w.comparators.free self }

/-- `GetSign`: the sign of an integer of any magnitude; none if the object is not an integer. -/
def getSign : PyResult → Option Int
  | .int z => some (if z < 0 then -1 else if 0 < z then 1 else 0)
  | _ => none

/-- `Compare`. Whatever goes wrong ends in `SetError`, which aborts. -/
def compare (self : Nat) (a b : Bytes) : C E Int := do
  Prog.event .gilEnsure
  newRef
  newRef
  let c ← row World.comparators self
  let w ← Prog.state
  Prog.put { w with calls := w.calls + 1 }
  let r := E.call c.comparator w.calls a b
  Prog.event (.call r)
  Prog.when (r ≠ .raised) newRef
  dropRef
  dropRef
  match getSign r with
  | none => .fault .aborted
  | some cmp =>
    Prog.event .gilRelease
    return cmp

end PythonComparatorWrapper

/-- `Comparator::Compare`. -/
def CmpPtr.compare (c : CmpPtr) (a b : Bytes) : C E Int :=
  match c with
  | .bytewise => return E.bytewise a b
  | .python self => PythonComparatorWrapper.compare self a b

/-- `if (c != leveldb::BytewiseComparator()) delete c`. -/
def deleteComparator : Option CmpPtr → C E Unit
  | none => return ()
  | some .bytewise => return ()
  | some (.python self) => PythonComparatorWrapper.delete self

/-! ## The `comparator` argument -/

/-- What is given for `comparator`. -/
inductive ComparatorArg where
  | absent
  /-- A string, as its code points. -/
  | str (p : List Nat)
  /-- A pair of an ASCII name and an object, which may not be callable. -/
  | pair (name : String) (callable : Bool) (obj : Nat)
  /-- Anything else. -/
  | other
  deriving DecidableEq

/-- The code point at `i` of a zero-terminated string. -/
def codeAt (p : List Nat) (i : Nat) : Nat := p.getD i 0

/-- The loop of `pyleveldb_str_eq`: the first index at or after `i` where a string ends or the two
differ. -/
def strEqLoop (s p : List Nat) (i : Nat) : Nat :=
  if codeAt s i ≠ 0 ∧ codeAt p i ≠ 0 ∧ codeAt s i = codeAt p i then strEqLoop s p (i + 1) else i
termination_by s.length - i
decreasing_by
  have : i < s.length := by
    by_contra h
    simp_all [codeAt]
  omega

/-- `pyleveldb_str_eq(p, s)` for a Unicode string `p`. -/
def strEq (p s : List Nat) : Bool :=
  let i := strEqLoop s p 0
  codeAt s i = codeAt p i

/-- The code points of `"bytewise"`. -/
def bytewiseName : List Nat := "bytewise".toList.map Char.toNat

/-- `pyleveldb_get_comparator`; `alloc` is whether `new` succeeds. -/
def getComparator (comparator : ComparatorArg) (alloc : Bool) : C E (Except Exn CmpPtr) := do
  let isBytewise := match comparator with
    | .absent => true
    | .str p => strEq p bytewiseName
    | _ => false
  if isBytewise then return .ok .bytewise
  py
  match comparator with
  | .pair name true obj =>
    if !alloc then raise .memoryError
    else return .ok (.python (← PythonComparatorWrapper.new name obj))
  | _ => raise (.typeError "comparator must be a string, or a 2-tuple (name, func)")

end PyLeveldb
