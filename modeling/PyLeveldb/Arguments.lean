import Mathlib.Algebra.Group.Int.Defs
import PyLeveldb.LevelDB

/-!
# The arguments of `LevelDB(...)`

`PyArg_ParseTupleAndKeywords` as `PyLevelDB_init` calls it, with the format `s|O!O!O!iiiiiiO`: the
conversions, the names of the parameters, and the targets in their order.
-/

namespace PyLeveldb

/-- A Python object, as far as the conversions tell objects apart. -/
inductive PyObj where
  /-- A string, as its code points. -/
  | str (p : List Nat)
  | bool (b : Bool)
  | int (z : Int)
  /-- A pair of an ASCII name and an object, which may not be callable. -/
  | pair (name : String) (callable : Bool) (obj : Nat)
  | other
  deriving DecidableEq

namespace PyObj

/-- `s`: a string without a zero. -/
def toName : PyObj → Option String
  | str p => if 0 ∈ p then none else some (String.ofList (p.map Char.ofNat))
  | _ => none

/-- `O!` with `PyBool_Type`. -/
def toBool : PyObj → Option Bool
  | bool b => some b
  | _ => none

/-- The integer that an object is. A `bool` is one. -/
def value : PyObj → Option Int
  | int z => some z
  | bool b => some (if b then 1 else 0)
  | _ => none

/-- The integers that a C `int` can hold. -/
def isCInt (z : Int) : Bool := -2 ^ 31 ≤ z && z < 2 ^ 31

/-- `i`: an integer that a C `int` can hold. -/
def toInt (o : PyObj) : Option Int32 := (o.value.filter isCInt).map Int32.ofInt

/-- `O`, as `pyleveldb_get_comparator` reads it. -/
def toComparator : PyObj → ComparatorArg
  | str p => .str p
  | pair name callable obj => .pair name callable obj
  | _ => .other

end PyObj

namespace PyLevelDB.InitArgs

/-- `kwargs`. -/
def kwargs : List String :=
  ["filename", "create_if_missing", "error_if_exists", "paranoid_checks", "write_buffer_size",
    "block_size", "max_open_files", "block_restart_interval", "block_cache_size", "max_file_size",
    "comparator"]

/-- No argument is left over: there is a parameter for each, and a keyword names one that is not given
by position. -/
def accepted (args : List PyObj) (kwds : List (String × PyObj)) : Bool :=
  args.length ≤ kwargs.length && kwds.all fun k => k.1 ∈ kwargs.drop args.length

/-- The object for the parameter `i`: the one at its position, or the one under its name. -/
def argument (args : List PyObj) (kwds : List (String × PyObj)) (i : Nat) : Option PyObj :=
  args[i]?.or (kwds.lookup (kwargs.getD i ""))

/-- The value of an optional parameter; none if the object cannot be converted. -/
def optional {α : Type} (convert : PyObj → Option α) (default : α) : Option PyObj → Option α
  | none => some default
  | some o => convert o

/-- The parameters from the arguments of a call; none if they do not match. -/
def parse (args : List PyObj) (kwds : List (String × PyObj)) : Option InitArgs :=
  if !accepted args kwds then none
  else do
    let filename ← (argument args kwds 0).bind PyObj.toName
    let d : InitArgs := { filename }
    let createIfMissing ← optional PyObj.toBool d.createIfMissing (argument args kwds 1)
    let errorIfExists ← optional PyObj.toBool d.errorIfExists (argument args kwds 2)
    let paranoidChecks ← optional PyObj.toBool d.paranoidChecks (argument args kwds 3)
    let writeBufferSize ← optional PyObj.toInt d.writeBufferSize (argument args kwds 4)
    let blockSize ← optional PyObj.toInt d.blockSize (argument args kwds 5)
    let maxOpenFiles ← optional PyObj.toInt d.maxOpenFiles (argument args kwds 6)
    let blockRestartInterval ← optional PyObj.toInt d.blockRestartInterval (argument args kwds 7)
    let blockCacheSize ← optional PyObj.toInt d.blockCacheSize (argument args kwds 8)
    let maxFileSize ← optional PyObj.toInt d.maxFileSize (argument args kwds 9)
    let comparator ←
      optional (fun o => some o.toComparator) d.comparator (argument args kwds 10)
    return { filename, createIfMissing, errorIfExists, paranoidChecks, writeBufferSize, blockSize,
             maxOpenFiles, blockRestartInterval, blockCacheSize, maxFileSize, comparator }

end PyLevelDB.InitArgs
end PyLeveldb
