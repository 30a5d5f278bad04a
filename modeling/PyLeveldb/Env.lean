/-!
# What the binding relies on

The binding is C++ between two parties whose code is not in the repository: leveldb and CPython.
`Env` is what it uses of them, as parameters: the states of an open database, of a snapshot and of
an iterator, what each leveldb call does to them, and what a Python comparator returns. Nothing is
assumed of `Env` here. A result that relies on leveldb's or a comparator's documented behaviour
names it as a hypothesis.

`nextBegin`/`nextEnd` (`prevBegin`/`prevEnd`) are the two halves of `Next` (`Prev`). A move compares
keys, so with a Python comparator the callable runs between the halves. What the iterator looks like
then is up to `nextBegin`.
-/

namespace PyLeveldb

/-- A byte string: the contents of a Python buffer, a `leveldb::Slice` or a `std::string`. -/
abbrev Bytes := List UInt8

/-- `leveldb::Status`. `text` is what `ToString()` gives. -/
inductive Status where
  | ok
  | notFound (text : String)
  | failed (text : String)
  deriving DecidableEq, Repr

namespace Status

def isOk : Status → Bool
  | .ok => true
  | _ => false

def isNotFound : Status → Bool
  | .notFound _ => true
  | _ => false

def toString : Status → String
  | .ok => "OK"
  | .notFound text => text
  | .failed text => text

end Status

/-- `leveldb::WriteOptions`. -/
structure WriteOptions where
  sync : Bool
  deriving DecidableEq

/-- `leveldb::ReadOptions`, with snapshots `S`. -/
structure ReadOptions (S : Type) where
  verifyChecksums : Bool
  fillCache : Bool
  snapshot : Option S
  deriving DecidableEq

/-- A record of a `leveldb::WriteBatch`. -/
inductive BatchOp where
  | put (key value : Bytes)
  | delete (key : Bytes)
  deriving DecidableEq

/-- What a Python callable gives back. -/
inductive PyResult where
  | int (z : Int)
  /-- An object that is not an integer. -/
  | other
  /-- An exception. -/
  | raised
  deriving DecidableEq

/-- A pointer to a `leveldb::Comparator`: the shared bytewise one, or a `PythonComparatorWrapper`. -/
inductive CmpPtr where
  | bytewise
  | python (c : Nat)
  deriving DecidableEq

/-- `leveldb::Options`, the fields that the binding sets. -/
structure Options where
  createIfMissing : Bool
  errorIfExists : Bool
  paranoidChecks : Bool
  writeBufferSize : UInt64
  blockSize : UInt64
  maxOpenFiles : Int32
  blockRestartInterval : Int32
  blockCache : Option Nat
  maxFileSize : UInt64
  comparator : CmpPtr
  deriving DecidableEq

/-- leveldb and the Python callables, as the binding sees them. -/
structure Env where
  /-- The state of an open `leveldb::DB`. -/
  Db : Type
  /-- What a `leveldb::Snapshot` stands for. -/
  Snap : Type
  /-- The state of a `leveldb::Iterator`. -/
  Iter : Type
  put : WriteOptions → Bytes → Bytes → Db → Status × Db
  delete : WriteOptions → Bytes → Db → Status × Db
  write : WriteOptions → List BatchOp → Db → Status × Db
  /-- The status, and the string that `Get` fills. -/
  get : ReadOptions Snap → Bytes → Db → Status × Bytes × Db
  newIterator : ReadOptions Snap → Db → Option Iter × Db
  getSnapshot : Db → Snap × Db
  releaseSnapshot : Snap → Db → Db
  getProperty : String → Db → Option Bytes
  compactRange : Option Bytes → Option Bytes → Db → Db
  seekToFirst : Iter → Iter
  seekToLast : Iter → Iter
  seek : Bytes → Iter → Iter
  nextBegin : Iter → Iter
  nextEnd : Iter → Iter
  prevBegin : Iter → Iter
  prevEnd : Iter → Iter
  valid : Iter → Bool
  key : Iter → Bytes
  value : Iter → Bytes
  status : Iter → Status
  /-- What `leveldb::Options()` sets. -/
  defaultOptions : Options
  /-- `leveldb::BytewiseComparator()->Compare`. -/
  bytewise : Bytes → Bytes → Int
  /-- `call f n a b`: what the callable `f` returns for `a` and `b` when it is the `n`-th call made
  of any callable. It need not be a function of `a` and `b`. -/
  call : Nat → Nat → Bytes → Bytes → PyResult

namespace Env

variable (E : Env)

/-- `Next` with nothing in between. -/
def next (it : E.Iter) : E.Iter := E.nextEnd (E.nextBegin it)

/-- `Prev` with nothing in between. -/
def prev (it : E.Iter) : E.Iter := E.prevEnd (E.prevBegin it)

end Env

end PyLeveldb
