import PyLeveldb.Lib.Table
import PyLeveldb.Lib.Prog
import PyLeveldb.Env

/-!
# The objects of the binding and the language of its functions

`World E`: the Python objects of the binding's types (`leveldb_ext.h`), the leveldb objects they
point to, and the two resources that the binding takes from Python: buffer exports of argument
objects and references to objects of other types. A pointer is an `Option Nat`, `none` is the null
pointer. A freed object has no row.

`C E α`: the language of the binding's functions. `Fault` is what makes a C++ program undefined (a
null or dangling pointer, a second delete), breaks a rule of leveldb's API (a snapshot given to
another database), drops a Python reference that is not held, or aborts the process. To delete a
database that has iterators or snapshots left is no fault of its own: to use them afterwards is.

`Ev` is what an observer of a thread sees: the GIL macros, operations on Python objects, calls of a
Python callable, calls into leveldb, and entry and exit of the functions that the concurrency results
speak about. `Ev.ldb op d` marks that a call is inside instance `d`; a call that reads or changes
the instance does so after the event.
-/

namespace PyLeveldb

/-! ## Python objects (`leveldb_ext.h`) -/

/-- Who holds a reference to a LevelDB object: Python code (`env`), a method call of thread `t`,
an iterator object, a snapshot object. -/
inductive Holder where
  | env
  | call (t : Nat)
  | iter (i : Nat)
  | snap (s : Nat)
  deriving DecidableEq

/-- `PyLevelDB`. The reference count is the number of references held: `obRefcnt`. -/
structure PyLevelDB where
  db : Option Nat
  options : Option Nat
  cache : Option Nat
  comparator : Option CmpPtr
  nSnapshots : Int
  nIterators : Int
  refs : List Holder
  deriving DecidableEq

/-- `ob_refcnt`. -/
def PyLevelDB.obRefcnt (d : PyLevelDB) : Nat := d.refs.length

/-- `PyLevelDBSnapshot`. -/
structure PyLevelDBSnapshot where
  db : Option Nat
  snapshot : Option Nat
  deriving DecidableEq

/-- `PyLevelDBIter`. -/
structure PyLevelDBIter where
  ref : Option Nat
  db : Option Nat
  iterator : Option Nat
  bound : Option Nat
  isReverse : Bool
  includeValue : Bool
  deriving DecidableEq

/-- `PyWriteBatchEntry`. -/
structure PyWriteBatchEntry where
  isPut : Bool
  key : Bytes
  value : Bytes
  deriving DecidableEq

/-- `PyWriteBatch`. -/
structure PyWriteBatch where
  ops : List PyWriteBatchEntry
  deriving DecidableEq

/-! ## leveldb objects -/

/-- A `leveldb::DB`, with what its options gave it. -/
structure LdbInstance (E : Env) where
  db : E.Db
  comparator : CmpPtr
  cache : Option Nat

/-- A `leveldb::Snapshot` of instance `inst`. -/
structure LdbSnapshot (E : Env) where
  inst : Nat
  snap : E.Snap

/-- A `leveldb::Iterator` of instance `inst`. -/
structure LdbIterator (E : Env) where
  inst : Nat
  it : E.Iter

/-- `PythonComparatorWrapper`: its name and its callable. The `last_exception` fields are always
null: the code that would set them is commented out. -/
structure PythonComparatorWrapper where
  name : String
  comparator : Nat
  deriving DecidableEq

/-- Everything the binding's functions read and write. -/
structure World (E : Env) where
  levelDBs : Table PyLevelDB
  snapshots : Table PyLevelDBSnapshot
  iters : Table PyLevelDBIter
  batches : Table PyWriteBatch
  dbs : Table (LdbInstance E)
  ldbSnapshots : Table (LdbSnapshot E)
  ldbIterators : Table (LdbIterator E)
  options : Table Options
  /-- The LRU caches, with their capacity. -/
  caches : Table UInt64
  comparators : Table PythonComparatorWrapper
  /-- The `std::string`s made by `new`. -/
  strings : Table Bytes
  /-- How many buffer exports of an argument object are outstanding. -/
  exports : Nat → Int
  /-- References to objects of other types that the binding owns. -/
  owned : Int
  /-- How many calls of Python callables were made. -/
  calls : Nat

/-- Nothing exists yet. -/
def World.empty (E : Env) : World E where
  levelDBs := .empty
  snapshots := .empty
  iters := .empty
  batches := .empty
  dbs := .empty
  ldbSnapshots := .empty
  ldbIterators := .empty
  options := .empty
  caches := .empty
  comparators := .empty
  strings := .empty
  exports := fun _ => 0
  owned := 0
  calls := 0

/-! ## Faults and events -/

inductive Fault where
  /-- A null pointer is read, written through, or has its reference count changed. -/
  | nullPointer
  /-- A freed object is used, or freed again. -/
  | freed
  /-- A snapshot is given to a database it was not taken of. -/
  | foreign
  /-- A reference is dropped that the holder does not hold. -/
  | refcount
  /-- `abort()`. -/
  | aborted
  deriving DecidableEq

/-- The calls into leveldb, with the iterator that they are made on. -/
inductive LdbOp where
  | open | put | get | delete | write | compactRange | getProperty | getSnapshot | releaseSnapshot
  | newIterator
  | position (n : Nat)
  | move (n : Nat)
  | deleteIterator (n : Nat)
  | deleteDb
  deriving DecidableEq

/-- The functions whose activation the concurrency results speak about, with their object. -/
inductive Frame where
  /-- `PyLevelDB_init`, `PyLevelDB_dealloc`, another method of a LevelDB object. -/
  | init (self : Nat)
  | dealloc (self : Nat)
  | method (self : Nat)
  /-- `PyLevelDBSnapshot_init`, `PyLevelDBSnapshot_dealloc`, another method of a snapshot. -/
  | snapInit (self : Nat)
  | snapDealloc (self : Nat)
  | snapMethod (self : Nat)
  /-- `PyLevelDBIter_next`, `PyLevelDBIter_clean`, `PyLevelDBIter_dealloc`. -/
  | next (iter : Nat)
  | clean (iter : Nat)
  | iterDealloc (iter : Nat)
  /-- `~PythonComparatorWrapper`. -/
  | destroyComparator (c : Nat)
  deriving DecidableEq

inductive Ev where
  | beginAllowThreads
  | endAllowThreads
  | gilEnsure
  | gilRelease
  /-- An operation on a Python object: a reference count, an object made, an argument parsed, an
  exception set. -/
  | py
  /-- The binding calls a Python callable, which gives `r`. -/
  | call (r : PyResult)
  /-- leveldb calls a Python callable, inside instance `inst`. -/
  | callInside (inst : Nat)
  /-- A call into leveldb, on an instance. -/
  | ldb (op : LdbOp) (inst : Nat)
  | enter (f : Frame)
  | leave
  deriving DecidableEq

/-- The language of the binding's functions. -/
abbrev C (E : Env) := Prog (World E) Fault Ev

variable {E : Env}

/-! ## Pointers -/

/-- The object a pointer points to. -/
def deref {α : Type} : Option α → C E α
  | some p => pure p
  | none => .fault .nullPointer

/-- The row of `p` in a table of the world; a fault if the object was freed. -/
def row {α : Type} (T : World E → Table α) (p : Nat) : C E α := do
  let w ← Prog.state
  Prog.ofOption .freed ((T w).get p)

def PyLevelDB.load (self : Nat) : C E PyLevelDB := row World.levelDBs self

/-- `f` applied to the fields of a LevelDB object. -/
def PyLevelDB.update (self : Nat) (f : PyLevelDB → PyLevelDB) : C E Unit := do
  let d ← PyLevelDB.load self
  Prog.modify fun w => { w with levelDBs := w.levelDBs.set self (f d) }

def PyLevelDBSnapshot.load (self : Nat) : C E PyLevelDBSnapshot := row World.snapshots self

def PyLevelDBSnapshot.update (self : Nat) (f : PyLevelDBSnapshot → PyLevelDBSnapshot) :
    C E Unit := do
  let s ← PyLevelDBSnapshot.load self
  Prog.modify fun w => { w with snapshots := w.snapshots.set self (f s) }

def PyLevelDBIter.load (iter : Nat) : C E PyLevelDBIter := row World.iters iter

def PyLevelDBIter.update (iter : Nat) (f : PyLevelDBIter → PyLevelDBIter) : C E Unit := do
  let it ← PyLevelDBIter.load iter
  Prog.modify fun w => { w with iters := w.iters.set iter (f it) }

def PyWriteBatch.load (self : Nat) : C E PyWriteBatch := row World.batches self

def PyWriteBatch.update (self : Nat) (f : PyWriteBatch → PyWriteBatch) : C E Unit := do
  let b ← PyWriteBatch.load self
  Prog.modify fun w => { w with batches := w.batches.set self (f b) }

/-! ## Python -/

/-- `Py_BEGIN_ALLOW_THREADS`. -/
def beginAllowThreads : C E Unit := Prog.event .beginAllowThreads

/-- `Py_END_ALLOW_THREADS`. -/
def endAllowThreads : C E Unit := Prog.event .endAllowThreads

/-- An operation on a Python object with no effect that the binding reads. -/
def py : C E Unit := Prog.event .py

/-- A new reference to an object of another type. -/
def newRef : C E Unit := do
  py
  Prog.modify fun w => { w with owned := w.owned + 1 }

/-- `Py_DECREF` of an owned reference to an object of another type. -/
def dropRef : C E Unit := do
  py
  Prog.modify fun w => { w with owned := w.owned - 1 }

/-- An owned reference is returned to the caller, or stored in an object that is. -/
def giveRef : C E Unit := Prog.modify fun w => { w with owned := w.owned - 1 }

/-- The Python exceptions. -/
inductive Exn where
  /-- Raised by `PyArg_Parse...`. -/
  | parse
  | levelDBError (text : String)
  | keyError
  | valueError (text : String)
  | typeError (text : String)
  | memoryError
  deriving DecidableEq

/-- An exception is set, and the function fails. -/
def raise {α : Type} (e : Exn) : C E (Except Exn α) := do
  py
  return .error e

/-- `PyLevelDB_set_error`, and the function fails. -/
def setError {α : Type} (status : Status) : C E (Except Exn α) :=
  raise (.levelDBError status.toString)

/-- `Py_INCREF(Py_None); return Py_None`. -/
def returnNone : C E (Except Exn Unit) := do
  py
  return .ok ()

/-- An object given for a `PARAM_S` parameter; `data` is none if it does not export a buffer. -/
structure Arg where
  obj : Nat
  data : Option Bytes
  deriving DecidableEq

/-- The bytes of an exported buffer. -/
def Arg.bytes (a : Arg) : Bytes := a.data.getD []

/-- One more buffer export of each object. -/
def acquire (e : Nat → Int) (as : List Arg) : Nat → Int := fun o => e o + as.countP (·.obj = o)

/-- One buffer export less. -/
def release (e : Nat → Int) (a : Arg) : Nat → Int := fun o => e o - if a.obj = o then 1 else 0

/-- `PyArg_Parse...`: it succeeds if the arguments match the format (`wellFormed`) and each `PARAM_S`
argument exports a buffer, which is then acquired. A call that fails releases what it acquired. -/
def parse (wellFormed : Bool) (as : List Arg) : C E Bool := do
  py
  if wellFormed && as.all (·.data.isSome) then
    Prog.modify fun w => { w with exports := acquire w.exports as }
    return true
  else
    return false

/-- `PY_LEVELDB_RELEASE_BUFFER`. -/
def releaseBuffer (a : Arg) : C E Unit := do
  py
  Prog.modify fun w => { w with exports := release w.exports a }

/-- An activation of a function. -/
def inFrame {α : Type} (f : Frame) (body : C E α) : C E α := do
  Prog.event (.enter f)
  let r ← body
  Prog.event .leave
  return r

/-! ## leveldb -/

/-- The instance behind a `leveldb::DB*`. -/
def loadDb (d : Nat) : C E (LdbInstance E) := row World.dbs d

/-- The iterator behind a `leveldb::Iterator*`. -/
def loadIterator (n : Nat) : C E (LdbIterator E) := row World.ldbIterators n

/-- A call on an instance: it enters (`op`), and `f` is what it does to the database. -/
def callDb {α : Type} (op : LdbOp) (d : Nat) (f : E.Db → α × E.Db) : C E α := do
  let _ ← loadDb d
  Prog.event (.ldb op d)
  let r ← loadDb d
  let (a, db) := f r.db
  Prog.modify fun w => { w with dbs := w.dbs.set d { r with db := db } }
  return a

/-- The snapshot of `ReadOptions::snapshot`, on instance `d`. -/
def resolve (d : Nat) : Option Nat → C E (Option E.Snap)
  | none => return none
  | some s => do
    let r ← row World.ldbSnapshots s
    if r.inst = d then return some r.snap else .fault .foreign

/-- `DB::Put`. -/
def dbPut (d : Nat) (o : WriteOptions) (key value : Bytes) : C E Status :=
  callDb .put d (E.put o key value)

/-- `DB::Delete`. -/
def dbDelete (d : Nat) (o : WriteOptions) (key : Bytes) : C E Status :=
  callDb .delete d (E.delete o key)

/-- `DB::Write`. -/
def dbWrite (d : Nat) (o : WriteOptions) (batch : List BatchOp) : C E Status :=
  callDb .write d (E.write o batch)

/-- `DB::Get`: the status and the value. -/
def dbGet (d : Nat) (verifyChecksums fillCache : Bool) (snapshot : Option Nat) (key : Bytes) :
    C E (Status × Bytes) := do
  let snap ← resolve d snapshot
  callDb .get d fun db =>
    let (status, value, db) := E.get ⟨verifyChecksums, fillCache, snap⟩ key db
    ((status, value), db)

/-- `DB::CompactRange`. -/
def dbCompactRange (d : Nat) (start finish : Option Bytes) : C E Unit :=
  callDb .compactRange d fun db => ((), E.compactRange start finish db)

/-- `DB::GetProperty`. -/
def dbGetProperty (d : Nat) (name : String) : C E (Option Bytes) :=
  callDb .getProperty d fun db => (E.getProperty name db, db)

/-- `DB::GetSnapshot`. -/
def dbGetSnapshot (d : Nat) : C E Nat := do
  let snap ← callDb .getSnapshot d E.getSnapshot
  let w ← Prog.state
  Prog.put { w with ldbSnapshots := w.ldbSnapshots.push ⟨d, snap⟩ }
  return w.ldbSnapshots.next

/-- `DB::ReleaseSnapshot`. -/
def dbReleaseSnapshot (d : Nat) (s : Nat) : C E Unit := do
  let r ← row World.ldbSnapshots s
  if r.inst ≠ d then .fault .foreign
  else
    callDb .releaseSnapshot d fun db => ((), E.releaseSnapshot r.snap db)
    Prog.modify fun w => { w with ldbSnapshots := w.ldbSnapshots.free s }

/-- `DB::NewIterator`; null if there is no memory. -/
def dbNewIterator (d : Nat) (verifyChecksums fillCache : Bool) (snapshot : Option Nat) :
    C E (Option Nat) := do
  let snap ← resolve d snapshot
  let it ← callDb .newIterator d (E.newIterator ⟨verifyChecksums, fillCache, snap⟩)
  match it with
  | none => return none
  | some it =>
    let w ← Prog.state
    Prog.put { w with ldbIterators := w.ldbIterators.push ⟨d, it⟩ }
    return some w.ldbIterators.next

/-- `delete db`. -/
def deleteDb : Option Nat → C E Unit
  | none => return ()
  | some d => do
    let _ ← loadDb d
    Prog.modify fun w => { w with dbs := w.dbs.free d }
    Prog.event (.ldb .deleteDb d)

/-- `Iterator::Valid`. -/
def iterValid (n : Nat) : C E Bool := do
  return E.valid (← loadIterator n).it

/-- `Iterator::key`. -/
def iterKey (n : Nat) : C E Bytes := do
  return E.key (← loadIterator n).it

/-- `Iterator::value`. -/
def iterValue (n : Nat) : C E Bytes := do
  return E.value (← loadIterator n).it

/-- The state of an iterator changed by `f`. Its instance must be open. -/
def iterSet (n : Nat) (f : E.Iter → E.Iter) : C E Unit := do
  let r ← loadIterator n
  let _ ← loadDb r.inst
  Prog.modify fun w =>
    { w with ldbIterators := w.ldbIterators.set n { r with it := f r.it } }

/-- `Seek`, `SeekToFirst`, `SeekToLast`, `Prev` on an iterator that no one else sees yet. -/
def iterPosition (n : Nat) (f : E.Iter → E.Iter) : C E Unit := do
  let r ← loadIterator n
  Prog.event (.ldb (.position n) r.inst)
  iterSet n f

/-- leveldb calls the comparator of instance `inst`, a Python callable. -/
def callback (inst : Nat) : C E Unit := do
  Prog.event .gilEnsure
  Prog.event (.callInside inst)
  Prog.event .gilRelease

/-- `Next`, `Prev` on an iterator that other threads may see: its two halves, and the comparisons
in between. -/
def iterMove (n : Nat) (begins ends : E.Iter → E.Iter) : C E Unit := do
  let r ← loadIterator n
  Prog.event (.ldb (.move n) r.inst)
  iterSet n begins
  let d ← loadDb r.inst
  Prog.when (d.comparator ≠ .bytewise) (callback r.inst)
  iterSet n ends

/-- `delete iterator`. Its instance must be open. -/
def deleteIterator : Option Nat → C E Unit
  | none => return ()
  | some n => do
    let r ← loadIterator n
    let _ ← loadDb r.inst
    Prog.modify fun w => { w with ldbIterators := w.ldbIterators.free n }
    Prog.event (.ldb (.deleteIterator n) r.inst)

/-- `delete` of an object without a destructor of interest, in the table `T`. -/
def deleteRow {α : Type} (T : World E → Table α) (put : Table α → World E → World E) :
    Option Nat → C E Unit
  | none => return ()
  | some p => do
    let _ ← row T p
    Prog.modify fun w => put ((T w).free p) w

def deleteOptions : Option Nat → C E Unit :=
  deleteRow World.options fun T w => { w with options := T }

def deleteString : Option Nat → C E Unit :=
  deleteRow World.strings fun T w => { w with strings := T }

/-- `delete cache`. -/
def deleteCache : Option Nat → C E Unit :=
  deleteRow World.caches fun T w => { w with caches := T }

/-- `new std::string(b)`. -/
def newString (b : Bytes) : C E Nat := do
  let w ← Prog.state
  Prog.put { w with strings := w.strings.push b }
  return w.strings.next

def loadString (s : Nat) : C E Bytes := row World.strings s

end PyLeveldb
