import PyLeveldb.Module
import PyLeveldb.Snapshot
import PyLeveldb.WriteBatch
import PyLeveldb.Lib.Calls
import PyLeveldb.Lib.Threads

/-!
# What Python code can do

`ApiOp`: the calls that Python code can make, and the end of an object when its last reference goes.
`ApiOp.prog` is the function of the binding behind each. `apiCalls` makes them a system of calls,
for a given condition on what may be called when. `gilAct` is what the events of a call do to the
GIL, where threads make the calls.
-/

namespace PyLeveldb

open PyLevelDBIter (Item NextAllocs)

/-- What a call gives back. -/
inductive Answer where
  /-- `None`, or nothing. -/
  | none
  /-- A new object. -/
  | object (p : Nat)
  | value (r : PyLevelDB.GetResult)
  | stats (b : Bytes)
  /-- An entry, or the end of the iteration. -/
  | item (i : Option Item)
  | error (e : Exn)
  deriving DecidableEq

/-- The answer of a function that may fail. -/
def Answer.of {α : Type} (f : α → Answer) : Except Exn α → Answer
  | .ok a => f a
  | .error e => .error e

/-- The calls, with the object they are made on and their arguments; last, for an object or a batch
that has to be made, whether it can be. -/
inductive ApiOp (E : Env) where
  | newDb (alloc : Bool)
  | initDb (self : Nat) (args : Option PyLevelDB.InitArgs) (outcome : PyLevelDB.InitOutcome E)
  | put (self : Nat) (args : PyLevelDB.PutArgs)
  | get (self : Nat) (args : PyLevelDB.GetArgs) (alloc : Bool)
  | delete (self : Nat) (args : PyLevelDB.DeleteArgs)
  | write (self : Nat) (args : PyLevelDB.WriteArgs)
  | rangeIter (self : Nat) (args : RangeArgs) (alloc : Bool)
  | getStatus (self : Nat)
  | createSnapshot (self : Nat) (alloc : Bool)
  | compactRange (self : Nat) (args : PyLevelDB.CompactArgs)
  /-- Python code drops its reference to a LevelDB object. -/
  | dropDb (self : Nat)
  | newSnapshot (alloc : Bool)
  | initSnapshot (self : Nat) (args : Option Nat)
  | snapshotGet (self : Nat) (args : PyLevelDB.GetArgs) (alloc : Bool)
  | snapshotRangeIter (self : Nat) (args : RangeArgs) (alloc : Bool)
  | dropSnapshot (self : Nat)
  | next (iter : Nat) (allocs : NextAllocs)
  | dropIter (iter : Nat)
  | newBatch (alloc : Bool)
  | initBatch (self : Nat) (wellFormed : Bool)
  | batchPut (self : Nat) (wellFormed : Bool) (key value : Arg)
  | batchDelete (self : Nat) (wellFormed : Bool) (key : Arg)
  | dropBatch (self : Nat)
  | repairDb (args : RepairArgs) (alloc : Bool) (status : Status)
  | destroyDb (wellFormed : Bool) (status : Status)

variable {E : Env}

/-- The function of the binding that a call runs. -/
def ApiOp.prog : ApiOp E → C E Answer
  | newDb alloc => Answer.of .object <$> PyLevelDB.new alloc
  | initDb self args outcome => Answer.of (fun _ => .none) <$> PyLevelDB.init self args outcome
  | put self args => Answer.of (fun _ => .none) <$> PyLevelDB.put self args
  | get self args alloc => Answer.of .value <$> PyLevelDB.get self args alloc
  | delete self args => Answer.of (fun _ => .none) <$> PyLevelDB.delete self args
  | write self args => Answer.of (fun _ => .none) <$> PyLevelDB.write self args
  | rangeIter self args alloc => Answer.of .object <$> PyLevelDB.rangeIter self args alloc
  | getStatus self => Answer.of .stats <$> PyLevelDB.getStatus self
  | createSnapshot self alloc => Answer.of .object <$> PyLevelDB.createSnapshot self alloc
  | compactRange self args => Answer.of (fun _ => .none) <$> PyLevelDB.compactRange self args
  | dropDb self => (fun _ => .none) <$> PyLevelDB.decref self .env
  | newSnapshot alloc => Answer.of .object <$> PyLevelDBSnapshot.new alloc
  | initSnapshot self args => Answer.of (fun _ => .none) <$> PyLevelDBSnapshot.init self args
  | snapshotGet self args alloc => Answer.of .value <$> PyLevelDBSnapshot.get self args alloc
  | snapshotRangeIter self args alloc =>
    Answer.of .object <$> PyLevelDBSnapshot.rangeIter self args alloc
  | dropSnapshot self => (fun _ => .none) <$> PyLevelDBSnapshot.dealloc self
  | next iter allocs => Answer.of .item <$> PyLevelDBIter.next iter allocs
  | dropIter iter => (fun _ => .none) <$> PyLevelDBIter.dealloc iter
  | newBatch alloc => Answer.of .object <$> PyWriteBatch.new alloc
  | initBatch self wellFormed => Answer.of (fun _ => .none) <$> PyWriteBatch.init self wellFormed
  | batchPut self wellFormed key value =>
    Answer.of (fun _ => .none) <$> PyWriteBatch.put self wellFormed key value
  | batchDelete self wellFormed key =>
    Answer.of (fun _ => .none) <$> PyWriteBatch.delete self wellFormed key
  | dropBatch self => (fun _ => .none) <$> PyWriteBatch.dealloc self
  | repairDb args alloc status => Answer.of (fun _ => .none) <$> PyLeveldb.repairDb args alloc status
  | destroyDb wellFormed status => Answer.of (fun _ => .none) <$> PyLeveldb.destroyDb wellFormed status

/-- The system of the calls that `allowed` lets be made. -/
def apiCalls (allowed : ApiOp E → World E → Prop) : Calls (World E) Fault Ev (ApiOp E) Answer where
  allowed := allowed
  prog := ApiOp.prog

/-- What an event does to the GIL. A Python callable may give it up. -/
def gilAct : Ev → Threads.LockAct
  | .beginAllowThreads => .release
  | .endAllowThreads => .acquire
  | .gilEnsure => .ensure
  | .gilRelease => .restore
  | .call _ | .callInside _ => .yield
  | .py | .ldb _ _ | .enter _ | .leave => .keep

end PyLeveldb
