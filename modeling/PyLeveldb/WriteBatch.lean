import PyLeveldb.LevelDB

/-!
# Write batches

`PyWriteBatch_new`, `PyWriteBatch_init`, `PyWriteBatch_dealloc`, `PyWriteBatch_Put`,
`PyWriteBatch_Delete`, and `PyLevelDB_Write`.
-/

namespace PyLeveldb

variable {E : Env}

namespace PyWriteBatch

/-- `PyWriteBatch_new`. -/
def new (alloc : Bool) : C E (Except Exn Nat) := do
  if !alloc then raise .memoryError
  else
    py
    let w ← Prog.state
    Prog.put { w with batches := w.batches.push ⟨[]⟩ }
    return .ok w.batches.next

/-- `PyWriteBatch_init`. `wellFormed`: there are no arguments. -/
def init (self : Nat) (wellFormed : Bool) : C E (Except Exn Unit) := do
  update self fun _ => ⟨[]⟩
  py
  if !wellFormed then return .error .parse else return .ok ()

/-- `PyWriteBatch_dealloc`. -/
def dealloc (self : Nat) : C E Unit := do
  let _ ← load self
  py
  Prog.modify fun w => { w with batches := w.batches.free self }

/-- `self->ops->push_back(op)`. -/
def pushBack (self : Nat) (op : PyWriteBatchEntry) : C E Unit :=
  update self fun b => ⟨b.ops ++ [op]⟩

/-- `PyWriteBatch_Put`. The buffers are copied without the GIL. -/
def put (self : Nat) (wellFormed : Bool) (key value : Arg) : C E (Except Exn Unit) := do
  if !(← parse wellFormed [key, value]) then return .error .parse
  beginAllowThreads
  let op : PyWriteBatchEntry := ⟨true, key.bytes, value.bytes⟩
  endAllowThreads
  releaseBuffer key
  releaseBuffer value
  pushBack self op
  returnNone

/-- `PyWriteBatch_Delete`. -/
def delete (self : Nat) (wellFormed : Bool) (key : Arg) : C E (Except Exn Unit) := do
  if !(← parse wellFormed [key]) then return .error .parse
  beginAllowThreads
  let op : PyWriteBatchEntry := ⟨false, key.bytes, []⟩
  endAllowThreads
  releaseBuffer key
  pushBack self op
  returnNone

end PyWriteBatch

/-- The record that `PyLevelDB_Write` adds to the `leveldb::WriteBatch` for an entry. -/
def PyWriteBatchEntry.toOp (e : PyWriteBatchEntry) : BatchOp :=
  if e.isPut then .put e.key e.value else .delete e.key

/-- The arguments of `Write`. -/
structure PyLevelDB.WriteArgs where
  wellFormed : Bool := true
  writeBatch : Nat
  sync : Bool := false

/-- `PyLevelDB_Write`: the list is walked with the GIL, the database is written without. -/
def PyLevelDB.write (self : Nat) (args : WriteArgs) : C E (Except Exn Unit) := do
  if !(← parse args.wellFormed []) then return .error .parse
  let batch := (← PyWriteBatch.load args.writeBatch).ops.map PyWriteBatchEntry.toOp
  beginAllowThreads
  let status ← dbWrite (← deref (← load self).db) ⟨args.sync⟩ batch
  endAllowThreads
  if !status.isOk then setError status else returnNone

end PyLeveldb
