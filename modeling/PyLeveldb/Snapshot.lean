import PyLeveldb.RangeIter

/-!
# Snapshot objects

`PyLevelDBSnapshot_new`, `PyLevelDBSnapshot_init`, `PyLevelDBSnapshot_dealloc`,
`PyLevelDBSnaphot_Get`, and `PyLevelDB_CreateSnapshot` with `PyLevelDBSnapshot_New`.
-/

namespace PyLeveldb

variable {E : Env}

namespace PyLevelDBSnapshot

/-- `PyLevelDBSnapshot_new`. -/
def new (alloc : Bool) : C E (Except Exn Nat) := do
  if !alloc then raise .memoryError
  else
    py
    let w ← Prog.state
    Prog.put { w with snapshots := w.snapshots.push ⟨none, none⟩ }
    return .ok w.snapshots.next

/-- The first part of `PyLevelDBSnapshot_init`: a snapshot object that has a snapshot gives it
back. -/
def close (self : Nat) (s : PyLevelDBSnapshot) : C E Unit :=
  match s.db, s.snapshot with
  | some db, some snapshot => do
    PyLevelDB.addSnapshots db (-1)
    dbReleaseSnapshot (← deref (← PyLevelDB.load db).db) snapshot
    PyLevelDB.decref db (.snap self)
  | _, _ => return ()

/-- `PyLevelDBSnapshot_init`. `args` is the argument `db`; none if it is not a LevelDB object. The
calls into leveldb do not give up the GIL. -/
def init (self : Nat) (args : Option Nat) : C E (Except Exn Unit) := inFrame (.snapInit self) do
  close self (← load self)
  update self fun _ => ⟨none, none⟩
  py
  match args with
  | none => return .error .parse
  | some db =>
    let snapshot ← dbGetSnapshot (← deref (← PyLevelDB.load db).db)
    update self fun _ => ⟨some db, some snapshot⟩
    PyLevelDB.incref db (.snap self)
    PyLevelDB.addSnapshots db 1
    return .ok ()

/-- The first part of `PyLevelDBSnapshot_dealloc`. -/
def releaseHeld (s : PyLevelDBSnapshot) : C E Unit :=
  match s.db, s.snapshot with
  | some db, some snapshot => do
    beginAllowThreads
    dbReleaseSnapshot (← deref (← PyLevelDB.load db).db) snapshot
    endAllowThreads
  | _, _ => return ()

/-- `PyLevelDBSnapshot_dealloc`. `Py_DECREF(self->db)` is not conditional. -/
def dealloc (self : Nat) : C E Unit := inFrame (.snapDealloc self) do
  releaseHeld (← load self)
  PyLevelDB.addSnapshots (← load self).db (-1)
  PyLevelDB.decref (← deref (← load self).db) (.snap self)
  update self fun _ => ⟨none, none⟩
  py
  Prog.modify fun w => { w with snapshots := w.snapshots.free self }

/-- `PyLevelDBSnaphot_Get`. -/
def get (self : Nat) (args : PyLevelDB.GetArgs) (alloc : Bool) :
    C E (Except Exn PyLevelDB.GetResult) := do
  let s ← load self
  let d ← PyLevelDB.load (← deref s.db)
  PyLevelDB.get_ d.db s.snapshot args alloc

end PyLevelDBSnapshot

/-- `PyLevelDBSnapshot_New`; `alloc` is whether the object can be made. -/
def PyLevelDBSnapshot.make (db snapshot : Nat) (alloc : Bool) : C E (Except Exn Nat) := do
  py
  if !alloc then
    dbReleaseSnapshot (← deref (← PyLevelDB.load db).db) snapshot
    return .error .memoryError
  else
    let self := (← Prog.state).snapshots.next
    PyLevelDB.incref db (.snap self)
    Prog.modify fun w => { w with snapshots := w.snapshots.push ⟨some db, some snapshot⟩ }
    PyLevelDB.addSnapshots db 1
    py
    return .ok self

/-- `PyLevelDB_CreateSnapshot`. -/
def PyLevelDB.createSnapshot (self : Nat) (alloc : Bool) : C E (Except Exn Nat) := do
  let snapshot ← dbGetSnapshot (← deref (← load self).db)
  PyLevelDBSnapshot.make self snapshot alloc

end PyLeveldb
