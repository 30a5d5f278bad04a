import PyLeveldb.Comparator

/-!
# LevelDB objects

The life of a `PyLevelDB`: `PyLevelDB_new`, `PyLevelDB_init`, the reference count and
`PyLevelDB_dealloc`; and the methods that read and write the database: `Put`, `Get`, `Delete`,
`GetStats`, `CompactRange`. `Write` is in `WriteBatch.lean`, `RangeIter` in `RangeIter.lean`,
`CreateSnapshot` in `Snapshot.lean`.
-/

namespace PyLeveldb

variable {E : Env}

namespace PyLevelDB

/-- The fields after `PyLevelDB_new`. -/
def closed (refs : List Holder) : PyLevelDB where
  db := none
  options := none
  cache := none
  comparator := none
  nSnapshots := 0
  nIterators := 0
  refs := refs

/-- `PyLevelDB_new`: the caller holds the reference. -/
def new (alloc : Bool) : C E (Except Exn Nat) := do
  if !alloc then raise .memoryError
  else
    py
    let w ← Prog.state
    Prog.put { w with levelDBs := w.levelDBs.push (closed [.env]) }
    return .ok w.levelDBs.next

/-- The deletes of an open object's parts, in the order of the source: database, options, cache,
and the comparator if it is not the shared one. Each pointer is read when it is deleted. -/
def deleteParts (self : Nat) : C E Unit := do
  deleteDb (← load self).db
  deleteOptions (← load self).options
  deleteCache (← load self).cache
  deleteComparator (← load self).comparator

/-- The four pointers are null. -/
def clearParts (d : PyLevelDB) : PyLevelDB :=
  { d with db := none, options := none, cache := none, comparator := none }

/-- `PyLevelDB_dealloc`. -/
def dealloc (self : Nat) : C E Unit := inFrame (.dealloc self) do
  beginAllowThreads
  deleteParts self
  endAllowThreads
  update self fun d => { clearParts d with nIterators := 0, nSnapshots := 0 }
  py
  Prog.modify fun w => { w with levelDBs := w.levelDBs.free self }

/-- `Py_INCREF`, for the holder `h`. -/
def incref (self : Nat) (h : Holder) : C E Unit := do
  py
  update self fun d => { d with refs := h :: d.refs }

/-- `Py_DECREF`, of a reference that `h` should hold. The last reference destroys the object. -/
def decref (self : Nat) (h : Holder) : C E Unit := do
  py
  let d ← load self
  if h ∉ d.refs then .fault .refcount
  else
    update self fun d => { d with refs := d.refs.erase h }
    Prog.when (d.refs.erase h).isEmpty (dealloc self)

/-- `Py_XINCREF`. -/
def xincref (self : Option Nat) (h : Holder) : C E Unit :=
  match self with
  | none => pure ()
  | some self => incref self h

/-- `Py_XDECREF`. -/
def xdecref (self : Option Nat) (h : Holder) : C E Unit :=
  match self with
  | none => pure ()
  | some self => decref self h

/-- `if (self) self->n_iterators += k`. -/
def addIterators (self : Option Nat) (k : Int) : C E Unit :=
  match self with
  | none => pure ()
  | some self => update self fun d => { d with nIterators := d.nIterators + k }

/-- `if (self) self->n_snapshots += k`. -/
def addSnapshots (self : Option Nat) (k : Int) : C E Unit :=
  match self with
  | none => pure ()
  | some self => update self fun d => { d with nSnapshots := d.nSnapshots + k }

/-! ## Reading and writing -/

/-- The arguments of `Put`. `wellFormed`: they match the format, but for the buffers. -/
structure PutArgs where
  wellFormed : Bool := true
  key : Arg
  value : Arg
  sync : Bool := false

/-- `PyLevelDB_Put`. -/
def put (self : Nat) (args : PutArgs) : C E (Except Exn Unit) := do
  if !(← parse args.wellFormed [args.key, args.value]) then return .error .parse
  beginAllowThreads
  let status ← dbPut (← deref (← load self).db) ⟨args.sync⟩ args.key.bytes args.value.bytes
  endAllowThreads
  releaseBuffer args.key
  releaseBuffer args.value
  if !status.isOk then setError status else returnNone

/-- The arguments of `Get`. `default` is the object given for it, if any. -/
structure GetArgs where
  wellFormed : Bool := true
  key : Arg
  verifyChecksums : Bool := false
  fillCache : Bool := true
  default : Option Nat := none

/-- What `Get` returns: the value, or the object given as `default`. -/
inductive GetResult where
  | value (b : Bytes)
  | default (obj : Nat)
  deriving DecidableEq

/-- `PyLevelDB_Get_`. The database was read from the object before; `alloc` is whether the result
can be made. -/
def get_ (db : Option Nat) (snapshot : Option Nat) (args : GetArgs) (alloc : Bool) :
    C E (Except Exn GetResult) := do
  if !(← parse args.wellFormed [args.key]) then return .error .parse
  beginAllowThreads
  let (status, value) ←
    dbGet (← deref db) args.verifyChecksums args.fillCache snapshot args.key.bytes
  endAllowThreads
  releaseBuffer args.key
  if status.isNotFound then
    match args.default with
    | some failobj =>
      newRef
      giveRef
      return .ok (.default failobj)
    | none => raise .keyError
  else if !status.isOk then setError status
  else if !alloc then raise .memoryError
  else
    newRef
    giveRef
    return .ok (.value value)

/-- `PyLevelDB_Get`. -/
def get (self : Nat) (args : GetArgs) (alloc : Bool) : C E (Except Exn GetResult) := do
  get_ (← load self).db none args alloc

/-- The arguments of `Delete`. -/
structure DeleteArgs where
  wellFormed : Bool := true
  key : Arg
  sync : Bool := false

/-- `PyLevelDB_Delete`. -/
def delete (self : Nat) (args : DeleteArgs) : C E (Except Exn Unit) := do
  if !(← parse args.wellFormed [args.key]) then return .error .parse
  beginAllowThreads
  let status ← dbDelete (← deref (← load self).db) ⟨args.sync⟩ args.key.bytes
  endAllowThreads
  releaseBuffer args.key
  if !status.isOk then setError status else returnNone

/-- `PyLevelDB_GetStatus`. The call does not give up the GIL. -/
def getStatus (self : Nat) : C E (Except Exn Bytes) := do
  match ← dbGetProperty (← deref (← load self).db) "leveldb.stats" with
  | none => raise (.valueError "unknown property")
  | some value =>
    newRef
    giveRef
    return .ok value

/-- An optional `PARAM_S` argument; none stands for `None` and for an absent argument. It is parsed
by a call of its own. -/
def parseOptional (a : Option Arg) : C E Bool :=
  match a with
  | none => return true
  | some a => parse true [a]

def releaseOptional (a : Option Arg) : C E Unit :=
  match a with
  | none => return ()
  | some a => releaseBuffer a

/-- The arguments of `CompactRange`. -/
structure CompactArgs where
  wellFormed : Bool := true
  start : Option Arg := none
  finish : Option Arg := none

/-- The arguments can be parsed. -/
def CompactArgs.parses (args : CompactArgs) : Bool :=
  args.wellFormed && args.start.all (·.data.isSome) && args.finish.all (·.data.isSome)

/-- `PyLevelDB_CompactRange`. -/
def compactRange (self : Nat) (args : CompactArgs) : C E (Except Exn Unit) := do
  if !(← parse args.wellFormed []) then return .error .parse
  if !(← parseOptional args.start) then return .error .parse
  if !(← parseOptional args.finish) then return .error .parse
  beginAllowThreads
  dbCompactRange (← deref (← load self).db) (args.start.map Arg.bytes) (args.finish.map Arg.bytes)
  endAllowThreads
  releaseOptional args.start
  releaseOptional args.finish
  returnNone

/-! ## Opening -/

/-- The arguments of `LevelDB(...)`, with their defaults. The integers are C `int`s. -/
structure InitArgs where
  filename : String
  createIfMissing : Bool := true
  errorIfExists : Bool := false
  paranoidChecks : Bool := false
  writeBufferSize : Int32 := (4 : Int32) <<< 20
  blockSize : Int32 := 4096
  maxOpenFiles : Int32 := 1000
  blockRestartInterval : Int32 := 16
  blockCacheSize : Int32 := (8 : Int32) * ((2 : Int32) <<< 20)
  maxFileSize : Int32 := (2 : Int32) <<< 20
  comparator : ComparatorArg := .absent

/-- How the steps of `PyLevelDB_init` that can fail go. -/
structure InitOutcome (E : Env) where
  /-- `new PythonComparatorWrapper`, `new leveldb::Options` and `NewLRUCache` do not give null. -/
  comparatorAlloc : Bool := true
  optionsAlloc : Bool := true
  cacheAlloc : Bool := true
  /-- `DB::Open`: the database, or the status. A failing `Open` leaves the pointer null. -/
  opened : Except Status E.Db

/-- The conversion of a C `int` to `size_t`. -/
def toSize (n : Int32) : UInt64 := n.toInt64.toUInt64

/-- `new leveldb::Options()`. -/
def newOptions (alloc : Bool) : C E (Option Nat) := do
  if !alloc then return none
  let w ← Prog.state
  Prog.put { w with options := w.options.push E.defaultOptions }
  return some w.options.next

/-- `leveldb::NewLRUCache`. -/
def newLRUCache (alloc : Bool) (capacity : UInt64) : C E (Option Nat) := do
  if !alloc then return none
  let w ← Prog.state
  Prog.put { w with caches := w.caches.push capacity }
  return some w.caches.next

/-- The options of an object after its parameters are copied to them. -/
def setOptions (args : InitArgs) (cache : Option Nat) (c : CmpPtr) (o : Options) : Options :=
  { o with
    createIfMissing := args.createIfMissing
    errorIfExists := args.errorIfExists
    paranoidChecks := args.paranoidChecks
    writeBufferSize := toSize args.writeBufferSize
    blockSize := toSize args.blockSize
    maxOpenFiles := args.maxOpenFiles
    blockRestartInterval := args.blockRestartInterval
    blockCache := cache
    maxFileSize := toSize args.maxFileSize
    comparator := c }

/-- `DB::Open(*self->_options, dir, &self->_db)`. `Open` clears the pointer first. -/
def dbOpen (self : Nat) (opened : Except Status E.Db) : C E Status := do
  let o ← row World.options (← deref (← load self).options)
  update self fun d => { d with db := none }
  Prog.event (.ldb .open (← Prog.state).dbs.next)
  match opened with
  | .error status => return status
  | .ok db =>
    let w ← Prog.state
    Prog.put { w with dbs := w.dbs.push ⟨db, o.comparator, o.blockCache⟩ }
    update self fun d => { d with db := some w.dbs.next }
    return .ok

/-- The part of `PyLevelDB_init` after the comparator `c` is made. -/
def open_ (self : Nat) (args : InitArgs) (c : CmpPtr) (o : InitOutcome E) :
    C E (Except Exn Unit) := do
  let options ← newOptions o.optionsAlloc
  let cache ← newLRUCache o.cacheAlloc (toSize args.blockCacheSize)
  update self fun d => { d with options := options, cache := cache, comparator := some c }
  if options.isNone || cache.isNone then
    beginAllowThreads
    deleteOptions (← load self).options
    deleteCache (← load self).cache
    deleteComparator (← load self).comparator
    endAllowThreads
    update self fun d => { d with options := none, cache := none, comparator := none }
    raise .memoryError
  else
    let opts ← deref (← load self).options
    let r ← row World.options opts
    Prog.modify fun w => { w with options := w.options.set opts (setOptions args cache c r) }
    beginAllowThreads
    let status ← dbOpen self o.opened
    Prog.when (!status.isOk) do
      deleteParts self
      update self clearParts
    endAllowThreads
    if !status.isOk then setError status else return .ok ()

/-- The cleanup at the start of `PyLevelDB_init`: an object that is open is closed. -/
def close (self : Nat) : C E Unit := do
  let d ← load self
  Prog.when (d.db.isSome || d.cache.isSome || d.comparator.isSome || d.options.isSome) do
    beginAllowThreads
    deleteParts self
    endAllowThreads
    update self clearParts

/-- `PyLevelDB_init`. `args` is none if the arguments do not match the format. -/
def init (self : Nat) (args : Option InitArgs) (o : InitOutcome E) : C E (Except Exn Unit) :=
    inFrame (.init self) do
  close self
  py
  match args with
  | none => return .error .parse
  | some args =>
    if args.writeBufferSize < 0 || args.blockSize < 0 || args.maxOpenFiles < 0 ||
        args.blockRestartInterval < 0 || args.blockCacheSize < 0 then
      raise (.valueError
        "negative write_buffer_size/block_size/max_open_files/block_restart_interval/cache_size")
    else
      match ← getComparator args.comparator o.comparatorAlloc with
      | .error e => return .error e
      | .ok c => open_ self args c o

end PyLevelDB
end PyLeveldb
