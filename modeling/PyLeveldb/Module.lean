import PyLeveldb.LevelDB

/-!
# The functions of the module

`pyleveldb_repair_db` and `pyleveldb_destroy_db`. What they do to the files of a database is no part
of the world: leveldb's answer is an argument.
-/

namespace PyLeveldb

variable {E : Env}

/-- The arguments of `RepairDB`. -/
structure RepairArgs where
  wellFormed : Bool := true
  filename : String
  comparator : ComparatorArg := .absent

/-- `pyleveldb_repair_db`. `alloc` is whether a comparator can be made, `status` what
`leveldb::RepairDB` returns. The comparator is not deleted. -/
def repairDb (args : RepairArgs) (alloc : Bool) (status : Status) : C E (Except Exn Unit) := do
  if !(← parse args.wellFormed []) then return .error .parse
  match ← getComparator args.comparator alloc with
  | .error _ => raise (.levelDBError "error loading comparator")
  | .ok _ =>
    beginAllowThreads
    endAllowThreads
    if !status.isOk then setError status else returnNone

/-- `pyleveldb_destroy_db`. `status` is what `leveldb::DestroyDB` returns. -/
def destroyDb (wellFormed : Bool) (status : Status) : C E (Except Exn Unit) := do
  if !(← parse wellFormed []) then return .error .parse
  beginAllowThreads
  endAllowThreads
  if !status.isOk then setError status else returnNone

end PyLeveldb
