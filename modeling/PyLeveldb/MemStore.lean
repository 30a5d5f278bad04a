import PyLeveldb.World
import PyLeveldb.Lib.Cursor

/-!
# A store in memory

`memStore cmp bad` is an `Env` that computes: a database is a list of entries that increases under
`cmp`, a snapshot a copy of it, an iterator a cursor. Entries whose key is `bad` cannot be read: a
cursor that should stand there is invalid and says so in its status, as after a failed checksum.
Python comparators compute `cmp`.

The assumptions that results make about leveldb are met by it, and what the code does where it fails
is run on it.
-/

namespace PyLeveldb

/-- The order of byte strings, `BytewiseComparator`. -/
def compareBytes : Bytes → Bytes → Int
  | [], [] => 0
  | [], _ :: _ => -1
  | _ :: _, [] => 1
  | a :: as, b :: bs => if a < b then -1 else if b < a then 1 else compareBytes as bs

theorem compareBytes_flip (a b : Bytes) : compareBytes a b = -compareBytes b a := by
  induction a generalizing b with
  | nil => cases b <;> rfl
  | cons x as ih =>
    cases b with
    | nil => rfl
    | cons y bs =>
      simp only [compareBytes]
      by_cases h1 : x < y
      · have h2 : ¬ y < x := UInt8.lt_asymm h1
        simp [h1, h2]
      · by_cases h2 : y < x
        · simp [h1, h2]
        · simp only [h1, h2, ↓reduceIte]
          exact ih bs

theorem compareBytes_eq (a b : Bytes) (h : compareBytes a b = 0) : a = b := by
  induction a generalizing b with
  | nil => cases b <;> simp_all [compareBytes]
  | cons x as ih =>
    cases b with
    | nil => simp [compareBytes] at h
    | cons y bs =>
      simp only [compareBytes] at h
      split at h
      · cases h
      · split at h
        · cases h
        · next h1 h2 =>
          rw [ih bs h, UInt8.le_antisymm (UInt8.not_lt.mp h2) (UInt8.not_lt.mp h1)]

theorem compareBytes_trans (a b c : Bytes) (h1 : compareBytes a b ≤ 0)
    (h2 : compareBytes b c ≤ 0) : compareBytes a c ≤ 0 := by
  induction a generalizing b c with
  | nil => cases c <;> simp [compareBytes]
  | cons x as ih =>
    cases b with
    | nil => simp [compareBytes] at h1
    | cons y bs =>
      cases c with
      | nil => simp [compareBytes] at h2
      | cons z cs =>
        simp only [compareBytes] at h1 h2 ⊢
        by_cases hxz : x < z
        · simp [hxz]
        · by_cases hxy : x < y
          · have hyz : ¬ y < z := fun h => hxz (UInt8.lt_trans hxy h)
            have hzy : z < y := UInt8.lt_of_le_of_lt (UInt8.not_lt.mp hxz) hxy
            simp [hyz, hzy] at h2
          · by_cases hyx : y < x
            · simp [hxy, hyx] at h1
            · obtain rfl : x = y := UInt8.le_antisymm (UInt8.not_lt.mp hyx) (UInt8.not_lt.mp hxy)
              by_cases hzx : z < x
              · simp [hxz, hzx] at h2
              · simp only [hxz, hzx, hxy, ↓reduceIte] at h1 h2 ⊢
                exact ih bs cs h1 h2

theorem compareBytes_compares : Compares.Strict compareBytes where
  flip a b := by
    have := compareBytes_flip a b
    omega
  trans := compareBytes_trans
  eq := compareBytes_eq

/-- An iterator: its entries, where it stands, and whether it ran into a bad entry. -/
structure MemIter where
  entries : List (Bytes × Bytes)
  pos : Option Nat
  failed : Bool
  deriving DecidableEq

section

variable (cmp : Bytes → Bytes → Int) (bad : Bytes → Bool)

/-- The cursor that should stand at `p`. -/
def MemIter.land (it : MemIter) (p : Option Nat) : MemIter :=
  if (p.bind (it.entries[·]?)).any fun e => bad e.1 then ⟨it.entries, none, true⟩
  else ⟨it.entries, p, false⟩

/-- The entries of `l`, and `e` in the place of its key. -/
def memInsert (e : Bytes × Bytes) : List (Bytes × Bytes) → List (Bytes × Bytes)
  | [] => [e]
  | a :: l =>
    if cmp e.1 a.1 < 0 then e :: a :: l
    else if cmp e.1 a.1 = 0 then e :: l
    else a :: memInsert e l

/-- The entries of `l` but the one at `k`. -/
def memDelete (k : Bytes) (l : List (Bytes × Bytes)) : List (Bytes × Bytes) :=
  l.filter fun a => cmp k a.1 ≠ 0

def memApply (l : List (Bytes × Bytes)) : BatchOp → List (Bytes × Bytes)
  | .put k v => memInsert cmp (k, v) l
  | .delete k => memDelete cmp k l

/-- The store. -/
def memStore : Env where
  Db := List (Bytes × Bytes)
  Snap := List (Bytes × Bytes)
  Iter := MemIter
  put _ k v db := (.ok, memInsert cmp (k, v) db)
  delete _ k db := (.ok, memDelete cmp k db)
  write _ ops db := (.ok, ops.foldl (memApply cmp) db)
  get o k db :=
    match (o.snapshot.getD db).find? fun e => cmp k e.1 = 0 with
    | none => (.notFound "NotFound: ", [], db)
    | some e =>
      if bad e.1 then (.failed "Corruption: block checksum mismatch", [], db) else (.ok, e.2, db)
  newIterator o db := (some ⟨o.snapshot.getD db, none, false⟩, db)
  getSnapshot db := (db, db)
  releaseSnapshot _ db := db
  getProperty name _ := if name = "leveldb.stats" then some [] else none
  compactRange _ _ db := db
  seekToFirst it := it.land bad (Cursor.first it.entries)
  seekToLast it := it.land bad (Cursor.last it.entries)
  seek k it := it.land bad (Cursor.seek cmp Prod.fst k it.entries)
  nextBegin := id
  nextEnd it := it.land bad (it.pos.bind (Cursor.next it.entries))
  prevBegin := id
  prevEnd it := it.land bad (it.pos.bind Cursor.prev)
  valid it := it.pos.isSome
  key it := (it.pos.bind (it.entries[·]?)).elim [] Prod.fst
  value it := (it.pos.bind (it.entries[·]?)).elim [] Prod.snd
  status it := if it.failed then .failed "Corruption: block checksum mismatch" else .ok
  defaultOptions := ⟨false, false, false, 4194304, 4096, 1000, 16, none, 2097152, .bytewise⟩
  bytewise := compareBytes
  call _ _ a b := .int (cmp a b)

end

/-- The store with the bytewise order, where every entry can be read. -/
abbrev soundStore : Env := memStore compareBytes fun _ => false

/-- A world with one LevelDB object, `0`, that is open on instance `0` with the database `db` and the
comparator `c`. Python code holds a reference to it. -/
def World.single {E : Env} (db : E.Db) (c : CmpPtr) : World E :=
  { World.empty E with
    levelDBs := Table.empty.push ⟨some 0, some 0, some 0, some c, 0, 0, [.env]⟩
    dbs := Table.empty.push ⟨db, c, some 0⟩
    options := Table.empty.push { E.defaultOptions with blockCache := some 0, comparator := c }
    caches := Table.empty.push 8388608
    comparators := Table.empty.push ⟨"cmp", 0⟩ }

/-- Three entries. -/
def sample : List (Bytes × Bytes) := [([97], [1]), ([98], [2]), ([99], [3])]

end PyLeveldb
