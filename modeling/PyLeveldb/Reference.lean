import PyLeveldb.Lib.SortedMap
import PyLeveldb.RangeScan
import PyLeveldb.Api

/-!
# The reference model

What the binding is for: a finite map from byte strings to byte strings, with frozen views of it. The
state `Ref` is the map, for each snapshot object the map when the snapshot was made, for each iterator
object the entries that it has yet to deliver, and for each batch its records. `Ref.step` is what a call
answers and does; `Ref.Run` are its runs.

`IsStore` is what leveldb is documented to be: a store that holds such a map and its views, and whose
calls may fail with a status, and then change nothing.
-/

namespace PyLeveldb

open PyLevelDBIter (Item NextAllocs)

variable {E : Env} {cmp : Bytes → Bytes → Int}

/-- A finite map from byte strings to byte strings. -/
abbrev ByteMap (cmp : Bytes → Bytes → Int) := SortedMap cmp Bytes

/-- The map after one record of a batch. -/
def ByteMap.apply (hc : Compares cmp) (m : ByteMap cmp) : BatchOp → ByteMap cmp
  | .put key value => m.insert hc key value
  | .delete key => m.erase key

/-- The map after the records of a batch, in order. -/
def ByteMap.applyAll (hc : Compares cmp) (m : ByteMap cmp) (ops : List BatchOp) : ByteMap cmp :=
  ops.foldl (ByteMap.apply hc) m

/-- The key of a record, and what the record makes of it. -/
def BatchOp.effect : BatchOp → Bytes × Option Bytes
  | .put key value => (key, some value)
  | .delete key => (key, none)

theorem ByteMap.get_apply (hc : Compares cmp) (m : ByteMap cmp) (op : BatchOp) (k : Bytes) :
    (m.apply hc op).get k = if cmp k op.effect.1 = 0 then op.effect.2 else m.get k := by
  cases op with
  | put key value => exact m.get_insert hc key k value
  | delete key => exact m.get_erase hc key k

/-- **The last record about a key wins.** -/
theorem ByteMap.get_applyAll (hc : Compares cmp) (m : ByteMap cmp) (ops : List BatchOp) (k : Bytes) :
    (m.applyAll hc ops).get k =
      match ops.reverse.find? fun op => decide (cmp k op.effect.1 = 0) with
      | some op => op.effect.2
      | none => m.get k := by
  induction ops generalizing m with
  | nil => rfl
  | cons op ops ih =>
    rw [applyAll, List.foldl_cons, ← applyAll, ih, List.reverse_cons, List.find?_append]
    cases hlast : ops.reverse.find? fun op => decide (cmp k op.effect.1 = 0) with
    | some last => rfl
    | none =>
      rw [Option.none_or, get_apply]
      by_cases hk : cmp k op.effect.1 = 0 <;> simp [hk]

/-! ## States and steps -/

/-- A state of the reference model. A snapshot object that was not initialised has no map. -/
structure Ref (cmp : Bytes → Bytes → Int) where
  map : ByteMap cmp
  snaps : Nat → Option (Option (ByteMap cmp))
  iters : Nat → Option (List Item)
  batches : Nat → Option (List BatchOp)

namespace Ref

/-- A call that writes. `fails` is the text of the status with which leveldb fails, if it does. -/
def write (m : Ref cmp) (parses : Bool) (map : ByteMap cmp) (fails : Option String) :
    Answer × Ref cmp :=
  if !parses then (.error .parse, m)
  else match fails with
    | some text => (.error (.levelDBError text), m)
    | none => (.none, { m with map := map })

/-- What `Get` answers, on the map `view`. -/
def read (view : ByteMap cmp) (args : PyLevelDB.GetArgs) (alloc : Bool) (fails : Option String) :
    Answer :=
  if !parses args.wellFormed [args.key] then .error .parse
  else match fails with
    | some text => .error (.levelDBError text)
    | none =>
      match view.get args.key.bytes, args.default with
      | some value, _ => if alloc then .value (.value value) else .error .memoryError
      | none, some obj => .value (.default obj)
      | none, none => .error .keyError

/-- `RangeIter` on the map `view`; a new object is `id`. -/
def scan (m : Ref cmp) (view : ByteMap cmp) (args : RangeArgs) (alloc : Bool) (id : Nat) :
    Answer × Ref cmp :=
  if !args.parses then (.error .parse, m)
  else if !alloc then (.error .memoryError, m)
  else (.object id, { m with
    iters := Function.update m.iters id (some (Scan.expected cmp args view.entries)) })

/-- The allocations that the delivery of an item needs succeed. -/
def affords (allocs : NextAllocs) (item : Item) : Bool :=
  allocs.key && (item.value.isNone || (allocs.value && allocs.tuple))

/-- `next`. -/
def deliver (m : Ref cmp) (i : Nat) (allocs : NextAllocs) : Answer × Ref cmp :=
  match m.iters i with
  | some (item :: l) =>
    if affords allocs item then
      (.item (some item), { m with iters := Function.update m.iters i (some l) })
    else (.error .memoryError, m)
  | _ => (.item none, m)

/-- The records of a batch. -/
def records (m : Ref cmp) (b : Nat) : List BatchOp := (m.batches b).getD []

/-- The map that a snapshot object has. -/
def frozen (m : Ref cmp) (s : Nat) : ByteMap cmp := ((m.snaps s).join).getD .empty

/-- A batch is given one more record. -/
def append (m : Ref cmp) (parses : Bool) (b : Nat) (op : BatchOp) : Answer × Ref cmp :=
  if !parses then (.error .parse, m)
  else (.none, { m with batches := Function.update m.batches b (some (m.records b ++ [op])) })

/-- A new object, if it can be made. -/
def make (m m' : Ref cmp) (alloc : Bool) (id : Nat) : Answer × Ref cmp :=
  if alloc then (.object id, m') else (.error .memoryError, m)

/-- A call: its answer, and the next state. The calls at the end are no part of the runs. -/
def step (hc : Compares cmp) (m : Ref cmp) (fails : Option String) (id : Nat) :
    ApiOp E → Answer × Ref cmp
  | .put _ args =>
    m.write (parses args.wellFormed [args.key, args.value])
      (m.map.insert hc args.key.bytes args.value.bytes) fails
  | .delete _ args =>
    m.write (parses args.wellFormed [args.key]) (m.map.erase args.key.bytes) fails
  | .write _ args =>
    m.write args.wellFormed (ByteMap.applyAll hc m.map (m.records args.writeBatch)) fails
  | .get _ args alloc => (read m.map args alloc fails, m)
  | .compactRange _ args => (if args.parses then .none else .error .parse, m)
  | .rangeIter _ args alloc => m.scan m.map args alloc id
  | .createSnapshot _ alloc =>
    m.make { m with snaps := Function.update m.snaps id (some (some m.map)) } alloc id
  | .newSnapshot alloc => m.make { m with snaps := Function.update m.snaps id (some none) } alloc id
  | .initSnapshot s (some _) => (.none, { m with snaps := Function.update m.snaps s (some (some m.map)) })
  | .initSnapshot s none => (.error .parse, { m with snaps := Function.update m.snaps s (some none) })
  | .snapshotGet s args alloc => (read (m.frozen s) args alloc fails, m)
  | .snapshotRangeIter s args alloc => m.scan (m.frozen s) args alloc id
  | .dropSnapshot s => (.none, { m with snaps := Function.update m.snaps s none })
  | .next i allocs => m.deliver i allocs
  | .dropIter i => (.none, { m with iters := Function.update m.iters i none })
  | .newBatch alloc => m.make { m with batches := Function.update m.batches id (some []) } alloc id
  | .initBatch b wellFormed =>
    (if wellFormed then .none else .error .parse,
      { m with batches := Function.update m.batches b (some []) })
  | .batchPut b wellFormed key value =>
    m.append (parses wellFormed [key, value]) b (.put key.bytes value.bytes)
  | .batchDelete b wellFormed key => m.append (parses wellFormed [key]) b (.delete key.bytes)
  | .dropBatch b => (.none, { m with batches := Function.update m.batches b none })
  | .newDb _ | .initDb _ _ _ | .getStatus _ | .dropDb _ | .repairDb _ _ _ | .destroyDb _ _ => (.none, m)

/-- The identity `id` is not in use for an object of the kind that the call makes. -/
def Fresh (m : Ref cmp) (id : Nat) : ApiOp E → Prop
  | .rangeIter _ _ _ | .snapshotRangeIter _ _ _ => m.iters id = none
  | .createSnapshot _ _ | .newSnapshot _ => m.snaps id = none
  | .newBatch _ => m.batches id = none
  | _ => True

/-- The call answers `a`. leveldb may fail with the texts `Fails`. -/
def Answers (hc : Compares cmp) (Fails : String → Prop) (m : Ref cmp) (op : ApiOp E) (a : Answer)
    (m' : Ref cmp) : Prop :=
  ∃ fails id, (∀ text, fails = some text → Fails text) ∧ m.Fresh id op ∧
    m.step hc fails id op = (a, m')

/-- From `m₀` the calls give their answers and lead to the last state. -/
inductive Run (hc : Compares cmp) (Fails : String → Prop) (m₀ : Ref cmp) :
    List (ApiOp E × Answer) → Ref cmp → Prop where
  | nil : Run hc Fails m₀ [] m₀
  | snoc {h : List (ApiOp E × Answer)} {m m' : Ref cmp} {op : ApiOp E} {a : Answer} :
      Run hc Fails m₀ h m → m.Answers hc Fails op a m' → Run hc Fails m₀ (h ++ [(op, a)]) m'

/-- No snapshot, no iterator, and the given batches. -/
def start (map : ByteMap cmp) (batches : Nat → Option (List BatchOp)) : Ref cmp :=
  ⟨map, fun _ => none, fun _ => none, batches⟩

end Ref

/-! ## leveldb -/

/-- A read of the key `k` of the map `view` gives a status and a value. -/
def ReadsAs (Fails : String → Prop) (view : ByteMap cmp) (k : Bytes) (status : Status) (value : Bytes) :
    Prop :=
  (status = .ok ∧ view.get k = some value) ∨ ((∃ text, status = .notFound text) ∧ view.get k = none) ∨
    ∃ text, status = .failed text ∧ Fails text

/-- What a read with the snapshot `snap` sees, in a database with the map `m` and the snapshots `S`. -/
def Views {Snap : Type} (m : ByteMap cmp) (S : List (Snap × ByteMap cmp)) : Option Snap →
    ByteMap cmp → Prop
  | none, view => view = m
  | some snap, view => (snap, view) ∈ S

/-- leveldb as a store: `Rep db m S` says that the database holds the map `m` and has the snapshots
`S`, each with the map that it stands for. A call may fail with a text of `Fails`, and then it changes
nothing; a new iterator is a cursor over the map that it is given to read. -/
structure IsStore (E : Env) (hc : Compares cmp)
    (Rep : E.Db → ByteMap cmp → List (E.Snap × ByteMap cmp) → Prop)
    (At : ByteMap cmp → E.Iter → Option Nat → Prop) (Fails : String → Prop) : Prop where
  perm : ∀ {db m S S'}, Rep db m S → S.Perm S' → Rep db m S'
  put : ∀ {db m S} o k v, Rep db m S →
    ((E.put o k v db).1 = .ok ∧ Rep (E.put o k v db).2 (m.insert hc k v) S) ∨
      ∃ text, (E.put o k v db).1 = .failed text ∧ Fails text ∧ Rep (E.put o k v db).2 m S
  delete : ∀ {db m S} o k, Rep db m S →
    ((E.delete o k db).1 = .ok ∧ Rep (E.delete o k db).2 (m.erase k) S) ∨
      ∃ text, (E.delete o k db).1 = .failed text ∧ Fails text ∧ Rep (E.delete o k db).2 m S
  write : ∀ {db m S} o ops, Rep db m S →
    ((E.write o ops db).1 = .ok ∧ Rep (E.write o ops db).2 (ByteMap.applyAll hc m ops) S) ∨
      ∃ text, (E.write o ops db).1 = .failed text ∧ Fails text ∧ Rep (E.write o ops db).2 m S
  get : ∀ {db m S} o k view, Rep db m S → Views m S o.snapshot view →
    ReadsAs Fails view k (E.get o k db).1 (E.get o k db).2.1 ∧ Rep (E.get o k db).2.2 m S
  newIterator : ∀ {db m S} o view, Rep db m S → Views m S o.snapshot view →
    (∃ it p, (E.newIterator o db).1 = some it ∧ At view it p) ∧ Rep (E.newIterator o db).2 m S
  cursor : ∀ view : ByteMap cmp, IsCursor E cmp view.entries (At view)
  getSnapshot : ∀ {db m S}, Rep db m S → Rep (E.getSnapshot db).2 m (((E.getSnapshot db).1, m) :: S)
  releaseSnapshot : ∀ {db m S s view}, Rep db m ((s, view) :: S) → Rep (E.releaseSnapshot s db) m S
  compactRange : ∀ {db m S} a b, Rep db m S → Rep (E.compactRange a b db) m S

/-! ### The store in memory -/

theorem memInsert_eq (e : Bytes × Bytes) (l : List (Bytes × Bytes)) :
    memInsert cmp e l = SortedMap.place cmp e l := by
  induction l with
  | nil => rfl
  | cons a l ih => rw [memInsert, SortedMap.place, ih]

theorem memApply_entries (hc : Compares cmp) (m : ByteMap cmp) (ops : List BatchOp) :
    ops.foldl (memApply cmp) m.entries = (ByteMap.applyAll hc m ops).entries := by
  induction ops generalizing m with
  | nil => rfl
  | cons op ops ih =>
    rw [List.foldl_cons, ByteMap.applyAll, List.foldl_cons, ← ByteMap.applyAll, ← ih]
    cases op with
    | put k v => rw [memApply, memInsert_eq]; rfl
    | delete k => rfl

/-- What a read of the store in memory sees. -/
theorem memStore_view {m view : ByteMap cmp} {S : List (List (Bytes × Bytes) × ByteMap cmp)}
    (hS : ∀ x ∈ S, x.1 = x.2.entries) {snap : Option (List (Bytes × Bytes))} (hv : Views m S snap view) :
    snap.getD m.entries = view.entries := by
  cases snap with
  | none => rw [show view = m from hv]; rfl
  | some s => exact hS _ hv

/-- The store in memory is a store. It does not fail. -/
theorem memStore_isStore (hc : Compares cmp) : IsStore (memStore cmp fun _ => false) hc
    (fun db m S => db = m.entries ∧ ∀ x ∈ S, x.1 = x.2.entries)
    (fun view it p => it = ⟨view.entries, p, false⟩ ∧ ∀ i, p = some i → i < view.entries.length)
    fun _ => False where
  perm := fun ⟨h, hS⟩ hp => ⟨h, fun x hx => hS x (hp.mem_iff.mpr hx)⟩
  put _ k v h := .inl ⟨rfl, by rw [h.1]; exact memInsert_eq _ _, h.2⟩
  delete _ k h := .inl ⟨rfl, by rw [h.1]; rfl, h.2⟩
  write _ ops h := .inl ⟨rfl, by rw [h.1]; exact memApply_entries hc _ ops, h.2⟩
  get := by
    rintro _ m S ⟨_, _, snap⟩ k view ⟨rfl, hS⟩ hview
    have hentries := memStore_view hS hview
    have hget : view.get k = (view.entries.find? fun e => decide (cmp k e.1 = 0)).map Prod.snd := rfl
    simp only [memStore]
    rw [hentries]
    cases hfind : view.entries.find? fun e => decide (cmp k e.1 = 0) with
    | none => exact ⟨.inr (.inl ⟨⟨_, rfl⟩, by rw [hget, hfind]; rfl⟩), rfl, hS⟩
    | some e => exact ⟨.inl ⟨rfl, by rw [hget, hfind]; rfl⟩, rfl, hS⟩
  newIterator := by
    rintro _ m S ⟨_, _, snap⟩ view ⟨rfl, hS⟩ hview
    refine ⟨⟨⟨view.entries, none, false⟩, none, ?_, rfl, fun i hi => by cases hi⟩, rfl, hS⟩
    have hentries := memStore_view hS hview
    exact congrArg (fun l => some (MemIter.mk l none false)) hentries
  cursor view := memStore_isCursor view.increasing
  getSnapshot := by
    rintro db m S ⟨rfl, hS⟩
    refine ⟨rfl, fun x hx => ?_⟩
    rcases List.mem_cons.mp hx with rfl | hx
    · rfl
    · exact hS x hx
  releaseSnapshot := fun ⟨h, hS⟩ => ⟨h, fun x hx => hS x (List.mem_cons_of_mem _ hx)⟩
  compactRange _ _ h := h

end PyLeveldb
