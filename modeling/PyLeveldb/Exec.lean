import PyLeveldb.Snapshot
import PyLeveldb.WriteBatch

/-!
# How the primitives run

One lemma for each primitive of the binding's language: its weakest precondition, for any rules. They
are a simp set: a proof about a function unfolds it and rewrites with them, so that no later proof
unfolds a primitive.
-/

namespace PyLeveldb

variable {E : Env} {w : World E} {α κ : Type} {c : κ} {J : Prog.Rules (World E) Fault Ev κ}

open Prog (Found)

/-- The judgement where faults are no matter. -/
abbrev anyFault : Prog.Rules (World E) Fault Ev Unit := .alone fun _ => True

@[simp] theorem found_any {e : Fault} {o : Option α} {P : α → Prop} :
    Found (anyFault (E := E)) e o P ↔ ∀ a, o = some a → P a := by
  cases o <;> simp

@[simp] theorem wp_deref {p : Option α} {Q : α → World E → κ → Prop} :
    (deref p).wp J Q w c ↔ Found J .nullPointer p fun a => Q a w c := by
  cases p <;> rfl

theorem wp_deref_some {a : α} {Q : α → World E → κ → Prop} :
    (deref (some a)).wp J Q w c ↔ Q a w c := Iff.rfl

/-- `wp_deref` without a rewrite of the pointer elsewhere. -/
theorem wp_deref_of {p : Option α} {a : α} {Q : α → World E → κ → Prop} (h : p = some a) :
    (deref p).wp J Q w c ↔ Q a w c := by
  rw [wp_deref, h, Prog.found_some]

@[simp] theorem wp_row {T : World E → Table α} {p : Nat} {Q : α → World E → κ → Prop} :
    (row T p).wp J Q w c ↔ Found J .freed ((T w).get p) fun a => Q a w c := by
  simp [row, Prog.wp_bind]

@[simp] theorem wp_load_levelDB {self : Nat} {Q : PyLevelDB → World E → κ → Prop} :
    (PyLevelDB.load self).wp J Q w c ↔ Found J .freed (w.levelDBs.get self) fun d => Q d w c :=
  wp_row

@[simp] theorem wp_load_snapshot {self : Nat} {Q : PyLevelDBSnapshot → World E → κ → Prop} :
    (PyLevelDBSnapshot.load self).wp J Q w c ↔
      Found J .freed (w.snapshots.get self) fun s => Q s w c := wp_row

@[simp] theorem wp_load_iter {iter : Nat} {Q : PyLevelDBIter → World E → κ → Prop} :
    (PyLevelDBIter.load iter).wp J Q w c ↔
      Found J .freed (w.iters.get iter) fun it => Q it w c := wp_row

@[simp] theorem wp_load_batch {self : Nat} {Q : PyWriteBatch → World E → κ → Prop} :
    (PyWriteBatch.load self).wp J Q w c ↔
      Found J .freed (w.batches.get self) fun b => Q b w c := wp_row

@[simp] theorem wp_loadDb {d : Nat} {Q : LdbInstance E → World E → κ → Prop} :
    (loadDb d).wp J Q w c ↔ Found J .freed (w.dbs.get d) fun r => Q r w c := wp_row

@[simp] theorem wp_loadString {s : Nat} {Q : Bytes → World E → κ → Prop} :
    (loadString s).wp J Q w c ↔ Found J .freed (w.strings.get s) fun b => Q b w c := wp_row

@[simp] theorem wp_loadIterator {n : Nat} {Q : LdbIterator E → World E → κ → Prop} :
    (loadIterator n).wp J Q w c ↔ Found J .freed (w.ldbIterators.get n) fun r => Q r w c := wp_row

@[simp] theorem wp_update_levelDB {self : Nat} {f : PyLevelDB → PyLevelDB}
    {Q : Unit → World E → κ → Prop} : (PyLevelDB.update self f).wp J Q w c ↔
      Found J .freed (w.levelDBs.get self) fun d =>
        Q () { w with levelDBs := w.levelDBs.set self (f d) } c := by
  simp [PyLevelDB.update, Prog.wp_bind]

@[simp] theorem wp_update_snapshot {self : Nat} {f : PyLevelDBSnapshot → PyLevelDBSnapshot}
    {Q : Unit → World E → κ → Prop} : (PyLevelDBSnapshot.update self f).wp J Q w c ↔
      Found J .freed (w.snapshots.get self) fun s =>
        Q () { w with snapshots := w.snapshots.set self (f s) } c := by
  simp [PyLevelDBSnapshot.update, Prog.wp_bind]

@[simp] theorem wp_update_iter {iter : Nat} {f : PyLevelDBIter → PyLevelDBIter}
    {Q : Unit → World E → κ → Prop} : (PyLevelDBIter.update iter f).wp J Q w c ↔
      Found J .freed (w.iters.get iter) fun it =>
        Q () { w with iters := w.iters.set iter (f it) } c := by
  simp [PyLevelDBIter.update, Prog.wp_bind]

@[simp] theorem wp_update_batch {self : Nat} {f : PyWriteBatch → PyWriteBatch}
    {Q : Unit → World E → κ → Prop} : (PyWriteBatch.update self f).wp J Q w c ↔
      Found J .freed (w.batches.get self) fun b =>
        Q () { w with batches := w.batches.set self (f b) } c := by
  simp [PyWriteBatch.update, Prog.wp_bind]

/-! ## Python -/

@[simp] theorem wp_begin {Q : Unit → World E → κ → Prop} :
    beginAllowThreads.wp J Q w c ↔ J.event .beginAllowThreads w c (Q ()) := Iff.rfl

@[simp] theorem wp_end {Q : Unit → World E → κ → Prop} :
    endAllowThreads.wp J Q w c ↔ J.event .endAllowThreads w c (Q ()) := Iff.rfl

@[simp] theorem wp_py {Q : Unit → World E → κ → Prop} :
    py.wp J Q w c ↔ J.event .py w c (Q ()) := Iff.rfl

@[simp] theorem wp_newRef {Q : Unit → World E → κ → Prop} :
    newRef.wp J Q w c ↔ J.event .py w c fun w c => Q () { w with owned := w.owned + 1 } c := Iff.rfl

@[simp] theorem wp_dropRef {Q : Unit → World E → κ → Prop} :
    dropRef.wp J Q w c ↔ J.event .py w c fun w c => Q () { w with owned := w.owned - 1 } c := Iff.rfl

@[simp] theorem wp_giveRef {Q : Unit → World E → κ → Prop} :
    giveRef.wp J Q w c ↔ Q () { w with owned := w.owned - 1 } c := Iff.rfl

@[simp] theorem wp_raise {e : Exn} {Q : Except Exn α → World E → κ → Prop} :
    (raise e).wp J Q w c ↔ J.event .py w c (Q (.error e)) := Iff.rfl

@[simp] theorem wp_setError {s : Status} {Q : Except Exn α → World E → κ → Prop} :
    (setError s).wp J Q w c ↔ J.event .py w c (Q (.error (.levelDBError s.toString))) := Iff.rfl

@[simp] theorem wp_returnNone {Q : Except Exn Unit → World E → κ → Prop} :
    returnNone.wp J Q w c ↔ J.event .py w c (Q (.ok ())) := Iff.rfl

@[simp] theorem wp_inFrame {f : Frame} {p : C E α} {Q : α → World E → κ → Prop} :
    (inFrame f p).wp J Q w c ↔ J.event (.enter f) w c
      (p.wp J fun a w c => J.event .leave w c (Q a)) := by
  simp only [inFrame, Prog.wp_bind, Prog.wp_event, Prog.wp_pure]

/-- The arguments of a call can be parsed. -/
def parses (wellFormed : Bool) (as : List Arg) : Bool := wellFormed && as.all (·.data.isSome)

@[simp] theorem wp_parse {wf : Bool} {as : List Arg} {Q : Bool → World E → κ → Prop} :
    (parse wf as).wp J Q w c ↔ J.event .py w c fun w c =>
      if parses wf as then Q true { w with exports := acquire w.exports as } c else Q false w c := by
  simp only [parse, Prog.wp_bind, wp_py]
  refine Iff.of_eq (congrArg _ ?_)
  funext w c
  unfold parses
  split <;> rfl

@[simp] theorem wp_releaseBuffer {a : Arg} {Q : Unit → World E → κ → Prop} :
    (releaseBuffer a).wp J Q w c ↔ J.event .py w c fun w c =>
      Q () { w with exports := release w.exports a } c := Iff.rfl

/-- An optional argument that exports a buffer. -/
theorem wp_parseOptional {F : Fault → Prop} {a : Option Arg} {Q : Bool → World E → Unit → Prop}
    (h : a.all (·.data.isSome) = true) (hQ : ∀ e, Q true { w with exports := e } ()) :
    (PyLevelDB.parseOptional a).wp (.alone F) Q w () := by
  cases a with
  | none => exact hQ w.exports
  | some a =>
    have ha : PyLeveldb.parses true [a] = true := by simpa [PyLeveldb.parses] using h
    simpa [PyLevelDB.parseOptional, ha] using hQ _

theorem wp_releaseOptional {F : Fault → Prop} {a : Option Arg} {Q : Unit → World E → Unit → Prop}
    (hQ : ∀ e, Q () { w with exports := e } ()) :
    (PyLevelDB.releaseOptional a).wp (.alone F) Q w () := by
  cases a with
  | none => exact hQ w.exports
  | some a => exact hQ _

/-! ## leveldb -/

@[simp] theorem wp_callDb {op : LdbOp} {d : Nat} {f : E.Db → α × E.Db}
    {Q : α → World E → κ → Prop} : (callDb op d f).wp J Q w c ↔
      Found J .freed (w.dbs.get d) fun _ => J.event (.ldb op d) w c fun w c =>
        Found J .freed (w.dbs.get d) fun r =>
          Q (f r.db).1 { w with dbs := w.dbs.set d { r with db := (f r.db).2 } } c := by
  simp only [callDb, Prog.wp_bind, wp_loadDb, Prog.wp_event, Prog.wp_modify, Prog.wp_pure]

@[simp] theorem wp_resolve_none {d : Nat} {Q : Option E.Snap → World E → κ → Prop} :
    (resolve d none).wp J Q w c ↔ Q none w c := Iff.rfl

@[simp] theorem wp_resolve_some {d s : Nat} {Q : Option E.Snap → World E → κ → Prop} :
    (resolve d (some s)).wp J Q w c ↔ Found J .freed (w.ldbSnapshots.get s) fun r =>
      if r.inst = d then Q (some r.snap) w c else J.allows .foreign := by
  simp only [resolve, Prog.wp_bind, wp_row]
  refine Iff.of_eq (congrArg _ ?_)
  funext r
  split <;> rfl

@[simp] theorem wp_dbGetSnapshot {d : Nat} {Q : Nat → World E → κ → Prop} :
    (dbGetSnapshot d).wp J Q w c ↔ (callDb .getSnapshot d E.getSnapshot).wp J
      (fun snap w c => Q w.ldbSnapshots.next
        { w with ldbSnapshots := w.ldbSnapshots.push ⟨d, snap⟩ } c) w c := by
  simp only [dbGetSnapshot, Prog.wp_bind, Prog.wp_state, Prog.wp_put, Prog.wp_pure]

@[simp] theorem wp_dbReleaseSnapshot {d s : Nat} {Q : Unit → World E → κ → Prop} :
    (dbReleaseSnapshot d s).wp J Q w c ↔ Found J .freed (w.ldbSnapshots.get s) fun r =>
      if r.inst = d then
        (callDb .releaseSnapshot d fun db => ((), E.releaseSnapshot r.snap db)).wp J
          (fun _ w c => Q () { w with ldbSnapshots := w.ldbSnapshots.free s } c) w c
      else J.allows .foreign := by
  simp only [dbReleaseSnapshot, Prog.wp_bind, wp_row]
  refine Iff.of_eq (congrArg _ ?_)
  funext r
  by_cases h : r.inst = d
  · simp only [h, ne_eq, not_true_eq_false, ↓reduceIte, Prog.wp_bind, Prog.wp_modify]
  · simp only [h, ne_eq, not_false_eq_true, ↓reduceIte, Prog.wp_fault]

@[simp] theorem wp_deleteDb_none {Q : Unit → World E → κ → Prop} :
    (deleteDb none).wp J Q w c ↔ Q () w c := Iff.rfl

@[simp] theorem wp_deleteDb_some {d : Nat} {Q : Unit → World E → κ → Prop} :
    (deleteDb (some d)).wp J Q w c ↔ Found J .freed (w.dbs.get d) fun _ =>
      J.event (.ldb .deleteDb d) { w with dbs := w.dbs.free d } c (Q ()) := by
  simp [deleteDb, Prog.wp_bind]

@[simp] theorem wp_iterValid {n : Nat} {Q : Bool → World E → κ → Prop} :
    (iterValid n).wp J Q w c ↔
      Found J .freed (w.ldbIterators.get n) fun r => Q (E.valid r.it) w c := by
  simp [iterValid]

@[simp] theorem wp_iterKey {n : Nat} {Q : Bytes → World E → κ → Prop} :
    (iterKey n).wp J Q w c ↔
      Found J .freed (w.ldbIterators.get n) fun r => Q (E.key r.it) w c := by
  simp [iterKey]

@[simp] theorem wp_iterValue {n : Nat} {Q : Bytes → World E → κ → Prop} :
    (iterValue n).wp J Q w c ↔
      Found J .freed (w.ldbIterators.get n) fun r => Q (E.value r.it) w c := by
  simp [iterValue]

@[simp] theorem wp_iterSet {n : Nat} {f : E.Iter → E.Iter} {Q : Unit → World E → κ → Prop} :
    (iterSet n f).wp J Q w c ↔ Found J .freed (w.ldbIterators.get n) fun r =>
      Found J .freed (w.dbs.get r.inst) fun _ =>
        Q () { w with ldbIterators := w.ldbIterators.set n { r with it := f r.it } } c := by
  simp [iterSet, Prog.wp_bind]

@[simp] theorem wp_iterPosition {n : Nat} {f : E.Iter → E.Iter} {Q : Unit → World E → κ → Prop} :
    (iterPosition n f).wp J Q w c ↔ Found J .freed (w.ldbIterators.get n) fun r =>
      J.event (.ldb (.position n) r.inst) w c ((iterSet n f).wp J Q) := by
  simp only [iterPosition, Prog.wp_bind, wp_loadIterator, Prog.wp_event]

@[simp] theorem wp_deleteIterator_none {Q : Unit → World E → κ → Prop} :
    (deleteIterator none).wp J Q w c ↔ Q () w c := Iff.rfl

@[simp] theorem wp_deleteIterator_some {n : Nat} {Q : Unit → World E → κ → Prop} :
    (deleteIterator (some n)).wp J Q w c ↔ Found J .freed (w.ldbIterators.get n) fun r =>
      Found J .freed (w.dbs.get r.inst) fun _ =>
        J.event (.ldb (.deleteIterator n) r.inst)
          { w with ldbIterators := w.ldbIterators.free n } c (Q ()) := by
  simp [deleteIterator, Prog.wp_bind]

/-- `delete` of a pointer: nothing to do, or an object that must be there. -/
theorem wp_deleteRow {T : World E → Table α} {put : Table α → World E → World E}
    {p : Option Nat} {Q : Unit → World E → κ → Prop} (hput : put (T w) w = w) :
    (deleteRow T put p).wp J Q w c ↔
      match p with
      | none => Q () (put ((T w).freeOpt p) w) c
      | some i => Found J .freed ((T w).get i) fun _ => Q () (put ((T w).freeOpt p) w) c := by
  cases p with
  | none => simp [deleteRow, hput]
  | some i => simp [deleteRow, Prog.wp_bind]

@[simp] theorem wp_deleteString {s : Option Nat} {Q : Unit → World E → κ → Prop} :
    (deleteString s).wp J Q w c ↔
      match s with
      | none => Q () { w with strings := w.strings.freeOpt s } c
      | some i => Found J .freed (w.strings.get i) fun _ =>
        Q () { w with strings := w.strings.freeOpt s } c := wp_deleteRow rfl

@[simp] theorem wp_deleteOptions {o : Option Nat} {Q : Unit → World E → κ → Prop} :
    (deleteOptions o).wp J Q w c ↔
      match o with
      | none => Q () { w with options := w.options.freeOpt o } c
      | some i => Found J .freed (w.options.get i) fun _ =>
        Q () { w with options := w.options.freeOpt o } c := wp_deleteRow rfl

@[simp] theorem wp_deleteCache {o : Option Nat} {Q : Unit → World E → κ → Prop} :
    (deleteCache o).wp J Q w c ↔
      match o with
      | none => Q () { w with caches := w.caches.freeOpt o } c
      | some i => Found J .freed (w.caches.get i) fun _ =>
        Q () { w with caches := w.caches.freeOpt o } c := wp_deleteRow rfl

/-- `delete` of a string that is there. -/
theorem wp_deleteString_of {bound : Option Nat} {Q : Unit → World E → κ → Prop}
    (hb : ∀ p, bound = some p → ∃ b, w.strings.get p = some b)
    (hQ : Q () { w with strings := w.strings.freeOpt bound } c) :
    (deleteString bound).wp J Q w c := by
  cases bound with
  | none => simpa using hQ
  | some p =>
    obtain ⟨b, hp⟩ := hb p rfl
    simpa [hp] using hQ

@[simp] theorem wp_newString {b : Bytes} {Q : Nat → World E → κ → Prop} :
    (newString b).wp J Q w c ↔ Q w.strings.next { w with strings := w.strings.push b } c := Iff.rfl

/-- A move with nothing in between is both halves. -/
theorem wp_iterMove {F : Fault → Prop} {n d : Nat} {it : E.Iter} {inst : LdbInstance E}
    {f g : E.Iter → E.Iter} {Q : Unit → World E → Unit → Prop}
    (hn : w.ldbIterators.get n = some ⟨d, it⟩) (hd : w.dbs.get d = some inst)
    (hQ : Q () { w with ldbIterators := w.ldbIterators.set n ⟨d, g (f it)⟩ } ()) :
    (iterMove n f g).wp (.alone F) Q w () := by
  have hcall : ∀ (b : Bool) (P : Unit → World E → Unit → Prop) (w : World E),
      P () w () → (Prog.when b (callback d)).wp (.alone F) P w () := by
    intro b P w h
    cases b
    · exact h
    · simpa [callback, Prog.wp_bind] using h
  simp only [iterMove, Prog.wp_bind, wp_loadIterator, hn, Prog.found_some, Prog.wp_event,
    Prog.alone_event, wp_iterSet, hd, wp_loadDb]
  refine hcall _ _ _ ?_
  simpa [hd] using hQ

/-- The pointer `snapshot` is to the snapshot `snap` of instance `d`. -/
def World.SnapshotAt (w : World E) (d : Nat) (snapshot : Option Nat) (snap : Option E.Snap) :
    Prop :=
  snapshot.map w.ldbSnapshots.get = snap.map fun s => some ⟨d, s⟩

/-- No snapshot. -/
theorem World.snapshotAt_none (w : World E) (d : Nat) : w.SnapshotAt d none none := rfl

theorem wp_resolve {F : Fault → Prop} {d : Nat} {snapshot : Option Nat} {snap : Option E.Snap}
    {Q : Option E.Snap → World E → Unit → Prop} (h : w.SnapshotAt d snapshot snap)
    (hQ : Q snap w ()) : (resolve d snapshot).wp (.alone F) Q w () := by
  cases snapshot with
  | none =>
    have hs : snap = none := by simpa [World.SnapshotAt] using h.symm
    simpa [hs] using hQ
  | some p =>
    cases snap with
    | none => simp [World.SnapshotAt] at h
    | some s =>
      have hp : w.ldbSnapshots.get p = some ⟨d, s⟩ := by simpa [World.SnapshotAt] using h
      simpa [hp] using hQ

/-! ## Comparators -/

/-- What a comparator computes in a world: `cmp`, up to its magnitude. For a Python comparator the
callable returns the integers `cmp a b`, whenever it is called. -/
def World.Computes (w : World E) (c : CmpPtr) (cmp : Bytes → Bytes → Int) : Prop :=
  match c with
  | .bytewise => E.bytewise = cmp
  | .python p => ∃ r, w.comparators.get p = some r ∧
      ∀ n a b, E.call r.comparator n a b = .int (cmp a b)

/-- The value of `Compare`: the sign, for a Python comparator. -/
def CmpPtr.result (c : CmpPtr) (z : Int) : Int :=
  match c with
  | .bytewise => z
  | .python _ => if z < 0 then -1 else if 0 < z then 1 else 0

theorem CmpPtr.result_neg (c : CmpPtr) (z : Int) : c.result z < 0 ↔ z < 0 := by
  cases c
  · rfl
  · simp only [result]
    split
    · omega
    · split <;> omega

theorem CmpPtr.result_pos (c : CmpPtr) (z : Int) : 0 < c.result z ↔ 0 < z := by
  cases c
  · rfl
  · simp only [result]
    split
    · omega
    · split <;> omega

@[simp] theorem CmpPtr.result_eq_zero (c : CmpPtr) (z : Int) : c.result z = 0 ↔ z = 0 := by
  have := c.result_neg z
  have := c.result_pos z
  omega

/-- A comparison in a thread that runs alone. A Python comparator counts its calls, and keeps the
reference to the integer that the callable returned. -/
theorem wp_compare {F : Fault → Prop} {p : CmpPtr} {a b : Bytes} {cmp : Bytes → Bytes → Int}
    {Q : Int → World E → Unit → Prop} {c : Unit} (hc : w.Computes p cmp)
    (hQ : ∀ o n, Q (p.result (cmp a b)) { w with owned := o, calls := n } c) :
    (p.compare a b).wp (.alone F) Q w c := by
  cases p with
  | bytewise =>
    have hb : E.bytewise = cmp := hc
    simpa [CmpPtr.compare, CmpPtr.result, hb] using hQ w.owned w.calls
  | python p =>
    obtain ⟨r, hr, hcall⟩ := hc
    simp only [CmpPtr.compare, PythonComparatorWrapper.compare, Prog.wp_bind, Prog.wp_event,
      Prog.alone_event, wp_newRef, wp_row, hr, Prog.found_some, Prog.wp_state, Prog.wp_put, hcall]
    simpa [PythonComparatorWrapper.getSign, CmpPtr.result] using hQ _ _

end PyLeveldb
