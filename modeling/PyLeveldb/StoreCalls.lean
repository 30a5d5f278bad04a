import PyLeveldb.HandleRun
import PyLeveldb.Residue

/-!
# What a call leaves of the store

For each method that reads or writes the store, the world that it leaves, from what leveldb gives: one
rule per method (`put_runs`, `get_runs`, ...), for a LevelDB object that is open on an instance. The
events are no matter here: the thread runs alone.
-/

namespace PyLeveldb

variable {E : Env} {w : World E} {F : Fault → Prop} {D d : Nat} {r : PyLevelDB} {inst : LdbInstance E}

/-- The result of a call that writes, for the status of leveldb. -/
def Status.outcome (status : Status) : Except Exn Unit :=
  if status.isOk then .ok () else .error (.levelDBError status.toString)

/-- The world after a call on instance `d` that leaves the database `db`. -/
def World.wrote (w : World E) (d : Nat) (inst : LdbInstance E) (db : E.Db) : World E :=
  { w with dbs := w.dbs.set d { inst with db := db } }

/-- The result of a read, for what leveldb gives. -/
def PyLevelDB.GetArgs.outcome (args : PyLevelDB.GetArgs) (alloc : Bool) (status : Status) (value : Bytes) :
    Except Exn PyLevelDB.GetResult :=
  if status.isNotFound then
    match args.default with
    | some obj => .ok (.default obj)
    | none => .error .keyError
  else if !status.isOk then .error (.levelDBError status.toString)
  else if !alloc then .error .memoryError
  else .ok (.value value)

section Runs

variable (hr : w.levelDBs.get D = some r) (hdb : r.db = some d) (hd : w.dbs.get d = some inst)

/-- The answer to a status. -/
theorem status_runs {status : Status} {Q : Except Exn Unit → World E → Unit → Prop}
    (hQ : Q status.outcome w ()) :
    (if !status.isOk then setError status else returnNone : C E (Except Exn Unit)).wp (.alone F) Q w () := by
  unfold Status.outcome at hQ
  cases h : status.isOk <;> simpa [h] using hQ

include hr hdb hd

theorem put_runs {args : PyLevelDB.PutArgs} {Q : Except Exn Unit → World E → Unit → Prop}
    (hbad : parses args.wellFormed [args.key, args.value] = false → Q (.error .parse) w ())
    (hQ : parses args.wellFormed [args.key, args.value] = true → ∀ e,
      let x := E.put ⟨args.sync⟩ args.key.bytes args.value.bytes inst.db
      Q x.1.outcome { w.wrote d inst x.2 with exports := e } ()) :
    (PyLevelDB.put D args).wp (.alone F) Q w () := by
  simp only [PyLevelDB.put, Prog.wp_bind, wp_parse, Prog.alone_event]
  cases hp : parses args.wellFormed [args.key, args.value] with
  | false => exact hbad hp
  | true =>
    simp only [↓reduceIte, Bool.not_true, Bool.false_eq_true, Prog.wp_bind, wp_begin,
      Prog.alone_event, wp_load_levelDB, hr, Prog.found_some, wp_deref, hdb, dbPut, wp_callDb, hd,
      wp_end, wp_releaseBuffer]
    exact status_runs (hQ hp _)

theorem delete_runs {args : PyLevelDB.DeleteArgs} {Q : Except Exn Unit → World E → Unit → Prop}
    (hbad : parses args.wellFormed [args.key] = false → Q (.error .parse) w ())
    (hQ : parses args.wellFormed [args.key] = true → ∀ e,
      let x := E.delete ⟨args.sync⟩ args.key.bytes inst.db
      Q x.1.outcome { w.wrote d inst x.2 with exports := e } ()) :
    (PyLevelDB.delete D args).wp (.alone F) Q w () := by
  simp only [PyLevelDB.delete, Prog.wp_bind, wp_parse, Prog.alone_event]
  cases hp : parses args.wellFormed [args.key] with
  | false => exact hbad hp
  | true =>
    simp only [↓reduceIte, Bool.not_true, Bool.false_eq_true, Prog.wp_bind, wp_begin,
      Prog.alone_event, wp_load_levelDB, hr, Prog.found_some, wp_deref, hdb, dbDelete, wp_callDb, hd,
      wp_end, wp_releaseBuffer]
    exact status_runs (hQ hp _)

theorem write_runs {args : PyLevelDB.WriteArgs} {b : PyWriteBatch}
    {Q : Except Exn Unit → World E → Unit → Prop} (hb : w.batches.get args.writeBatch = some b)
    (hbad : args.wellFormed = false → Q (.error .parse) w ())
    (hQ : args.wellFormed = true → ∀ e,
      let x := E.write ⟨args.sync⟩ (b.ops.map PyWriteBatchEntry.toOp) inst.db
      Q x.1.outcome { w.wrote d inst x.2 with exports := e } ()) :
    (PyLevelDB.write D args).wp (.alone F) Q w () := by
  simp only [PyLevelDB.write, Prog.wp_bind, wp_parse, Prog.alone_event]
  cases hp : args.wellFormed with
  | false => exact hbad hp
  | true =>
    simp only [parses, List.all_nil, Bool.and_true, ↓reduceIte, Bool.not_true, Bool.false_eq_true,
      Prog.wp_bind, wp_load_batch, hb, wp_begin, Prog.alone_event, wp_load_levelDB, hr,
      Prog.found_some, wp_deref, hdb, dbWrite, wp_callDb, hd, wp_end]
    exact status_runs (hQ hp _)

omit hr hdb in
theorem get_runs {snapshot : Option Nat} {snap : Option E.Snap} {args : PyLevelDB.GetArgs} {alloc : Bool}
    {Q : Except Exn PyLevelDB.GetResult → World E → Unit → Prop} (hs : w.SnapshotAt d snapshot snap)
    (hbad : parses args.wellFormed [args.key] = false → Q (.error .parse) w ())
    (hQ : parses args.wellFormed [args.key] = true → ∀ e o,
      let x := E.get ⟨args.verifyChecksums, args.fillCache, snap⟩ args.key.bytes inst.db
      Q (args.outcome alloc x.1 x.2.1) { w.wrote d inst x.2.2 with exports := e, owned := o } ()) :
    (PyLevelDB.get_ (some d) snapshot args alloc).wp (.alone F) Q w () := by
  simp only [PyLevelDB.get_, Prog.wp_bind, wp_parse, Prog.alone_event]
  cases hp : parses args.wellFormed [args.key] with
  | false => exact hbad hp
  | true =>
    simp only [↓reduceIte, Bool.not_true, Bool.false_eq_true, Prog.wp_bind, wp_begin,
      Prog.alone_event, wp_deref_some, dbGet]
    refine wp_resolve hs ?_
    simp only [wp_callDb, hd, Prog.found_some, Prog.alone_event, wp_end, wp_releaseBuffer]
    have hQ := fun o => hQ hp (release (acquire w.exports [args.key]) args.key) o
    unfold PyLevelDB.GetArgs.outcome at hQ
    split
    · next hnf =>
      simp only [hnf, ↓reduceIte] at hQ
      split
      · next obj hobj =>
        rw [hobj] at hQ
        exact hQ _
      · next hobj =>
        rw [hobj] at hQ
        exact hQ w.owned
    · next hnf =>
      simp only [hnf, Bool.false_eq_true, ↓reduceIte] at hQ
      split
      · next hok =>
        simp only [hok, ↓reduceIte] at hQ
        exact hQ w.owned
      · next hok =>
        simp only [hok] at hQ
        cases alloc with
        | false => exact hQ w.owned
        | true => exact hQ _

theorem compactRange_runs {args : PyLevelDB.CompactArgs} {Q : Except Exn Unit → World E → Unit → Prop}
    (hbad : args.parses = false → ∀ e, Q (.error .parse) { w with exports := e } ())
    (hQ : args.parses = true → ∀ e, Q (.ok ()) { w.wrote d inst
      (E.compactRange (args.start.map Arg.bytes) (args.finish.map Arg.bytes) inst.db) with
        exports := e } ()) :
    (PyLevelDB.compactRange D args).wp (.alone F) Q w () := by
  refine wp_parseBoth (fun hp => hbad hp _) fun hp => ?_
  simp only [Prog.wp_bind, wp_begin, Prog.alone_event, wp_load_levelDB, hr, Prog.found_some, wp_deref,
    hdb, dbCompactRange, wp_callDb, hd, wp_end]
  refine wp_releaseOptional fun e => ?_
  refine wp_releaseOptional fun e => ?_
  exact hQ hp e

theorem createSnapshot_runs {alloc : Bool} {Q : Except Exn Nat → World E → Unit → Prop}
    (hmake : alloc = true → Q (.ok w.snapshots.next)
      ((w.wrote d inst (E.getSnapshot inst.db).2).addSnap w.snapshots.next D d
        (E.getSnapshot inst.db).1 r) ())
    (hfail : alloc = false → Q (.error .memoryError)
      { w.wrote d inst (E.releaseSnapshot (E.getSnapshot inst.db).1 (E.getSnapshot inst.db).2) with
        ldbSnapshots := (w.ldbSnapshots.push ⟨d, (E.getSnapshot inst.db).1⟩).free w.ldbSnapshots.next }
      ()) : (PyLevelDB.createSnapshot D alloc).wp (.alone F) Q w () := by
  simp only [PyLevelDB.createSnapshot, Prog.wp_bind, wp_load_levelDB, hr, Prog.found_some, wp_deref,
    hdb, wp_dbGetSnapshot, wp_callDb, hd, Prog.alone_event, PyLevelDBSnapshot.make, wp_py]
  cases alloc with
  | false =>
    simp only [Bool.not_false, ↓reduceIte, Prog.wp_bind, wp_load_levelDB, hr, Prog.found_some, wp_deref,
      hdb, wp_dbReleaseSnapshot, Table.get_push, wp_callDb, Table.get_set, Prog.alone_event,
      Table.set_set, Prog.wp_pure]
    exact hfail rfl
  | true =>
    simp only [Bool.not_true, Bool.false_eq_true, ↓reduceIte, Prog.wp_bind, Prog.wp_state,
      PyLevelDB.incref, wp_py, Prog.alone_event, wp_update_levelDB, hr, Prog.found_some,
      Prog.wp_modify, PyLevelDB.addSnapshots, Table.get_set, Table.set_set, Prog.wp_pure]
    exact hmake rfl

/-- `Snapshot.__init__` of an object without a snapshot. -/
theorem snapshotInit_runs {s : Nat} {Q : Except Exn Unit → World E → Unit → Prop}
    (hs : w.snapshots.get s = some ⟨none, none⟩)
    (hQ : Q (.ok ()) ((w.wrote d inst (E.getSnapshot inst.db).2).addSnap s D d
      (E.getSnapshot inst.db).1 r) ()) :
    (PyLevelDBSnapshot.init s (some D)).wp (.alone F) Q w () := by
  simp only [PyLevelDBSnapshot.init, wp_inFrame, Prog.alone_event, Prog.wp_bind, wp_load_snapshot,
    hs, Prog.found_some, PyLevelDBSnapshot.close, Prog.wp_pure, wp_update_snapshot, wp_py,
    wp_load_levelDB, hr, wp_deref_of hdb, wp_dbGetSnapshot, wp_callDb, hd, Table.get_set, ↓reduceIte,
    PyLevelDB.incref, wp_update_levelDB, PyLevelDB.addSnapshots, Table.set_set]
  exact hQ

/-- The end of a snapshot object with a snapshot, where Python code holds the LevelDB object. -/
theorem snapshotDealloc_runs {s p : Nat} {y : E.Snap} {Q : Unit → World E → Unit → Prop}
    (hs : w.snapshots.get s = some ⟨some D, some p⟩) (hy : w.ldbSnapshots.get p = some ⟨d, y⟩)
    (hm : .snap s ∈ r.refs) (he : .env ∈ r.refs)
    (hQ : Q () (let w' := (w.wrote d inst (E.releaseSnapshot y inst.db)).endSnap s D p r
      { w' with snapshots := w'.snapshots.free s }) ()) :
    (PyLevelDBSnapshot.dealloc s).wp (.alone F) Q w () := by
  have hne : r.refs.erase (.snap s) ≠ [] :=
    List.ne_nil_of_mem ((List.mem_erase_of_ne (by simp)).mpr he)
  simp only [PyLevelDBSnapshot.dealloc, wp_inFrame, Prog.alone_event, Prog.wp_bind, wp_load_snapshot,
    hs, Prog.found_some, PyLevelDBSnapshot.releaseHeld, wp_begin, wp_load_levelDB, hr, wp_deref_of hdb,
    wp_dbReleaseSnapshot, hy, ↓reduceIte, wp_callDb, hd, wp_end, PyLevelDB.addSnapshots,
    wp_update_levelDB, wp_deref_some]
  refine wp_decref (Prog.alone_silent _ _) (r := { r with nSnapshots := r.nSnapshots + -1 }) (by simp)
    hm hne ?_
  simp only [Table.set_set, wp_update_snapshot, hs, Prog.found_some, wp_py, Prog.alone_event,
    Prog.wp_modify]
  exact hQ

end Runs

theorem snapshotNew_runs {alloc : Bool} {Q : Except Exn Nat → World E → Unit → Prop}
    (hQ : if alloc then Q (.ok w.snapshots.next) { w with snapshots := w.snapshots.push ⟨none, none⟩ } ()
      else Q (.error .memoryError) w ()) : (PyLevelDBSnapshot.new alloc).wp (.alone F) Q w () := by
  cases alloc <;> exact hQ

section Batches

variable {b : Nat} {x : PyWriteBatch}

theorem batchNew_runs {alloc : Bool} {Q : Except Exn Nat → World E → Unit → Prop}
    (hQ : if alloc then Q (.ok w.batches.next) { w with batches := w.batches.push ⟨[]⟩ } ()
      else Q (.error .memoryError) w ()) : (PyWriteBatch.new alloc).wp (.alone F) Q w () := by
  cases alloc <;> exact hQ

variable (hb : w.batches.get b = some x)
include hb

theorem batchInit_runs {wf : Bool} {Q : Except Exn Unit → World E → Unit → Prop}
    (hQ : Q (if wf then .ok () else .error .parse) { w with batches := w.batches.set b ⟨[]⟩ } ()) :
    (PyWriteBatch.init b wf).wp (.alone F) Q w () := by
  simp only [PyWriteBatch.init, Prog.wp_bind, wp_update_batch, hb, Prog.found_some, wp_py,
    Prog.alone_event]
  cases wf <;> exact hQ

theorem batchDealloc_runs {Q : Unit → World E → Unit → Prop}
    (hQ : Q () { w with batches := w.batches.free b } ()) :
    (PyWriteBatch.dealloc b).wp (.alone F) Q w () := by
  simpa [PyWriteBatch.dealloc, Prog.wp_bind, hb] using hQ

theorem batchPut_runs {wf : Bool} {key value : Arg} {Q : Except Exn Unit → World E → Unit → Prop}
    (hbad : parses wf [key, value] = false → Q (.error .parse) w ())
    (hQ : parses wf [key, value] = true → ∀ e, Q (.ok ()) { w with
      batches := w.batches.set b ⟨x.ops ++ [⟨true, key.bytes, value.bytes⟩]⟩
      exports := e } ()) : (PyWriteBatch.put b wf key value).wp (.alone F) Q w () := by
  simp only [PyWriteBatch.put, Prog.wp_bind, wp_parse, Prog.alone_event]
  cases hp : parses wf [key, value] with
  | false => exact hbad hp
  | true =>
    simp only [↓reduceIte, Bool.not_true, Bool.false_eq_true, Prog.wp_bind, wp_begin, wp_end,
      Prog.alone_event, wp_releaseBuffer, PyWriteBatch.pushBack, wp_update_batch, hb, Prog.found_some,
      wp_returnNone]
    exact hQ hp _

theorem batchDelete_runs {wf : Bool} {key : Arg} {Q : Except Exn Unit → World E → Unit → Prop}
    (hbad : parses wf [key] = false → Q (.error .parse) w ())
    (hQ : parses wf [key] = true → ∀ e, Q (.ok ()) { w with
      batches := w.batches.set b ⟨x.ops ++ [⟨false, key.bytes, []⟩]⟩
      exports := e } ()) : (PyWriteBatch.delete b wf key).wp (.alone F) Q w () := by
  simp only [PyWriteBatch.delete, Prog.wp_bind, wp_parse, Prog.alone_event]
  cases hp : parses wf [key] with
  | false => exact hbad hp
  | true =>
    simp only [↓reduceIte, Bool.not_true, Bool.false_eq_true, Prog.wp_bind, wp_begin, wp_end,
      Prog.alone_event, wp_releaseBuffer, PyWriteBatch.pushBack, wp_update_batch, hb, Prog.found_some,
      wp_returnNone]
    exact hQ hp _

end Batches

section Iterators

variable {i : Nat}

/-- `RangeIter` with arguments that do not parse. -/
theorem rangeIter_refused {self snapshot : Option Nat} {args : RangeArgs} {alloc : Bool}
    {Q : Except Exn Nat → World E → Unit → Prop} (hp : args.parses = false)
    (hQ : ∀ e, Q (.error .parse) { w with exports := e } ()) :
    (PyLevelDB.rangeIter_ self snapshot args alloc).wp (.alone F) Q w () := by
  refine wp_parseBoth (fun _ => hQ _) fun hp' => ?_
  have : args.parses = true := hp'
  rw [hp] at this
  cases this

/-- The end of an iterator object that is at its end. -/
theorem iterDealloc_dead {rev : Bool} {Q : Unit → World E → Unit → Prop}
    (hi : w.iters.get i = some ⟨none, none, none, none, rev, false⟩)
    (hQ : Q () { w with iters := w.iters.free i } ()) :
    (PyLevelDBIter.dealloc i).wp (.alone F) Q w () := by
  simp only [PyLevelDBIter.dealloc, wp_inFrame, Prog.alone_event, Prog.wp_bind]
  refine wp_clean_dead (Prog.alone_silent _ _) hi ?_
  simp only [wp_py, Prog.alone_event, Prog.wp_modify, Table.set_free hi]
  exact hQ

/-- The end of an iterator object in use, where someone else holds the LevelDB object. -/
theorem iterDealloc_live {n d' : Nat} {bound : Option Nat} {rev inc : Bool} {it : E.Iter}
    {Q : Unit → World E → Unit → Prop}
    (hi : w.iters.get i = some ⟨some D, some D, some n, bound, rev, inc⟩)
    (hn : w.ldbIterators.get n = some ⟨d', it⟩) (hd : ∃ x, w.dbs.get d' = some x)
    (hb : ∀ p, bound = some p → ∃ b, w.strings.get p = some b)
    (hr : w.levelDBs.get D = some r) (hm : .iter i ∈ r.refs) (hne : r.refs.erase (.iter i) ≠ [])
    (hQ : Q () (let w' := w.cleaned i D n bound rev r
      { w' with iters := w'.iters.free i }) ()) :
    (PyLevelDBIter.dealloc i).wp (.alone F) Q w () := by
  obtain ⟨x, hd⟩ := hd
  simp only [PyLevelDBIter.dealloc, wp_inFrame, Prog.alone_event, Prog.wp_bind]
  refine wp_clean_live (Prog.alone_silent _ _) hi hn hd hb hr hm hne ?_
  simp only [wp_py, Prog.alone_event, Prog.wp_modify]
  exact hQ

end Iterators

end PyLeveldb
