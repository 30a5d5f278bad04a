import PyLeveldb.Api
import PyLeveldb.Exec
import PyLeveldb.Lib.Frame

/-!
# LevelDB objects that a call does not see

`World.Without K s t`: the world `s` is the world `t` without the LevelDB objects `K`. The functions that
work on iterators, snapshots and the LevelDB objects that these belong to do in `t` what they do in `s`:
they lift, each by composition. So what is known of worlds in which every LevelDB object is open holds in
the presence of closed ones.
-/

namespace PyLeveldb

variable {E : Env} {α β : Type} {K : Nat → Option PyLevelDB} {s t : World E}

open PyLevelDBIter (NextAllocs Item)

/-- Every leveldb snapshot is of an instance that was made. -/
def World.SnapsMade (w : World E) : Prop :=
  ∀ p x, w.ldbSnapshots.get p = some x → x.inst < w.dbs.next

/-- `s` is `t` without the LevelDB objects `K`. -/
def World.Without (K : Nat → Option PyLevelDB) (s t : World E) : Prop :=
  (∃ A, s = { t with levelDBs := A } ∧ t.levelDBs.Joins A K) ∧ t.SnapsMade

/-- From `w` to `w'` neither a LevelDB object nor a leveldb snapshot changes, and no identity of an
instance is taken back. -/
structure World.Spared (w w' : World E) : Prop where
  levelDBs : w'.levelDBs = w.levelDBs
  ldbSnapshots : w'.ldbSnapshots = w.ldbSnapshots
  dbs : w.dbs.next ≤ w'.dbs.next

theorem World.SnapsMade.spared {w w' : World E} (h : w.SnapsMade) (hk : w.Spared w') : w'.SnapsMade := by
  intro p x hp
  rw [hk.ldbSnapshots] at hp
  exact Nat.lt_of_lt_of_le (h p x hp) hk.dbs

/-- The program does with the LevelDB objects `K` what it does without them. It may abort. -/
abbrev Lifts (K : Nat → Option PyLevelDB) (p : C E α) : Prop :=
  p.Lifts (World.Without K) (· = .aborted)

/-! ## The primitives -/

theorem event_lifts (x : Ev) : Lifts K (Prog.event x : C E Unit) := .event x

theorem deref_lifts (p : Option α) : Lifts K (deref p : C E α) := by
  cases p with
  | none => exact .fault _
  | some a => exact .pure a

/-- A change of the world, but for its LevelDB objects. -/
theorem modify_lifts {f : World E → World E}
    (hf : ∀ w A, f { w with levelDBs := A } = { f w with levelDBs := A })
    (hk : ∀ w : World E, w.Spared (f w)) : Lifts K (Prog.modify f : C E Unit) := by
  refine .modify fun s t h => ?_
  obtain ⟨⟨A, rfl, hj⟩, hs⟩ := h
  exact ⟨⟨A, hf t A, by rwa [(hk t).levelDBs]⟩, hs.spared (hk t)⟩

/-- A change of the world that does not concern the instances either. -/
theorem modifyRest_lifts {f : World E → World E}
    (h : ∀ w A, f { w with levelDBs := A } = { f w with levelDBs := A } ∧
      (f w).levelDBs = w.levelDBs ∧ (f w).ldbSnapshots = w.ldbSnapshots ∧ (f w).dbs.next = w.dbs.next) :
    Lifts K (Prog.modify f : C E Unit) := by
  refine modify_lifts (fun w A => (h w A).1) fun w => ?_
  obtain ⟨-, hd, hs, hn⟩ := h w w.levelDBs
  exact ⟨hd, hs, Nat.le_of_eq hn.symm⟩

theorem row_lifts {T : World E → Table α} (hT : ∀ w A, T { w with levelDBs := A } = T w) (p : Nat) :
    Lifts K (row T p) := by
  refine .state_bind fun s t h => ?_
  refine .ofOption (by simp) h fun a ha => ?_
  obtain ⟨⟨A, rfl, -⟩, -⟩ := h
  rwa [hT] at ha

theorem load_lifts (D : Nat) : Lifts K (PyLevelDB.load D : C E PyLevelDB) := by
  refine .state_bind fun s t h => ?_
  refine .ofOption (by simp) h fun r hr => ?_
  obtain ⟨⟨A, rfl, hj⟩, hs⟩ := h
  exact hj.found hr

theorem update_lifts (D : Nat) (f : PyLevelDB → PyLevelDB) :
    Lifts K (PyLevelDB.update D f : C E Unit) := by
  intro s t h Q hQ
  obtain ⟨⟨A, rfl, hj⟩, hs⟩ := h
  rw [wp_update_levelDB] at hQ ⊢
  cases hr : A.get D with
  | none =>
    simp only [hr] at hQ
    cases hQ
  | some r =>
    simp only [hr, Prog.found_some] at hQ
    rw [hj.found hr, Prog.found_some]
    exact ⟨_, ⟨⟨_, rfl, hj.set hr⟩, hs⟩, hQ⟩

theorem updateIter_lifts (i : Nat) (f : PyLevelDBIter → PyLevelDBIter) :
    Lifts K (PyLevelDBIter.update i f : C E Unit) :=
  (row_lifts (fun _ _ => rfl) i).bind fun _ => modifyRest_lifts fun _ _ => ⟨rfl, rfl, rfl, rfl⟩

theorem updateSnapshot_lifts (s : Nat) (f : PyLevelDBSnapshot → PyLevelDBSnapshot) :
    Lifts K (PyLevelDBSnapshot.update s f : C E Unit) :=
  (row_lifts (fun _ _ => rfl) s).bind fun _ => modifyRest_lifts fun _ _ => ⟨rfl, rfl, rfl, rfl⟩

theorem newRef_lifts : Lifts K (newRef : C E Unit) :=
  (event_lifts .py).bind fun _ => modifyRest_lifts fun _ _ => ⟨rfl, rfl, rfl, rfl⟩

theorem dropRef_lifts : Lifts K (dropRef : C E Unit) :=
  (event_lifts .py).bind fun _ => modifyRest_lifts fun _ _ => ⟨rfl, rfl, rfl, rfl⟩

theorem giveRef_lifts : Lifts K (giveRef : C E Unit) := modifyRest_lifts fun _ _ => ⟨rfl, rfl, rfl, rfl⟩

theorem raise_lifts (x : Exn) : Lifts K (raise x : C E (Except Exn α)) :=
  (event_lifts .py).bind fun _ => .pure _

theorem inFrame_lifts {f : Frame} {p : C E α} (hp : Lifts K p) : Lifts K (inFrame f p) :=
  (event_lifts _).bind fun _ => hp.bind fun _ => (event_lifts _).bind fun _ => .pure _

theorem parse_lifts (wf : Bool) (as : List Arg) : Lifts K (parse wf as : C E Bool) := by
  refine (event_lifts .py).bind fun _ => ?_
  split
  · exact .bind (modifyRest_lifts fun _ _ => ⟨rfl, rfl, rfl, rfl⟩) fun _ => .pure _
  · exact .pure _

theorem parseOptional_lifts (a : Option Arg) : Lifts K (PyLevelDB.parseOptional a : C E Bool) := by
  cases a with
  | none => exact .pure _
  | some a => exact parse_lifts _ _

theorem releaseOptional_lifts (a : Option Arg) : Lifts K (PyLevelDB.releaseOptional a : C E Unit) := by
  cases a with
  | none => exact .pure _
  | some a => exact (event_lifts .py).bind fun _ => modifyRest_lifts fun _ _ => ⟨rfl, rfl, rfl, rfl⟩

/-! ## leveldb -/

theorem loadDb_lifts (d : Nat) : Lifts K (loadDb d : C E (LdbInstance E)) :=
  row_lifts (fun _ _ => rfl) d

theorem loadIterator_lifts (n : Nat) : Lifts K (loadIterator n : C E (LdbIterator E)) :=
  row_lifts (fun _ _ => rfl) n

theorem callDb_lifts (op : LdbOp) (d : Nat) (f : E.Db → α × E.Db) : Lifts K (callDb op d f) :=
  (loadDb_lifts d).bind fun _ => (event_lifts _).bind fun _ => (loadDb_lifts d).bind fun _ =>
    .bind (modify_lifts (fun _ _ => rfl) fun _ => ⟨rfl, rfl, Nat.le_max_left _ _⟩) fun _ => .pure _

theorem resolve_lifts (d : Nat) (p : Option Nat) : Lifts K (resolve d p : C E (Option E.Snap)) := by
  cases p with
  | none => exact .pure _
  | some p =>
    refine .bind (row_lifts (fun _ _ => rfl) p) fun r => ?_
    split
    · exact .pure _
    · exact .fault _

/-- The new snapshot is of an instance that is there. -/
theorem dbGetSnapshot_lifts (d : Nat) : Lifts K (dbGetSnapshot d : C E Nat) := by
  intro s t h Q hQ
  obtain ⟨⟨A, rfl, hj⟩, hs⟩ := h
  simp only [wp_dbGetSnapshot, wp_callDb, Prog.alone_event] at hQ ⊢
  cases hd : t.dbs.get d with
  | none =>
    simp only [hd] at hQ
    cases hQ
  | some inst =>
    simp only [hd, Prog.found_some] at hQ ⊢
    refine ⟨_, ⟨⟨A, rfl, hj⟩, fun p x hp => ?_⟩, hQ⟩
    rcases Table.get_push_some hp with ⟨-, rfl⟩ | ⟨-, hp⟩
    · exact Nat.le_max_right _ _
    · exact Nat.lt_of_lt_of_le (hs p x hp) (Nat.le_max_left _ _)

theorem dbReleaseSnapshot_lifts (d p : Nat) : Lifts K (dbReleaseSnapshot d p : C E Unit) := by
  refine (row_lifts (fun _ _ => rfl) p).bind fun r => ?_
  split
  · exact .fault _
  · refine (callDb_lifts _ _ _).bind fun _ => .modify fun s t h => ?_
    obtain ⟨⟨A, rfl, hj⟩, hs⟩ := h
    exact ⟨⟨A, rfl, hj⟩, fun q x hq => hs q x (Table.get_free_some hq).2⟩

theorem dbNewIterator_lifts (d : Nat) (verify fill : Bool) (snapshot : Option Nat) :
    Lifts K (dbNewIterator d verify fill snapshot : C E (Option Nat)) := by
  refine (resolve_lifts d snapshot).bind fun _ => (callDb_lifts _ _ _).bind fun it => ?_
  cases it with
  | none => exact .pure _
  | some it =>
    refine .state_bind fun s t h => ?_
    obtain ⟨⟨A, rfl, hj⟩, hs⟩ := h
    exact .bind (.put ⟨⟨A, rfl, hj⟩, hs⟩) fun _ _ _ h => .pure h _

theorem newString_lifts (b : Bytes) : Lifts K (newString b : C E Nat) := by
  refine .state_bind fun s t h => ?_
  obtain ⟨⟨A, rfl, hj⟩, hs⟩ := h
  exact .bind (.put ⟨⟨A, rfl, hj⟩, hs⟩) fun _ _ _ h => .pure h _

theorem iterValid_lifts (n : Nat) : Lifts K (iterValid n : C E Bool) :=
  (loadIterator_lifts n).bind fun _ => .pure _

theorem iterKey_lifts (n : Nat) : Lifts K (iterKey n : C E Bytes) :=
  (loadIterator_lifts n).bind fun _ => .pure _

theorem iterValue_lifts (n : Nat) : Lifts K (iterValue n : C E Bytes) :=
  (loadIterator_lifts n).bind fun _ => .pure _

theorem iterSet_lifts (n : Nat) (f : E.Iter → E.Iter) : Lifts K (iterSet n f) :=
  (loadIterator_lifts n).bind fun _ => (loadDb_lifts _).bind fun _ =>
    modifyRest_lifts fun _ _ => ⟨rfl, rfl, rfl, rfl⟩

theorem iterPosition_lifts (n : Nat) (f : E.Iter → E.Iter) : Lifts K (iterPosition n f) :=
  (loadIterator_lifts n).bind fun _ => (event_lifts _).bind fun _ => iterSet_lifts n f

theorem iterMove_lifts (n : Nat) (f g : E.Iter → E.Iter) : Lifts K (iterMove n f g) :=
  (loadIterator_lifts n).bind fun _ => (event_lifts _).bind fun _ => (iterSet_lifts n f).bind fun _ =>
    (loadDb_lifts _).bind fun _ => (Prog.Lifts.when ((event_lifts _).bind fun _ =>
      (event_lifts _).bind fun _ => event_lifts _)).bind fun _ => iterSet_lifts n g

theorem deleteIterator_lifts (p : Option Nat) : Lifts K (deleteIterator p : C E Unit) := by
  cases p with
  | none => exact .pure _
  | some n =>
    exact (loadIterator_lifts n).bind fun _ => (loadDb_lifts _).bind fun _ =>
      .bind (modifyRest_lifts fun _ _ => ⟨rfl, rfl, rfl, rfl⟩) fun _ => event_lifts _

theorem deleteDb_lifts (p : Option Nat) : Lifts K (deleteDb p : C E Unit) := by
  cases p with
  | none => exact .pure _
  | some d =>
    exact (loadDb_lifts d).bind fun _ =>
      .bind (modifyRest_lifts fun _ _ => ⟨rfl, rfl, rfl, rfl⟩) fun _ => event_lifts _

theorem deleteRow_lifts {T : World E → Table α} {put : Table α → World E → World E}
    (hT : ∀ w A, T { w with levelDBs := A } = T w)
    (hput : ∀ X w A, put X { w with levelDBs := A } = { put X w with levelDBs := A })
    (hk : ∀ X (w : World E), w.Spared (put X w)) (p : Option Nat) : Lifts K (deleteRow T put p) := by
  cases p with
  | none => exact .pure _
  | some p =>
    refine (row_lifts hT p).bind fun _ => modify_lifts (fun w A => ?_) fun w => hk _ w
    rw [hT, hput]

theorem deleteString_lifts (p : Option Nat) : Lifts K (deleteString p : C E Unit) := by
  refine deleteRow_lifts ?_ ?_ ?_ p
  · exact fun _ _ => rfl
  · exact fun _ _ _ => rfl
  · exact fun _ _ => ⟨rfl, rfl, Nat.le_refl _⟩

theorem deleteOptions_lifts (p : Option Nat) : Lifts K (deleteOptions p : C E Unit) := by
  refine deleteRow_lifts ?_ ?_ ?_ p
  · exact fun _ _ => rfl
  · exact fun _ _ _ => rfl
  · exact fun _ _ => ⟨rfl, rfl, Nat.le_refl _⟩

theorem deleteCache_lifts (p : Option Nat) : Lifts K (deleteCache p : C E Unit) := by
  refine deleteRow_lifts ?_ ?_ ?_ p
  · exact fun _ _ => rfl
  · exact fun _ _ _ => rfl
  · exact fun _ _ => ⟨rfl, rfl, Nat.le_refl _⟩

/-! ## Comparators -/

theorem compare_lifts (c : CmpPtr) (a b : Bytes) : Lifts K (c.compare a b : C E Int) := by
  cases c with
  | bytewise => exact .pure _
  | python p =>
    refine (event_lifts _).bind fun _ => newRef_lifts.bind fun _ => newRef_lifts.bind fun _ =>
      .bind (row_lifts (fun _ _ => rfl) p) fun x => .state_bind fun s t h => ?_
    obtain ⟨⟨A, rfl, hj⟩, hs⟩ := h
    refine .bind (.put ⟨⟨A, rfl, hj⟩, hs⟩) fun _ s' t' h' => ?_
    refine Prog.Lifts.bind (event_lifts _) (fun _ => (Prog.Lifts.when newRef_lifts).bind fun _ =>
      dropRef_lifts.bind fun _ => dropRef_lifts.bind fun _ => ?_) s' t' h'
    split
    · exact .fault _
    · exact (event_lifts _).bind fun _ => .pure _

theorem deleteComparator_lifts (c : Option CmpPtr) : Lifts K (deleteComparator c : C E Unit) := by
  match c with
  | none | some .bytewise => exact .pure _
  | some (.python p) =>
    exact .bind (row_lifts (fun _ _ => rfl) p) fun _ => inFrame_lifts (dropRef_lifts.bind fun _ =>
      dropRef_lifts.bind fun _ => modifyRest_lifts fun _ _ => ⟨rfl, rfl, rfl, rfl⟩)

/-! ## LevelDB objects -/

theorem deleteParts_lifts (D : Nat) : Lifts K (PyLevelDB.deleteParts D : C E Unit) :=
  (load_lifts D).bind fun _ => (deleteDb_lifts _).bind fun _ => (load_lifts D).bind fun _ =>
    (deleteOptions_lifts _).bind fun _ => (load_lifts D).bind fun _ => (deleteCache_lifts _).bind fun _ =>
      (load_lifts D).bind fun _ => deleteComparator_lifts _

/-- `PyLevelDB_dealloc`, of an object that is seen. -/
theorem dealloc_lifts (D : Nat) : Lifts K (PyLevelDB.dealloc D : C E Unit) := by
  refine inFrame_lifts ((event_lifts _).bind fun _ => (deleteParts_lifts D).bind fun _ =>
    (event_lifts _).bind fun _ => ?_)
  -- the object is seen when its fields are cleared, so it can be freed
  intro s t h Q hQ
  obtain ⟨⟨A, rfl, hj⟩, hs⟩ := h
  simp only [Prog.wp_bind, wp_update_levelDB, wp_py, Prog.alone_event, Prog.wp_modify] at hQ ⊢
  cases hr : A.get D with
  | none =>
    simp only [hr] at hQ
    cases hQ
  | some r =>
    simp only [hr, Prog.found_some] at hQ
    rw [hj.found hr, Prog.found_some]
    exact ⟨_, ⟨⟨_, rfl, (hj.set hr).free (by rw [Table.get_set, if_pos rfl])⟩, hs⟩, hQ⟩

theorem incref_lifts (D : Nat) (h : Holder) : Lifts K (PyLevelDB.incref D h : C E Unit) :=
  (event_lifts _).bind fun _ => update_lifts D _

theorem decref_lifts (D : Nat) (h : Holder) : Lifts K (PyLevelDB.decref D h : C E Unit) := by
  refine (event_lifts _).bind fun _ => (load_lifts D).bind fun r => ?_
  split
  · exact .fault _
  · exact (update_lifts D _).bind fun _ => Prog.Lifts.when (dealloc_lifts D)

theorem xincref_lifts (D : Option Nat) (h : Holder) : Lifts K (PyLevelDB.xincref D h : C E Unit) := by
  cases D with
  | none => exact .pure _
  | some D => exact incref_lifts D h

theorem xdecref_lifts (D : Option Nat) (h : Holder) : Lifts K (PyLevelDB.xdecref D h : C E Unit) := by
  cases D with
  | none => exact .pure _
  | some D => exact decref_lifts D h

theorem addIterators_lifts (D : Option Nat) (k : Int) :
    Lifts K (PyLevelDB.addIterators D k : C E Unit) := by
  cases D with
  | none => exact .pure _
  | some D => exact update_lifts D _

theorem addSnapshots_lifts (D : Option Nat) (k : Int) :
    Lifts K (PyLevelDB.addSnapshots D k : C E Unit) := by
  cases D with
  | none => exact .pure _
  | some D => exact update_lifts D _

/-! ## Iterators -/

theorem loadIter_lifts (i : Nat) : Lifts K (PyLevelDBIter.load i : C E PyLevelDBIter) :=
  row_lifts (fun _ _ => rfl) i

theorem clean_lifts (i : Nat) : Lifts K (PyLevelDBIter.clean i : C E Unit) :=
  inFrame_lifts ((loadIter_lifts i).bind fun _ => (addIterators_lifts _ _).bind fun _ =>
    (event_lifts _).bind fun _ => (loadIter_lifts i).bind fun _ => (deleteIterator_lifts _).bind fun _ =>
      (loadIter_lifts i).bind fun _ => (deleteString_lifts _).bind fun _ => (event_lifts _).bind fun _ =>
        (loadIter_lifts i).bind fun _ => (xdecref_lifts _ _).bind fun _ => updateIter_lifts i _)

theorem iterDealloc_lifts (i : Nat) : Lifts K (PyLevelDBIter.dealloc i : C E Unit) :=
  inFrame_lifts ((clean_lifts i).bind fun _ => (event_lifts _).bind fun _ =>
    modifyRest_lifts fun _ _ => ⟨rfl, rfl, rfl, rfl⟩)

theorem atEnd_lifts (it : PyLevelDBIter) : Lifts K (PyLevelDBIter.atEnd it : C E Bool) := by
  unfold PyLevelDBIter.atEnd
  split
  · exact .pure _
  · exact (deref_lifts _).bind fun _ => (iterValid_lifts _).bind fun _ => .pure _

theorem pastBound_lifts (i : Nat) (it : PyLevelDBIter) :
    Lifts K (PyLevelDBIter.pastBound i it : C E Bool) := by
  unfold PyLevelDBIter.pastBound
  split
  · exact .pure _
  · exact .bind (row_lifts (fun _ _ => rfl) _) fun _ => (deref_lifts _).bind fun _ =>
      (iterKey_lifts _).bind fun _ => (deref_lifts _).bind fun _ => (load_lifts _).bind fun _ =>
        (deref_lifts _).bind fun _ => .bind (row_lifts (fun _ _ => rfl) _) fun _ =>
          (compare_lifts _ _ _).bind fun _ => (loadIter_lifts i).bind fun _ => .pure _

theorem makeItem_lifts (i : Nat) (allocs : NextAllocs) :
    Lifts K (PyLevelDBIter.makeItem i allocs : C E (Except Exn Item)) := by
  refine (loadIter_lifts i).bind fun it => (deref_lifts _).bind fun _ => (iterKey_lifts _).bind fun _ => ?_
  split
  · exact raise_lifts _
  refine newRef_lifts.bind fun _ => ?_
  split
  · exact giveRef_lifts.bind fun _ => .pure _
  refine (deref_lifts _).bind fun _ => (iterValue_lifts _).bind fun _ => ?_
  split
  · exact dropRef_lifts.bind fun _ => raise_lifts _
  refine newRef_lifts.bind fun _ => ?_
  split
  · exact dropRef_lifts.bind fun _ => dropRef_lifts.bind fun _ => raise_lifts _
  · exact newRef_lifts.bind fun _ => giveRef_lifts.bind fun _ => giveRef_lifts.bind fun _ =>
      giveRef_lifts.bind fun _ => .pure _

theorem advance_lifts (i : Nat) : Lifts K (PyLevelDBIter.advance i : C E Unit) := by
  refine (loadIter_lifts i).bind fun it => (deref_lifts _).bind fun _ => ?_
  split
  · exact iterMove_lifts _ _ _
  · exact iterMove_lifts _ _ _

theorem next_lifts (i : Nat) (allocs : NextAllocs) :
    Lifts K (PyLevelDBIter.next i allocs : C E (Except Exn (Option Item))) := by
  refine inFrame_lifts ((loadIter_lifts i).bind fun it => (atEnd_lifts it).bind fun _ => ?_)
  split
  · exact (clean_lifts i).bind fun _ => .pure _
  refine (pastBound_lifts i it).bind fun _ => ?_
  split
  · exact (clean_lifts i).bind fun _ => .pure _
  refine (makeItem_lifts i allocs).bind fun r => ?_
  split
  · exact .pure _
  · exact (advance_lifts i).bind fun _ => .pure _

theorem new_lifts (ref db iterator bound : Option Nat) (includeValue reverse alloc : Bool) :
    Lifts K
      (PyLevelDBIter.new ref db iterator bound includeValue reverse alloc : C E (Except Exn Nat)) := by
  refine (event_lifts _).bind fun _ => ?_
  split
  · exact (event_lifts _).bind fun _ => (deleteIterator_lifts _).bind fun _ =>
      (event_lifts _).bind fun _ => .pure _
  · refine .state_bind fun s t h => ?_
    have hnext : s.iters.next = t.iters.next := by
      obtain ⟨⟨A, rfl, -⟩, -⟩ := h
      rfl
    rw [hnext]
    refine Prog.Lifts.bind (xincref_lifts _ _) (fun _ => ?_) s t h
    exact .bind (modifyRest_lifts fun _ _ => ⟨rfl, rfl, rfl, rfl⟩) fun _ =>
      (addIterators_lifts _ _).bind fun _ => (event_lifts _).bind fun _ => .pure _

theorem position_lifts (D n : Nat) (reverse : Bool) (keyFrom keyTo : Option Bytes) :
    Lifts K (PyLevelDB.position D n reverse keyFrom keyTo : C E Unit) := by
  unfold PyLevelDB.position
  split
  · split
    · exact iterPosition_lifts _ _
    · exact iterPosition_lifts _ _
  · split
    · exact iterPosition_lifts _ _
    · refine (iterPosition_lifts _ _).bind fun _ => (iterValid_lifts _).bind fun _ => ?_
      split
      · exact iterPosition_lifts _ _
      · exact (iterKey_lifts _).bind fun _ => (load_lifts D).bind fun _ => (deref_lifts _).bind fun _ =>
          .bind (row_lifts (fun _ _ => rfl) _) fun _ => (compare_lifts _ _ _).bind fun _ =>
            Prog.Lifts.when (iterPosition_lifts _ _)

theorem rangeIter_lifts (D snapshot : Option Nat) (args : RangeArgs) (alloc : Bool) :
    Lifts K (PyLevelDB.rangeIter_ D snapshot args alloc : C E (Except Exn Nat)) := by
  refine (parse_lifts _ _).bind fun _ => ?_
  split
  · exact .pure _
  refine (parseOptional_lifts _).bind fun _ => ?_
  split
  · exact .pure _
  refine (parseOptional_lifts _).bind fun _ => ?_
  split
  · exact .pure _
  refine (releaseOptional_lifts _).bind fun _ => (releaseOptional_lifts _).bind fun _ =>
    (event_lifts _).bind fun _ => (deref_lifts _).bind fun this => (load_lifts this).bind fun _ =>
      (deref_lifts _).bind fun _ => (dbNewIterator_lifts _ _ _ _).bind fun iter => ?_
  cases iter with
  | none => exact (Prog.Lifts.pure ()).bind fun _ => (event_lifts _).bind fun _ => raise_lifts _
  | some n =>
    refine (position_lifts _ _ _ _ _).bind fun _ => (event_lifts _).bind fun _ =>
      (iterValid_lifts n).bind fun _ => ?_
    split
    · exact (event_lifts _).bind fun _ => (deleteIterator_lifts _).bind fun _ =>
        (event_lifts _).bind fun _ => new_lifts _ _ _ _ _ _ _
    · refine Prog.Lifts.bind ?_ fun _ => new_lifts _ _ _ _ _ _ _
      cases PyLevelDB.scanBound args.reverse (args.keyFrom.map Arg.bytes) (args.keyTo.map Arg.bytes) with
      | none => exact .pure _
      | some b => exact (newString_lifts b).bind fun _ => .pure _

/-! ## Snapshots -/

theorem loadSnapshot_lifts (s : Nat) : Lifts K (PyLevelDBSnapshot.load s : C E PyLevelDBSnapshot) :=
  row_lifts (fun _ _ => rfl) s

theorem snapshotNew_lifts (alloc : Bool) :
    Lifts K (PyLevelDBSnapshot.new alloc : C E (Except Exn Nat)) := by
  unfold PyLevelDBSnapshot.new
  split
  · exact raise_lifts _
  · refine (event_lifts _).bind fun _ => .state_bind fun s t h => ?_
    obtain ⟨⟨A, rfl, hj⟩, hs⟩ := h
    exact .bind (.put ⟨⟨A, rfl, hj⟩, hs⟩) fun _ _ _ h => .pure h _

theorem snapshotClose_lifts (s : Nat) (x : PyLevelDBSnapshot) :
    Lifts K (PyLevelDBSnapshot.close s x : C E Unit) := by
  unfold PyLevelDBSnapshot.close
  split
  · exact (addSnapshots_lifts _ _).bind fun _ => (load_lifts _).bind fun _ => (deref_lifts _).bind fun _ =>
      (dbReleaseSnapshot_lifts _ _).bind fun _ => decref_lifts _ _
  · exact .pure _

theorem snapshotInit_lifts (s : Nat) (args : Option Nat) :
    Lifts K (PyLevelDBSnapshot.init s args : C E (Except Exn Unit)) := by
  refine inFrame_lifts ((loadSnapshot_lifts s).bind fun x => (snapshotClose_lifts s x).bind fun _ =>
    (updateSnapshot_lifts s _).bind fun _ => (event_lifts _).bind fun _ => ?_)
  split
  · exact .pure _
  · exact (load_lifts _).bind fun _ => (deref_lifts _).bind fun _ => (dbGetSnapshot_lifts _).bind fun _ =>
      (updateSnapshot_lifts s _).bind fun _ => (incref_lifts _ _).bind fun _ =>
        (addSnapshots_lifts _ _).bind fun _ => .pure _

theorem snapshotDealloc_lifts (s : Nat) : Lifts K (PyLevelDBSnapshot.dealloc s : C E Unit) := by
  refine inFrame_lifts ((loadSnapshot_lifts s).bind fun x => Prog.Lifts.bind ?_ fun _ =>
    (loadSnapshot_lifts s).bind fun _ => (addSnapshots_lifts _ _).bind fun _ =>
      (loadSnapshot_lifts s).bind fun _ => (deref_lifts _).bind fun _ => (decref_lifts _ _).bind fun _ =>
        (updateSnapshot_lifts s _).bind fun _ => (event_lifts _).bind fun _ =>
          modifyRest_lifts fun _ _ => ⟨rfl, rfl, rfl, rfl⟩)
  unfold PyLevelDBSnapshot.releaseHeld
  split
  · exact (event_lifts _).bind fun _ => (load_lifts _).bind fun _ => (deref_lifts _).bind fun _ =>
      (dbReleaseSnapshot_lifts _ _).bind fun _ => event_lifts _
  · exact .pure _

theorem createSnapshot_lifts (D : Nat) (alloc : Bool) :
    Lifts K (PyLevelDB.createSnapshot D alloc : C E (Except Exn Nat)) := by
  refine (load_lifts D).bind fun _ => (deref_lifts _).bind fun _ => (dbGetSnapshot_lifts _).bind fun p =>
    (event_lifts _).bind fun _ => ?_
  split
  · exact (load_lifts D).bind fun _ => (deref_lifts _).bind fun _ =>
      (dbReleaseSnapshot_lifts _ _).bind fun _ => .pure _
  · refine .state_bind fun s t h => ?_
    have hnext : s.snapshots.next = t.snapshots.next := by
      obtain ⟨⟨A, rfl, -⟩, -⟩ := h
      rfl
    rw [hnext]
    refine Prog.Lifts.bind (incref_lifts _ _) (fun _ => ?_) s t h
    exact .bind (modifyRest_lifts fun _ _ => ⟨rfl, rfl, rfl, rfl⟩) fun _ =>
      (addSnapshots_lifts _ _).bind fun _ => (event_lifts _).bind fun _ => .pure _

end PyLeveldb
