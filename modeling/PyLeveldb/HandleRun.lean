import PyLeveldb.Handles
import PyLeveldb.MemStore
import PyLeveldb.Api

/-!
# Counters and references over a run

Every function that makes, uses or ends an iterator or a snapshot keeps the invariant `World.Inv`
(`next_inv`, `rangeIter_inv`, `createSnapshot_inv`, ...), whatever leveldb and the comparators do. So
the counters and the references of a LevelDB object agree with its handles in every state that a run
of such calls reaches (`handles_agree`).
-/

namespace PyLeveldb

variable {E : Env} {w : World E} {F : Fault → Prop}

open PyLevelDBIter (Item NextAllocs)

/-! ## Parts of the functions -/

/-- A comparison by any comparator. It may abort. -/
theorem wp_compare_any (hF : F .aborted) {c : CmpPtr} {a b : Bytes}
    {Q : Int → World E → Unit → Prop}
    (hc : ∀ p, c = .python p → ∃ x, w.comparators.get p = some x)
    (hQ : ∀ z o n, Q z { w with owned := o, calls := n } ()) :
    (c.compare a b).wp (.alone F) Q w () := by
  cases c with
  | bytewise => exact hQ _ w.owned w.calls
  | python p =>
    obtain ⟨x, hx⟩ := hc p rfl
    simp only [CmpPtr.compare, PythonComparatorWrapper.compare, Prog.wp_bind, Prog.wp_event,
      Prog.alone_event, wp_newRef, wp_row, hx, Prog.found_some, Prog.wp_state, Prog.wp_put]
    have hwhen : ∀ (b : Bool) (P : Unit → World E → Unit → Prop) (w : World E),
        (∀ o, P () { w with owned := o } ()) → (Prog.when b newRef).wp (.alone F) P w () := by
      intro b P w h
      cases b
      · exact h w.owned
      · exact h _
    refine hwhen _ _ _ fun o => ?_
    simp only [wp_dropRef, Prog.alone_event]
    cases PythonComparatorWrapper.getSign _ with
    | none => exact hF
    | some z => exact hQ _ _ _

/-- The first position of the leveldb iterator `n`, wherever it is. -/
theorem wp_position_any (hF : F .aborted) {D n d d' : Nat} {r : PyLevelDB} {it : E.Iter}
    {reverse : Bool} {keyFrom keyTo : Option Bytes} {Q : Unit → World E → Unit → Prop}
    (hn : w.ldbIterators.get n = some ⟨d', it⟩) (hd : ∃ x, w.dbs.get d' = some x)
    (hr : w.levelDBs.get D = some r) (hp : w.Parts r d)
    (hQ : ∀ it o c, Q ()
      { w with ldbIterators := w.ldbIterators.set n ⟨d', it⟩, owned := o, calls := c } ()) :
    (PyLevelDB.position D n reverse keyFrom keyTo).wp (.alone F) Q w () := by
  obtain ⟨inst, hd⟩ := hd
  obtain ⟨-, ⟨o, opts, hopt, hopts, hcmp⟩, -, hcmp'⟩ := hp
  have hone : ∀ f, (iterPosition n f).wp (.alone F) Q w () := by
    intro f
    simpa [hn, hd] using hQ (f it) w.owned w.calls
  cases reverse with
  | false => cases keyFrom <;> exact hone _
  | true =>
    cases keyTo with
    | none => exact hone _
    | some key =>
      simp only [PyLevelDB.position, Bool.not_true, Bool.false_eq_true, ↓reduceIte, Prog.wp_bind,
        wp_iterPosition, wp_iterSet, Prog.alone_event, hn, Prog.found_some, hd, wp_iterValid,
        Table.get_set]
      split
      · simpa [hd] using hQ _ w.owned w.calls
      · simp only [Prog.wp_bind, wp_iterKey, Table.get_set, ↓reduceIte, Prog.found_some,
          wp_load_levelDB, hr, wp_deref, hopt, wp_row, hopts]
        refine wp_compare_any hF (fun p hp => hcmp' p (hcmp.trans (congrArg some hp)))
          fun z o c => ?_
        rw [Prog.wp_when]
        refine ⟨fun _ => ?_, fun _ => ?_⟩
        · simpa [hd] using hQ _ o c
        · exact hQ _ o c

/-- `~PythonComparatorWrapper`, if there is one. -/
theorem wp_deleteComparator {c : Option CmpPtr} {Q : Unit → World E → Unit → Prop}
    (hc : ∀ p, c = some (.python p) → ∃ x, w.comparators.get p = some x)
    (hQ : ∀ o, Q ()
      { w with comparators := w.comparators.freeOpt (c.bind CmpPtr.wrapper), owned := o } ()) :
    (deleteComparator c).wp (.alone F) Q w () := by
  match c with
  | none => exact hQ w.owned
  | some .bytewise => exact hQ w.owned
  | some (.python p) =>
    obtain ⟨x, hx⟩ := hc p rfl
    simpa [deleteComparator, PythonComparatorWrapper.delete, Prog.wp_bind, hx, CmpPtr.wrapper]
      using hQ _

/-- `PyLevelDB_dealloc` of an open object. -/
theorem wp_dealloc {D d : Nat} {r : PyLevelDB} {Q : Unit → World E → Unit → Prop}
    (hr : w.levelDBs.get D = some r) (hp : w.Parts r d)
    (hQ : ∀ o, Q () { w.freeDb D r with owned := o } ()) :
    (PyLevelDB.dealloc D).wp (.alone F) Q w () := by
  obtain ⟨⟨hdb, inst, hd⟩, ⟨o, opts, hopt, hopts, hcmp⟩, ⟨k, y, hk, hy⟩, hc⟩ := hp
  simp only [PyLevelDB.dealloc, PyLevelDB.deleteParts, wp_inFrame, Prog.alone_event, Prog.wp_bind,
    wp_begin, wp_load_levelDB, hr, Prog.found_some, hdb, wp_deleteDb_some, hd, wp_deleteOptions,
    hopt, hopts, wp_deleteCache, hk, hy]
  refine wp_deleteComparator hc fun o' => ?_
  simp only [wp_end, Prog.alone_event, wp_update_levelDB, hr, Prog.found_some, wp_py,
    Prog.wp_modify, Table.set_free hr]
  have := hQ o'
  simp only [World.freeDb, hdb, hopt, hk] at this
  exact this

/-- `Py_DECREF` of a reference that is held. -/
theorem wp_decref_any {D d : Nat} {h : Holder} {r : PyLevelDB} {Q : Unit → World E → Unit → Prop}
    (hr : w.levelDBs.get D = some r) (hm : h ∈ r.refs) (hp : w.Parts r d)
    (hQ : ∀ o, Q () { World.dropDb
      { w with levelDBs := w.levelDBs.set D { r with refs := r.refs.erase h } } D
      { r with refs := r.refs.erase h } with owned := o } ()) :
    (PyLevelDB.decref D h).wp (.alone F) Q w () := by
  simp only [PyLevelDB.decref, Prog.wp_bind, wp_py, Prog.alone_event, wp_load_levelDB, hr,
    Prog.found_some, hm, not_true_eq_false, ↓reduceIte, wp_update_levelDB]
  rw [Prog.wp_when]
  refine ⟨fun he => ?_, fun he => ?_⟩
  · have he : r.refs.erase h = [] := by simpa using he
    have hr' : (w.levelDBs.set D { r with refs := r.refs.erase h }).get D =
        some { r with refs := r.refs.erase h } := by simp
    obtain ⟨h1, h2, h3, h4⟩ := hp
    refine wp_dealloc hr' ⟨h1, h2, h3, h4⟩ fun o => ?_
    simpa only [World.dropDb, he, ↓reduceIte] using hQ o
  · have he : r.refs.erase h ≠ [] := by simpa using he
    simpa only [World.dropDb, he, ↓reduceIte] using hQ w.owned

/-! ## Iterators -/

/-- The state without its noise: every change that `World.Inv.frame` allows. -/
theorem World.Inv.owned (h : w.Inv) (o : Int) : World.Inv { w with owned := o } :=
  h.frame (fun _ x hx => ⟨x, hx⟩) (fun _ _ _ _ x _ _ hx => ⟨x, hx⟩) fun _ s hs => ⟨s, hs⟩

theorem clean_inv (h : w.Inv) {i : Nat} {it : PyLevelDBIter} {Q : Unit → World E → Unit → Prop}
    (hi : w.iters.get i = some it)
    (hQ : ∀ w' : World E, w'.Inv → (∃ e, w'.iters.get i = some e ∧ e.Ended) → Q () w' ()) :
    (PyLevelDBIter.clean i).wp (.alone F) Q w () := by
  rcases h.iter i it hi with ⟨h1, h2, h3, h4⟩ | ⟨D, r, d, n, x, h1, h2, h3, h4, h5, h6, h7, h8⟩
  · -- at its end already
    simp only [PyLevelDBIter.clean, wp_inFrame, Prog.alone_event, Prog.wp_bind, wp_load_iter, hi,
      Prog.found_some, h1, h2, h3, h4, PyLevelDB.addIterators, Prog.wp_pure, wp_begin,
      wp_deleteIterator_none, wp_deleteString, wp_end, PyLevelDB.xdecref, wp_update_iter,
      Table.freeOpt_none]
    refine hQ _ (h.setEnded (fun j a ha => ?_) fun D => ?_)
      ⟨_, if_pos rfl, rfl, rfl, rfl, rfl⟩
    · rcases Table.get_set_some ha with ⟨-, rfl⟩ | ⟨-, ha⟩
      · exact .inr ⟨rfl, rfl, rfl, rfl⟩
      · exact .inl ha
    · have := Table.count_set (PyLevelDBIter.on D) w.iters i
        { it with ref := none, db := none, iterator := none, bound := none, includeValue := false }
      simp [hi, h2] at this
      exact this
  · obtain ⟨d', hp⟩ := h.parts D r h3
    obtain ⟨-, inst, hd⟩ := hp.db
    have hdd : d' = d := by
      have := hp.db.1
      rw [h4] at this
      cases this
      rfl
    subst hdd
    have hend := h.endIter hi h2 h3 h5 h7
    have hrow : (w.endIter i D n it r).levelDBs.get D =
        some (r.counted r.nSnapshots (r.nIterators + -1) (r.refs.erase (.iter i))) := by
      simp [World.endIter]
    simp only [PyLevelDBIter.clean, wp_inFrame, Prog.alone_event, Prog.wp_bind, wp_load_iter, hi,
      Prog.found_some, h2, h5, PyLevelDB.addIterators, wp_update_levelDB, h3, wp_begin,
      wp_deleteIterator_some, h6, hd]
    refine wp_deleteString_of h8 ?_
    simp only [wp_end, Prog.alone_event, hi, Prog.found_some, h1, PyLevelDB.xdecref]
    have hr' : (w.levelDBs.set D { r with nIterators := r.nIterators + -1 }).get D =
        some { r with nIterators := r.nIterators + -1 } := by simp
    obtain ⟨p1, p2, p3, p4⟩ := hp
    refine wp_decref_any (d := d') hr' h7 ⟨p1, p2, p3, p4⟩ fun o => ?_
    simp only [Table.set_set, wp_update_iter, World.dropDb_iters, hi, Prog.found_some]
    rw [World.dropDb_setIters]
    exact hQ _ ((hend.dropDb hrow).owned o) ⟨_, by simp; rfl, rfl, rfl, rfl, rfl⟩

/-- Leaving noise in the counted resources, and moving leveldb iterators. -/
theorem World.Inv.noise (h : w.Inv) (e : Nat → Int) (o : Int) (n : Nat) :
    World.Inv { w with exports := e, owned := o, calls := n } :=
  h.frame (fun _ x hx => ⟨x, hx⟩) (fun _ _ _ _ x _ _ hx => ⟨x, hx⟩) fun _ s hs => ⟨s, hs⟩

theorem makeItem_noise {i n : Nat} {it : PyLevelDBIter} {x : LdbIterator E} (allocs : NextAllocs)
    {Q : Except Exn Item → World E → Unit → Prop} (hi : w.iters.get i = some it)
    (hn : it.iterator = some n) (hx : w.ldbIterators.get n = some x)
    (hQ : ∀ res o, Q res { w with owned := o } ()) :
    (PyLevelDBIter.makeItem i allocs).wp (.alone F) Q w () := by
  simp only [PyLevelDBIter.makeItem, Prog.wp_bind, wp_load_iter, hi, Prog.found_some, wp_deref, hn,
    wp_iterKey, hx]
  split
  · exact hQ _ w.owned
  · simp only [Prog.wp_bind, wp_newRef, Prog.alone_event]
    split
    · exact hQ _ _
    · simp only [Prog.wp_bind, wp_deref, Prog.found_some, wp_iterValue, hx]
      split
      · exact hQ _ _
      · simp only [Prog.wp_bind, wp_newRef, Prog.alone_event]
        split
        · exact hQ _ _
        · exact hQ _ _

theorem advance_frame {i n d : Nat} {it : PyLevelDBIter} {x : E.Iter}
    {Q : Unit → World E → Unit → Prop} (hi : w.iters.get i = some it) (hn : it.iterator = some n)
    (hx : w.ldbIterators.get n = some ⟨d, x⟩) (hd : ∃ y, w.dbs.get d = some y)
    (hQ : ∀ x', Q () { w with ldbIterators := w.ldbIterators.set n ⟨d, x'⟩ } ()) :
    (PyLevelDBIter.advance i).wp (.alone F) Q w () := by
  obtain ⟨inst, hd⟩ := hd
  simp only [PyLevelDBIter.advance, Prog.wp_bind, wp_load_iter, hi, Prog.found_some, wp_deref, hn]
  split
  · exact wp_iterMove hx hd (hQ _)
  · exact wp_iterMove hx hd (hQ _)

/-- A call of `next` keeps the invariant. -/
theorem next_inv (hF : F .aborted) (h : w.Inv) {i : Nat} {it : PyLevelDBIter}
    (hi : w.iters.get i = some it) (allocs : NextAllocs) :
    (PyLevelDBIter.next i allocs).wp (.alone F) (fun _ w' _ => w'.Inv) w () := by
  simp only [PyLevelDBIter.next, wp_inFrame, Prog.alone_event, Prog.wp_bind, wp_load_iter, hi,
    Prog.found_some]
  rcases h.iter i it hi with ⟨h1, -⟩ | ⟨D, r, d, n, x, h1, h2, h3, h4, h5, h6, h7, h8⟩
  · simp only [PyLevelDBIter.atEnd, h1, Prog.wp_pure, ↓reduceIte, Prog.wp_bind]
    exact clean_inv h hi fun w' hw' _ => hw'
  · obtain ⟨d', hp⟩ := h.parts D r h3
    have hd : ∃ y, w.dbs.get d = some y := by
      obtain ⟨hdb, hy⟩ := hp.db
      rw [h4] at hdb
      cases hdb
      exact hy
    simp only [PyLevelDBIter.atEnd, h1, Prog.wp_bind, wp_deref, h5, Prog.found_some, wp_iterValid,
      h6, Prog.wp_pure]
    split
    · simp only [Prog.wp_bind]
      exact clean_inv h hi fun w' hw' _ => hw'
    · -- the bound test ends with some answer, and the counted resources changed
      have hbound : ∀ Q : Bool → World E → Unit → Prop,
          (∀ b o c, Q b { w with owned := o, calls := c } ()) →
            (PyLevelDBIter.pastBound i it).wp (.alone F) Q w () := by
        intro Q hQ
        unfold PyLevelDBIter.pastBound
        cases hb : it.bound with
        | none => exact hQ _ w.owned w.calls
        | some b =>
          obtain ⟨s, hs⟩ := h8 b hb
          obtain ⟨-, ⟨o, opts, hopt, hopts, hcmp⟩, -, hc⟩ := hp
          simp only [Prog.wp_bind, wp_loadString, hs, Prog.found_some, wp_deref, h5, wp_iterKey, h6,
            h2, wp_load_levelDB, h3, hopt, wp_row, hopts]
          refine wp_compare_any hF (fun p hp => hc p (hcmp.trans (congrArg some hp)))
            fun z o c => ?_
          simp only [wp_load_iter, hi, Prog.found_some, Prog.wp_pure]
          exact hQ _ o c
      simp only [Prog.wp_bind]
      refine hbound _ fun b o c => ?_
      have hno := h.noise w.exports o c
      split
      · simp only [Prog.wp_bind]
        exact clean_inv hno hi fun w' hw' _ => hw'
      · simp only [Prog.wp_bind]
        refine makeItem_noise allocs hi h5 h6 fun res o' => ?_
        have hno := hno.owned o'
        split
        · exact hno
        · simp only [Prog.wp_bind]
          refine advance_frame hi h5 h6 hd fun x' => ?_
          refine hno.frame (fun _ y hy => ⟨y, hy⟩) (fun _ _ m d' y _ _ hy => ?_) fun _ s hs => ⟨s, hs⟩
          by_cases hm : m = n
          · subst hm
            have : (⟨d, x⟩ : LdbIterator E) = ⟨d', y⟩ := Option.some.inj (h6.symm.trans hy)
            cases this
            exact ⟨x', by simp⟩
          · exact ⟨y, by simpa [hm] using hy⟩

/-- Dropping an iterator object keeps the invariant. -/
theorem iterDealloc_inv (h : w.Inv) {i : Nat} {it : PyLevelDBIter}
    (hi : w.iters.get i = some it) :
    (PyLevelDBIter.dealloc i).wp (.alone F) (fun _ w' _ => w'.Inv) w () := by
  simp only [PyLevelDBIter.dealloc, wp_inFrame, Prog.alone_event, Prog.wp_bind]
  refine clean_inv h hi fun w' hw' hend => ?_
  obtain ⟨e, he, h1, h2, h3, h4⟩ := hend
  simp only [wp_py, Prog.alone_event, Prog.wp_modify]
  refine hw'.setEnded (fun j a ha => .inl (Table.get_free_some ha).2) fun D => ?_
  have := Table.count_free (PyLevelDBIter.on D) w'.iters i
  simpa [he, h2] using this

/-! ## `RangeIter` -/

theorem parseOptional_noise {a : Option Arg} {Q : Bool → World E → Unit → Prop}
    (hQ : ∀ b e, Q b { w with exports := e } ()) :
    (PyLevelDB.parseOptional a).wp (.alone F) Q w () := by
  cases a with
  | none => exact hQ true w.exports
  | some a =>
    simp only [PyLevelDB.parseOptional, wp_parse, Prog.alone_event]
    split
    · exact hQ true _
    · exact hQ false w.exports

theorem releaseOptional_noise {a : Option Arg} {Q : Unit → World E → Unit → Prop}
    (hQ : ∀ e, Q () { w with exports := e } ()) :
    (PyLevelDB.releaseOptional a).wp (.alone F) Q w () := by
  cases a with
  | none => exact hQ w.exports
  | some a => exact hQ _

/-- The bound of a new iterator object: no bound, or a string that nothing has yet. -/
theorem newBound_any {b : Option Bytes} {Q : Option Nat → World E → Unit → Prop}
    (hQ : ∀ bound T, (∀ p, bound = some p → (∃ s, T.get p = some s) ∧ w.strings.get p = none) →
      (∀ p s, w.strings.get p = some s → T.get p = some s) →
        Q bound { w with strings := T } ()) :
    (PyLevelDB.newBound b).wp (.alone F) Q w () := by
  cases b with
  | none => exact hQ none w.strings (fun _ h => by cases h) fun _ _ h => h
  | some b =>
    refine hQ _ _ (fun p hp => ?_) fun p s hp => ?_
    · cases hp
      exact ⟨⟨b, by simp⟩, Table.get_next _⟩
    · simp [Table.ne_next hp, hp]

/-- `NewIterator`, on an instance and a snapshot that are there. -/
theorem newIterator_any {d : Nat} {snapshot : Option Nat} {snap : Option E.Snap}
    {verify fill : Bool} {inst : LdbInstance E} {Q : Option Nat → World E → Unit → Prop}
    (hd : w.dbs.get d = some inst) (hs : w.SnapshotAt d snapshot snap)
    (hnone : ∀ db, Q none { w with dbs := w.dbs.set d { inst with db := db } } ())
    (hsome : ∀ db it, Q (some w.ldbIterators.next)
      { w with
        dbs := w.dbs.set d { inst with db := db }
        ldbIterators := w.ldbIterators.push ⟨d, it⟩ } ()) :
    (dbNewIterator d verify fill snapshot).wp (.alone F) Q w () := by
  simp only [dbNewIterator, Prog.wp_bind]
  refine wp_resolve hs ?_
  simp only [wp_callDb, Prog.alone_event, hd, Prog.found_some]
  cases h : (E.newIterator ⟨verify, fill, snap⟩ inst.db).1 with
  | none => exact hnone _
  | some it => exact hsome _ it

/-- A new iterator object that is at its end. -/
theorem newEnded_inv (h : w.Inv) (alloc : Bool) :
    (PyLevelDBIter.new none none none none false false alloc).wp (.alone F)
      (fun _ w' _ => w'.Inv) w () := by
  simp only [PyLevelDBIter.new, Prog.wp_bind, wp_py, Prog.alone_event]
  split
  · simpa [Prog.wp_bind] using h
  · simp only [Prog.wp_bind, Prog.wp_state, PyLevelDB.xincref, Prog.wp_pure, Prog.wp_modify,
      PyLevelDB.addIterators, wp_py, Prog.alone_event]
    refine h.setEnded (fun j a ha => ?_) fun D => ?_
    · rcases Table.get_push_some ha with ⟨-, rfl⟩ | ⟨-, ha⟩
      · exact .inr ⟨rfl, rfl, rfl, rfl⟩
      · exact .inl ha
    · simp [Table.count_push]

/-- A new iterator object, with a leveldb iterator and a bound that no other object has. -/
theorem new_inv (h : w.Inv) {D n d : Nat} {bound : Option Nat} {includeValue reverse : Bool}
    {r : PyLevelDB} {x : E.Iter} (hr : w.levelDBs.get D = some r) (hd : r.db = some d)
    (hx : w.ldbIterators.get n = some ⟨d, x⟩)
    (hb : ∀ b, bound = some b → ∃ s, w.strings.get b = some s)
    (hfresh : ∀ j a, w.iters.get j = some a → Apart a.iterator (some n) ∧ Apart a.bound bound)
    (alloc : Bool) :
    (PyLevelDBIter.new (some D) (some D) (some n) bound includeValue reverse alloc).wp (.alone F)
      (fun _ w' _ => w'.Inv) w () := by
  simp only [PyLevelDBIter.new, Prog.wp_bind, wp_py, Prog.alone_event]
  split
  · obtain ⟨d', hp⟩ := h.parts D r hr
    obtain ⟨hdb, inst, hinst⟩ := hp.db
    obtain rfl : d' = d := Option.some.inj (hdb.symm.trans hd)
    simp only [Prog.wp_bind, wp_begin, Prog.alone_event, wp_deleteIterator_some, hx, hinst,
      Prog.found_some, wp_end, Prog.wp_pure]
    refine h.frame (fun _ y hy => ⟨y, hy⟩) (fun i it m e y hi hm hy => ⟨y, ?_⟩)
      fun _ s hs => ⟨s, hs⟩
    have hmn : m ≠ n := by
      rintro rfl
      exact (hfresh i it hi).1 m hm rfl
    simpa [hmn] using hy
  · simp only [Prog.wp_bind, Prog.wp_state, PyLevelDB.xincref, PyLevelDB.incref, wp_py,
      Prog.alone_event, wp_update_levelDB, hr, Prog.found_some, Prog.wp_modify,
      PyLevelDB.addIterators, Table.get_set, ↓reduceIte, Table.set_set, Prog.wp_pure]
    exact h.addIter (Table.get_next _) hr hd hx hb hfresh

/-- `RangeIter` keeps the invariant. -/
theorem rangeIter_inv (hF : F .aborted) (h : w.Inv) {D d : Nat} {r : PyLevelDB}
    {snapshot : Option Nat} {snap : Option E.Snap} (hr : w.levelDBs.get D = some r)
    (hd : r.db = some d) (hs : w.SnapshotAt d snapshot snap) (args : RangeArgs) (alloc : Bool) :
    (PyLevelDB.rangeIter_ (some D) snapshot args alloc).wp (.alone F)
      (fun _ w' _ => w'.Inv) w () := by
  obtain ⟨d', hp⟩ := h.parts D r hr
  obtain ⟨hdb, inst, hinst⟩ := hp.db
  obtain rfl : d' = d := Option.some.inj (hdb.symm.trans hd)
  simp only [PyLevelDB.rangeIter_, Prog.wp_bind, wp_parse, Prog.alone_event]
  have hnoise : ∀ e, World.Inv { w with exports := e } := fun e => h.noise e w.owned w.calls
  split
  case isFalse => exact h
  simp only [Bool.not_true, Bool.false_eq_true, ↓reduceIte, Prog.wp_bind]
  refine parseOptional_noise fun b e => ?_
  cases b with
  | false => exact hnoise e
  | true =>
  simp only [Bool.not_true, Bool.false_eq_true, ↓reduceIte, Prog.wp_bind]
  refine parseOptional_noise fun b e => ?_
  cases b with
  | false => exact hnoise e
  | true =>
  simp only [Bool.not_true, Bool.false_eq_true, ↓reduceIte, Prog.wp_bind]
  refine releaseOptional_noise fun e => ?_
  refine releaseOptional_noise fun e => ?_
  simp only [wp_begin, Prog.alone_event, wp_deref, Prog.found_some, wp_load_levelDB, hr, hd]
  have hset : ∀ db d x, w.dbs.get d = some x →
      ∃ x', (w.dbs.set d' { inst with db := db }).get d = some x' := by
    intro db d x hx
    by_cases e : d = d'
    · exact ⟨{ inst with db := db }, by simp [e]⟩
    · exact ⟨x, by simp [e, hx]⟩
  refine newIterator_any hinst hs (fun db => ?_) fun db it => ?_
  · simp only [PyLevelDB.positionNew, Prog.wp_pure, wp_end, Prog.alone_event, wp_raise]
    exact h.frame (hset db) (fun _ _ _ _ x _ _ hx => ⟨x, hx⟩) fun _ s hs => ⟨s, hs⟩
  · have hnew : (w.ldbIterators.push ⟨d', it⟩).get w.ldbIterators.next = some ⟨d', it⟩ := by simp
    obtain ⟨-, ⟨o, opts, hopt, hopts, hcmp⟩, hcache, hc⟩ := hp
    simp only [PyLevelDB.positionNew]
    refine wp_position_any hF hnew ⟨{ inst with db := db }, by simp⟩ hr
      ⟨⟨hd, { inst with db := db }, by simp⟩, ⟨o, opts, hopt, hopts, hcmp⟩, hcache, hc⟩
      fun it o c => ?_
    simp only [wp_end, Prog.wp_bind, Prog.alone_event, wp_iterValid, Table.push_set,
      Table.get_push, ↓reduceIte, Prog.found_some]
    split
    · simp only [Prog.wp_bind, wp_begin, Prog.alone_event, wp_deleteIterator_some, Table.get_push,
        Table.get_set, ↓reduceIte, Prog.found_some, wp_end]
      refine newEnded_inv (h.frame (hset db) (fun _ _ m e x _ _ hx => ⟨x, ?_⟩) fun _ s hs => ⟨s, hs⟩)
        alloc
      simp [Table.ne_next hx, hx]
    · simp only [Prog.wp_bind]
      refine newBound_any fun bound T hb hs => ?_
      refine new_inv (x := it) (h.frame (hset db) (fun _ _ m e x _ _ hx => ⟨x, ?_⟩)
        fun p s hp => ⟨s, hs p s hp⟩) hr hd (by simp) (fun p hp => (hb p hp).1) (fun j a ha => ?_)
        alloc
      · simp [Table.ne_next hx, hx]
      · -- no object has the new leveldb iterator or the new string
        rcases h.iter j a ha with ⟨-, -, h1, h2⟩ | ⟨D', r', d'', m, y, -, -, -, -, h1, h2, -, h3⟩
        · rw [h1, h2]
          exact ⟨apart_none_left _, apart_none_left _⟩
        · refine ⟨fun q hq hq' => ?_, fun q hq hq' => ?_⟩
          · cases hq'
            cases h1.symm.trans hq
            exact Table.ne_next h2 rfl
          · obtain ⟨s, hs⟩ := h3 q hq
            rw [(hb q hq').2] at hs
            cases hs

/-! ## Snapshots -/

section Snapshots

variable {D d : Nat} {r : PyLevelDB}

/-- An object that is alive is open. -/
theorem World.Inv.opened (h : w.Inv) (hr : w.levelDBs.get D = some r) :
    ∃ d inst, r.db = some d ∧ w.dbs.get d = some inst ∧ w.Parts r d := by
  obtain ⟨d, hp⟩ := h.parts D r hr
  obtain ⟨hdb, inst, hd⟩ := hp.db
  exact ⟨d, inst, hdb, hd, hp⟩

/-- The database of one instance changes. -/
theorem World.Inv.setDb (h : w.Inv) (inst : LdbInstance E) :
    World.Inv { w with dbs := w.dbs.set d inst } := by
  refine h.frame (fun e x hx => ?_) (fun _ _ _ _ x _ _ hx => ⟨x, hx⟩) fun _ s hs => ⟨s, hs⟩
  by_cases he : e = d
  · exact ⟨inst, by simp [he]⟩
  · exact ⟨x, by simp [he, hx]⟩

/-- `CreateSnapshot` keeps the invariant. -/
theorem createSnapshot_inv (h : w.Inv) (hr : w.levelDBs.get D = some r) (alloc : Bool) :
    (PyLevelDB.createSnapshot D alloc).wp (.alone F) (fun _ w' _ => w'.Inv) w () := by
  obtain ⟨d, inst, hdb, hd, -⟩ := h.opened hr
  simp only [PyLevelDB.createSnapshot, Prog.wp_bind, wp_load_levelDB, hr, Prog.found_some, wp_deref,
    hdb, wp_dbGetSnapshot, wp_callDb, hd, Prog.alone_event, PyLevelDBSnapshot.make, wp_py]
  split
  · simp only [Prog.wp_bind, wp_load_levelDB, hr, Prog.found_some, wp_deref, hdb,
      wp_dbReleaseSnapshot, Table.get_push, ↓reduceIte, wp_callDb, Table.get_set,
      Prog.alone_event, Table.set_set, Prog.wp_pure]
    exact (h.setDb _).released _
  · simp only [Prog.wp_bind, Prog.wp_state, PyLevelDB.incref, wp_py, Prog.alone_event,
      wp_update_levelDB, hr, Prog.found_some, Prog.wp_modify, PyLevelDB.addSnapshots,
      Table.get_set, ↓reduceIte, Table.set_set, Prog.wp_pure]
    exact (h.setDb _).addSnap (.inl (Table.get_next _)) hr hdb

/-- A new snapshot object without a snapshot keeps the invariant. -/
theorem snapshotNew_inv (h : w.Inv) (alloc : Bool) :
    (PyLevelDBSnapshot.new alloc).wp (.alone F) (fun _ w' _ => w'.Inv) w () := by
  simp only [PyLevelDBSnapshot.new]
  split
  · exact h
  · simp only [Prog.wp_bind, wp_py, Prog.alone_event, Prog.wp_state, Prog.wp_put, Prog.wp_pure]
    refine h.setEmpty (fun j a ha => ?_) fun D => ?_
    · rcases Table.get_push_some ha with ⟨-, rfl⟩ | ⟨-, ha⟩
      · exact .inr rfl
      · exact .inl ha
    · simp [Table.count_push]

/-- What is left when the snapshot object `s` has given up its snapshot: an empty snapshot object,
and the LevelDB objects that Python code holds. -/
def World.GaveUp (w w' : World E) (s : Nat) : Prop :=
  w'.Inv ∧ w'.snapshots.get s = some ⟨none, none⟩ ∧
    ∀ D r, w.levelDBs.get D = some r → .env ∈ r.refs → ∃ r', w'.levelDBs.get D = some r'

theorem World.Inv.gaveUp (h : w.Inv) {s p : Nat} {y : E.Snap} (inst : LdbInstance E)
    (hs : w.snapshots.get s = some ⟨some D, some p⟩) (hr : w.levelDBs.get D = some r)
    (hdb : r.db = some d) (hy : w.ldbSnapshots.get p = some ⟨d, y⟩) (hm : .snap s ∈ r.refs)
    (o : Int) :
    w.GaveUp { (World.endSnap { w with dbs := w.dbs.set d inst } s D p r).dropDb D
      (r.counted (r.nSnapshots + -1) r.nIterators (r.refs.erase (.snap s))) with owned := o } s := by
  refine ⟨(((h.setDb inst).endSnap hs hr hdb hy hm).dropDb (by simp [World.endSnap])).owned o,
    by simp [World.endSnap], fun D' r' hr' he => ?_⟩
  by_cases hD : D' = D
  · subst hD
    cases hr.symm.trans hr'
    have hne : r.refs.erase (.snap s) ≠ [] :=
      List.ne_nil_of_mem ((List.mem_erase_of_ne (by simp)).mpr he)
    exact ⟨r.counted (r.nSnapshots + -1) r.nIterators (r.refs.erase (.snap s)), by
      simp [World.dropDb, PyLevelDB.counted, hne, World.endSnap]⟩
  · refine ⟨r', ?_⟩
    unfold World.dropDb
    split <;> simp [World.freeDb, World.endSnap, hD, hr']

/-- The first part of `Snapshot.__init__`, and the fields cleared. -/
theorem snapshotClose_inv (h : w.Inv) {s : Nat} {x : PyLevelDBSnapshot}
    {Q : Unit → World E → Unit → Prop} (hs : w.snapshots.get s = some x)
    (hQ : ∀ w', w.GaveUp w' s → Q () w' ()) :
    (PyLevelDBSnapshot.close s x).wp (.alone F)
      (fun _ w c => (PyLevelDBSnapshot.update s fun _ => ⟨none, none⟩).wp (.alone F) Q w c) w () := by
  rcases h.snap s x hs with rfl | ⟨D, p, r, d, y, rfl, hr, hdb, hy, hm⟩
  · simp only [PyLevelDBSnapshot.close, Prog.wp_pure, wp_update_snapshot, hs, Prog.found_some]
    refine hQ _ ⟨h.setEmpty (fun j a ha => ?_) fun D => ?_, by simp, fun D r hr _ => ⟨r, hr⟩⟩
    · rcases Table.get_set_some ha with ⟨-, rfl⟩ | ⟨-, ha⟩
      · exact .inr rfl
      · exact .inl ha
    · have := Table.count_set (PyLevelDBSnapshot.on D) w.snapshots s ⟨none, none⟩
      simpa [hs] using this
  · obtain ⟨d', inst, hdb', hd, hp⟩ := h.opened hr
    obtain rfl : d' = d := Option.some.inj (hdb'.symm.trans hdb)
    simp only [PyLevelDBSnapshot.close, Prog.wp_bind, PyLevelDB.addSnapshots, wp_update_levelDB, hr,
      Prog.found_some, wp_load_levelDB, Table.get_set, ↓reduceIte, wp_deref_of hdb,
      wp_dbReleaseSnapshot, hy, wp_callDb, hd, Prog.alone_event]
    obtain ⟨h1, h2, h3, h4⟩ := hp
    have hr' : (w.levelDBs.set D { r with nSnapshots := r.nSnapshots + -1 }).get D =
        some { r with nSnapshots := r.nSnapshots + -1 } := by simp
    have hp' : World.Parts { w with
        levelDBs := w.levelDBs.set D { r with nSnapshots := r.nSnapshots + -1 }
        dbs := w.dbs.set d' { inst with db := E.releaseSnapshot y inst.db }
        ldbSnapshots := w.ldbSnapshots.free p } { r with nSnapshots := r.nSnapshots + -1 } d' :=
      ⟨⟨hdb, { inst with db := E.releaseSnapshot y inst.db }, by simp⟩, h2, h3, h4⟩
    refine wp_decref_any hr' hm hp' fun o => ?_
    simp only [Table.set_set, wp_update_snapshot, World.dropDb_snapshots, hs, Prog.found_some]
    rw [World.dropDb_setSnapshots]
    exact hQ _ (h.gaveUp { inst with db := E.releaseSnapshot y inst.db } hs hr hdb hy hm o)

theorem World.Inv.freeEmpty (h : w.Inv) {s : Nat} (hs : w.snapshots.get s = some ⟨none, none⟩) :
    World.Inv { w with snapshots := w.snapshots.free s } := by
  refine h.setEmpty (fun j a ha => .inl (Table.get_free_some ha).2) fun D => ?_
  have := Table.count_free (PyLevelDBSnapshot.on D) w.snapshots s
  simpa [hs] using this

/-- `Snapshot.__init__` keeps the invariant. A LevelDB object given to it is one that Python code
holds. -/
theorem snapshotInit_inv (h : w.Inv) {s : Nat} {x : PyLevelDBSnapshot} {args : Option Nat}
    (hs : w.snapshots.get s = some x)
    (ha : ∀ D, args = some D → ∃ r, w.levelDBs.get D = some r ∧ .env ∈ r.refs) :
    (PyLevelDBSnapshot.init s args).wp (.alone F) (fun _ w' _ => w'.Inv) w () := by
  simp only [PyLevelDBSnapshot.init, wp_inFrame, Prog.alone_event, Prog.wp_bind, wp_load_snapshot,
    hs, Prog.found_some]
  refine snapshotClose_inv h hs fun w' hw' => ?_
  obtain ⟨hinv, hs', hkeep⟩ := hw'
  simp only [wp_py, Prog.alone_event]
  cases args with
  | none => exact hinv
  | some D =>
    obtain ⟨r, hr, he⟩ := ha D rfl
    obtain ⟨r', hr'⟩ := hkeep D r hr he
    obtain ⟨d, inst, hdb, hd, -⟩ := hinv.opened hr'
    simp only [Prog.wp_bind, wp_load_levelDB, hr', Prog.found_some, wp_deref_of hdb,
      wp_dbGetSnapshot, wp_callDb, hd, Prog.alone_event, wp_update_snapshot, hs',
      PyLevelDB.incref, wp_py, wp_update_levelDB, PyLevelDB.addSnapshots, Table.get_set, ↓reduceIte,
      Table.set_set, Prog.wp_pure]
    exact (hinv.setDb _).addSnap (.inr hs') hr' hdb

/-- Dropping a snapshot object that has a snapshot keeps the invariant. -/
theorem snapshotDealloc_inv (h : w.Inv) {s : Nat} {x : PyLevelDBSnapshot}
    (hs : w.snapshots.get s = some x) (hx : x.db ≠ none) :
    (PyLevelDBSnapshot.dealloc s).wp (.alone F) (fun _ w' _ => w'.Inv) w () := by
  rcases h.snap s x hs with rfl | ⟨D, p, r, d, y, rfl, hr, hdb, hy, hm⟩
  · exact absurd rfl hx
  · obtain ⟨d', inst, hdb', hd, hp⟩ := h.opened hr
    obtain rfl : d' = d := Option.some.inj (hdb'.symm.trans hdb)
    simp only [PyLevelDBSnapshot.dealloc, wp_inFrame, Prog.alone_event, Prog.wp_bind,
      wp_load_snapshot, hs, Prog.found_some, PyLevelDBSnapshot.releaseHeld, wp_begin,
      wp_load_levelDB, hr, wp_deref_of hdb, wp_dbReleaseSnapshot, hy, ↓reduceIte, wp_callDb, hd,
      wp_end, PyLevelDB.addSnapshots, wp_update_levelDB, wp_deref_some]
    obtain ⟨h1, h2, h3, h4⟩ := hp
    have hr' : (w.levelDBs.set D { r with nSnapshots := r.nSnapshots + -1 }).get D =
        some { r with nSnapshots := r.nSnapshots + -1 } := by simp
    have hp' : World.Parts { w with
        levelDBs := w.levelDBs.set D { r with nSnapshots := r.nSnapshots + -1 }
        dbs := w.dbs.set d' { inst with db := E.releaseSnapshot y inst.db }
        ldbSnapshots := w.ldbSnapshots.free p } { r with nSnapshots := r.nSnapshots + -1 } d' :=
      ⟨⟨hdb, { inst with db := E.releaseSnapshot y inst.db }, by simp⟩, h2, h3, h4⟩
    refine wp_decref_any hr' hm hp' fun o => ?_
    simp only [Table.set_set, wp_update_snapshot, World.dropDb_snapshots, hs, Prog.found_some,
      wp_py, Prog.alone_event, Prog.wp_modify]
    rw [World.dropDb_setSnapshots]
    obtain ⟨hinv, hs', -⟩ :=
      h.gaveUp { inst with db := E.releaseSnapshot y inst.db } hs hr hdb hy hm o
    have hfree := hinv.freeEmpty hs'
    simp only [World.dropDb_snapshots] at hfree
    rw [World.dropDb_setSnapshots] at hfree
    exact hfree

/-- Python code drops its reference to a LevelDB object. -/
theorem dropDb_inv (h : w.Inv) (hr : w.levelDBs.get D = some r) (he : .env ∈ r.refs) :
    (PyLevelDB.decref D .env).wp (.alone F) (fun _ w' _ => w'.Inv) w () := by
  obtain ⟨d, inst, hdb, hd, hp⟩ := h.opened hr
  refine wp_decref_any hr he hp fun o => ?_
  have hi := countP_erase Holder.isIter he
  have hs := countP_erase Holder.isSnap he
  refine ((h.setRefs (r.refs.erase .env) hr (fun i hm => ?_) (fun s hm => ?_) ?_ ?_).dropDb
    (by simp; rfl)).owned o
  · exact (List.mem_erase_of_ne (by simp)).mpr hm
  · exact (List.mem_erase_of_ne (by simp)).mpr hm
  · simpa [Holder.isIter] using hi
  · simpa [Holder.isSnap] using hs

end Snapshots

/-! ## Runs -/

/-- Python code holds a reference to the LevelDB object `D`. -/
def World.HeldDb (w : World E) (D : Nat) : Prop := ∃ r, w.levelDBs.get D = some r ∧ .env ∈ r.refs

/-- The snapshot object `s` is there, and has a snapshot. -/
def World.HeldSnapshot (w : World E) (s : Nat) : Prop :=
  ∃ x, w.snapshots.get s = some x ∧ x.db ≠ none

/-- The calls that make, use or end an iterator or a snapshot, and the drop of a reference to a
LevelDB object: the object that the call is made on, and one given to it, are there. -/
def ApiOp.onHandles (op : ApiOp E) (w : World E) : Prop :=
  match op with
  | rangeIter D _ _ | createSnapshot D _ | dropDb D => w.HeldDb D
  | snapshotRangeIter s _ _ | dropSnapshot s => w.HeldSnapshot s
  | next i _ | dropIter i => ∃ it, w.iters.get i = some it
  | newSnapshot _ => True
  | initSnapshot s args => (∃ x, w.snapshots.get s = some x) ∧ ∀ D, args = some D → w.HeldDb D
  | _ => False

/-- Every call keeps the invariant. It ends, or aborts when a comparator fails. -/
theorem onHandles_preserves : (apiCalls (E := E) ApiOp.onHandles).Preserves (· = .aborted) World.Inv := by
  intro op w h ha
  simp only [apiCalls] at ha ⊢
  cases op with
  | rangeIter D args alloc =>
    obtain ⟨r, hr, -⟩ := ha
    obtain ⟨d, inst, hdb, -⟩ := h.opened hr
    simp only [ApiOp.prog, Prog.wp_map]
    exact rangeIter_inv (F := (· = .aborted)) rfl h hr hdb (World.snapshotAt_none w d) args alloc
  | snapshotRangeIter s args alloc =>
    obtain ⟨x, hx, hne⟩ := ha
    rcases h.snap s x hx with rfl | ⟨D, p, r, d, y, rfl, hr, hdb, hy, -⟩
    · exact absurd rfl hne
    · simp only [ApiOp.prog, Prog.wp_map, PyLevelDBSnapshot.rangeIter, Prog.wp_bind,
        wp_load_snapshot, hx, Prog.found_some]
      have hat : w.SnapshotAt d (some p) (some y) := by simp [World.SnapshotAt, hy]
      exact rangeIter_inv (F := (· = .aborted)) rfl h hr hdb hat args alloc
  | next i allocs =>
    obtain ⟨it, hi⟩ := ha
    simp only [ApiOp.prog, Prog.wp_map]
    exact next_inv (F := (· = .aborted)) rfl h hi allocs
  | dropIter i =>
    obtain ⟨it, hi⟩ := ha
    simp only [ApiOp.prog, Prog.wp_map]
    exact iterDealloc_inv h hi
  | createSnapshot D alloc =>
    obtain ⟨r, hr, -⟩ := ha
    simp only [ApiOp.prog, Prog.wp_map]
    exact createSnapshot_inv h hr alloc
  | newSnapshot alloc =>
    simp only [ApiOp.prog, Prog.wp_map]
    exact snapshotNew_inv h alloc
  | initSnapshot s args =>
    obtain ⟨⟨x, hx⟩, hargs⟩ := ha
    simp only [ApiOp.prog, Prog.wp_map]
    exact snapshotInit_inv h hx hargs
  | dropSnapshot s =>
    obtain ⟨x, hx, hne⟩ := ha
    simp only [ApiOp.prog, Prog.wp_map]
    exact snapshotDealloc_inv h hx hne
  | dropDb D =>
    obtain ⟨r, hr, he⟩ := ha
    simp only [ApiOp.prog, Prog.wp_map]
    exact dropDb_inv h hr he
  | _ => exact ha.elim

/-- Open LevelDB objects, which Python code holds, and no handle. -/
structure World.Start (w : World E) : Prop where
  parts : ∀ D r, w.levelDBs.get D = some r → ∃ d, w.Parts r d
  apart : ∀ D D' r r', w.levelDBs.get D = some r → w.levelDBs.get D' = some r' → D ≠ D' → r.Apart r'
  counts : ∀ D r, w.levelDBs.get D = some r → r.nIterators = 0 ∧ r.nSnapshots = 0
  refs : ∀ D r, w.levelDBs.get D = some r → ∀ h ∈ r.refs, h = .env
  iters : ∀ i, w.iters.get i = none
  snaps : ∀ s, w.snapshots.get s = none
  ldbSnaps : ∀ p, w.ldbSnapshots.get p = none

theorem World.Start.inv (h : w.Start) : w.Inv where
  parts := h.parts
  apart := h.apart
  iter i it hi := by
    rw [h.iters i] at hi
    cases hi
  iterApart i j a b hi hj := by
    rw [h.iters i] at hi
    cases hi
  snap s x hs := by
    rw [h.snaps s] at hs
    cases hs
  snapApart s t a b hs ht := by
    rw [h.snaps s] at hs
    cases hs
  counts D r hr := by
    obtain ⟨hni, hns⟩ := h.counts D r hr
    have hrefs : ∀ p : Holder → Bool, p .env = false → r.refs.countP p = 0 := by
      intro p hp
      rw [List.countP_eq_zero]
      intro a ha
      rw [h.refs D r hr a ha, hp]
      exact Bool.false_ne_true
    refine ⟨?_, ?_, fun d _ => ?_, ?_, ?_⟩
    · rw [hni, Table.count_of_none _ h.iters]
      rfl
    · rw [hns, Table.count_of_none _ h.snaps]
      rfl
    · rw [hns, Table.count_of_none _ h.ldbSnaps]
      rfl
    · rw [hni, hrefs _ rfl]
      rfl
    · rw [hns, hrefs _ rfl]
      rfl

/-- The references that the binding holds. -/
def Holder.isHandle (h : Holder) : Bool := h.isIter || h.isSnap

/-- The counters and the references of the LevelDB object `D` agree with the handles. -/
structure World.Agrees (w : World E) (D : Nat) (r : PyLevelDB) : Prop where
  iters : r.nIterators = w.iters.count (PyLevelDBIter.on D)
  snaps : r.nSnapshots = w.snapshots.count (PyLevelDBSnapshot.on D)
  /-- The leveldb snapshots of its instance that are not released. -/
  ldbSnaps : ∃ d, r.db = some d ∧ r.nSnapshots = w.ldbSnapshots.count (LdbSnapshot.on d)
  refs : r.refs.countP Holder.isHandle = r.nIterators + r.nSnapshots

theorem World.Inv.agrees (h : w.Inv) {D : Nat} {r : PyLevelDB} (hr : w.levelDBs.get D = some r) :
    w.Agrees D r := by
  obtain ⟨d, inst, hdb, -⟩ := h.opened hr
  obtain ⟨h1, h2, h3, h4, h5⟩ := h.counts D r hr
  refine ⟨h1, h2, ⟨d, hdb, h3 d hdb⟩, ?_⟩
  have hsum : ∀ l : List Holder, l.countP Holder.isHandle =
      l.countP Holder.isIter + l.countP Holder.isSnap := by
    intro l
    induction l with
    | nil => rfl
    | cons a l ih =>
      simp only [List.countP_cons, ih, Holder.isHandle]
      cases a <;> simp [Holder.isIter, Holder.isSnap] <;> omega
  rw [hsum, h4, h5, Int.natCast_add]

/-- The LevelDB object of a handle is alive. -/
theorem World.Inv.alive (h : w.Inv) {D : Nat} (hD : w.levelDBs.get D = none) :
    w.iters.count (PyLevelDBIter.on D) = 0 ∧ w.snapshots.count (PyLevelDBSnapshot.on D) = 0 := by
  refine ⟨Table.count_eq_zero fun i it hi => ?_, Table.count_eq_zero fun s x hs => ?_⟩
  · rw [PyLevelDBIter.on_eq, decide_eq_false_iff_not]
    intro hit
    rcases h.iter i it hi with ⟨-, hnone, -⟩ | ⟨D', r, d, n, x, -, hD', hr, -⟩
    · rw [hnone] at hit
      cases hit
    · rw [hD'] at hit
      cases hit
      rw [hD] at hr
      cases hr
  · rw [PyLevelDBSnapshot.on_eq, decide_eq_false_iff_not]
    intro hx
    rcases h.snap s x hs with rfl | ⟨D', p, r, d, y, rfl, hr, -⟩
    · cases hx
    · cases hx
      rw [hD] at hr
      cases hr

/-- **Counters and references agree with the handles.** In every state that a run of calls on open
LevelDB objects reaches: the counters and references of every LevelDB object agree with its handles,
an object that is gone has none, and every further call ends, or aborts in a comparator. -/
theorem handles_agree {w₀ : World E} {h : List (ApiOp E × Answer)} (hstart : w₀.Start)
    (hrun : (apiCalls ApiOp.onHandles).Run w₀ h w) :
    (∀ D r, w.levelDBs.get D = some r → w.Agrees D r) ∧
      (∀ D, w.levelDBs.get D = none → w.iters.count (PyLevelDBIter.on D) = 0 ∧
        w.snapshots.count (PyLevelDBSnapshot.on D) = 0) ∧
      ∀ op : ApiOp E, op.onHandles w →
        (∃ a w', op.prog.run w = .ok (a, w')) ∨ op.prog.run w = .error .aborted := by
  have hinv : w.Inv := hrun.inv onHandles_preserves hstart.inv
  refine ⟨fun D r hr => hinv.agrees hr, fun D hD => hinv.alive hD, fun op ha => ?_⟩
  rcases hrun.safe onHandles_preserves hstart.inv ha with hok | ⟨e, he, rfl⟩
  · exact .inl hok
  · exact .inr he

theorem single_start (db : E.Db) : (World.single db .bytewise).Start := by
  have hget : ∀ D r, (World.single db .bytewise).levelDBs.get D = some r →
      D = 0 ∧ r = ⟨some 0, some 0, some 0, some .bytewise, 0, 0, [.env]⟩ := by
    intro D r hr
    rcases Table.get_push_some hr with ⟨rfl, rfl⟩ | ⟨-, hr⟩
    · exact ⟨rfl, rfl⟩
    · cases hr
  refine ⟨fun D r hr => ?_, fun D D' r r' hr hr' hne => ?_, fun D r hr => ?_, fun D r hr => ?_,
    fun _ => rfl, fun _ => rfl, fun _ => rfl⟩
  · obtain ⟨rfl, rfl⟩ := hget D r hr
    exact ⟨0, ⟨rfl, _, rfl⟩, ⟨0, _, rfl, rfl, rfl⟩, ⟨0, _, rfl, rfl⟩, fun p hp => by cases hp⟩
  · exact absurd ((hget D r hr).1.trans (hget D' r' hr').1.symm) hne
  · obtain ⟨rfl, rfl⟩ := hget D r hr
    exact ⟨rfl, rfl⟩
  · obtain ⟨rfl, rfl⟩ := hget D r hr
    intro h hh
    simpa using hh

/-- A scan that is over and a snapshot. -/
theorem handles_agree_sample : ∃ w : World (memStore compareBytes fun _ => false),
    (apiCalls ApiOp.onHandles).Run (World.single [] .bytewise)
      [(.rangeIter 0 {} true, .object 0), (.next 0 {}, .item none),
        (.createSnapshot 0 true, .object 0)] w ∧
    (∀ D r, w.levelDBs.get D = some r → w.Agrees D r) ∧
      (∀ D, w.levelDBs.get D = none → w.iters.count (PyLevelDBIter.on D) = 0 ∧
        w.snapshots.count (PyLevelDBSnapshot.on D) = 0) ∧
      ∀ op : ApiOp _, op.onHandles w →
        (∃ a w', op.prog.run w = .ok (a, w')) ∨ op.prog.run w = .error .aborted := by
  let E := memStore compareBytes fun _ => false
  let K : Calls (World E) Fault Ev (ApiOp E) Answer := apiCalls ApiOp.onHandles
  let w₀ : World E := World.single [] .bytewise
  have held : ∀ w : World E, w.levelDBs.get 0 =
      some ⟨some 0, some 0, some 0, some .bytewise, 0, 0, [.env]⟩ → w.HeldDb 0 :=
    fun w h => ⟨_, h, List.mem_singleton.mpr rfl⟩
  have h₁ : K.Run w₀ [(.rangeIter 0 {} true, .object 0)] _ := .snoc .nil (held _ rfl) rfl
  have h₂ : K.Run w₀ [(.rangeIter 0 {} true, .object 0), (.next 0 {}, .item none)] _ :=
    .snoc h₁ ⟨_, rfl⟩ rfl
  have h₃ : K.Run w₀ [(.rangeIter 0 {} true, .object 0), (.next 0 {}, .item none),
      (.createSnapshot 0 true, .object 0)] _ := .snoc h₂ (held _ rfl) rfl
  exact ⟨_, h₃, handles_agree (single_start _) h₃⟩

end PyLeveldb
