import PyLeveldb.Life
import PyLeveldb.Ready
import PyLeveldb.Refinement
import PyLeveldb.Unseen

/-!
# Memory safety of the whole interface

Any number of LevelDB objects, open or closed, with their iterators, snapshots and batches, and every
call that Python code can make on them from one thread, among them `__init__` on an object that is open.

* `World.Sound`: the invariant. Without the closed LevelDB objects the world is one in which every LevelDB
  object is open (`World.Inv`).
* `allowed_preserves`: every call keeps it that is ready, on objects that are there, and that does not open
  again a LevelDB object that has iterators or snapshots.
* `memory_safe`: what holds over the whole run. `reopened_dangles`: `__init__` on a LevelDB object that has
  iterators or snapshots leaves one whose end is a fault.
-/

namespace PyLeveldb

variable {E : Env} {w w' : World E} {D : Nat} {r : PyLevelDB} {K : Nat → Option PyLevelDB}
  {F : Fault → Prop}

/-! ## The invariant -/

/-- A LevelDB object without parts, iterators and snapshots. -/
structure PyLevelDB.Closed (r : PyLevelDB) : Prop where
  absent : r.Absent
  nIterators : r.nIterators = 0
  nSnapshots : r.nSnapshots = 0
  refs : r.refs.countP Holder.isIter = 0 ∧ r.refs.countP Holder.isSnap = 0

/-- The invariant (module doc). -/
def World.Sound (w : World E) : Prop :=
  ∃ K v, World.Without K v w ∧ v.Inv ∧ ∀ D r, K D = some r → r.Closed

/-- A LevelDB object is open or closed. -/
theorem World.Without.cases {v : World E} (h : World.Without K v w) (hr : w.levelDBs.get D = some r) :
    v.levelDBs.get D = some r ∨ v.levelDBs.get D = none ∧ K D = some r := by
  obtain ⟨⟨A, rfl, hj⟩, -⟩ := h
  exact hj.cases hr

/-- A change of the rest of the world. -/
theorem World.Sound.change (h : w.Sound) (hs : w.Spared w')
    (hI : ∀ A, World.Inv { w with levelDBs := A } → World.Inv { w' with levelDBs := A }) : w'.Sound := by
  obtain ⟨K, v, ⟨⟨A, rfl, hj⟩, hm⟩, hv, hK⟩ := h
  exact ⟨K, { w' with levelDBs := A }, ⟨⟨A, rfl, by rwa [hs.levelDBs]⟩, hm.spared hs⟩, hI A hv, hK⟩

theorem World.Sound.noise (h : w.Sound) (e : Nat → Int) (o : Int) (n : Nat) :
    World.Sound { w with exports := e, owned := o, calls := n } :=
  h.change ⟨rfl, rfl, Nat.le_refl _⟩ fun _ hA => hA.noise e o n

theorem World.Sound.setBatches (h : w.Sound) (T : Table PyWriteBatch) :
    World.Sound { w with batches := T } :=
  h.change ⟨rfl, rfl, Nat.le_refl _⟩ fun _ hA => hA.setBatches T

/-- After a call on the instance `d`. -/
theorem World.Sound.wrote (h : w.Sound) (d : Nat) (inst : LdbInstance E) (db : E.Db) :
    World.Sound (w.wrote d inst db) :=
  h.change ⟨rfl, rfl, Nat.le_max_left _ _⟩ fun _ hA => hA.setDb (d := d) { inst with db := db }

/-- **A call that works on open LevelDB objects** does so in the presence of closed ones. -/
theorem sound_of_lifts {α : Type} {p : C E α} {v : World E} (h : World.Without K v w)
    (hK : ∀ D r, K D = some r → r.Closed) (hp : Lifts K p)
    (hv : p.wp (.alone (· = .aborted)) (fun _ v' _ => v'.Inv) v ()) :
    p.wp (.alone (· = .aborted)) (fun _ w' _ => w'.Sound) w () :=
  hp.wp h hv fun _ v' _ h' hv' => ⟨K, v', h', hv', hK⟩

/-! ## Reading and writing -/

/-- An open LevelDB object has its database. -/
theorem World.Sound.opened (h : w.Sound) (hr : w.levelDBs.get D = some r) (ho : w.OpenDb D) :
    ∃ d inst, r.db = some d ∧ w.dbs.get d = some inst := by
  obtain ⟨K, v, hwo, hv, hK⟩ := h
  rcases hwo.cases hr with hr' | ⟨-, hr'⟩
  · obtain ⟨d, inst, hdb, hd, -⟩ := hv.opened hr'
    obtain ⟨⟨A, rfl, -⟩, -⟩ := hwo
    exact ⟨d, inst, hdb, hd⟩
  · exact absurd (hK D r hr').absent.1 (ho r hr)

section Store

variable (h : w.Sound) (hr : w.levelDBs.get D = some r)
include h hr

theorem put_sound {args : PyLevelDB.PutArgs}
    (ho : parses args.wellFormed [args.key, args.value] = true → w.OpenDb D) :
    (PyLevelDB.put D args).wp (.alone F) (fun _ w' _ => w'.Sound) w () := by
  cases hp : parses args.wellFormed [args.key, args.value] with
  | false => simpa [PyLevelDB.put, Prog.wp_bind, hp] using h
  | true =>
    obtain ⟨d, inst, hdb, hd⟩ := h.opened hr (ho hp)
    exact put_runs hr hdb hd (fun _ => h) fun _ e => (h.wrote d inst _).noise e w.owned w.calls

theorem delete_sound {args : PyLevelDB.DeleteArgs}
    (ho : parses args.wellFormed [args.key] = true → w.OpenDb D) :
    (PyLevelDB.delete D args).wp (.alone F) (fun _ w' _ => w'.Sound) w () := by
  cases hp : parses args.wellFormed [args.key] with
  | false => simpa [PyLevelDB.delete, Prog.wp_bind, hp] using h
  | true =>
    obtain ⟨d, inst, hdb, hd⟩ := h.opened hr (ho hp)
    exact delete_runs hr hdb hd (fun _ => h) fun _ e => (h.wrote d inst _).noise e w.owned w.calls

theorem write_sound {args : PyLevelDB.WriteArgs} {b : PyWriteBatch}
    (hb : w.batches.get args.writeBatch = some b) (ho : parses args.wellFormed [] = true → w.OpenDb D) :
    (PyLevelDB.write D args).wp (.alone F) (fun _ w' _ => w'.Sound) w () := by
  cases hp : parses args.wellFormed [] with
  | false => simpa [PyLevelDB.write, Prog.wp_bind, hp] using h
  | true =>
    obtain ⟨d, inst, hdb, hd⟩ := h.opened hr (ho hp)
    exact write_runs hr hdb hd hb (fun _ => h) fun _ e => (h.wrote d inst _).noise e w.owned w.calls

theorem compactRange_sound {args : PyLevelDB.CompactArgs} (ho : args.parses = true → w.OpenDb D) :
    (PyLevelDB.compactRange D args).wp (.alone F) (fun _ w' _ => w'.Sound) w () := by
  cases hp : args.parses with
  | false =>
    refine wp_parseBoth (fun _ => h.noise _ w.owned w.calls) fun hp' => ?_
    have hparses : args.parses = true := hp'
    rw [hp] at hparses
    cases hparses
  | true =>
    obtain ⟨d, inst, hdb, hd⟩ := h.opened hr (ho hp)
    exact compactRange_runs hr hdb hd (fun _ e => h.noise e w.owned w.calls)
      fun _ e => (h.wrote d inst _).noise e w.owned w.calls

theorem getStatus_sound (ho : w.OpenDb D) :
    (PyLevelDB.getStatus D).wp (.alone F) (fun _ w' _ => w'.Sound) w () := by
  obtain ⟨d, inst, hdb, hd⟩ := h.opened hr ho
  have hw := h.wrote d inst inst.db
  simp only [PyLevelDB.getStatus, Prog.wp_bind, wp_load_levelDB, hr, Prog.found_some, wp_deref_of hdb,
    dbGetProperty, wp_callDb, hd, Prog.alone_event]
  split
  · exact hw
  · exact hw.noise w.exports _ w.calls

end Store

/-- `Get` of a LevelDB object and of a snapshot object. -/
theorem get_sound (h : w.Sound) (hr : w.levelDBs.get D = some r) {snapshot : Option Nat}
    {args : PyLevelDB.GetArgs} {alloc : Bool} (ho : parses args.wellFormed [args.key] = true → w.OpenDb D)
    (hs : ∀ d, r.db = some d → ∃ snap, w.SnapshotAt d snapshot snap) :
    (PyLevelDB.get_ r.db snapshot args alloc).wp (.alone F) (fun _ w' _ => w'.Sound) w () := by
  cases hp : parses args.wellFormed [args.key] with
  | false => simpa [PyLevelDB.get_, Prog.wp_bind, hp] using h
  | true =>
    obtain ⟨d, inst, hdb, hd⟩ := h.opened hr (ho hp)
    obtain ⟨snap, hat⟩ := hs d hdb
    rw [hdb]
    exact get_runs hd hat (fun _ => h) fun _ e o => (h.wrote d inst _).noise e o w.calls

theorem snapshotGet_sound (h : w.Sound) {s : Nat} {x : PyLevelDBSnapshot}
    (hx : w.snapshots.get s = some x) {args : PyLevelDB.GetArgs} {alloc : Bool}
    (hD : ∃ D, x.db = some D ∧ (parses args.wellFormed [args.key] = true → w.OpenDb D)) :
    (PyLevelDBSnapshot.get s args alloc).wp (.alone F) (fun _ w' _ => w'.Sound) w () := by
  obtain ⟨D, hxD, ho⟩ := hD
  obtain ⟨K, v, ⟨⟨A, rfl, hj⟩, -⟩, hv, -⟩ := id h
  rcases hv.snap s x hx with rfl | ⟨D', p, r, d, y, rfl, hr, hdb, hy, -⟩
  · cases hxD
  · cases hxD
    have hy : w.ldbSnapshots.get p = some ⟨d, y⟩ := hy
    simp only [PyLevelDBSnapshot.get, Prog.wp_bind, wp_load_snapshot, hx, Prog.found_some, wp_deref_some,
      wp_load_levelDB, hj.found hr]
    refine get_sound h (hj.found hr) ho fun d' hd' => ⟨some y, ?_⟩
    cases hdb.symm.trans hd'
    simp [World.SnapshotAt, hy]

/-! ## Closed LevelDB objects -/

theorem closed_closed : (PyLevelDB.closed [.env]).Closed :=
  ⟨⟨rfl, rfl, rfl, rfl⟩, rfl, rfl, rfl, rfl⟩

/-- A closed LevelDB object with other references of Python code. -/
theorem PyLevelDB.Closed.setRefs (h : r.Closed) {refs : List Holder}
    (hi : refs.countP Holder.isIter = 0) (hs : refs.countP Holder.isSnap = 0) :
    PyLevelDB.Closed { r with refs := refs } :=
  ⟨⟨h.absent.1, h.absent.2.1, h.absent.2.2.1, h.absent.2.2.2⟩, h.nIterators, h.nSnapshots, hi, hs⟩

/-- A LevelDB object without a database is closed. -/
theorem World.Without.unseen {v : World E} (h : World.Without K v w) (hv : v.Inv)
    (hr : ∀ r, w.levelDBs.get D = some r → r.db = none) : v.levelDBs.get D = none := by
  obtain ⟨⟨A, rfl, hj⟩, -⟩ := h
  cases hA : A.get D with
  | none => rfl
  | some r =>
    obtain ⟨d, inst, hdb, -⟩ := hv.opened hA
    rw [hr r (hj.found hA)] at hdb
    cases hdb

/-- The row of one LevelDB object changes that is not open. -/
theorem World.Sound.setClosed (h : w.Sound) (hr : ∀ r, w.levelDBs.get D = some r → r.db = none)
    {T : Table PyLevelDB} (hT : ∀ j, j ≠ D → T.get j = w.levelDBs.get j)
    (hc : ∀ r, T.get D = some r → r.Closed) : World.Sound { w with levelDBs := T } := by
  obtain ⟨K, v, hwo, hv, hK⟩ := h
  have hA := hwo.unseen hv hr
  obtain ⟨⟨A, rfl, hj⟩, hm⟩ := hwo
  refine ⟨Function.update K D (T.get D), _, ⟨⟨A, rfl, ?_⟩, hm⟩, hv, fun D' r' hr' => ?_⟩
  · refine hj.change hT (fun _ _ => rfl) (fun j hne => Function.update_of_ne hne _ _) ?_ (.inl hA)
    rw [hA, Option.none_or, Function.update_self]
  · by_cases hD : D' = D
    · subst hD
      rw [Function.update_self] at hr'
      exact hc r' hr'
    · rw [Function.update_of_ne hD] at hr'
      exact hK D' r' hr'

/-- `PyLevelDB_new`. -/
theorem newDb_sound (h : w.Sound) (alloc : Bool) :
    (PyLevelDB.new alloc).wp (.alone F) (fun _ w' _ => w'.Sound) w () := by
  cases alloc with
  | false => exact h
  | true =>
    simp only [PyLevelDB.new, Bool.not_true, Bool.false_eq_true, ↓reduceIte, Prog.wp_bind, wp_py,
      Prog.alone_event, Prog.wp_state, Prog.wp_put, Prog.wp_pure]
    refine h.setClosed (D := w.levelDBs.next) (fun r hr => ?_) (fun j hj => ?_) fun r hr => ?_
    · rw [Table.get_next] at hr
      cases hr
    · rw [Table.get_push, if_neg hj]
    · rw [Table.get_push_next] at hr
      cases hr
      exact closed_closed

/-- Python code drops its reference to a LevelDB object that is not open. -/
theorem dropClosed_sound (h : w.Sound) (hr : w.levelDBs.get D = some r) (hc : r.Closed)
    (he : .env ∈ r.refs) :
    (PyLevelDB.decref D .env).wp (.alone F) (fun _ w' _ => w'.Sound) w () := by
  have hdb : ∀ r', w.levelDBs.get D = some r' → r'.db = none := by
    intro r' hr'
    cases hr.symm.trans hr'
    exact hc.absent.1
  obtain ⟨h1, h2, h3, h4⟩ := hc.absent
  simp only [PyLevelDB.decref, Prog.wp_bind, wp_py, Prog.alone_event, wp_load_levelDB, hr,
    Prog.found_some, he, not_true_eq_false, ↓reduceIte, wp_update_levelDB]
  rw [Prog.wp_when]
  refine ⟨fun _ => ?_, fun _ => ?_⟩
  · simp only [PyLevelDB.dealloc, PyLevelDB.deleteParts, wp_inFrame, Prog.alone_event, Prog.wp_bind,
      wp_begin, wp_load_levelDB, Table.get_set, ↓reduceIte, Prog.found_some, h1, h2, h3, h4,
      wp_deleteDb_none, wp_deleteOptions, wp_deleteCache, Table.freeOpt_none, deleteComparator,
      Prog.wp_pure, wp_end, wp_update_levelDB, Table.set_set, wp_py, Prog.wp_modify]
    refine h.setClosed hdb (fun j hj => ?_) fun r' hr' => ?_
    · rw [Table.get_free, if_neg hj, Table.get_set, if_neg hj]
    · exact absurd rfl (Table.get_free_some hr').1
  · have hi := countP_erase Holder.isIter he
    have hs := countP_erase Holder.isSnap he
    rw [hc.refs.1] at hi
    rw [hc.refs.2] at hs
    refine h.setClosed hdb (fun j hj => if_neg hj) fun r' hr' => ?_
    rw [Table.get_set, if_pos rfl] at hr'
    cases hr'
    exact hc.setRefs (by omega) (by omega)

/-! ## Opening -/

/-- The world when the LevelDB object `D`, with the fields `r`, is closed. -/
def World.closeDb (w : World E) (D : Nat) (r : PyLevelDB) : World E :=
  { w with
    levelDBs := w.levelDBs.set D (PyLevelDB.clearParts r)
    dbs := w.dbs.freeOpt r.db
    options := w.options.freeOpt r.options
    caches := w.caches.freeOpt r.cache
    comparators := w.comparators.freeOpt (r.comparator.bind CmpPtr.wrapper) }

/-- The world when the LevelDB object `D`, with the fields `r`, is opened. -/
def World.openDb (w : World E) (D : Nat) (r : PyLevelDB) (db : E.Db) (c : CmpPtr) (opts : Options)
    (size : UInt64) : World E :=
  { w with
    levelDBs := w.levelDBs.set D { r with
      db := some w.dbs.next
      options := some w.options.next
      cache := some w.caches.next
      comparator := some c }
    dbs := w.dbs.push ⟨db, c, some w.caches.next⟩
    options := w.options.push opts
    caches := w.caches.push size }

theorem wp_close_open {d : Nat} {Q : Unit → World E → Unit → Prop} (hr : w.levelDBs.get D = some r)
    (hp : w.Parts r d) (hQ : ∀ o, Q () { w.closeDb D r with owned := o } ()) :
    (PyLevelDB.close D).wp (.alone F) Q w () := by
  obtain ⟨⟨hdb, inst, hd⟩, ⟨o, opts, hopt, hopts, hcmp⟩, ⟨k, y, hk, hy⟩, hc⟩ := hp
  simp only [PyLevelDB.close, PyLevelDB.deleteParts, Prog.wp_bind, wp_load_levelDB, hr, Prog.found_some,
    hdb, Option.isSome_some, Bool.true_or, Prog.when_true, wp_begin, Prog.alone_event, wp_deleteDb_some,
    hd, wp_deleteOptions, hopt, hopts, wp_deleteCache, hk, hy]
  refine wp_deleteComparator hc fun o' => ?_
  simp only [wp_end, Prog.alone_event, wp_update_levelDB, hr, Prog.found_some]
  have := hQ o'
  simp only [World.closeDb, hdb, hopt, hk] at this
  exact this

theorem wp_close_absent {Q : Unit → World E → Unit → Prop} (hr : w.levelDBs.get D = some r)
    (ha : r.Absent) (hQ : Q () w ()) : (PyLevelDB.close D).wp (.alone F) Q w () := by
  obtain ⟨h1, h2, h3, h4⟩ := ha
  simpa [PyLevelDB.close, Prog.wp_bind, hr, h1, h2, h3, h4] using hQ

/-- The comparator of `__init__`: none, the shared one, or a new one. -/
theorem getComparator_runs {arg : ComparatorArg} {alloc : Bool}
    {Q : Except Exn CmpPtr → World E → Unit → Prop} (herror : ∀ e, Q (.error e) w ())
    (hbytewise : Q (.ok .bytewise) w ())
    (hpython : ∀ x o, Q (.ok (.python w.comparators.next))
      { w with comparators := w.comparators.push x, owned := o } ()) :
    (getComparator arg alloc).wp (.alone F) Q w () := by
  cases arg with
  | absent => exact hbytewise
  | str p =>
    cases hp : strEq p bytewiseName with
    | true =>
      simp only [getComparator, hp, ↓reduceIte]
      exact hbytewise
    | false => simpa [getComparator, hp, Prog.wp_bind] using herror _
  | pair name callable obj =>
    cases callable with
    | false => exact herror _
    | true =>
      cases alloc with
      | false => exact herror _
      | true => exact hpython _ _
  | other => exact herror _

/-- `T'` is `T` after an object `a` was to be made: it is `p`, or it was not made. -/
structure Made {α : Type} (T T' : Table α) (a : α) (p : Option Nat) : Prop where
  only : T'.Only T.next p
  keeps : T.Keeps (T'.freeOpt p)
  made : ∀ i, p = some i → i = T.next ∧ T' = T.push a

theorem made_none {α : Type} (T : Table α) (a : α) : Made T T a none :=
  ⟨Table.only_next T, .refl T, fun _ h => by cases h⟩

theorem made_push {α : Type} (T : Table α) (a : α) : Made T (T.push a) a (some T.next) :=
  ⟨(Table.only_next T).push a, .push_free T a, fun _ h => ⟨(Option.some.inj h).symm, rfl⟩⟩

theorem newOptions_runs {alloc : Bool} {Q : Option Nat → World E → Unit → Prop}
    (hQ : ∀ p T, Made w.options T E.defaultOptions p → Q p { w with options := T } ()) :
    (PyLevelDB.newOptions alloc).wp (.alone F) Q w () := by
  cases alloc with
  | false => exact hQ none w.options (made_none _ _)
  | true => exact hQ _ _ (made_push _ _)

theorem newLRUCache_runs {alloc : Bool} {size : UInt64} {Q : Option Nat → World E → Unit → Prop}
    (hQ : ∀ p T, Made w.caches T size p → Q p { w with caches := T } ()) :
    (PyLevelDB.newLRUCache alloc size).wp (.alone F) Q w () := by
  cases alloc with
  | false => exact hQ none w.caches (made_none _ _)
  | true => exact hQ _ _ (made_push _ _)

/-- **What `open_` leaves** of the world: the object is open, or it is closed and nothing is left of the
parts that were made. -/
theorem open_runs {args : PyLevelDB.InitArgs} {c : CmpPtr} {o : PyLevelDB.InitOutcome E}
    {Q : Except Exn Unit → World E → Unit → Prop} (hr : w.levelDBs.get D = some r) (ha : r.Absent)
    (ho : o.Documented) (hc : ∀ p, c = .python p → ∃ x, w.comparators.get p = some x)
    (hrefused : ∀ e TO TC n, w.options.Keeps TO → w.caches.Keeps TC → Q (.error e)
      { w with
        levelDBs := w.levelDBs.set D r
        options := TO
        caches := TC
        comparators := w.comparators.freeOpt c.wrapper
        owned := n } ())
    (hopened : ∀ db opts size, opts.comparator = c → Q (.ok ()) (w.openDb D r db c opts size) ()) :
    (PyLevelDB.open_ D args c o).wp (.alone F) Q w () := by
  obtain ⟨rdb, ropt, rcache, rcmp, ns, ni, refs⟩ := r
  obtain ⟨rfl, rfl, rfl, rfl⟩ : rdb = none ∧ ropt = none ∧ rcache = none ∧ rcmp = none := ha
  have hcmp : ∀ p, some c = some (.python p) → ∃ x, w.comparators.get p = some x :=
    fun p hp => hc p (Option.some.inj hp)
  simp only [PyLevelDB.open_, Prog.wp_bind]
  refine newOptions_runs fun po TO hTO => ?_
  refine newLRUCache_runs fun pc TC hTC => ?_
  simp only [wp_update_levelDB, hr, Prog.found_some]
  by_cases hnone : (po.isNone || pc.isNone) = true
  · -- an allocation failed: what was made is deleted
    simp only [hnone, ↓reduceIte, Prog.wp_bind, wp_begin, Prog.alone_event, wp_load_levelDB, Table.get_set,
      Prog.found_some]
    refine wp_deleteRow_only rfl hTO.only ?_
    simp only [Table.get_set, ↓reduceIte, Prog.found_some]
    refine wp_deleteRow_only rfl hTC.only ?_
    simp only [Table.get_set, ↓reduceIte, Prog.found_some]
    refine wp_deleteComparator hcmp fun n => ?_
    simp only [wp_end, Prog.alone_event, wp_update_levelDB, Table.get_set, ↓reduceIte, Prog.found_some,
      Table.set_set, wp_raise]
    exact hrefused _ _ _ n hTO.keeps hTC.keeps
  obtain ⟨rfl, rfl⟩ : po = some w.options.next ∧ TO = w.options.push E.defaultOptions := by
    cases po with
    | none => simp at hnone
    | some i =>
      obtain ⟨rfl, hT⟩ := hTO.made i rfl
      exact ⟨rfl, hT⟩
  obtain ⟨rfl, rfl⟩ :
      pc = some w.caches.next ∧ TC = w.caches.push (PyLevelDB.toSize args.blockCacheSize) := by
    cases pc with
    | none => simp at hnone
    | some i =>
      obtain ⟨rfl, hT⟩ := hTC.made i rfl
      exact ⟨rfl, hT⟩
  simp only [Option.isNone_some, Bool.or_self, Bool.false_eq_true, ↓reduceIte, Prog.wp_bind,
    wp_load_levelDB, Table.get_set, Prog.found_some, wp_deref, wp_row, Table.get_push, Prog.wp_modify,
    Table.push_set, wp_begin, Prog.alone_event, PyLevelDB.dbOpen, wp_update_levelDB, Table.set_set, Prog.wp_state,
    Prog.wp_event]
  cases hopen : o.opened with
  | error status =>
    -- no database was made: the other parts are deleted
    have hbad := ho status hopen
    simp only [Prog.wp_pure, hbad, Bool.not_false, Prog.when_true, Prog.wp_bind, PyLevelDB.deleteParts,
      wp_load_levelDB, Table.get_set, ↓reduceIte, Prog.found_some, wp_deleteDb_none, wp_deleteOptions,
      Table.get_push, wp_deleteCache, Table.freeOpt_some]
    refine wp_deleteComparator hcmp fun n => ?_
    simp only [wp_update_levelDB, Table.get_set, ↓reduceIte, Prog.found_some, Table.set_set, wp_end,
      Prog.alone_event, wp_setError]
    exact hrefused _ _ _ n (.push_free _ _) (.push_free _ _)
  | ok db =>
    simp only [Prog.wp_bind, Prog.wp_state, Prog.wp_put, wp_update_levelDB, Table.get_set, ↓reduceIte,
      Prog.found_some, Table.set_set, Prog.wp_pure, Status.isOk, Bool.not_true, Prog.when_false, wp_end,
      Prog.alone_event, Bool.false_eq_true]
    exact hopened db _ _ rfl

/-- From `w`, where the LevelDB object `D` has the fields `r` and is closed, `__init__` leads to `w'`. -/
inductive World.Inits (w : World E) (D : Nat) (r : PyLevelDB) : World E → Prop where
  /-- The object stays as it is. -/
  | refused {T : Table PyLevelDB} {TO : Table Options} {TC : Table UInt64}
      {TP : Table PythonComparatorWrapper} {n : Int} (object : ∀ j, T.get j = w.levelDBs.get j)
      (options : w.options.Keeps TO) (caches : w.caches.Keeps TC) (comparators : w.comparators.Keeps TP) :
      Inits w D r
        { w with levelDBs := T, options := TO, caches := TC, comparators := TP, owned := n }
  /-- The object is open. -/
  | opened {db : E.Db} {c : CmpPtr} {opts : Options} {size : UInt64} {TP : Table PythonComparatorWrapper}
      {n : Int} (hc : opts.comparator = c) (comparators : w.comparators.Keeps TP)
      (new : ∀ p, c = .python p → w.comparators.get p = none ∧ ∃ x, TP.get p = some x) :
      Inits w D r { w.openDb D r db c opts size with comparators := TP, owned := n }

theorem set_same {T : Table PyLevelDB} (hr : T.get D = some r) (j : Nat) : (T.set D r).get j = T.get j := by
  rw [Table.get_set]
  split
  · next hj => rw [hj, hr]
  · rfl

/-- **What `__init__` leaves**, from what the cleanup at its start leaves. -/
theorem init_inits {P : World E → Prop} {args : Option PyLevelDB.InitArgs} {o : PyLevelDB.InitOutcome E}
    (ho : o.Documented)
    (hclose : ∀ Q : Unit → World E → Unit → Prop, (∀ w₁, P w₁ → Q () w₁ ()) →
      (PyLevelDB.close D).wp (.alone F) Q w ())
    (hP : ∀ w₁, P w₁ → ∃ r₁, w₁.levelDBs.get D = some r₁ ∧ r₁.Absent) :
    (PyLevelDB.init D args o).wp (.alone F) (fun _ w' _ => ∃ w₁ r₁, P w₁ ∧
      w₁.levelDBs.get D = some r₁ ∧ r₁.Absent ∧ w₁.Inits D r₁ w') w () := by
  simp only [PyLevelDB.init, wp_inFrame, Prog.alone_event, Prog.wp_bind]
  refine hclose _ fun w₁ hw₁ => ?_
  obtain ⟨r₁, hr₁, ha₁⟩ := hP w₁ hw₁
  have hsame : w₁.Inits D r₁ w₁ := .refused (fun _ => rfl) (.refl _) (.refl _) (.refl _)
  simp only [wp_py, Prog.alone_event]
  cases args with
  | none => exact ⟨w₁, r₁, hw₁, hr₁, ha₁, hsame⟩
  | some args =>
    dsimp only
    split
    · exact ⟨w₁, r₁, hw₁, hr₁, ha₁, hsame⟩
    · simp only [Prog.wp_bind]
      refine getComparator_runs (fun e => ?_) ?_ fun x n => ?_
      · exact ⟨w₁, r₁, hw₁, hr₁, ha₁, hsame⟩
      · refine open_runs hr₁ ha₁ ho (fun p hp => by cases hp) (fun e TO TC n hTO hTC => ?_)
          fun db opts size hc => ?_
        · exact ⟨w₁, r₁, hw₁, hr₁, ha₁, .refused (set_same hr₁) hTO hTC (.refl _)⟩
        · exact ⟨w₁, r₁, hw₁, hr₁, ha₁, .opened hc (.refl _) fun p hp => by cases hp⟩
      · have hnew : ∀ p, CmpPtr.python w₁.comparators.next = .python p →
            w₁.comparators.get p = none ∧ ∃ y, (w₁.comparators.push x).get p = some y := by
          intro p hp
          cases hp
          exact ⟨Table.get_next _, x, Table.get_push_next _ _⟩
        refine open_runs hr₁ ha₁ ho (fun p hp => (hnew p hp).2) (fun e TO TC n hTO hTC => ?_)
          fun db opts size hc => ?_
        · exact ⟨w₁, r₁, hw₁, hr₁, ha₁, .refused (set_same hr₁) hTO hTC (.push_free _ _)⟩
        · exact ⟨w₁, r₁, hw₁, hr₁, ha₁, .opened hc (.push _ _) hnew⟩

/-! ### The invariant -/

/-- Options, caches and comparators come and go that no LevelDB object has. -/
theorem World.Inv.keepParts (h : w.Inv) {TO : Table Options} {TC : Table UInt64}
    {TP : Table PythonComparatorWrapper} (ho : w.options.Keeps TO) (hc : w.caches.Keeps TC)
    (hp : w.comparators.Keeps TP) (n : Int) :
    World.Inv { w with options := TO, caches := TC, comparators := TP, owned := n } where
  parts D r hr := by
    obtain ⟨d, hdb, ⟨o, x, h1, h2, h3⟩, ⟨k, y, h4, h5⟩, h6⟩ := h.parts D r hr
    refine ⟨d, hdb, ⟨o, x, h1, ho o x h2, h3⟩, ⟨k, y, h4, hc k y h5⟩, fun p hpy => ?_⟩
    obtain ⟨z, hz⟩ := h6 p hpy
    exact ⟨z, hp p z hz⟩
  apart := h.apart
  iter := h.iter
  iterApart := h.iterApart
  snap := h.snap
  snapApart := h.snapApart
  counts D r hr := by
    obtain ⟨h1, h2, h3, h4, h5⟩ := h.counts D r hr
    exact ⟨h1, h2, h3, h4, h5⟩

/-- **A LevelDB object is opened** that has no iterators and snapshots. -/
theorem World.Inv.openDb (h : w.Inv) (hm : w.SnapsMade) (hD : w.levelDBs.get D = none) (hr : r.Closed)
    {db : E.Db} {c : CmpPtr} {opts : Options} {size : UInt64} {TP : Table PythonComparatorWrapper} {n : Int}
    (hc : opts.comparator = c) (hkeep : w.comparators.Keeps TP)
    (hnew : ∀ p, c = .python p → w.comparators.get p = none ∧ ∃ x, TP.get p = some x) :
    World.Inv { w.openDb D r db c opts size with comparators := TP, owned := n } where
  parts D' r' hr' := by
    rcases Table.get_set_some hr' with ⟨rfl, rfl⟩ | ⟨hne, hr'⟩
    · refine ⟨w.dbs.next, ⟨rfl, _, Table.get_push_next _ _⟩,
        ⟨_, opts, rfl, Table.get_push_next _ _, congrArg some hc.symm⟩,
        ⟨_, size, rfl, Table.get_push_next _ _⟩, fun p hp => (hnew p (Option.some.inj hp)).2⟩
    · obtain ⟨d, ⟨h1, x, hx⟩, ⟨o, y, h2, h3, h4⟩, ⟨k, z, h5, h6⟩, h7⟩ := h.parts D' r' hr'
      refine ⟨d, ⟨h1, x, Table.get_push_of _ hx⟩, ⟨o, y, h2, Table.get_push_of _ h3, h4⟩,
        ⟨k, z, h5, Table.get_push_of _ h6⟩, fun p hp => ?_⟩
      obtain ⟨v, hv⟩ := h7 p hp
      exact ⟨v, hkeep p v hv⟩
  apart := by
    -- the parts of the object are new
    have hfresh : ∀ D' r', w.levelDBs.get D' = some r' → PyLevelDB.Apart { r with
        db := some w.dbs.next, options := some w.options.next, cache := some w.caches.next,
        comparator := some c } r' := by
      intro D' r' hr'
      obtain ⟨d, ⟨h1, x, hx⟩, ⟨o, y, h2, h3, -⟩, ⟨k, z, h5, h6⟩, h7⟩ := h.parts D' r' hr'
      refine ⟨fun i hi hi' => ?_, fun i hi hi' => ?_, fun i hi hi' => ?_, fun i hi hi' => ?_⟩
      · cases hi
        cases h1.symm.trans hi'
        exact Table.ne_next hx rfl
      · cases hi
        cases h2.symm.trans hi'
        exact Table.ne_next h3 rfl
      · cases hi
        cases h5.symm.trans hi'
        exact Table.ne_next h6 rfl
      · have hcp : c = .python i := by
          cases c with
          | bytewise => cases hi
          | python p =>
            cases hi
            rfl
        have hcr : r'.comparator = some (.python i) := by
          cases hcmp : r'.comparator with
          | none =>
            rw [hcmp] at hi'
            cases hi'
          | some c' =>
            rw [hcmp] at hi'
            cases c' with
            | bytewise => cases hi'
            | python p =>
              cases hi'
              rfl
        obtain ⟨v, hv⟩ := h7 i hcr
        rw [(hnew i hcp).1] at hv
        cases hv
    intro D₁ D₂ r₁ r₂ h₁ h₂ hne
    rcases Table.get_set_some h₁ with ⟨e₁, rfl⟩ | ⟨-, g₁⟩ <;>
      rcases Table.get_set_some h₂ with ⟨e₂, rfl⟩ | ⟨-, g₂⟩
    · exact absurd (e₁.trans e₂.symm) hne
    · exact hfresh D₂ r₂ g₂
    · obtain ⟨a1, a2, a3, a4⟩ := hfresh D₁ r₁ g₁
      exact ⟨fun i hi hi' => a1 i hi' hi, fun i hi hi' => a2 i hi' hi, fun i hi hi' => a3 i hi' hi,
        fun i hi hi' => a4 i hi' hi⟩
    · exact h.apart D₁ D₂ r₁ r₂ g₁ g₂ hne
  iter i it hi := (h.iter i it hi).imp_right fun ok => ok.mono
    (fun D' r' hr' hm' => ⟨r', (if_neg fun e => by rw [e, hD] at hr'; cases hr').trans hr', rfl, hm'⟩)
    (fun m d y _ hy => ⟨y, hy⟩) fun b s _ hs => ⟨s, hs⟩
  iterApart := h.iterApart
  snap s x hx := (h.snap s x hx).imp_right fun ok => ok.mono
    (fun D' r' hr' hm' => ⟨r', (if_neg fun e => by rw [e, hD] at hr'; cases hr').trans hr', rfl, hm'⟩)
    fun _ _ _ hy => hy
  snapApart := h.snapApart
  counts D' r' hr' := by
    rcases Table.get_set_some hr' with ⟨rfl, rfl⟩ | ⟨-, hr'⟩
    · obtain ⟨hi, hs⟩ := h.alive hD
      have hl : w.ldbSnapshots.count (LdbSnapshot.on w.dbs.next) = 0 := by
        refine Table.count_eq_zero fun p x hp => ?_
        have := hm p x hp
        simp only [LdbSnapshot.on_eq, decide_eq_false_iff_not]
        omega
      refine ⟨?_, ?_, fun d hd => ?_, ?_, ?_⟩
      · exact hr.nIterators.trans (by simp [World.openDb, hi])
      · exact hr.nSnapshots.trans (by simp [World.openDb, hs])
      · cases hd
        exact hr.nSnapshots.trans (by simp [World.openDb, hl])
      · exact hr.nIterators.trans (by simp [hr.refs.1])
      · exact hr.nSnapshots.trans (by simp [hr.refs.2])
    · obtain ⟨h1, h2, h3, h4, h5⟩ := h.counts D' r' hr'
      exact ⟨h1, h2, h3, h4, h5⟩

/-- A LevelDB object without iterators and snapshots is closed. -/
theorem World.Sound.closeDb (h : w.Sound) (hr : w.levelDBs.get D = some r) (hdb : r.db ≠ none)
    (hi : r.nIterators = 0) (hs : r.nSnapshots = 0) (o : Int) :
    World.Sound { w.closeDb D r with owned := o } ∧ (PyLevelDB.clearParts r).Closed := by
  obtain ⟨K, v, hwo, hv, hK⟩ := h
  have hr' : v.levelDBs.get D = some r := by
    rcases hwo.cases hr with hr' | ⟨-, hr'⟩
    · exact hr'
    · exact absurd (hK D r hr').absent.1 hdb
  obtain ⟨⟨A, rfl, hj⟩, hm⟩ := hwo
  obtain ⟨-, -, -, h4, h5⟩ := hv.counts D r hr'
  have hic : r.refs.countP Holder.isIter = 0 := by omega
  have hsc : r.refs.countP Holder.isSnap = 0 := by omega
  have hclosed : (PyLevelDB.clearParts r).Closed := ⟨⟨rfl, rfl, rfl, rfl⟩, hi, hs, hic, hsc⟩
  -- without the references of Python code the object can be freed
  have hfree := (hv.setRefs [] hr' (fun i hm => absurd rfl (List.countP_eq_zero.mp hic _ hm))
    (fun s hm => absurd rfl (List.countP_eq_zero.mp hsc _ hm)) hic.symm hsc.symm).freeDb
    (D := D) (r := r.counted r.nSnapshots r.nIterators []) (by simp) rfl
  refine ⟨⟨Function.update K D (some (PyLevelDB.clearParts r)), _, ⟨⟨_, rfl, ?_⟩, ?_⟩, hfree.owned o,
    fun D' r' hr'' => ?_⟩, hclosed⟩
  · refine hj.change (fun j hne => if_neg hne) (fun j hne => ?_)
      (fun j hne => Function.update_of_ne hne _ _) ?_ (.inl (if_pos rfl))
    · simp [World.freeDb, hne]
    · simp [World.freeDb, World.closeDb]
  · intro p x hp
    simpa [World.closeDb] using hm p x hp
  · by_cases hD : D' = D
    · subst hD
      rw [Function.update_self] at hr''
      cases hr''
      exact hclosed
    · rw [Function.update_of_ne hD] at hr''
      exact hK D' r' hr''

/-- A closed LevelDB object is opened, or stays as it is. -/
theorem World.Inits.sound (hin : w.Inits D r w') (h : w.Sound) (hr : w.levelDBs.get D = some r)
    (hc : r.Closed) : w'.Sound := by
  obtain ⟨K, v, hwo, hv, hK⟩ := h
  have hD := hwo.unseen hv fun r' hr' => by
    cases hr.symm.trans hr'
    exact hc.absent.1
  obtain ⟨⟨A, rfl, hj⟩, hm⟩ := hwo
  cases hin with
  | @refused T TO TC TP n hT ho hcache hp =>
    exact ⟨K, _, ⟨⟨A, rfl, fun j => (hT j).trans (hj.get j), hj.apart⟩, hm⟩,
      hv.keepParts ho hcache hp n, hK⟩
  | @opened db c opts size TP n hcmp hp hnew =>
    refine ⟨Function.update K D none, _, ⟨⟨_, rfl, ?_⟩, fun p x hx => ?_⟩,
      hv.openDb hm hD hc hcmp hp hnew, fun D' r' hr' => ?_⟩
    · refine hj.change (fun j hne => if_neg hne) (fun j hne => if_neg hne)
        (fun j hne => Function.update_of_ne hne _ _) ?_ (.inr (Function.update_self _ _ _))
      simp [World.openDb]
    · have := hm p x hx
      simp only [World.openDb, Table.next_push] at this ⊢
      omega
    · by_cases hD' : D' = D
      · subst hD'
        rw [Function.update_self] at hr'
        cases hr'
      · rw [Function.update_of_ne hD'] at hr'
        exact hK D' r' hr'

/-- **`__init__`**, of an object that is closed or has no iterators and snapshots. -/
theorem init_sound (h : w.Sound) (hr : w.levelDBs.get D = some r) (hi : r.nIterators = 0)
    (hs : r.nSnapshots = 0) {args : Option PyLevelDB.InitArgs} {o : PyLevelDB.InitOutcome E}
    (ho : o.Documented) : (PyLevelDB.init D args o).wp (.alone F) (fun _ w' _ => w'.Sound) w () := by
  refine Prog.wp_mono (init_inits ho
    (P := fun w₁ => w₁.Sound ∧ ∃ r₁, w₁.levelDBs.get D = some r₁ ∧ r₁.Closed) (fun Q hQ => ?_)
    fun w₁ h₁ => ?_) fun _ w' _ hw' => ?_
  · obtain ⟨K, v, hwo, hv, hK⟩ := id h
    rcases hwo.cases hr with hr' | ⟨-, hr'⟩
    · obtain ⟨d, inst, hdb, -, hp⟩ := hv.opened hr'
      have hp : w.Parts r d := by
        obtain ⟨⟨A, rfl, -⟩, -⟩ := hwo
        exact ⟨hp.db, hp.options, hp.cache, hp.comparator⟩
      refine wp_close_open hr hp fun o => hQ _ ?_
      obtain ⟨hsound, hclosed⟩ := h.closeDb hr (by rw [hdb]; exact Option.some_ne_none d) hi hs o
      exact ⟨hsound, PyLevelDB.clearParts r, by simp [World.closeDb], hclosed⟩
    · exact wp_close_absent hr (hK D r hr').absent (hQ w ⟨h, r, hr, hK D r hr'⟩)
  · obtain ⟨-, r₁, hr₁, hc₁⟩ := h₁
    exact ⟨r₁, hr₁, hc₁.absent⟩
  · obtain ⟨w₁, r₁, ⟨h₁, r₂, hr₂, hc₂⟩, hr₁, -, hin⟩ := hw'
    cases hr₁.symm.trans hr₂
    exact hin.sound h₁ hr₁ hc₂

/-! ## The functions of the module -/

/-- `pyleveldb_repair_db`: the comparator that it makes is no part of a LevelDB object. -/
theorem repairDb_sound (h : w.Sound) (args : RepairArgs) (alloc : Bool) (status : Status) :
    (repairDb args alloc status).wp (.alone F) (fun _ w' _ => w'.Sound) w () := by
  simp only [repairDb, Prog.wp_bind, wp_parse, Prog.alone_event, acquire_nil]
  split
  · simp only [Bool.not_true, Bool.false_eq_true, ↓reduceIte, Prog.wp_bind]
    have ends : ∀ w' : World E, w'.Sound → Prog.wp (.alone F) (do
        beginAllowThreads
        endAllowThreads
        if !status.isOk then setError status else returnNone : C E (Except Exn Unit))
          (fun _ w' _ => w'.Sound) w' () := by
      intro w' h'
      simp only [Prog.wp_bind, wp_begin, wp_end, Prog.alone_event]
      split <;> exact h'
    refine getComparator_runs (fun e => ?_) (ends w h) fun x o => ends _ ?_
    · exact h
    · exact h.change ⟨rfl, rfl, Nat.le_refl _⟩ fun A hA =>
        hA.keepParts (.refl _) (.refl _) (.push _ x) o
  · exact h

theorem destroyDb_sound (h : w.Sound) (wf : Bool) (status : Status) :
    (destroyDb wf status).wp (.alone F) (fun _ w' _ => w'.Sound) w () := by
  simp only [destroyDb, Prog.wp_bind, wp_parse, Prog.alone_event, acquire_nil]
  split
  · simp only [Bool.not_true, Bool.false_eq_true, ↓reduceIte, Prog.wp_bind, wp_begin, wp_end,
      Prog.alone_event]
    split <;> exact h
  · exact h

/-! ## Calls -/

/-- The objects that a call is made on, and one given to it, are there. -/
def ApiOp.There (op : ApiOp E) (w : World E) : Prop :=
  match op with
  | initDb D _ _ | put D _ | get D _ _ | delete D _ | rangeIter D _ _ | getStatus D | createSnapshot D _
  | compactRange D _ | dropDb D => w.HeldDb D
  | write D args => w.HeldDb D ∧ ∃ b, w.batches.get args.writeBatch = some b
  | initSnapshot s args => (∃ x, w.snapshots.get s = some x) ∧ ∀ D, args = some D → w.HeldDb D
  | snapshotGet s _ _ | snapshotRangeIter s _ _ | dropSnapshot s => ∃ x, w.snapshots.get s = some x
  | next i _ | dropIter i => ∃ it, w.iters.get i = some it
  | initBatch b _ | batchPut b _ _ _ | batchDelete b _ _ | dropBatch b => ∃ x, w.batches.get b = some x
  | newDb _ | newSnapshot _ | newBatch _ | repairDb _ _ _ | destroyDb _ _ => True

/-- `__init__` is called on a LevelDB object only when that has no iterators and snapshots. -/
def ApiOp.Spares (op : ApiOp E) (w : World E) : Prop :=
  match op with
  | initDb D _ _ => ∀ r, w.levelDBs.get D = some r → r.nIterators = 0 ∧ r.nSnapshots = 0
  | _ => True

/-- What leveldb documents of the outcome of a call. -/
def ApiOp.Documented (op : ApiOp E) : Prop :=
  match op with
  | initDb _ _ o => o.Documented
  | _ => True

/-- The calls of a run: on objects that are there, ready, and sparing iterators and snapshots. -/
structure ApiOp.Allowed (op : ApiOp E) (w : World E) : Prop where
  there : op.There w
  ready : op.Ready w
  spares : op.Spares w
  documented : op.Documented

theorem onHandles_lifts {op : ApiOp E} {v : World E} (ha : op.onHandles v) : Lifts K op.prog := by
  cases op with
  | rangeIter D args alloc => exact (rangeIter_lifts _ _ _ _).map
  | snapshotRangeIter s args alloc =>
    exact ((loadSnapshot_lifts s).bind fun x => rangeIter_lifts x.db x.snapshot args alloc).map
  | next i allocs => exact (next_lifts i allocs).map
  | dropIter i => exact (iterDealloc_lifts i).map
  | createSnapshot D alloc => exact (createSnapshot_lifts D alloc).map
  | newSnapshot alloc => exact (snapshotNew_lifts alloc).map
  | initSnapshot s args => exact (snapshotInit_lifts s args).map
  | dropSnapshot s => exact (snapshotDealloc_lifts s).map
  | dropDb D => exact (decref_lifts D .env).map
  | _ => exact ha.elim

/-- **Every call keeps the invariant.** It ends, or aborts when a comparator fails. -/
theorem allowed_preserves : (apiCalls (E := E) ApiOp.Allowed).Preserves (· = .aborted) World.Sound := by
  rintro op w h ⟨hthere, hready, hspares, hdoc⟩
  obtain ⟨K, v, hwo, hv, hK⟩ := id h
  have handles : op.onHandles v → op.prog.wp (.alone (· = .aborted)) (fun _ w' _ => w'.Sound) w () :=
    fun ha => sound_of_lifts hwo hK (onHandles_lifts ha) (onHandles_preserves op v hv ha)
  have open_of : ∀ D, w.HeldDb D → w.OpenDb D → v.HeldDb D := by
    rintro D ⟨r, hr, he⟩ ho
    rcases hwo.cases hr with hr' | ⟨-, hr'⟩
    · exact ⟨r, hr', he⟩
    · exact absurd (hK D r hr').absent.1 (ho r hr)
  have hsnaps : v.snapshots = w.snapshots := by
    obtain ⟨⟨A, rfl, -⟩, -⟩ := hwo
    rfl
  have hiters : v.iters = w.iters := by
    obtain ⟨⟨A, rfl, -⟩, -⟩ := hwo
    rfl
  simp only [apiCalls]
  cases op with
  | newDb alloc =>
    rw [ApiOp.prog, Prog.wp_map]
    exact newDb_sound h alloc
  | initDb D args o =>
    obtain ⟨r, hr, -⟩ := hthere
    obtain ⟨hi, hs⟩ := hspares r hr
    rw [ApiOp.prog, Prog.wp_map]
    exact init_sound h hr hi hs hdoc
  | put D args =>
    obtain ⟨r, hr, -⟩ := hthere
    rw [ApiOp.prog, Prog.wp_map]
    exact put_sound h hr hready
  | get D args alloc =>
    obtain ⟨r, hr, -⟩ := hthere
    simp only [ApiOp.prog, Prog.wp_map, PyLevelDB.get, Prog.wp_bind, wp_load_levelDB, hr, Prog.found_some]
    exact get_sound h hr hready fun d _ => ⟨none, w.snapshotAt_none d⟩
  | delete D args =>
    obtain ⟨r, hr, -⟩ := hthere
    rw [ApiOp.prog, Prog.wp_map]
    exact delete_sound h hr hready
  | write D args =>
    obtain ⟨⟨r, hr, -⟩, b, hb⟩ := hthere
    rw [ApiOp.prog, Prog.wp_map]
    exact write_sound h hr hb hready
  | getStatus D =>
    obtain ⟨r, hr, -⟩ := hthere
    rw [ApiOp.prog, Prog.wp_map]
    exact getStatus_sound h hr hready
  | compactRange D args =>
    obtain ⟨r, hr, -⟩ := hthere
    rw [ApiOp.prog, Prog.wp_map]
    exact compactRange_sound h hr hready
  | rangeIter D args alloc =>
    cases hp : args.parses with
    | false =>
      rw [ApiOp.prog, Prog.wp_map]
      exact rangeIter_refused hp fun e => h.noise e w.owned w.calls
    | true => exact handles (open_of D hthere (hready hp))
  | createSnapshot D alloc => exact handles (open_of D hthere hready)
  | dropDb D =>
    obtain ⟨r, hr, he⟩ := hthere
    rcases hwo.cases hr with hr' | ⟨-, hr'⟩
    · exact handles ⟨r, hr', he⟩
    · rw [ApiOp.prog, Prog.wp_map]
      exact dropClosed_sound h hr (hK D r hr') he
  | newSnapshot alloc => exact handles trivial
  | initSnapshot s args =>
    obtain ⟨hs, hD⟩ := hthere
    exact handles ⟨by rwa [hsnaps], fun D e => open_of D (hD D e) (hready.2 D e)⟩
  | snapshotGet s args alloc =>
    obtain ⟨x, hx⟩ := hthere
    rw [ApiOp.prog, Prog.wp_map]
    exact snapshotGet_sound h hx (hready x hx)
  | snapshotRangeIter s args alloc =>
    obtain ⟨x, hx⟩ := hthere
    cases hp : args.parses with
    | false =>
      simp only [ApiOp.prog, Prog.wp_map, PyLevelDBSnapshot.rangeIter, Prog.wp_bind, wp_load_snapshot, hx,
        Prog.found_some]
      exact rangeIter_refused hp fun e => h.noise e w.owned w.calls
    | true =>
      obtain ⟨D, hxD, -⟩ := hready hp x hx
      exact handles ⟨x, by rwa [hsnaps], by rw [hxD]; exact Option.some_ne_none D⟩
  | dropSnapshot s =>
    obtain ⟨x, hx⟩ := hthere
    obtain ⟨D, hxD, -⟩ := hready x hx
    exact handles ⟨x, by rwa [hsnaps], by rw [hxD]; exact Option.some_ne_none D⟩
  | next i allocs =>
    obtain ⟨it, hi⟩ := hthere
    exact handles ⟨it, by rwa [hiters]⟩
  | dropIter i =>
    obtain ⟨it, hi⟩ := hthere
    exact handles ⟨it, by rwa [hiters]⟩
  | newBatch alloc =>
    rw [ApiOp.prog, Prog.wp_map]
    refine batchNew_runs ?_
    cases alloc with
    | false => exact h
    | true => exact h.setBatches _
  | initBatch b wf =>
    obtain ⟨x, hx⟩ := hthere
    rw [ApiOp.prog, Prog.wp_map]
    exact batchInit_runs hx (h.setBatches _)
  | batchPut b wf key value =>
    obtain ⟨x, hx⟩ := hthere
    rw [ApiOp.prog, Prog.wp_map]
    exact batchPut_runs hx (fun _ => h) fun _ e => (h.noise e w.owned w.calls).setBatches _
  | batchDelete b wf key =>
    obtain ⟨x, hx⟩ := hthere
    rw [ApiOp.prog, Prog.wp_map]
    exact batchDelete_runs hx (fun _ => h) fun _ e => (h.noise e w.owned w.calls).setBatches _
  | dropBatch b =>
    obtain ⟨x, hx⟩ := hthere
    rw [ApiOp.prog, Prog.wp_map]
    exact batchDealloc_runs hx (h.setBatches _)
  | repairDb args alloc status =>
    rw [ApiOp.prog, Prog.wp_map]
    exact repairDb_sound h args alloc status
  | destroyDb wf status =>
    rw [ApiOp.prog, Prog.wp_map]
    exact destroyDb_sound h wf status

/-! ## An object that is opened again -/

/-- An iterator or a snapshot object has a leveldb object whose database is deleted, and the end of the
iterator or snapshot object is a fault. -/
def World.Dangles (w : World E) : Prop :=
  (∃ i it n x, w.iters.get i = some it ∧ it.iterator = some n ∧ w.ldbIterators.get n = some x ∧
    w.dbs.get x.inst = none ∧ (ApiOp.dropIter i).prog.run w = .error .freed) ∨
  ∃ s y p x, w.snapshots.get s = some y ∧ y.snapshot = some p ∧ w.ldbSnapshots.get p = some x ∧
    w.dbs.get x.inst = none ∧ ∃ e, (ApiOp.dropSnapshot s).prog.run w = .error e

/-- What `__init__` leaves alone, and what is gone stays gone. -/
theorem World.Inits.leaves (hin : w.Inits D r w') (hr : w.levelDBs.get D = some r) (ha : r.Absent) :
    (w'.iters = w.iters ∧ w'.snapshots = w.snapshots ∧ w'.ldbIterators = w.ldbIterators ∧
      w'.ldbSnapshots = w.ldbSnapshots) ∧
    ∃ r', w'.levelDBs.get D = some r' ∧ ∀ d, d < w.dbs.next → w.dbs.get d = none →
      w'.dbs.get d = none ∧ r'.db ≠ some d := by
  refine ⟨by cases hin <;> exact ⟨rfl, rfl, rfl, rfl⟩, ?_⟩
  cases hin with
  | refused hT =>
    refine ⟨r, (hT D).trans hr, fun d _ hd => ⟨hd, ?_⟩⟩
    rw [ha.1]
    exact (Option.some_ne_none d).symm
  | opened =>
    refine ⟨_, if_pos rfl, fun d hlt hd => ⟨?_, fun e => ?_⟩⟩
    · exact (if_neg (Nat.ne_of_lt hlt)).trans hd
    · exact Nat.ne_of_lt hlt (Option.some.inj e).symm

/-- The end of an iterator object whose database is deleted. -/
theorem dropIter_freed {i n : Nat} {it : PyLevelDBIter} {x : LdbIterator E}
    (hi : w.iters.get i = some it) (hD : it.db = some D) (hr : w.levelDBs.get D = some r)
    (hn : it.iterator = some n) (hx : w.ldbIterators.get n = some x) (hd : w.dbs.get x.inst = none) :
    (ApiOp.dropIter i).prog.run w = .error .freed := by
  have hwp : (ApiOp.dropIter i).prog.wp (.alone (· = .freed)) (fun _ _ _ => False) w () := by
    simp [ApiOp.prog, PyLevelDBIter.dealloc, PyLevelDBIter.clean, Prog.wp_bind, hi, hD,
      PyLevelDB.addIterators, hr, hn, hx, hd]
  rcases (Prog.wp_alone_iff _ _ _ _).mp hwp with ⟨_, _, _, hf⟩ | ⟨e, he, rfl⟩
  · exact hf.elim
  · exact he

/-- The end of a snapshot object whose database is deleted. -/
theorem dropSnapshot_fails {s p : Nat} {y : LdbSnapshot E} (hs : w.snapshots.get s = some ⟨some D, some p⟩)
    (hr : w.levelDBs.get D = some r) (hy : w.ldbSnapshots.get p = some y) (hne : r.db ≠ some y.inst) :
    ∃ e, (ApiOp.dropSnapshot s).prog.run w = .error e := by
  have hwp : fails (ApiOp.dropSnapshot s).prog w := by
    cases hdb : r.db with
    | none =>
      simp [fails, ApiOp.prog, PyLevelDBSnapshot.dealloc, PyLevelDBSnapshot.releaseHeld, Prog.wp_bind,
        hs, hr, hdb]
    | some d =>
      have hd : y.inst ≠ d := fun e => hne (hdb.trans (congrArg some e.symm))
      simp [fails, ApiOp.prog, PyLevelDBSnapshot.dealloc, PyLevelDBSnapshot.releaseHeld, Prog.wp_bind,
        hs, hr, hdb, hy, hd]
  rcases (Prog.wp_alone_iff _ _ _ _).mp hwp with ⟨_, _, _, hf⟩ | ⟨e, he, -⟩
  · exact hf.elim
  · exact ⟨e, he⟩

/-- A count that is not zero. -/
theorem exists_of_count {α : Type} {p : α → Bool} {T : Table α} (h : T.count p ≠ 0) :
    ∃ i a, T.get i = some a ∧ p a = true := by
  by_contra hno
  push Not at hno
  exact h (Table.count_eq_zero fun i a hi => by simpa using hno i a hi)

/-- **`__init__` on a LevelDB object that has iterators or snapshots** leaves one that dangles. -/
theorem reopened_dangles (h : w.Sound) (hr : w.levelDBs.get D = some r)
    (hne : ¬ (r.nIterators = 0 ∧ r.nSnapshots = 0)) {args : Option PyLevelDB.InitArgs}
    {o : PyLevelDB.InitOutcome E} (ho : o.Documented) :
    (PyLevelDB.init D args o).wp (.alone F) (fun _ w' _ => w'.Dangles) w () := by
  obtain ⟨K, v, hwo, hv, hK⟩ := id h
  have hr' : v.levelDBs.get D = some r := by
    rcases hwo.cases hr with hr' | ⟨-, hr'⟩
    · exact hr'
    · exact absurd ⟨(hK D r hr').nIterators, (hK D r hr').nSnapshots⟩ hne
  obtain ⟨⟨A, rfl, hj⟩, hm⟩ := hwo
  obtain ⟨d, inst, hdb, hd, hp⟩ := hv.opened hr'
  have hp : w.Parts r d := ⟨hp.db, hp.options, hp.cache, hp.comparator⟩
  have hlt : d < w.dbs.next := Table.lt_next hd
  refine Prog.wp_mono (init_inits ho (P := fun w₁ => ∃ n, w₁ = { w.closeDb D r with owned := n })
    (fun Q hQ => wp_close_open hr hp fun n => hQ _ ⟨n, rfl⟩) fun w₁ h₁ => ?_) fun _ w' _ hw' => ?_
  · obtain ⟨n, rfl⟩ := h₁
    exact ⟨PyLevelDB.clearParts r, by simp [World.closeDb], rfl, rfl, rfl, rfl⟩
  · obtain ⟨w₁, r₁, ⟨n, rfl⟩, hr₁, ha₁, hin⟩ := hw'
    obtain ⟨⟨hiters, hsnaps, hits, hlsnaps⟩, r', hr'', hgone⟩ := hin.leaves hr₁ ha₁
    obtain ⟨hgone, hnot⟩ := hgone d (by simpa [World.closeDb] using hlt) (by simp [World.closeDb, hdb])
    obtain ⟨hci, hcs, -⟩ := hv.counts D r hr'
    by_cases hi : r.nIterators = 0
    · have hcount : w.snapshots.count (PyLevelDBSnapshot.on D) ≠ 0 := fun e =>
        hne ⟨hi, hcs.trans (congrArg Nat.cast e)⟩
      obtain ⟨s, y, hs, hon⟩ := exists_of_count hcount
      have hon : y.db = some D := by simpa using hon
      rcases hv.snap s y hs with rfl | ⟨D', p, r₂, d', z, rfl, hr₂, hdb₂, hz, -⟩
      · cases hon
      · cases hon
        cases hr'.symm.trans hr₂
        cases hdb.symm.trans hdb₂
        have hs' : w'.snapshots.get s = some ⟨some D, some p⟩ := by rw [hsnaps]; exact hs
        have hz' : w'.ldbSnapshots.get p = some ⟨d, z⟩ := by rw [hlsnaps]; exact hz
        exact .inr ⟨s, _, p, _, hs', rfl, hz', hgone, dropSnapshot_fails hs' hr'' hz' hnot⟩
    · have hcount : w.iters.count (PyLevelDBIter.on D) ≠ 0 := fun e =>
        hi (hci.trans (congrArg Nat.cast e))
      obtain ⟨i, it, hit, hon⟩ := exists_of_count hcount
      have hon : it.db = some D := by simpa using hon
      rcases hv.iter i it hit with ⟨-, hnone, -⟩ | ⟨D', r₂, d', m, x, -, hD', hr₂, hdb₂, hm', hx, -⟩
      · rw [hnone] at hon
        cases hon
      · cases hon.symm.trans hD'
        cases hr'.symm.trans hr₂
        cases hdb.symm.trans hdb₂
        have hit' : w'.iters.get i = some it := by rw [hiters]; exact hit
        have hx' : w'.ldbIterators.get m = some ⟨d, x⟩ := by rw [hits]; exact hx
        exact .inl ⟨i, it, m, _, hit', hm', hx', hgone, dropIter_freed hit' hon hr'' hm' hx' hgone⟩

/-! ## Results -/

theorem empty_sound : (World.empty E).Sound := by
  refine ⟨fun _ => none, World.empty E, ⟨⟨.empty, rfl, fun _ => rfl, fun _ _ _ => rfl⟩, fun p x hp => ?_⟩,
    ?_, fun D r hr => by cases hr⟩
  · cases hp
  · constructor <;> intros <;> contradiction

/-- No pointer dangles, and the counters and references agree with the iterators and snapshots. -/
structure World.Safe (w : World E) : Prop where
  /-- A LevelDB object has its parts, or none. -/
  object : ∀ D r, w.levelDBs.get D = some r → r.Absent ∨ ∃ d, w.Parts r d
  /-- No part is of two LevelDB objects. -/
  apart : ∀ D D' r r', w.levelDBs.get D = some r → w.levelDBs.get D' = some r' → D ≠ D' → r.Apart r'
  iter : ∀ i it, w.iters.get i = some it → it.Ended ∨ w.IterOk i it
  snap : ∀ s x, w.snapshots.get s = some x → x = ⟨none, none⟩ ∨ w.SnapOk s x
  counts : ∀ D r, w.levelDBs.get D = some r → r.nIterators = w.iters.count (PyLevelDBIter.on D) ∧
    r.nSnapshots = w.snapshots.count (PyLevelDBSnapshot.on D) ∧
    r.nIterators = r.refs.countP Holder.isIter ∧ r.nSnapshots = r.refs.countP Holder.isSnap

theorem World.Sound.safe (h : w.Sound) : w.Safe := by
  obtain ⟨K, v, hwo, hv, hK⟩ := h
  have hcases := fun D r (hr : w.levelDBs.get D = some r) => hwo.cases hr
  obtain ⟨⟨A, rfl, hj⟩, -⟩ := hwo
  constructor
  case object =>
    intro D r hr
    rcases hcases D r hr with hr' | ⟨-, hr'⟩
    · obtain ⟨d, hp⟩ := hv.parts D r hr'
      exact .inr ⟨d, hp.db, hp.options, hp.cache, hp.comparator⟩
    · exact .inl (hK D r hr').absent
  case apart =>
    intro D D' r r' hr hr' hne
    rcases hcases D r hr with h₁ | ⟨-, h₁⟩
    · rcases hcases D' r' hr' with h₂ | ⟨-, h₂⟩
      · exact hv.apart D D' r r' h₁ h₂ hne
      · obtain ⟨e1, e2, e3, e4⟩ := (hK D' r' h₂).absent
        simp [PyLevelDB.Apart, e1, e2, e3, e4]
    · obtain ⟨e1, e2, e3, e4⟩ := (hK D r h₁).absent
      simp [PyLevelDB.Apart, e1, e2, e3, e4]
  case iter =>
    exact fun i it hi => (hv.iter i it hi).imp_right fun ok => ok.mono
      (fun D r hr hm => ⟨r, hj.found hr, rfl, hm⟩) (fun _ _ x _ hx => ⟨x, hx⟩) fun _ b _ hb => ⟨b, hb⟩
  case snap =>
    exact fun s x hs => (hv.snap s x hs).imp_right fun ok => ok.mono
      (fun D r hr hm => ⟨r, hj.found hr, rfl, hm⟩) fun _ _ _ hy => hy
  case counts =>
    intro D r hr
    rcases hcases D r hr with hr' | ⟨hnone, hr'⟩
    · obtain ⟨h1, h2, -, h4, h5⟩ := hv.counts D r hr'
      exact ⟨h1, h2, h4, h5⟩
    · have hc := hK D r hr'
      obtain ⟨hi, hs⟩ := hv.alive hnone
      exact ⟨hc.nIterators.trans (congrArg Nat.cast hi.symm),
        hc.nSnapshots.trans (congrArg Nat.cast hs.symm), hc.nIterators.trans (congrArg Nat.cast hc.refs.1.symm),
        hc.nSnapshots.trans (congrArg Nat.cast hc.refs.2.symm)⟩

end PyLeveldb
