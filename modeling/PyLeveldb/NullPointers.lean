import PyLeveldb.Exec
import PyLeveldb.Api

/-!
# Null pointers

A LevelDB object that `__init__` never opened, or failed to open, has null pointers, and so has a
snapshot object without a snapshot. For each function of the binding: what it needs so that it uses
no null pointer, and that it keeps `World.Coherent`, which relates the pointers of one object. A
function `Keeps` the relation, `Leaves` the objects alone, or has a lemma of its own where it needs an
open LevelDB object.
-/

namespace PyLeveldb

variable {E : Env} {w : World E}

/-- The judgement that no null pointer is used. Other faults are no matter here. -/
abbrev noNull : Prog.Rules (World E) Fault Ev Unit := .alone (· ≠ .nullPointer)

@[simp] theorem found_freed {α : Type} {o : Option α} {P : α → Prop} :
    Prog.Found (noNull (E := E)) .freed o P ↔ ∀ a, o = some a → P a := by
  cases o <;> simp

@[simp] theorem found_null {α : Type} {o : Option α} {P : α → Prop} :
    Prog.Found (noNull (E := E)) .nullPointer o P ↔ ∃ a, o = some a ∧ P a := by
  cases o <;> simp

/-! ## What holds between calls -/

/-- An open LevelDB object has its options, and an iterator object in use its pointers. -/
structure World.Coherent (w : World E) : Prop where
  options : ∀ D r, w.levelDBs.get D = some r → r.db ≠ none → r.options ≠ none
  iter : ∀ i it, w.iters.get i = some it → it.ref ≠ none → it.db ≠ none ∧ it.iterator ≠ none

namespace World.Coherent

theorem setDb (h : w.Coherent) {D : Nat} {r : PyLevelDB} (hr : r.db ≠ none → r.options ≠ none) :
    World.Coherent { w with levelDBs := w.levelDBs.set D r } where
  options D' r' hr' := by
    rcases Table.get_set_some hr' with ⟨-, rfl⟩ | ⟨-, hr'⟩
    · exact hr
    · exact h.options D' r' hr'
  iter := h.iter

theorem freeDb (h : w.Coherent) (D : Nat) :
    World.Coherent { w with levelDBs := w.levelDBs.free D } where
  options D' r' hr' := h.options D' r' (Table.get_free_some hr').2
  iter := h.iter

theorem setIter (h : w.Coherent) {i : Nat} {it : PyLevelDBIter}
    (hi : it.ref ≠ none → it.db ≠ none ∧ it.iterator ≠ none) :
    World.Coherent { w with iters := w.iters.set i it } where
  options := h.options
  iter j jt hj := by
    rcases Table.get_set_some hj with ⟨-, rfl⟩ | ⟨-, hj⟩
    · exact hi
    · exact h.iter j jt hj

theorem freeIter (h : w.Coherent) (i : Nat) :
    World.Coherent { w with iters := w.iters.free i } where
  options := h.options
  iter j jt hj := h.iter j jt (Table.get_free_some hj).2

end World.Coherent

/-- The program uses no null pointer and keeps `World.Coherent`. -/
abbrev Keeps {α : Type} (p : C E α) : Prop := p.Keeps noNull fun w _ => w.Coherent

/-- The LevelDB objects and the iterator objects are the same. -/
def World.Same (w w' : World E) : Prop := w'.levelDBs = w.levelDBs ∧ w'.iters = w.iters

theorem World.Same.trans {w' w'' : World E} (h : w.Same w') (h' : w'.Same w'') : w.Same w'' :=
  ⟨h'.1.trans h.1, h'.2.trans h.2⟩

theorem World.Coherent.same (h : w.Coherent) {w' : World E} (hs : w.Same w') : w'.Coherent where
  options D r hr := h.options D r (hs.1 ▸ hr)
  iter i it hi := h.iter i it (hs.2 ▸ hi)

/-- LevelDB objects lose references and counters at most, or go; the iterator objects are the same. -/
structure World.Shrinks (w w' : World E) : Prop where
  dbs : ∀ D r', w'.levelDBs.get D = some r' →
    ∃ r, w.levelDBs.get D = some r ∧ r'.db = r.db ∧ r'.options = r.options
  iters : w'.iters = w.iters

theorem World.Same.shrinks {w' : World E} (h : w.Same w') : w.Shrinks w' :=
  ⟨fun _ r' hr' => ⟨r', h.1 ▸ hr', rfl, rfl⟩, h.2⟩

theorem World.Shrinks.trans {w' w'' : World E} (h : w.Shrinks w') (h' : w'.Shrinks w'') :
    w.Shrinks w'' where
  dbs D r'' hr'' := by
    obtain ⟨r', hr', e₁, e₂⟩ := h'.dbs D r'' hr''
    obtain ⟨r, hr, e₃, e₄⟩ := h.dbs D r' hr'
    exact ⟨r, hr, e₁.trans e₃, e₂.trans e₄⟩
  iters := h'.iters.trans h.iters

theorem World.Coherent.shrinks (h : w.Coherent) {w' : World E} (hs : w.Shrinks w') :
    w'.Coherent where
  options D r' hr' hdb := by
    obtain ⟨r, hr, e₁, e₂⟩ := hs.dbs D r' hr'
    rw [e₂]
    exact h.options D r hr (e₁ ▸ hdb)
  iter i it hi := h.iter i it (hs.iters ▸ hi)

/-- The program uses no null pointer and leaves the LevelDB objects and the iterator objects. -/
def Leaves {α : Type} (p : C E α) : Prop := ∀ w₀ : World E, p.Keeps noNull fun w _ => w₀.Same w

namespace Leaves

variable {α : Type} {p : C E α}

theorem wp (hp : Leaves p) {Q : α → World E → Unit → Prop}
    (hQ : ∀ a w', w.Same w' → Q a w' ()) : p.wp noNull Q w () :=
  (hp w).wp (c := ()) ⟨rfl, rfl⟩ fun a w' _ hs => hQ a w' hs

theorem keeps (hp : Leaves p) : Keeps p := fun _ _ h => hp.wp fun _ _ hs => h.same hs

theorem bind {β : Type} {f : α → C E β} (hp : Leaves p) (hf : ∀ a, Leaves (f a)) :
    Leaves (p >>= f) := fun w₀ => (hp w₀).bind fun a => hf a w₀

end Leaves

/-! ## Functions that never use a null pointer -/

theorem compare_leaves (c : CmpPtr) (a b : Bytes) : Leaves (E := E) (c.compare a b) := by
  intro w₀ w _ h
  cases c with
  | bytewise => exact h
  | python p =>
    simp only [CmpPtr.compare, PythonComparatorWrapper.compare, Prog.wp_bind, Prog.wp_event,
      Prog.alone_event, wp_newRef, wp_row, found_freed, Prog.wp_state, Prog.wp_put]
    intro x hx
    rw [Prog.wp_when]
    refine ⟨fun _ => ?_, fun _ => ?_⟩ <;> simp only [wp_dropRef, wp_newRef, Prog.alone_event] <;> split
    · exact Fault.noConfusion
    · exact h
    · exact Fault.noConfusion
    · exact h

theorem load_leaves (D : Nat) : Leaves (E := E) (PyLevelDB.load D) := by
  intro w₀ w _ h
  simp only [wp_load_levelDB, found_freed]
  exact fun _ _ => h

theorem deleteDb_leaves (d : Option Nat) : Leaves (E := E) (deleteDb d) := by
  intro w₀ w _ h
  cases d with
  | none => exact h
  | some d =>
    simp only [wp_deleteDb_some, found_freed, Prog.alone_event]
    exact fun _ _ => h

theorem deleteRow_leaves {α : Type} (T : World E → Table α) (put : Table α → World E → World E)
    (p : Option Nat) (hput : ∀ t w, (put t w).levelDBs = w.levelDBs ∧ (put t w).iters = w.iters) :
    Leaves (deleteRow T put p) := by
  intro w₀ w _ h
  cases p with
  | none => exact h
  | some p =>
    simp only [deleteRow, Prog.wp_bind, wp_row, found_freed, Prog.wp_modify]
    exact fun _ _ => ⟨(hput _ _).1.trans h.1, (hput _ _).2.trans h.2⟩

theorem deleteOptions_leaves (p : Option Nat) : Leaves (E := E) (deleteOptions p) :=
  deleteRow_leaves _ _ p fun _ _ => ⟨rfl, rfl⟩

theorem deleteCache_leaves (p : Option Nat) : Leaves (E := E) (deleteCache p) :=
  deleteRow_leaves _ _ p fun _ _ => ⟨rfl, rfl⟩

theorem deleteString_leaves (p : Option Nat) : Leaves (E := E) (deleteString p) :=
  deleteRow_leaves _ _ p fun _ _ => ⟨rfl, rfl⟩

theorem deleteComparator_leaves (c : Option CmpPtr) : Leaves (E := E) (deleteComparator c) := by
  intro w₀ w _ h
  match c with
  | none => exact h
  | some .bytewise => exact h
  | some (.python p) =>
    simp only [deleteComparator, PythonComparatorWrapper.delete, Prog.wp_bind, wp_row, found_freed,
      wp_inFrame, Prog.alone_event, wp_dropRef, Prog.wp_modify]
    exact fun _ _ => h

theorem deleteIterator_leaves (n : Option Nat) : Leaves (E := E) (deleteIterator n) := by
  intro w₀ w _ h
  cases n with
  | none => exact h
  | some n =>
    simp only [wp_deleteIterator_some, found_freed, Prog.alone_event]
    exact fun _ _ _ _ => h

theorem deleteParts_leaves (D : Nat) : Leaves (E := E) (PyLevelDB.deleteParts D) := by
  unfold PyLevelDB.deleteParts
  refine (load_leaves D).bind fun r => (deleteDb_leaves _).bind fun _ => ?_
  refine (load_leaves D).bind fun r => (deleteOptions_leaves _).bind fun _ => ?_
  refine (load_leaves D).bind fun r => (deleteCache_leaves _).bind fun _ => ?_
  exact (load_leaves D).bind fun r => deleteComparator_leaves _

theorem update_keeps (D : Nat) {f : PyLevelDB → PyLevelDB}
    (hf : ∀ r, (r.db ≠ none → r.options ≠ none) → (f r).db ≠ none → (f r).options ≠ none) :
    Keeps (E := E) (PyLevelDB.update D f) := by
  intro w _ h
  simp only [wp_update_levelDB, found_freed]
  intro r hr
  exact h.setDb (hf r (h.options D r hr))

theorem update_shrinks {D : Nat} {f : PyLevelDB → PyLevelDB} {Q : Unit → World E → Unit → Prop}
    (hf : ∀ r, (f r).db = r.db ∧ (f r).options = r.options)
    (hQ : ∀ w', w.Shrinks w' → Q () w' ()) : (PyLevelDB.update D f).wp noNull Q w () := by
  simp only [wp_update_levelDB, found_freed]
  refine fun r hr => hQ _ ⟨fun D' r' hr' => ?_, rfl⟩
  rcases Table.get_set_some hr' with ⟨rfl, rfl⟩ | ⟨-, hr'⟩
  · exact ⟨r, hr, hf r⟩
  · exact ⟨r', hr', rfl, rfl⟩

/-- `Py_DECREF`: the last reference takes the object with it. -/
theorem decref_shrinks {D : Nat} {a : Holder} {Q : Unit → World E → Unit → Prop}
    (hQ : ∀ w', w.Shrinks w' → Q () w' ()) : (PyLevelDB.decref D a).wp noNull Q w () := by
  simp only [PyLevelDB.decref, Prog.wp_bind, wp_py, Prog.alone_event, wp_load_levelDB, found_freed]
  intro r hr
  split
  · exact Fault.noConfusion
  · rw [Prog.wp_bind]
    refine update_shrinks (fun _ => ⟨rfl, rfl⟩) fun w₁ hs₁ => ?_
    rw [Prog.wp_when]
    refine ⟨fun _ => ?_, fun _ => hQ w₁ hs₁⟩
    simp only [PyLevelDB.dealloc, wp_inFrame, Prog.alone_event, Prog.wp_bind, wp_begin]
    refine (deleteParts_leaves D).wp fun _ w₂ hs₂ => ?_
    simp only [wp_end, Prog.alone_event, wp_update_levelDB, found_freed, wp_py, Prog.wp_modify]
    refine fun _ _ => hQ _ (hs₁.trans (hs₂.shrinks.trans ⟨fun D' r' hr' => ?_, rfl⟩))
    obtain ⟨hne, hr'⟩ := Table.get_free_some hr'
    rw [Table.get_set, if_neg hne] at hr'
    exact ⟨r', hr', rfl, rfl⟩

theorem decref_keeps (D : Nat) (a : Holder) : Keeps (E := E) (PyLevelDB.decref D a) :=
  fun _ _ h => decref_shrinks fun _ hs => h.shrinks hs

theorem incref_keeps (D : Nat) (a : Holder) : Keeps (E := E) (PyLevelDB.incref D a) := by
  intro w _ h
  simp only [PyLevelDB.incref, Prog.wp_bind, wp_py, Prog.alone_event]
  refine update_keeps D ?_ w () h
  exact fun _ hr => hr

theorem addIterators_keeps (D : Option Nat) (k : Int) :
    Keeps (E := E) (PyLevelDB.addIterators D k) := by
  cases D with
  | none => exact .pure ()
  | some D => exact update_keeps D fun _ hr => hr

theorem addSnapshots_keeps (D : Option Nat) (k : Int) :
    Keeps (E := E) (PyLevelDB.addSnapshots D k) := by
  cases D with
  | none => exact .pure ()
  | some D => exact update_keeps D fun _ hr => hr

theorem xdecref_keeps (D : Option Nat) (a : Holder) : Keeps (E := E) (PyLevelDB.xdecref D a) := by
  cases D with
  | none => exact .pure ()
  | some D => exact decref_keeps D a

theorem clean_keeps (i : Nat) : Keeps (E := E) (PyLevelDBIter.clean i) := by
  intro w _ h
  simp only [PyLevelDBIter.clean, wp_inFrame, Prog.alone_event, Prog.wp_bind, wp_load_iter,
    found_freed, wp_begin, wp_end]
  intro it hi
  refine (addIterators_keeps _ _).wp h fun _ w _ h => ?_
  intro it hi
  refine (deleteIterator_leaves _).keeps.wp h fun _ w _ h => ?_
  intro it hi
  refine (deleteString_leaves _).keeps.wp h fun _ w _ h => ?_
  intro it hi
  refine (xdecref_keeps _ _).wp h fun _ w _ h => ?_
  simp only [wp_update_iter, found_freed]
  exact fun it _ => h.setIter fun href => absurd rfl href

theorem iterDealloc_keeps (i : Nat) : Keeps (E := E) (PyLevelDBIter.dealloc i) := by
  intro w _ h
  simp only [PyLevelDBIter.dealloc, wp_inFrame, Prog.alone_event, Prog.wp_bind]
  refine (clean_keeps i).wp h fun _ w _ h => ?_
  exact h.freeIter i

/-! ## Opening -/

section Open

variable {D : Nat}

theorem close_closes {Q : Unit → World E → Unit → Prop} (h : w.Coherent)
    (hQ : ∀ w', w'.Coherent → (∀ r, w'.levelDBs.get D = some r → r.db = none) → Q () w' ()) :
    (PyLevelDB.close D).wp noNull Q w () := by
  simp only [PyLevelDB.close, Prog.wp_bind, wp_load_levelDB, found_freed]
  intro r hr
  rw [Prog.wp_when]
  refine ⟨fun _ => ?_, fun hnull => ?_⟩
  · simp only [Prog.wp_bind, wp_begin, Prog.alone_event]
    refine (deleteParts_leaves D).keeps.wp h fun _ w _ h => ?_
    simp only [wp_end, Prog.alone_event, wp_update_levelDB, found_freed]
    intro r hr
    refine hQ _ (h.setDb fun hdb => absurd rfl hdb) fun r' hr' => ?_
    rw [Table.get_set, if_pos rfl] at hr'
    cases hr'
    rfl
  · refine hQ w h fun r' hr' => ?_
    cases hr.symm.trans hr'
    simp only [Bool.or_eq_false_iff, Option.isSome_eq_false_iff, Option.isNone_iff_eq_none] at hnull
    exact hnull.1.1.1

theorem getComparator_leaves (arg : ComparatorArg) (alloc : Bool) :
    Leaves (E := E) (getComparator arg alloc) := by
  intro w₀ w _ h
  cases arg with
  | absent => exact h
  | str p =>
    cases hp : strEq p bytewiseName <;>
      simp only [getComparator, hp, Bool.false_eq_true, ↓reduceIte, Prog.wp_pure]
    · exact h
    · exact h
  | pair name callable obj =>
    cases callable
    · exact h
    · cases alloc
      · exact h
      · exact h
  | other => exact h

theorem newOptions_leaves (alloc : Bool) : Leaves (E := E) (PyLevelDB.newOptions alloc) := by
  intro w₀ w _ h
  cases alloc
  · exact h
  · exact h

theorem newLRUCache_leaves (alloc : Bool) (capacity : UInt64) :
    Leaves (E := E) (PyLevelDB.newLRUCache alloc capacity) := by
  intro w₀ w _ h
  cases alloc
  · exact h
  · exact h

/-- `DB::Open` on an object that has options. -/
theorem dbOpen_coherent {opened : Except Status E.Db} {Q : Status → World E → Unit → Prop}
    (h : w.Coherent) (ho : ∀ r, w.levelDBs.get D = some r → r.options ≠ none)
    (hQ : ∀ st w', w'.Coherent → Q st w' ()) :
    (PyLevelDB.dbOpen D opened).wp noNull Q w () := by
  simp only [PyLevelDB.dbOpen, Prog.wp_bind, wp_load_levelDB, found_freed, wp_deref, found_null,
    wp_row, wp_update_levelDB, Prog.wp_state, Prog.wp_event, Prog.alone_event]
  intro r hr
  obtain ⟨o, hopt⟩ := Option.ne_none_iff_exists'.mp (ho r hr)
  refine ⟨o, hopt, fun opts _ r' hr' => ?_⟩
  cases hr.symm.trans hr'
  have hw := h.setDb (D := D) (r := { r with db := none }) fun hdb => absurd rfl hdb
  cases opened with
  | error st => exact hQ st _ hw
  | ok db =>
    simp only [Prog.wp_bind, Prog.wp_state, Prog.wp_put, wp_update_levelDB, found_freed,
      Table.get_set, ↓reduceIte, Option.some.injEq, forall_eq', Prog.wp_pure]
    have hw := hw.setDb (D := D) (r := { r with db := some w.dbs.next }) fun _ => ho r hr
    exact hQ _ _ (hw.same ⟨rfl, rfl⟩)

theorem open_keeps {args : PyLevelDB.InitArgs} {c : CmpPtr} {o : PyLevelDB.InitOutcome E}
    {Q : Except Exn Unit → World E → Unit → Prop} (h : w.Coherent)
    (hclosed : ∀ r, w.levelDBs.get D = some r → r.db = none)
    (hQ : ∀ res w', w'.Coherent → Q res w' ()) :
    (PyLevelDB.open_ D args c o).wp noNull Q w () := by
  simp only [PyLevelDB.open_, Prog.wp_bind]
  refine (newOptions_leaves _).wp fun options w₁ hs₁ => ?_
  refine (newLRUCache_leaves _ _).wp fun cache w₂ hs₂ => ?_
  have hclosed₂ : ∀ r, w₂.levelDBs.get D = some r → r.db = none :=
    fun r hr => hclosed r (hs₁.1 ▸ hs₂.1 ▸ hr)
  simp only [wp_update_levelDB, found_freed]
  intro r hr
  have hnone : r.db = none := hclosed₂ r hr
  have h₃ := ((h.same hs₁).same hs₂).setDb (D := D)
    (r := { r with options := options, cache := cache, comparator := some c })
    fun hdb => absurd hnone hdb
  split
  · simp only [Prog.wp_bind, wp_begin, Prog.alone_event]
    refine (load_leaves D).wp fun _ v₁ e₁ => (deleteOptions_leaves _).wp fun _ v₂ e₂ => ?_
    refine (load_leaves D).wp fun _ v₃ e₃ => (deleteCache_leaves _).wp fun _ v₄ e₄ => ?_
    refine (load_leaves D).wp fun _ v₅ e₅ => (deleteComparator_leaves _).wp fun _ v₆ e₆ => ?_
    have e := ((((e₁.trans e₂).trans e₃).trans e₄).trans e₅).trans e₆
    simp only [wp_end, Prog.alone_event, wp_update_levelDB, found_freed, wp_raise]
    intro r' hr'
    rw [e.1, Table.get_set, if_pos rfl] at hr'
    cases hr'
    exact hQ _ _ ((h₃.same e).setDb fun hdb => absurd hnone hdb)
  · next hsome =>
    obtain ⟨p, rfl⟩ : ∃ p, options = some p := by
      cases options with
      | none => exact absurd rfl hsome
      | some p => exact ⟨p, rfl⟩
    simp only [Prog.wp_bind, wp_load_levelDB, Table.get_set, ↓reduceIte, Prog.found_some,
      wp_deref_some, wp_row, found_freed, Prog.wp_modify, wp_begin, Prog.alone_event]
    intro opts hopts
    refine dbOpen_coherent (h₃.same ⟨rfl, rfl⟩) (fun r' hr' => ?_) fun st w h => ?_
    · rw [Table.get_set, if_pos rfl] at hr'
      cases hr'
      exact Option.some_ne_none p
    · have hclean : Keeps (E := E)
          (PyLevelDB.deleteParts D >>= fun _ => PyLevelDB.update D PyLevelDB.clearParts) :=
        (deleteParts_leaves D).keeps.bind fun _ => update_keeps D fun r _ hdb => absurd rfl hdb
      refine Prog.Keeps.wp (Prog.Keeps.when hclean) h fun _ w _ h => ?_
      simp only [wp_end, Prog.alone_event]
      split
      · exact hQ _ _ h
      · exact hQ _ _ h

theorem init_keeps (args : Option PyLevelDB.InitArgs) (o : PyLevelDB.InitOutcome E) :
    Keeps (PyLevelDB.init D args o) := by
  intro w _ h
  simp only [PyLevelDB.init, wp_inFrame, Prog.alone_event, Prog.wp_bind]
  refine close_closes h fun w h hclosed => ?_
  simp only [wp_py, Prog.alone_event]
  cases args with
  | none => exact h
  | some args =>
    simp only
    split
    · exact h
    · rw [Prog.wp_bind]
      refine (getComparator_leaves _ _).wp fun res w' hs => ?_
      have h := h.same hs
      cases res with
      | error e => exact h
      | ok c =>
        exact open_keeps h (fun r hr => hclosed r (hs.1 ▸ hr)) fun res w' h => h

end Open

/-! ## Calls into leveldb -/

section Calls

variable {α : Type}

theorem callDb_leaves (op : LdbOp) (d : Nat) (f : E.Db → α × E.Db) :
    Leaves (E := E) (callDb op d f) := by
  intro w₀ w _ h
  simp only [wp_callDb, found_freed, Prog.alone_event]
  exact fun _ _ _ _ => h

theorem resolve_leaves (d : Nat) (snapshot : Option Nat) : Leaves (E := E) (resolve d snapshot) := by
  intro w₀ w _ h
  cases snapshot with
  | none => exact h
  | some s =>
    simp only [wp_resolve_some, found_freed]
    intro x hx
    split
    · exact h
    · exact Fault.noConfusion

theorem dbGet_leaves (d : Nat) (verify fill : Bool) (snapshot : Option Nat) (key : Bytes) :
    Leaves (E := E) (dbGet d verify fill snapshot key) :=
  (resolve_leaves d snapshot).bind fun _ => callDb_leaves _ _ _

theorem dbGetSnapshot_leaves (d : Nat) : Leaves (E := E) (dbGetSnapshot d) :=
  (callDb_leaves _ _ _).bind fun _ _ _ _ h => h

theorem dbReleaseSnapshot_leaves (d s : Nat) : Leaves (E := E) (dbReleaseSnapshot d s) := by
  intro w₀ w _ h
  simp only [wp_dbReleaseSnapshot, found_freed]
  intro x hx
  split
  · exact (callDb_leaves _ _ _).wp fun _ w' hs => h.trans hs
  · exact Fault.noConfusion

theorem dbNewIterator_leaves (d : Nat) (verify fill : Bool) (snapshot : Option Nat) :
    Leaves (E := E) (dbNewIterator d verify fill snapshot) := by
  refine (resolve_leaves d snapshot).bind fun snap => (callDb_leaves _ _ _).bind fun it => ?_
  cases it with
  | none => exact fun _ _ _ h => h
  | some it => exact fun _ _ _ h => h

theorem iterPosition_leaves (n : Nat) (f : E.Iter → E.Iter) : Leaves (iterPosition n f) := by
  intro w₀ w _ h
  simp only [wp_iterPosition, wp_iterSet, found_freed, Prog.alone_event]
  exact fun _ _ _ _ _ _ => h

theorem iterMove_leaves (n : Nat) (f g : E.Iter → E.Iter) : Leaves (iterMove n f g) := by
  intro w₀ w _ h
  simp only [iterMove, callback, Prog.wp_bind, wp_loadIterator, wp_loadDb, wp_iterSet, found_freed,
    Prog.wp_event, Prog.alone_event]
  intro x hx y hy z hz v hv
  rw [Prog.wp_when]
  refine ⟨fun _ => ?_, fun _ => ?_⟩
  · simp only [Prog.wp_bind, Prog.wp_event, Prog.alone_event]
    exact fun _ _ _ _ => h
  · exact fun _ _ _ _ => h

theorem parseOptional_parses {a : Option Arg} {Q : Bool → World E → Unit → Prop}
    (htrue : a.all (·.data.isSome) = true → ∀ w', w.Same w' → Q true w' ())
    (hfalse : Q false w ()) : (PyLevelDB.parseOptional a).wp noNull Q w () := by
  cases a with
  | none => exact htrue rfl w ⟨rfl, rfl⟩
  | some a =>
    simp only [PyLevelDB.parseOptional, wp_parse, Prog.alone_event]
    split
    · next hp => exact htrue (by simpa [parses] using hp) _ ⟨rfl, rfl⟩
    · exact hfalse

theorem releaseOptional_leaves (a : Option Arg) : Leaves (E := E) (PyLevelDB.releaseOptional a) := by
  intro w₀ w _ h
  cases a <;> exact h

end Calls

/-! ## Calls on a LevelDB object -/

/-- The LevelDB object `D`, if it is there, is open. -/
def World.OpenDb (w : World E) (D : Nat) : Prop := ∀ r, w.levelDBs.get D = some r → r.db ≠ none

/-- The LevelDB object `D`, if it is there, has its options. -/
def World.HasOptions (w : World E) (D : Nat) : Prop :=
  ∀ r, w.levelDBs.get D = some r → r.options ≠ none

section Methods

variable {D : Nat}

theorem put_keeps {args : PyLevelDB.PutArgs} (h : w.Coherent)
    (ho : parses args.wellFormed [args.key, args.value] = true → w.OpenDb D) :
    (PyLevelDB.put D args).wp noNull (fun _ w' _ => w'.Coherent) w () := by
  simp only [PyLevelDB.put, Prog.wp_bind, wp_parse, Prog.alone_event]
  split
  · next hp =>
    simp only [Bool.not_true, Bool.false_eq_true, ↓reduceIte, Prog.wp_bind, wp_begin,
      Prog.alone_event, wp_load_levelDB, found_freed]
    intro r hr
    obtain ⟨d, hd⟩ := Option.ne_none_iff_exists'.mp (ho hp r hr)
    rw [wp_deref_of hd]
    refine (callDb_leaves _ _ _).wp fun st w' hs => ?_
    simp only [wp_end, Prog.alone_event, wp_releaseBuffer]
    split <;> exact h.same hs
  · exact h

theorem delete_keeps {args : PyLevelDB.DeleteArgs} (h : w.Coherent)
    (ho : parses args.wellFormed [args.key] = true → w.OpenDb D) :
    (PyLevelDB.delete D args).wp noNull (fun _ w' _ => w'.Coherent) w () := by
  simp only [PyLevelDB.delete, Prog.wp_bind, wp_parse, Prog.alone_event]
  split
  · next hp =>
    simp only [Bool.not_true, Bool.false_eq_true, ↓reduceIte, Prog.wp_bind, wp_begin,
      Prog.alone_event, wp_load_levelDB, found_freed]
    intro r hr
    obtain ⟨d, hd⟩ := Option.ne_none_iff_exists'.mp (ho hp r hr)
    rw [wp_deref_of hd]
    refine (callDb_leaves _ _ _).wp fun st w' hs => ?_
    simp only [wp_end, Prog.alone_event, wp_releaseBuffer]
    split <;> exact h.same hs
  · exact h

theorem write_keeps {args : PyLevelDB.WriteArgs} (h : w.Coherent)
    (ho : parses args.wellFormed [] = true → w.OpenDb D) :
    (PyLevelDB.write D args).wp noNull (fun _ w' _ => w'.Coherent) w () := by
  simp only [PyLevelDB.write, Prog.wp_bind, wp_parse, Prog.alone_event]
  split
  · next hp =>
    simp only [Bool.not_true, Bool.false_eq_true, ↓reduceIte, Prog.wp_bind, wp_begin,
      Prog.alone_event, wp_load_batch, wp_load_levelDB, found_freed]
    intro b _ r hr
    obtain ⟨d, hd⟩ := Option.ne_none_iff_exists'.mp (ho hp r hr)
    rw [wp_deref_of hd]
    refine (callDb_leaves _ _ _).wp fun st w' hs => ?_
    simp only [wp_end, Prog.alone_event]
    split <;> exact h.same hs
  · exact h

/-- `Get`, and `Snapshot.Get`. -/
theorem get_keeps {db snapshot : Option Nat} {args : PyLevelDB.GetArgs} {alloc : Bool}
    (h : w.Coherent) (ho : parses args.wellFormed [args.key] = true → db ≠ none) :
    (PyLevelDB.get_ db snapshot args alloc).wp noNull (fun _ w' _ => w'.Coherent) w () := by
  simp only [PyLevelDB.get_, Prog.wp_bind, wp_parse, Prog.alone_event]
  split
  · next hp =>
    obtain ⟨d, rfl⟩ := Option.ne_none_iff_exists'.mp (ho hp)
    simp only [Bool.not_true, Bool.false_eq_true, ↓reduceIte, Prog.wp_bind, wp_begin,
      Prog.alone_event, wp_deref_some]
    refine (dbGet_leaves _ _ _ _ _).wp fun st w' hs => ?_
    have h := h.same hs
    simp only [wp_end, Prog.alone_event, wp_releaseBuffer]
    split
    · split <;> exact h.same ⟨rfl, rfl⟩
    · split
      · exact h.same ⟨rfl, rfl⟩
      · split <;> exact h.same ⟨rfl, rfl⟩
  · exact h

theorem getStatus_keeps (h : w.Coherent) (ho : w.OpenDb D) :
    (PyLevelDB.getStatus D).wp noNull (fun _ w' _ => w'.Coherent) w () := by
  simp only [PyLevelDB.getStatus, Prog.wp_bind, wp_load_levelDB, found_freed]
  intro r hr
  obtain ⟨d, hd⟩ := Option.ne_none_iff_exists'.mp (ho r hr)
  rw [wp_deref_of hd]
  refine (callDb_leaves _ _ _).wp fun res w' hs => ?_
  have h := h.same hs
  cases res with
  | none => exact h
  | some value => exact h.same ⟨rfl, rfl⟩

theorem compactRange_keeps {args : PyLevelDB.CompactArgs} (h : w.Coherent)
    (ho : args.parses = true → w.OpenDb D) :
    (PyLevelDB.compactRange D args).wp noNull (fun _ w' _ => w'.Coherent) w () := by
  simp only [PyLevelDB.compactRange, Prog.wp_bind, wp_parse, Prog.alone_event]
  split
  case isFalse => exact h
  next hwf =>
  simp only [Bool.not_true, Bool.false_eq_true, ↓reduceIte, Prog.wp_bind]
  refine parseOptional_parses (fun hstart w₁ hs₁ => ?_) (h.same ⟨rfl, rfl⟩)
  simp only [Bool.not_true, Bool.false_eq_true, ↓reduceIte, Prog.wp_bind]
  refine parseOptional_parses (fun hfinish w₂ hs₂ => ?_) (h.same ⟨hs₁.1, hs₁.2⟩)
  have hs := hs₁.trans hs₂
  have hp : args.parses = true := by
    simp only [PyLevelDB.CompactArgs.parses, hstart, hfinish, Bool.and_true]
    simpa [parses] using hwf
  simp only [Bool.not_true, Bool.false_eq_true, ↓reduceIte, Prog.wp_bind, wp_begin,
    Prog.alone_event, wp_load_levelDB, found_freed]
  intro r hr
  obtain ⟨d, hd⟩ := Option.ne_none_iff_exists'.mp (ho hp r (by rw [← hr, hs.1]))
  rw [wp_deref_of hd]
  refine (callDb_leaves _ _ _).wp fun _ w₃ hs₃ => ?_
  simp only [wp_end, Prog.alone_event]
  refine (releaseOptional_leaves _).wp fun _ w₄ hs₄ => ?_
  refine (releaseOptional_leaves _).wp fun _ w₅ hs₅ => ?_
  exact h.same (((hs.trans hs₃).trans hs₄).trans hs₅)

/-- A new iterator object, with pointers or at its end. -/
theorem new_keeps {ref db iterator bound : Option Nat} {includeValue reverse alloc : Bool}
    (hp : ref ≠ none → db ≠ none ∧ iterator ≠ none) :
    Keeps (E := E) (PyLevelDBIter.new ref db iterator bound includeValue reverse alloc) := by
  intro w _ h
  simp only [PyLevelDBIter.new, Prog.wp_bind, wp_py, Prog.alone_event]
  split
  · simp only [Prog.wp_bind, wp_begin, Prog.alone_event]
    exact (deleteIterator_leaves _).wp fun _ w' hs => h.same hs
  · simp only [Prog.wp_bind, Prog.wp_state]
    have hinc : Keeps (E := E) (PyLevelDB.xincref ref (.iter w.iters.next)) := by
      cases ref with
      | none => exact .pure ()
      | some D => exact incref_keeps D _
    refine hinc.wp h fun _ w _ h => ?_
    simp only [Prog.wp_modify]
    refine (addIterators_keeps db 1).wp (h.setIter hp) fun _ w _ h => ?_
    exact h

theorem position_keeps {n : Nat} {reverse : Bool} {keyFrom keyTo : Option Bytes} (h : w.Coherent)
    (ho : w.OpenDb D) {Q : Unit → World E → Unit → Prop} (hQ : ∀ w', w.Same w' → Q () w' ()) :
    (PyLevelDB.position D n reverse keyFrom keyTo).wp noNull Q w () := by
  unfold PyLevelDB.position
  cases reverse with
  | false => cases keyFrom <;> exact (iterPosition_leaves _ _).wp fun _ w' hs => hQ w' hs
  | true =>
    cases keyTo with
    | none => exact (iterPosition_leaves _ _).wp fun _ w' hs => hQ w' hs
    | some key =>
      simp only [Bool.not_true, Bool.false_eq_true, ↓reduceIte, Prog.wp_bind]
      refine (iterPosition_leaves _ _).wp fun _ w₁ hs₁ => ?_
      simp only [wp_iterValid, found_freed]
      intro x hx
      split
      · exact (iterPosition_leaves _ _).wp fun _ w' hs => hQ w' (hs₁.trans hs)
      · simp only [Prog.wp_bind, wp_iterKey, wp_load_levelDB, wp_deref, wp_row, found_freed,
          found_null]
        intro y hy r hr
        rw [hs₁.1] at hr
        obtain ⟨o, hopt⟩ := Option.ne_none_iff_exists'.mp (h.options D r hr (ho r hr))
        refine ⟨o, hopt, fun opts _ => ?_⟩
        refine (compare_leaves _ _ _).wp fun z w₂ hs₂ => ?_
        rw [Prog.wp_when]
        refine ⟨fun _ => ?_, fun _ => hQ _ (hs₁.trans hs₂)⟩
        exact (iterPosition_leaves _ _).wp fun _ w' hs => hQ w' ((hs₁.trans hs₂).trans hs)

/-- `RangeIter`, and `Snapshot.RangeIter`. -/
theorem rangeIter_keeps {self snapshot : Option Nat} {args : RangeArgs} {alloc : Bool}
    (h : w.Coherent) (ho : args.parses = true → ∃ D, self = some D ∧ w.OpenDb D) :
    (PyLevelDB.rangeIter_ self snapshot args alloc).wp noNull (fun _ w' _ => w'.Coherent) w () := by
  simp only [PyLevelDB.rangeIter_, Prog.wp_bind, wp_parse, Prog.alone_event]
  split
  case isFalse => exact h
  next hwf =>
  simp only [Bool.not_true, Bool.false_eq_true, ↓reduceIte, Prog.wp_bind]
  refine parseOptional_parses (fun hfrom w₁ hs₁ => ?_) (h.same ⟨rfl, rfl⟩)
  simp only [Bool.not_true, Bool.false_eq_true, ↓reduceIte, Prog.wp_bind]
  refine parseOptional_parses (fun hto w₂ hs₂ => ?_) (h.same ⟨hs₁.1, hs₁.2⟩)
  have hp : args.parses = true := by
    simp only [RangeArgs.parses, hfrom, hto, Bool.and_true]
    simpa [parses] using hwf
  obtain ⟨D, rfl, hopen⟩ := ho hp
  simp only [Bool.not_true, Bool.false_eq_true, ↓reduceIte, Prog.wp_bind]
  refine (releaseOptional_leaves _).wp fun _ w₃ hs₃ => ?_
  refine (releaseOptional_leaves _).wp fun _ w₄ hs₄ => ?_
  have hs := ((hs₁.trans hs₂).trans hs₃).trans hs₄
  simp only [wp_begin, Prog.alone_event, wp_deref_some, wp_load_levelDB, found_freed]
  intro r hr
  obtain ⟨d, hd⟩ := Option.ne_none_iff_exists'.mp (hopen r (by rw [← hr, hs.1]))
  rw [wp_deref_of hd]
  refine (dbNewIterator_leaves _ _ _ _).wp fun n w₅ hs₅ => ?_
  have hs := hs.trans hs₅
  cases n with
  | none => exact h.same hs
  | some n =>
    have hopen₅ : w₅.OpenDb D := fun r hr => hopen r (by rw [← hr, hs.1])
    refine position_keeps (h.same hs) hopen₅ fun w₆ hs₆ => ?_
    have hs := hs.trans hs₆
    simp only [wp_end, Prog.alone_event, Prog.wp_bind, wp_iterValid, found_freed]
    intro x hx
    split
    · simp only [Prog.wp_bind, wp_begin, Prog.alone_event]
      refine (deleteIterator_leaves _).wp fun _ w₇ hs₇ => ?_
      simp only [wp_end, Prog.alone_event]
      exact new_keeps (fun hn => absurd rfl hn) w₇ () (h.same (hs.trans hs₇))
    · have hbound : Leaves (E := E)
          (PyLevelDB.newBound (PyLevelDB.scanBound args.reverse (args.keyFrom.map Arg.bytes)
            (args.keyTo.map Arg.bytes))) := by
        intro w₀ w _ h
        cases PyLevelDB.scanBound args.reverse (args.keyFrom.map Arg.bytes)
            (args.keyTo.map Arg.bytes) <;> exact h
      rw [Prog.wp_bind]
      refine hbound.wp fun b w₇ hs₇ => ?_
      exact new_keeps (fun _ => ⟨Option.some_ne_none D, Option.some_ne_none n⟩) w₇ ()
        (h.same (hs.trans hs₇))

/-- A step of an iterator object. -/
theorem next_keeps {i : Nat} {allocs : PyLevelDBIter.NextAllocs} (h : w.Coherent)
    (ho : ∀ it n x D, w.iters.get i = some it → it.ref ≠ none → it.bound ≠ none →
      it.iterator = some n → w.ldbIterators.get n = some x → E.valid x.it = true → it.db = some D → w.HasOptions D) :
    (PyLevelDBIter.next i allocs).wp noNull (fun _ w' _ => w'.Coherent) w () := by
  simp only [PyLevelDBIter.next, wp_inFrame, Prog.alone_event, Prog.wp_bind, wp_load_iter,
    found_freed]
  intro it hi
  cases href : it.ref with
  | none =>
    simp only [PyLevelDBIter.atEnd, href, Prog.wp_pure, ↓reduceIte, Prog.wp_bind]
    exact clean_keeps i w () h
  | some D' =>
    obtain ⟨hdb, hit⟩ := h.iter i it hi (by rw [href]; exact Option.some_ne_none D')
    obtain ⟨D, hdb⟩ := Option.ne_none_iff_exists'.mp hdb
    obtain ⟨n, hn⟩ := Option.ne_none_iff_exists'.mp hit
    simp only [PyLevelDBIter.atEnd, href, Prog.wp_bind, hn, wp_deref_some, wp_iterValid,
      found_freed, Prog.wp_pure]
    intro x hx
    split
    · rw [Prog.wp_bind]
      exact clean_keeps i w () h
    · next hv =>
      have hbound : ∀ Q : Bool → World E → Unit → Prop, (∀ b w', w.Same w' → Q b w' ()) →
          (PyLevelDBIter.pastBound i it).wp noNull Q w () := by
        intro Q hQ
        unfold PyLevelDBIter.pastBound
        cases hb : it.bound with
        | none => exact hQ false w ⟨rfl, rfl⟩
        | some b =>
          have hopen := ho it n x D hi (by rw [href]; exact Option.some_ne_none D')
            (by rw [hb]; exact Option.some_ne_none b) hn hx (by simpa using hv) hdb
          simp only [Prog.wp_bind, wp_loadString, found_freed, hn, wp_deref_some, wp_iterKey, hdb,
            wp_load_levelDB]
          intro k _ y _ r hr
          obtain ⟨o, hopt⟩ := Option.ne_none_iff_exists'.mp (hopen r hr)
          rw [wp_deref_of hopt]
          simp only [wp_row, found_freed]
          intro opts _
          refine (compare_leaves _ _ _).wp fun z w₁ hs₁ => ?_
          simp only [wp_load_iter, found_freed, Prog.wp_pure]
          exact fun _ _ => hQ _ _ hs₁
      rw [Prog.wp_bind]
      refine hbound _ fun b w₁ hs₁ => ?_
      have h₁ := h.same hs₁
      have hi₁ : w₁.iters.get i = some it := hs₁.2 ▸ hi
      split
      · rw [Prog.wp_bind]
        exact clean_keeps i w₁ () h₁
      · have hitem : ∀ Q : Except Exn PyLevelDBIter.Item → World E → Unit → Prop,
            (∀ r w', w₁.Same w' → Q r w' ()) →
              (PyLevelDBIter.makeItem i allocs).wp noNull Q w₁ () := by
          intro Q hQ
          simp only [PyLevelDBIter.makeItem, Prog.wp_bind, wp_load_iter, hi₁, Prog.found_some, hn,
            wp_deref_some, wp_iterKey, found_freed]
          intro y _
          split
          · exact hQ _ _ ⟨rfl, rfl⟩
          · simp only [Prog.wp_bind, wp_newRef, Prog.alone_event]
            split
            · exact hQ _ _ ⟨rfl, rfl⟩
            · simp only [Prog.wp_bind, wp_deref_some, wp_iterValue, found_freed]
              intro v _
              split
              · exact hQ _ _ ⟨rfl, rfl⟩
              · simp only [Prog.wp_bind, wp_newRef, Prog.alone_event]
                split
                · exact hQ _ _ ⟨rfl, rfl⟩
                · exact hQ _ _ ⟨rfl, rfl⟩
        rw [Prog.wp_bind]
        refine hitem _ fun res w₂ hs₂ => ?_
        cases res with
        | error e => exact h₁.same hs₂
        | ok item =>
          have hi₂ : w₂.iters.get i = some it := hs₂.2 ▸ hi₁
          simp only [PyLevelDBIter.advance, Prog.wp_bind, wp_load_iter, hi₂, Prog.found_some, hn,
            wp_deref_some]
          split <;> exact (iterMove_leaves _ _ _).wp fun _ w₃ hs₃ => (h₁.same hs₂).same hs₃

end Methods

/-! ## Snapshot objects -/

section Snapshots

variable {D s : Nat}

theorem World.Shrinks.openDb {w' : World E} (hs : w.Shrinks w') (ho : w.OpenDb D) : w'.OpenDb D := by
  intro r' hr'
  obtain ⟨r, hr, e, -⟩ := hs.dbs D r' hr'
  rw [e]
  exact ho r hr

/-- The first part of `Snapshot.__init__`. -/
theorem close_shrinks {x : PyLevelDBSnapshot} {Q : Unit → World E → Unit → Prop}
    (hheld : ∀ D, x.db = some D → x.snapshot ≠ none → w.OpenDb D)
    (hQ : ∀ w', w.Shrinks w' → Q () w' ()) : (PyLevelDBSnapshot.close s x).wp noNull Q w () := by
  unfold PyLevelDBSnapshot.close
  split
  · next D p hdb hp =>
    have hD := hheld D hdb (by rw [hp]; exact Option.some_ne_none p)
    rw [Prog.wp_bind]
    refine update_shrinks (fun _ => ⟨rfl, rfl⟩) fun w₁ hs₁ => ?_
    simp only [Prog.wp_bind, wp_load_levelDB, found_freed]
    intro r hr
    obtain ⟨d, hd⟩ := Option.ne_none_iff_exists'.mp (hs₁.openDb hD r hr)
    rw [wp_deref_of hd]
    refine (dbReleaseSnapshot_leaves _ _).wp fun _ w₂ hs₂ => ?_
    exact decref_shrinks fun w₃ hs₃ => hQ w₃ ((hs₁.trans hs₂.shrinks).trans hs₃)
  · exact hQ w ⟨fun _ r hr => ⟨r, hr, rfl, rfl⟩, rfl⟩

/-- `Snapshot.__init__`: the snapshot it gives back, and the one it takes. -/
theorem snapshotInit_keeps {args : Option Nat} (h : w.Coherent)
    (hheld : ∀ x D, w.snapshots.get s = some x → x.db = some D → x.snapshot ≠ none → w.OpenDb D)
    (ho : ∀ D, args = some D → w.OpenDb D) :
    (PyLevelDBSnapshot.init s args).wp noNull (fun _ w' _ => w'.Coherent) w () := by
  simp only [PyLevelDBSnapshot.init, wp_inFrame, Prog.alone_event, Prog.wp_bind, wp_load_snapshot,
    found_freed]
  intro x hx
  refine close_shrinks (fun D => hheld x D hx) fun w₁ hs₁ => ?_
  have h₁ := h.shrinks hs₁
  simp only [wp_update_snapshot, found_freed, wp_py, Prog.alone_event]
  intro x₁ hx₁
  cases args with
  | none => exact h₁.same ⟨rfl, rfl⟩
  | some D =>
    simp only [Prog.wp_bind, wp_load_levelDB, found_freed]
    intro r hr
    obtain ⟨d, hd⟩ := Option.ne_none_iff_exists'.mp (hs₁.openDb (ho D rfl) r hr)
    rw [wp_deref_of hd]
    refine (dbGetSnapshot_leaves _).wp fun p w₂ hs₂ => ?_
    simp only [wp_update_snapshot, found_freed]
    intro x₂ _
    have h₁' : World.Coherent { w₁ with snapshots := w₁.snapshots.set s ⟨none, none⟩ } :=
      h₁.same ⟨rfl, rfl⟩
    have h₂ : w₂.Coherent := h₁'.same hs₂
    refine (incref_keeps D _).wp (h₂.same ⟨rfl, rfl⟩) fun _ w₃ _ h₃ => ?_
    exact (addSnapshots_keeps (some D) 1).wp h₃ fun _ w _ h => h

theorem snapshotDealloc_keeps (h : w.Coherent)
    (ho : ∀ x, w.snapshots.get s = some x → ∃ D, x.db = some D ∧ (x.snapshot ≠ none → w.OpenDb D)) :
    (PyLevelDBSnapshot.dealloc s).wp noNull (fun _ w' _ => w'.Coherent) w () := by
  simp only [PyLevelDBSnapshot.dealloc, wp_inFrame, Prog.alone_event, Prog.wp_bind,
    wp_load_snapshot, found_freed]
  intro x hx
  obtain ⟨D, hdb, hopen⟩ := ho x hx
  -- what follows the release of the snapshot
  have hrest : ∀ w' : World E, w'.Coherent → w'.snapshots.get s = some x →
      ∀ a, w'.snapshots.get s = some a → (PyLevelDB.addSnapshots a.db (-1)).wp noNull
        (fun _ w _ => ∀ a, w.snapshots.get s = some a → (deref a.db).wp noNull
          (fun D w _ => (PyLevelDB.decref D (.snap s)).wp noNull
            (fun _ w _ => (PyLevelDBSnapshot.update s fun _ => ⟨none, none⟩).wp noNull
              (fun _ w _ => World.Coherent { w with snapshots := w.snapshots.free s }) w ()) w ())
          w ()) w' () := by
    intro w' h' hx' a ha
    cases hx'.symm.trans ha
    simp only [hdb, PyLevelDB.addSnapshots, wp_update_levelDB, found_freed]
    intro r hr a ha
    cases hx'.symm.trans ha
    rw [wp_deref_of hdb]
    have h₁ := h'.setDb (D := D) (r := { r with nSnapshots := r.nSnapshots + -1 })
      (h'.options D r hr)
    refine decref_shrinks fun w₂ hs₂ => ?_
    simp only [wp_update_snapshot, found_freed]
    exact fun _ _ => (h₁.shrinks hs₂).same ⟨rfl, rfl⟩
  simp only [wp_py, Prog.alone_event, Prog.wp_modify]
  unfold PyLevelDBSnapshot.releaseHeld
  split
  · next D' p hdb' hp =>
    cases hdb.symm.trans hdb'
    simp only [Prog.wp_bind, wp_begin, Prog.alone_event, wp_load_levelDB, found_freed]
    intro r hr
    obtain ⟨d, hd⟩ := Option.ne_none_iff_exists'.mp
      (hopen (by rw [hp]; exact Option.some_ne_none p) r hr)
    rw [wp_deref_of hd]
    simp only [wp_dbReleaseSnapshot, wp_callDb, found_freed, Prog.alone_event, wp_end]
    intro y _
    split
    · exact fun _ _ z _ => hrest { w with
        dbs := w.dbs.set d { z with db := E.releaseSnapshot y.snap z.db }
        ldbSnapshots := w.ldbSnapshots.free p } (h.same ⟨rfl, rfl⟩) hx
    · exact Fault.noConfusion
  · exact hrest w h hx


theorem createSnapshot_keeps {alloc : Bool} (h : w.Coherent) (ho : w.OpenDb D) :
    (PyLevelDB.createSnapshot D alloc).wp noNull (fun _ w' _ => w'.Coherent) w () := by
  simp only [PyLevelDB.createSnapshot, PyLevelDBSnapshot.make, Prog.wp_bind, wp_load_levelDB,
    found_freed]
  intro r hr
  obtain ⟨d, hd⟩ := Option.ne_none_iff_exists'.mp (ho r hr)
  rw [wp_deref_of hd]
  refine (dbGetSnapshot_leaves _).wp fun p w₁ hs₁ => ?_
  have h₁ := h.same hs₁
  simp only [wp_py, Prog.alone_event]
  split
  · simp only [Prog.wp_bind, wp_load_levelDB, found_freed]
    intro r hr
    obtain ⟨d, hd⟩ := Option.ne_none_iff_exists'.mp (ho r (by rw [← hr, hs₁.1]))
    rw [wp_deref_of hd]
    exact (dbReleaseSnapshot_leaves _ _).wp fun _ w₂ hs₂ => h₁.same hs₂
  · simp only [Prog.wp_bind, Prog.wp_state]
    refine (incref_keeps D _).wp h₁ fun _ w₂ _ h₂ => ?_
    simp only [Prog.wp_modify]
    exact (addSnapshots_keeps (some D) 1).wp (h₂.same ⟨rfl, rfl⟩) fun _ w _ h => h

end Snapshots

end PyLeveldb
