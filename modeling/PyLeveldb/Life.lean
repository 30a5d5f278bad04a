import PyLeveldb.Handles
import PyLeveldb.MemStore
import PyLeveldb.Api
import PyLeveldb.Lib.History

/-!
# The life of a LevelDB object

One LevelDB object from `__new__` to its destruction, with any number of calls of `__init__` in
between, each of which may fail in any of its steps.

* `World.Life`: the invariant. The four parts of the object are there or none is, and of everything
  that `__init__` ever made exactly the parts that the object has are left.
* `init_life`, `drop_life`: a call of `__init__` keeps it, and the destruction leaves nothing.
* `parts_over_a_life`: what holds over the whole run.

A second delete of an object is a fault, so a run without faults deletes no object twice.
-/

namespace PyLeveldb

variable {E : Env} {w₀ v w : World E} {D : Nat} {r : PyLevelDB} {F : Fault → Prop}

/-! ## The invariant -/

/-- Of the databases, options, caches and Python comparators made since `w₀`, these are left. -/
structure World.Slots (w₀ w : World E) (db options cache : Option Nat)
    (comparator : Option CmpPtr) : Prop where
  db : w.dbs.Only w₀.dbs.next db
  options : w.options.Only w₀.options.next options
  cache : w.caches.Only w₀.caches.next cache
  comparator : w.comparators.Only w₀.comparators.next (comparator.bind CmpPtr.wrapper)

/-- The four pointers are null. -/
def PyLevelDB.Absent (r : PyLevelDB) : Prop :=
  r.db = none ∧ r.options = none ∧ r.cache = none ∧ r.comparator = none

theorem PyLevelDB.Absent.clear (h : r.Absent) : PyLevelDB.clearParts r = r := by
  obtain ⟨db, options, cache, comparator, n, m, refs⟩ := r
  obtain ⟨rfl, rfl, rfl, rfl⟩ := h
  rfl

/-- The four pointers are not null, and the parts belong together: the options and the database have
the cache and the comparator of the object. -/
def World.Present (w : World E) (r : PyLevelDB) : Prop :=
  ∃ d o k c inst opts, r.db = some d ∧ r.options = some o ∧ r.cache = some k ∧
    r.comparator = some c ∧ w.dbs.get d = some inst ∧ inst.cache = some k ∧ inst.comparator = c ∧
      w.options.get o = some opts ∧ opts.blockCache = some k ∧ opts.comparator = c

/-- The invariant (module doc): the LevelDB object `D` has the fields `r`. -/
structure World.Life (w₀ w : World E) (D : Nat) (r : PyLevelDB) : Prop where
  object : w.levelDBs.get D = some r
  slots : w₀.Slots w r.db r.options r.cache r.comparator
  parts : r.Absent ∨ w.Present r

/-- Neither a database nor options, a cache or a comparator were made from `w` to `w'`. -/
structure World.MakesNone (w w' : World E) : Prop where
  dbs : w'.dbs.next = w.dbs.next
  options : w'.options.next = w.options.next
  caches : w'.caches.next = w.caches.next
  comparators : w'.comparators.next = w.comparators.next

/-- A new object is at the start of its life. -/
theorem closed_life (w : World E) {refs : List Holder}
    (hr : w.levelDBs.get D = some (PyLevelDB.closed refs)) : w.Life w D (PyLevelDB.closed refs) :=
  ⟨hr, ⟨Table.only_next _, Table.only_next _, Table.only_next _, Table.only_next _⟩,
    .inl ⟨rfl, rfl, rfl, rfl⟩⟩

/-- What is checked of the events of a call that begins in `v`. A database is deleted while the cache
and the comparator that it uses are there, and a comparator that is destroyed is a Python comparator
made since `w₀`. -/
def World.DeletesInOrder (w₀ v : World E) : Ev → World E → Prop
  | .ldb .deleteDb d, s => ∃ inst, v.dbs.get d = some inst ∧
      (∀ k, inst.cache = some k → ∃ x, s.caches.get k = some x) ∧
        ∀ p, inst.comparator = .python p → ∃ x, s.comparators.get p = some x
  | .enter (.destroyComparator p), _ => w₀.comparators.next ≤ p
  | _, _ => True

/-! ## Deletes, for any rules that let the events pass -/

/-- The events that are neither a call into leveldb nor the destruction of a comparator. -/
def Ev.quiet : Ev → Bool
  | .ldb _ _ | .enter (.destroyComparator _) => false
  | _ => true

section Deletes

variable {κ : Type} {c : κ} {J : Prog.Rules (World E) Fault Ev κ}

theorem wp_deleteRow_only {α : Type} {T : World E → Table α} {put : Table α → World E → World E}
    {p : Option Nat} {base : Nat} {Q : Unit → World E → κ → Prop} (hput : put (T w) w = w)
    (h : (T w).Only base p) (hQ : Q () (put ((T w).freeOpt p) w) c) :
    (deleteRow T put p).wp J Q w c := by
  rw [wp_deleteRow hput]
  cases p with
  | none => exact hQ
  | some i =>
    obtain ⟨-, a, ha⟩ := h.live i rfl
    simp only [ha, Prog.found_some]
    exact hQ

theorem wp_deleteDb_only {p : Option Nat} {base : Nat} {Q : Unit → World E → κ → Prop}
    (h : w.dbs.Only base p)
    (hd : ∀ d, p = some d → J.Passes (.ldb .deleteDb d) { w with dbs := w.dbs.free d })
    (hQ : Q () { w with dbs := w.dbs.freeOpt p } c) : (deleteDb p).wp J Q w c := by
  cases p with
  | none => exact hQ
  | some d =>
    obtain ⟨-, inst, hinst⟩ := h.live d rfl
    rw [wp_deleteDb_some, hinst]
    exact hd d rfl _ _ hQ

theorem wp_deleteComparator_only (hJ : ∀ x s, x.quiet = true → J.Passes x s) {p : Option CmpPtr}
    {base : Nat} {Q : Unit → World E → κ → Prop}
    (h : w.comparators.Only base (p.bind CmpPtr.wrapper))
    (hd : ∀ i, base ≤ i → J.Passes (.enter (.destroyComparator i)) w)
    (hQ : ∀ o, Q ()
      { w with comparators := w.comparators.freeOpt (p.bind CmpPtr.wrapper), owned := o } c) :
    (deleteComparator p).wp J Q w c := by
  match p with
  | none => exact hQ w.owned
  | some .bytewise => exact hQ w.owned
  | some (.python i) =>
    obtain ⟨hi, x, hx⟩ := h.live i rfl
    simp only [deleteComparator, PythonComparatorWrapper.delete, Prog.wp_bind, wp_row, hx,
      Prog.found_some, wp_inFrame]
    refine hd i hi _ _ ?_
    refine hJ _ _ rfl _ _ ?_
    refine hJ _ _ rfl _ _ ?_
    refine hJ _ _ rfl _ _ ?_
    exact hQ _

/-- **The parts are deleted**, and nothing is left. -/
theorem wp_deleteParts (hJ : ∀ x s, x.quiet = true → J.Passes x s)
    {Q : Unit → World E → κ → Prop} (hr : w.levelDBs.get D = some r)
    (hs : w₀.Slots w r.db r.options r.cache r.comparator)
    (hdb : ∀ d, r.db = some d → J.Passes (.ldb .deleteDb d) { w with dbs := w.dbs.free d })
    (hcmp : ∀ i s, w₀.comparators.next ≤ i → J.Passes (.enter (.destroyComparator i)) s)
    (hQ : ∀ w', w'.levelDBs = w.levelDBs → w₀.Slots w' none none none none → w.MakesNone w' →
      Q () w' c) : (PyLevelDB.deleteParts D).wp J Q w c := by
  simp only [PyLevelDB.deleteParts, Prog.wp_bind, wp_load_levelDB, hr, Prog.found_some]
  refine wp_deleteDb_only hs.db hdb ?_
  simp only [hr, Prog.found_some]
  refine wp_deleteRow_only rfl hs.options ?_
  simp only [hr, Prog.found_some]
  refine wp_deleteRow_only rfl hs.cache ?_
  simp only [hr, Prog.found_some]
  refine wp_deleteComparator_only hJ hs.comparator (fun i => hcmp i _) fun o => ?_
  exact hQ _ rfl ⟨hs.db.freeOpt, hs.options.freeOpt, hs.cache.freeOpt, hs.comparator.freeOpt⟩
    ⟨Table.next_freeOpt _ _, Table.next_freeOpt _ _, Table.next_freeOpt _ _, Table.next_freeOpt _ _⟩

/-- A LevelDB object without parts. -/
theorem World.Slots.life (hs : w₀.Slots w none none none none)
    (hr : w.levelDBs.get D = some r) (ha : r.Absent) : w₀.Life w D r := by
  obtain ⟨h1, h2, h3, h4⟩ := ha
  exact ⟨hr, by rwa [h1, h2, h3, h4], .inl ⟨h1, h2, h3, h4⟩⟩

/-- The fields of an object are set. -/
theorem World.Slots.setDb {db options cache : Option Nat} {p : Option CmpPtr}
    (hs : w₀.Slots w db options cache p) (T : Table PyLevelDB) :
    w₀.Slots { w with levelDBs := T } db options cache p := ⟨hs.1, hs.2, hs.3, hs.4⟩

/-- The cleanup at the start of `__init__` closes an object that is open. -/
theorem wp_close (hJ : ∀ x s, x.quiet = true → J.Passes x s) {Q : Unit → World E → κ → Prop}
    (h : w₀.Life w D r)
    (hdb : ∀ d, r.db = some d → J.Passes (.ldb .deleteDb d) { w with dbs := w.dbs.free d })
    (hcmp : ∀ i s, w₀.comparators.next ≤ i → J.Passes (.enter (.destroyComparator i)) s)
    (hQ : ∀ w', w₀.Life w' D (PyLevelDB.clearParts r) → w.MakesNone w' → Q () w' c) :
    (PyLevelDB.close D).wp J Q w c := by
  simp only [PyLevelDB.close, Prog.wp_bind, wp_load_levelDB, h.object, Prog.found_some,
    Prog.wp_when]
  constructor
  · intro _
    refine hJ _ _ rfl _ _ ?_
    refine wp_deleteParts hJ h.object h.slots hdb hcmp fun w' hw' hs hn => ?_
    rw [wp_end]
    refine hJ _ _ rfl _ _ ?_
    rw [wp_update_levelDB, hw', h.object]
    exact hQ _ ((hs.setDb _).life (by simp) ⟨rfl, rfl, rfl, rfl⟩) ⟨hn.1, hn.2, hn.3, hn.4⟩
  · intro hnone
    have ha : r.Absent := by
      simp only [Bool.or_eq_false_iff, Option.isSome_eq_false_iff, Option.isNone_iff_eq_none] at hnone
      obtain ⟨⟨⟨h1, h2⟩, h3⟩, h4⟩ := hnone
      exact ⟨h1, h4, h2, h3⟩
    exact hQ w (ha.clear.symm ▸ h) ⟨rfl, rfl, rfl, rfl⟩

/-- The argument gives a comparator, if there is memory for one. -/
def ComparatorArg.made (arg : ComparatorArg) (alloc : Bool) : Bool :=
  match arg with
  | .absent => true
  | .str p => strEq p bytewiseName
  | .pair _ callable _ => callable && alloc
  | .other => false

/-- The comparator is made, or an exception is raised. -/
theorem wp_getComparator (hJ : ∀ x s, x.quiet = true → J.Passes x s) {arg : ComparatorArg}
    {alloc : Bool} {Q : Except Exn CmpPtr → World E → κ → Prop}
    (h : w₀.Slots w none none none none)
    (herror : arg.made alloc = false → ∀ e, Q (.error e) w c)
    (hok : arg.made alloc = true → ∀ p T o,
      w₀.Slots { w with comparators := T, owned := o } none none none (some p) →
        Q (.ok p) { w with comparators := T, owned := o } c) :
    (getComparator arg alloc).wp J Q w c := by
  have hbytewise : arg.made alloc = true → Q (.ok .bytewise) w c :=
    fun hm => hok hm .bytewise w.comparators w.owned ⟨h.1, h.2, h.3, h.4⟩
  have hraise : arg.made alloc = false →
      ∀ e, (py >>= fun _ => raise e : C E (Except Exn CmpPtr)).wp J Q w c := by
    intro hm e
    refine hJ _ _ rfl _ _ ?_
    refine hJ _ _ rfl _ _ ?_
    exact herror hm e
  cases arg with
  | absent => exact hbytewise rfl
  | str p =>
    cases hp : strEq p bytewiseName with
    | true =>
      simp only [getComparator, hp, ↓reduceIte]
      exact hbytewise hp
    | false =>
      simp only [getComparator, hp, Bool.false_eq_true, ↓reduceIte]
      exact hraise hp _
  | pair name callable obj =>
    cases callable with
    | false => exact hraise rfl _
    | true =>
      cases alloc with
      | false => exact hraise rfl _
      | true =>
        refine hJ _ _ rfl _ _ ?_
        refine hJ _ _ rfl _ _ ?_
        refine hJ _ _ rfl _ _ ?_
        exact hok rfl (.python w.comparators.next) _ _ ⟨h.1, h.2, h.3, h.4.push _⟩
  | other => exact hraise rfl _

end Deletes

/-- A database that the object has is deleted in order. -/
theorem World.Life.deletes (h : w₀.Life w D r) (d : Nat) (hd : r.db = some d) :
    w₀.DeletesInOrder w (.ldb .deleteDb d) { w with dbs := w.dbs.free d } := by
  rcases h.parts with ⟨hnone, -⟩ | ⟨d', o, k, c, inst, opts, hd', -, hk, hc, hinst, hic, hicmp, -⟩
  · rw [hnone] at hd
    cases hd
  · rw [hd] at hd'
    cases hd'
    refine ⟨inst, hinst, fun k' hk' => ?_, fun p hp => ?_⟩
    · rw [hic] at hk'
      cases hk'
      exact (h.slots.cache.live k hk).2
    · have hw : r.comparator.bind CmpPtr.wrapper = some p := by
        rw [hc, ← hicmp, hp]
        rfl
      exact (h.slots.comparator.live p hw).2

/-! ## `__init__` -/

/-- The rules of a call that begins in `v`. -/
abbrev World.lifeRules (w₀ v : World E) (F : Fault → Prop) : Prog.Rules (World E) Fault Ev Unit :=
  .checking F (w₀.DeletesInOrder v)

theorem lifeRules_quiet (x : Ev) (s : World E) (hx : x.quiet = true) :
    (w₀.lifeRules v F).Passes x s := by
  refine Prog.checking_passes ?_
  unfold World.DeletesInOrder
  split
  · cases hx
  · cases hx
  · trivial

theorem lifeRules_destroys (i : Nat) (s : World E) (hi : w₀.comparators.next ≤ i) :
    (w₀.lifeRules v F).Passes (.enter (.destroyComparator i)) s := Prog.checking_passes hi

theorem wp_newOptions {alloc : Bool} {c : CmpPtr} {Q : Option Nat → World E → Unit → Prop}
    (h : w₀.Slots w none none none (some c))
    (hQ : ∀ p T, w₀.Slots { w with options := T } none p none (some c) →
      Q p { w with options := T } ()) :
    (PyLevelDB.newOptions (E := E) alloc).wp (w₀.lifeRules v F) Q w () := by
  cases alloc with
  | false => exact hQ none w.options h
  | true =>
    exact hQ (some w.options.next) (w.options.push E.defaultOptions)
      ⟨h.db, h.options.push _, h.cache, h.comparator⟩

theorem wp_newLRUCache {alloc : Bool} {n : UInt64} {c : CmpPtr} {o : Option Nat}
    {Q : Option Nat → World E → Unit → Prop} (h : w₀.Slots w none o none (some c))
    (hQ : ∀ p T, w₀.Slots { w with caches := T } none o p (some c) → Q p { w with caches := T } ()) :
    (PyLevelDB.newLRUCache (E := E) alloc n).wp (w₀.lifeRules v F) Q w () := by
  cases alloc with
  | false => exact hQ none w.caches h
  | true => exact hQ (some w.caches.next) (w.caches.push n) ⟨h.db, h.options, h.cache.push _, h.comparator⟩

/-- What leveldb documents of `DB::Open`: without a database the status is bad. -/
def PyLevelDB.InitOutcome.Documented (o : PyLevelDB.InitOutcome E) : Prop :=
  ∀ status, o.opened = .error status → status.isOk = false

/-- **What `open_` makes** is what the object has at the end, or it is gone. -/
theorem open_life {args : PyLevelDB.InitArgs} {c : CmpPtr} {o : PyLevelDB.InitOutcome E}
    (ho : o.Documented) (hr : w.levelDBs.get D = some r) (ha : r.Absent)
    (hs : w₀.Slots w none none none (some c)) : (PyLevelDB.open_ D args c o).wp (w₀.lifeRules v F)
      (fun _ w' _ => ∃ r', r'.refs = r.refs ∧ w₀.Life w' D r') w () := by
  simp only [PyLevelDB.open_, Prog.wp_bind]
  refine wp_newOptions hs fun po TO hs => ?_
  refine wp_newLRUCache hs fun pc TC hs => ?_
  simp only [wp_update_levelDB, hr, Prog.found_some]
  by_cases hnone : (po.isNone || pc.isNone) = true
  · -- an allocation failed: what was made is deleted
    simp only [hnone, ↓reduceIte, Prog.wp_bind, wp_begin, Prog.checking_event,
      World.DeletesInOrder, true_and, wp_load_levelDB, Table.get_set, Prog.found_some]
    refine wp_deleteRow_only rfl hs.options ?_
    simp only [Table.get_set, ↓reduceIte, Prog.found_some]
    refine wp_deleteRow_only rfl hs.cache ?_
    simp only [Table.get_set, ↓reduceIte, Prog.found_some]
    refine wp_deleteComparator_only lifeRules_quiet hs.comparator (fun i => lifeRules_destroys i _)
      fun o => ?_
    simp only [wp_end, Prog.checking_event, World.DeletesInOrder, true_and, wp_update_levelDB,
      Table.get_set, ↓reduceIte, Prog.found_some, wp_raise, Table.set_set]
    refine ⟨{ r with options := none, cache := none, comparator := none }, rfl, ?_⟩
    have hempty : ∀ T, w₀.Slots { w with
        levelDBs := T
        options := TO.freeOpt po
        caches := TC.freeOpt pc
        comparators := w.comparators.freeOpt (c.wrapper)
        owned := o } none none none none :=
      fun T => ⟨hs.db, hs.options.freeOpt, hs.cache.freeOpt, hs.comparator.freeOpt⟩
    exact (hempty _).life (by simp) ⟨ha.1, rfl, rfl, rfl⟩
  · obtain ⟨p, rfl⟩ : ∃ p, po = some p := by
      cases po with
      | none => simp at hnone
      | some p => exact ⟨p, rfl⟩
    obtain ⟨k, rfl⟩ : ∃ k, pc = some k := by
      cases pc with
      | none => simp at hnone
      | some k => exact ⟨k, rfl⟩
    obtain ⟨-, x, hx⟩ := hs.options.live p rfl
    simp only [Option.isNone_some, Bool.or_self, Bool.false_eq_true, ↓reduceIte, Prog.wp_bind,
      wp_load_levelDB, Table.get_set, Prog.found_some, wp_deref, wp_row, Prog.wp_modify, wp_begin,
      Prog.checking_event, World.DeletesInOrder, true_and, PyLevelDB.dbOpen, wp_update_levelDB,
      Table.set_set, Prog.wp_state, Prog.wp_event]
    rw [hx]
    simp only [Prog.found_some]
    have hslots := hs.options.set (PyLevelDB.setOptions args (some k) c x)
    cases hopen : o.opened with
    | error status =>
      -- no database was made: the other parts are deleted
      have hbad := ho status hopen
      simp only [Prog.wp_pure, hbad, Bool.not_false, Prog.when_true, ↓reduceIte, Prog.wp_bind]
      refine wp_deleteParts lifeRules_quiet
        (r := { r with db := none, options := p, cache := k, comparator := c }) (by simp)
        ⟨hs.db, hslots, hs.cache, hs.comparator⟩ (fun d hd => by cases hd) lifeRules_destroys
        fun w' hw' hs' _ => ?_
      simp only [wp_update_levelDB, hw', Table.get_set, ↓reduceIte, Prog.found_some, Table.set_set,
        wp_end, Prog.checking_event, World.DeletesInOrder, true_and, wp_setError]
      refine ⟨PyLevelDB.clearParts r, rfl, ?_⟩
      exact (hs'.setDb _).life (by simp [PyLevelDB.clearParts]) ⟨rfl, rfl, rfl, rfl⟩
    | ok db =>
      simp only [Prog.wp_bind, Prog.wp_state, Prog.wp_put, wp_update_levelDB, Table.get_set,
        ↓reduceIte, Prog.found_some, Table.set_set, Prog.wp_pure, Status.isOk, Bool.not_true,
        Prog.when_false, wp_end, Prog.checking_event, World.DeletesInOrder, true_and,
        Bool.false_eq_true]
      refine ⟨{ r with db := some w.dbs.next, options := p, cache := k, comparator := c }, rfl,
        by simp, ⟨hs.db.push _, hslots, hs.cache, hs.comparator⟩, .inr ?_⟩
      exact ⟨w.dbs.next, p, k, c, ⟨db, c, k⟩, PyLevelDB.setOptions args (some k) c x, rfl, rfl, rfl,
        rfl, by simp [PyLevelDB.setOptions], rfl, rfl, by simp, rfl, rfl⟩

/-- **A call of `__init__`** keeps the invariant, in whatever step it fails. -/
theorem init_life (h : w₀.Life w D r) (args : Option PyLevelDB.InitArgs)
    {o : PyLevelDB.InitOutcome E} (ho : o.Documented) :
    (PyLevelDB.init D args o).wp (w₀.lifeRules w F)
      (fun _ w' _ => ∃ r', r'.refs = r.refs ∧ w₀.Life w' D r') w () := by
  simp only [PyLevelDB.init, wp_inFrame, Prog.checking_event, World.DeletesInOrder, true_and,
    Prog.wp_bind]
  refine wp_close lifeRules_quiet h (fun d hd => Prog.checking_passes (h.deletes d hd))
    lifeRules_destroys fun w' h' _ => ?_
  have hcleared : ∃ r', r'.refs = r.refs ∧ w₀.Life w' D r' :=
    ⟨PyLevelDB.clearParts r, rfl, h'⟩
  simp only [wp_py, Prog.checking_event, World.DeletesInOrder, true_and]
  cases args with
  | none => exact hcleared
  | some args =>
    dsimp only
    split
    · simpa [World.DeletesInOrder] using hcleared
    · simp only [Prog.wp_bind]
      refine wp_getComparator lifeRules_quiet h'.slots (fun _ e => hcleared) fun _ c T o hs => ?_
      exact open_life (r := PyLevelDB.clearParts r) ho h'.object ⟨rfl, rfl, rfl, rfl⟩ hs

/-! ## The destruction -/

/-- **The last reference goes**, and the object with everything that was made for it. -/
theorem drop_life (h : w₀.Life w D r) (href : r.refs = [.env]) :
    (PyLevelDB.decref D .env).wp (w₀.lifeRules w F)
      (fun _ w' _ => w'.levelDBs.get D = none ∧ w₀.Slots w' none none none none) w () := by
  have hmem : Holder.env ∈ r.refs := by rw [href]; exact List.mem_singleton_self _
  have hlast : (r.refs.erase .env).isEmpty = true := by rw [href]; rfl
  have hdel : ∀ d, r.db = some d → w₀.DeletesInOrder w (.ldb .deleteDb d)
      { w with dbs := w.dbs.free d, levelDBs := w.levelDBs.set D { r with refs := r.refs.erase .env } } :=
    fun d hd => h.deletes d hd
  simp only [PyLevelDB.decref, Prog.wp_bind, wp_py, Prog.checking_event, World.DeletesInOrder,
    true_and, wp_load_levelDB, h.object, Prog.found_some, hmem, not_true_eq_false, ↓reduceIte,
    wp_update_levelDB, hlast, Prog.when_true, PyLevelDB.dealloc, wp_inFrame, wp_begin]
  refine wp_deleteParts lifeRules_quiet (r := { r with refs := r.refs.erase .env }) (by simp)
    (h.slots.setDb _) (fun d hd => Prog.checking_passes (hdel d hd)) lifeRules_destroys
    fun w' hw' hs _ => ?_
  simp only [wp_end, Prog.checking_event, World.DeletesInOrder, true_and, hw', Table.get_set,
    ↓reduceIte, Prog.found_some, Prog.wp_modify]
  exact ⟨by simp, hs.setDb _⟩

/-! ## Results -/

/-- `__init__` of the LevelDB object `D`, with any arguments and any outcome of its steps. -/
def ApiOp.Inits (D : Nat) (op : ApiOp E) : Prop :=
  ∃ args o, op = .initDb D args o ∧ o.Documented

/-- Every call of `__init__` keeps the invariant. -/
theorem inits_preserves (w₀ : World E) (D : Nat) :
    (apiCalls fun op _ => ApiOp.Inits D op).Preserves (fun _ => False)
      fun w => ∃ r, r.refs = [.env] ∧ w₀.Life w D r := by
  rintro _ w ⟨r, href, h⟩ ⟨args, o, rfl, ho⟩
  simp only [apiCalls, ApiOp.prog, Prog.wp_map]
  have hwp := ((Prog.wp_checking_iff _ _ _).mp (init_life (F := fun _ => False) h args ho)).2
  refine Prog.wp_mono hwp ?_
  rintro _ w' _ ⟨r', hrefs, h'⟩
  exact ⟨r', hrefs.trans href, h'⟩

/-- A call without faults ends, and what it deletes is in order. -/
theorem ends_in_order {α : Type} {p : C E α} {Q : α → World E → Unit → Prop}
    (h : p.wp (w₀.lifeRules w fun _ => False) Q w ()) : (∃ a w', p.run w = .ok (a, w')) ∧
      ∀ e ∈ p.history w, w₀.DeletesInOrder w e.1 e.2 := by
  obtain ⟨hin, hwp⟩ := (Prog.wp_checking_iff p Q w).mp h
  obtain ⟨a, w', hr, -⟩ := Prog.wp_run hwp
  exact ⟨⟨a, w', hr⟩, hin⟩

/-- What holds in the state `w` of the life of the LevelDB object `D` that began in `w₀`. -/
structure World.PartsKept (w₀ w : World E) (D : Nat) : Prop where
  /-- The parts are all absent or all present, and then belong together. -/
  parts : ∃ r, w.levelDBs.get D = some r ∧ (r.Absent ∨ w.Present r)
  /-- The next call of `__init__`, and the destruction, end without a fault, such as a second delete,
  and what they delete is in order. -/
  next : ∀ op, ApiOp.Inits D op ∨ op = .dropDb D → (∃ a w', op.prog.run w = .ok (a, w')) ∧
    ∀ e ∈ op.prog.history w, w₀.DeletesInOrder w e.1 e.2
  /-- The destruction leaves nothing of what was made. -/
  gone : ∀ a w', (ApiOp.dropDb D).prog.run w = .ok (a, w') → w'.levelDBs.get D = none ∧
    (∀ i, w₀.dbs.next ≤ i → w'.dbs.get i = none) ∧
    (∀ i, w₀.options.next ≤ i → w'.options.get i = none) ∧
    (∀ i, w₀.caches.next ≤ i → w'.caches.get i = none) ∧
    ∀ i, w₀.comparators.next ≤ i → w'.comparators.get i = none

/-- **The parts of a LevelDB object over its life.** A new object goes through any run of calls of
`__init__`. In every state of the run its four parts are all absent or all present; what the next
call, or the destruction, deletes is there and is deleted in order: a database before the cache and
the comparator that it uses, and no comparator but the Python ones made by `__init__`; and nothing
is left after the destruction. -/
theorem parts_over_a_life {h : List (ApiOp E × Answer)}
    (hnew : w₀.levelDBs.get D = some (PyLevelDB.closed [.env]))
    (hrun : (apiCalls fun op _ => ApiOp.Inits D op).Run w₀ h w) : w₀.PartsKept w D := by
  obtain ⟨r, href, hlife⟩ := hrun.inv (inits_preserves w₀ D) ⟨_, rfl, closed_life w₀ hnew⟩
  have hdrop : (ApiOp.dropDb D).prog.wp (w₀.lifeRules w fun _ => False)
      (fun _ w' _ => w'.levelDBs.get D = none ∧ w₀.Slots w' none none none none) w () := by
    rw [ApiOp.prog, Prog.wp_map]
    exact drop_life hlife href
  refine ⟨⟨r, hlife.object, hlife.parts⟩, ?_, fun a w' hr => ?_⟩
  · rintro op (⟨args, o, rfl, ho⟩ | rfl)
    · refine ends_in_order (Q := fun _ w' _ => ∃ r', r'.refs = r.refs ∧ w₀.Life w' D r') ?_
      rw [ApiOp.prog, Prog.wp_map]
      exact init_life hlife args ho
    · exact ends_in_order hdrop
  · obtain ⟨hgone, hs⟩ := Prog.wp_of_run ((Prog.wp_checking_iff _ _ _).mp hdrop).2 hr
    exact ⟨hgone, fun i => hs.db.get_eq_none, fun i => hs.options.get_eq_none,
      fun i => hs.cache.get_eq_none, fun i => hs.comparator.get_eq_none⟩

/-- A new object is opened with a Python comparator, and then again, where `DB::Open` fails. -/
theorem parts_over_a_life_reopened :
    let E := memStore compareBytes fun _ => false
    let w₀ : World E := { World.empty E with levelDBs := Table.empty.push (PyLevelDB.closed [.env]) }
    let args : PyLevelDB.InitArgs := { filename := "db", comparator := .pair "cmp" true 7 }
    ∃ w, (apiCalls fun op _ => ApiOp.Inits 0 op).Run w₀
      [(.initDb 0 args { opened := .ok sample }, .none),
        (.initDb 0 args { opened := .error (.failed "IO error") }, .error (.levelDBError "IO error"))]
      w ∧ w₀.PartsKept w 0 := by
  intro E w₀ args
  have hfails : PyLevelDB.InitOutcome.Documented (E := E) { opened := .error (.failed "IO error") } := by
    intro status h
    cases h
    rfl
  have h₁ : (apiCalls fun op _ => ApiOp.Inits 0 op).Run w₀
      [(.initDb 0 args { opened := .ok sample }, .none)] _ :=
    .snoc .nil ⟨_, _, rfl, fun _ h => nomatch h⟩ rfl
  have h₂ : (apiCalls fun op _ => ApiOp.Inits 0 op).Run w₀
      [(.initDb 0 args { opened := .ok sample }, .none),
        (.initDb 0 args { opened := .error (.failed "IO error") }, .error (.levelDBError "IO error"))]
      _ := .snoc h₁ ⟨_, _, rfl, hfails⟩ rfl
  exact ⟨_, h₂, parts_over_a_life rfl h₂⟩

end PyLeveldb
