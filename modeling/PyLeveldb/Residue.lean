import PyLeveldb.Api
import PyLeveldb.Scan

/-!
# What a call leaves behind

`World.Settled w w'`: from `w` to `w'` no buffer export, no reference, no leveldb iterator, no string
and no comparator is left over. Most functions of the binding are settled in this sense, wherever they
end: there is a lemma for each, found by composition. The results about leaks (`Buffers.lean`,
`Leaks.lean`) add what the rest of the functions do.
-/

namespace PyLeveldb

variable {E : Env} {w w' w'' : World E} {α β : Type}

open PyLevelDBIter (NextAllocs Item)

/-! ## The relation -/

/-- The references to objects of other types that no comparator holds. A comparator holds two. -/
def World.unheld (w : World E) : Int := w.owned - 2 * w.comparators.count fun _ => true

/-- Nothing new is left (module doc). -/
structure World.Settled (w w' : World E) : Prop where
  exports : w'.exports = w.exports
  unheld : w'.unheld = w.unheld
  iterators : w'.ldbIterators.Within w.ldbIterators
  strings : w'.strings.Within w.strings
  comparators : w'.comparators.Within w.comparators
  /-- No holder has more references to a LevelDB object. -/
  refs : ∀ D r', w'.levelDBs.get D = some r' →
    ∃ r, w.levelDBs.get D = some r ∧ ∀ h, r'.refs.count h ≤ r.refs.count h

instance : Std.Refl (World.Settled (E := E)) where
  refl _ := ⟨rfl, rfl, .refl _, .refl _, .refl _, fun _ r hr => ⟨r, hr, fun _ => Nat.le_refl _⟩⟩

instance : IsTrans (World E) World.Settled where
  trans _ _ _ h h' := by
    refine ⟨h'.exports.trans h.exports, h'.unheld.trans h.unheld, h'.iterators.trans h.iterators,
      h'.strings.trans h.strings, h'.comparators.trans h.comparators, fun D r'' hr'' => ?_⟩
    obtain ⟨r', hr', hle'⟩ := h'.refs D r'' hr''
    obtain ⟨r, hr, hle⟩ := h.refs D r' hr'
    exact ⟨r, hr, fun a => Nat.le_trans (hle' a) (hle a)⟩

/-- The function leaves nothing new, wherever it ends. -/
abbrev Settles (p : C E α) : Prop := p.Effect World.Settled

theorem World.settled_refl (w : World E) : w.Settled w := Std.Refl.refl w

theorem World.Settled.setDb {D : Nat} {r r' : PyLevelDB} (hr : w.levelDBs.get D = some r)
    (hle : ∀ h, r'.refs.count h ≤ r.refs.count h) :
    w.Settled { w with levelDBs := w.levelDBs.set D r' } := by
  refine ⟨rfl, rfl, .refl _, .refl _, .refl _, fun D' r₁ hr₁ => ?_⟩
  rcases Table.get_set_some hr₁ with ⟨rfl, rfl⟩ | ⟨-, hr₁⟩
  · exact ⟨r, hr, hle⟩
  · exact ⟨r₁, hr₁, fun _ => Nat.le_refl _⟩

/-! ## The primitives -/

theorem event_settles (x : Ev) : Settles (Prog.event x : C E Unit) := .event x

theorem deref_settles (p : Option α) : Settles (deref p : C E α) := by
  cases p with
  | none => exact .fault _
  | some a => exact .pure a

theorem row_settles (T : World E → Table α) (p : Nat) : Settles (row T p) := by
  refine .state_bind fun w => ?_
  exact Prog.Effect.ofOption (R := World.Settled) _ _ w

theorem raise_settles (x : Exn) : Settles (raise x : C E (Except Exn α)) :=
  (event_settles .py).bind fun _ => .pure _

theorem returnNone_settles : Settles (returnNone : C E (Except Exn Unit)) :=
  (event_settles .py).bind fun _ => .pure _

theorem inFrame_settles {f : Frame} {p : C E α} (hp : Settles p) : Settles (inFrame f p) :=
  (event_settles _).bind fun _ => hp.bind fun _ => (event_settles _).bind fun _ => .pure _

/-- What a method returns for a status. -/
theorem status_settles (st : Status) : Settles (E := E) (if !st.isOk then setError st else returnNone) := by
  split
  · exact raise_settles _
  · exact returnNone_settles

theorem update_settles (D : Nat) {f : PyLevelDB → PyLevelDB}
    (hf : ∀ r h, (f r).refs.count h ≤ r.refs.count h) :
    Settles (E := E) (PyLevelDB.update D f) := by
  intro w
  rw [wp_update_levelDB, found_any]
  exact fun r hr => .setDb hr (hf r)

theorem updateIter_settles (i : Nat) (f : PyLevelDBIter → PyLevelDBIter) :
    Settles (E := E) (PyLevelDBIter.update i f) := by
  intro w
  rw [wp_update_iter, found_any]
  exact fun _ _ => ⟨rfl, rfl, .refl _, .refl _, .refl _, w.settled_refl.refs⟩

theorem updateBatch_settles (b : Nat) (f : PyWriteBatch → PyWriteBatch) :
    Settles (E := E) (PyWriteBatch.update b f) := by
  intro w
  rw [wp_update_batch, found_any]
  exact fun _ _ => ⟨rfl, rfl, .refl _, .refl _, .refl _, w.settled_refl.refs⟩

theorem callDb_settles (op : LdbOp) (d : Nat) (f : E.Db → α × E.Db) : Settles (callDb op d f) := by
  intro w
  simp only [wp_callDb, found_any, Prog.alone_event]
  exact fun _ _ _ _ => ⟨rfl, rfl, .refl _, .refl _, .refl _, w.settled_refl.refs⟩

theorem resolve_settles (d : Nat) (s : Option Nat) : Settles (E := E) (resolve d s) := by
  cases s with
  | none => exact .pure _
  | some s =>
    refine (row_settles _ _).bind fun r => ?_
    split
    · exact .pure _
    · exact .fault _

theorem dbGet_settles (d : Nat) (verify fill : Bool) (s : Option Nat) (key : Bytes) :
    Settles (E := E) (dbGet d verify fill s key) :=
  (resolve_settles d s).bind fun _ => callDb_settles _ _ _

theorem iterValid_settles (n : Nat) : Settles (E := E) (iterValid n) :=
  (row_settles _ _).bind fun _ => .pure _

theorem iterKey_settles (n : Nat) : Settles (E := E) (iterKey n) :=
  (row_settles _ _).bind fun _ => .pure _

theorem iterValue_settles (n : Nat) : Settles (E := E) (iterValue n) :=
  (row_settles _ _).bind fun _ => .pure _

theorem iterSet_settles (n : Nat) (f : E.Iter → E.Iter) : Settles (iterSet n f) := by
  intro w
  simp only [wp_iterSet, found_any]
  exact fun r hr _ _ => ⟨rfl, rfl, .set hr, .refl _, .refl _, w.settled_refl.refs⟩

theorem iterPosition_settles (n : Nat) (f : E.Iter → E.Iter) : Settles (iterPosition n f) :=
  (row_settles _ _).bind fun _ => (event_settles _).bind fun _ => iterSet_settles n f

theorem iterMove_settles (n : Nat) (f g : E.Iter → E.Iter) : Settles (iterMove n f g) :=
  (row_settles _ _).bind fun _ => (event_settles _).bind fun _ => (iterSet_settles n f).bind fun _ =>
    (row_settles _ _).bind fun _ => (Prog.Effect.when ((event_settles _).bind fun _ =>
      (event_settles _).bind fun _ => event_settles _)).bind fun _ => iterSet_settles n g

theorem deleteIterator_settles (n : Option Nat) : Settles (E := E) (deleteIterator n) := by
  intro w
  cases n with
  | none => exact w.settled_refl
  | some n =>
    simp only [wp_deleteIterator_some, found_any, Prog.alone_event]
    exact fun _ _ _ _ => ⟨rfl, rfl, .free _ _, .refl _, .refl _, w.settled_refl.refs⟩

theorem deleteRow_settles {T : World E → Table α} {put : Table α → World E → World E}
    (h : ∀ p (w : World E), w.Settled (put ((T w).free p) w)) (p : Option Nat) : Settles (deleteRow T put p) := by
  cases p with
  | none => exact .pure _
  | some p => exact (row_settles _ _).bind fun _ => .modify (h p)

theorem deleteOptions_settles (p : Option Nat) : Settles (E := E) (deleteOptions p) :=
  deleteRow_settles (fun _ w => ⟨rfl, rfl, .refl _, .refl _, .refl _, w.settled_refl.refs⟩) p

theorem deleteCache_settles (p : Option Nat) : Settles (E := E) (deleteCache p) :=
  deleteRow_settles (fun _ w => ⟨rfl, rfl, .refl _, .refl _, .refl _, w.settled_refl.refs⟩) p

theorem deleteString_settles (p : Option Nat) : Settles (E := E) (deleteString p) :=
  deleteRow_settles (fun _ w => ⟨rfl, rfl, .refl _, .free _ _, .refl _, w.settled_refl.refs⟩) p

theorem deleteDb_settles (d : Option Nat) : Settles (E := E) (deleteDb d) := by
  intro w
  cases d with
  | none => exact w.settled_refl
  | some d =>
    simp only [wp_deleteDb_some, found_any, Prog.alone_event]
    exact fun _ _ => ⟨rfl, rfl, .refl _, .refl _, .refl _, w.settled_refl.refs⟩

/-- A comparator goes, with the two references that it holds. -/
theorem deleteComparator_settles (c : Option CmpPtr) : Settles (E := E) (deleteComparator c) := by
  intro w
  match c with
  | none => exact w.settled_refl
  | some .bytewise => exact w.settled_refl
  | some (.python p) =>
    simp only [deleteComparator, PythonComparatorWrapper.delete, Prog.wp_bind, wp_row, found_any,
      wp_inFrame, Prog.alone_event, wp_dropRef, Prog.wp_modify]
    intro x hx
    refine ⟨rfl, ?_, .refl _, .refl _, .free _ _, w.settled_refl.refs⟩
    have hcount := Table.count_free (fun _ => true) w.comparators p
    rw [hx, Table.weight_some, if_pos rfl] at hcount
    simp only [World.unheld]
    omega

/-! ## LevelDB objects -/

theorem load_settles (D : Nat) : Settles (E := E) (PyLevelDB.load D) := row_settles _ _

theorem deleteParts_settles (D : Nat) : Settles (E := E) (PyLevelDB.deleteParts D) :=
  (load_settles D).bind fun _ => (deleteDb_settles _).bind fun _ =>
    (load_settles D).bind fun _ => (deleteOptions_settles _).bind fun _ =>
    (load_settles D).bind fun _ => (deleteCache_settles _).bind fun _ =>
    (load_settles D).bind fun _ => deleteComparator_settles _

theorem dealloc_settles (D : Nat) : Settles (E := E) (PyLevelDB.dealloc D) := by
  refine inFrame_settles <| (event_settles _).bind fun _ => (deleteParts_settles D).bind fun _ =>
    (event_settles _).bind fun _ => (update_settles D ?_).bind fun _ =>
    (event_settles _).bind fun _ => .modify fun w => ?_
  · exact fun _ _ => Nat.le_refl _
  · refine ⟨rfl, rfl, .refl _, .refl _, .refl _, fun D' r hr => ?_⟩
    exact ⟨r, (Table.get_free_some hr).2, fun _ => Nat.le_refl _⟩

theorem decref_settles (D : Nat) (a : Holder) : Settles (E := E) (PyLevelDB.decref D a) := by
  refine (event_settles _).bind fun _ => (load_settles D).bind fun r => ?_
  split
  · exact .fault _
  · exact (update_settles D fun _ _ => List.erase_sublist.count_le _).bind fun _ => .when (dealloc_settles D)

theorem xdecref_settles (D : Option Nat) (a : Holder) : Settles (E := E) (PyLevelDB.xdecref D a) := by
  cases D with
  | none => exact .pure _
  | some D => exact decref_settles D a

theorem addIterators_settles (D : Option Nat) (k : Int) :
    Settles (E := E) (PyLevelDB.addIterators D k) := by
  cases D with
  | none => exact .pure _
  | some D => exact update_settles D fun _ _ => Nat.le_refl _

/-! ## Buffers -/

theorem acquire_nil (e : Nat → Int) : acquire e [] = e := by
  funext o
  simp [acquire]

theorem release_acquire (e : Nat → Int) (a : Arg) : release (acquire e [a]) a = e := by
  funext o
  simp only [release, acquire, List.countP_singleton, decide_eq_true_eq]
  split <;> omega

theorem release_acquire_pair (e : Nat → Int) (a b : Arg) :
    release (release (acquire e [a, b]) a) b = e := by
  funext o
  simp only [release, acquire, List.countP_cons, List.countP_nil, decide_eq_true_eq]
  split <;> split <;> omega

/-- A buffer that is acquired and not released. -/
theorem acquire_ne (e : Nat → Int) (a : Arg) : acquire e [a] ≠ e := by
  intro h
  have hobj : e a.obj + ([a].countP (·.obj = a.obj) : Nat) = e a.obj := congrFun h a.obj
  have hcount : [a].countP (·.obj = a.obj) = 1 := by simp
  rw [hcount] at hobj
  omega

theorem wp_parseOptional_iff {F : Fault → Prop} {a : Option Arg} {Q : Bool → World E → Unit → Prop} :
    (PyLevelDB.parseOptional a).wp (.alone F) Q w () ↔
      if a.all (·.data.isSome) then Q true { w with exports := acquire w.exports a.toList } ()
      else Q false w () := by
  cases a with
  | none => simp [PyLevelDB.parseOptional, acquire_nil]
  | some a => simp [PyLevelDB.parseOptional, PyLeveldb.parses]

/-- The first buffer is acquired, and the second argument exports none. -/
def strands (wellFormed : Bool) (a b : Option Arg) : Bool :=
  wellFormed && a.any (·.data.isSome) && b.any (·.data.isNone)

/-- The exports after two optional arguments that could not both be parsed. -/
def stranded (e : Nat → Int) (wellFormed : Bool) (a b : Option Arg) : Nat → Int :=
  if strands wellFormed a b then acquire e a.toList else e

/-- A buffer is left exactly when there is one to leave. -/
theorem stranded_eq_iff (e : Nat → Int) (wf : Bool) (a b : Option Arg) :
    stranded e wf a b = e ↔ strands wf a b = false := by
  unfold stranded
  cases h : strands wf a b with
  | false => simp
  | true =>
    cases a with
    | none => simp [strands] at h
    | some a => simpa using acquire_ne e a

/-- None is left if both arguments are parsed. -/
theorem strands_eq_false {wf : Bool} {a b : Option Arg}
    (h : (wf && a.all (·.data.isSome) && b.all (·.data.isSome)) = true) :
    strands wf a b = false := by
  cases b with
  | none => simp [strands]
  | some b =>
    have hb : b.data.isSome = true := by
      simp only [Bool.and_eq_true, Option.all_some] at h
      exact h.2
    simp [strands, hb]

/-- A function with two optional arguments, parsed one after the other: it returns, or goes on with
both buffers. -/
theorem wp_parseBoth {F : Fault → Prop} {wf : Bool} {a b : Option Arg}
    {x : C E (Except Exn α)} {R : Except Exn α → World E → Unit → Prop}
    (hfail : (wf && a.all (·.data.isSome) && b.all (·.data.isSome)) = false →
      R (.error .parse) { w with exports := stranded w.exports wf a b } ())
    (hx : (wf && a.all (·.data.isSome) && b.all (·.data.isSome)) = true →
      x.wp (.alone F) R { w with exports := acquire (acquire w.exports a.toList) b.toList } ()) :
    Prog.wp (.alone F) (do
      if !(← parse wf []) then return .error .parse
      if !(← PyLevelDB.parseOptional a) then return .error .parse
      if !(← PyLevelDB.parseOptional b) then return .error .parse
      x) R w () := by
  simp only [Prog.wp_bind, wp_parse, Prog.alone_event, acquire_nil, PyLeveldb.parses, List.all_nil,
    Bool.and_true]
  cases wf with
  | false => exact hfail rfl
  | true =>
    simp only [Bool.not_true, Bool.false_eq_true, ↓reduceIte, Prog.wp_bind, wp_parseOptional_iff]
    cases ha : a.all (·.data.isSome) with
    | false =>
      have hs : strands true a b = false := by cases a <;> simp_all [strands]
      have := hfail (by simp [ha])
      rw [stranded, hs] at this
      exact this
    | true =>
      simp only [↓reduceIte]
      cases hb : b.all (·.data.isSome) with
      | false =>
        have := hfail (by simp [hb])
        have hs : stranded w.exports true a b = acquire w.exports a.toList := by
          cases a with
          | none => simp [stranded, strands, acquire_nil]
          | some a => cases b <;> simp_all [stranded, strands]
        rw [hs] at this
        exact this
      | true =>
        simp only [↓reduceIte]
        exact hx (by simp [ha, hb])

/-! ## Comparisons -/

/-- The references that a comparison leaves: the integer that a Python callable returned. -/
def CmpPtr.kept : CmpPtr → Int
  | .bytewise => 0
  | .python _ => 1

theorem wp_compare_ends {p : CmpPtr} {a b : Bytes} {Q : Int → World E → Unit → Prop}
    (hQ : ∀ z n, (p = .bytewise → z = E.bytewise a b) →
      Q z { w with owned := w.owned + p.kept, calls := n } ()) :
    (p.compare a b).wp anyFault Q w () := by
  cases p with
  | bytewise => simpa [CmpPtr.compare, CmpPtr.kept] using hQ (E.bytewise a b) w.calls fun _ => rfl
  | python p =>
    simp only [CmpPtr.compare, PythonComparatorWrapper.compare, Prog.wp_bind, Prog.wp_event,
      Prog.alone_event, wp_newRef, wp_row, found_any, Prog.wp_state, Prog.wp_put]
    intro c _
    cases E.call c.comparator w.calls a b with
    | raised => trivial
    | other => trivial
    | int z =>
      have hw : ∀ n : Nat, w.owned + 1 + 1 + 1 - 1 - 1 = w.owned + CmpPtr.kept (.python n) := by
        intro n
        simp only [CmpPtr.kept]
        omega
      have := hQ (if z < 0 then -1 else if 0 < z then 1 else 0) (w.calls + 1) (fun h => by cases h)
      rw [← hw] at this
      exact this

/-- The comparator that the options of a LevelDB object name. -/
def World.comparatorOf (w : World E) (D : Nat) : Option CmpPtr :=
  (((w.levelDBs.get D).bind PyLevelDB.options).bind w.options.get).map Options.comparator

/-! ## `next` -/

theorem clean_settles (i : Nat) : Settles (E := E) (PyLevelDBIter.clean i) := by
  refine inFrame_settles <| (row_settles _ _).bind fun _ => (addIterators_settles _ _).bind fun _ =>
    (event_settles _).bind fun _ => (row_settles _ _).bind fun _ =>
    (deleteIterator_settles _).bind fun _ => (row_settles _ _).bind fun _ =>
    (deleteString_settles _).bind fun _ => (event_settles _).bind fun _ =>
    (row_settles _ _).bind fun _ => (xdecref_settles _ _).bind fun _ => updateIter_settles _ _

theorem advance_settles (i : Nat) : Settles (E := E) (PyLevelDBIter.advance i) := by
  refine (row_settles _ _).bind fun it => (deref_settles _).bind fun n => ?_
  split
  · exact iterMove_settles _ _ _
  · exact iterMove_settles _ _ _

/-- The references to the objects of an entry are given to the caller, or dropped. -/
theorem makeItem_ends (i : Nat) (allocs : NextAllocs) :
    (PyLevelDBIter.makeItem i allocs).wp anyFault
      (fun res w' _ => w' = w ∧ ∀ e, res = .error e → e = .memoryError) w () := by
  have hback : ∀ {o : Int}, o = w.owned → { w with owned := o } = w := by
    rintro _ rfl
    rfl
  have hmem : ∀ {e}, (.error .memoryError : Except Exn Item) = .error e → e = .memoryError := by
    rintro _ ⟨⟩
    rfl
  simp only [PyLevelDBIter.makeItem, Prog.wp_bind, wp_load_iter, found_any, wp_deref, wp_iterKey]
  intro it _ n _ row _
  cases allocs.key with
  | false => exact ⟨rfl, fun _ => hmem⟩
  | true =>
    simp only [Bool.not_true, Bool.false_eq_true, ↓reduceIte, Prog.wp_bind, wp_newRef,
      Prog.alone_event]
    cases it.includeValue with
    | false => exact ⟨hback (by dsimp only; omega), fun e h => by cases h⟩
    | true =>
      simp only [Bool.not_true, Bool.false_eq_true, ↓reduceIte, Prog.wp_bind, wp_deref, wp_iterValue,
        found_any]
      intro _ _ _ _
      cases allocs.value with
      | false => exact ⟨hback (by dsimp only; omega), fun _ => hmem⟩
      | true =>
        simp only [Bool.not_true, Bool.false_eq_true, ↓reduceIte, Prog.wp_bind, wp_newRef,
          Prog.alone_event]
        cases allocs.tuple with
        | false => exact ⟨hback (by dsimp only; omega), fun _ => hmem⟩
        | true => exact ⟨hback (by dsimp only; omega), fun e h => by cases h⟩

/-- The bound test asks a Python comparator. -/
def World.Asks (w : World E) (it : PyLevelDBIter) : Prop :=
  it.bound.isSome = true ∧ ∃ D p, it.db = some D ∧ w.comparatorOf D = some (.python p)

theorem wp_pastBound_ends {i : Nat} {it : PyLevelDBIter} {Q : Bool → World E → Unit → Prop}
    (hQ : ∀ b z c, (w.Asks it → z = 1) → (¬ w.Asks it → z = 0) →
      Q b { w with owned := w.owned + z, calls := c } ()) :
    (PyLevelDBIter.pastBound i it).wp anyFault Q w () := by
  unfold PyLevelDBIter.pastBound
  cases hb : it.bound with
  | none =>
    have hno : ¬ w.Asks it := by simp [World.Asks, hb]
    simpa using hQ false 0 w.calls (fun h => absurd h hno) fun _ => rfl
  | some bound =>
    simp only [Prog.wp_bind, wp_loadString, wp_deref, wp_iterKey, wp_load_levelDB, wp_row, found_any]
    intro a _ n _ row _ D hD r hr o ho opts hopts
    have hcmp : w.comparatorOf D = some opts.comparator := by
      simp [World.comparatorOf, hr, ho, hopts]
    refine wp_compare_ends fun z c _ => ?_
    simp only [wp_load_iter, found_any, Prog.wp_pure]
    intro it' _
    cases hc : opts.comparator with
    | bytewise =>
      have hno : ¬ w.Asks it := by
        rintro ⟨-, D', p, hD', hp⟩
        rw [hD] at hD'
        cases hD'
        rw [hcmp, hc] at hp
        cases hp
      exact hQ _ 0 c (fun h => absurd h hno) fun _ => rfl
    | python p =>
      have hyes : w.Asks it := ⟨by simp [hb], D, p, hD, by rw [hcmp, hc]⟩
      exact hQ _ 1 c (fun _ => rfl) fun h => absurd hyes h

/-- The call of `next` tests the bound, with a Python comparator: the iterator object is not at its
end, its leveldb iterator is at an entry, and it has a bound. -/
def World.NextAsks (w : World E) (i : Nat) : Prop :=
  ∃ it n row, w.iters.get i = some it ∧ it.ref.isSome = true ∧ it.iterator = some n ∧
    w.ldbIterators.get n = some row ∧ E.valid row.it = true ∧ w.Asks it

/-- The world is the same after a call of `next`, but for the reference that a comparison by a Python
callable leaves, and the count of such calls. -/
def World.Untouched (w w' : World E) (i : Nat) : Prop :=
  ∃ z c, w' = { w with owned := w.owned + z, calls := c } ∧
    (w.NextAsks i → z = 1) ∧ (¬ w.NextAsks i → z = 0)

/-- How a call of `next` ends. -/
structure World.NextEnds (w w' : World E) (i : Nat) (res : Except Exn (Option Item)) : Prop where
  asks : w.NextAsks i → w'.unheld = w.unheld + 1
  quiet : ¬ w.NextAsks i → w.Settled w'
  raised : ∀ e, res = .error e → e = .memoryError ∧ w.Untouched w' i

theorem next_ends (i : Nat) (allocs : NextAllocs) :
    (PyLevelDBIter.next i allocs).wp anyFault (fun res w' _ => w.NextEnds w' i res) w () := by
  have hend : ¬ w.NextAsks i → Prog.wp anyFault (do
      PyLevelDBIter.clean i
      return (.ok none : Except Exn (Option Item))) (fun res w' _ => w.NextEnds w' i res) w () := by
    intro hno
    rw [Prog.wp_bind]
    exact (clean_settles i).wp fun _ _ hs => ⟨fun h => absurd h hno, fun _ => hs, fun e h => by cases h⟩
  simp only [PyLevelDBIter.next, wp_inFrame, Prog.alone_event]
  rw [Prog.wp_bind, wp_load_iter, found_any]
  intro it hi
  rw [Prog.wp_bind]
  cases href : it.ref with
  | none =>
    have hno : ¬ w.NextAsks i := by
      rintro ⟨it', n, row, hi', href', -⟩
      rw [hi] at hi'
      cases hi'
      simp [href] at href'
    simp only [PyLevelDBIter.atEnd, href, Prog.wp_pure, ↓reduceIte]
    exact hend hno
  | some D =>
    simp only [PyLevelDBIter.atEnd, href, Prog.wp_bind, wp_deref, wp_iterValid, found_any, Prog.wp_pure]
    intro n hn row hrow
    have hasks : w.NextAsks i ↔ E.valid row.it = true ∧ w.Asks it := by
      constructor
      · rintro ⟨it', n', row', hi', -, hn', hrow', hv, ha⟩
        rw [hi] at hi'
        cases hi'
        rw [hn] at hn'
        cases hn'
        rw [hrow] at hrow'
        cases hrow'
        exact ⟨hv, ha⟩
      · exact fun h => ⟨it, n, row, hi, by simp [href], hn, hrow, h⟩
    by_cases hv : E.valid row.it = true
    · simp only [hv, Bool.not_true, Bool.false_eq_true, ↓reduceIte]
      rw [Prog.wp_bind]
      refine wp_pastBound_ends fun b z c hz hz' => ?_
      have hz : w.NextAsks i → z = 1 := fun h => hz (hasks.mp h).2
      have hz' : ¬ w.NextAsks i → z = 0 := fun h => hz' fun ha => h (hasks.mpr ⟨hv, ha⟩)
      -- from here on nothing is left
      have hsettled : ∀ {w' : World E} {res : Except Exn (Option Item)}, (∀ e, res ≠ .error e) →
          World.Settled { w with owned := w.owned + z, calls := c } w' → w.NextEnds w' i res := by
        intro w' res hres hs
        refine ⟨fun h => ?_, fun h => ?_, fun e he => absurd he (hres e)⟩
        · rw [hs.unheld, hz h]
          simp only [World.unheld]
          omega
        · rw [hz' h, Int.add_zero] at hs
          exact ⟨hs.exports, hs.unheld, hs.iterators, hs.strings, hs.comparators, hs.refs⟩
      cases b with
      | true =>
        simp only [↓reduceIte]
        rw [Prog.wp_bind]
        exact (clean_settles i).wp fun _ _ hs => hsettled (fun e h => by cases h) hs
      | false =>
        simp only [Bool.false_eq_true, ↓reduceIte]
        rw [Prog.wp_bind]
        refine Prog.wp_mono (makeItem_ends i allocs) ?_
        rintro (e | item) _ _ ⟨rfl, he⟩
        · have hsame : w.NextEnds { w with owned := w.owned + z, calls := c } i (.ok none) :=
            hsettled (fun e h => by cases h) (World.settled_refl _)
          refine ⟨hsame.asks, hsame.quiet, fun e' he' => ?_⟩
          cases he'
          exact ⟨he e rfl, z, c, rfl, hz, hz'⟩
        · dsimp only
          rw [Prog.wp_bind]
          exact (advance_settles i).wp fun _ _ hs => hsettled (fun e h => by cases h) hs
    · simp only [hv, Bool.not_false, ↓reduceIte]
      exact hend fun h => hv (hasks.mp h).1

/-! ## `RangeIter` -/

/-- The first position of a scan on the leveldb iterator `it` asks a Python comparator: it is a scan
in reverse, and `Seek` to its upper bound finds an entry. -/
def World.Consults (w : World E) (D : Nat) (reverse : Bool) (keyTo : Option Bytes) (it : E.Iter) :
    Prop :=
  reverse = true ∧ (∃ key, keyTo = some key ∧ E.valid (E.seek key it) = true) ∧
    ∃ p, w.comparatorOf D = some (.python p)

theorem wp_position_ends {D n d : Nat} {reverse : Bool} {keyFrom keyTo : Option Bytes} {it : E.Iter}
    {Q : Unit → World E → Unit → Prop} (hn : w.ldbIterators.get n = some ⟨d, it⟩)
    (hQ : ∀ it' z c, (w.Consults D reverse keyTo it → z = 1) →
      (¬ w.Consults D reverse keyTo it →
        z = 0 ∧ it' = Scan.place E.bytewise reverse keyFrom keyTo it) →
      Q () { w with
        ldbIterators := w.ldbIterators.set n ⟨d, it'⟩
        owned := w.owned + z
        calls := c } ()) :
    (PyLevelDB.position D n reverse keyFrom keyTo).wp anyFault Q w () := by
  have hplain : ¬ w.Consults D reverse keyTo it → Q () { w with
      ldbIterators := w.ldbIterators.set n ⟨d, Scan.place E.bytewise reverse keyFrom keyTo it⟩ } () := by
    intro h
    simpa using hQ _ 0 w.calls (fun hc => absurd hc h) fun _ => ⟨rfl, rfl⟩
  cases reverse with
  | false =>
    have := hplain nofun
    cases keyFrom <;>
      simp only [PyLevelDB.position, Bool.not_false, ↓reduceIte, wp_iterPosition, hn,
        Prog.found_some, Prog.alone_event, wp_iterSet, found_any] <;>
      exact fun _ _ => this
  | true =>
    cases keyTo with
    | none =>
      have := hplain (by rintro ⟨-, ⟨key, h, -⟩, -⟩; cases h)
      simp only [PyLevelDB.position, Bool.not_true, Bool.false_eq_true, ↓reduceIte, wp_iterPosition,
        hn, Prog.found_some, Prog.alone_event, wp_iterSet, found_any]
      exact fun _ _ => this
    | some key =>
      simp only [PyLevelDB.position, Bool.not_true, Bool.false_eq_true, ↓reduceIte, Prog.wp_bind,
        wp_iterPosition, wp_iterSet, Prog.alone_event, hn, Prog.found_some, found_any, wp_iterValid,
        Table.get_set, Option.some.injEq, forall_eq']
      intro inst hd
      by_cases hv : E.valid (E.seek key it) = true
      · simp only [hv, Bool.not_true, Bool.false_eq_true, ↓reduceIte, Prog.wp_bind, wp_iterKey,
          Table.get_set, found_any, Option.some.injEq, forall_eq', wp_load_levelDB, wp_deref, wp_row]
        intro r hr o ho opts hopts
        have hcmp : w.comparatorOf D = some opts.comparator := by
          simp [World.comparatorOf, hr, ho, hopts]
        refine wp_compare_ends fun z c hz => ?_
        have hend : Q () { w with
            ldbIterators := w.ldbIterators.set n ⟨d, if z ≠ 0 then E.prev (E.seek key it)
              else E.seek key it⟩
            owned := w.owned + opts.comparator.kept
            calls := c } () := by
          cases hc : opts.comparator with
          | bytewise =>
            have hno : ¬ w.Consults D true (some key) it := by
              rintro ⟨-, -, p, hp⟩
              rw [hcmp, hc] at hp
              cases hp
            have := hQ _ 0 c (fun h => absurd h hno) fun _ => ⟨rfl, rfl⟩
            rw [hz hc]
            simpa [Scan.place, hv, CmpPtr.kept] using this
          | python p =>
            have hyes : w.Consults D true (some key) it :=
              ⟨rfl, ⟨key, rfl, hv⟩, p, by rw [hcmp, hc]⟩
            exact hQ _ 1 c (fun _ => rfl) fun h => absurd hyes h
        by_cases hz0 : z = 0
        · simpa [hz0] using hend
        · simpa [hz0, hd] using hend
      · have := hplain (by rintro ⟨-, ⟨k, h, hv'⟩, -⟩; cases h; exact hv hv')
        simp only [Scan.place, hv, Bool.not_true, Bool.false_eq_true, ↓reduceIte] at this
        simpa [hv, hd] using this

/-- What stands behind a pointer to a snapshot of instance `d`, if it is one. -/
def World.snapshotOf (w : World E) (d : Nat) : Option Nat → Option (Option E.Snap)
  | none => some none
  | some s => (w.ldbSnapshots.get s).bind fun r => if r.inst = d then some (some r.snap) else none

theorem wp_resolve_ends {d : Nat} {snapshot : Option Nat} {Q : Option E.Snap → World E → Unit → Prop}
    (hQ : ∀ snap, w.snapshotOf d snapshot = some snap → Q snap w ()) :
    (resolve d snapshot).wp anyFault Q w () := by
  cases snapshot with
  | none => exact hQ none rfl
  | some s =>
    simp only [wp_resolve_some, found_any]
    intro r hr
    split
    · next hd => exact hQ _ (by simp [World.snapshotOf, hr, hd])
    · trivial

/-- The iterator that leveldb gives to a call of `RangeIter`, if the call gets there. -/
def World.rangeStart (w : World E) (owner snapshot : Option Nat) (args : RangeArgs) :
    Option E.Iter := do
  let d ← (← w.levelDBs.get (← owner)).db
  let inst ← w.dbs.get d
  let snap ← w.snapshotOf d snapshot
  if args.parses then (E.newIterator ⟨args.verifyChecksums, args.fillCache, snap⟩ inst.db).1 else none

/-- The iterator of leveldb stands at `it'` after a call of `RangeIter` on the object `D` placed it,
and `z` references were left on the way. -/
structure World.Placed (w : World E) (owner snapshot : Option Nat) (args : RangeArgs) (D : Nat)
    (it it' : E.Iter) (z : Int) : Prop where
  object : owner = some D
  start : w.rangeStart owner snapshot args = some it
  consults : w.Consults D args.reverse args.hi it → z = 1
  direct : ¬ w.Consults D args.reverse args.hi it →
    z = 0 ∧ it' = Scan.place E.bytewise args.reverse args.lo args.hi it

theorem World.Placed.parses {owner snapshot : Option Nat} {args : RangeArgs} {D : Nat}
    {it it' : E.Iter} {z : Int} (h : w.Placed owner snapshot args D it it' z) :
    args.parses = true := by
  have hs := h.start
  simp only [World.rangeStart, Option.bind_eq_bind, Option.bind_eq_some_iff] at hs
  obtain ⟨_, _, _, _, _, _, _, _, _, _, hs⟩ := hs
  by_contra hp
  rw [if_neg hp] at hs
  cases hs

/-- How a call of `RangeIter` ends: what it returns, and the world. -/
inductive World.RangeEnds (w : World E) (owner snapshot : Option Nat) (args : RangeArgs)
    (alloc : Bool) : Except Exn Nat → World E → Prop where
  /-- An argument cannot be parsed. -/
  | unparsed : args.parses = false → RangeEnds w owner snapshot args alloc (.error .parse)
      { w with exports := stranded w.exports args.wellFormed args.keyFrom args.keyTo }
  /-- leveldb gives no iterator. -/
  | refused {T : Table (LdbInstance E)} : args.parses = true →
      w.rangeStart owner snapshot args = none →
      RangeEnds w owner snapshot args alloc (.error .memoryError) { w with dbs := T }
  /-- The iterator is at no entry: it is deleted. -/
  | empty {D d c : Nat} {it it' : E.Iter} {z : Int} {T : Table (LdbInstance E)} :
      w.Placed owner snapshot args D it it' z → E.valid it' = false →
      RangeEnds w owner snapshot args alloc (if alloc then .ok w.iters.next else .error .memoryError)
        { w with
          dbs := T
          ldbIterators := (w.ldbIterators.push ⟨d, it'⟩).free w.ldbIterators.next
          iters := if alloc then w.iters.push ⟨none, none, none, none, false, false⟩ else w.iters
          owned := w.owned + z
          calls := c }
  /-- There is no memory for the iterator object. -/
  | noObject {D d c : Nat} {it it' : E.Iter} {z : Int} {T : Table (LdbInstance E)} :
      w.Placed owner snapshot args D it it' z → E.valid it' = true → alloc = false →
      RangeEnds w owner snapshot args alloc (.error .memoryError)
        { w with
          dbs := T
          ldbIterators := (w.ldbIterators.push ⟨d, it'⟩).free w.ldbIterators.next
          strings := (PyLevelDB.scanBound args.reverse args.lo args.hi).elim w.strings w.strings.push
          owned := w.owned + z
          calls := c }
  /-- An iterator object: it has the leveldb iterator, the bound and a reference. -/
  | object {D d c : Nat} {it it' : E.Iter} {z : Int} {T : Table (LdbInstance E)} {r : PyLevelDB} :
      w.Placed owner snapshot args D it it' z → E.valid it' = true → alloc = true →
      w.levelDBs.get D = some r → RangeEnds w owner snapshot args alloc (.ok w.iters.next)
        { w with
          dbs := T
          ldbIterators := w.ldbIterators.push ⟨d, it'⟩
          strings := (PyLevelDB.scanBound args.reverse args.lo args.hi).elim w.strings w.strings.push
          levelDBs := w.levelDBs.set D
            { r with nIterators := r.nIterators + 1, refs := .iter w.iters.next :: r.refs }
          iters := w.iters.push ⟨some D, some D, some w.ldbIterators.next,
            (PyLevelDB.scanBound args.reverse args.lo args.hi).map fun _ => w.strings.next,
            args.reverse, args.includeValue⟩
          owned := w.owned + z
          calls := c }

theorem wp_releaseOptional_iff {F : Fault → Prop} {a : Option Arg} {Q : Unit → World E → Unit → Prop} :
    (PyLevelDB.releaseOptional a).wp (.alone F) Q w () ↔
      Q () { w with exports := a.elim w.exports (release w.exports) } () := by
  cases a with
  | none => rfl
  | some a => rfl

/-- Both buffers are given back, in the order that they were acquired. -/
theorem release_acquireOptional (e : Nat → Int) (a b : Option Arg) :
    let e₁ := acquire (acquire e a.toList) b.toList
    let e₂ := a.elim e₁ (release e₁)
    b.elim e₂ (release e₂) = e := by
  funext o
  have hite : ∀ a : Arg, ((if a.obj = o then 1 else 0 : Nat) : Int) = if a.obj = o then 1 else 0 :=
    fun a => by split <;> rfl
  cases a <;> cases b <;>
    simp only [acquire, release, Option.elim_none, Option.elim_some, Option.toList_none,
      Option.toList_some, List.countP_nil, List.countP_singleton, decide_eq_true_eq, hite] <;>
    omega

theorem rangeIter_ends (owner snapshot : Option Nat) (args : RangeArgs) (alloc : Bool) :
    (PyLevelDB.rangeIter_ owner snapshot args alloc).wp anyFault
      (fun res w' _ => w.RangeEnds owner snapshot args alloc res w') w () := by
  refine wp_parseBoth (fun h => .unparsed h) fun hp => ?_
  simp only [Prog.wp_bind, wp_releaseOptional_iff]
  rw [release_acquireOptional]
  simp only [wp_begin, Prog.alone_event, wp_deref, found_any, wp_load_levelDB, dbNewIterator,
    Prog.wp_bind]
  intro D hself r hr d hdb
  refine wp_resolve_ends fun snap hsnap => ?_
  simp only [wp_callDb, found_any, Prog.alone_event]
  intro inst hd inst' hd'
  rw [hd] at hd'
  cases hd'
  have hstart : w.rangeStart owner snapshot args =
      (E.newIterator ⟨args.verifyChecksums, args.fillCache, snap⟩ inst.db).1 := by
    have hsnap' : w.snapshotOf d snapshot = some snap := hsnap
    simp [World.rangeStart, hself, hr, hdb, hd, hsnap', show args.parses = true from hp]
  generalize E.newIterator ⟨args.verifyChecksums, args.fillCache, snap⟩ inst.db = gives at hstart ⊢
  obtain ⟨_ | it, db⟩ := gives
  · exact .refused hp hstart
  · have hnew : (w.ldbIterators.push ⟨d, it⟩).get w.ldbIterators.next = some ⟨d, it⟩ := by simp
    simp only [PyLevelDB.positionNew]
    refine wp_position_ends hnew fun it' z c hz hit' => ?_
    have hplaced : w.Placed owner snapshot args D it it' z := ⟨hself, hstart, hz, hit'⟩
    simp only [Prog.wp_bind, wp_end, Prog.alone_event, wp_iterValid, Table.push_set, Table.get_push,
      ↓reduceIte, Prog.found_some]
    by_cases hv : E.valid it' = true
    · simp only [hv, Bool.not_true, Bool.false_eq_true, ↓reduceIte, Prog.wp_bind]
      refine wp_newBound ?_
      cases alloc with
      | false =>
        simp only [PyLevelDBIter.new, Prog.wp_bind, wp_py, wp_begin, wp_end, Bool.not_false,
          ↓reduceIte, Prog.alone_event, wp_deleteIterator_some, found_any]
        exact fun _ _ _ _ => .noObject hplaced hv rfl
      | true => exact wp_new_live hr (.object hplaced hv rfl hr)
    · have hv : E.valid it' = false := by simpa using hv
      have hempty := @World.RangeEnds.empty _ w _ _ _ alloc _ d c _ _ _
        (w.dbs.set d { inst with db := db }) hplaced hv
      simp only [hv, Bool.not_false, ↓reduceIte, Prog.wp_bind, wp_begin, wp_end, Prog.alone_event,
        wp_deleteIterator_some, found_any, PyLevelDBIter.new, wp_py]
      intro _ _ _ _
      cases alloc with
      | false =>
        simp only [Bool.not_false, ↓reduceIte, Prog.wp_bind, wp_begin, wp_end, Prog.alone_event,
          wp_deleteIterator_none]
        exact hempty
      | true => exact hempty

end PyLeveldb
