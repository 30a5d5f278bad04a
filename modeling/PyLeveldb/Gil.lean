import PyLeveldb.Api
import PyLeveldb.MemStore
import PyLeveldb.Lib.Monitor

/-!
# The GIL along the paths of a call

`gil` is the discipline: an operation on a Python object, and a call of a Python callable, needs the
GIL; `Py_BEGIN_ALLOW_THREADS` needs it too and gives it up, `Py_END_ALLOW_THREADS` takes it back;
`PyGILState_Ensure` takes it in any state, and `PyGILState_Release` restores that state.

A path of a call keeps the discipline if and only if it does not destroy a Python comparator
(`gil_discipline`). `~PythonComparatorWrapper` drops references, and every path that runs it does so
after `Py_BEGIN_ALLOW_THREADS`. `gilStrict` is the automaton that says so.
-/

namespace PyLeveldb

variable {E : Env}

/-! ## The discipline -/

/-- Whether a thread holds the GIL, and the states that `PyGILState_Ensure` saved. -/
structure Gil where
  held : Bool
  saved : List Bool
  deriving DecidableEq

/-- The effect of an event. -/
def Gil.step : Ev → Gil → Gil
  | .beginAllowThreads, g => { g with held := false }
  | .endAllowThreads, g => { g with held := true }
  | .gilEnsure, g => ⟨true, g.held :: g.saved⟩
  | .gilRelease, g => ⟨g.saved.headD false, g.saved.tail⟩
  | _, g => g

/-- What an event needs. -/
def Gil.allows : Ev → Gil → Bool
  | .py, g | .call _, g | .callInside _, g | .beginAllowThreads, g => g.held
  | .endAllowThreads, g => !g.held
  | .gilRelease, g => !g.saved.isEmpty
  | _, _ => true

/-- The discipline. -/
def gil : Monitor Ev Gil where
  step := Gil.step
  good x g := Gil.allows x g = true
  halt _ := True

/-! ## Destruction of a comparator -/

/-- Where a path stands with regard to `~PythonComparatorWrapper`. -/
inductive Phase where
  | outside
  /-- Its first operation comes next. -/
  | entered
  | inside
  deriving DecidableEq

/-- `~PythonComparatorWrapper` begins. -/
def Ev.destroys : Ev → Bool
  | .enter (.destroyComparator _) => true
  | _ => false

/-- The calls into leveldb that take the mutex of the instance. -/
def LdbOp.locks : LdbOp → Bool
  | .position _ | .move _ => false
  | _ => true

/-- A call into leveldb that takes the mutex. -/
def Ev.locks : Ev → Bool
  | .ldb op _ => op.locks
  | _ => false

/-- The discipline, but for the destruction of a comparator: it happens without the GIL, and its first
event is an operation on a Python object. Calls into leveldb that take the mutex are made without the
GIL, unless `e`. -/
def gilStrict (e : Bool) : Monitor Ev (Gil × Phase) where
  step x s := (Gil.step x s.1, match s.2 with
    | .outside => if x.destroys then .entered else .outside
    | .entered => .inside
    | .inside => if x = .leave then .outside else .inside)
  good x s := (match s.2 with
    | .outside => Gil.allows x s.1 = true ∧ (x.destroys = true → s.1.held = false)
    | .entered => x = .py ∧ s.1.held = false
    | .inside => True) ∧ (x.locks = true → e = true ∨ s.1.held = false)
  halt s := s.2 ≠ .entered

theorem strict_after (e : Bool) (π : List Ev) (g : Gil) (φ : Phase) :
    ((gilStrict e).after π (g, φ)).1 = gil.after π g := by
  induction π generalizing g φ with
  | nil => rfl
  | cons x π ih => exact ih _ _

/-- A path that destroys a comparator next breaks the discipline. -/
theorem strict_entered {e : Bool} {π : List Ev} {g : Gil} (h : (gilStrict e).GoodFrom π (g, .entered))
    (hend : ((gilStrict e).after π (g, .entered)).2 ≠ .entered) : ¬ gil.GoodFrom π g := by
  cases π with
  | nil => exact absurd rfl hend
  | cons x π =>
    obtain ⟨⟨⟨rfl, hheld⟩, -⟩, -⟩ := h
    intro hgood
    have : g.held = true := hgood.1
    rw [hheld] at this
    cases this

/-- **The discipline is kept exactly where no comparator is destroyed.** -/
theorem strict_discipline {e : Bool} {π : List Ev} {g : Gil} (h : (gilStrict e).GoodFrom π (g, .outside))
    (hend : ((gilStrict e).after π (g, .outside)).2 ≠ .entered) :
    gil.GoodFrom π g ↔ ∀ x ∈ π, x.destroys = false := by
  induction π generalizing g with
  | nil => exact ⟨fun _ x hx => (nomatch hx), fun _ => trivial⟩
  | cons x π ih =>
    obtain ⟨⟨⟨hgood, -⟩, -⟩, htail⟩ := h
    cases hx : x.destroys with
    | true =>
      have hstep : (gilStrict e).step x (g, .outside) = (Gil.step x g, .entered) := by
        simp [gilStrict, hx]
      rw [hstep] at htail
      have hend' : ((gilStrict e).after π (Gil.step x g, .entered)).2 ≠ .entered := by
        rw [← hstep]
        exact hend
      refine iff_of_false (fun hg => strict_entered htail hend' hg.2) fun hall => ?_
      rw [hall x List.mem_cons_self] at hx
      cases hx
    | false =>
      have hstep : (gilStrict e).step x (g, .outside) = (Gil.step x g, .outside) := by
        simp [gilStrict, hx]
      rw [hstep] at htail
      have hend' : ((gilStrict e).after π (Gil.step x g, .outside)).2 ≠ .entered := by
        rw [← hstep]
        exact hend
      have htail := ih htail hend'
      constructor
      · intro hg y hy
        rcases List.mem_cons.mp hy with rfl | hy
        · exact hx
        · exact htail.mp hg.2 y hy
      · exact fun hall => ⟨hgood, htail.mpr fun y hy => hall y (List.mem_cons_of_mem _ hy)⟩

/-! ## The functions -/

/-- Along every path from the GIL state `g` the strict discipline is kept, and a path that ends does
so in `g'`. -/
abbrev Goes {α : Type} (e : Bool) (g : Gil) (p : C E α) (g' : Gil) : Prop :=
  (gilStrict e).Moves (g, .outside) p (g', .outside)

section Functions

variable {α : Type} {e : Bool} {g : Gil}

theorem event_goes {x : Ev} (hx : x.destroys = false) (ha : Gil.allows x g = true)
    (hl : x.locks = true → e = true ∨ g.held = false) :
    Goes e g (Prog.event x : C E Unit) (Gil.step x g) := by
  refine .event x ⟨⟨ha, fun h => ?_⟩, hl⟩ ?_
  · rw [hx] at h
    cases h
  · simp [gilStrict, hx]

/-- An event that is no call into leveldb. -/
theorem quiet_goes {x : Ev} (hx : x.destroys = false) (ha : Gil.allows x g = true)
    (hl : x.locks = false) : Goes e g (Prog.event x : C E Unit) (Gil.step x g) :=
  event_goes hx ha fun h => by
    rw [hl] at h
    cases h

/-- The GIL given up. -/
def Gil.without (g : Gil) : Gil := { g with held := false }

theorem begin_goes (hg : g.held = true) : Goes e g (beginAllowThreads : C E Unit) g.without :=
  quiet_goes rfl hg rfl

theorem end_goes (hg : g.held = true) : Goes e g.without (endAllowThreads : C E Unit) g := by
  have h : Goes e g.without (endAllowThreads : C E Unit) (Gil.step .endAllowThreads g.without) :=
    quiet_goes rfl rfl rfl
  have hs : Gil.step .endAllowThreads g.without = g := by
    obtain ⟨held, saved⟩ := g
    cases hg
    rfl
  rwa [hs] at h

theorem py_goes (hg : g.held = true) : Goes e g (py : C E Unit) g := quiet_goes rfl hg rfl

theorem ldb_goes (op : LdbOp) (d : Nat) (h : op.locks = true → e = true ∨ g.held = false) :
    Goes e g (Prog.event (.ldb op d) : C E Unit) g := event_goes rfl rfl h

theorem newRef_goes (hg : g.held = true) : Goes e g (newRef : C E Unit) g :=
  (py_goes hg).bind fun _ => .modify _

theorem dropRef_goes (hg : g.held = true) : Goes e g (dropRef : C E Unit) g :=
  (py_goes hg).bind fun _ => .modify _

theorem giveRef_goes : Goes e g (giveRef : C E Unit) g := .modify _

theorem raise_goes (hg : g.held = true) (x : Exn) : Goes e g (raise x : C E (Except Exn α)) g :=
  (py_goes hg).bind fun _ => .pure _

theorem returnNone_goes (hg : g.held = true) : Goes e g (returnNone : C E (Except Exn Unit)) g :=
  (py_goes hg).bind fun _ => .pure _

theorem deref_goes (p : Option α) : Goes e g (deref p : C E α) g := by
  cases p with
  | none => exact .fault _ (by simp [gilStrict])
  | some a => exact .pure a

theorem row_goes (T : World E → Table α) (p : Nat) : Goes e g (row T p) g :=
  .bind .state fun _ => .ofOption _ _ (by simp [gilStrict])

theorem update_goes (D : Nat) (f : PyLevelDB → PyLevelDB) : Goes (E := E) e g (PyLevelDB.update D f) g :=
  (row_goes _ _).bind fun _ => .modify _

theorem updateSnapshot_goes (s : Nat) (f : PyLevelDBSnapshot → PyLevelDBSnapshot) :
    Goes (E := E) e g (PyLevelDBSnapshot.update s f) g := (row_goes _ _).bind fun _ => .modify _

theorem updateIter_goes (i : Nat) (f : PyLevelDBIter → PyLevelDBIter) :
    Goes (E := E) e g (PyLevelDBIter.update i f) g := (row_goes _ _).bind fun _ => .modify _

theorem updateBatch_goes (b : Nat) (f : PyWriteBatch → PyWriteBatch) :
    Goes (E := E) e g (PyWriteBatch.update b f) g := (row_goes _ _).bind fun _ => .modify _

theorem inFrame_goes {f : Frame} {body : C E α} (hf : (Ev.enter f).destroys = false)
    (hb : Goes e g body g) : Goes e g (inFrame f body) g :=
  (quiet_goes hf rfl rfl).bind fun _ => hb.bind fun _ => (quiet_goes rfl rfl rfl).bind fun _ => .pure _

theorem parse_goes (hg : g.held = true) (wf : Bool) (as : List Arg) :
    Goes (E := E) e g (parse wf as) g := by
  refine (py_goes hg).bind fun _ => ?_
  split
  · exact .bind (.modify _) fun _ => .pure _
  · exact .pure _

theorem releaseBuffer_goes (hg : g.held = true) (a : Arg) : Goes (E := E) e g (releaseBuffer a) g :=
  (py_goes hg).bind fun _ => .modify _

/-! ### Calls into leveldb, with the GIL or without -/

theorem callDb_goes (op : LdbOp) (d : Nat) (f : E.Db → α × E.Db) (h : e = true ∨ g.held = false) :
    Goes e g (callDb op d f) g :=
  (row_goes _ _).bind fun _ => (ldb_goes op d fun _ => h).bind fun _ => (row_goes _ _).bind fun _ =>
    .bind (.modify _) fun _ => .pure _

theorem resolve_goes (d : Nat) (s : Option Nat) : Goes (E := E) e g (resolve d s) g := by
  cases s with
  | none => exact .pure _
  | some s =>
    refine (row_goes _ _).bind fun r => ?_
    split
    · exact .pure _
    · exact .fault _ (by simp [gilStrict])

theorem dbGet_goes (d : Nat) (verify fill : Bool) (s : Option Nat) (key : Bytes)
    (h : e = true ∨ g.held = false) : Goes (E := E) e g (dbGet d verify fill s key) g :=
  (resolve_goes d s).bind fun _ => callDb_goes _ _ _ h

theorem dbGetSnapshot_goes (d : Nat) (h : e = true ∨ g.held = false) :
    Goes (E := E) e g (dbGetSnapshot d) g :=
  (callDb_goes _ _ _ h).bind fun _ => .bind .state fun _ => .bind (.put _) fun _ => .pure _

theorem dbReleaseSnapshot_goes (d s : Nat) (h : e = true ∨ g.held = false) :
    Goes (E := E) e g (dbReleaseSnapshot d s) g := by
  refine (row_goes _ _).bind fun r => ?_
  split
  · exact .fault _ (by simp [gilStrict])
  · exact (callDb_goes _ _ _ h).bind fun _ => .modify _

theorem dbNewIterator_goes (d : Nat) (verify fill : Bool) (s : Option Nat)
    (h : e = true ∨ g.held = false) : Goes (E := E) e g (dbNewIterator d verify fill s) g := by
  refine (resolve_goes d s).bind fun _ => (callDb_goes _ _ _ h).bind fun it => ?_
  cases it with
  | none => exact .pure _
  | some it => exact .bind .state fun _ => .bind (.put _) fun _ => .pure _

theorem deleteDb_goes (d : Option Nat) (h : e = true ∨ g.held = false) :
    Goes (E := E) e g (deleteDb d) g := by
  cases d with
  | none => exact .pure _
  | some d => exact (row_goes _ _).bind fun _ => .bind (.modify _) fun _ => ldb_goes _ _ fun _ => h

theorem iterValid_goes (n : Nat) : Goes (E := E) e g (iterValid n) g :=
  (row_goes _ _).bind fun _ => .pure _

theorem iterKey_goes (n : Nat) : Goes (E := E) e g (iterKey n) g :=
  (row_goes _ _).bind fun _ => .pure _

theorem iterValue_goes (n : Nat) : Goes (E := E) e g (iterValue n) g :=
  (row_goes _ _).bind fun _ => .pure _

theorem iterSet_goes (n : Nat) (f : E.Iter → E.Iter) : Goes e g (iterSet n f) g :=
  (row_goes _ _).bind fun _ => (row_goes _ _).bind fun _ => .modify _

theorem iterPosition_goes (n : Nat) (f : E.Iter → E.Iter) : Goes e g (iterPosition n f) g :=
  (row_goes _ _).bind fun _ => (ldb_goes _ _ fun h => Bool.noConfusion h).bind fun _ => iterSet_goes n f

/-- leveldb calls a Python callable. -/
theorem callback_goes (d : Nat) : Goes (E := E) e g (callback d) g := by
  refine .bind (quiet_goes rfl rfl rfl) fun _ => .bind (quiet_goes rfl rfl rfl) fun _ => ?_
  exact quiet_goes rfl rfl rfl

theorem iterMove_goes (n : Nat) (f h : E.Iter → E.Iter) : Goes e g (iterMove n f h) g :=
  (row_goes _ _).bind fun _ => (ldb_goes _ _ fun h => Bool.noConfusion h).bind fun _ =>
    (iterSet_goes n f).bind fun _ =>
    (row_goes _ _).bind fun _ => (Monitor.Moves.when (callback_goes _)).bind fun _ => iterSet_goes n h

theorem deleteIterator_goes (n : Option Nat) (h : e = true ∨ g.held = false) :
    Goes (E := E) e g (deleteIterator n) g := by
  cases n with
  | none => exact .pure _
  | some n =>
    exact (row_goes _ _).bind fun _ => (row_goes _ _).bind fun _ => .bind (.modify _) fun _ =>
      ldb_goes _ _ fun _ => h

theorem deleteRow_goes (T : World E → Table α) (put : Table α → World E → World E)
    (p : Option Nat) : Goes e g (deleteRow T put p) g := by
  cases p with
  | none => exact .pure _
  | some p => exact (row_goes _ _).bind fun _ => .modify _

/-! ### Comparators -/

/-- A comparison, for a monitor that takes `PyGILState_Ensure` from `r` to `r₁`, where it allows
operations on Python objects, and `PyGILState_Release` back. -/
theorem compare_moves {τ : Type} {M : Monitor Ev τ} {r : τ} (r₁ : τ) (c : CmpPtr)
    (a b : Bytes)
    (hensure : M.good .gilEnsure r ∧ M.step .gilEnsure r = r₁)
    (hpy : M.good .py r₁ ∧ M.step .py r₁ = r₁)
    (hcall : ∀ x, M.good (.call x) r₁ ∧ M.step (.call x) r₁ = r₁)
    (hrelease : M.good .gilRelease r₁ ∧ M.step .gilRelease r₁ = r) (hhalt : M.halt r₁) :
    M.Moves r (c.compare a b : C E Int) r := by
  cases c with
  | bytewise => exact .pure _
  | python p =>
    have hnew : M.Moves r₁ (newRef : C E Unit) r₁ :=
      .bind (.event Ev.py hpy.1 hpy.2) fun _ => .modify _
    have hdrop : M.Moves r₁ (dropRef : C E Unit) r₁ :=
      .bind (.event Ev.py hpy.1 hpy.2) fun _ => .modify _
    have hrow : M.Moves r₁ (row World.comparators p : C E _) r₁ :=
      .bind .state fun _ => .ofOption _ _ hhalt
    refine .bind (.event _ hensure.1 hensure.2) fun _ => hnew.bind fun _ => hnew.bind fun _ =>
      hrow.bind fun x => .bind .state fun w => .bind (.put _) fun _ =>
      .bind (.event _ (hcall _).1 (hcall _).2) fun _ => (Monitor.Moves.when hnew).bind fun _ =>
      hdrop.bind fun _ => hdrop.bind fun _ => ?_
    split
    · exact .fault _ hhalt
    · exact .bind (.event _ hrelease.1 hrelease.2) fun _ => .pure _

theorem compare_goes (c : CmpPtr) (a b : Bytes) : Goes (E := E) e g (c.compare a b) g := by
  have hquiet : ∀ {x : Ev} {g : Gil}, Gil.allows x g = true → x.destroys = false →
      x.locks = false → (gilStrict e).good x (g, .outside) := by
    intro x g ha hd hl
    exact ⟨⟨ha, by simp [hd]⟩, by simp [hl]⟩
  exact compare_moves (⟨true, g.held :: g.saved⟩, .outside) c a b
    ⟨hquiet rfl rfl rfl, rfl⟩ ⟨hquiet rfl rfl rfl, rfl⟩ (fun _ => ⟨hquiet rfl rfl rfl, rfl⟩)
    ⟨hquiet rfl rfl rfl, rfl⟩ (by simp [gilStrict])

/-- A comparison takes the GIL, and gives back what it found. -/
theorem compare_gil (c : CmpPtr) (a b : Bytes) : gil.Moves g (c.compare a b : C E Int) g :=
  compare_moves (Gil.mk true (g.held :: g.saved)) c a b ⟨rfl, rfl⟩ ⟨rfl, rfl⟩ (fun _ => ⟨rfl, rfl⟩)
    ⟨rfl, rfl⟩ trivial

/-- `~PythonComparatorWrapper` runs without the GIL. -/
theorem deleteComparator_goes (hg : g.held = false) (c : Option CmpPtr) :
    Goes (E := E) e g (deleteComparator c) g := by
  match c with
  | none => exact .pure _
  | some .bytewise => exact .pure _
  | some (.python p) =>
    refine (row_goes _ _).bind fun _ => ?_
    have hpy : (gilStrict e).Moves (g, .entered) (py : C E Unit) (g, .inside) :=
      Monitor.Moves.event (M := gilStrict e) Ev.py ⟨⟨rfl, hg⟩, fun h => (nomatch h)⟩ rfl
    have hpy' : (gilStrict e).Moves (g, .inside) (py : C E Unit) (g, .inside) :=
      Monitor.Moves.event (M := gilStrict e) Ev.py ⟨trivial, fun h => (nomatch h)⟩ rfl
    refine .bind (.event _ ⟨⟨rfl, fun _ => hg⟩, fun h => (nomatch h)⟩ rfl) fun _ => ?_
    refine .bind (.bind (.bind hpy fun _ => .modify _) fun _ => .bind (.bind hpy' fun _ => .modify _)
      fun _ => .modify _) fun _ => ?_
    exact .bind (.event Ev.leave ⟨trivial, fun h => (nomatch h)⟩ rfl) fun _ => .pure _

theorem getComparator_goes (hg : g.held = true) (arg : ComparatorArg) (alloc : Bool) :
    Goes (E := E) e g (getComparator arg alloc) g := by
  cases arg with
  | absent => exact .pure _
  | str p =>
    unfold getComparator
    dsimp only
    split
    · exact .pure _
    · exact (py_goes hg).bind fun _ => raise_goes hg _
  | pair name callable obj =>
    cases callable with
    | false => exact (py_goes hg).bind fun _ => raise_goes hg _
    | true =>
      refine (py_goes hg).bind fun _ => ?_
      dsimp only
      split
      · exact raise_goes hg _
      · exact .bind ((newRef_goes hg).bind fun _ => (newRef_goes hg).bind fun _ => .bind .state
          fun _ => .bind (.put _) fun _ => .pure _) fun _ => .pure _
  | other => exact (py_goes hg).bind fun _ => raise_goes hg _

/-! ### LevelDB objects -/

theorem load_goes (D : Nat) : Goes (E := E) e g (PyLevelDB.load D) g := row_goes _ _

theorem deleteParts_goes (hg : g.held = false) (D : Nat) :
    Goes (E := E) e g (PyLevelDB.deleteParts D) g :=
  (load_goes D).bind fun _ => (deleteDb_goes _ (.inr hg)).bind fun _ =>
    (load_goes D).bind fun _ => (deleteRow_goes _ _ _).bind fun _ =>
    (load_goes D).bind fun _ => (deleteRow_goes _ _ _).bind fun _ =>
    (load_goes D).bind fun _ => deleteComparator_goes hg _

theorem dealloc_goes (hg : g.held = true) (D : Nat) : Goes (E := E) e g (PyLevelDB.dealloc D) g :=
  inFrame_goes rfl <| (begin_goes hg).bind fun _ => (deleteParts_goes rfl D).bind fun _ =>
    (end_goes hg).bind fun _ => (update_goes _ _).bind fun _ => (py_goes hg).bind fun _ => .modify _

theorem incref_goes (hg : g.held = true) (D : Nat) (a : Holder) :
    Goes (E := E) e g (PyLevelDB.incref D a) g := (py_goes hg).bind fun _ => update_goes _ _

theorem decref_goes (hg : g.held = true) (D : Nat) (a : Holder) :
    Goes (E := E) e g (PyLevelDB.decref D a) g := by
  refine (py_goes hg).bind fun _ => (load_goes D).bind fun d => ?_
  split
  · exact .fault _ (by simp [gilStrict])
  · exact (update_goes _ _).bind fun _ => .when (dealloc_goes hg D)

theorem xincref_goes (hg : g.held = true) (D : Option Nat) (a : Holder) :
    Goes (E := E) e g (PyLevelDB.xincref D a) g := by
  cases D with
  | none => exact .pure _
  | some D => exact incref_goes hg D a

theorem xdecref_goes (hg : g.held = true) (D : Option Nat) (a : Holder) :
    Goes (E := E) e g (PyLevelDB.xdecref D a) g := by
  cases D with
  | none => exact .pure _
  | some D => exact decref_goes hg D a

theorem addIterators_goes (D : Option Nat) (k : Int) :
    Goes (E := E) e g (PyLevelDB.addIterators D k) g := by
  cases D with
  | none => exact .pure _
  | some D => exact update_goes _ _

theorem addSnapshots_goes (D : Option Nat) (k : Int) :
    Goes (E := E) e g (PyLevelDB.addSnapshots D k) g := by
  cases D with
  | none => exact .pure _
  | some D => exact update_goes _ _

/-- What a method returns for a status. -/
theorem answer_goes (hg : g.held = true) (st : Status) :
    Goes (E := E) e g (if !st.isOk then setError st else returnNone) g := by
  split
  · exact raise_goes hg _
  · exact returnNone_goes hg

theorem put_goes (hg : g.held = true) (D : Nat) (args : PyLevelDB.PutArgs) :
    Goes (E := E) e g (PyLevelDB.put D args) g := by
  refine (parse_goes hg _ _).bind fun ok => ?_
  split
  · exact .pure _
  · exact (begin_goes hg).bind fun _ => (load_goes D).bind fun _ => (deref_goes _).bind fun _ =>
      (callDb_goes _ _ _ (.inr rfl)).bind fun st => (end_goes hg).bind fun _ =>
      (releaseBuffer_goes hg _).bind fun _ => (releaseBuffer_goes hg _).bind fun _ =>
      answer_goes hg st

theorem delete_goes (hg : g.held = true) (D : Nat) (args : PyLevelDB.DeleteArgs) :
    Goes (E := E) e g (PyLevelDB.delete D args) g := by
  refine (parse_goes hg _ _).bind fun ok => ?_
  split
  · exact .pure _
  · exact (begin_goes hg).bind fun _ => (load_goes D).bind fun _ => (deref_goes _).bind fun _ =>
      (callDb_goes _ _ _ (.inr rfl)).bind fun st => (end_goes hg).bind fun _ =>
      (releaseBuffer_goes hg _).bind fun _ => answer_goes hg st

theorem write_goes (hg : g.held = true) (D : Nat) (args : PyLevelDB.WriteArgs) :
    Goes (E := E) e g (PyLevelDB.write D args) g := by
  refine (parse_goes hg _ _).bind fun ok => ?_
  split
  · exact .pure _
  · exact .bind (row_goes _ _) fun _ => (begin_goes hg).bind fun _ => (load_goes D).bind fun _ =>
      (deref_goes _).bind fun _ => (callDb_goes _ _ _ (.inr rfl)).bind fun st => (end_goes hg).bind fun _ =>
      answer_goes hg st

theorem get_goes (hg : g.held = true) (db s : Option Nat) (args : PyLevelDB.GetArgs) (alloc : Bool) :
    Goes (E := E) e g (PyLevelDB.get_ db s args alloc) g := by
  refine (parse_goes hg _ _).bind fun ok => ?_
  split
  · exact .pure _
  · refine (begin_goes hg).bind fun _ => (deref_goes _).bind fun _ =>
      (dbGet_goes _ _ _ _ _ (.inr rfl)).bind fun r => (end_goes hg).bind fun _ =>
      (releaseBuffer_goes hg _).bind fun _ => ?_
    split
    · split
      · exact (newRef_goes hg).bind fun _ => giveRef_goes.bind fun _ => .pure _
      · exact raise_goes hg _
    · split
      · exact raise_goes hg _
      · split
        · exact raise_goes hg _
        · exact (newRef_goes hg).bind fun _ => giveRef_goes.bind fun _ => .pure _

theorem getStatus_goes (hg : g.held = true) (he : e = true) (D : Nat) :
    Goes (E := E) e g (PyLevelDB.getStatus D) g := by
  refine (load_goes D).bind fun _ => (deref_goes _).bind fun _ => (callDb_goes _ _ _ (.inl he)).bind fun r => ?_
  split
  · exact raise_goes hg _
  · exact (newRef_goes hg).bind fun _ => giveRef_goes.bind fun _ => .pure _

theorem parseOptional_goes (hg : g.held = true) (a : Option Arg) :
    Goes (E := E) e g (PyLevelDB.parseOptional a) g := by
  cases a with
  | none => exact .pure _
  | some a => exact parse_goes hg _ _

theorem releaseOptional_goes (hg : g.held = true) (a : Option Arg) :
    Goes (E := E) e g (PyLevelDB.releaseOptional a) g := by
  cases a with
  | none => exact .pure _
  | some a => exact releaseBuffer_goes hg _

theorem compactRange_goes (hg : g.held = true) (D : Nat) (args : PyLevelDB.CompactArgs) :
    Goes (E := E) e g (PyLevelDB.compactRange D args) g := by
  refine (parse_goes hg _ _).bind fun ok => ?_
  split
  · exact .pure _
  refine (parseOptional_goes hg _).bind fun ok => ?_
  split
  · exact .pure _
  refine (parseOptional_goes hg _).bind fun ok => ?_
  split
  · exact .pure _
  exact (begin_goes hg).bind fun _ => (load_goes D).bind fun _ => (deref_goes _).bind fun _ =>
    (callDb_goes _ _ _ (.inr rfl)).bind fun _ => (end_goes hg).bind fun _ =>
    (releaseOptional_goes hg _).bind fun _ => (releaseOptional_goes hg _).bind fun _ =>
    returnNone_goes hg

theorem dbOpen_goes (D : Nat) (opened : Except Status E.Db) (h : e = true ∨ g.held = false) :
    Goes e g (PyLevelDB.dbOpen D opened) g := by
  refine (load_goes D).bind fun _ => (deref_goes _).bind fun _ => (row_goes _ _).bind fun _ =>
    (update_goes _ _).bind fun _ => .bind .state fun _ => (ldb_goes _ _ fun _ => h).bind fun _ => ?_
  split
  · exact .pure _
  · exact .bind .state fun _ => .bind (.put _) fun _ => (update_goes _ _).bind fun _ => .pure _

theorem close_goes (hg : g.held = true) (D : Nat) : Goes (E := E) e g (PyLevelDB.close D) g :=
  (load_goes D).bind fun _ => .when <| (begin_goes hg).bind fun _ =>
    (deleteParts_goes rfl D).bind fun _ => (end_goes hg).bind fun _ => update_goes _ _

theorem open_goes (hg : g.held = true) (D : Nat) (args : PyLevelDB.InitArgs) (c : CmpPtr)
    (o : PyLevelDB.InitOutcome E) : Goes e g (PyLevelDB.open_ D args c o) g := by
  have hopts : Goes (E := E) e g (PyLevelDB.newOptions o.optionsAlloc) g := by
    unfold PyLevelDB.newOptions
    split
    · exact .pure _
    · exact .bind .state fun _ => .bind (.put _) fun _ => .pure _
  have hcache : ∀ n, Goes (E := E) e g (PyLevelDB.newLRUCache o.cacheAlloc n) g := by
    intro n
    unfold PyLevelDB.newLRUCache
    split
    · exact .pure _
    · exact .bind .state fun _ => .bind (.put _) fun _ => .pure _
  refine hopts.bind fun options => (hcache _).bind fun cache => (update_goes _ _).bind fun _ => ?_
  split
  · exact (begin_goes hg).bind fun _ => (load_goes D).bind fun _ => (deleteRow_goes _ _ _).bind fun _ =>
      (load_goes D).bind fun _ => (deleteRow_goes _ _ _).bind fun _ => (load_goes D).bind fun _ =>
      (deleteComparator_goes rfl _).bind fun _ => (end_goes hg).bind fun _ =>
      (update_goes _ _).bind fun _ => raise_goes hg _
  · refine (load_goes D).bind fun _ => (deref_goes _).bind fun _ => (row_goes _ _).bind fun _ =>
      .bind (.modify _) fun _ => (begin_goes hg).bind fun _ => (dbOpen_goes D _ (.inr rfl)).bind fun st =>
      (Monitor.Moves.when ((deleteParts_goes rfl D).bind fun _ => update_goes _ _)).bind fun _ =>
      (end_goes hg).bind fun _ => ?_
    split
    · exact raise_goes hg _
    · exact .pure _

theorem init_goes (hg : g.held = true) (D : Nat) (args : Option PyLevelDB.InitArgs)
    (o : PyLevelDB.InitOutcome E) : Goes e g (PyLevelDB.init D args o) g := by
  refine inFrame_goes rfl <| (close_goes hg D).bind fun _ => (py_goes hg).bind fun _ => ?_
  split
  · exact .pure _
  · split
    · exact raise_goes hg _
    · refine (getComparator_goes hg _ _).bind fun c => ?_
      split
      · exact .pure _
      · exact open_goes hg D _ _ o

/-! ### Iterators and snapshots -/

theorem clean_goes (hg : g.held = true) (i : Nat) : Goes (E := E) e g (PyLevelDBIter.clean i) g :=
  inFrame_goes rfl <| .bind (row_goes _ _) fun _ => (addIterators_goes _ _).bind fun _ =>
    (begin_goes hg).bind fun _ => .bind (row_goes _ _) fun _ => (deleteIterator_goes _ (.inr rfl)).bind fun _ =>
    .bind (row_goes _ _) fun _ => (deleteRow_goes _ _ _).bind fun _ => (end_goes hg).bind fun _ =>
    .bind (row_goes _ _) fun _ => (xdecref_goes hg _ _).bind fun _ => updateIter_goes _ _

theorem iterDealloc_goes (hg : g.held = true) (i : Nat) :
    Goes (E := E) e g (PyLevelDBIter.dealloc i) g :=
  inFrame_goes rfl <| (clean_goes hg i).bind fun _ => (py_goes hg).bind fun _ => .modify _

theorem pastBound_goes (i : Nat) (it : PyLevelDBIter) :
    Goes (E := E) e g (PyLevelDBIter.pastBound i it) g := by
  unfold PyLevelDBIter.pastBound
  split
  · exact .pure _
  · exact .bind (row_goes _ _) fun _ => (deref_goes _).bind fun _ => (iterKey_goes _).bind fun _ =>
      (deref_goes _).bind fun _ => (load_goes _).bind fun _ => (deref_goes _).bind fun _ =>
      (row_goes _ _).bind fun _ => (compare_goes _ _ _).bind fun _ => .bind (row_goes _ _) fun _ =>
      .pure _

theorem makeItem_goes (hg : g.held = true) (i : Nat) (allocs : PyLevelDBIter.NextAllocs) :
    Goes (E := E) e g (PyLevelDBIter.makeItem i allocs) g := by
  refine .bind (row_goes _ _) fun it => (deref_goes _).bind fun n => (iterKey_goes n).bind fun key => ?_
  split
  · exact raise_goes hg _
  refine (newRef_goes hg).bind fun _ => ?_
  split
  · exact giveRef_goes.bind fun _ => .pure _
  refine (deref_goes _).bind fun _ => (iterValue_goes _).bind fun _ => ?_
  split
  · exact (dropRef_goes hg).bind fun _ => raise_goes hg _
  refine (newRef_goes hg).bind fun _ => ?_
  split
  · exact (dropRef_goes hg).bind fun _ => (dropRef_goes hg).bind fun _ => raise_goes hg _
  · exact (newRef_goes hg).bind fun _ => giveRef_goes.bind fun _ => giveRef_goes.bind fun _ =>
      giveRef_goes.bind fun _ => .pure _

theorem next_goes (hg : g.held = true) (i : Nat) (allocs : PyLevelDBIter.NextAllocs) :
    Goes (E := E) e g (PyLevelDBIter.next i allocs) g := by
  have hend : ∀ it, Goes (E := E) e g (PyLevelDBIter.atEnd it) g := by
    intro it
    unfold PyLevelDBIter.atEnd
    split
    · exact .pure _
    · exact (deref_goes _).bind fun _ => (iterValid_goes _).bind fun _ => .pure _
  have hadvance : Goes (E := E) e g (PyLevelDBIter.advance i) g := by
    refine .bind (row_goes _ _) fun it => (deref_goes _).bind fun n => ?_
    split <;> exact iterMove_goes _ _ _
  refine inFrame_goes rfl <| .bind (row_goes _ _) fun it => (hend it).bind fun b => ?_
  split
  · exact (clean_goes hg i).bind fun _ => .pure _
  refine (pastBound_goes i it).bind fun b => ?_
  split
  · exact (clean_goes hg i).bind fun _ => .pure _
  refine (makeItem_goes hg i allocs).bind fun r => ?_
  split
  · exact .pure _
  · exact hadvance.bind fun _ => .pure _

theorem new_goes (hg : g.held = true) (ref db iterator bound : Option Nat)
    (includeValue reverse alloc : Bool) :
    Goes (E := E) e g (PyLevelDBIter.new ref db iterator bound includeValue reverse alloc) g := by
  refine (py_goes hg).bind fun _ => ?_
  split
  · exact (begin_goes hg).bind fun _ => (deleteIterator_goes _ (.inr rfl)).bind fun _ =>
      (end_goes hg).bind fun _ => .pure _
  · exact .bind .state fun _ => (xincref_goes hg _ _).bind fun _ => .bind (.modify _) fun _ =>
      (addIterators_goes _ _).bind fun _ => (py_goes hg).bind fun _ => .pure _

theorem position_goes (D n : Nat) (reverse : Bool) (keyFrom keyTo : Option Bytes) :
    Goes (E := E) e g (PyLevelDB.position D n reverse keyFrom keyTo) g := by
  unfold PyLevelDB.position
  split
  · split <;> exact iterPosition_goes _ _
  · split
    · exact iterPosition_goes _ _
    · refine (iterPosition_goes _ _).bind fun _ => (iterValid_goes _).bind fun _ => ?_
      split
      · exact iterPosition_goes _ _
      · exact (iterKey_goes _).bind fun _ => (load_goes _).bind fun _ => (deref_goes _).bind fun _ =>
          (row_goes _ _).bind fun _ => (compare_goes _ _ _).bind fun _ =>
          .when (iterPosition_goes _ _)

theorem rangeIter_goes (hg : g.held = true) (self s : Option Nat) (args : RangeArgs)
    (alloc : Bool) : Goes (E := E) e g (PyLevelDB.rangeIter_ self s args alloc) g := by
  refine (parse_goes hg _ _).bind fun ok => ?_
  split
  · exact .pure _
  refine (parseOptional_goes hg _).bind fun ok => ?_
  split
  · exact .pure _
  refine (parseOptional_goes hg _).bind fun ok => ?_
  split
  · exact .pure _
  refine (releaseOptional_goes hg _).bind fun _ => (releaseOptional_goes hg _).bind fun _ =>
    (begin_goes hg).bind fun _ => (deref_goes _).bind fun this => (load_goes _).bind fun _ =>
    (deref_goes _).bind fun d => (dbNewIterator_goes d _ _ _ (.inr rfl)).bind fun n => ?_
  have hpos : ∀ n, Goes (E := E) e g.without (PyLevelDB.positionNew this n args.reverse
      (args.keyFrom.map Arg.bytes) (args.keyTo.map Arg.bytes)) g.without := by
    intro n
    cases n with
    | none => exact .pure _
    | some n => exact position_goes _ _ _ _ _
  refine (hpos n).bind fun _ => (end_goes hg).bind fun _ => ?_
  split
  · exact raise_goes hg _
  refine (iterValid_goes _).bind fun _ => ?_
  split
  · exact (begin_goes hg).bind fun _ => (deleteIterator_goes _ (.inr rfl)).bind fun _ =>
      (end_goes hg).bind fun _ => new_goes hg _ _ _ _ _ _ _
  · refine .bind ?_ fun _ => new_goes hg _ _ _ _ _ _ _
    unfold PyLevelDB.newBound
    split
    · exact .pure _
    · exact .bind (.bind .state fun _ => .bind (.put _) fun _ => .pure _) fun _ => .pure _

theorem snapshotInit_goes (hg : g.held = true) (he : e = true) (s : Nat) (args : Option Nat) :
    Goes (E := E) e g (PyLevelDBSnapshot.init s args) g := by
  refine inFrame_goes rfl <| .bind (row_goes _ _) fun x => ?_
  have hclose : Goes (E := E) e g (PyLevelDBSnapshot.close s x) g := by
    unfold PyLevelDBSnapshot.close
    split
    · exact (addSnapshots_goes _ _).bind fun _ => (load_goes _).bind fun _ =>
        (deref_goes _).bind fun _ => (dbReleaseSnapshot_goes _ _ (.inl he)).bind fun _ => decref_goes hg _ _
    · exact .pure _
  refine hclose.bind fun _ => (updateSnapshot_goes _ _).bind fun _ => (py_goes hg).bind fun _ => ?_
  split
  · exact .pure _
  · exact (load_goes _).bind fun _ => (deref_goes _).bind fun _ => (dbGetSnapshot_goes _ (.inl he)).bind fun _ =>
      (updateSnapshot_goes _ _).bind fun _ => (incref_goes hg _ _).bind fun _ =>
      (addSnapshots_goes (some _) 1).bind fun _ => .pure _

theorem snapshotDealloc_goes (hg : g.held = true) (s : Nat) :
    Goes (E := E) e g (PyLevelDBSnapshot.dealloc s) g := by
  have hheld : ∀ x, Goes (E := E) e g (PyLevelDBSnapshot.releaseHeld x) g := by
    intro x
    unfold PyLevelDBSnapshot.releaseHeld
    split
    · exact (begin_goes hg).bind fun _ => (load_goes _).bind fun _ => (deref_goes _).bind fun _ =>
        (dbReleaseSnapshot_goes _ _ (.inr rfl)).bind fun _ => end_goes hg
    · exact .pure _
  exact inFrame_goes rfl <| .bind (row_goes _ _) fun x => (hheld x).bind fun _ =>
    .bind (row_goes _ _) fun _ => (addSnapshots_goes _ _).bind fun _ => .bind (row_goes _ _) fun _ =>
    (deref_goes _).bind fun _ => (decref_goes hg _ _).bind fun _ => (updateSnapshot_goes _ _).bind
    fun _ => (py_goes hg).bind fun _ => .modify _

theorem createSnapshot_goes (hg : g.held = true) (he : e = true) (D : Nat) (alloc : Bool) :
    Goes (E := E) e g (PyLevelDB.createSnapshot D alloc) g := by
  refine (load_goes _).bind fun _ => (deref_goes _).bind fun _ => (dbGetSnapshot_goes _ (.inl he)).bind fun _ =>
    (py_goes hg).bind fun _ => ?_
  split
  · exact (load_goes _).bind fun _ => (deref_goes _).bind fun _ =>
      (dbReleaseSnapshot_goes _ _ (.inl he)).bind fun _ => .pure _
  · exact .bind .state fun _ => (incref_goes hg _ _).bind fun _ => .bind (.modify _) fun _ =>
      (addSnapshots_goes (some _) 1).bind fun _ => (py_goes hg).bind fun _ => .pure _

/-- The calls that take the mutex of the instance with the GIL. -/
def ApiOp.locksHeld : ApiOp E → Bool
  | .getStatus _ | .createSnapshot _ _ | .initSnapshot _ _ => true
  | _ => false

/-- **Every call goes from the GIL to the GIL.** -/
theorem prog_goes (hg : g.held = true) (op : ApiOp E) (he : op.locksHeld = true → e = true) :
    Goes e g op.prog g := by
  cases op <;> refine .map _ ?_
  case newDb alloc =>
    cases alloc
    · exact raise_goes hg _
    · exact (py_goes hg).bind fun _ => .bind .state fun _ => .bind (.put _) fun _ => .pure _
  case initDb D args o => exact init_goes hg D args o
  case put D args => exact put_goes hg D args
  case get D args alloc => exact (load_goes D).bind fun _ => get_goes hg _ _ args alloc
  case delete D args => exact delete_goes hg D args
  case write D args => exact write_goes hg D args
  case rangeIter D args alloc => exact rangeIter_goes hg _ _ args alloc
  case getStatus D => exact getStatus_goes hg (he rfl) D
  case createSnapshot D alloc => exact createSnapshot_goes hg (he rfl) D alloc
  case compactRange D args => exact compactRange_goes hg D args
  case dropDb D => exact decref_goes hg D .env
  case newSnapshot alloc =>
    cases alloc
    · exact raise_goes hg _
    · exact (py_goes hg).bind fun _ => .bind .state fun _ => .bind (.put _) fun _ => .pure _
  case initSnapshot s args => exact snapshotInit_goes hg (he rfl) s args
  case snapshotGet s args alloc =>
    exact .bind (row_goes _ _) fun _ => (deref_goes _).bind fun _ => (load_goes _).bind fun _ =>
      get_goes hg _ _ args alloc
  case snapshotRangeIter s args alloc =>
    exact .bind (row_goes _ _) fun _ => rangeIter_goes hg _ _ args alloc
  case dropSnapshot s => exact snapshotDealloc_goes hg s
  case next i allocs => exact next_goes hg i allocs
  case dropIter i => exact iterDealloc_goes hg i
  case newBatch alloc =>
    cases alloc
    · exact raise_goes hg _
    · exact (py_goes hg).bind fun _ => .bind .state fun _ => .bind (.put _) fun _ => .pure _
  case initBatch b wf =>
    refine (updateBatch_goes _ _).bind fun _ => (py_goes hg).bind fun _ => ?_
    split <;> exact .pure _
  case batchPut b wf key value =>
    refine (parse_goes hg _ _).bind fun ok => ?_
    split
    · exact .pure _
    · exact (begin_goes hg).bind fun _ => (end_goes hg).bind fun _ =>
        (releaseBuffer_goes hg _).bind fun _ => (releaseBuffer_goes hg _).bind fun _ =>
        (updateBatch_goes _ _).bind fun _ => returnNone_goes hg
  case batchDelete b wf key =>
    refine (parse_goes hg _ _).bind fun ok => ?_
    split
    · exact .pure _
    · exact (begin_goes hg).bind fun _ => (end_goes hg).bind fun _ =>
        (releaseBuffer_goes hg _).bind fun _ => (updateBatch_goes _ _).bind fun _ =>
        returnNone_goes hg
  case dropBatch b => exact .bind (row_goes _ _) fun _ => (py_goes hg).bind fun _ => .modify _
  case repairDb args alloc status =>
    refine (parse_goes hg _ _).bind fun ok => ?_
    split
    · exact .pure _
    refine (getComparator_goes hg _ _).bind fun c => ?_
    split
    · exact raise_goes hg _
    · exact (begin_goes hg).bind fun _ => (end_goes hg).bind fun _ => answer_goes hg status
  case destroyDb wf status =>
    refine (parse_goes hg _ _).bind fun ok => ?_
    split
    · exact .pure _
    · exact (begin_goes hg).bind fun _ => (end_goes hg).bind fun _ => answer_goes hg status

end Functions

/-! ## Results -/

/-- The paths of a program that goes from `g` to `g'`. -/
theorem Goes.discipline {α : Type} {e : Bool} {g g' : Gil} {p : C E α} (hp : Goes e g p g')
    {π : List Ev} {r : Option α} (h : p.Path π r) :
    (gil.GoodFrom π g ↔ ∀ x ∈ π, x.destroys = false) ∧ (r ≠ none → gil.after π g = g') := by
  obtain ⟨hgood, hret, hhalt⟩ := hp.path h
  refine ⟨strict_discipline hgood ?_, fun hr => ?_⟩
  · cases r with
    | none => exact hhalt rfl
    | some a =>
      rw [hret a rfl]
      exact fun h => nomatch h
  · obtain ⟨a, rfl⟩ := Option.ne_none_iff_exists'.mp hr
    rw [← strict_after e π g .outside, hret a rfl]

instance : ∀ x r, Decidable (gil.good x r) := fun x r =>
  inferInstanceAs (Decidable (Gil.allows x r = true))

end PyLeveldb
