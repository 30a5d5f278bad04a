import PyLeveldb.Residue
import PyLeveldb.MemStore

/-!
# What is acquired is released or handed on

`World.Accounted w w' ret`: whatever a call made between `w` and `w'` is gone or belongs to the object
`ret` that it returns. `calls_accounted` says for which calls of `RepairDB`, `RangeIter` and `next`
this is so. There are three leaks: each comparison with a Python comparator leaves a reference
(`compare_keeps`), `RepairDB` leaves the comparator that it made, and `RangeIter` without memory for
the iterator object leaves the bound.

The comparisons here are the ones that the binding makes. Those that leveldb makes of its own while
a call runs are calls of `Compare` as well, each with its leak.
-/

namespace PyLeveldb

variable {E : Env} {w w' : World E} {α : Type}

/-! ## Accounts -/

/-- The object that a call returns. -/
def Answer.object? : Answer → Option Nat
  | .object p => some p
  | _ => Option.none

/-- `P` holds of the fields of the iterator object `ret`. -/
def World.Returned (w : World E) (ret : Option Nat) (P : PyLevelDBIter → Prop) : Prop :=
  ∃ i it, ret = some i ∧ w.iters.get i = some it ∧ P it

/-- Nothing is left over from `w` to `w'` but what the returned object has. -/
structure World.Accounted (w w' : World E) (ret : Option Nat) : Prop where
  refs : w'.unheld = w.unheld
  iterators : ∀ n a, w'.ldbIterators.get n = some a →
    (∃ b, w.ldbIterators.get n = some b) ∨ w'.Returned ret fun it => it.iterator = some n
  strings : ∀ s a, w'.strings.get s = some a →
    (∃ b, w.strings.get s = some b) ∨ w'.Returned ret fun it => it.bound = some s
  comparators : ∀ p a, w'.comparators.get p = some a → (∃ b, w.comparators.get p = some b) ∨
    w'.Returned ret fun it => ∃ D r, it.ref = some D ∧ w'.levelDBs.get D = some r ∧
      r.comparator = some (.python p)
  /-- A new reference to a LevelDB object is held by the returned one. -/
  levelDBs : ∀ D r', w'.levelDBs.get D = some r' → ∃ r, w.levelDBs.get D = some r ∧
    ∀ h, r'.refs.count h ≤ r.refs.count h ∨ ∃ i, h = .iter i ∧ ret = some i ∧
      w'.Returned ret (fun it => it.ref = some D) ∧ r'.refs.count h = r.refs.count h + 1

/-- What is settled is accounted for, whatever is returned. -/
theorem World.Settled.accounted (h : w.Settled w') (ret : Option Nat) : w.Accounted w' ret where
  refs := h.unheld
  iterators n a hn := .inl (h.iterators n a hn)
  strings s a hs := .inl (h.strings s a hs)
  comparators p a hp := .inl (h.comparators p a hp)
  levelDBs D r' hr' := by
    obtain ⟨r, hr, hle⟩ := h.refs D r' hr'
    exact ⟨r, hr, fun x => .inl (hle x)⟩

/-! ## `Compare` -/

/-- **A comparison leaves a reference to the integer that the callable returned.** -/
theorem compare_keeps {c : Nat} {a b : Bytes} {z : Int}
    (hr : (PythonComparatorWrapper.compare c a b).run w = .ok (z, w')) :
    w'.unheld = w.unheld + 1 := by
  refine Prog.wp_of_run (wp_compare_ends (p := .python c) (Q := fun _ w' _ =>
    w'.unheld = w.unheld + 1) fun _ _ _ => ?_) hr
  simp only [World.unheld, CmpPtr.kept]
  omega

/-! ## `RepairDB` -/

/-- A Python comparator is made. -/
def ComparatorArg.wraps (arg : ComparatorArg) (alloc : Bool) : Bool :=
  match arg with
  | .pair _ callable _ => callable && alloc
  | _ => false

theorem getComparator_settles {arg : ComparatorArg} {alloc : Bool} (h : arg.wraps alloc = false) :
    Settles (E := E) (getComparator arg alloc) := by
  have hraise : ∀ e, Settles (E := E) (py >>= fun _ => raise e : C E (Except Exn CmpPtr)) :=
    fun e => (event_settles .py).bind fun _ => raise_settles e
  cases arg with
  | absent => exact .pure _
  | str p =>
    cases hp : strEq p bytewiseName with
    | true =>
      simp only [getComparator, hp, ↓reduceIte]
      exact .pure _
    | false =>
      simp only [getComparator, hp, Bool.false_eq_true, ↓reduceIte]
      exact hraise _
  | pair name callable obj =>
    cases callable with
    | false => exact hraise _
    | true =>
      have halloc : alloc = false := h
      subst halloc
      exact hraise _
  | other => exact hraise _

/-- What `RepairDB` leaves is accounted for exactly if it makes no Python comparator. -/
theorem repairDb_accounted (args : RepairArgs) (alloc : Bool) (status : Status) :
    (repairDb (E := E) args alloc status).wp anyFault (fun _ w' _ =>
      w.Accounted w' none ↔ ¬ (args.wellFormed && args.comparator.wraps alloc) = true) w () := by
  have hend : Settles (E := E) (do
      beginAllowThreads
      endAllowThreads
      if !status.isOk then setError status else returnNone) :=
    (event_settles _).bind fun _ => (event_settles _).bind fun _ => status_settles status
  simp only [repairDb, Prog.wp_bind, wp_parse, Prog.alone_event, acquire_nil]
  cases args.wellFormed with
  | false => exact iff_of_true (w.settled_refl.accounted none) Bool.false_ne_true
  | true =>
    simp only [PyLeveldb.parses, List.all_nil, Bool.and_true, ↓reduceIte, Bool.not_true,
      Bool.false_eq_true, Bool.true_and, Prog.wp_bind]
    cases hc : args.comparator.wraps alloc with
    | false =>
      refine (getComparator_settles hc).wp fun x w₁ h₁ => ?_
      cases x with
      | error e =>
        refine (raise_settles _).wp fun _ w₂ h₂ => iff_of_true ?_ Bool.false_ne_true
        exact World.Settled.accounted (IsTrans.trans _ _ _ h₁ h₂) none
      | ok c =>
        refine hend.wp fun _ w₂ h₂ => iff_of_true ?_ Bool.false_ne_true
        exact World.Settled.accounted (IsTrans.trans _ _ _ h₁ h₂) none
    | true =>
      obtain ⟨name, obj, hpair⟩ : ∃ name obj, args.comparator = .pair name true obj := by
        cases harg : args.comparator with
        | pair name callable obj => cases callable <;> simp_all [ComparatorArg.wraps]
        | _ => simp [harg, ComparatorArg.wraps] at hc
      have halloc : alloc = true := by simpa [hpair, ComparatorArg.wraps] using hc
      subst halloc
      simp only [hpair, getComparator, Bool.false_eq_true, ↓reduceIte, Bool.not_true, Prog.wp_bind,
        PythonComparatorWrapper.new, wp_py, wp_newRef, Prog.alone_event, Prog.wp_state, Prog.wp_put,
        Prog.wp_pure, wp_begin, wp_end]
      -- the comparator is there, and nothing has it
      have hleft : ∀ {w' : World E}, w'.comparators = w.comparators.push ⟨name, obj⟩ →
          (w.Accounted w' none ↔ ¬ True) := by
        refine fun {w'} hcs => iff_of_false (fun hacc => ?_) (by simp)
        have hget : w'.comparators.get w.comparators.next = some ⟨name, obj⟩ := by
          rw [hcs]
          exact Table.get_push_next _ _
        rcases hacc.comparators _ _ hget with ⟨b, hb⟩ | ⟨_, _, hret, -⟩
        · rw [w.comparators.get_next] at hb
          cases hb
        · cases hret
      split
      · simpa using hleft rfl
      · simpa using hleft rfl

/-! ## `RangeIter` -/

/-- The call asks a Python comparator for its first position, or it has made a bound and then has no
memory for the iterator object. -/
def World.RangeLeaks (w : World E) (owner snapshot : Option Nat) (args : RangeArgs) (alloc : Bool) :
    Prop :=
  ∃ D it, owner = some D ∧ w.rangeStart owner snapshot args = some it ∧
    (w.Consults D args.reverse args.hi it ∨ alloc = false ∧
      (PyLevelDB.scanBound args.reverse args.lo args.hi).isSome = true ∧
      E.valid (Scan.place E.bytewise args.reverse args.lo args.hi it) = true)

theorem World.Placed.kept {owner snapshot : Option Nat} {args : RangeArgs} {D : Nat} {it it' : E.Iter}
    {z : Int} (h : w.Placed owner snapshot args D it it' z) : z = 0 ∨ z = 1 := by
  by_cases hc : w.Consults D args.reverse args.hi it
  · exact .inr (h.consults hc)
  · exact .inl (h.direct hc).1

/-- The leak, from where the call placed the iterator. -/
theorem World.Placed.leaks_iff {owner snapshot : Option Nat} {args : RangeArgs} {alloc : Bool}
    {D : Nat} {it it' : E.Iter} {z : Int} (h : w.Placed owner snapshot args D it it' z) :
    w.RangeLeaks owner snapshot args alloc ↔ z = 1 ∨ alloc = false ∧
      (PyLevelDB.scanBound args.reverse args.lo args.hi).isSome = true ∧ E.valid it' = true := by
  have hunique : w.RangeLeaks owner snapshot args alloc ↔
      w.Consults D args.reverse args.hi it ∨ alloc = false ∧
        (PyLevelDB.scanBound args.reverse args.lo args.hi).isSome = true ∧
        E.valid (Scan.place E.bytewise args.reverse args.lo args.hi it) = true := by
    constructor
    · rintro ⟨D', it₁, ho, hs, hleak⟩
      rw [h.object] at ho
      rw [h.start] at hs
      cases ho
      cases hs
      exact hleak
    · exact fun hleak => ⟨D, it, h.object, h.start, hleak⟩
  rw [hunique]
  by_cases hc : w.Consults D args.reverse args.hi it
  · simp [hc, h.consults hc]
  · obtain ⟨hz, hit⟩ := h.direct hc
    simp [hc, hz, hit]

/-- No object and no reference is new. -/
theorem World.accounted_of {ret : Option Nat} (hu : w'.unheld = w.unheld)
    (hi : w'.ldbIterators.Within w.ldbIterators) (hs : w'.strings.Within w.strings)
    (hc : w'.comparators = w.comparators) (hl : w'.levelDBs = w.levelDBs) : w.Accounted w' ret where
  refs := hu
  iterators n a hn := .inl (hi n a hn)
  strings s a hs' := .inl (hs s a hs')
  comparators p a hp := .inl ⟨a, by rw [← hc]; exact hp⟩
  levelDBs D r hr := ⟨r, by rw [← hl]; exact hr, fun _ => .inl (Nat.le_refl _)⟩

/-- What a call of `RangeIter` leaves is accounted for exactly if there is no leak. -/
theorem rangeIter_accounted {owner snapshot : Option Nat} {args : RangeArgs} {alloc : Bool}
    {res : Except Exn Nat} (h : w.RangeEnds owner snapshot args alloc res w') :
    w.Accounted w' (Answer.of .object res).object? ↔ ¬ w.RangeLeaks owner snapshot args alloc := by
  have hstart : w.rangeStart owner snapshot args = none →
      ¬ w.RangeLeaks owner snapshot args alloc := by
    rintro hs ⟨D, it, -, hs', -⟩
    rw [hs] at hs'
    cases hs'
  have hrefs : ∀ {z : Int}, w.owned + z - 2 * w.comparators.count (fun _ => true) = w.unheld →
      z = 0 := by
    intro z hz
    simp only [World.unheld] at hz
    omega
  cases h with
  | unparsed hp =>
    refine iff_of_true (World.accounted_of rfl (.refl _) (.refl _) rfl rfl) (hstart ?_)
    rw [Option.eq_none_iff_forall_ne_some]
    intro it hs
    simp [World.rangeStart, hp] at hs
  | refused hp hs => exact iff_of_true (World.accounted_of rfl (.refl _) (.refl _) rfl rfl) (hstart hs)
  | empty hp hv =>
    rw [hp.leaks_iff]
    constructor
    · rintro ha (hz | ⟨-, -, hv'⟩)
      · have := hrefs ha.refs
        omega
      · rw [hv] at hv'
        cases hv'
    · intro hno
      have hz := hp.kept.resolve_right fun hz => hno (.inl hz)
      subst hz
      refine World.accounted_of ?_ (.push_free _ _) (.refl _) rfl rfl
      simp [World.unheld]
  | @noObject D d c it it' z T hp hv ha =>
    rw [hp.leaks_iff]
    constructor
    · rintro hacc (hz | ⟨-, hb, -⟩)
      · have := hrefs hacc.refs
        omega
      · -- the bound is a new string, and no object has it
        obtain ⟨b, hb⟩ := Option.isSome_iff_exists.mp hb
        rcases hacc.strings w.strings.next b (by simp [hb]) with ⟨b', hb'⟩ | ⟨_, _, hret, -⟩
        · rw [w.strings.get_next] at hb'
          cases hb'
        · cases hret
    · intro hno
      have hz := hp.kept.resolve_right fun hz => hno (.inl hz)
      have hb : PyLevelDB.scanBound args.reverse args.lo args.hi = none := by
        cases hb : PyLevelDB.scanBound args.reverse args.lo args.hi with
        | none => rfl
        | some b => exact absurd (.inr ⟨ha, by simp [hb], hv⟩) hno
      subst hz
      refine World.accounted_of ?_ (.push_free _ _) (by rw [hb]; exact .refl _) rfl rfl
      simp [World.unheld]
  | @object D d c it it' z T r hp hv ha hr =>
    rw [hp.leaks_iff, ha]
    constructor
    · rintro hacc (hz | ⟨hfalse, -⟩)
      · have := hrefs hacc.refs
        omega
      · cases hfalse
    · intro hno
      have hz := hp.kept.resolve_right fun hz => hno (.inl hz)
      subst hz
      refine ⟨by simp [World.unheld], fun n a hn => ?_, fun s a hs => ?_, fun p a hp => .inl ⟨a, hp⟩,
        fun D' r' hr' => ?_⟩
      · rcases Table.get_push_some hn with ⟨rfl, -⟩ | ⟨-, hn⟩
        · exact .inr ⟨w.iters.next, _, rfl, Table.get_push_next _ _, rfl⟩
        · exact .inl ⟨a, hn⟩
      · cases hb : PyLevelDB.scanBound args.reverse args.lo args.hi with
        | none =>
          simp only [hb, Option.elim_none] at hs
          exact .inl ⟨a, hs⟩
        | some b =>
          simp only [hb, Option.elim_some] at hs
          rcases Table.get_push_some hs with ⟨rfl, -⟩ | ⟨-, hs⟩
          · exact .inr ⟨w.iters.next, _, rfl, Table.get_push_next _ _, rfl⟩
          · exact .inl ⟨a, hs⟩
      · rcases Table.get_set_some hr' with ⟨rfl, rfl⟩ | ⟨-, hr'⟩
        · refine ⟨r, hr, fun x => ?_⟩
          by_cases hx : x = .iter w.iters.next
          · refine .inr ⟨w.iters.next, hx, rfl, ?_, by simp [hx]⟩
            exact ⟨w.iters.next, _, rfl, Table.get_push_next _ _, rfl⟩
          · exact .inl (by simp [Ne.symm hx])
        · exact ⟨r', hr', fun _ => .inl (Nat.le_refl _)⟩

/-! ## Results -/

/-- The calls that acquire. -/
def ApiOp.acquires : ApiOp E → Bool
  | repairDb .. | rangeIter .. | snapshotRangeIter .. | next .. => true
  | _ => false

/-- The calls that leave something behind, in a world. -/
def ApiOp.leaks (w : World E) : ApiOp E → Prop
  | repairDb args alloc _ => (args.wellFormed && args.comparator.wraps alloc) = true
  | rangeIter D args alloc => w.RangeLeaks (some D) none args alloc
  | snapshotRangeIter s args alloc =>
    ∃ r, w.snapshots.get s = some r ∧ w.RangeLeaks r.db r.snapshot args alloc
  | next i _ => w.NextAsks i
  | _ => False

theorem call_accounted {op : ApiOp E} (ho : op.acquires = true) :
    op.prog.wp anyFault (fun ans w' _ => w.Accounted w' ans.object? ↔ ¬ op.leaks w) w () := by
  cases op with
  | repairDb args alloc status =>
    simp only [ApiOp.prog, Prog.wp_map]
    refine Prog.wp_mono (repairDb_accounted args alloc status) fun res w' _ h => ?_
    cases res with
    | error e => exact h
    | ok a => exact h
  | rangeIter D args alloc =>
    simp only [ApiOp.prog, Prog.wp_map]
    exact Prog.wp_mono (rangeIter_ends (some D) none args alloc) fun _ _ _ h => rangeIter_accounted h
  | snapshotRangeIter s args alloc =>
    simp only [ApiOp.prog, Prog.wp_map, PyLevelDBSnapshot.rangeIter, Prog.wp_bind, wp_load_snapshot,
      found_any]
    intro r hr
    have hleaks : (ApiOp.snapshotRangeIter s args alloc).leaks w ↔
        w.RangeLeaks r.db r.snapshot args alloc := by
      simp [ApiOp.leaks, hr]
    rw [hleaks]
    exact Prog.wp_mono (rangeIter_ends r.db r.snapshot args alloc) fun _ _ _ h =>
      rangeIter_accounted h
  | next i allocs =>
    simp only [ApiOp.prog, Prog.wp_map]
    refine Prog.wp_mono (next_ends i allocs) fun res w' _ h => ?_
    by_cases ha : w.NextAsks i
    · refine iff_of_false (fun hacc => ?_) (not_not_intro ha)
      have := h.asks ha
      have := hacc.refs
      omega
    · exact iff_of_true ((h.quiet ha).accounted _) ha
  | _ => cases ho

/-- **Calls without a leak leave no residue**, however many there are. -/
theorem no_residue {h : List (ApiOp E × Answer)}
    (hrun : (apiCalls fun op w => op.acquires = true ∧ ¬ op.leaks w).Run w h w') :
    w'.unheld = w.unheld := by
  refine Calls.Run.inv (F := fun _ => True) (I := fun s => s.unheld = w.unheld) ?_ hrun rfl
  rintro op s hs ⟨ho, hl⟩
  exact Prog.wp_mono (call_accounted ho) fun _ _ _ hacc => (hacc.mpr hl).refs.trans hs

end PyLeveldb
