import PyLeveldb.NullPointers
import PyLeveldb.MemStore

/-!
# Calls that are ready

`ApiOp.Ready` is what has to hold before a call so that it uses no null pointer. In every run of calls
that are ready no null pointer is used, and a call that is not ready does not end (`ready_no_null`).
-/

namespace PyLeveldb

variable {E : Env} {w : World E}

/-! ## Runs -/

/-- What has to hold before a call so that it uses no null pointer: the LevelDB object that it reaches
is open. A call reaches it only when its arguments can be parsed, a step of an iterator only for its
bound test. A snapshot object has to have a LevelDB object, also to be destroyed. -/
def ApiOp.Ready (op : ApiOp E) (w : World E) : Prop :=
  match op with
  | put D args => parses args.wellFormed [args.key, args.value] = true → w.OpenDb D
  | get D args _ => parses args.wellFormed [args.key] = true → w.OpenDb D
  | delete D args => parses args.wellFormed [args.key] = true → w.OpenDb D
  | write D args => parses args.wellFormed [] = true → w.OpenDb D
  | rangeIter D args _ => args.parses = true → w.OpenDb D
  | getStatus D | createSnapshot D _ => w.OpenDb D
  | compactRange D args => args.parses = true → w.OpenDb D
  | initSnapshot s args =>
    (∀ x D, w.snapshots.get s = some x → x.db = some D → x.snapshot ≠ none → w.OpenDb D) ∧
      ∀ D, args = some D → w.OpenDb D
  | snapshotGet s args _ => ∀ x, w.snapshots.get s = some x →
    ∃ D, x.db = some D ∧ (parses args.wellFormed [args.key] = true → w.OpenDb D)
  | snapshotRangeIter s args _ => args.parses = true → ∀ x, w.snapshots.get s = some x →
    ∃ D, x.db = some D ∧ w.OpenDb D
  | dropSnapshot s => ∀ x, w.snapshots.get s = some x →
    ∃ D, x.db = some D ∧ (x.snapshot ≠ none → w.OpenDb D)
  | next i _ => ∀ it n x D, w.iters.get i = some it → it.ref ≠ none → it.bound ≠ none →
    it.iterator = some n → w.ldbIterators.get n = some x → E.valid x.it = true → it.db = some D → w.HasOptions D
  | _ => True

theorem ready_keeps {op : ApiOp E} (h : w.Coherent) (hr : op.Ready w) :
    op.prog.wp noNull (fun _ w' _ => w'.Coherent) w () := by
  cases op <;> simp only [ApiOp.prog, Prog.wp_map]
  case newDb alloc =>
    cases alloc
    · exact h
    · exact h.setDb fun hdb => absurd rfl hdb
  case initDb D args o => exact init_keeps args o w () h
  case put D args => exact put_keeps h hr
  case get D args alloc =>
    simp only [PyLevelDB.get, Prog.wp_bind, wp_load_levelDB, found_freed]
    exact fun r hD => get_keeps h fun hp => hr hp r hD
  case delete D args => exact delete_keeps h hr
  case write D args => exact write_keeps h hr
  case rangeIter D args alloc => exact rangeIter_keeps h fun hp => ⟨D, rfl, hr hp⟩
  case getStatus D => exact getStatus_keeps h hr
  case createSnapshot D alloc => exact createSnapshot_keeps h hr
  case compactRange D args => exact compactRange_keeps h hr
  case dropDb D => exact decref_keeps D .env w () h
  case newSnapshot alloc =>
    cases alloc
    · exact h
    · exact h.same ⟨rfl, rfl⟩
  case initSnapshot s args => exact snapshotInit_keeps h hr.1 hr.2
  case snapshotGet s args alloc =>
    simp only [PyLevelDBSnapshot.get, Prog.wp_bind, wp_load_snapshot, found_freed]
    intro x hx
    obtain ⟨D, hdb, ho⟩ := hr x hx
    rw [wp_deref_of hdb]
    simp only [wp_load_levelDB, found_freed]
    exact fun r hD => get_keeps h fun hp => ho hp r hD
  case snapshotRangeIter s args alloc =>
    simp only [PyLevelDBSnapshot.rangeIter, Prog.wp_bind, wp_load_snapshot, found_freed]
    exact fun x hx => rangeIter_keeps h fun hp => hr hp x hx
  case dropSnapshot s => exact snapshotDealloc_keeps h hr
  case next i allocs => exact next_keeps h hr
  case dropIter i => exact iterDealloc_keeps i w () h
  case newBatch alloc =>
    cases alloc
    · exact h
    · exact h.same ⟨rfl, rfl⟩
  case initBatch b wf =>
    simp only [PyWriteBatch.init, Prog.wp_bind, wp_update_batch, found_freed, wp_py, Prog.alone_event]
    intro x _
    split <;> exact h.same ⟨rfl, rfl⟩
  case batchPut b wf key value =>
    simp only [PyWriteBatch.put, Prog.wp_bind, wp_parse, Prog.alone_event]
    split
    · simp only [Bool.not_true, Bool.false_eq_true, ↓reduceIte, Prog.wp_bind, wp_begin, wp_end,
        wp_releaseBuffer, Prog.alone_event, PyWriteBatch.pushBack, wp_update_batch, found_freed]
      exact fun _ _ => h.same ⟨rfl, rfl⟩
    · exact h
  case batchDelete b wf key =>
    simp only [PyWriteBatch.delete, Prog.wp_bind, wp_parse, Prog.alone_event]
    split
    · simp only [Bool.not_true, Bool.false_eq_true, ↓reduceIte, Prog.wp_bind, wp_begin, wp_end,
        wp_releaseBuffer, Prog.alone_event, PyWriteBatch.pushBack, wp_update_batch, found_freed]
      exact fun _ _ => h.same ⟨rfl, rfl⟩
    · exact h
  case dropBatch b =>
    simp only [PyWriteBatch.dealloc, Prog.wp_bind, wp_load_batch, found_freed]
    exact fun _ _ => h.same ⟨rfl, rfl⟩
  case repairDb args alloc status =>
    simp only [repairDb, Prog.wp_bind, wp_parse, Prog.alone_event]
    split
    · simp only [Bool.not_true, Bool.false_eq_true, ↓reduceIte, Prog.wp_bind]
      refine (getComparator_leaves _ _).wp fun res w' hs => ?_
      have h : w'.Coherent := h.same ⟨hs.1, hs.2⟩
      cases res with
      | error e => exact h
      | ok c =>
        simp only [Prog.wp_bind, wp_begin, wp_end, Prog.alone_event]
        split <;> exact h
    · exact h
  case destroyDb wf status =>
    simp only [destroyDb, Prog.wp_bind, wp_parse, Prog.alone_event]
    split
    · simp only [Bool.not_true, Bool.false_eq_true, ↓reduceIte, Prog.wp_bind, wp_begin, wp_end,
        Prog.alone_event]
      split <;> exact h.same ⟨rfl, rfl⟩
    · exact h

theorem ready_preserves : (apiCalls (E := E) ApiOp.Ready).Preserves (· ≠ .nullPointer)
    World.Coherent := fun _ _ h hr => ready_keeps h hr

/-! ### Calls that are not ready -/

/-- The judgement that a program does not end. -/
abbrev fails {α : Type} (p : C E α) (w : World E) : Prop :=
  p.wp (.alone fun _ => True) (fun _ _ _ => False) w ()

theorem not_openDb {D : Nat} : ¬ w.OpenDb D ↔ ∃ r, w.levelDBs.get D = some r ∧ r.db = none := by
  simp [World.OpenDb]

theorem compactRange_fails {D : Nat} {args : PyLevelDB.CompactArgs} (hp : args.parses = true)
    (ho : ¬ w.OpenDb D) : fails (PyLevelDB.compactRange D args) w := by
  obtain ⟨r, hr, hdb⟩ := not_openDb.mp ho
  obtain ⟨hwf, hstart, hfinish⟩ : args.wellFormed = true ∧
      args.start.all (·.data.isSome) = true ∧ args.finish.all (·.data.isSome) = true := by
    simpa [PyLevelDB.CompactArgs.parses, and_assoc] using hp
  have hwf' : parses args.wellFormed [] = true := by simpa [parses] using hwf
  simp only [fails, PyLevelDB.compactRange, Prog.wp_bind, wp_parse, Prog.alone_event, hwf',
    ↓reduceIte, Bool.not_true, Bool.false_eq_true]
  refine wp_parseOptional hstart fun e₁ => ?_
  simp only [Bool.not_true, Bool.false_eq_true, ↓reduceIte, Prog.wp_bind]
  refine wp_parseOptional hfinish fun e₂ => ?_
  simp [Prog.wp_bind, hr, hdb]

/-- `RangeIter` without an open LevelDB object. -/
theorem rangeIter_fails {self snapshot : Option Nat} {args : RangeArgs} {alloc : Bool}
    (hp : args.parses = true) (ho : ∀ D, self = some D → ¬ w.OpenDb D) :
    fails (PyLevelDB.rangeIter_ self snapshot args alloc) w := by
  obtain ⟨hwf, hfrom, hto⟩ : args.wellFormed = true ∧
      args.keyFrom.all (·.data.isSome) = true ∧ args.keyTo.all (·.data.isSome) = true := by
    simpa [RangeArgs.parses, and_assoc] using hp
  have hwf' : parses args.wellFormed [] = true := by simpa [parses] using hwf
  simp only [fails, PyLevelDB.rangeIter_, Prog.wp_bind, wp_parse, Prog.alone_event, hwf', ↓reduceIte,
    Bool.not_true, Bool.false_eq_true]
  refine wp_parseOptional hfrom fun e₁ => ?_
  simp only [Bool.not_true, Bool.false_eq_true, ↓reduceIte, Prog.wp_bind]
  refine wp_parseOptional hto fun e₂ => ?_
  simp only [Bool.not_true, Bool.false_eq_true, ↓reduceIte, Prog.wp_bind]
  refine wp_releaseOptional fun e₃ => ?_
  refine wp_releaseOptional fun e₄ => ?_
  cases self with
  | none => simp
  | some D =>
    obtain ⟨r, hr, hdb⟩ := not_openDb.mp (ho D rfl)
    simp [hr, hdb]

theorem initSnapshot_fails {s : Nat} {args : Option Nat}
    (h : (∃ x D, w.snapshots.get s = some x ∧ x.db = some D ∧ x.snapshot ≠ none ∧ ¬ w.OpenDb D) ∨
      ∃ D, args = some D ∧ ¬ w.OpenDb D) : fails (PyLevelDBSnapshot.init s args) w := by
  simp only [fails, PyLevelDBSnapshot.init, wp_inFrame, Prog.alone_event, Prog.wp_bind,
    wp_load_snapshot, found_any]
  intro x hx
  by_cases hheld : ∀ D, x.db = some D → x.snapshot ≠ none → w.OpenDb D
  · -- the old snapshot is given back; the new LevelDB object is closed
    obtain ⟨D, rfl, ho⟩ : ∃ D, args = some D ∧ ¬ w.OpenDb D := by
      rcases h with ⟨x', D, hx', hdb, hp, ho⟩ | h
      · cases hx.symm.trans hx'
        exact absurd (hheld D hdb hp) ho
      · exact h
    refine Prog.wp_alone_mono (fun _ _ => trivial) (close_shrinks hheld fun w₁ hs₁ => ?_)
    obtain ⟨r, hr, hnull⟩ := not_openDb.mp ho
    simp only [wp_update_snapshot, found_any, wp_py, Prog.alone_event, Prog.wp_bind,
      wp_load_levelDB, wp_deref]
    intro _ _ r' hr' d hd
    obtain ⟨r₀, hr₀, e, -⟩ := hs₁.dbs D r' hr'
    cases hr.symm.trans hr₀
    rw [e, hnull] at hd
    cases hd
  · push Not at hheld
    obtain ⟨D, hdb, hp, ho⟩ := hheld
    obtain ⟨p, hp⟩ := Option.ne_none_iff_exists'.mp hp
    obtain ⟨r, hr, hnull⟩ := not_openDb.mp ho
    simp [PyLevelDBSnapshot.close, hdb, hp, Prog.wp_bind, PyLevelDB.addSnapshots, hr, hnull]

theorem next_fails {i n D : Nat} {it : PyLevelDBIter} {x : LdbIterator E}
    {allocs : PyLevelDBIter.NextAllocs} (hi : w.iters.get i = some it) (href : it.ref ≠ none)
    (hb : it.bound ≠ none) (hn : it.iterator = some n) (hx : w.ldbIterators.get n = some x)
    (hv : E.valid x.it = true) (hD : it.db = some D) (ho : ¬ w.HasOptions D) :
    fails (PyLevelDBIter.next i allocs) w := by
  obtain ⟨D', href⟩ := Option.ne_none_iff_exists'.mp href
  obtain ⟨b, hb⟩ := Option.ne_none_iff_exists'.mp hb
  unfold World.HasOptions at ho
  push Not at ho
  obtain ⟨r, hr, hnull⟩ := ho
  simp [fails, PyLevelDBIter.next, PyLevelDBIter.atEnd, PyLevelDBIter.pastBound, Prog.wp_bind, hi,
    href, hb, hn, hx, hv, hD, hr, hnull]

/-- A call that is not ready does not end. -/
theorem not_ready_fails {op : ApiOp E} (h : ¬ op.Ready w) : fails op.prog w := by
  cases op <;> simp only [ApiOp.prog, fails, Prog.wp_map] <;> simp only [ApiOp.Ready] at h
  case put D args =>
    obtain ⟨hp, ho⟩ := Classical.not_imp.mp h
    obtain ⟨r, hr, hdb⟩ := not_openDb.mp ho
    simp [PyLevelDB.put, Prog.wp_bind, hp, hr, hdb]
  case get D args alloc =>
    obtain ⟨hp, ho⟩ := Classical.not_imp.mp h
    obtain ⟨r, hr, hdb⟩ := not_openDb.mp ho
    simp [PyLevelDB.get, PyLevelDB.get_, Prog.wp_bind, hp, hr, hdb]
  case delete D args =>
    obtain ⟨hp, ho⟩ := Classical.not_imp.mp h
    obtain ⟨r, hr, hdb⟩ := not_openDb.mp ho
    simp [PyLevelDB.delete, Prog.wp_bind, hp, hr, hdb]
  case write D args =>
    obtain ⟨hp, ho⟩ := Classical.not_imp.mp h
    obtain ⟨r, hr, hdb⟩ := not_openDb.mp ho
    simp [PyLevelDB.write, Prog.wp_bind, hp, hr, hdb]
  case rangeIter D args alloc =>
    obtain ⟨hp, ho⟩ := Classical.not_imp.mp h
    exact rangeIter_fails hp fun D' hD' => by cases hD'; exact ho
  case getStatus D =>
    obtain ⟨r, hr, hdb⟩ := not_openDb.mp h
    simp [PyLevelDB.getStatus, Prog.wp_bind, hr, hdb]
  case createSnapshot D alloc =>
    obtain ⟨r, hr, hdb⟩ := not_openDb.mp h
    simp [PyLevelDB.createSnapshot, Prog.wp_bind, hr, hdb]
  case compactRange D args =>
    obtain ⟨hp, ho⟩ := Classical.not_imp.mp h
    exact compactRange_fails hp ho
  case initSnapshot s args =>
    refine initSnapshot_fails ?_
    by_contra hno
    push Not at hno
    exact h ⟨fun x D hx hD hs => by simpa using hno.1 x D hx hD hs,
      fun D hD => by simpa using hno.2 D hD⟩
  case snapshotGet s args alloc =>
    push Not at h
    obtain ⟨x, hx, ho⟩ := h
    cases hdb : x.db with
    | none => simp [PyLevelDBSnapshot.get, Prog.wp_bind, hx, hdb]
    | some D =>
      obtain ⟨hp, ho⟩ := ho D hdb
      obtain ⟨r, hr, hnull⟩ := not_openDb.mp ho
      simp [PyLevelDBSnapshot.get, PyLevelDB.get_, Prog.wp_bind, hx, hdb, hp, hr, hnull]
  case snapshotRangeIter s args alloc =>
    push Not at h
    obtain ⟨hp, x, hx, ho⟩ := h
    simp only [PyLevelDBSnapshot.rangeIter, Prog.wp_bind, wp_load_snapshot, hx, Prog.found_some]
    exact rangeIter_fails hp ho
  case dropSnapshot s =>
    push Not at h
    obtain ⟨x, hx, ho⟩ := h
    cases hdb : x.db with
    | none =>
      simp [PyLevelDBSnapshot.dealloc, PyLevelDBSnapshot.releaseHeld, PyLevelDB.addSnapshots,
        Prog.wp_bind, hx, hdb]
    | some D =>
      obtain ⟨hp, ho⟩ := ho D hdb
      obtain ⟨p, hp⟩ := Option.ne_none_iff_exists'.mp hp
      obtain ⟨r, hr, hnull⟩ := not_openDb.mp ho
      simp [PyLevelDBSnapshot.dealloc, PyLevelDBSnapshot.releaseHeld, Prog.wp_bind, hx, hdb, hp, hr,
        hnull]
  case next i allocs =>
    push Not at h
    obtain ⟨it, n, x, D, hi, href, hb, hn, hx, hv, hD, ho⟩ := h
    exact next_fails hi href hb hn hx hv hD ho
  all_goals exact absurd trivial h

theorem empty_coherent : (World.empty E).Coherent where
  options D r hr := by cases hr
  iter i it hi := by cases hi

/-- A snapshot object is made, and its `__init__` is given something else than a LevelDB object. -/
def snapshotOfNothing : List (ApiOp E × Answer) :=
  [(.newSnapshot true, .object 0), (.initSnapshot 0 none, .error .parse)]

end PyLeveldb
