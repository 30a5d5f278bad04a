import PyLeveldb.Residue
import PyLeveldb.MemStore

/-!
# Buffers of arguments

`buffers_released`: a call that takes buffers of its arguments has released all of them when it
returns or raises, but for a range whose first bound exports a buffer and whose second one does not.
The two are parsed one after the other there, and the second parse returns without a release of the
first buffer.
-/

namespace PyLeveldb

variable {E : Env} {w w' : World E} {α : Type}

open PyLevelDB (PutArgs GetArgs DeleteArgs CompactArgs)

/-! ## Exports -/

/-- The buffer exports are the same. -/
def World.SameExports (w w' : World E) : Prop := w'.exports = w.exports

instance : Std.Refl (World.SameExports (E := E)) where
  refl _ := rfl

instance : IsTrans (World E) World.SameExports where
  trans _ _ _ h h' := Eq.trans h' h

/-- The function leaves the buffer exports, wherever it ends. -/
abbrev Balances (p : C E α) : Prop := p.Effect World.SameExports

theorem Settles.balances {p : C E α} (h : Settles p) : Balances p := h.mono fun _ _ hs => hs.exports

theorem newRef_balances : Balances (newRef : C E Unit) := (event_settles .py).balances.bind fun _ => .modify fun _ => rfl

theorem giveRef_balances : Balances (giveRef : C E Unit) := .modify fun _ => rfl

theorem dropRef_balances : Balances (dropRef : C E Unit) := (event_settles .py).balances.bind fun _ => .modify fun _ => rfl

/-! ## Functions that parse their buffers at once -/

theorem put_balances (D : Nat) (args : PutArgs) : Balances (E := E) (PyLevelDB.put D args) := by
  intro w
  simp only [PyLevelDB.put, Prog.wp_bind, wp_parse, Prog.alone_event]
  split
  · simp only [Bool.not_true, Bool.false_eq_true, ↓reduceIte, Prog.wp_bind, wp_begin,
      Prog.alone_event]
    refine (load_settles D).wp fun r w₁ h₁ => (deref_settles r.db).wp fun d w₂ h₂ => ?_
    refine (callDb_settles _ _ _).wp fun st w₃ h₃ => ?_
    simp only [wp_end, Prog.alone_event, wp_releaseBuffer]
    refine (status_settles st).wp fun _ w₄ h₄ => h₄.exports.trans ?_
    show release (release w₃.exports args.key) args.value = w.exports
    rw [h₃.exports, h₂.exports, h₁.exports, release_acquire_pair]
  · exact w.settled_refl.exports

theorem delete_balances (D : Nat) (args : DeleteArgs) :
    Balances (E := E) (PyLevelDB.delete D args) := by
  intro w
  simp only [PyLevelDB.delete, Prog.wp_bind, wp_parse, Prog.alone_event]
  split
  · simp only [Bool.not_true, Bool.false_eq_true, ↓reduceIte, Prog.wp_bind, wp_begin,
      Prog.alone_event]
    refine (load_settles D).wp fun r w₁ h₁ => (deref_settles r.db).wp fun d w₂ h₂ => ?_
    refine (callDb_settles _ _ _).wp fun st w₃ h₃ => ?_
    simp only [wp_end, Prog.alone_event, wp_releaseBuffer]
    refine (status_settles st).wp fun _ w₄ h₄ => h₄.exports.trans ?_
    show release w₃.exports args.key = w.exports
    rw [h₃.exports, h₂.exports, h₁.exports, release_acquire]
  · exact w.settled_refl.exports

theorem get_balances (db s : Option Nat) (args : GetArgs) (alloc : Bool) :
    Balances (E := E) (PyLevelDB.get_ db s args alloc) := by
  intro w
  simp only [PyLevelDB.get_, Prog.wp_bind, wp_parse, Prog.alone_event]
  split
  · simp only [Bool.not_true, Bool.false_eq_true, ↓reduceIte, Prog.wp_bind, wp_begin,
      Prog.alone_event]
    refine (deref_settles db).wp fun d w₁ h₁ => (dbGet_settles _ _ _ _ _).wp fun x w₂ h₂ => ?_
    simp only [wp_end, Prog.alone_event, wp_releaseBuffer]
    have hrel : release w₂.exports args.key = w.exports := by
      rw [h₂.exports, h₁.exports, release_acquire]
    have hgive : ∀ y, Balances (E := E) (do
        newRef
        giveRef
        return (.ok y : Except Exn PyLevelDB.GetResult)) :=
      fun y => newRef_balances.bind fun _ => giveRef_balances.bind fun _ => .pure _
    have hraise : ∀ y, Balances (E := E) (raise y : C E (Except Exn PyLevelDB.GetResult)) :=
      fun y => (raise_settles y).balances
    split
    · cases args.default with
      | some obj => exact (hgive (.default obj)).wp fun _ _ h => h.trans hrel
      | none => exact (hraise .keyError).wp fun _ _ h => h.trans hrel
    · split
      · exact (hraise (.levelDBError x.1.toString)).wp fun _ _ h => h.trans hrel
      · split
        · exact (hraise .memoryError).wp fun _ _ h => h.trans hrel
        · exact (hgive (.value x.2)).wp fun _ _ h => h.trans hrel
  · exact w.settled_refl.exports

theorem batchPut_balances (b : Nat) (wf : Bool) (key value : Arg) :
    Balances (E := E) (PyWriteBatch.put b wf key value) := by
  intro w
  simp only [PyWriteBatch.put, Prog.wp_bind, wp_parse, Prog.alone_event]
  split
  · simp only [Bool.not_true, Bool.false_eq_true, ↓reduceIte, Prog.wp_bind, wp_begin,
      Prog.alone_event, wp_end, wp_releaseBuffer]
    refine (updateBatch_settles _ _).wp fun _ w₁ h₁ => ?_
    refine returnNone_settles.wp fun _ w₂ h₂ => h₂.exports.trans (h₁.exports.trans ?_)
    exact release_acquire_pair _ _ _
  · exact w.settled_refl.exports

theorem batchDelete_balances (b : Nat) (wf : Bool) (key : Arg) :
    Balances (E := E) (PyWriteBatch.delete b wf key) := by
  intro w
  simp only [PyWriteBatch.delete, Prog.wp_bind, wp_parse, Prog.alone_event]
  split
  · simp only [Bool.not_true, Bool.false_eq_true, ↓reduceIte, Prog.wp_bind, wp_begin,
      Prog.alone_event, wp_end, wp_releaseBuffer]
    refine (updateBatch_settles _ _).wp fun _ w₁ h₁ => ?_
    refine returnNone_settles.wp fun _ w₂ h₂ => h₂.exports.trans (h₁.exports.trans ?_)
    exact release_acquire _ _
  · exact w.settled_refl.exports

/-! ## Functions that parse two buffers in turn -/

/-- What `CompactRange` leaves of the buffers of its arguments. -/
theorem compactRange_exports (D : Nat) (args : CompactArgs) :
    (PyLevelDB.compactRange (E := E) D args).Effect fun w w' =>
      w'.exports = stranded w.exports args.wellFormed args.start args.finish := by
  intro w
  refine wp_parseBoth (fun _ => rfl) fun hp => ?_
  have hstay : stranded w.exports args.wellFormed args.start args.finish = w.exports := by
    rw [stranded_eq_iff]
    exact strands_eq_false hp
  simp only [Prog.wp_bind, wp_begin, Prog.alone_event]
  refine (load_settles D).wp fun r w₁ h₁ => (deref_settles r.db).wp fun d w₂ h₂ => ?_
  refine (callDb_settles _ _ _).wp fun st w₃ h₃ => ?_
  simp only [wp_end, Prog.alone_event, wp_releaseOptional_iff]
  refine returnNone_settles.wp fun _ w₄ h₄ => h₄.exports.trans ?_
  have h₃₀ : w₃.exports = acquire (acquire w.exports args.start.toList) args.finish.toList := by
    rw [h₃.exports, h₂.exports, h₁.exports]
  rw [hstay]
  show args.finish.elim _ _ = w.exports
  rw [h₃₀]
  exact release_acquireOptional w.exports args.start args.finish

/-- What `RangeIter` leaves of the buffers of its arguments. -/
theorem rangeIter_exports (self snapshot : Option Nat) (args : RangeArgs) (alloc : Bool) :
    (PyLevelDB.rangeIter_ (E := E) self snapshot args alloc).Effect fun w w' =>
      w'.exports = stranded w.exports args.wellFormed args.keyFrom args.keyTo := by
  intro w
  refine Prog.wp_mono (rangeIter_ends self snapshot args alloc) fun res w' _ h => ?_
  have hstay : args.parses = true →
      w.exports = stranded w.exports args.wellFormed args.keyFrom args.keyTo := fun hp =>
    ((stranded_eq_iff _ _ _ _).mpr (strands_eq_false hp)).symm
  cases h with
  | unparsed _ => rfl
  | refused hp _ => exact hstay hp
  | empty hp _ => exact hstay hp.parses
  | noObject hp _ _ => exact hstay hp.parses
  | object hp _ _ _ => exact hstay hp.parses

theorem snapshotRangeIter_exports (s : Nat) (args : RangeArgs) (alloc : Bool) :
    (PyLevelDBSnapshot.rangeIter (E := E) s args alloc).Effect fun w w' =>
      w'.exports = stranded w.exports args.wellFormed args.keyFrom args.keyTo := by
  intro w
  simp only [PyLevelDBSnapshot.rangeIter, Prog.wp_bind, wp_load_snapshot, found_any]
  exact fun r _ => rangeIter_exports r.db r.snapshot args alloc w

/-! ## Results -/

/-- The call takes buffers of its arguments. -/
def ApiOp.takesBuffers : ApiOp E → Bool
  | put .. | get .. | delete .. | rangeIter .. | compactRange .. | snapshotGet ..
  | snapshotRangeIter .. | batchPut .. | batchDelete .. => true
  | _ => false

/-- A range is given whose first bound exports a buffer and whose second one does not. -/
def ApiOp.strands : ApiOp E → Bool
  | rangeIter _ args _ => PyLeveldb.strands args.wellFormed args.keyFrom args.keyTo
  | snapshotRangeIter _ args _ => PyLeveldb.strands args.wellFormed args.keyFrom args.keyTo
  | compactRange _ args => PyLeveldb.strands args.wellFormed args.start args.finish
  | _ => false

/-- **Buffers of arguments are released on every path**, but where the second bound of a range is
refused after the first one was taken. -/
theorem buffers_released {op : ApiOp E} {ans : Answer} (ho : op.takesBuffers = true)
    (hr : op.prog.run w = .ok (ans, w')) : w'.exports = w.exports ↔ op.strands = false := by
  have hbalanced : Balances op.prog → op.strands = false →
      (w'.exports = w.exports ↔ op.strands = false) :=
    fun h hs => iff_of_true (h.run hr) hs
  cases op with
  | put D args => exact hbalanced (put_balances D args).map rfl
  | get D args alloc =>
    exact hbalanced ((load_settles D).balances.bind fun r => get_balances r.db none args alloc).map rfl
  | delete D args => exact hbalanced (delete_balances D args).map rfl
  | batchPut b wf key value => exact hbalanced (batchPut_balances b wf key value).map rfl
  | batchDelete b wf key => exact hbalanced (batchDelete_balances b wf key).map rfl
  | snapshotGet s args alloc =>
    refine hbalanced (Prog.Effect.map ?_) rfl
    refine (row_settles _ _).balances.bind fun r => (deref_settles r.db).balances.bind fun D => ?_
    exact (load_settles D).balances.bind fun d => get_balances d.db r.snapshot args alloc
  | compactRange D args =>
    rw [show ApiOp.strands (E := E) (.compactRange D args) =
        strands args.wellFormed args.start args.finish from rfl,
      ← stranded_eq_iff w.exports, (compactRange_exports D args).map.run hr]
  | rangeIter D args alloc =>
    rw [show ApiOp.strands (E := E) (.rangeIter D args alloc) =
        strands args.wellFormed args.keyFrom args.keyTo from rfl,
      ← stranded_eq_iff w.exports, (rangeIter_exports (some D) none args alloc).map.run hr]
  | snapshotRangeIter s args alloc =>
    rw [show ApiOp.strands (E := E) (.snapshotRangeIter s args alloc) =
        strands args.wellFormed args.keyFrom args.keyTo from rfl,
      ← stranded_eq_iff w.exports, (snapshotRangeIter_exports s args alloc).map.run hr]
  | _ => cases ho

/-- `CompactRange` with an end that is refused. -/
theorem buffers_released_refused :
    let w : World soundStore := .single [] .bytewise
    ∃ w', (ApiOp.compactRange 0 { finish := some ⟨5, none⟩ }).prog.run w =
        .ok (.error .parse, w') ∧
      (w'.exports = w.exports ↔
        (ApiOp.compactRange 0 { finish := some ⟨5, none⟩ } :
          ApiOp soundStore).strands = false) :=
  ⟨_, rfl, buffers_released rfl rfl⟩

/-- **A buffer is left behind**: the first bound of the range is object `7`, which exports a buffer,
and the second one exports none. -/
theorem rangeIter_strands_buffer :
    let w : World soundStore := .single [] .bytewise
    ∃ w', (ApiOp.rangeIter 0 { keyFrom := some ⟨7, some [97]⟩, keyTo := some ⟨5, none⟩ } true).prog.run
        w = .ok (.error .parse, w') ∧ w.exports 7 = 0 ∧ w'.exports 7 = 1 :=
  ⟨_, rfl, rfl, by decide⟩

end PyLeveldb
