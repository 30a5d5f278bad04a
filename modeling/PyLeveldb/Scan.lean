import PyLeveldb.Exec
import PyLeveldb.Lib.Cursor

/-!
# Range scans, step by step

`Scan` is what `PyLevelDBIter_next` does to the leveldb cursor of an iterator object, without the
objects: a small machine whose state is the cursor, or none when the scan is over. `World.Scanning`
relates an iterator object to a state of the machine; `next_attempt` and `wp_rangeIter_` with
`ranged_scanning` are the simulation. Nothing is assumed of leveldb here, nor that the comparator is an order.
-/

namespace PyLeveldb

variable {E : Env} {w : World E} {F : Fault → Prop}

open PyLevelDBIter (Item NextAllocs)

/-! ## The machine -/

/-- A range scan: the comparison, the direction, whether it delivers values, and its bound. -/
structure Scan where
  cmp : Bytes → Bytes → Int
  reverse : Bool
  includeValue : Bool
  bound : Option Bytes

namespace Scan

/-- `key` is past the bound. -/
def past (s : Scan) (key : Bytes) : Bool :=
  s.bound.any fun b => if s.reverse then decide (0 < s.cmp b key) else decide (s.cmp b key < 0)

/-- The scan is over at the cursor `it`. -/
def stops (s : Scan) (it : E.Iter) : Bool := !E.valid it || s.past (E.key it)

/-- What is delivered at the cursor `it`. -/
def item (s : Scan) (it : E.Iter) : Item :=
  ⟨E.key it, if s.includeValue then some (E.value it) else none⟩

/-- The cursor after a delivery. -/
def move (s : Scan) (it : E.Iter) : E.Iter := if s.reverse then E.prev it else E.next it

/-- One call: the delivery, if any, and the next state. -/
def next (s : Scan) : Option E.Iter → Option Item × Option E.Iter
  | none => (none, none)
  | some it => if s.stops it then (none, none) else (some (s.item it), some (s.move it))

/-- The allocations that a delivery needs succeed. -/
def affords (s : Scan) (allocs : NextAllocs) : Bool :=
  allocs.key && (!s.includeValue || (allocs.value && allocs.tuple))

/-- One call, some of whose allocations may fail. -/
def attempt (s : Scan) (allocs : NextAllocs) :
    Option E.Iter → Except Exn (Option Item) × Option E.Iter
  | none => (.ok none, none)
  | some it =>
    if s.stops it then (.ok none, none)
    else if s.affords allocs then (.ok (some (s.item it)), some (s.move it))
    else (.error .memoryError, some it)

/-- The deliveries of `k` calls. -/
def results (s : Scan) : Option E.Iter → Nat → List (Option Item)
  | _, 0 => []
  | st, k + 1 => (s.next st).1 :: s.results (s.next st).2 k

/-- The cursor where a scan begins, from a new one. -/
def place (cmp : Bytes → Bytes → Int) (reverse : Bool) (keyFrom keyTo : Option Bytes)
    (it : E.Iter) : E.Iter :=
  if !reverse then
    match keyFrom with
    | none => E.seekToFirst it
    | some key => E.seek key it
  else
    match keyTo with
    | none => E.seekToLast it
    | some key =>
      let it := E.seek key it
      if !E.valid it then E.seekToLast it
      else if cmp key (E.key it) ≠ 0 then E.prev it else it

/-- The scan that `RangeIter` sets up. -/
def ofArgs (cmp : Bytes → Bytes → Int) (args : RangeArgs) : Scan :=
  ⟨cmp, args.reverse, args.includeValue, PyLevelDB.scanBound args.reverse
    (args.keyFrom.map Arg.bytes) (args.keyTo.map Arg.bytes)⟩

end Scan

/-- `k` calls of `next`. -/
def PyLevelDBIter.nexts (iter : Nat) : Nat → C E (List (Except Exn (Option Item)))
  | 0 => return []
  | k + 1 => do
    let r ← next iter {}
    let rs ← nexts iter k
    return r :: rs

/-! ## The objects behind it -/

/-- The fields `r` of a LevelDB object that is open on instance `d`, with a comparator of `cmp`. -/
def World.Opened (w : World E) (r : PyLevelDB) (d : Nat) (cmp : Bytes → Bytes → Int) : Prop :=
  r.db = some d ∧ (∃ inst, w.dbs.get d = some inst) ∧
    ∃ o opts, r.options = some o ∧ w.options.get o = some opts ∧ w.Computes opts.comparator cmp

/-- The iterator object `i` is in state `st` of the scan `s`. Someone else holds a reference to its
LevelDB object. -/
def World.Scanning (w : World E) (i : Nat) (s : Scan) : Option E.Iter → Prop
  | none => ∃ rev, w.iters.get i = some ⟨none, none, none, none, rev, false⟩
  | some it => ∃ D n bound d r,
      w.iters.get i = some ⟨some D, some D, some n, bound, s.reverse, s.includeValue⟩ ∧
      bound.map w.strings.get = s.bound.map some ∧ w.ldbIterators.get n = some ⟨d, it⟩ ∧
      w.levelDBs.get D = some r ∧ w.Opened r d s.cmp ∧ .iter i ∈ r.refs ∧
      r.refs.erase (.iter i) ≠ []

/-- The events at which Python code runs. -/
def runsPython : Ev → Bool
  | .call _ | .callInside _ => true
  | _ => false

section Quiet

variable {κ : Type} {J : Prog.Rules (World E) Fault Ev κ} {c : κ}

/-- `Py_DECREF` of a reference that is not the last one. -/
theorem wp_decref (hJ : J.Silent (runsPython · = false)) {D : Nat} {h : Holder} {r : PyLevelDB}
    {Q : Unit → World E → κ → Prop} (hr : w.levelDBs.get D = some r) (hm : h ∈ r.refs)
    (hne : r.refs.erase h ≠ [])
    (hQ : Q () { w with levelDBs := w.levelDBs.set D { r with refs := r.refs.erase h } } c) :
    (PyLevelDB.decref D h).wp J Q w c := by
  have he : (r.refs.erase h).isEmpty = false := by simpa using hne
  simpa [PyLevelDB.decref, Prog.wp_bind, hJ .py rfl, hr, hm, he] using hQ

/-- What `clean` leaves of a live iterator object whose owner stays. -/
def World.cleaned (w : World E) (i D n : Nat) (bound : Option Nat) (rev : Bool) (r : PyLevelDB) :
    World E :=
  { w with
    levelDBs := w.levelDBs.set D
      { r with nIterators := r.nIterators - 1, refs := r.refs.erase (.iter i) }
    ldbIterators := w.ldbIterators.free n
    strings := w.strings.freeOpt bound
    iters := w.iters.set i ⟨none, none, none, none, rev, false⟩ }

theorem wp_clean_live (hJ : J.Silent (runsPython · = false)) {i D n d : Nat} {bound : Option Nat}
    {rev inc : Bool} {r : PyLevelDB} {it : E.Iter} {inst : LdbInstance E}
    {Q : Unit → World E → κ → Prop}
    (hi : w.iters.get i = some ⟨some D, some D, some n, bound, rev, inc⟩)
    (hn : w.ldbIterators.get n = some ⟨d, it⟩) (hd : w.dbs.get d = some inst)
    (hb : ∀ p, bound = some p → ∃ b, w.strings.get p = some b)
    (hr : w.levelDBs.get D = some r) (hm : .iter i ∈ r.refs)
    (hne : r.refs.erase (.iter i) ≠ []) (hQ : Q () (w.cleaned i D n bound rev r) c) :
    (PyLevelDBIter.clean i).wp J Q w c := by
  simp only [PyLevelDBIter.clean, wp_inFrame, hJ (.enter _) rfl, Prog.wp_bind, wp_load_iter, hi,
    Prog.found_some, PyLevelDB.addIterators, wp_update_levelDB, hr, wp_begin,
    hJ .beginAllowThreads rfl, wp_deleteIterator_some, hn, hd, hJ (.ldb _ _) rfl, wp_end,
    hJ .endAllowThreads rfl, PyLevelDB.xdecref, hJ .leave rfl]
  refine wp_deleteString_of hb ?_
  have hr' : (w.levelDBs.set D { r with nIterators := r.nIterators + -1 }).get D =
      some { r with nIterators := r.nIterators + -1 } := by simp
  simp only [hi, Prog.found_some]
  refine wp_decref hJ hr' hm hne ?_
  simp only [wp_update_iter, hi, Prog.found_some, Table.set_set]
  exact hQ

theorem wp_clean_dead (hJ : J.Silent (runsPython · = false)) {i : Nat} {rev inc : Bool}
    {Q : Unit → World E → κ → Prop}
    (hi : w.iters.get i = some ⟨none, none, none, none, rev, inc⟩)
    (hQ : Q () { w with iters := w.iters.set i ⟨none, none, none, none, rev, false⟩ } c) :
    (PyLevelDBIter.clean i).wp J Q w c := by
  simpa [PyLevelDBIter.clean, Prog.wp_bind, hJ (.enter _) rfl, hJ .beginAllowThreads rfl,
    hJ .endAllowThreads rfl, hJ .leave rfl, hi, PyLevelDB.addIterators, PyLevelDB.xdecref] using hQ

end Quiet

/-! ## One call -/

section Step

variable {i D n d : Nat} {bound : Option Nat} {s : Scan} {r : PyLevelDB} {it : E.Iter}
  {inst : LdbInstance E}

section Quiet

variable {κ : Type} {J : Prog.Rules (World E) Fault Ev κ} {c : κ}

theorem wp_atEnd {rev inc : Bool} {Q : Bool → World E → κ → Prop}
    (hn : w.ldbIterators.get n = some ⟨d, it⟩) :
    (PyLevelDBIter.atEnd ⟨some D, some D, some n, bound, rev, inc⟩).wp J Q w c ↔
      Q (!E.valid it) w c := by
  simp [PyLevelDBIter.atEnd, Prog.wp_bind, hn]

theorem wp_makeItem (hJ : J.Silent (runsPython · = false)) {allocs : NextAllocs}
    {Q : Except Exn Item → World E → κ → Prop}
    (hi : w.iters.get i = some ⟨some D, some D, some n, bound, s.reverse, s.includeValue⟩)
    (hn : w.ldbIterators.get n = some ⟨d, it⟩)
    (hQ : ∀ o, Q (if s.affords allocs then .ok (s.item it) else .error .memoryError)
      { w with owned := o } c) :
    (PyLevelDBIter.makeItem i allocs).wp J Q w c := by
  have hpy := hJ .py rfl
  simp only [PyLevelDBIter.makeItem, Prog.wp_bind, wp_load_iter, hi, Prog.found_some, wp_deref,
    wp_iterKey, hn]
  cases hk : allocs.key with
  | false => simpa [Scan.affords, hk, hpy] using hQ w.owned
  | true =>
    cases hv : s.includeValue with
    | false => simpa [Scan.affords, hk, hv, Scan.item, Prog.wp_bind, hpy] using hQ _
    | true =>
      cases ha : allocs.value with
      | false => simpa [Scan.affords, hk, hv, ha, hn, Prog.wp_bind, hpy] using hQ _
      | true =>
        cases ht : allocs.tuple with
        | false => simpa [Scan.affords, hk, hv, ha, ht, hn, Prog.wp_bind, hpy] using hQ _
        | true =>
          simpa [Scan.affords, hk, hv, ha, ht, hn, Scan.item, Prog.wp_bind, hpy] using hQ _

end Quiet

/-- The bound test; a Python comparator counts its calls and keeps a reference. -/
theorem wp_pastBound {Q : Bool → World E → Unit → Prop}
    (hi : w.iters.get i = some ⟨some D, some D, some n, bound, s.reverse, s.includeValue⟩)
    (hb : bound.map w.strings.get = s.bound.map some) (hn : w.ldbIterators.get n = some ⟨d, it⟩)
    (hr : w.levelDBs.get D = some r) (ho : w.Opened r d s.cmp)
    (hQ : ∀ o c, Q (s.past (E.key it)) { w with owned := o, calls := c } ()) :
    (PyLevelDBIter.pastBound i
      ⟨some D, some D, some n, bound, s.reverse, s.includeValue⟩).wp (.alone F) Q w () := by
  obtain ⟨hdb, hd, o, opts, hopt, hopts, hcmp⟩ := ho
  cases bound with
  | none =>
    have hs : s.bound = none := by simpa using hb.symm
    simpa [PyLevelDBIter.pastBound, Scan.past, hs] using hQ w.owned w.calls
  | some p =>
    obtain ⟨b, hsb, hp⟩ : ∃ b, s.bound = some b ∧ w.strings.get p = some b := by
      cases hsb : s.bound with
      | none => simp [hsb] at hb
      | some b => exact ⟨b, rfl, by simpa [hsb] using hb⟩
    have hpast : ((!s.reverse && !decide (0 ≤ opts.comparator.result (s.cmp b (E.key it)))) ||
        (s.reverse && !decide (0 ≥ opts.comparator.result (s.cmp b (E.key it))))) =
          s.past (E.key it) := by
      have hneg : 0 ≤ opts.comparator.result (s.cmp b (E.key it)) ↔ ¬ s.cmp b (E.key it) < 0 := by
        rw [← opts.comparator.result_neg, Int.not_lt]
      have hpos : 0 ≥ opts.comparator.result (s.cmp b (E.key it)) ↔ ¬ 0 < s.cmp b (E.key it) := by
        rw [← opts.comparator.result_pos, Int.not_lt]
      simp only [hneg, hpos, decide_not, Bool.not_not]
      cases hrev : s.reverse <;> simp [Scan.past, hsb, hrev]
    simp only [PyLevelDBIter.pastBound, Prog.wp_bind, wp_loadString, hp, Prog.found_some, wp_deref,
      wp_iterKey, hn, wp_load_levelDB, hr, hopt, wp_row, hopts]
    refine wp_compare hcmp fun o c => ?_
    simp only [wp_load_iter, hi, Prog.found_some, Prog.wp_pure, hpast]
    exact hQ o c

theorem wp_advance {Q : Unit → World E → Unit → Prop}
    (hi : w.iters.get i = some ⟨some D, some D, some n, bound, s.reverse, s.includeValue⟩)
    (hn : w.ldbIterators.get n = some ⟨d, it⟩) (hd : w.dbs.get d = some inst)
    (hQ : Q () { w with ldbIterators := w.ldbIterators.set n ⟨d, s.move it⟩ } ()) :
    (PyLevelDBIter.advance i).wp (.alone F) Q w () := by
  simp only [PyLevelDBIter.advance, Prog.wp_bind, wp_load_iter, hi, Prog.found_some, wp_deref]
  cases hrev : s.reverse with
  | false =>
    refine wp_iterMove hn hd ?_
    simpa [Scan.move, hrev, Env.next] using hQ
  | true =>
    refine wp_iterMove hn hd ?_
    simpa [Scan.move, hrev, Env.prev] using hQ

/-- What a call of `next` leaves of a live iterator object, from the world that its bound test leaves. -/
def World.stepped (w : World E) (i D n d : Nat) (bound : Option Nat) (s : Scan) (r : PyLevelDB)
    (it : E.Iter) (allocs : NextAllocs) : World E :=
  if s.stops it then w.cleaned i D n bound s.reverse r
  else if s.affords allocs then { w with ldbIterators := w.ldbIterators.set n ⟨d, s.move it⟩ }
  else w

theorem wp_next_live {allocs : NextAllocs} {Q : Except Exn (Option Item) → World E → Unit → Prop}
    (hi : w.iters.get i = some ⟨some D, some D, some n, bound, s.reverse, s.includeValue⟩)
    (hb : bound.map w.strings.get = s.bound.map some) (hn : w.ldbIterators.get n = some ⟨d, it⟩)
    (hr : w.levelDBs.get D = some r) (ho : w.Opened r d s.cmp) (hm : .iter i ∈ r.refs)
    (hne : r.refs.erase (.iter i) ≠ [])
    (hQ : ∀ o c, Q (s.attempt allocs (some it)).1
      (World.stepped { w with owned := o, calls := c } i D n d bound s r it allocs) ()) :
    (PyLevelDBIter.next i allocs).wp (.alone F) Q w () := by
  obtain ⟨inst, hd⟩ := ho.2.1
  have hbound : ∀ p, bound = some p → ∃ b, w.strings.get p = some b := by
    rintro p rfl
    cases hsb : s.bound with
    | none => simp [hsb] at hb
    | some b => exact ⟨b, by simpa [hsb] using hb⟩
  simp only [PyLevelDBIter.next, wp_inFrame, Prog.alone_event, Prog.wp_bind, wp_load_iter, hi,
    Prog.found_some, wp_atEnd hn]
  by_cases hv : E.valid it = true
  · simp only [hv, Bool.not_true, Bool.false_eq_true, ↓reduceIte, Prog.wp_bind]
    refine wp_pastBound hi hb hn hr ho fun o c => ?_
    by_cases hp : s.past (E.key it) = true
    · have hstop : s.stops it = true := by simp [Scan.stops, hp]
      simp only [World.stepped, Scan.attempt, hstop, ↓reduceIte] at hQ
      simp only [hp, ↓reduceIte, Prog.wp_bind]
      exact wp_clean_live (Prog.alone_silent _ _) hi hn hd hbound hr hm hne (hQ o c)
    · have hstop : ¬ s.stops it = true := by simp [Scan.stops, hv, hp]
      simp only [World.stepped, Scan.attempt, hstop] at hQ
      simp only [hp, Bool.false_eq_true, ↓reduceIte, Prog.wp_bind]
      refine wp_makeItem (Prog.alone_silent _ _) hi hn fun o' => ?_
      cases ha : s.affords allocs with
      | false =>
        simp only [ha, Bool.false_eq_true, ↓reduceIte] at hQ
        exact hQ o' c
      | true =>
        simp only [ha, Bool.false_eq_true, ↓reduceIte] at hQ
        simp only [↓reduceIte, Prog.wp_bind]
        exact wp_advance hi hn hd (hQ o' c)
  · have hstop : s.stops it = true := by simp [Scan.stops, hv]
    simp only [World.stepped, Scan.attempt, hstop, ↓reduceIte] at hQ
    simp only [hv, Bool.not_false, ↓reduceIte, Prog.wp_bind]
    exact wp_clean_live (Prog.alone_silent _ _) hi hn hd hbound hr hm hne (hQ w.owned w.calls)

theorem wp_next_dead {rev : Bool} {allocs : NextAllocs}
    {Q : Except Exn (Option Item) → World E → Unit → Prop}
    (hi : w.iters.get i = some ⟨none, none, none, none, rev, false⟩)
    (hQ : Q (.ok none) { w with iters := w.iters.set i ⟨none, none, none, none, rev, false⟩ } ()) :
    (PyLevelDBIter.next i allocs).wp (.alone F) Q w () := by
  simp only [PyLevelDBIter.next, wp_inFrame, Prog.alone_event, Prog.wp_bind, wp_load_iter, hi,
    Prog.found_some, PyLevelDBIter.atEnd, Prog.wp_pure, ↓reduceIte]
  exact wp_clean_dead (Prog.alone_silent _ _) hi hQ

/-- **One call of `next` is one step of the machine**, whatever allocations fail. -/
theorem next_attempt {st : Option E.Iter} (h : w.Scanning i s st) (allocs : NextAllocs) :
    (PyLevelDBIter.next i allocs).wp (.alone F)
      (fun r w' _ => r = (s.attempt allocs st).1 ∧ w'.Scanning i s (s.attempt allocs st).2) w () := by
  cases st with
  | none =>
    obtain ⟨rev, hi⟩ := h
    exact wp_next_dead hi ⟨rfl, rev, by simp⟩
  | some it =>
    obtain ⟨D, n, bound, d, r, hi, hb, hn, hr, ho, hm, hne⟩ := h
    refine wp_next_live hi hb hn hr ho hm hne fun o c => ⟨rfl, ?_⟩
    by_cases hstop : s.stops it = true
    · simp only [World.stepped, Scan.attempt, hstop, ↓reduceIte]
      exact ⟨s.reverse, by simp [World.cleaned]⟩
    · simp only [World.stepped, Scan.attempt, hstop]
      cases s.affords allocs with
      | false => exact ⟨D, n, bound, d, r, hi, hb, hn, hr, ho, hm, hne⟩
      | true => exact ⟨D, n, bound, d, r, hi, hb, by simp, hr, ho, hm, hne⟩

theorem attempt_all (s : Scan) (st : Option E.Iter) :
    s.attempt {} st = (.ok (s.next st).1, (s.next st).2) := by
  have ha : s.affords {} = true := by simp [Scan.affords]
  cases st with
  | none => rfl
  | some it =>
    by_cases h : s.stops it = true
    · simp only [Scan.attempt, Scan.next, h, ↓reduceIte]
    · simp only [Scan.attempt, Scan.next, h, ha, Bool.false_eq_true, ↓reduceIte]

/-- One call of `next` with memory. -/
theorem next_scanning {st : Option E.Iter} (h : w.Scanning i s st) :
    (PyLevelDBIter.next i {}).wp (.alone F)
      (fun r w' _ => r = .ok (s.next st).1 ∧ w'.Scanning i s (s.next st).2) w () := by
  have := next_attempt (F := F) h {}
  rwa [attempt_all] at this

/-- **A run of calls is a run of the machine.** -/
theorem nexts_scanning {st : Option E.Iter} (h : w.Scanning i s st) (k : Nat) :
    (PyLevelDBIter.nexts i k).wp (.alone F)
      (fun rs _ _ => rs = (s.results st k).map .ok) w () := by
  induction k generalizing w st with
  | zero => simp [PyLevelDBIter.nexts, Scan.results]
  | succ k ih =>
    simp only [PyLevelDBIter.nexts, Prog.wp_bind]
    refine Prog.wp_mono (next_scanning h) ?_
    rintro r w' _ ⟨rfl, h'⟩
    refine Prog.wp_mono (ih h') ?_
    rintro rs w'' _ rfl
    rfl

end Step

/-! ## The start of a scan -/

section Start

variable {D n d : Nat} {r : PyLevelDB} {it : E.Iter} {cmp : Bytes → Bytes → Int}

/-- The first position, by up to three moves of the leveldb iterator. -/
theorem wp_position {reverse : Bool} {keyFrom keyTo : Option Bytes}
    {Q : Unit → World E → Unit → Prop} (hn : w.ldbIterators.get n = some ⟨d, it⟩)
    (hr : w.levelDBs.get D = some r) (ho : w.Opened r d cmp)
    (hQ : ∀ o c, Q ()
      { w with
        ldbIterators := w.ldbIterators.set n ⟨d, Scan.place cmp reverse keyFrom keyTo it⟩
        owned := o
        calls := c } ()) :
    (PyLevelDB.position D n reverse keyFrom keyTo).wp (.alone F) Q w () := by
  obtain ⟨hdb, ⟨inst, hd⟩, o, opts, hopt, hopts, hcmp⟩ := ho
  cases reverse with
  | false =>
    cases keyFrom <;>
      simpa [PyLevelDB.position, hn, hd, Scan.place] using hQ w.owned w.calls
  | true =>
    cases keyTo with
    | none => simpa [PyLevelDB.position, hn, hd, Scan.place] using hQ w.owned w.calls
    | some key =>
      simp only [PyLevelDB.position, Bool.not_true, Bool.false_eq_true, ↓reduceIte, Prog.wp_bind,
        wp_iterPosition, wp_iterSet, Prog.alone_event, hn, Prog.found_some, hd, wp_iterValid,
        Table.get_set]
      by_cases hv : E.valid (E.seek key it) = true
      · simp only [hv, Bool.not_true, Bool.false_eq_true, ↓reduceIte, Prog.wp_bind, wp_iterKey,
          Table.get_set, Prog.found_some, wp_load_levelDB, hr, wp_deref, hopt, wp_row, hopts]
        refine wp_compare hcmp fun o c => ?_
        simp only [ne_eq, CmpPtr.result_eq_zero]
        by_cases h0 : cmp key (E.key (E.seek key it)) = 0
        · simpa [Scan.place, hv, h0] using hQ o c
        · simpa [Scan.place, hv, h0, hd] using hQ o c
      · simpa [hv, hn, hd, Scan.place] using hQ w.owned w.calls

theorem wp_dbNewIterator {snapshot : Option Nat} {snap : Option E.Snap} {verify fill : Bool}
    {inst : LdbInstance E} {db : E.Db} {Q : Option Nat → World E → Unit → Prop}
    (hd : w.dbs.get d = some inst) (hs : w.SnapshotAt d snapshot snap)
    (hit : E.newIterator ⟨verify, fill, snap⟩ inst.db = (some it, db))
    (hQ : Q (some w.ldbIterators.next)
      { w with
        dbs := w.dbs.set d { inst with db := db }
        ldbIterators := w.ldbIterators.push ⟨d, it⟩ } ()) :
    (dbNewIterator d verify fill snapshot).wp (.alone F) Q w () := by
  simp only [dbNewIterator, Prog.wp_bind]
  refine wp_resolve hs ?_
  simpa [Prog.wp_bind, hd, hit] using hQ

theorem wp_newBound {b : Option Bytes} {Q : Option Nat → World E → Unit → Prop}
    (hQ : Q (b.map fun _ => w.strings.next)
      { w with strings := b.elim w.strings w.strings.push } ()) :
    (PyLevelDB.newBound b).wp (.alone F) Q w () := by
  cases b with
  | none => exact hQ
  | some b => exact hQ

/-- A new iterator object that is at its end. -/
theorem wp_new_dead {Q : Except Exn Nat → World E → Unit → Prop}
    (hQ : Q (.ok w.iters.next)
      { w with iters := w.iters.push ⟨none, none, none, none, false, false⟩ } ()) :
    (PyLevelDBIter.new none none none none false false true).wp (.alone F) Q w () := by
  simpa [PyLevelDBIter.new, Prog.wp_bind, PyLevelDB.xincref, PyLevelDB.addIterators] using hQ

/-- A new iterator object: it holds a reference to its LevelDB object, and is counted there. -/
theorem wp_new_live {bound : Option Nat} {includeValue reverse : Bool}
    {Q : Except Exn Nat → World E → Unit → Prop} (hr : w.levelDBs.get D = some r)
    (hQ : Q (.ok w.iters.next)
      { w with
        levelDBs := w.levelDBs.set D
          { r with nIterators := r.nIterators + 1, refs := .iter w.iters.next :: r.refs }
        iters := w.iters.push ⟨some D, some D, some n, bound, reverse, includeValue⟩ } ()) :
    (PyLevelDBIter.new D D (some n) bound includeValue reverse true).wp (.alone F) Q w () := by
  simpa [PyLevelDBIter.new, Prog.wp_bind, PyLevelDB.xincref, PyLevelDB.incref, hr,
    PyLevelDB.addIterators] using hQ

/-- What `RangeIter` leaves, from `w`: the instance `inst` has given an iterator that stands at `it`
and leaves the database `db`. If `it` is valid the iterator object keeps it, else it is deleted. -/
def World.ranged (w : World E) (D d : Nat) (r : PyLevelDB) (inst : LdbInstance E) (s : Scan)
    (it : E.Iter) (db : E.Db) : World E :=
  let w := { w with dbs := w.dbs.set d { inst with db := db } }
  if E.valid it then
    { w with
      ldbIterators := w.ldbIterators.push ⟨d, it⟩
      strings := s.bound.elim w.strings w.strings.push
      levelDBs := w.levelDBs.set D
        { r with nIterators := r.nIterators + 1, refs := .iter w.iters.next :: r.refs }
      iters := w.iters.push ⟨some D, some D, some w.ldbIterators.next,
        s.bound.map fun _ => w.strings.next, s.reverse, s.includeValue⟩ }
  else
    { w with
      ldbIterators := (w.ldbIterators.push ⟨d, it⟩).free w.ldbIterators.next
      iters := w.iters.push ⟨none, none, none, none, false, false⟩ }

/-- The part of `RangeIter` after the leveldb iterator `n` is placed. -/
def PyLevelDB.finishScan (D n : Nat) (args : RangeArgs) (alloc : Bool) : C E (Except Exn Nat) := do
  if !(← iterValid n) then
    beginAllowThreads
    deleteIterator (some n)
    endAllowThreads
    PyLevelDBIter.new none none none none false false alloc
  else
    let bound ← newBound (scanBound args.reverse (args.keyFrom.map Arg.bytes) (args.keyTo.map Arg.bytes))
    PyLevelDBIter.new (some D) (some D) (some n) bound args.includeValue args.reverse alloc

/-- `RangeIter` on an open object, up to the placing of the iterator that leveldb gives. -/
theorem wp_rangeIter_start {snapshot : Option Nat} {snap : Option E.Snap} {args : RangeArgs}
    {inst : LdbInstance E} {db : E.Db} {alloc : Bool} {Q : Except Exn Nat → World E → Unit → Prop}
    (hr : w.levelDBs.get D = some r) (ho : w.Opened r d cmp) (hd : w.dbs.get d = some inst)
    (hs : w.SnapshotAt d snapshot snap) (hargs : args.parses = true)
    (hit : E.newIterator ⟨args.verifyChecksums, args.fillCache, snap⟩ inst.db = (some it, db))
    (hQ : ∀ e o c, (PyLevelDB.finishScan D w.ldbIterators.next args alloc).wp (.alone F) Q
      { w with
        dbs := w.dbs.set d { inst with db := db }
        ldbIterators := w.ldbIterators.push ⟨d, Scan.place cmp args.reverse args.lo args.hi it⟩
        exports := e
        owned := o
        calls := c } ()) :
    (PyLevelDB.rangeIter_ (some D) snapshot args alloc).wp (.alone F) Q w () := by
  obtain ⟨hwf, hfrom, hto⟩ : args.wellFormed = true ∧
      args.keyFrom.all (·.data.isSome) = true ∧ args.keyTo.all (·.data.isSome) = true := by
    simpa [RangeArgs.parses, and_assoc] using hargs
  have hwf' : PyLeveldb.parses args.wellFormed [] = true := by simpa [PyLeveldb.parses] using hwf
  simp only [PyLevelDB.rangeIter_, Prog.wp_bind, wp_parse, Prog.alone_event, hwf', ↓reduceIte,
    Bool.not_true, Bool.false_eq_true]
  refine wp_parseOptional hfrom fun e₁ => ?_
  simp only [Bool.not_true, Bool.false_eq_true, ↓reduceIte, Prog.wp_bind]
  refine wp_parseOptional hto fun e₂ => ?_
  simp only [Bool.not_true, Bool.false_eq_true, ↓reduceIte, Prog.wp_bind]
  refine wp_releaseOptional fun e₃ => ?_
  refine wp_releaseOptional fun e => ?_
  simp only [wp_begin, Prog.alone_event, wp_deref, Prog.found_some, wp_load_levelDB, hr, ho.1]
  refine wp_dbNewIterator hd hs hit ?_
  have ho' : ∀ e, World.Opened { w with
      exports := e
      dbs := w.dbs.set d { inst with db := db }
      ldbIterators := w.ldbIterators.push ⟨d, it⟩ } r d cmp :=
    fun _ => ⟨ho.1, ⟨{ inst with db := db }, by simp⟩, ho.2.2⟩
  have hnew : (w.ldbIterators.push ⟨d, it⟩).get w.ldbIterators.next = some ⟨d, it⟩ := by simp
  simp only [PyLevelDB.positionNew, Prog.wp_bind]
  refine wp_position hnew hr (ho' e) fun o c => ?_
  specialize hQ e o c
  simp only [PyLevelDB.finishScan, Prog.wp_bind] at hQ
  simp only [wp_end, Prog.alone_event, Table.push_set]
  exact hQ

/-- `RangeIter` on an open object, with an iterator from leveldb and memory for the object. -/
theorem wp_rangeIter_ {snapshot : Option Nat} {snap : Option E.Snap} {args : RangeArgs}
    {inst : LdbInstance E} {db : E.Db} {Q : Except Exn Nat → World E → Unit → Prop}
    (hr : w.levelDBs.get D = some r) (ho : w.Opened r d cmp) (hd : w.dbs.get d = some inst)
    (hs : w.SnapshotAt d snapshot snap) (hargs : args.parses = true)
    (hit : E.newIterator ⟨args.verifyChecksums, args.fillCache, snap⟩ inst.db = (some it, db))
    (hQ : ∀ e o c, Q (.ok w.iters.next) { w.ranged D d r inst (.ofArgs cmp args)
      (Scan.place cmp args.reverse args.lo args.hi it) db with
        exports := e, owned := o, calls := c } ()) :
    (PyLevelDB.rangeIter_ (some D) snapshot args true).wp (.alone F) Q w () := by
  refine wp_rangeIter_start hr ho hd hs hargs hit fun e o c => ?_
  specialize hQ e o c
  simp only [PyLevelDB.finishScan, Prog.wp_bind, wp_iterValid, Table.get_push, ↓reduceIte,
    Prog.found_some]
  by_cases hv : E.valid (Scan.place cmp args.reverse args.lo args.hi it) = true
  · simp only [hv, Bool.not_true, Bool.false_eq_true, ↓reduceIte, Prog.wp_bind]
    simp only [World.ranged, hv, ↓reduceIte] at hQ
    refine wp_newBound ?_
    refine wp_new_live hr ?_
    exact hQ
  · simp only [hv, Bool.not_false, ↓reduceIte, Prog.wp_bind, wp_begin, Prog.alone_event,
      wp_deleteIterator_some, Table.get_push, Table.get_set, Prog.found_some, wp_end]
    simp only [World.ranged, hv, Bool.false_eq_true, ↓reduceIte] at hQ
    refine wp_new_dead ?_
    exact hQ

/-- `RangeIter` without memory for the object: the leveldb iterator is deleted. A bound stays. -/
theorem wp_rangeIter_noMemory {snapshot : Option Nat} {snap : Option E.Snap} {args : RangeArgs}
    {inst : LdbInstance E} {db : E.Db} {Q : Except Exn Nat → World E → Unit → Prop}
    (hr : w.levelDBs.get D = some r) (ho : w.Opened r d cmp) (hd : w.dbs.get d = some inst)
    (hs : w.SnapshotAt d snapshot snap) (hargs : args.parses = true)
    (hit : E.newIterator ⟨args.verifyChecksums, args.fillCache, snap⟩ inst.db = (some it, db))
    (hQ : ∀ x T e o c, (∀ p b, w.strings.get p = some b → T.get p = some b) →
      Q (.error .memoryError)
        { w with
          dbs := w.dbs.set d { inst with db := db }
          ldbIterators := (w.ldbIterators.push x).free w.ldbIterators.next
          strings := T
          exports := e
          owned := o
          calls := c } ()) :
    (PyLevelDB.rangeIter_ (some D) snapshot args false).wp (.alone F) Q w () := by
  refine wp_rangeIter_start hr ho hd hs hargs hit fun e o c => ?_
  have hnew : ∀ b p s, w.strings.get p = some s →
      (Option.elim b w.strings w.strings.push).get p = some s := by
    intro b p s hp
    cases b with
    | none => exact hp
    | some b => simp [Table.ne_next hp, hp]
  simp only [PyLevelDB.finishScan, Prog.wp_bind, wp_iterValid, Table.get_push, ↓reduceIte,
    Prog.found_some]
  split
  · simp only [Prog.wp_bind, wp_begin, Prog.alone_event, wp_deleteIterator_some, Table.get_push,
      ↓reduceIte, Table.get_set, Prog.found_some, wp_end, PyLevelDBIter.new, wp_py, Bool.not_false,
      wp_deleteIterator_none, Prog.wp_pure]
    exact hQ _ w.strings e o c fun _ _ h => h
  · rw [Prog.wp_bind]
    refine wp_newBound ?_
    simp only [PyLevelDBIter.new, Prog.wp_bind, wp_py, Prog.alone_event, Bool.not_false, ↓reduceIte,
      wp_begin, wp_deleteIterator_some, Table.get_push, Table.get_set, Prog.found_some, wp_end,
      Prog.wp_pure]
    exact hQ _ _ e o c (hnew _)

/-- **The iterator object that `RangeIter` returns is at the first state of its scan.** -/
theorem ranged_scanning {inst : LdbInstance E} {db : E.Db} {s : Scan}
    (ho : w.Opened r d s.cmp) (hne : r.refs ≠ []) :
    (w.ranged D d r inst s it db).Scanning w.iters.next s (if E.valid it then some it else none) := by
  by_cases hv : E.valid it = true
  · simp only [World.ranged, hv, ↓reduceIte]
    refine ⟨D, w.ldbIterators.next, s.bound.map fun _ => w.strings.next, d,
      { r with nIterators := r.nIterators + 1, refs := .iter w.iters.next :: r.refs }, by simp, ?_,
      by simp, by simp, ⟨ho.1, ⟨{ inst with db := db }, by simp⟩, ho.2.2⟩, List.mem_cons_self, ?_⟩
    · cases s.bound <;> simp
    · simpa using hne
  · simp only [World.ranged, hv, Bool.false_eq_true, ↓reduceIte]
    exact ⟨false, by simp⟩

end Start

end PyLeveldb
