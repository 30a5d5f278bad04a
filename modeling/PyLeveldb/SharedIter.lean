import PyLeveldb.RangeBounds
import PyLeveldb.Lib.Threads

/-!
# An iterator that threads share

Any number of threads call `next` on one iterator object. Control passes only where Python code runs:
in the comparator of the bound test, and in the comparator between the halves of `Next` and `Prev`.

* `Scan.Block`: what the blocks of a call of `next` do to the cursor. `next_obeys` is the judgement.
* `Steady`: the steps where the bound test still holds when its answer arrives, and no call goes on
  while another one is in the middle of a move.
* `InOrder`: the deliveries so far, in the order in which they are read, are the first ones of the
  scan of a thread that runs alone.
-/

namespace PyLeveldb

open Threads (Host Pool Run Discipline anyStep)
open PyLevelDBIter (Item NextAllocs)

variable {E : Env} {w w' : World E} {i n : Nat} {rev : Bool} {s : Scan}

/-- Threads that call `next` on iterator `i`. -/
def nextHost (E : Env) (i : Nat) :
    Host (World E) Fault Ev NextAllocs (Except Exn (Option Item)) where
  prog := PyLevelDBIter.next i
  act x := if runsPython x then .yield else .keep
  pauses := runsPython

abbrev NextPool (E : Env) := Pool (World E) Fault Ev NextAllocs (Except Exn (Option Item))

/-! ## The blocks of a call -/

namespace Scan

/-- Where a call of `next` is. -/
inductive Stage where
  | begins
  /-- In the comparator of the bound test. Will it answer that the iterator is past its bound? -/
  | testing (past : Bool)
  /-- Between the halves of a move, with the item that was read. -/
  | moving (item : Item)
  | over (r : Except Exn (Option Item))

/-- The call may read the entry next. -/
def Stage.reads : Stage → Bool
  | begins => true
  | testing past => !past
  | _ => false

/-- The bound test takes this result for: past the bound. -/
def answersPast (s : Scan) : PyResult → Bool
  | .int z => if s.reverse then decide (0 < z) else decide (z < 0)
  | _ => false

/-- The halves of a move. -/
def moveBegin (s : Scan) (it : E.Iter) : E.Iter :=
  if s.reverse then E.prevBegin it else E.nextBegin it

def moveEnd (s : Scan) (it : E.Iter) : E.Iter := if s.reverse then E.prevEnd it else E.nextEnd it

theorem move_eq (s : Scan) (it : E.Iter) : s.move it = s.moveEnd (s.moveBegin it) := by
  unfold move moveEnd moveBegin
  split <;> rfl

/-- What a block of a call does to the cursor. -/
inductive Block (s : Scan) : Stage → Option E.Iter → Option Ev → Stage → Option E.Iter → Prop where
  | finish {st : Option E.Iter} : Block s .begins st none (.over (.ok none)) none
  | past {st : Option E.Iter} : Block s (.testing true) st none (.over (.ok none)) none
  | test {it : E.Iter} {r : PyResult} : E.valid it = true →
      Block s .begins (some it) (some (.call r)) (.testing (s.answersPast r)) (some it)
  | fail {c : Stage} {it : E.Iter} : c.reads = true → s.stops it = false →
      Block s c (some it) none (.over (.error .memoryError)) (some it)
  | read {c : Stage} {it : E.Iter} {d : Nat} : c.reads = true → s.stops it = false →
      Block s c (some it) (some (.callInside d)) (.moving (s.item it)) (some (s.moveBegin it))
  | whole {c : Stage} {it : E.Iter} : c.reads = true → s.stops it = false →
      Block s c (some it) none (.over (.ok (some (s.item it)))) (some (s.move it))
  | moved {item : Item} {it : E.Iter} :
      Block s (.moving item) (some it) none (.over (.ok (some item))) (some (s.moveEnd it))

/-- What a call in that phase may find. -/
def Stage.fits (s : Scan) (st : Option E.Iter) : Stage → Prop
  | testing past => past = false → ∃ it, st = some it ∧ s.stops it = false
  | moving _ => ∃ it, st = some it
  | _ => True

end Scan

open Scan (Stage)

/-- The cursor of iterator object `i` is `n`, unless it is deleted; `rev` is its direction. -/
def World.HasCursor (w : World E) (i n : Nat) (rev : Bool) : Prop :=
  ∀ o, w.iters.get i = some o → (o.iterator = none ∨ o.iterator = some n) ∧ o.isReverse = rev

/-- Iterator object `i`, with the cursor `n`, is in state `st` of its scan. -/
def World.ScanningOn (w : World E) (i n : Nat) (rev : Bool) (s : Scan) (st : Option E.Iter) : Prop :=
  w.Scanning i s st ∧ w.HasCursor i n rev

/-- An object is in one state. -/
theorem World.Scanning.unique {st st' : Option E.Iter} (h : w.Scanning i s st)
    (h' : w.Scanning i s st') : st = st' := by
  cases st with
  | none =>
    obtain ⟨rev, hi⟩ := h
    cases st' with
    | none => rfl
    | some it' =>
      obtain ⟨D, n, bound, d, r, hi', -⟩ := h'
      rw [hi] at hi'
      cases hi'
  | some it =>
    obtain ⟨D, n, bound, d, r, hi, -, hn, -⟩ := h
    cases st' with
    | none =>
      obtain ⟨rev, hi'⟩ := h'
      rw [hi] at hi'
      cases hi'
    | some it' =>
      obtain ⟨D', n', bound', d', r', hi', -, hn', -⟩ := h'
      rw [hi] at hi'
      cases hi'
      rw [hn] at hn'
      cases hn'
      rfl

/-- The discipline of `next` on an iterator that is shared. -/
def nextDiscipline (E : Env) (i n : Nat) (rev : Bool) (s : Scan) : Discipline (World E) Ev Stage where
  knows c w := ∃ st, w.ScanningOn i n rev s st ∧ c.fits s st
  does c w x c' w' :=
    ∃ st st', w.ScanningOn i n rev s st ∧ w'.ScanningOn i n rev s st' ∧ s.Block c st x c' st'
  perform _ c := c

abbrev nextRules (E : Env) (i n : Nat) (rev : Bool) (s : Scan) :
    Prog.Rules (World E) Fault Ev (Stage × World E) :=
  (nextDiscipline E i n rev s).rules (fun _ => False) runsPython

theorem next_silent : (nextRules E i n rev s).Silent (runsPython · = false) :=
  fun _ hx w c P => Discipline.event_of_passes hx w c P

/-- The cursor of an object that is not at its end, and the same object with another cursor. -/
theorem World.ScanningOn.cursor {it : E.Iter} (h : w.ScanningOn i n rev s (some it)) :
    ∃ D bound d inst, w.iters.get i = some ⟨some D, some D, some n, bound, s.reverse,
        s.includeValue⟩ ∧ w.ldbIterators.get n = some ⟨d, it⟩ ∧ w.dbs.get d = some inst ∧
      rev = s.reverse ∧ ∀ it', { w with ldbIterators := w.ldbIterators.set n ⟨d, it'⟩ }.ScanningOn i n rev s (some it') := by
  obtain ⟨⟨D, m, bound, d, r, hi, hb, hn, hr, ho, hm, hne⟩, hcursor⟩ := h
  obtain ⟨hmn, hrev⟩ := hcursor _ hi
  obtain rfl : m = n := by simpa using hmn
  obtain ⟨inst, hd⟩ := ho.2.1
  exact ⟨D, bound, d, inst, hi, hn, hd, hrev.symm, fun it' =>
    ⟨⟨D, m, bound, d, r, hi, hb, by simp, hr, ho, hm, hne⟩, hcursor⟩⟩

/-- The end of a call. -/
abbrev Ends (i n : Nat) (rev : Bool) (s : Scan) (r : Except Exn (Option Item)) (w : World E)
    (c : Stage × World E) : Prop :=
  ∃ c', (nextDiscipline E i n rev s).does c.1 c.2 none c' w ∧ c' = .over r

/-- The move to the next entry, after `it` was read. -/
theorem wp_advance_shared {c : Stage} {w₀ : World E} {it : E.Iter}
    (h₀ : w₀.ScanningOn i n rev s (some it)) (h : w.ScanningOn i n rev s (some it)) (hc : c.reads = true)
    (hstop : s.stops it = false) : (PyLevelDBIter.advance i).wp (nextRules E i n rev s)
      (fun _ => Ends i n rev s (.ok (some (s.item it)))) w (c, w₀) := by
  obtain ⟨D, bound, d, inst, hi, hn, hd, -, hset⟩ := h.cursor
  have hadvance : PyLevelDBIter.advance (E := E) i = (do
      let it ← PyLevelDBIter.load i
      let n ← deref it.iterator
      if it.isReverse then iterMove n E.prevBegin E.prevEnd
      else iterMove n E.nextBegin E.nextEnd) := rfl
  have hmove : (if s.reverse then iterMove n E.prevBegin E.prevEnd
      else iterMove n E.nextBegin E.nextEnd) = iterMove n s.moveBegin s.moveEnd := by
    unfold Scan.moveBegin Scan.moveEnd
    cases s.reverse <;> rfl
  rw [hadvance]
  simp only [Prog.wp_bind, wp_load_iter, hi, Prog.found_some, wp_deref]
  rw [hmove]
  simp only [iterMove, Prog.wp_bind, wp_loadIterator, hn, Prog.found_some, Prog.wp_event,
    next_silent (.ldb _ _) rfl, wp_iterSet, hd, wp_loadDb]
  cases hcmp : decide (inst.comparator ≠ .bytewise) with
  | false =>
    simp only [Prog.when_false, Prog.wp_pure, Table.get_set, ↓reduceIte, Prog.found_some, hd,
      Table.set_set]
    rw [← Scan.move_eq]
    exact ⟨_, ⟨some it, some (s.move it), h₀, hset _, .whole hc hstop⟩, rfl⟩
  | true =>
    simp only [Prog.when_true, callback, Prog.wp_bind, Prog.wp_event, next_silent .gilEnsure rfl]
    refine Discipline.event_of_pauses rfl ⟨_, _, h₀, hset _, .read hc hstop⟩ ?_
    rintro w' ⟨st, h', it', rfl⟩
    obtain ⟨D', bound', d', inst', -, hn', hd', -, hset'⟩ := h'.cursor
    simp only [next_silent .gilRelease rfl, hn', Prog.found_some, hd']
    exact ⟨_, ⟨some it', _, h', hset' _, .moved⟩, rfl⟩

/-- The entry is read and the iterator moves on. -/
theorem wp_deliver {c : Stage} {w₀ : World E} {it : E.Iter} {allocs : NextAllocs}
    (h₀ : w₀.ScanningOn i n rev s (some it)) (h : w.ScanningOn i n rev s (some it)) (hc : c.reads = true)
    (hstop : s.stops it = false) : (PyLevelDBIter.makeItem i allocs).wp (nextRules E i n rev s)
      (fun r w b => Prog.wp (nextRules E i n rev s)
        (match r with
        | .error e => return .error e
        | .ok item => do
          PyLevelDBIter.advance i
          return .ok (some item))
        (fun r w b => Ends i n rev s r w b) w b) w (c, w₀) := by
  obtain ⟨D, bound, d, inst, hi, hn, hd, -, hset⟩ := h.cursor
  refine wp_makeItem next_silent hi hn fun o => ?_
  cases s.affords allocs with
  | false =>
    simp only [Bool.false_eq_true, ↓reduceIte, Prog.wp_pure]
    exact ⟨_, ⟨some it, some it, h₀, h, .fail hc hstop⟩, rfl⟩
  | true =>
    simp only [↓reduceIte, Prog.wp_bind, Prog.wp_pure]
    exact wp_advance_shared h₀ h hc hstop

/-- `clean` ends the scan. -/
theorem wp_clean_shared {st : Option E.Iter} {b : Stage × World E} {Q : Unit → World E →
    Stage × World E → Prop} (h : w.ScanningOn i n rev s st)
    (hQ : ∀ w', w'.ScanningOn i n rev s none → Q () w' b) :
    (PyLevelDBIter.clean i).wp (nextRules E i n rev s) Q w b := by
  have hdead : ∀ w' : World E, w'.iters.get i = some ⟨none, none, none, none, rev, false⟩ →
      w'.ScanningOn i n rev s none := by
    refine fun w' hi => ⟨⟨rev, hi⟩, fun o ho => ?_⟩
    rw [hi] at ho
    cases ho
    exact ⟨.inl rfl, rfl⟩
  cases st with
  | none =>
    obtain ⟨⟨rev', hi⟩, hcursor⟩ := h
    obtain rfl : rev' = rev := (hcursor _ hi).2
    exact wp_clean_dead next_silent hi (hQ _ (hdead _ (by simp)))
  | some it =>
    obtain ⟨⟨D, m, bound, d, r, hi, hb, hn, hr, ho, hm, hne⟩, hcursor⟩ := h
    obtain ⟨inst, hd⟩ := ho.2.1
    have hrev : s.reverse = rev := (hcursor _ hi).2
    have hbound : ∀ p, bound = some p → ∃ b, w.strings.get p = some b := by
      rintro p rfl
      cases hsb : s.bound with
      | none => simp [hsb] at hb
      | some b => exact ⟨b, by simpa [hsb] using hb⟩
    refine wp_clean_live next_silent hi hn hd hbound hr hm hne (hQ _ (hdead _ ?_))
    simp [World.cleaned, hrev]

/-- The sign of the comparator's answer, as the bound test reads it. -/
theorem answersPast_getSign {r : PyResult} {z : Int}
    (hz : PythonComparatorWrapper.getSign r = some z) :
    ((!s.reverse && !decide (0 ≤ z)) || (s.reverse && !decide (0 ≥ z))) = s.answersPast r := by
  cases r with
  | raised | other => cases hz
  | int x =>
    cases hz
    have hneg : 0 ≤ (if x < 0 then -1 else if 0 < x then 1 else 0 : Int) ↔ ¬ x < 0 := by
      split
      · omega
      · split <;> omega
    have hpos : 0 ≥ (if x < 0 then -1 else if 0 < x then 1 else 0 : Int) ↔ ¬ 0 < x := by
      split
      · omega
      · split <;> omega
    simp only [hneg, hpos, decide_not, Bool.not_not, Scan.answersPast]
    cases s.reverse <;> simp

/-- The bound test. It may pause, and then the object is in any state that fits the answer. -/
theorem wp_pastBound_shared {it : E.Iter} {o : PyLevelDBIter} {Q : Bool → World E →
    Stage × World E → Prop} (h : w.ScanningOn i n rev s (some it)) (ho : w.iters.get i = some o)
    (hv : E.valid it = true)
    (hQ : ∀ (past : Bool) (c : Stage) (w₁ w₂ : World E) (st : Option E.Iter),
      w₁.ScanningOn i n rev s st → w₂.ScanningOn i n rev s st →
      (c = .begins ∨ c = .testing past) →
      (past = false → ∃ it, st = some it ∧ s.stops it = false) → Q past w₂ (c, w₁)) :
    (PyLevelDBIter.pastBound i o).wp (nextRules E i n rev s) Q w (.begins, w) := by
  obtain ⟨⟨D, m, bound, d, r, hi, hb, hn, hr, hopen, hm, hne⟩, hcursor⟩ := id h
  rw [hi] at ho
  cases ho
  have hrev : s.reverse = rev := (hcursor _ hi).2
  cases bound with
  | none =>
    have hs : s.bound = none := by simpa using hb.symm
    have hstop : s.stops it = false := by simp [Scan.stops, Scan.past, hs, hv]
    simp only [PyLevelDBIter.pastBound, Prog.wp_pure]
    exact hQ false .begins w w (some it) h h (.inl rfl) fun _ => ⟨it, rfl, hstop⟩
  | some p =>
    obtain ⟨b, hsb, hp⟩ : ∃ b, s.bound = some b ∧ w.strings.get p = some b := by
      cases hsb : s.bound with
      | none => simp [hsb] at hb
      | some b => exact ⟨b, rfl, by simpa [hsb] using hb⟩
    obtain ⟨hdb, hd, o, opts, hopt, hopts, hcmp⟩ := hopen
    simp only [PyLevelDBIter.pastBound, Prog.wp_bind, wp_loadString, hp, Prog.found_some, wp_deref,
      wp_iterKey, hn, wp_load_levelDB, hr, hopt, wp_row, hopts]
    cases hc : opts.comparator with
    | bytewise =>
      rw [hc] at hcmp
      have hcmp : E.bytewise = s.cmp := hcmp
      simp only [CmpPtr.compare, Prog.wp_pure, wp_load_iter, hi, Prog.found_some, hcmp]
      have hpast : ((!s.reverse && !decide (0 ≤ s.cmp b (E.key it))) ||
          (s.reverse && !decide (0 ≥ s.cmp b (E.key it)))) = s.past (E.key it) := by
        have hneg : 0 ≤ s.cmp b (E.key it) ↔ ¬ s.cmp b (E.key it) < 0 := Int.not_lt.symm
        have hpos : 0 ≥ s.cmp b (E.key it) ↔ ¬ 0 < s.cmp b (E.key it) := Int.not_lt.symm
        simp only [hneg, hpos, decide_not, Bool.not_not]
        cases hr : s.reverse <;> simp [Scan.past, hsb, hr]
      rw [hpast]
      refine hQ _ .begins w w (some it) h h (.inl rfl) fun hp => ⟨it, rfl, ?_⟩
      simp [Scan.stops, hp, hv]
    | python q =>
      rw [hc] at hcmp
      obtain ⟨row, hrow, hcall⟩ := hcmp
      simp only [CmpPtr.compare, PythonComparatorWrapper.compare, Prog.wp_bind, Prog.wp_event,
        next_silent .gilEnsure rfl, wp_newRef, next_silent .py rfl, wp_row, hrow, Prog.found_some,
        Prog.wp_state, Prog.wp_put, hcall]
      refine Discipline.event_of_pauses rfl ⟨some it, some it, h, h, .test hv⟩ ?_
      -- another thread may have been here
      rintro w' ⟨st, h', hfits⟩
      have hz : PythonComparatorWrapper.getSign (.int (s.cmp b (E.key it))) =
          some (if s.cmp b (E.key it) < 0 then -1 else if 0 < s.cmp b (E.key it) then 1 else 0) := rfl
      obtain ⟨o', hi', hrev'⟩ : ∃ o, w'.iters.get i = some o ∧ o.isReverse = rev := by
        cases st with
        | none =>
          obtain ⟨⟨rev', hi'⟩, hcursor'⟩ := h'
          exact ⟨_, hi', (hcursor' _ hi').2⟩
        | some it' =>
          obtain ⟨⟨_, _, _, _, _, hi', -⟩, hcursor'⟩ := h'
          exact ⟨_, hi', (hcursor' _ hi').2⟩
      have hanswer := answersPast_getSign (s := s) hz
      rw [hrev] at hanswer
      have hwhen : decide (PyResult.int (s.cmp b (E.key it)) ≠ .raised) = true := by simp
      simp only [hwhen, Prog.when_true, wp_newRef, wp_dropRef, next_silent .py rfl, hz, Prog.wp_bind,
        Prog.wp_event, next_silent .gilRelease rfl, Prog.wp_pure, wp_load_iter, hi',
        Prog.found_some, hrev', hanswer]
      exact hQ _ _ w' _ st h' h' (.inr rfl) hfits

/-- **Every block of a call does what the scan lets it do.** -/
theorem next_obeys (allocs : NextAllocs) :
    (nextDiscipline E i n rev s).Obeys (fun _ => False) runsPython ((nextHost E i).prog allocs)
      (fun r c => c = .over r) .begins := by
  rintro w ⟨st, h, -⟩
  show Prog.wp (nextRules E i n rev s) (PyLevelDBIter.next i allocs) (Ends i n rev s) w (.begins, w)
  simp only [PyLevelDBIter.next, wp_inFrame, next_silent (.enter _) rfl, next_silent .leave rfl,
    Prog.wp_bind, wp_load_iter]
  cases st with
  | none =>
    obtain ⟨rev', hi⟩ := h.1
    simp only [hi, Prog.found_some, PyLevelDBIter.atEnd, Prog.wp_pure, ↓reduceIte, Prog.wp_bind]
    exact wp_clean_shared h fun w' h' => ⟨_, ⟨_, _, h, h', .finish⟩, rfl⟩
  | some it =>
    obtain ⟨D, bound, d, inst, hi, hn, hd, -, hset⟩ := h.cursor
    simp only [hi, Prog.found_some, wp_atEnd hn]
    cases hv : E.valid it with
    | false =>
      simp only [Bool.not_false, ↓reduceIte, Prog.wp_bind]
      exact wp_clean_shared h fun w' h' => ⟨_, ⟨_, _, h, h', .finish⟩, rfl⟩
    | true =>
      simp only [Bool.not_true, Bool.false_eq_true, ↓reduceIte, Prog.wp_bind]
      refine wp_pastBound_shared h hi hv fun past c w₁ w₂ st h₁ h₂ hc hfits => ?_
      cases past with
      | true =>
        simp only [↓reduceIte, Prog.wp_bind]
        refine wp_clean_shared h₂ fun w' h' => ⟨_, ⟨_, _, h₁, h', ?_⟩, rfl⟩
        rcases hc with rfl | rfl
        · exact .finish
        · exact .past
      | false =>
        obtain ⟨it', rfl, hstop⟩ := hfits rfl
        simp only [Bool.false_eq_true, ↓reduceIte, Prog.wp_bind]
        refine wp_deliver h₁ h₂ ?_ hstop
        rcases hc with rfl | rfl
        · rfl
        · rfl

/-! ## Deliveries -/

namespace Scan

/-- Calls of a thread that runs alone deliver `l`, from `st` on, and leave the scan in `st'`. -/
inductive Delivers (s : Scan) : Option E.Iter → List Item → Option E.Iter → Prop where
  | nil (st : Option E.Iter) : Delivers s st [] st
  | stop (st : Option E.Iter) : Delivers s st [] none
  | cons {it : E.Iter} {l : List Item} {st : Option E.Iter} : s.stops it = false →
      Delivers s (some (s.move it)) l st → Delivers s (some it) (s.item it :: l) st

variable {st st' : Option E.Iter} {it : E.Iter} {l : List Item}

theorem Delivers.snoc (h : s.Delivers st l (some it)) (hstop : s.stops it = false) :
    s.Delivers st (l ++ [s.item it]) (some (s.move it)) := by
  generalize hst : some it = st' at h
  induction h with
  | nil st =>
    subst hst
    exact .cons hstop (.nil _)
  | stop st => cases hst
  | cons hs _ ih => exact .cons hs (ih hst)

theorem Delivers.ended (h : s.Delivers st l st') : s.Delivers st l none := by
  induction h with
  | nil st => exact .stop st
  | stop st => exact .stop st
  | cons hs _ ih => exact .cons hs ih

/-- **The deliveries are the results of as many calls.** -/
theorem Delivers.results (h : s.Delivers st l st') : s.results st l.length = l.map some := by
  induction h with
  | nil st => rfl
  | stop st => rfl
  | cons hs _ ih =>
    rw [List.length_cons, Scan.results, next, if_neg (by simp [hs]), ih]
    rfl

/-- The item that a call has read and not returned. -/
def Stage.pending : Stage → List Item
  | moving item => [item]
  | _ => []

end Scan

/-- The item that a call delivers. -/
def itemOf : Except Exn (Option Item) → Option Item
  | .ok x => x
  | .error _ => none

/-- What the calls of thread `t` have returned. -/
def items (p : NextPool E) (t : Nat) : List Item :=
  (p.threads t).done.filterMap fun e => itemOf e.result

/-- leveldb runs the comparator. -/
def runsInside : Ev → Bool
  | .callInside _ => true
  | _ => false

/-- Thread `t` is in the middle of a move. -/
def inMove (p : NextPool E) (t : Nat) : Bool := (p.threads t).call.any fun c => runsInside c.2.1

/-- How many entries thread `t` has read to deliver them. -/
def entriesRead (p : NextPool E) (t : Nat) : Nat :=
  (items p t).length + if inMove p t then 1 else 0

/-- A step of thread `t` that begins or resumes a call while no other call is in the middle of a
move. If the bound test goes on because the iterator was within its bound, it still is, and valid. -/
def Steady (i : Nat) (s : Scan) (p : NextPool E) (t : Nat) (m : Threads.Move) : Prop :=
  match m, (p.threads t).call with
  | .start, _ => ∀ u, inMove p u = false
  | .go, some (_, .call r, _) => (∀ u, inMove p u = false) ∧ (s.answersPast r = false →
      ∃ o n row, p.shared.iters.get i = some o ∧ o.iterator = some n ∧
        p.shared.ldbIterators.get n = some row ∧ s.stops row.it = false)
  | _, _ => True

/-- The step of thread `t` from `p` to `p'` read the key at the cursor: the thread has run a call up
to a comparator, or the call failed. -/
def ReadsKey (p : NextPool E) (t : Nat) (p' : NextPool E) : Prop :=
  ((p'.threads t).call.isSome = true ∧ p'.holder = some t) ∨
    ∃ a π e, (p'.threads t).done = (p.threads t).done ++ [⟨a, π, .error e⟩]

/-- The cursor of iterator object `i` is valid. -/
def AtValid (i : Nat) (w : World E) : Prop :=
  ∃ o n row, w.iters.get i = some o ∧ o.iterator = some n ∧ w.ldbIterators.get n = some row ∧
    E.valid row.it = true

/-- The log of the deliveries: who read them, and what. -/
def Logs (h : List (NextPool E × Nat)) (g : Nat → Stage) (p : NextPool E)
    (log : List (Nat × Item)) : Prop :=
  log.map Prod.fst = Threads.increases entriesRead h p ∧
    ∀ t, (log.filter (·.1 = t)).map Prod.snd = items p t ++ (g t).pending

/-- The invariant: the log is what a thread that runs alone delivers, and the cursor is where that
thread would leave it; a call in the middle of a move will take it there. -/
structure Serves (i n : Nat) (rev : Bool) (s : Scan) (st₀ : Option E.Iter)
    (h : List (NextPool E × Nat)) (g : Nat → Stage) (p : NextPool E) : Prop where
  fault : p.fault = none
  inCall : ∀ t a x k, (p.threads t).call = some (a, x, k) →
    (∃ r, x = .call r ∧ g t = .testing (s.answersPast r)) ∨
      ∃ d item, x = .callInside d ∧ g t = .moving item
  idle : ∀ t, (p.threads t).call = none → (g t).pending = []
  log : ∃ log st, Logs h g p log ∧ p.shared.ScanningOn i n rev s st ∧
    (((∀ t, inMove p t = false) ∧ s.Delivers st₀ (log.map Prod.snd) st) ∨
      ∃ u it, inMove p u = true ∧ (∀ t, inMove p t = true → t = u) ∧ st = some it ∧
        s.Delivers st₀ (log.map Prod.snd) (some (s.moveEnd it)))
  reads : ∀ h' q u, h = h' ++ [(q, u)] → ReadsKey q u p → AtValid i q.shared

section Steps

variable {h : List (NextPool E × Nat)} {g : Nat → Stage} {p p' q : NextPool E} {t : Nat}
  {log : List (Nat × Item)} {c' : Stage}

theorem items_congr {u : Nat} (h : p'.threads u = p.threads u) : items p' u = items p u := by
  unfold items
  rw [h]

theorem inMove_congr {u : Nat} (h : p'.threads u = p.threads u) : inMove p' u = inMove p u := by
  unfold inMove
  rw [h]

/-- A step that reads no entry. -/
theorem Logs.keep (hl : Logs h g p log) (hother : ∀ u, u ≠ t → items p' u = items p u)
    (hitems : items p' t ++ c'.pending = items p t ++ (g t).pending)
    (hread : entriesRead p' t ≤ entriesRead p t) :
    Logs (h ++ [(p, t)]) (Function.update g t c') p' log := by
  refine ⟨?_, fun u => ?_⟩
  · rw [hl.1, Threads.increases_snoc, if_neg (Nat.not_lt.mpr hread), List.append_nil]
  · rcases eq_or_ne u t with rfl | hne
    · rw [Function.update_self, hitems]
      exact hl.2 u
    · rw [Function.update_of_ne hne, hother u hne]
      exact hl.2 u

/-- A step that reads an entry. -/
theorem Logs.add {item : Item} (hl : Logs h g p log)
    (hother : ∀ u, u ≠ t → items p' u = items p u)
    (hitems : items p' t ++ c'.pending = items p t ++ (g t).pending ++ [item])
    (hread : entriesRead p t < entriesRead p' t) :
    Logs (h ++ [(p, t)]) (Function.update g t c') p' (log ++ [(t, item)]) := by
  refine ⟨?_, fun u => ?_⟩
  · rw [List.map_append, hl.1, Threads.increases_snoc, if_pos hread]
    rfl
  · rcases eq_or_ne u t with rfl | hne
    · rw [Function.update_self, hitems, ← hl.2 u]
      simp
    · rw [Function.update_of_ne hne, hother u hne, ← hl.2 u]
      simp [Ne.symm hne]

/-- What thread `t` knows of its call where it begins a block, and what is true of the pool. -/
inductive Resumes (s : Scan) (i : Nat) (g : Nat → Stage) (p : NextPool E) (t : Nat) : Stage → Prop where
  | begins : (∀ u, inMove p u = false) → (g t).pending = [] → Resumes s i g p t .begins
  | testing {r : PyResult} : (∀ u, inMove p u = false) → (g t).pending = [] →
      (s.answersPast r = false → ∃ o n row, p.shared.iters.get i = some o ∧ o.iterator = some n ∧
        p.shared.ldbIterators.get n = some row ∧ s.stops row.it = false) →
      Resumes s i g p t (.testing (s.answersPast r))
  | moving {item : Item} : inMove p t = true → (g t).pending = [item] →
      Resumes s i g p t (.moving item)

variable {st₀ : Option E.Iter} {m : Threads.Move} {a : NextAllocs} {c : Stage}

theorem Serves.resumes (hs : Serves i n rev s st₀ h g p) (hC : Steady i s p t m)
    (he : (nextDiscipline E i n rev s).Enters (nextHost E i) (fun _ => .begins) g p t m a c q) :
    Resumes s i g p t c := by
  cases he with
  | start hcall hheld htodo => exact .begins hC (hs.idle t hcall)
  | @go a x k q hcall hperform =>
    rcases hs.inCall t a x k hcall with ⟨r, rfl, hg⟩ | ⟨d, item, rfl, hg⟩
    · have hC' := hC
      unfold Steady at hC'
      rw [hcall] at hC'
      show Resumes s i g p t (g t)
      have hpending : (g t).pending = [] := by rw [hg]; rfl
      rw [hg]
      exact .testing hC'.1 hpending hC'.2
    · show Resumes s i g p t (g t)
      have hpending : (g t).pending = [item] := by rw [hg]; rfl
      rw [hg]
      exact .moving (by unfold inMove; rw [hcall]; rfl) hpending

/-- The cursor of an object whose leveldb iterator is there. -/
theorem World.ScanningOn.at_row {st : Option E.Iter} (hst : w.ScanningOn i n rev s st)
    {o : PyLevelDBIter} {m : Nat} {row : LdbIterator E} (hi : w.iters.get i = some o)
    (ho : o.iterator = some m) (hrow : w.ldbIterators.get m = some row) : st = some row.it := by
  cases st with
  | none =>
    obtain ⟨⟨rev', hi'⟩, -⟩ := hst
    rw [hi] at hi'
    cases hi'
    cases ho
  | some it =>
    obtain ⟨⟨D, m', bound, d, r, hi', -, hn, -⟩, -⟩ := hst
    rw [hi] at hi'
    cases hi'
    cases ho
    rw [hrow] at hn
    cases hn
    rfl

theorem Serves.knows (hs : Serves i n rev s st₀ h g p) (hr : Resumes s i g p t c) :
    (nextDiscipline E i n rev s).knows c p.shared := by
  obtain ⟨log, st, -, hst, hpos⟩ := hs.log
  refine ⟨st, hst, ?_⟩
  cases hr with
  | begins => trivial
  | testing hquiet hpending hstill =>
    intro hpast
    obtain ⟨o, m, row, hi, ho, hrow, hstop⟩ := hstill hpast
    exact ⟨row.it, hst.at_row hi ho hrow, hstop⟩
  | moving hmove hpending =>
    rcases hpos with ⟨hquiet, -⟩ | ⟨u, it, -, -, rfl, -⟩
    · rw [hquiet t] at hmove
      cases hmove
    · exact ⟨it, rfl⟩

theorem Resumes.quiet (hr : Resumes s i g p t c) (hc : c.reads = true) :
    (∀ u, inMove p u = false) ∧ (g t).pending = [] := by
  cases hr with
  | begins hquiet hpending => exact ⟨hquiet, hpending⟩
  | testing hquiet hpending => exact ⟨hquiet, hpending⟩
  | moving => cases hc

/-- The items that a call has delivered at its end. -/
def Scan.Stage.result : Stage → List Item
  | .over r => (itemOf r).toList
  | _ => []

/-- **The log after a block.** -/
theorem Serves.log_block (hs : Serves i n rev s st₀ h g p) (hr : Resumes s i g p t c)
    {x : Option Ev} (hdoes : (nextDiscipline E i n rev s).does c p.shared x c' p'.shared)
    (hother : ∀ u, u ≠ t → p'.threads u = p.threads u)
    (hitems : items p' t = items p t ++ c'.result) (hmove : inMove p' t = x.any runsInside) :
    ∃ log st, Logs (h ++ [(p, t)]) (Function.update g t c') p' log ∧
      p'.shared.ScanningOn i n rev s st ∧
      (((∀ t, inMove p' t = false) ∧ s.Delivers st₀ (log.map Prod.snd) st) ∨
        ∃ u it, inMove p' u = true ∧ (∀ t, inMove p' t = true → t = u) ∧ st = some it ∧
          s.Delivers st₀ (log.map Prod.snd) (some (s.moveEnd it))) := by
  obtain ⟨log, st, hlog, hst, hpos⟩ := hs.log
  obtain ⟨st₁, st', hst₁, hst', hblock⟩ := hdoes
  obtain rfl := hst.1.unique hst₁.1
  have hitems' : ∀ u, u ≠ t → items p' u = items p u := fun u hu => items_congr (hother u hu)
  have hmove' : ∀ u, u ≠ t → inMove p' u = inMove p u := fun u hu => inMove_congr (hother u hu)
  -- where no call was in the middle of a move, only thread `t` can be now
  have hstill : (∀ u, inMove p u = false) → x.any runsInside = false → ∀ u, inMove p' u = false := by
    intro hquiet hx u
    rcases eq_or_ne u t with rfl | hne
    · rw [hmove, hx]
    · rw [hmove' u hne, hquiet u]
  have hdelivers : (∀ u, inMove p u = false) → s.Delivers st₀ (log.map Prod.snd) st := by
    intro hquiet
    rcases hpos with ⟨-, hd⟩ | ⟨u, it, hu, -⟩
    · exact hd
    · rw [hquiet u] at hu
      cases hu
  have hgains : (∀ u, inMove p u = false) → (g t).pending = [] →
      c'.result.length + (if x.any runsInside then 1 else 0) = (c'.result ++ c'.pending).length →
      entriesRead p' t = entriesRead p t + (c'.result ++ c'.pending).length ∧
        items p' t ++ c'.pending = items p t ++ (g t).pending ++ (c'.result ++ c'.pending) := by
    intro hquiet hpending hlen
    unfold entriesRead
    rw [← hlen, hquiet t, hmove, hitems, hpending, List.length_append]
    refine ⟨?_, by simp⟩
    simp only [Bool.false_eq_true, ↓reduceIte]
    omega
  have hkeep : (∀ u, inMove p u = false) → (g t).pending = [] → c'.result ++ c'.pending = [] →
      x.any runsInside = false → Logs (h ++ [(p, t)]) (Function.update g t c') p' log := by
    intro hquiet hpending hnone hx
    obtain ⟨hresult, -⟩ := List.append_eq_nil_iff.mp hnone
    obtain ⟨h1, h2⟩ := hgains hquiet hpending (by rw [hnone, hresult, hx]; rfl)
    rw [hnone] at h1 h2
    exact hlog.keep hitems' (by rw [h2, List.append_nil]) (Nat.le_of_eq h1)
  have hadd : ∀ item, (∀ u, inMove p u = false) → (g t).pending = [] →
      c'.result ++ c'.pending = [item] →
      c'.result.length + (if x.any runsInside then 1 else 0) = 1 →
      Logs (h ++ [(p, t)]) (Function.update g t c') p' (log ++ [(t, item)]) := by
    intro item hquiet hpending hone hx
    obtain ⟨h1, h2⟩ := hgains hquiet hpending (by rw [hone, hx]; rfl)
    rw [hone] at h1 h2
    exact hlog.add hitems' h2 (by rw [h1]; exact Nat.lt_succ_self _)
  cases hblock with
  | finish =>
    obtain ⟨hquiet, hpending⟩ := hr.quiet rfl
    exact ⟨log, none, hkeep hquiet hpending rfl rfl, hst', .inl ⟨hstill hquiet rfl,
      (hdelivers hquiet).ended⟩⟩
  | past =>
    have hboth : (∀ u, inMove p u = false) ∧ (g t).pending = [] := by
      generalize hc : Stage.testing true = c at hr
      cases hr with
      | begins hquiet hpending => cases hc
      | testing hquiet hpending => exact ⟨hquiet, hpending⟩
      | moving => cases hc
    exact ⟨log, none, hkeep hboth.1 hboth.2 rfl rfl, hst', .inl ⟨hstill hboth.1 rfl,
      (hdelivers hboth.1).ended⟩⟩
  | test hv =>
    obtain ⟨hquiet, hpending⟩ := hr.quiet rfl
    exact ⟨log, _, hkeep hquiet hpending rfl rfl, hst', .inl ⟨hstill hquiet rfl, hdelivers hquiet⟩⟩
  | fail hc hstop =>
    obtain ⟨hquiet, hpending⟩ := hr.quiet hc
    exact ⟨log, _, hkeep hquiet hpending rfl rfl, hst', .inl ⟨hstill hquiet rfl, hdelivers hquiet⟩⟩
  | @read c it d hc hstop =>
    obtain ⟨hquiet, hpending⟩ := hr.quiet hc
    refine ⟨log ++ [(t, s.item it)], _, hadd _ hquiet hpending rfl rfl, hst', .inr ⟨t, _, hmove,
      fun u hu => ?_, rfl, ?_⟩⟩
    · by_contra hne
      rw [hmove' u hne, hquiet u] at hu
      cases hu
    · rw [← Scan.move_eq, List.map_append]
      exact (hdelivers hquiet).snoc hstop
  | @whole c it hc hstop =>
    obtain ⟨hquiet, hpending⟩ := hr.quiet hc
    refine ⟨log ++ [(t, s.item it)], _, hadd _ hquiet hpending rfl rfl, hst', .inl
      ⟨hstill hquiet rfl, ?_⟩⟩
    rw [List.map_append]
    exact (hdelivers hquiet).snoc hstop
  | @moved item it =>
    obtain ⟨hmoving, hpending⟩ : inMove p t = true ∧ (g t).pending = [item] := by
      generalize hc : Stage.moving item = c at hr
      cases hr with
      | begins => cases hc
      | testing => cases hc
      | moving hmoving hpending =>
        cases hc
        exact ⟨hmoving, hpending⟩
    rcases hpos with ⟨hquiet, -⟩ | ⟨u, it', hu, honly, hit, hd⟩
    · rw [hquiet t] at hmoving
      cases hmoving
    · cases hit
      refine ⟨log, _, hlog.keep hitems' ?_ ?_, hst', .inl ⟨fun v => ?_, hd⟩⟩
      · rw [hitems, hpending]
        exact List.append_nil _
      · unfold entriesRead
        rw [hmoving, hmove, hitems, List.length_append]
        exact Nat.le_refl _
      · rcases eq_or_ne v t with rfl | hne
        · exact hmove
        · rw [hmove' v hne]
          cases hv : inMove p v with
          | false => rfl
          | true => exact absurd ((honly v hv).trans (honly t hmoving).symm) hne

theorem World.ScanningOn.atValid {it : E.Iter} (h : w.ScanningOn i n rev s (some it))
    (hv : E.valid it = true) : AtValid i w := by
  obtain ⟨D, bound, d, inst, hi, hn, -⟩ := h.cursor
  exact ⟨_, n, _, hi, rfl, hn, hv⟩

theorem valid_of_stops {it : E.Iter} (h : s.stops it = false) : E.valid it = true := by
  simp only [Scan.stops, Bool.or_eq_false_iff, Bool.not_eq_false'] at h
  exact h.1

/-- A block that stops in a comparator has read the key at a valid cursor. -/
theorem does_atValid {x : Ev} (h : (nextDiscipline E i n rev s).does c w (some x) c' w') :
    AtValid i w := by
  obtain ⟨st, st', hst, -, hblock⟩ := h
  cases hblock with
  | test hv => exact hst.atValid hv
  | read hc hstop => exact hst.atValid (valid_of_stops hstop)

/-- So has a call that fails. -/
theorem does_atValid_error {e : Exn}
    (h : (nextDiscipline E i n rev s).does c w none (.over (.error e)) w') : AtValid i w := by
  obtain ⟨st, st', hst, -, hblock⟩ := h
  cases hblock with
  | fail hc hstop => exact hst.atValid (valid_of_stops hstop)

/-- Where a call stops in a comparator. -/
theorem does_call {x : Ev} (h : (nextDiscipline E i n rev s).does c w (some x) c' w') :
    c'.result = [] ∧ ((∃ r, x = .call r ∧ c' = .testing (s.answersPast r)) ∨
      ∃ d item, x = .callInside d ∧ c' = .moving item) := by
  obtain ⟨st, st', -, -, hblock⟩ := h
  cases hblock with
  | test => exact ⟨rfl, .inl ⟨_, rfl, rfl⟩⟩
  | read => exact ⟨rfl, .inr ⟨_, _, rfl, rfl⟩⟩

/-- **Every steady step keeps the invariant.** -/
theorem serves_keeps (i n : Nat) (rev : Bool) (s : Scan) (st₀ : Option E.Iter) :
    (nextDiscipline E i n rev s).Keeps (fun _ => False) (nextHost E i) (Steady i s)
      (fun _ => .begins) (fun _ r c => c = .over r) (Serves i n rev s st₀) where
  swaps := by
    intro h g p t m p' hs _ hswap
    have hitems : ∀ u, items p' u = items p u := fun u => by unfold items; rw [hswap.done u]
    have hmove : ∀ u, inMove p' u = inMove p u := fun u => by unfold inMove; rw [hswap.call u]
    refine ⟨hswap.fault.trans hs.fault, fun u a x k hcall => ?_, fun u hcall => ?_, ?_,
      fun h' q u heq hread => ?_⟩
    · exact hs.inCall u a x k (hswap.call u ▸ hcall)
    · exact hs.idle u (hswap.call u ▸ hcall)
    · obtain ⟨log, st, hlog, hst, hpos⟩ := hs.log
      refine ⟨log, st, ?_, hswap.shared ▸ hst, by simpa only [hmove] using hpos⟩
      have hkeep : Logs (h ++ [(p, t)]) (Function.update g t (g t)) p' log :=
        hlog.keep (fun u _ => hitems u) (by rw [hitems]) (by unfold entriesRead; rw [hitems, hmove])
      rwa [Function.update_eq_self] at hkeep
    · obtain ⟨rfl, hlast⟩ := List.append_inj' heq rfl
      cases hlast
      rcases hread with ⟨hcall, hholder⟩ | ⟨a, π, e, hdone⟩
      · have hne : (p.threads t).call ≠ none := by
          rw [← hswap.call t]
          exact Option.isSome_iff_ne_none.mp hcall
        rw [hswap.gives hne] at hholder
        cases hholder
      · rw [hswap.done t] at hdone
        have := congrArg List.length hdone
        simp at this
  knows hs hC he := hs.knows (hs.resumes hC he)
  event := by
    intro h g p t m a c q π x k c' w' hs hC he hπ hx hdoes
    have hr := hs.resumes hC he
    obtain ⟨-, hfault, hothers, hdone⟩ := he.same
    have hself : (p.settle q t a (.event π x k w')).threads t = _ := Pool.settle_event_self
    have hother : ∀ u, u ≠ t → (p.settle q t a (.event π x k w')).threads u = p.threads u :=
      fun u hu => (Pool.settle_event_of_ne hu).trans (hothers u hu)
    obtain ⟨hresult, hcall'⟩ := does_call hdoes
    refine ⟨hfault.trans hs.fault, fun u b y j hcall => ?_, fun u hcall => ?_,
      hs.log_block hr hdoes hother ?_ ?_, fun h' q' u heq _ => ?_⟩
    · rcases eq_or_ne u t with rfl | hne
      · rw [hself] at hcall
        cases hcall
        rw [Function.update_self]
        exact hcall'
      · rw [Function.update_of_ne hne]
        exact hs.inCall u b y j (hother u hne ▸ hcall)
    · rcases eq_or_ne u t with rfl | hne
      · rw [hself] at hcall
        cases hcall
      · rw [Function.update_of_ne hne]
        exact hs.idle u (hother u hne ▸ hcall)
    · unfold items
      rw [hself, hdone, hresult, List.append_nil]
    · unfold inMove
      rw [hself]
      rfl
    · obtain ⟨rfl, hlast⟩ := List.append_inj' heq rfl
      cases hlast
      exact does_atValid hdoes
  ended := by
    intro h g p t m a c q π r c' w' hs hC he hπ hdoes hpost
    have hr := hs.resumes hC he
    obtain ⟨-, hfault, hothers, hdone⟩ := he.same
    have hself : (p.settle q t a (.ended π r w')).threads t = _ := Pool.settle_ended_self
    have hother : ∀ u, u ≠ t → (p.settle q t a (.ended π r w')).threads u = p.threads u :=
      fun u hu => (Pool.settle_ended_of_ne hu).trans (hothers u hu)
    subst hpost
    refine ⟨hfault.trans hs.fault, fun u b y j hcall => ?_, fun u hcall => ?_,
      hs.log_block hr hdoes hother ?_ ?_, fun h' q' u heq hread => ?_⟩
    · rcases eq_or_ne u t with rfl | hne
      · rw [hself] at hcall
        cases hcall
      · rw [Function.update_of_ne hne]
        exact hs.inCall u b y j (hother u hne ▸ hcall)
    · rcases eq_or_ne u t with rfl | hne
      · rw [Function.update_self]
        rfl
      · rw [Function.update_of_ne hne]
        exact hs.idle u (hother u hne ▸ hcall)
    · unfold items
      rw [hself, hdone, List.filterMap_append]
      rfl
    · unfold inMove
      rw [hself]
      rfl
    · obtain ⟨rfl, hlast⟩ := List.append_inj' heq rfl
      cases hlast
      rcases hread with ⟨hcall, -⟩ | ⟨b, π', e, hgrown⟩
      · rw [hself] at hcall
        cases hcall
      · rw [hself, hdone] at hgrown
        have hlast := List.append_cancel_left hgrown
        simp only [List.cons.injEq, Threads.Done.mk.injEq, and_true] at hlast
        obtain ⟨-, -, rfl⟩ := hlast
        exact does_atValid_error hdoes
  failed _ _ h := h.elim

end Steps

/-! ## The result -/

namespace Scan

variable {cmp : Bytes → Bytes → Int} {args : RangeArgs} {entries : List (Bytes × Bytes)}

/-- What a scan is to deliver is within its bounds. -/
theorem expected_inRange {item : Item} (h : item ∈ expected cmp args entries) :
    args.InRange cmp item.key := by
  unfold expected at h
  obtain ⟨e, he, rfl⟩ := List.mem_map.mp h
  have hmem : e ∈ Sorted.between cmp Prod.fst args.lo args.hi entries := by
    cases hrev : args.reverse with
    | false => simpa [hrev] using he
    | true => simpa [hrev] using he
  simp only [Sorted.between, Sorted.inRange, List.mem_filter, Bool.and_eq_true] at hmem
  obtain ⟨-, hlo, hhi⟩ := hmem
  refine ⟨fun b hb => ?_, fun b hb => ?_⟩
  · rw [hb] at hlo
    exact of_decide_eq_true hlo
  · rw [hb] at hhi
    exact of_decide_eq_true hhi

/-- It is to deliver no key twice. -/
theorem expected_nodup (hc : Compares cmp) (hl : Sorted.Increasing cmp Prod.fst entries) :
    ((expected cmp args entries).map Item.key).Nodup := by
  have hbetween : ((Sorted.between cmp Prod.fst args.lo args.hi entries).map Prod.fst).Nodup := by
    refine List.Pairwise.map _ ?_ (hl.filter _)
    intro a b hab heq
    rw [heq, hc.refl] at hab
    exact absurd hab (by decide)
  unfold expected
  rw [List.map_map]
  have hkey : Item.key ∘ (ofArgs cmp args).deliver = Prod.fst := rfl
  rw [hkey]
  cases args.reverse with
  | false => exact hbetween
  | true =>
    simp only [↓reduceIte, List.map_reverse]
    exact List.nodup_iff_pairwise_ne.mpr (List.pairwise_reverse.mpr
      (hbetween.imp fun h => Ne.symm h))

end Scan

/-- The deliveries so far from iterator object `i`, opened with the arguments `args`. Nothing went
wrong. The deliveries, in the order in which they were read, are the first ones of the scan of a
thread that runs alone, so each is within the bounds and none is there twice; each thread has
returned those that it read, but for the one of a call that is in the middle of a move. The last step
read no key at an invalid cursor. -/
structure InOrder (i : Nat) (cmp : Bytes → Bytes → Int) (args : RangeArgs)
    (entries : List (Bytes × Bytes)) (h : List (NextPool E × Nat)) (p : NextPool E) : Prop where
  fault : p.fault = none
  log : ∃ log : List (Nat × Item), log.map Prod.fst = Threads.increases entriesRead h p ∧
    log.map Prod.snd <+: Scan.expected cmp args entries ∧
    (∀ e ∈ log, args.InRange cmp e.2.key) ∧ (log.map fun e => e.2.key).Nodup ∧
    ∀ t, ∃ pending, (log.filter (·.1 = t)).map Prod.snd = items p t ++ pending ∧
      pending.length = if inMove p t then 1 else 0
  reads : ∀ h' q u, h = h' ++ [(q, u)] → ReadsKey q u p → AtValid i q.shared

/-- The log is what as many calls return to a thread that runs alone. -/
theorem Serves.results {st₀ : Option E.Iter} {h : List (NextPool E × Nat)} {g : Nat → Stage}
    {p : NextPool E} (hs : Serves i n rev s st₀ h g p) : ∃ log, Logs h g p log ∧
      s.results st₀ (log.map Prod.snd).length = (log.map Prod.snd).map some := by
  obtain ⟨log, st, hlog, -, hpos⟩ := hs.log
  refine ⟨log, hlog, ?_⟩
  rcases hpos with ⟨-, hd⟩ | ⟨u, it, -, -, -, hd⟩
  · exact hd.results
  · exact hd.results

/-- Every object that scans has a cursor, or is at its end. -/
theorem World.Scanning.on {st : Option E.Iter} (h : w.Scanning i s st) :
    ∃ n rev, w.ScanningOn i n rev s st := by
  cases st with
  | none =>
    obtain ⟨rev, hi⟩ := h
    refine ⟨0, rev, ⟨rev, hi⟩, fun o ho => ?_⟩
    rw [hi] at ho
    cases ho
    exact ⟨.inl rfl, rfl⟩
  | some it =>
    obtain ⟨D, n, bound, d, r, hi, hrest⟩ := h
    refine ⟨n, s.reverse, ⟨D, n, bound, d, r, hi, hrest⟩, fun o ho => ?_⟩
    rw [hi] at ho
    cases ho
    exact ⟨.inr rfl, rfl⟩

section

variable {D d : Nat} {r : PyLevelDB} {inst : LdbInstance E} {cmp : Bytes → Bytes → Int}
  {snapshot : Option Nat} {snap : Option E.Snap} {args : RangeArgs} {it : E.Iter} {db : E.Db}

end

/-- The three entries, with a Python comparator. -/
def pythonWorld : World soundStore := .single sample (.python 0)

/-- A scan up to `b`. -/
def upToB : RangeArgs := { keyTo := some ⟨7, some [98]⟩ }

theorem pythonWorld_opened :
    pythonWorld.Opened ⟨some 0, some 0, some 0, some (.python 0), 0, 0, [.env]⟩ 0 compareBytes :=
  single_opened ⟨_, rfl, fun _ _ _ => rfl⟩

/-- The iterator of that scan, and two threads: one with two calls of `next`, one with one. -/
def nextRace : NextPool soundStore :=
  .start
    (match (PyLevelDB.rangeIter_ (some 0) none upToB true).run pythonWorld with
    | .ok (_, w) => w
    | .error _ => pythonWorld)
    fun
    | 0 => [{}, {}]
    | 1 => [{}]
    | _ => []

/-- The second call of thread 0 tests `b`; in the comparator thread 1 takes `b`. -/
def nextSchedule : List (Nat × Threads.Move) :=
  [(0, .take), (0, .start), (0, .go), (0, .go), (0, .start), (0, .leave), (1, .take), (1, .start),
    (1, .go), (1, .go), (1, .drop), (0, .go), (0, .go)]

end PyLeveldb
