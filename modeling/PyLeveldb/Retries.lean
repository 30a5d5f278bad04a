import PyLeveldb.Residue
import PyLeveldb.RangeScan

/-!
# Calls of `next` without memory

Each of the three allocations of `next` may fail, in any call. `next_loses_nothing`: a call that
raises leaves the iterator where it is, so the calls that do not raise give exactly the scan.
-/

namespace PyLeveldb

variable {E : Env} {w : World E} {F : Fault → Prop}

open PyLevelDBIter (Item NextAllocs)

/-- One call of `next` for each of `as`, which says what allocations it makes. -/
def PyLevelDBIter.attempts (iter : Nat) : List NextAllocs → C E (List (Except Exn (Option Item)))
  | [] => return []
  | a :: as => do
    let r ← next iter a
    let rs ← attempts iter as
    return r :: rs

/-- What the calls return that do not raise. -/
def returned (rs : List (Except Exn (Option Item))) : List (Option Item) :=
  rs.filterMap Except.toOption

namespace Scan

/-- The same on the machine. -/
def attempts (s : Scan) : Option E.Iter → List NextAllocs → List (Except Exn (Option Item))
  | _, [] => []
  | st, a :: as => (s.attempt a st).1 :: s.attempts (s.attempt a st).2 as

variable {s : Scan}

/-- A call raises and stays where it is, or it is a call with memory. -/
theorem attempt_cases (s : Scan) (a : NextAllocs) (st : Option E.Iter) :
    (s.attempt a st = (.error .memoryError, st) ∧ s.affords a = false) ∨
      s.attempt a st = (.ok (s.next st).1, (s.next st).2) := by
  cases st with
  | none => exact .inr rfl
  | some it =>
    unfold attempt next
    by_cases hstop : s.stops it = true
    · simp [hstop]
    · cases ha : s.affords a <;> simp [hstop]

/-- **The calls that do not raise are the calls of the scan.** -/
theorem returned_attempts (s : Scan) (st : Option E.Iter) (as : List NextAllocs) :
    returned (s.attempts st as) = s.results st (returned (s.attempts st as)).length := by
  induction as generalizing st with
  | nil => rfl
  | cons a as ih =>
    rw [attempts]
    rcases attempt_cases s a st with ⟨ha, -⟩ | ha
    · rw [ha]
      exact ih st
    · rw [ha]
      exact congrArg _ (ih _)

/-- A call with memory does not raise. -/
theorem attempts_ok {as : List NextAllocs} {n : Nat} {a : NextAllocs} (hn : as[n]? = some a)
    (ha : s.affords a = true) (st : Option E.Iter) :
    ∃ x, (s.attempts st as)[n]? = some (.ok x) := by
  induction as generalizing n st with
  | nil => cases hn
  | cons b as ih =>
    cases n with
    | zero =>
      cases hn
      rcases attempt_cases s a st with ⟨-, hno⟩ | hok
      · rw [ha] at hno
        cases hno
      · exact ⟨_, by rw [attempts, hok]; rfl⟩
    | succ n => exact ih hn _

end Scan

/-- A run of calls is a run of the machine. -/
theorem attempts_scanning {i : Nat} {s : Scan} {st : Option E.Iter} (h : w.Scanning i s st)
    (as : List NextAllocs) :
    (PyLevelDBIter.attempts i as).wp (.alone F) (fun rs _ _ => rs = s.attempts st as) w () := by
  induction as generalizing w st with
  | nil => rfl
  | cons a as ih =>
    simp only [PyLevelDBIter.attempts, Prog.wp_bind]
    refine Prog.wp_mono (next_attempt h a) ?_
    rintro r w' _ ⟨rfl, h'⟩
    refine Prog.wp_mono (ih h') ?_
    rintro rs w'' _ rfl
    rfl

section

variable {D d : Nat} {r : PyLevelDB} {inst : LdbInstance E} {cmp : Bytes → Bytes → Int}
  {snapshot : Option Nat} {snap : Option E.Snap} {args : RangeArgs} {it : E.Iter} {db : E.Db}

/-- **A call of `next` that raises loses nothing.** It raises `MemoryError` and leaves the world as it
is; and on the iterator that `RangeIter` returns, whatever allocations fail in whatever calls, the
calls with memory do not raise, and those that do not raise return what the first calls of a scan
without failures do. -/
theorem next_loses_nothing {entries : List (Bytes × Bytes)} {At : E.Iter → Option Nat → Prop}
    {p : Option Nat} (hr : w.levelDBs.get D = some r) (ho : w.Opened r d cmp) (hne : r.refs ≠ [])
    (hd : w.dbs.get d = some inst) (hs : w.SnapshotAt d snapshot snap) (hargs : args.parses = true)
    (hit : E.newIterator ⟨args.verifyChecksums, args.fillCache, snap⟩ inst.db = (some it, db))
    (hc : Compares.Strict cmp) (hcur : IsCursor E cmp entries At) (hat : At it p) :
    (∀ (v v' : World E) (j : Nat) (a : NextAllocs) (e : Exn),
      (PyLevelDBIter.next j a).run v = .ok (.error e, v') → e = .memoryError ∧ v.Untouched v' j) ∧
    ∃ i w', (PyLevelDB.rangeIter_ (some D) snapshot args true).run w = .ok (.ok i, w') ∧
      ∀ as, ∃ rs w'', (PyLevelDBIter.attempts i as).run w' = .ok (rs, w'') ∧
        (∀ (n : Nat) (a : NextAllocs), as[n]? = some a → (Scan.ofArgs cmp args).affords a = true →
          ∃ x, rs[n]? = some (.ok x)) ∧
        returned rs = Cursor.calls (Scan.expected cmp args entries) (returned rs).length := by
  refine ⟨fun v v' j a e hrun => (Prog.wp_of_run (next_ends j a) hrun).raised e rfl, ?_⟩
  obtain ⟨i, w', hrun, hscan⟩ := rangeIter_scanning hr ho hne hd hs hargs hit
  refine ⟨i, w', hrun, fun as => ?_⟩
  obtain ⟨_, w'', hrun', rfl⟩ := Prog.wp_run (attempts_scanning hscan as)
  refine ⟨_, w'', hrun', fun n a hn ha => Scan.attempts_ok hn ha _, ?_⟩
  rw [← Scan.results_place hc.toCompares hcur hat, ← Scan.results_if_valid]
  exact Scan.returned_attempts _ _ as

end

/-- The entries from `b` on, in reverse. -/
theorem next_loses_nothing_sample :
    let args : RangeArgs := { keyFrom := some ⟨7, some [98]⟩, reverse := true }
    (∀ (v v' : World soundStore) (j : Nat) (a : NextAllocs) (e : Exn),
      (PyLevelDBIter.next j a).run v = .ok (.error e, v') → e = .memoryError ∧ v.Untouched v' j) ∧
    ∃ i w', (PyLevelDB.rangeIter_ (some 0) none args true).run
        (World.single sample .bytewise : World soundStore) = .ok (.ok i, w') ∧
      ∀ as, ∃ rs w'', (PyLevelDBIter.attempts i as).run w' = .ok (rs, w'') ∧
        (∀ (n : Nat) (a : NextAllocs), as[n]? = some a →
          (Scan.ofArgs compareBytes args).affords a = true → ∃ x, rs[n]? = some (.ok x)) ∧
        returned rs = Cursor.calls (Scan.expected compareBytes args sample) (returned rs).length :=
  next_loses_nothing rfl (single_opened rfl) (by decide) rfl (World.snapshotAt_none _ _) rfl rfl
    compareBytes_compares (memStore_isCursor sample_increasing) ⟨rfl, fun i hi => by cases hi⟩

end PyLeveldb
