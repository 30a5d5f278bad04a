import PyLeveldb.Scan
import PyLeveldb.MemStore

/-!
# What a range scan delivers

* `rangeIter_exact`: on a leveldb iterator that is a cursor over a list of entries (`IsCursor`), a
  scan delivers exactly the entries between its bounds, in its direction, and then ends for good.
* `rangeIter_reports`: whatever the leveldb iterator does, a scan that ends because the iterator
  failed is not told from one that ends at the end of the data.
-/

namespace PyLeveldb

variable {E : Env} {w : World E}

open PyLevelDBIter (Item)

/-- `leveldb::Iterator` with no I/O error: a cursor over `entries`, which increase under `cmp`.
`At it p`: it stands at `p`. -/
structure IsCursor (E : Env) (cmp : Bytes → Bytes → Int) (entries : List (Bytes × Bytes))
    (At : E.Iter → Option Nat → Prop) : Prop where
  increasing : Sorted.Increasing cmp Prod.fst entries
  valid : ∀ it p, At it p → E.valid it = p.isSome
  entry : ∀ it i, At it (some i) → entries[i]? = some (E.key it, E.value it)
  seekToFirst : ∀ it p, At it p → At (E.seekToFirst it) (Cursor.first entries)
  seekToLast : ∀ it p, At it p → At (E.seekToLast it) (Cursor.last entries)
  seek : ∀ k it p, At it p → At (E.seek k it) (Cursor.seek cmp Prod.fst k entries)
  next : ∀ it i, At it (some i) → At (E.next it) (Cursor.next entries i)
  prev : ∀ it i, At it (some i) → At (E.prev it) (Cursor.prev i)

namespace Scan

/-- What a scan makes of an entry. -/
def deliver (s : Scan) (e : Bytes × Bytes) : Item :=
  ⟨e.1, if s.includeValue then some e.2 else none⟩

/-- What a scan has yet to deliver, with `l` ahead of its cursor. -/
def rest (s : Scan) (l : List (Bytes × Bytes)) : List Item :=
  (l.takeWhile fun e => !s.past e.1).map s.deliver

theorem results_none (s : Scan) (k : Nat) :
    s.results (none : Option E.Iter) k = Cursor.calls [] k := by
  induction k with
  | zero => rfl
  | succ k ih => rw [results, next, ih, Cursor.calls_nil]

variable {entries : List (Bytes × Bytes)} {At : E.Iter → Option Nat → Prop} {s : Scan}

/-- **A scan over a cursor delivers what lies ahead of the cursor, up to the bound.** -/
theorem results_cursor (hcur : IsCursor E s.cmp entries At) {it : E.Iter} {p : Option Nat}
    (h : At it p) (k : Nat) :
    s.results (some it) k = Cursor.calls (s.rest (Cursor.ahead s.reverse entries p)) k := by
  induction k generalizing it p with
  | zero => rfl
  | succ k ih =>
    cases p with
    | none =>
      have hstop : s.stops it = true := by simp [stops, hcur.valid it none h]
      rw [results, next, if_pos hstop, results_none, Cursor.ahead_none]
      exact (Cursor.calls_nil k).symm
    | some i =>
      obtain ⟨hi, he⟩ := List.getElem?_eq_some_iff.mp (hcur.entry it i h)
      -- the entry under the cursor comes first
      obtain ⟨l, hl⟩ : ∃ l, Cursor.ahead s.reverse entries (some i) =
          (E.key it, E.value it) :: l := by
        have := Cursor.head?_ahead s.reverse hi
        rw [he] at this
        exact ⟨_, List.eq_cons_of_mem_head? this⟩
      have hv : E.valid it = true := hcur.valid it (some i) h
      by_cases hp : s.past (E.key it) = true
      · have hstop : s.stops it = true := by simp [stops, hp]
        have hrest : s.rest ((E.key it, E.value it) :: l) = [] := by
          rw [rest, List.takeWhile_cons_of_neg (by simp [hp]), List.map_nil]
        rw [results, next, if_pos hstop, results_none, hl, hrest, Cursor.calls_nil]
      · have hstop : ¬ s.stops it = true := by simp [stops, hp, hv]
        have hmove : At (s.move it) (Cursor.step s.reverse entries i) := by
          unfold move Cursor.step
          split
          · exact hcur.prev it i h
          · exact hcur.next it i h
        have htail : Cursor.ahead s.reverse entries (Cursor.step s.reverse entries i) = l := by
          rw [Cursor.ahead_step s.reverse hi, hl, List.tail_cons]
        have hrest : s.rest ((E.key it, E.value it) :: l) = s.item it :: s.rest l := by
          rw [rest, List.takeWhile_cons_of_pos (by simp [hp]), List.map_cons]
          rfl
        rw [results, next, if_neg hstop, ih hmove, htail, hl, hrest, Cursor.calls_cons]

/-- The entries that a scan is to deliver: those in the range, in its direction. -/
def expected (cmp : Bytes → Bytes → Int) (args : RangeArgs) (entries : List (Bytes × Bytes)) :
    List Item :=
  let l := Sorted.between cmp Prod.fst args.lo args.hi entries
  (if args.reverse then l.reverse else l).map (ofArgs cmp args).deliver

variable {cmp : Bytes → Bytes → Int}

/-- Where a scan begins, and what lies ahead there. -/
theorem place_cursor (hc : Compares cmp) (hcur : IsCursor E cmp entries At) {it : E.Iter}
    {p : Option Nat} (h : At it p) (reverse : Bool) (lo hi : Option Bytes) :
    ∃ p', At (place cmp reverse lo hi it) p' ∧ Cursor.ahead reverse entries p' =
      if reverse then
        (entries.takeWhile fun e => hi.all fun b => decide (cmp e.1 b ≤ 0)).reverse
      else entries.dropWhile fun e => !lo.all fun b => decide (cmp b e.1 ≤ 0) := by
  cases reverse with
  | false =>
    cases lo with
    | none =>
      refine ⟨_, hcur.seekToFirst it p h, ?_⟩
      rw [Cursor.ahead_first]
      exact (List.dropWhile_eq_self_iff.mpr fun _ => by simp).symm
    | some key => exact ⟨_, hcur.seek key it p h, Cursor.ahead_seek key entries⟩
  | true =>
    cases hi with
    | none =>
      refine ⟨_, hcur.seekToLast it p h, ?_⟩
      rw [Cursor.ahead_last, if_pos rfl]
      exact congrArg _ (List.takeWhile_eq_self_iff.mpr fun _ _ => rfl).symm
    | some key =>
      refine ⟨Cursor.floor cmp Prod.fst key entries, ?_, Cursor.ahead_floor hc hcur.increasing key⟩
      have hseek := hcur.seek key it p h
      have hv := hcur.valid _ _ hseek
      simp only [place, Bool.not_true, Bool.false_eq_true, ↓reduceIte, hv, Cursor.floor]
      cases hs : Cursor.seek cmp Prod.fst key entries with
      | none =>
        rw [hs] at hseek
        simpa using hcur.seekToLast _ _ hseek
      | some i =>
        rw [hs] at hseek
        have he := hcur.entry _ i hseek
        simp only [Option.isSome_some, Bool.not_true, Bool.false_eq_true, ↓reduceIte, he,
          Option.any_some, decide_eq_true_eq, ne_eq, ite_not]
        split
        · exact hseek
        · exact hcur.prev _ i hseek

/-- **A scan over a cursor, from its first position, delivers the range.** -/
theorem results_place (hc : Compares cmp) (hcur : IsCursor E cmp entries At) {it : E.Iter}
    {p : Option Nat} (h : At it p) (args : RangeArgs) (k : Nat) :
    (ofArgs cmp args).results (some (place cmp args.reverse args.lo args.hi it)) k =
      Cursor.calls (expected cmp args entries) k := by
  obtain ⟨p', hp', hahead⟩ := place_cursor hc hcur h args.reverse args.lo args.hi
  rw [results_cursor (s := ofArgs cmp args) hcur hp']
  have hrev : (ofArgs cmp args).reverse = args.reverse := rfl
  rw [hrev, hahead, rest, expected]
  congr 2
  have hpast : ∀ e : Bytes × Bytes, (!(ofArgs cmp args).past e.1) =
      if args.reverse then args.lo.all fun b => decide (cmp b e.1 ≤ 0)
      else args.hi.all fun b => decide (cmp e.1 b ≤ 0) := by
    intro e
    have hflip := hc.flip
    cases hrev : args.reverse with
    | false =>
      cases hto : args.keyTo with
      | none => simp [ofArgs, past, PyLevelDB.scanBound, RangeArgs.hi, hrev, hto]
      | some b =>
        have := hflip b.bytes e.1
        simp only [ofArgs, past, PyLevelDB.scanBound, RangeArgs.hi, hrev, hto, Option.map_some,
          Bool.false_eq_true, ↓reduceIte, Option.any_some, Option.all_some]
        rw [← decide_not, decide_eq_decide]
        omega
    | true =>
      cases hfrom : args.keyFrom with
      | none => simp [ofArgs, past, PyLevelDB.scanBound, RangeArgs.lo, hrev, hfrom]
      | some b =>
        simp only [ofArgs, past, PyLevelDB.scanBound, RangeArgs.lo, hrev, hfrom, Option.map_some,
          ↓reduceIte, Option.any_some, Option.all_some]
        rw [← decide_not, decide_eq_decide]
        omega
  simp only [hpast]
  cases args.reverse with
  | false =>
    simp only [Bool.false_eq_true, ↓reduceIte]
    exact Sorted.walk_up hc hcur.increasing args.lo args.hi
  | true =>
    simp only [↓reduceIte]
    exact Sorted.walk_down hc hcur.increasing args.lo args.hi

end Scan

/-! ## The store in memory -/

/-- A cursor of the store in memory, without bad entries. -/
theorem memStore_isCursor {cmp : Bytes → Bytes → Int} {entries : List (Bytes × Bytes)}
    (hl : Sorted.Increasing cmp Prod.fst entries) :
    IsCursor (memStore cmp fun _ => false) cmp entries fun it p =>
      it = ⟨entries, p, false⟩ ∧ ∀ i, p = some i → i < entries.length := by
  have hland : ∀ (it : MemIter) p, it.land (fun _ => false) p = ⟨it.entries, p, false⟩ := by
    intro it p
    simp [MemIter.land]
  refine ⟨hl, ?_, ?_, ?_, ?_, ?_, ?_, ?_⟩
  · rintro _ p ⟨rfl, -⟩
    rfl
  · rintro _ i ⟨rfl, hi⟩
    have hi := hi i rfl
    show entries[i]? = some ((Option.elim (entries[i]?) [] Prod.fst),
      (Option.elim (entries[i]?) [] Prod.snd))
    rw [List.getElem?_eq_getElem hi]
    rfl
  · rintro _ p ⟨rfl, -⟩
    exact ⟨hland _ _, fun i => Cursor.first_lt⟩
  · rintro _ p ⟨rfl, -⟩
    exact ⟨hland _ _, fun i => Cursor.last_lt⟩
  · rintro k _ p ⟨rfl, -⟩
    exact ⟨hland _ _, fun i => Cursor.seek_lt⟩
  · rintro _ i ⟨rfl, -⟩
    exact ⟨hland _ _, fun j => Cursor.next_lt⟩
  · rintro _ i ⟨rfl, hi⟩
    exact ⟨hland _ _, fun j hj => Nat.lt_trans (Cursor.prev_lt hj) (hi i rfl)⟩

theorem sample_increasing : Sorted.Increasing compareBytes Prod.fst sample := by
  unfold Sorted.Increasing
  decide

/-- The object of `World.single` is open. -/
theorem single_opened {cmp : Bytes → Bytes → Int} {db : E.Db} {c : CmpPtr}
    (h : (World.single db c).Computes c cmp) :
    (World.single db c).Opened ⟨some 0, some 0, some 0, some c, 0, 0, [.env]⟩ 0 cmp :=
  ⟨rfl, ⟨_, rfl⟩, 0, _, rfl, rfl, h⟩

/-! ## Results -/

section

variable {D d : Nat} {r : PyLevelDB} {inst : LdbInstance E} {cmp : Bytes → Bytes → Int}
  {snapshot : Option Nat} {snap : Option E.Snap} {args : RangeArgs} {it : E.Iter} {db : E.Db}

/-- An empty iterator object, and a cursor that is invalid from the start: both end at once. -/
theorem Scan.results_if_valid (s : Scan) (c : E.Iter) (k : Nat) :
    s.results (if E.valid c then some c else none) k = s.results (some c) k := by
  by_cases hv : E.valid c = true
  · simp only [hv, ↓reduceIte]
  · have hstop : s.stops c = true := by simp [Scan.stops, hv]
    simp only [hv, Bool.false_eq_true, ↓reduceIte]
    cases k with
    | zero => rfl
    | succ k => simp only [Scan.results, Scan.next, hstop, ↓reduceIte]

/-- `RangeIter` returns an iterator object at the first state of its scan. -/
theorem rangeIter_scanning (hr : w.levelDBs.get D = some r) (ho : w.Opened r d cmp)
    (hne : r.refs ≠ []) (hd : w.dbs.get d = some inst) (hs : w.SnapshotAt d snapshot snap)
    (hargs : args.parses = true)
    (hit : E.newIterator ⟨args.verifyChecksums, args.fillCache, snap⟩ inst.db = (some it, db)) :
    ∃ i w', (PyLevelDB.rangeIter_ (some D) snapshot args true).run w = .ok (.ok i, w') ∧
      w'.Scanning i (.ofArgs cmp args)
        (let c := Scan.place cmp args.reverse args.lo args.hi it
        if E.valid c then some c else none) := by
  have hwp : (PyLevelDB.rangeIter_ (some D) snapshot args true).wp (.alone fun _ => False)
      (fun res w' _ => ∃ i, res = .ok i ∧ w'.Scanning i (.ofArgs cmp args)
        (let c := Scan.place cmp args.reverse args.lo args.hi it
        if E.valid c then some c else none)) w () :=
    wp_rangeIter_ hr ho hd hs hargs hit fun e o c => ⟨_, rfl, ranged_scanning ho hne⟩
  obtain ⟨_, w', hrun, i, rfl, hscan⟩ := Prog.wp_run hwp
  exact ⟨i, w', hrun, hscan⟩

/-- `RangeIter`, and then `k` calls of `next`: what the calls return. -/
theorem rangeIter_results (hr : w.levelDBs.get D = some r) (ho : w.Opened r d cmp)
    (hne : r.refs ≠ []) (hd : w.dbs.get d = some inst) (hs : w.SnapshotAt d snapshot snap)
    (hargs : args.parses = true)
    (hit : E.newIterator ⟨args.verifyChecksums, args.fillCache, snap⟩ inst.db = (some it, db)) :
    ∃ i w', (PyLevelDB.rangeIter_ (some D) snapshot args true).run w = .ok (.ok i, w') ∧
      ∀ k, ∃ w'', (PyLevelDBIter.nexts i k).run w' =
        .ok (((Scan.ofArgs cmp args).results
          (some (Scan.place cmp args.reverse args.lo args.hi it)) k).map .ok, w'') := by
  obtain ⟨i, w', hrun, hscan⟩ := rangeIter_scanning hr ho hne hd hs hargs hit
  refine ⟨i, w', hrun, fun k => ?_⟩
  obtain ⟨rs, w'', hrun', hres⟩ := Prog.wp_run (nexts_scanning hscan k)
  refine ⟨w'', ?_⟩
  rw [hrun', hres, Scan.results_if_valid]

/-- **A range scan is exact.** On a LevelDB object that is open, with a comparator that is an order
and a leveldb iterator that is a cursor over `entries`: `RangeIter` succeeds, and the first `k` calls
of `next`, for every `k`, return the entries within the bounds in the direction of the scan, one
each, and then the end. -/
theorem rangeIter_exact {entries : List (Bytes × Bytes)} {At : E.Iter → Option Nat → Prop}
    {p : Option Nat} (hr : w.levelDBs.get D = some r) (ho : w.Opened r d cmp) (hne : r.refs ≠ [])
    (hd : w.dbs.get d = some inst) (hs : w.SnapshotAt d snapshot snap) (hargs : args.parses = true)
    (hit : E.newIterator ⟨args.verifyChecksums, args.fillCache, snap⟩ inst.db = (some it, db))
    (hc : Compares.Strict cmp) (hcur : IsCursor E cmp entries At) (hat : At it p) :
    ∃ i w', (PyLevelDB.rangeIter_ (some D) snapshot args true).run w = .ok (.ok i, w') ∧
      ∀ k, ∃ w'', (PyLevelDBIter.nexts i k).run w' =
        .ok ((Cursor.calls (Scan.expected cmp args entries) k).map .ok, w'') := by
  obtain ⟨i, w', hrun, hnexts⟩ := rangeIter_results hr ho hne hd hs hargs hit
  refine ⟨i, w', hrun, fun k => ?_⟩
  obtain ⟨w'', hrun'⟩ := hnexts k
  exact ⟨w'', by rw [hrun', Scan.results_place hc.toCompares hcur hat]⟩

end

/-- The entries from `b` on, in reverse. -/
theorem rangeIter_exact_sample :
    ∃ i w', (PyLevelDB.rangeIter_ (some 0) none
        { keyFrom := some ⟨7, some [98]⟩, reverse := true } true).run
          (World.single sample .bytewise : World (memStore compareBytes fun _ => false)) =
        .ok (.ok i, w') ∧
      ∀ k, ∃ w'', (PyLevelDBIter.nexts i k).run w' =
        .ok ((Cursor.calls (Scan.expected compareBytes
          { keyFrom := some ⟨7, some [98]⟩, reverse := true } sample) k).map .ok, w'') :=
  rangeIter_exact rfl (single_opened rfl) (by decide) rfl (World.snapshotAt_none _ _) rfl rfl
    compareBytes_compares (memStore_isCursor sample_increasing) ⟨rfl, fun i hi => by cases hi⟩

example : Scan.expected compareBytes { keyFrom := some ⟨7, some [98]⟩, reverse := true } sample =
    [⟨[99], some [3]⟩, ⟨[98], some [2]⟩] := by decide

/-! ## Scans on an iterator that may fail -/

namespace Scan

/-- The cursor that the `n`-th call of `next` tests. -/
def cursor (s : Scan) (it : E.Iter) : Nat → E.Iter
  | 0 => it
  | n + 1 => s.move (s.cursor it n)

/-- The `n`-th call of `next` is the first one where the scan is over. -/
def EndsAt (s : Scan) (it : E.Iter) (n : Nat) : Prop :=
  s.stops (s.cursor it n) = true ∧ ∀ m < n, s.stops (s.cursor it m) = false

/-- What a caller is to see of a scan that begins at the cursor `it`: of the result `r` of
`RangeIter`, and of the results `rs` of `next`. An empty iterator object or the end of the iteration
means that the leveldb iterator is well, and else its status is raised. -/
structure Reports (s : Scan) (it : E.Iter) (r : Except Exn Nat)
    (rs : List (Except Exn (Option Item))) : Prop where
  start : E.valid it = false →
    if (E.status it).isOk then ∃ i, r = .ok i
    else r = .error (.levelDBError (E.status it).toString)
  next : E.valid it = true → ∀ n < rs.length, s.EndsAt it n →
    rs[n]? = some (if (E.status (s.cursor it n)).isOk then .ok none
      else .error (.levelDBError (E.status (s.cursor it n)).toString))

theorem length_results (s : Scan) (st : Option E.Iter) (k : Nat) :
    (s.results st k).length = k := by
  induction k generalizing st with
  | zero => rfl
  | succ k ih => rw [results, List.length_cons, ih]

theorem cursor_move (s : Scan) (it : E.Iter) (n : Nat) :
    s.cursor (s.move it) n = s.cursor it (n + 1) := by
  induction n with
  | zero => rfl
  | succ n ih =>
    rw [cursor, ih]
    rfl

/-- Where a scan is over, its call returns the end. -/
theorem results_endsAt {s : Scan} {it : E.Iter} {n k : Nat} (hn : n < k) (h : s.EndsAt it n) :
    (s.results (some it) k)[n]? = some none := by
  induction n generalizing it k with
  | zero =>
    obtain ⟨k, rfl⟩ := Nat.exists_eq_add_of_lt hn
    have hstop : s.stops it = true := h.1
    rw [results, next, if_pos hstop]
    rfl
  | succ n ih =>
    have hstop : ¬ s.stops it = true := by simp [show s.stops it = false from h.2 0 (by omega)]
    have h' : s.EndsAt (s.move it) n := by
      refine ⟨by rw [cursor_move]; exact h.1, fun m hm => ?_⟩
      rw [cursor_move]
      exact h.2 (m + 1) (by omega)
    obtain ⟨k, rfl⟩ := Nat.exists_eq_add_of_lt hn
    rw [results, next, if_neg hstop, List.getElem?_cons_succ]
    exact ih (by omega) h'

end Scan

section

variable {D d : Nat} {r : PyLevelDB} {inst : LdbInstance E} {cmp : Bytes → Bytes → Int}
  {snapshot : Option Nat} {snap : Option E.Snap} {args : RangeArgs} {it : E.Iter} {db : E.Db}

/-- **When a scan reports what it should.** Whatever the leveldb iterator does: exactly when its
status is OK at the cursor where the scan is over, if the calls reach it. -/
theorem rangeIter_reports (hr : w.levelDBs.get D = some r) (ho : w.Opened r d cmp)
    (hne : r.refs ≠ []) (hd : w.dbs.get d = some inst) (hs : w.SnapshotAt d snapshot snap)
    (hargs : args.parses = true)
    (hit : E.newIterator ⟨args.verifyChecksums, args.fillCache, snap⟩ inst.db = (some it, db))
    (k : Nat) :
    let s := Scan.ofArgs cmp args
    let start := Scan.place cmp args.reverse args.lo args.hi it
    ∃ res w' rs w'', (PyLevelDB.rangeIter_ (some D) snapshot args true).run w = .ok (res, w') ∧
      (∀ i, res = .ok i → (PyLevelDBIter.nexts i k).run w' = .ok (rs, w'')) ∧
      (s.Reports start res rs ↔
        ∀ n, n < k ∨ E.valid start = false → s.EndsAt start n →
          (E.status (s.cursor start n)).isOk = true) := by
  intro s start
  obtain ⟨i, w', hrun, hnexts⟩ := rangeIter_results hr ho hne hd hs hargs hit
  obtain ⟨w'', hrun'⟩ := hnexts k
  refine ⟨.ok i, w', _, w'', hrun, fun j hj => by cases hj; exact hrun', ?_⟩
  constructor
  · intro h n hn hend
    by_contra hbad
    by_cases hv : E.valid start = true
    · have hnk : n < k := hn.resolve_right (by simp [hv])
      have := h.next hv n (by simpa [Scan.length_results] using hnk) hend
      rw [List.getElem?_map, Scan.results_endsAt hnk hend, if_neg hbad] at this
      cases this
    · -- the first cursor is where the scan is over
      have hv : E.valid start = false := by simpa using hv
      have hn0 : n = 0 := by
        by_contra h0
        have := hend.2 0 (by omega)
        simp [Scan.stops, Scan.cursor, hv] at this
      subst hn0
      have hbad : ¬ (E.status start).isOk = true := hbad
      have := h.start hv
      rw [if_neg hbad] at this
      cases this
  · intro h
    refine ⟨fun hv => ?_, fun hv n hn hend => ?_⟩
    · have hend : s.EndsAt start 0 := ⟨by simp [Scan.stops, Scan.cursor, hv], by omega⟩
      have hok : (E.status start).isOk = true := h 0 (.inr hv) hend
      rw [if_pos hok]
      exact ⟨i, rfl⟩
    · have hnk : n < k := by simpa [Scan.length_results] using hn
      rw [List.getElem?_map, Scan.results_endsAt hnk hend, if_pos (h n (.inl hnk) hend)]
      rfl

/-- A store that cannot read the entry at `b`. -/
abbrev brokenStore : Env := memStore compareBytes (· == [98])

/-- The three entries in it. -/
def brokenWorld : World brokenStore := .single sample .bytewise

theorem brokenWorld_opened :
    brokenWorld.Opened ⟨some 0, some 0, some 0, some .bytewise, 0, 0, [.env]⟩ 0 compareBytes :=
  single_opened rfl

/-- A scan from the first entry on: one call delivers, the next one meets the failed iterator. -/
theorem rangeIter_reports_broken :
    let s := Scan.ofArgs compareBytes {}
    let start : brokenStore.Iter := ⟨sample, some 0, false⟩
    ∃ res w' rs w'', (PyLevelDB.rangeIter_ (some 0) none {} true).run brokenWorld =
        .ok (res, w') ∧
      (∀ i, res = .ok i → (PyLevelDBIter.nexts i 2).run w' = .ok (rs, w'')) ∧
      (s.Reports start res rs ↔
        ∀ n, n < 2 ∨ brokenStore.valid start = false → s.EndsAt start n →
          (brokenStore.status (s.cursor start n)).isOk = true) :=
  rangeIter_reports rfl brokenWorld_opened (by decide) rfl (World.snapshotAt_none _ _) rfl rfl 2

/-- **A scan that fails half way looks complete.** -/
theorem rangeIter_hides_failure :
    ∃ w' w'', (PyLevelDB.rangeIter_ (some 0) none {} true).run brokenWorld = .ok (.ok 0, w') ∧
      (PyLevelDBIter.nexts 0 2).run w' = .ok ([.ok (some ⟨[97], some [1]⟩), .ok none], w'') ∧
      ¬ @Scan.Reports brokenStore (Scan.ofArgs compareBytes {}) ⟨sample, some 0, false⟩ (.ok 0)
        [.ok (some ⟨[97], some [1]⟩), .ok none] := by
  refine ⟨_, _, rfl, rfl, fun h => ?_⟩
  have := h.next rfl 1 (by decide) ⟨by decide, by decide⟩
  exact absurd this (by decide)

end

end PyLeveldb
