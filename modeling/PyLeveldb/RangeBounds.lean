import PyLeveldb.RangeScan

/-!
# Bounds on an iterator that fails and recovers

`IsFailingCursor`: a leveldb iterator each of whose operations may fail, and leave it invalid, while a
later one succeeds. `rangeIter_inRange` says when the keys that a scan on it delivers are within its
bounds: always, but for a scan in reverse whose `Seek` to the upper bound fails. The code takes the
invalid iterator for one past the end, and starts at the last entry.
-/

namespace PyLeveldb

variable {E : Env} {w : World E}

open PyLevelDBIter (Item)

/-- An operation that should leave the iterator at `q` has left it as `it`. -/
def Lands (At : E.Iter → Option Nat → Prop) (it : E.Iter) (q : Option Nat) : Prop :=
  At it q ∨ At it none ∧ (E.status it).isOk = false

theorem Lands.exists_at {At : E.Iter → Option Nat → Prop} {it : E.Iter} {q : Option Nat}
    (h : Lands At it q) : ∃ p, At it p := by
  rcases h with h | ⟨h, -⟩
  · exact ⟨q, h⟩
  · exact ⟨none, h⟩

/-- `leveldb::Iterator` with I/O errors that may go away: a cursor over `entries`, which increase
under `cmp`, each of whose operations may fail. -/
structure IsFailingCursor (E : Env) (cmp : Bytes → Bytes → Int) (entries : List (Bytes × Bytes))
    (At : E.Iter → Option Nat → Prop) : Prop where
  increasing : Sorted.Increasing cmp Prod.fst entries
  valid : ∀ it p, At it p → E.valid it = p.isSome
  entry : ∀ it i, At it (some i) → entries[i]? = some (E.key it, E.value it)
  seekToFirst : ∀ it p, At it p → Lands At (E.seekToFirst it) (Cursor.first entries)
  seekToLast : ∀ it p, At it p → Lands At (E.seekToLast it) (Cursor.last entries)
  seek : ∀ k it p, At it p → Lands At (E.seek k it) (Cursor.seek cmp Prod.fst k entries)
  next : ∀ it i, At it (some i) → Lands At (E.next it) (Cursor.next entries i)
  prev : ∀ it i, At it (some i) → Lands At (E.prev it) (Cursor.prev i)

namespace RangeArgs

variable {cmp : Bytes → Bytes → Int} {args : RangeArgs} {key : Bytes}

/-- The key is within the bounds. -/
def InRange (cmp : Bytes → Bytes → Int) (args : RangeArgs) (key : Bytes) : Prop :=
  (∀ b, args.lo = some b → cmp b key ≤ 0) ∧ ∀ b, args.hi = some b → cmp key b ≤ 0

/-- The key is within the bound at which the scan begins. -/
def Begins (cmp : Bytes → Bytes → Int) (args : RangeArgs) (key : Bytes) : Prop :=
  if args.reverse then ∀ b, args.hi = some b → cmp key b ≤ 0
  else ∀ b, args.lo = some b → cmp b key ≤ 0

/-- The bound test is about the other bound. -/
theorem past_eq_false_iff (hc : Compares cmp) : (Scan.ofArgs cmp args).past key = false ↔
    if args.reverse then ∀ b, args.lo = some b → cmp b key ≤ 0
    else ∀ b, args.hi = some b → cmp key b ≤ 0 := by
  have hpast : (Scan.ofArgs cmp args).past key =
      (PyLevelDB.scanBound args.reverse args.lo args.hi).any fun b =>
        if args.reverse then decide (0 < cmp b key) else decide (cmp b key < 0) := rfl
  rw [hpast]
  cases args.reverse with
  | false =>
    cases args.hi with
    | none => simp [PyLevelDB.scanBound]
    | some b => simp [PyLevelDB.scanBound, hc.le_iff key b]
  | true =>
    cases args.lo with
    | none => simp [PyLevelDB.scanBound]
    | some b => simp [PyLevelDB.scanBound]

/-- Each of the two mechanisms keeps one bound. -/
theorem inRange_iff (hc : Compares cmp) :
    args.InRange cmp key ↔ args.Begins cmp key ∧ (Scan.ofArgs cmp args).past key = false := by
  rw [past_eq_false_iff hc]
  unfold InRange Begins
  cases args.reverse with
  | false => exact Iff.rfl
  | true => exact and_comm

end RangeArgs

namespace IsFailingCursor

variable {cmp : Bytes → Bytes → Int} {entries : List (Bytes × Bytes)}
  {At : E.Iter → Option Nat → Prop} {args : RangeArgs} {it : E.Iter} {p q : Option Nat} {i : Nat}

/-- A valid iterator is where it should be. -/
theorem at_of_valid (hcur : IsFailingCursor E cmp entries At) (h : Lands At it q)
    (hv : E.valid it = true) : ∃ i, q = some i ∧ At it (some i) := by
  rcases h with h | ⟨h, -⟩
  · have := hcur.valid it q h
    rw [hv] at this
    obtain ⟨i, rfl⟩ := Option.isSome_iff_exists.mp this.symm
    exact ⟨i, rfl, h⟩
  · have := hcur.valid it none h
    rw [hv] at this
    cases this

/-- An invalid iterator is nowhere. -/
theorem at_none (hcur : IsFailingCursor E cmp entries At) (h : Lands At it q)
    (hv : E.valid it = false) : At it none := by
  rcases h with h | ⟨h, -⟩
  · cases q with
    | none => exact h
    | some i =>
      have := hcur.valid it (some i) h
      rw [hv] at this
      cases this
  · exact h

theorem move (hcur : IsFailingCursor E cmp entries At) (s : Scan) (h : At it (some i)) :
    Lands At (s.move it) (Cursor.step s.reverse entries i) := by
  unfold Scan.move Cursor.step
  split
  · exact hcur.prev it i h
  · exact hcur.next it i h

end IsFailingCursor

namespace Scan

variable {cmp : Bytes → Bytes → Int} {entries : List (Bytes × Bytes)}
  {At : E.Iter → Option Nat → Prop} {args : RangeArgs} {it : E.Iter} {p : Option Nat} {i j : Nat}

/-- Entries further on keep to the bound at which the scan began. -/
theorem begins_step (hc : Compares cmp) (hl : Sorted.Increasing cmp Prod.fst entries)
    {a b : Bytes × Bytes} (ha : entries[i]? = some a) (hb : entries[j]? = some b)
    (hij : Cursor.step args.reverse entries i = some j) (h : args.Begins cmp a.1) :
    args.Begins cmp b.1 := by
  obtain ⟨hi, rfl⟩ := List.getElem?_eq_some_iff.mp ha
  obtain ⟨hj, rfl⟩ := List.getElem?_eq_some_iff.mp hb
  unfold RangeArgs.Begins at h ⊢
  cases hrev : args.reverse with
  | false =>
    simp only [hrev, Bool.false_eq_true, ↓reduceIte, Cursor.step, Cursor.next] at h hij ⊢
    have hlt : i < j := by
      split at hij
      · cases hij
        omega
      · cases hij
    intro lo hlo
    have hab := List.pairwise_iff_getElem.mp hl i j hi hj hlt
    exact Int.le_of_lt (hc.lt_of_le_of_lt (h lo hlo) hab)
  | true =>
    simp only [hrev, ↓reduceIte, Cursor.step, Cursor.prev] at h hij ⊢
    have hlt : j < i := by
      split at hij
      · cases hij
      · cases hij
        omega
    intro hi' hhi
    have hab := List.pairwise_iff_getElem.mp hl j i hj hi hlt
    exact Int.le_of_lt (hc.lt_of_lt_of_le hab (h hi' hhi))

/-- **A scan that begins within its first bound, or does not begin, stays in range.** -/
theorem results_inRange (hc : Compares cmp) (hcur : IsFailingCursor E cmp entries At)
    (h : At it p) (hb : (ofArgs cmp args).stops it = false → args.Begins cmp (E.key it)) (k : Nat)
    {item : Item} (hm : some item ∈ (ofArgs cmp args).results (some it) k) :
    args.InRange cmp item.key := by
  induction k generalizing it p with
  | zero => cases hm
  | succ k ih =>
    rw [results, next] at hm
    by_cases hstop : (ofArgs cmp args).stops it = true
    · rw [if_pos hstop, results_none] at hm
      simp [Cursor.calls] at hm
    · have hstop : (ofArgs cmp args).stops it = false := by simpa using hstop
      rw [if_neg (by simp [hstop])] at hm
      obtain ⟨hv, hpast⟩ : E.valid it = true ∧ (ofArgs cmp args).past (E.key it) = false := by
        simpa [stops] using hstop
      rcases List.mem_cons.mp hm with heq | hm
      · cases heq
        exact (RangeArgs.inRange_iff hc).mpr ⟨hb hstop, hpast⟩
      · obtain ⟨i, rfl, hi⟩ := hcur.at_of_valid (.inl h) hv
        have hmove := hcur.move (ofArgs cmp args) hi
        obtain ⟨q, hq⟩ := Lands.exists_at hmove
        refine ih hq (fun hgo => ?_) hm
        have hv' : E.valid ((ofArgs cmp args).move it) = true := by
          simp only [stops, Bool.or_eq_false_iff, Bool.not_eq_eq_eq_not, Bool.not_false] at hgo
          exact hgo.1
        obtain ⟨j, hij, hj⟩ := hcur.at_of_valid hmove hv'
        exact begins_step hc hcur.increasing (hcur.entry _ _ hi) (hcur.entry _ _ hj) hij (hb hstop)

end Scan

/-- `Seek` to the upper bound fails, while `SeekToLast` finds the last entry: it is above the upper
bound, and not below the lower one. -/
def RangeArgs.Strays (cmp : Bytes → Bytes → Int) (args : RangeArgs) (entries : List (Bytes × Bytes))
    (it : E.Iter) : Prop :=
  args.reverse = true ∧ ∃ b e, args.hi = some b ∧ E.valid (E.seek b it) = false ∧
    E.valid (E.seekToLast (E.seek b it)) = true ∧ entries.getLast? = some e ∧ 0 < cmp e.1 b ∧
    ∀ a, args.lo = some a → cmp a e.1 ≤ 0

namespace Scan

variable {cmp : Bytes → Bytes → Int} {entries : List (Bytes × Bytes)}
  {At : E.Iter → Option Nat → Prop} {args : RangeArgs} {it : E.Iter} {p : Option Nat} {i : Nat}

/-- The last entry, by its index. -/
theorem getElem?_last (h : Cursor.last entries = some i) : entries[i]? = entries.getLast? := by
  unfold Cursor.last at h
  split at h
  · cases h
  · cases h
    exact List.getLast?_eq_getElem?.symm

/-- The entry at or above a key. -/
theorem seek_entry {key : Bytes} {e : Bytes × Bytes}
    (h : Cursor.seek cmp Prod.fst key entries = some i) (he : entries[i]? = some e) :
    cmp key e.1 ≤ 0 := by
  obtain ⟨hi, hk, -⟩ := List.findIdx?_eq_some_iff_getElem.mp h
  obtain ⟨-, rfl⟩ := List.getElem?_eq_some_iff.mp he
  simpa using hk

/-- The entry before it. -/
theorem seek_before (hc : Compares cmp) {key : Bytes} {j : Nat} {e : Bytes × Bytes}
    (h : Cursor.seek cmp Prod.fst key entries = some i) (hj : Cursor.prev i = some j)
    (he : entries[j]? = some e) : cmp e.1 key < 0 := by
  obtain ⟨hi, -, hbefore⟩ := List.findIdx?_eq_some_iff_getElem.mp h
  obtain ⟨hlt, rfl⟩ := List.getElem?_eq_some_iff.mp he
  have hji : j < i := by
    unfold Cursor.prev at hj
    split at hj
    · cases hj
    · cases hj
      omega
  rw [hc.lt_iff]
  simpa using hbefore j hji

/-- Where the cursor of a scan is placed, it is within the bound at which the scan begins; or the
scan is over there, or the last entry strays. -/
theorem place_begins (hc : Compares cmp) (hcur : IsFailingCursor E cmp entries At) (h : At it p)
    (hs : ¬ args.Strays cmp entries it) :
    ∃ q, At (place cmp args.reverse args.lo args.hi it) q ∧
      ((ofArgs cmp args).stops (place cmp args.reverse args.lo args.hi it) = false →
        args.Begins cmp (E.key (place cmp args.reverse args.lo args.hi it))) := by
  have hvalid : ∀ c : E.Iter, (ofArgs cmp args).stops c = false →
      E.valid c = true ∧ (ofArgs cmp args).past (E.key c) = false := by
    intro c hc
    simpa [stops] using hc
  cases hrev : args.reverse with
  | false =>
    cases hlo : args.lo with
    | none =>
      obtain ⟨q, hq⟩ := (hcur.seekToFirst it p h).exists_at
      refine ⟨q, hq, fun _ => ?_⟩
      simp [RangeArgs.Begins, hrev, hlo]
    | some key =>
      have hseek := hcur.seek key it p h
      obtain ⟨q, hq⟩ := hseek.exists_at
      refine ⟨q, hq, fun hgo => ?_⟩
      obtain ⟨i, hi, hat⟩ := hcur.at_of_valid hseek (hvalid _ hgo).1
      have hle : cmp key (E.key (E.seek key it)) ≤ 0 := seek_entry hi (hcur.entry _ _ hat)
      simp only [RangeArgs.Begins, hrev, Bool.false_eq_true, ↓reduceIte, hlo, Option.some.injEq]
      rintro _ rfl
      exact hle
  | true =>
    cases hhi : args.hi with
    | none =>
      obtain ⟨q, hq⟩ := (hcur.seekToLast it p h).exists_at
      refine ⟨q, hq, fun _ => ?_⟩
      simp [RangeArgs.Begins, hrev, hhi]
    | some key =>
      have hseek := hcur.seek key it p h
      have hbegins : ∀ c : E.Iter, args.Begins cmp (E.key c) ↔ cmp (E.key c) key ≤ 0 := by
        simp [RangeArgs.Begins, hrev, hhi]
      simp only [hbegins]
      cases hv : E.valid (E.seek key it) with
      | false =>
        have hlast := hcur.seekToLast _ _ (hcur.at_none hseek hv)
        obtain ⟨q, hq⟩ := hlast.exists_at
        simp only [place, hv, Bool.not_true, Bool.not_false, Bool.false_eq_true, ↓reduceIte]
        refine ⟨q, hq, fun hgo => ?_⟩
        obtain ⟨hv', hpast⟩ := hvalid _ hgo
        obtain ⟨i, hi, hat⟩ := hcur.at_of_valid hlast hv'
        have he := hcur.entry _ _ hat
        rw [getElem?_last hi] at he
        by_contra hlt
        have hlt : 0 < cmp (E.key (E.seekToLast (E.seek key it))) key := by omega
        refine hs ⟨hrev, key, _, hhi, hv, hv', he, hlt, ?_⟩
        simpa [hrev] using (RangeArgs.past_eq_false_iff hc).mp hpast
      | true =>
        obtain ⟨i, hi, hat⟩ := hcur.at_of_valid hseek hv
        have he := hcur.entry _ _ hat
        have hle := seek_entry hi he
        simp only [place, hv, Bool.not_true, Bool.false_eq_true, ↓reduceIte, ne_eq, ite_not]
        by_cases h0 : cmp key (E.key (E.seek key it)) = 0
        · simp only [h0, ↓reduceIte]
          refine ⟨_, hat, fun _ => ?_⟩
          exact Int.le_of_eq ((hc.zero_iff _ _).mp h0)
        · simp only [h0, ↓reduceIte]
          have hprev := hcur.prev _ i hat
          obtain ⟨q, hq⟩ := hprev.exists_at
          refine ⟨q, hq, fun hgo => ?_⟩
          obtain ⟨j, hj, hat'⟩ := hcur.at_of_valid hprev (hvalid _ hgo).1
          exact Int.le_of_lt (seek_before hc hi hj (hcur.entry _ _ hat'))

/-- The entry that strays is delivered first. -/
theorem results_strays (hc : Compares cmp) (hcur : IsFailingCursor E cmp entries At) (h : At it p)
    (hs : args.Strays cmp entries it) :
    ∃ item, some item ∈ (ofArgs cmp args).results
      (some (place cmp args.reverse args.lo args.hi it)) 1 ∧ ¬ args.InRange cmp item.key := by
  obtain ⟨hrev, b, e, hhi, hv, hv', hlast, habove, hlo⟩ := hs
  have hplace : place cmp args.reverse args.lo args.hi it = E.seekToLast (E.seek b it) := by
    simp [place, hrev, hhi, hv]
  have hland := hcur.seekToLast _ _ (hcur.at_none (hcur.seek b it p h) hv)
  obtain ⟨i, hi, hat⟩ := hcur.at_of_valid hland hv'
  have hkey : E.key (E.seekToLast (E.seek b it)) = e.1 := by
    have he := hcur.entry _ _ hat
    rw [getElem?_last hi, hlast] at he
    cases he
    rfl
  have hpast : (ofArgs cmp args).past (E.key (E.seekToLast (E.seek b it))) = false := by
    rw [RangeArgs.past_eq_false_iff hc, hrev, if_pos rfl, hkey]
    exact hlo
  rw [hplace]
  refine ⟨(ofArgs cmp args).item (E.seekToLast (E.seek b it)), ?_, fun hin => ?_⟩
  · simp [results, next, stops, hv', hpast]
  · have : cmp (E.key (E.seekToLast (E.seek b it))) b ≤ 0 := hin.2 b hhi
    rw [hkey] at this
    omega

end Scan

/-! ## Results -/

/-- **When a scan stays in its range, whatever operations of the leveldb iterator fail**: always, but
where the last entry strays. -/
theorem rangeIter_inRange {D d : Nat} {r : PyLevelDB} {inst : LdbInstance E}
    {cmp : Bytes → Bytes → Int} {snapshot : Option Nat} {snap : Option E.Snap} {args : RangeArgs}
    {it : E.Iter} {db : E.Db} {entries : List (Bytes × Bytes)} {At : E.Iter → Option Nat → Prop}
    {p : Option Nat} (hr : w.levelDBs.get D = some r) (ho : w.Opened r d cmp) (hne : r.refs ≠ [])
    (hd : w.dbs.get d = some inst) (hs : w.SnapshotAt d snapshot snap) (hargs : args.parses = true)
    (hit : E.newIterator ⟨args.verifyChecksums, args.fillCache, snap⟩ inst.db = (some it, db))
    (hc : Compares cmp) (hcur : IsFailingCursor E cmp entries At) (hat : At it p) :
    ∃ i w', (PyLevelDB.rangeIter_ (some D) snapshot args true).run w = .ok (.ok i, w') ∧
      ((∀ k rs w'', (PyLevelDBIter.nexts i k).run w' = .ok (rs, w'') →
        ∀ item, .ok (some item) ∈ rs → args.InRange cmp item.key) ↔
          ¬ args.Strays cmp entries it) := by
  obtain ⟨i, w', hrun, hnexts⟩ := rangeIter_results hr ho hne hd hs hargs hit
  refine ⟨i, w', hrun, fun h hstray => ?_, fun hno k rs w'' hk item hm => ?_⟩
  · obtain ⟨item, hm, hout⟩ := Scan.results_strays hc hcur hat hstray
    obtain ⟨w'', hk⟩ := hnexts 1
    exact hout (h 1 _ w'' hk item (List.mem_map.mpr ⟨_, hm, rfl⟩))
  · obtain ⟨w₁, hk'⟩ := hnexts k
    rw [hk'] at hk
    cases hk
    obtain ⟨q, hq, hbegins⟩ := Scan.place_begins hc hcur hat hno
    obtain ⟨x, hx, hxi⟩ := List.mem_map.mp hm
    cases hxi
    exact Scan.results_inRange hc hcur hq hbegins k hx

/-! ## The store in memory -/

/-- A cursor of the store in memory fails at the entries that cannot be read. -/
theorem memStore_isFailingCursor {cmp : Bytes → Bytes → Int} {bad : Bytes → Bool}
    {entries : List (Bytes × Bytes)} (hl : Sorted.Increasing cmp Prod.fst entries) :
    IsFailingCursor (memStore cmp bad) cmp entries fun it p =>
      it.entries = entries ∧ it.pos = p ∧ ∀ i, p = some i → i < entries.length := by
  have hland : ∀ (it : MemIter) q, it.entries = entries → (∀ i, q = some i → i < entries.length) →
      Lands (E := memStore cmp bad) (fun it p => it.entries = entries ∧ it.pos = p ∧
        ∀ i, p = some i → i < entries.length) (it.land bad q) q := by
    intro it q he hq
    unfold MemIter.land
    split
    · exact .inr ⟨⟨he, rfl, nofun⟩, rfl⟩
    · exact .inl ⟨he, rfl, hq⟩
  refine ⟨hl, ?_, ?_, ?_, ?_, ?_, ?_, ?_⟩
  · rintro it p ⟨-, rfl, -⟩
    rfl
  · rintro it i ⟨he, hp, hi⟩
    have hi := hi i rfl
    show entries[i]? = some ((it.pos.bind (it.entries[·]?)).elim [] Prod.fst,
      (it.pos.bind (it.entries[·]?)).elim [] Prod.snd)
    rw [hp, he, Option.bind_some, List.getElem?_eq_getElem hi]
    rfl
  · rintro it p ⟨rfl, -, -⟩
    exact hland it _ rfl fun i => Cursor.first_lt
  · rintro it p ⟨rfl, -, -⟩
    exact hland it _ rfl fun i => Cursor.last_lt
  · rintro k it p ⟨rfl, -, -⟩
    exact hland it _ rfl fun i => Cursor.seek_lt
  · rintro it i ⟨rfl, hp, -⟩
    have hnext : (memStore cmp bad).next it = it.land bad (it.pos.bind (Cursor.next it.entries)) :=
      rfl
    rw [hnext, hp]
    exact hland it _ rfl fun j => Cursor.next_lt
  · rintro it i ⟨rfl, hp, hi⟩
    have hprev : (memStore cmp bad).prev it = it.land bad (it.pos.bind Cursor.prev) := rfl
    rw [hprev, hp]
    exact hland it _ rfl fun j hj => Nat.lt_trans (Cursor.prev_lt hj) (hi i rfl)

/-- The entries up to `c`, in reverse: the step down to `b` fails. -/
theorem rangeIter_inRange_broken :
    ∃ i w', (PyLevelDB.rangeIter_ (some 0) none
        { keyTo := some ⟨7, some [100]⟩, reverse := true } true).run brokenWorld =
        .ok (.ok i, w') ∧
      ((∀ k rs w'', (PyLevelDBIter.nexts i k).run w' = .ok (rs, w'') →
        ∀ item, .ok (some item) ∈ rs → RangeArgs.InRange compareBytes
          { keyTo := some ⟨7, some [100]⟩, reverse := true } item.key) ↔
        ¬ @RangeArgs.Strays brokenStore compareBytes
          { keyTo := some ⟨7, some [100]⟩, reverse := true } sample ⟨sample, none, false⟩) :=
  rangeIter_inRange rfl brokenWorld_opened (by decide) rfl (World.snapshotAt_none _ _) rfl rfl
    compareBytes_compares.toCompares (memStore_isFailingCursor sample_increasing)
    ⟨rfl, rfl, fun i hi => by cases hi⟩

/-- **A key above the upper bound is delivered**: `Seek` to `b` meets the entry that cannot be read, and
the scan begins at `c`. -/
theorem rangeIter_strays :
    ∃ w' w'', (PyLevelDB.rangeIter_ (some 0) none
        { keyTo := some ⟨7, some [98]⟩, reverse := true } true).run brokenWorld =
        .ok (.ok 0, w') ∧
      (PyLevelDBIter.nexts 0 1).run w' = .ok ([.ok (some ⟨[99], some [3]⟩)], w'') ∧
      ¬ RangeArgs.InRange compareBytes { keyTo := some ⟨7, some [98]⟩, reverse := true } [99] :=
  ⟨_, _, rfl, rfl, fun h => absurd (h.2 [98] rfl) (by decide)⟩

end PyLeveldb
