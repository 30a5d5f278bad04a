import PyLeveldb.Exec

/-!
# LevelDB objects, iterators and snapshots

The invariant of a single-threaded run on open LevelDB objects (`World.Inv`): every LevelDB object
owns its parts, every iterator and snapshot object that is in use has a LevelDB object that is alive
and a leveldb object of its own, and the counters and the references of a LevelDB object number its
iterators and snapshots.

Each function that makes or ends a handle changes the world by one of a few transformations
(`World.addIter`, `World.endIter`, ...), and each transformation keeps the invariant.
-/

namespace PyLeveldb

variable {E : Env} {w : World E} {F : Fault → Prop}

/-! ## The invariant -/

/-- Two pointers are not to the same object. -/
def Apart (a b : Option Nat) : Prop := ∀ x, a = some x → b ≠ some x

@[simp] theorem apart_none_left (b : Option Nat) : Apart none b := fun _ h => by cases h

@[simp] theorem apart_none_right (a : Option Nat) : Apart a none := fun _ _ h => by cases h

/-- The Python comparator, if it is one. -/
def CmpPtr.wrapper : CmpPtr → Option Nat
  | .bytewise => none
  | .python p => some p

/-- The parts of an open LevelDB object, with the instance `d`. -/
structure World.Parts (w : World E) (r : PyLevelDB) (d : Nat) : Prop where
  db : r.db = some d ∧ ∃ x, w.dbs.get d = some x
  options : ∃ o x, r.options = some o ∧ w.options.get o = some x ∧ r.comparator = some x.comparator
  cache : ∃ c x, r.cache = some c ∧ w.caches.get c = some x
  comparator : ∀ p, r.comparator = some (.python p) → ∃ x, w.comparators.get p = some x

/-- Two LevelDB objects share no part. -/
def PyLevelDB.Apart (r r' : PyLevelDB) : Prop :=
  PyLeveldb.Apart r.db r'.db ∧ PyLeveldb.Apart r.options r'.options ∧
    PyLeveldb.Apart r.cache r'.cache ∧
      PyLeveldb.Apart (r.comparator.bind CmpPtr.wrapper) (r'.comparator.bind CmpPtr.wrapper)

/-- An iterator object that is at its end. -/
def PyLevelDBIter.Ended (it : PyLevelDBIter) : Prop :=
  it.ref = none ∧ it.db = none ∧ it.iterator = none ∧ it.bound = none

/-- An iterator object in use. -/
def World.IterOk (w : World E) (i : Nat) (it : PyLevelDBIter) : Prop :=
  ∃ D r d n x, it.ref = some D ∧ it.db = some D ∧ w.levelDBs.get D = some r ∧ r.db = some d ∧
    it.iterator = some n ∧ w.ldbIterators.get n = some ⟨d, x⟩ ∧ .iter i ∈ r.refs ∧
      ∀ b, it.bound = some b → ∃ s, w.strings.get b = some s

/-- A snapshot object in use. -/
def World.SnapOk (w : World E) (s : Nat) (x : PyLevelDBSnapshot) : Prop :=
  ∃ D p r d y, x = ⟨some D, some p⟩ ∧ w.levelDBs.get D = some r ∧ r.db = some d ∧
    w.ldbSnapshots.get p = some ⟨d, y⟩ ∧ .snap s ∈ r.refs

/-- An iterator of the LevelDB object `D`. -/
def PyLevelDBIter.on (D : Nat) (it : PyLevelDBIter) : Bool := it.db = some D

/-- A snapshot of the LevelDB object `D`. -/
def PyLevelDBSnapshot.on (D : Nat) (s : PyLevelDBSnapshot) : Bool := s.db = some D

/-- A leveldb snapshot of the instance `d`. -/
def LdbSnapshot.on (d : Nat) (s : LdbSnapshot E) : Bool := s.inst = d

@[simp] theorem PyLevelDBIter.on_eq (D : Nat) (it : PyLevelDBIter) :
    it.on D = decide (it.db = some D) := rfl

@[simp] theorem PyLevelDBSnapshot.on_eq (D : Nat) (s : PyLevelDBSnapshot) :
    s.on D = decide (s.db = some D) := rfl

@[simp] theorem LdbSnapshot.on_eq (d : Nat) (s : LdbSnapshot E) : s.on d = decide (s.inst = d) := rfl

/-- The references that iterators hold. -/
def Holder.isIter : Holder → Bool
  | .iter _ => true
  | _ => false

/-- The references that snapshots hold. -/
def Holder.isSnap : Holder → Bool
  | .snap _ => true
  | _ => false

/-- The counters of a LevelDB object. -/
structure World.Counts (w : World E) (D : Nat) (r : PyLevelDB) : Prop where
  iters : r.nIterators = w.iters.count (PyLevelDBIter.on D)
  snaps : r.nSnapshots = w.snapshots.count (PyLevelDBSnapshot.on D)
  ldbSnaps : ∀ d, r.db = some d → r.nSnapshots = w.ldbSnapshots.count (LdbSnapshot.on d)
  iterRefs : r.nIterators = r.refs.countP Holder.isIter
  snapRefs : r.nSnapshots = r.refs.countP Holder.isSnap

/-- The invariant (module doc). -/
structure World.Inv (w : World E) : Prop where
  parts : ∀ D r, w.levelDBs.get D = some r → ∃ d, w.Parts r d
  apart : ∀ D D' r r', w.levelDBs.get D = some r → w.levelDBs.get D' = some r' → D ≠ D' → r.Apart r'
  iter : ∀ i it, w.iters.get i = some it → it.Ended ∨ w.IterOk i it
  iterApart : ∀ i j a b, w.iters.get i = some a → w.iters.get j = some b → i ≠ j →
    Apart a.iterator b.iterator ∧ Apart a.bound b.bound
  snap : ∀ s x, w.snapshots.get s = some x → x = ⟨none, none⟩ ∨ w.SnapOk s x
  snapApart : ∀ s t a b, w.snapshots.get s = some a → w.snapshots.get t = some b → s ≠ t →
    Apart a.snapshot b.snapshot
  counts : ∀ D r, w.levelDBs.get D = some r → w.Counts D r

/-! ## What a change of the world has to leave alone -/

section Mono

variable {w' : World E}

theorem World.IterOk.mono {i : Nat} {it : PyLevelDBIter} (h : w.IterOk i it)
    (hD : ∀ D r, w.levelDBs.get D = some r → .iter i ∈ r.refs →
      ∃ r', w'.levelDBs.get D = some r' ∧ r'.db = r.db ∧ .iter i ∈ r'.refs)
    (hn : ∀ n d x, it.iterator = some n → w.ldbIterators.get n = some ⟨d, x⟩ →
      ∃ x', w'.ldbIterators.get n = some ⟨d, x'⟩)
    (hb : ∀ b s, it.bound = some b → w.strings.get b = some s → ∃ s', w'.strings.get b = some s') :
    w'.IterOk i it := by
  obtain ⟨D, r, d, n, x, h1, h2, h3, h4, h5, h6, h7, h8⟩ := h
  obtain ⟨r', hr', hdb, hm⟩ := hD D r h3 h7
  obtain ⟨x', hx'⟩ := hn n d x h5 h6
  refine ⟨D, r', d, n, x', h1, h2, hr', hdb.trans h4, h5, hx', hm, fun b hbd => ?_⟩
  obtain ⟨s, hs⟩ := h8 b hbd
  exact hb b s hbd hs

theorem World.SnapOk.mono {s : Nat} {x : PyLevelDBSnapshot} (h : w.SnapOk s x)
    (hD : ∀ D r, w.levelDBs.get D = some r → .snap s ∈ r.refs →
      ∃ r', w'.levelDBs.get D = some r' ∧ r'.db = r.db ∧ .snap s ∈ r'.refs)
    (hp : ∀ p y, x.snapshot = some p → w.ldbSnapshots.get p = some y →
      w'.ldbSnapshots.get p = some y) : w'.SnapOk s x := by
  obtain ⟨D, p, r, d, y, rfl, h2, h3, h4, h5⟩ := h
  obtain ⟨r', hr', hdb, hm⟩ := hD D r h2 h5
  exact ⟨D, p, r', d, y, rfl, hr', hdb.trans h3, hp p _ rfl h4, hm⟩

end Mono

/-- The fields of a LevelDB object with other counters and references. -/
def PyLevelDB.counted (r : PyLevelDB) (nSnapshots nIterators : Int) (refs : List Holder) :
    PyLevelDB :=
  { r with nSnapshots := nSnapshots, nIterators := nIterators, refs := refs }

section Recount

variable {D : Nat} {r : PyLevelDB} {ns ni : Int} {refs : List Holder}

theorem parts_recount {w' : World E} (h : w.Inv)
    (hr : w.levelDBs.get D = some r) (hw : w'.levelDBs = w.levelDBs.set D (r.counted ns ni refs))
    (hd : ∀ d x, w.dbs.get d = some x → ∃ x', w'.dbs.get d = some x')
    (ho : w'.options = w.options) (hc : w'.caches = w.caches) (hp : w'.comparators = w.comparators) :
    ∀ D' r', w'.levelDBs.get D' = some r' → ∃ d, w'.Parts r' d := by
  have keep : ∀ r' d, w.Parts r' d → w'.Parts r' d := by
    rintro r' d ⟨⟨h1, x, hx⟩, h2, h3, h4⟩
    exact ⟨⟨h1, hd d x hx⟩, by rwa [ho], by rwa [hc], by rwa [hp]⟩
  intro D' r' hr'
  rw [hw] at hr'
  rcases Table.get_set_some hr' with ⟨rfl, rfl⟩ | ⟨-, hr'⟩
  · obtain ⟨d, hd'⟩ := h.parts D' r hr
    obtain ⟨h1, h2, h3, h4⟩ := keep r d hd'
    exact ⟨d, h1, h2, h3, h4⟩
  · obtain ⟨d, hd'⟩ := h.parts D' r' hr'
    exact ⟨d, keep r' d hd'⟩

theorem apart_recount (h : w.Inv) (hr : w.levelDBs.get D = some r) :
    ∀ D₁ D₂ r₁ r₂, (w.levelDBs.set D (r.counted ns ni refs)).get D₁ = some r₁ →
      (w.levelDBs.set D (r.counted ns ni refs)).get D₂ = some r₂ → D₁ ≠ D₂ → r₁.Apart r₂ := by
  intro D₁ D₂ r₁ r₂ h₁ h₂ hne
  rcases Table.get_set_some h₁ with ⟨e₁, rfl⟩ | ⟨-, g₁⟩ <;>
    rcases Table.get_set_some h₂ with ⟨e₂, rfl⟩ | ⟨-, g₂⟩
  · exact absurd (e₁.trans e₂.symm) hne
  · exact h.apart D D₂ r r₂ hr g₂ (e₁ ▸ hne)
  · exact h.apart D₁ D r₁ r g₁ hr (e₂ ▸ hne)
  · exact h.apart D₁ D₂ r₁ r₂ g₁ g₂ hne

/-- A reference that stays is found again. -/
theorem ref_recount (hr : w.levelDBs.get D = some r) {h : Holder} (hk : h ∈ r.refs → h ∈ refs)
    {D' : Nat} {r' : PyLevelDB} (hr' : w.levelDBs.get D' = some r') (hm : h ∈ r'.refs) :
    ∃ r'', (w.levelDBs.set D (r.counted ns ni refs)).get D' = some r'' ∧ r''.db = r'.db ∧
      h ∈ r''.refs := by
  by_cases e : D' = D
  · subst e
    rw [hr] at hr'
    cases hr'
    exact ⟨r.counted ns ni refs, by simp, rfl, hk hm⟩
  · exact ⟨r', by simp [e, hr'], rfl, hm⟩

end Recount

theorem countP_erase {h : Holder} {l : List Holder} (p : Holder → Bool) (hm : h ∈ l) :
    (l.erase h).countP p + (if p h then 1 else 0) = l.countP p := by
  rw [(List.perm_cons_erase hm).countP_eq p, List.countP_cons]

/-! ## The end of an iterator -/

/-- What `clean` leaves of an iterator object in use, but for what the last reference to the
LevelDB object takes with it. -/
def World.endIter (w : World E) (i D n : Nat) (it : PyLevelDBIter) (r : PyLevelDB) : World E :=
  { w with
    levelDBs := w.levelDBs.set D
      (r.counted r.nSnapshots (r.nIterators + -1) (r.refs.erase (.iter i)))
    ldbIterators := w.ldbIterators.free n
    strings := w.strings.freeOpt it.bound
    iters := w.iters.set i ⟨none, none, none, none, it.isReverse, false⟩ }

theorem World.Inv.endIter (h : w.Inv) {i D n : Nat} {it : PyLevelDBIter} {r : PyLevelDB}
    (hi : w.iters.get i = some it) (hdb : it.db = some D) (hr : w.levelDBs.get D = some r)
    (hn : it.iterator = some n) (hm : .iter i ∈ r.refs) : (w.endIter i D n it r).Inv where
  parts := parts_recount h hr rfl (fun d x hx => ⟨x, hx⟩) rfl rfl rfl
  apart := apart_recount h hr
  iter j jt hj := by
    rcases Table.get_set_some hj with ⟨rfl, rfl⟩ | ⟨hji, hj⟩
    · exact .inl ⟨rfl, rfl, rfl, rfl⟩
    · obtain ⟨hna, hba⟩ := h.iterApart i j it jt hi hj (Ne.symm hji)
      refine (h.iter j jt hj).imp_right fun ok => ok.mono ?_ ?_ ?_
      · intro D' r' hr' hm'
        refine ref_recount hr (fun hmem => ?_) hr' hm'
        exact (List.mem_erase_of_ne (by simpa using hji)).mpr hmem
      · intro m d' y hm' hy
        have hmn : m ≠ n := fun e => hna n hn (e ▸ hm')
        exact ⟨y, by simpa [World.endIter, hmn] using hy⟩
      · intro b s hb hs
        refine ⟨s, ?_⟩
        cases hib : it.bound with
        | none => simpa [World.endIter, hib] using hs
        | some b' =>
          have hbb : b ≠ b' := fun e => hba b' hib (e ▸ hb)
          simpa [World.endIter, hib, hbb] using hs
  iterApart j k a b ha hb hne := by
    rcases Table.get_set_some ha with ⟨-, rfl⟩ | ⟨-, ha⟩
    · exact ⟨apart_none_left _, apart_none_left _⟩
    · rcases Table.get_set_some hb with ⟨-, rfl⟩ | ⟨-, hb⟩
      · exact ⟨apart_none_right _, apart_none_right _⟩
      · exact h.iterApart j k a b ha hb hne
  snap s y hs := by
    refine (h.snap s y hs).imp_right fun ok => ok.mono ?_ fun p y _ hy => hy
    intro D' r' hr' hm'
    refine ref_recount hr (fun hmem => ?_) hr' hm'
    exact (List.mem_erase_of_ne (by simp)).mpr hmem
  snapApart := h.snapApart
  counts D' r' hr' := by
    have hc := Table.count_set (PyLevelDBIter.on D') w.iters i
      ⟨none, none, none, none, it.isReverse, false⟩
    rw [hi] at hc
    rcases Table.get_set_some hr' with ⟨rfl, rfl⟩ | ⟨hne, hr'⟩
    · obtain ⟨h1, h2, h3, h4, h5⟩ := h.counts D' r hr
      have e1 := countP_erase Holder.isIter hm
      have e2 := countP_erase Holder.isSnap hm
      simp [hdb] at hc
      simp [Holder.isIter] at e1
      simp [Holder.isSnap] at e2
      refine ⟨?_, h2, h3, ?_, ?_⟩ <;> simp only [PyLevelDB.counted, World.endIter] <;> omega
    · obtain ⟨h1, h2, h3, h4, h5⟩ := h.counts D' r' hr'
      simp [hdb, Ne.symm hne] at hc
      refine ⟨?_, h2, h3, h4, h5⟩
      simp only [World.endIter]
      omega

/-! ## The start of an iterator -/

/-- The iterator object `i` is made, or made anew, with the leveldb iterator `n`. -/
def World.addIter (w : World E) (i D n : Nat) (bound : Option Nat) (reverse includeValue : Bool)
    (r : PyLevelDB) : World E :=
  { w with
    levelDBs := w.levelDBs.set D (r.counted r.nSnapshots (r.nIterators + 1) (.iter i :: r.refs))
    iters := w.iters.set i ⟨some D, some D, some n, bound, reverse, includeValue⟩ }

theorem World.Inv.addIter (h : w.Inv) {i D n d : Nat} {bound : Option Nat}
    {reverse includeValue : Bool} {r : PyLevelDB} {x : E.Iter} (hi : w.iters.get i = none)
    (hr : w.levelDBs.get D = some r) (hd : r.db = some d) (hx : w.ldbIterators.get n = some ⟨d, x⟩)
    (hb : ∀ b, bound = some b → ∃ s, w.strings.get b = some s)
    (hfresh : ∀ j a, w.iters.get j = some a → Apart a.iterator (some n) ∧ Apart a.bound bound) :
    (w.addIter i D n bound reverse includeValue r).Inv where
  parts := parts_recount h hr rfl (fun d x hx => ⟨x, hx⟩) rfl rfl rfl
  apart := apart_recount h hr
  iter j jt hj := by
    rcases Table.get_set_some hj with ⟨rfl, rfl⟩ | ⟨hji, hj⟩
    · exact .inr ⟨D, r.counted r.nSnapshots (r.nIterators + 1) (.iter j :: r.refs), d, n, x, rfl,
        rfl, by simp [World.addIter], hd, rfl, hx, List.mem_cons_self, hb⟩
    · refine (h.iter j jt hj).imp_right fun ok => ok.mono ?_ (fun m d y _ hy => ⟨y, hy⟩)
        fun b s _ hs => ⟨s, hs⟩
      intro D' r' hr' hm'
      exact ref_recount hr (fun hmem => List.mem_cons_of_mem _ hmem) hr' hm'
  iterApart j k a b ha hb' hne := by
    rcases Table.get_set_some ha with ⟨e, rfl⟩ | ⟨-, ha⟩ <;>
      rcases Table.get_set_some hb' with ⟨e', rfl⟩ | ⟨-, hb'⟩
    · exact absurd (e.trans e'.symm) hne
    · obtain ⟨h1, h2⟩ := hfresh k b hb'
      exact ⟨fun y hy hy' => h1 y hy' hy, fun y hy hy' => h2 y hy' hy⟩
    · exact hfresh j a ha
    · exact h.iterApart j k a b ha hb' hne
  snap s y hs := by
    refine (h.snap s y hs).imp_right fun ok => ok.mono ?_ fun p y _ hy => hy
    intro D' r' hr' hm'
    exact ref_recount hr (fun hmem => List.mem_cons_of_mem _ hmem) hr' hm'
  snapApart := h.snapApart
  counts D' r' hr' := by
    have hc := Table.count_set (PyLevelDBIter.on D') w.iters i
      ⟨some D, some D, some n, bound, reverse, includeValue⟩
    rw [hi] at hc
    rcases Table.get_set_some hr' with ⟨rfl, rfl⟩ | ⟨hne, hr'⟩
    · obtain ⟨h1, h2, h3, h4, h5⟩ := h.counts D' r hr
      simp at hc
      refine ⟨?_, h2, h3, ?_, ?_⟩ <;>
        simp only [PyLevelDB.counted, World.addIter, List.countP_cons, Holder.isIter,
          Holder.isSnap, Bool.false_eq_true, ↓reduceIte] <;> omega
    · obtain ⟨h1, h2, h3, h4, h5⟩ := h.counts D' r' hr'
      simp [Ne.symm hne] at hc
      refine ⟨?_, h2, h3, h4, h5⟩
      simp only [World.addIter]
      omega

/-- Iterator objects that are at their end come and go. -/
theorem World.Inv.setEnded (h : w.Inv) {T : Table PyLevelDBIter}
    (hT : ∀ j a, T.get j = some a → w.iters.get j = some a ∨ a.Ended)
    (hkeep : ∀ D, T.count (PyLevelDBIter.on D) = w.iters.count (PyLevelDBIter.on D)) :
    World.Inv { w with iters := T } where
  parts D r hr := by
    obtain ⟨d, hd⟩ := h.parts D r hr
    exact ⟨d, hd.db, hd.options, hd.cache, hd.comparator⟩
  apart := h.apart
  iter j a ha := by
    rcases hT j a ha with h' | h'
    · exact h.iter j a h'
    · exact .inl h'
  iterApart j k a b ha hb hne := by
    rcases hT j a ha with ha | ⟨-, -, h1, h2⟩
    · rcases hT k b hb with hb | ⟨-, -, h1, h2⟩
      · exact h.iterApart j k a b ha hb hne
      · rw [h1, h2]
        exact ⟨apart_none_right _, apart_none_right _⟩
    · rw [h1, h2]
      exact ⟨apart_none_left _, apart_none_left _⟩
  snap := h.snap
  snapApart := h.snapApart
  counts D r hr := by
    obtain ⟨h1, h2, h3, h4, h5⟩ := h.counts D r hr
    exact ⟨h1.trans (by rw [hkeep]), h2, h3, h4, h5⟩

/-! ## Snapshots -/

/-- The snapshot object `s` takes the leveldb snapshot `p`, the next one, of the instance `d`. -/
def World.addSnap (w : World E) (s D d : Nat) (y : E.Snap) (r : PyLevelDB) : World E :=
  { w with
    levelDBs := w.levelDBs.set D (r.counted (r.nSnapshots + 1) r.nIterators (.snap s :: r.refs))
    ldbSnapshots := w.ldbSnapshots.push ⟨d, y⟩
    snapshots := w.snapshots.set s ⟨some D, some w.ldbSnapshots.next⟩ }

theorem World.Inv.addSnap (h : w.Inv) {s D d : Nat} {y : E.Snap} {r : PyLevelDB}
    (hs : w.snapshots.get s = none ∨ w.snapshots.get s = some ⟨none, none⟩)
    (hr : w.levelDBs.get D = some r) (hd : r.db = some d) : (w.addSnap s D d y r).Inv where
  parts := parts_recount h hr rfl (fun d x hx => ⟨x, hx⟩) rfl rfl rfl
  apart := apart_recount h hr
  iter j jt hj := by
    refine (h.iter j jt hj).imp_right fun ok => ok.mono ?_ (fun m d y _ hy => ⟨y, hy⟩)
      fun b s _ hs => ⟨s, hs⟩
    intro D' r' hr' hm'
    exact ref_recount hr (fun hmem => List.mem_cons_of_mem _ hmem) hr' hm'
  iterApart := h.iterApart
  snap t z hz := by
    rcases Table.get_set_some hz with ⟨rfl, rfl⟩ | ⟨-, hz⟩
    · exact .inr ⟨D, w.ldbSnapshots.next, r.counted (r.nSnapshots + 1) r.nIterators
        (.snap t :: r.refs), d, y, rfl, by simp [World.addSnap], hd, by simp [World.addSnap],
        List.mem_cons_self⟩
    · refine (h.snap t z hz).imp_right fun ok => ok.mono ?_ ?_
      · intro D' r' hr' hm'
        exact ref_recount hr (fun hmem => List.mem_cons_of_mem _ hmem) hr' hm'
      · intro p y' _ hy
        simp [World.addSnap, Table.ne_next hy, hy]
  snapApart t u a b ha hb hne := by
    have fresh : ∀ v c, w.snapshots.get v = some c → Apart c.snapshot (some w.ldbSnapshots.next) := by
      intro v c hc p hp hp'
      cases hp'
      rcases h.snap v c hc with rfl | ⟨D', p, r', d', y', rfl, -, -, hy, -⟩
      · cases hp
      · cases hp
        exact Table.ne_next hy rfl
    rcases Table.get_set_some ha with ⟨e, rfl⟩ | ⟨-, ha⟩ <;>
      rcases Table.get_set_some hb with ⟨e', rfl⟩ | ⟨-, hb⟩
    · exact absurd (e.trans e'.symm) hne
    · exact fun p hp hp' => fresh u b hb p hp' hp
    · exact fresh t a ha
    · exact h.snapApart t u a b ha hb hne
  counts D' r' hr' := by
    have hc := Table.count_set (PyLevelDBSnapshot.on D') w.snapshots s
      ⟨some D, some w.ldbSnapshots.next⟩
    have hw : Table.weight (PyLevelDBSnapshot.on D') (w.snapshots.get s) = 0 := by
      rcases hs with hs | hs <;> simp [hs]
    have hl := fun d' => Table.count_push (LdbSnapshot.on d') w.ldbSnapshots ⟨d, y⟩
    rcases Table.get_set_some hr' with ⟨rfl, rfl⟩ | ⟨hne, hr'⟩
    · obtain ⟨h1, h2, h3, h4, h5⟩ := h.counts D' r hr
      simp at hc
      refine ⟨h1, ?_, fun d' hd' => ?_, ?_, ?_⟩
      · simp only [PyLevelDB.counted, World.addSnap]
        omega
      · have hdd : d' = d := by
          have : r.db = some d' := hd'
          rw [hd] at this
          cases this
          rfl
        subst hdd
        have := h3 d' hd
        have := hl d'
        simp at this
        simp only [PyLevelDB.counted, World.addSnap]
        omega
      · simp only [PyLevelDB.counted, List.countP_cons, Holder.isIter, Bool.false_eq_true,
          ↓reduceIte]
        omega
      · simp only [PyLevelDB.counted, List.countP_cons, Holder.isSnap, ↓reduceIte]
        omega
    · obtain ⟨h1, h2, h3, h4, h5⟩ := h.counts D' r' hr'
      simp [Ne.symm hne] at hc
      refine ⟨h1, ?_, fun d' hd' => ?_, h4, h5⟩
      · simp only [World.addSnap]
        omega
      · have hdd : d ≠ d' := fun e => (h.apart D D' r r' hr hr' (Ne.symm hne)).1 d hd (e ▸ hd')
        have := h3 d' hd'
        have := hl d'
        simp [hdd] at this
        simp only [World.addSnap]
        omega

/-- The snapshot object `s` gives up its leveldb snapshot `p`, but for what the last reference to
the LevelDB object takes with it. -/
def World.endSnap (w : World E) (s D p : Nat) (r : PyLevelDB) : World E :=
  { w with
    levelDBs := w.levelDBs.set D
      (r.counted (r.nSnapshots + -1) r.nIterators (r.refs.erase (.snap s)))
    ldbSnapshots := w.ldbSnapshots.free p
    snapshots := w.snapshots.set s ⟨none, none⟩ }

theorem World.Inv.endSnap (h : w.Inv) {s D p d : Nat} {r : PyLevelDB} {y : E.Snap}
    (hs : w.snapshots.get s = some ⟨some D, some p⟩) (hr : w.levelDBs.get D = some r)
    (hd : r.db = some d) (hy : w.ldbSnapshots.get p = some ⟨d, y⟩) (hm : .snap s ∈ r.refs) :
    (w.endSnap s D p r).Inv where
  parts := parts_recount h hr rfl (fun d x hx => ⟨x, hx⟩) rfl rfl rfl
  apart := apart_recount h hr
  iter j jt hj := by
    refine (h.iter j jt hj).imp_right fun ok => ok.mono ?_ (fun m d y _ hy => ⟨y, hy⟩)
      fun b s _ hs => ⟨s, hs⟩
    intro D' r' hr' hm'
    refine ref_recount hr (fun hmem => ?_) hr' hm'
    exact (List.mem_erase_of_ne (by simp)).mpr hmem
  iterApart := h.iterApart
  snap t z hz := by
    rcases Table.get_set_some hz with ⟨rfl, rfl⟩ | ⟨hts, hz⟩
    · exact .inl rfl
    · refine (h.snap t z hz).imp_right fun ok => ok.mono ?_ ?_
      · intro D' r' hr' hm'
        refine ref_recount hr (fun hmem => ?_) hr' hm'
        exact (List.mem_erase_of_ne (by simpa using hts)).mpr hmem
      · intro q y' hq hy'
        have hqp : q ≠ p := fun e => h.snapApart s t _ z hs hz (Ne.symm hts) p rfl (e ▸ hq)
        simpa [World.endSnap, hqp] using hy'
  snapApart t u a b ha hb hne := by
    rcases Table.get_set_some ha with ⟨-, rfl⟩ | ⟨-, ha⟩
    · exact apart_none_left _
    · rcases Table.get_set_some hb with ⟨-, rfl⟩ | ⟨-, hb⟩
      · exact apart_none_right _
      · exact h.snapApart t u a b ha hb hne
  counts D' r' hr' := by
    have hc := Table.count_set (PyLevelDBSnapshot.on D') w.snapshots s ⟨none, none⟩
    rw [hs] at hc
    have hl := fun d' => Table.count_free (LdbSnapshot.on d') w.ldbSnapshots p
    simp only [hy] at hl
    rcases Table.get_set_some hr' with ⟨rfl, rfl⟩ | ⟨hne, hr'⟩
    · obtain ⟨h1, h2, h3, h4, h5⟩ := h.counts D' r hr
      have e1 := countP_erase Holder.isIter hm
      have e2 := countP_erase Holder.isSnap hm
      simp at hc
      simp [Holder.isIter] at e1
      simp [Holder.isSnap] at e2
      refine ⟨h1, ?_, fun d' hd' => ?_, ?_, ?_⟩
      · simp only [PyLevelDB.counted, World.endSnap]
        omega
      · have hdd : d' = d := by
          have : r.db = some d' := hd'
          rw [hd] at this
          cases this
          rfl
        subst hdd
        have := h3 d' hd
        have := hl d'
        simp at this
        simp only [PyLevelDB.counted, World.endSnap]
        omega
      · simp only [PyLevelDB.counted]
        omega
      · simp only [PyLevelDB.counted]
        omega
    · obtain ⟨h1, h2, h3, h4, h5⟩ := h.counts D' r' hr'
      simp [Ne.symm hne] at hc
      refine ⟨h1, ?_, fun d' hd' => ?_, h4, h5⟩
      · simp only [World.endSnap]
        omega
      · have hdd : d ≠ d' := fun e => (h.apart D D' r r' hr hr' (Ne.symm hne)).1 d hd (e ▸ hd')
        have := h3 d' hd'
        have := hl d'
        simp [hdd] at this
        simp only [World.endSnap]
        omega

/-- Snapshot objects without a snapshot come and go. -/
theorem World.Inv.setEmpty (h : w.Inv) {T : Table PyLevelDBSnapshot}
    (hT : ∀ j a, T.get j = some a → w.snapshots.get j = some a ∨ a = ⟨none, none⟩)
    (hkeep : ∀ D, T.count (PyLevelDBSnapshot.on D) = w.snapshots.count (PyLevelDBSnapshot.on D)) :
    World.Inv { w with snapshots := T } where
  parts D r hr := by
    obtain ⟨d, hd⟩ := h.parts D r hr
    exact ⟨d, hd.db, hd.options, hd.cache, hd.comparator⟩
  apart := h.apart
  iter := h.iter
  iterApart := h.iterApart
  snap j a ha := by
    rcases hT j a ha with h' | h'
    · exact h.snap j a h'
    · exact .inl h'
  snapApart j k a b ha hb hne := by
    rcases hT j a ha with ha | rfl
    · rcases hT k b hb with hb | rfl
      · exact h.snapApart j k a b ha hb hne
      · exact apart_none_right _
    · exact apart_none_left _
  counts D r hr := by
    obtain ⟨h1, h2, h3, h4, h5⟩ := h.counts D r hr
    exact ⟨h1, h2.trans (by rw [hkeep]), h3, h4, h5⟩

/-! ## What leveldb does, and the end of a LevelDB object -/

/-- The state of databases changes, and leveldb iterators and strings that no object has come and
go. -/
theorem World.Inv.frame (h : w.Inv) {dbs : Table (LdbInstance E)} {its : Table (LdbIterator E)}
    {strings : Table Bytes} {e : Nat → Int} {o : Int} {n : Nat}
    (hd : ∀ d x, w.dbs.get d = some x → ∃ x', dbs.get d = some x')
    (hn : ∀ i it n d x, w.iters.get i = some it → it.iterator = some n →
      w.ldbIterators.get n = some ⟨d, x⟩ → ∃ x', its.get n = some ⟨d, x'⟩)
    (hs : ∀ b s, w.strings.get b = some s → ∃ s', strings.get b = some s') :
    World.Inv { w with
      dbs := dbs, ldbIterators := its, strings := strings, exports := e, owned := o, calls := n } where
  parts D r hr := by
    obtain ⟨d, ⟨h1, x, hx⟩, h2, h3, h4⟩ := h.parts D r hr
    exact ⟨d, ⟨h1, hd d x hx⟩, h2, h3, h4⟩
  apart := h.apart
  iter i it hi := (h.iter i it hi).imp_right fun ok => ok.mono
    (fun _ r hr hm => ⟨r, hr, rfl, hm⟩) (fun n d x e hx => hn i it n d x hi e hx)
    fun b s _ hb => hs b s hb
  iterApart := h.iterApart
  snap s x hx := (h.snap s x hx).imp_right fun ok => ok.mono
    (fun _ r hr hm => ⟨r, hr, rfl, hm⟩) fun _ _ _ hy => hy
  snapApart := h.snapApart
  counts D r hr := by
    obtain ⟨h1, h2, h3, h4, h5⟩ := h.counts D r hr
    exact ⟨h1, h2, h3, h4, h5⟩

/-- A leveldb snapshot that was taken and released again. -/
theorem World.Inv.released (h : w.Inv) (y : LdbSnapshot E) : World.Inv { w with
    ldbSnapshots := (w.ldbSnapshots.push y).free w.ldbSnapshots.next } where
  parts D r hr := by
    obtain ⟨d, hd⟩ := h.parts D r hr
    exact ⟨d, hd.db, hd.options, hd.cache, hd.comparator⟩
  apart := h.apart
  iter := h.iter
  iterApart := h.iterApart
  snap s x hx := (h.snap s x hx).imp_right fun ok => ok.mono
    (fun _ r hr hm => ⟨r, hr, rfl, hm⟩) fun p z _ hz => by simp [Table.ne_next hz, hz]
  snapApart := h.snapApart
  counts D r hr := by
    obtain ⟨h1, h2, h3, h4, h5⟩ := h.counts D r hr
    refine ⟨h1, h2, fun d hd => ?_, h4, h5⟩
    have hf := Table.count_free (LdbSnapshot.on d) (w.ldbSnapshots.push y) w.ldbSnapshots.next
    rw [Table.count_push] at hf
    simp only [Table.get_push, ↓reduceIte] at hf
    rw [h3 d hd]
    show (_ : Int) = ((w.ldbSnapshots.push y).free w.ldbSnapshots.next).count (LdbSnapshot.on d)
    omega

/-- A LevelDB object goes, with its parts. -/
def World.freeDb (w : World E) (D : Nat) (r : PyLevelDB) : World E :=
  { w with
    levelDBs := w.levelDBs.free D
    dbs := w.dbs.freeOpt r.db
    options := w.options.freeOpt r.options
    caches := w.caches.freeOpt r.cache
    comparators := w.comparators.freeOpt (r.comparator.bind CmpPtr.wrapper) }

theorem get_freeOpt {α : Type} {T : Table α} {p : Option Nat} {x : Nat} {a : α}
    (h : T.get x = some a) (hp : p ≠ some x) : (T.freeOpt p).get x = some a := by
  cases p with
  | none => exact h
  | some i => simpa [show x ≠ i by rintro rfl; exact hp rfl] using h

theorem World.Inv.freeDb (h : w.Inv) {D : Nat} {r : PyLevelDB} (hr : w.levelDBs.get D = some r)
    (he : r.refs = []) : (w.freeDb D r).Inv where
  parts D' r' hr' := by
    obtain ⟨hne, hr'⟩ := Table.get_free_some hr'
    obtain ⟨a1, a2, a3, a4⟩ := h.apart D D' r r' hr hr' (Ne.symm hne)
    obtain ⟨d, ⟨h1, x, hx⟩, ⟨o, y, h2, hy, hc⟩, ⟨k, z, h3, hz⟩, h4⟩ := h.parts D' r' hr'
    refine ⟨d, ⟨h1, x, get_freeOpt hx fun e => a1 d e h1⟩,
      ⟨o, y, h2, get_freeOpt hy fun e => a2 o e h2, hc⟩,
      ⟨k, z, h3, get_freeOpt hz fun e => a3 k e h3⟩, fun p hp => ?_⟩
    obtain ⟨v, hv⟩ := h4 p hp
    exact ⟨v, get_freeOpt hv fun e => a4 p e (by rw [hp]; rfl)⟩
  apart D₁ D₂ r₁ r₂ h₁ h₂ hne :=
    h.apart D₁ D₂ r₁ r₂ (Table.get_free_some h₁).2 (Table.get_free_some h₂).2 hne
  iter i it hi := by
    refine (h.iter i it hi).imp_right fun ok => ok.mono ?_ (fun n d x _ hx => ⟨x, hx⟩)
      fun b s _ hs => ⟨s, hs⟩
    intro D' r' hr' hm
    have hne : D' ≠ D := by
      rintro rfl
      rw [hr] at hr'
      cases hr'
      rw [he] at hm
      cases hm
    exact ⟨r', by simp [World.freeDb, hne, hr'], rfl, hm⟩
  iterApart := h.iterApart
  snap s x hx := by
    refine (h.snap s x hx).imp_right fun ok => ok.mono ?_ fun p y _ hy => hy
    intro D' r' hr' hm
    have hne : D' ≠ D := by
      rintro rfl
      rw [hr] at hr'
      cases hr'
      rw [he] at hm
      cases hm
    exact ⟨r', by simp [World.freeDb, hne, hr'], rfl, hm⟩
  snapApart := h.snapApart
  counts D' r' hr' := by
    obtain ⟨h1, h2, h3, h4, h5⟩ := h.counts D' r' (Table.get_free_some hr').2
    exact ⟨h1, h2, h3, h4, h5⟩

/-- Python code takes and drops references. -/
theorem World.Inv.setRefs (h : w.Inv) {D : Nat} {r : PyLevelDB} (refs : List Holder)
    (hr : w.levelDBs.get D = some r) (hi : ∀ i, .iter i ∈ r.refs → .iter i ∈ refs)
    (hs : ∀ s, .snap s ∈ r.refs → .snap s ∈ refs)
    (hci : refs.countP Holder.isIter = r.refs.countP Holder.isIter)
    (hcs : refs.countP Holder.isSnap = r.refs.countP Holder.isSnap) :
    World.Inv { w with
      levelDBs := w.levelDBs.set D (r.counted r.nSnapshots r.nIterators refs) } where
  parts := parts_recount h hr rfl (fun d x hx => ⟨x, hx⟩) rfl rfl rfl
  apart := apart_recount h hr
  iter j jt hj := (h.iter j jt hj).imp_right fun ok => ok.mono
    (fun _ _ hr' hm' => ref_recount hr (hi j) hr' hm') (fun m d y _ hy => ⟨y, hy⟩)
    fun b s _ hs => ⟨s, hs⟩
  iterApart := h.iterApart
  snap s x hx := (h.snap s x hx).imp_right fun ok => ok.mono
    (fun _ _ hr' hm' => ref_recount hr (hs s) hr' hm') fun _ _ _ hy => hy
  snapApart := h.snapApart
  counts D' r' hr' := by
    rcases Table.get_set_some hr' with ⟨rfl, rfl⟩ | ⟨-, hr'⟩
    · obtain ⟨h1, h2, h3, h4, h5⟩ := h.counts D' r hr
      exact ⟨h1, h2, h3, h4.trans (by rw [← hci]; rfl), h5.trans (by rw [← hcs]; rfl)⟩
    · obtain ⟨h1, h2, h3, h4, h5⟩ := h.counts D' r' hr'
      exact ⟨h1, h2, h3, h4, h5⟩

/-- The LevelDB object `D`, with the fields `r`, goes if nobody holds a reference to it. -/
def World.dropDb (w : World E) (D : Nat) (r : PyLevelDB) : World E :=
  if r.refs = [] then w.freeDb D r else w

@[simp] theorem World.dropDb_iters (w : World E) (D : Nat) (r : PyLevelDB) :
    (w.dropDb D r).iters = w.iters := by
  unfold World.dropDb
  split <;> rfl

@[simp] theorem World.dropDb_snapshots (w : World E) (D : Nat) (r : PyLevelDB) :
    (w.dropDb D r).snapshots = w.snapshots := by
  unfold World.dropDb
  split <;> rfl

theorem World.dropDb_setIters (w : World E) (D : Nat) (r : PyLevelDB) (T : Table PyLevelDBIter)
    (o : Int) : { w.dropDb D r with iters := T, owned := o } =
      { World.dropDb { w with iters := T } D r with owned := o } := by
  unfold World.dropDb
  split <;> rfl

theorem World.dropDb_setSnapshots (w : World E) (D : Nat) (r : PyLevelDB)
    (T : Table PyLevelDBSnapshot) (o : Int) : { w.dropDb D r with snapshots := T, owned := o } =
      { World.dropDb { w with snapshots := T } D r with owned := o } := by
  unfold World.dropDb
  split <;> rfl

theorem World.Inv.dropDb (h : w.Inv) {D : Nat} {r : PyLevelDB} (hr : w.levelDBs.get D = some r) :
    (w.dropDb D r).Inv := by
  unfold World.dropDb
  split
  · next he => exact h.freeDb hr he
  · exact h

end PyLeveldb
