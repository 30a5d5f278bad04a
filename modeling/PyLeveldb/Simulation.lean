import PyLeveldb.Reference
import PyLeveldb.StoreCalls

/-!
# The world and the reference model

`Sim Rep D d w m`: the world `w` stands for the state `m` of the reference model, through the LevelDB
object `D`, which is open on instance `d`. Each change that a call makes to the world (`World.wrote`,
`World.cleaned`, `World.ranged`, `World.addSnap`, ...) is a change of the state of the reference model,
by one rule (`Sim.change`): what the change does not touch stays as it is.
-/

namespace PyLeveldb

variable {E : Env} {w : World E} {D d : Nat} {r : PyLevelDB} {inst : LdbInstance E}

open PyLevelDBIter (Item)

/-! ## The relation -/

section Relation

variable {cmp : Bytes → Bytes → Int} {w' : World E} {i : Nat}

/-- The iterator object `i` is to deliver the items `l`, and then it is at its end. It is no iterator of
another LevelDB object than `D`. -/
def World.Yields (w : World E) (D i : Nat) : Option (List Item) → Prop
  | none => w.iters.get i = none
  | some l => (∃ s st, w.Scanning i s st ∧ ∀ k, s.results st k = Cursor.calls l k) ∧
      ∀ it, w.iters.get i = some it → it.db = none ∨ it.db = some D

/-- The snapshot objects stand for the maps `snaps`. `S` are those with a snapshot of instance `d`. -/
structure World.Taken (w : World E) (D d : Nat) (S : List (Nat × E.Snap × ByteMap cmp))
    (snaps : Nat → Option (Option (ByteMap cmp))) : Prop where
  nodup : (S.map Prod.fst).Nodup
  live : ∀ x ∈ S, snaps x.1 = some (some x.2.2) ∧
    ∃ p, w.snapshots.get x.1 = some ⟨some D, some p⟩ ∧ w.ldbSnapshots.get p = some ⟨d, x.2.1⟩
  gone : ∀ s, snaps s = none ↔ w.snapshots.get s = none
  blank : ∀ s, snaps s = some none ↔ w.snapshots.get s = some ⟨none, none⟩
  all : ∀ s view, snaps s = some (some view) → ∃ y, (s, y, view) ∈ S

/-- The world stands for the state `m` of the reference model. -/
structure Sim (Rep : E.Db → ByteMap cmp → List (E.Snap × ByteMap cmp) → Prop) (D d : Nat) (w : World E)
    (m : Ref cmp) : Prop where
  object : ∃ r, w.levelDBs.get D = some r ∧ w.Opened r d cmp ∧ .env ∈ r.refs
  store : ∃ inst S, w.dbs.get d = some inst ∧ Rep inst.db m.map (S.map Prod.snd) ∧ w.Taken D d S m.snaps
  iters : ∀ i, w.Yields D i (m.iters i)
  batches : ∀ b, (w.batches.get b).map (fun x => x.ops.map PyWriteBatchEntry.toOp) = m.batches b

/-! ### What a change has to leave alone -/

/-- The LevelDB object `D` stays open, and Python code keeps its reference to it. -/
structure World.KeepsDb (w w' : World E) (D : Nat) : Prop where
  object : ∀ r, w.levelDBs.get D = some r → ∃ r', w'.levelDBs.get D = some r' ∧ r'.db = r.db ∧
    r'.options = r.options ∧ .env ∈ r'.refs
  dbs : ∀ d x, w.dbs.get d = some x → ∃ y, w'.dbs.get d = some y
  options : w'.options = w.options
  comparators : w'.comparators = w.comparators

/-- What the iterator object `i` of the LevelDB object `D` has is left alone. -/
structure World.Spares (w w' : World E) (D i : Nat) : Prop where
  iter : w'.iters.get i = w.iters.get i
  ref : ∀ r r', w.levelDBs.get D = some r → w'.levelDBs.get D = some r' → .iter i ∈ r.refs →
    .iter i ∈ r'.refs
  cursor : ∀ it n x, w.iters.get i = some it → it.iterator = some n → w.ldbIterators.get n = some x →
    w'.ldbIterators.get n = some x
  bound : ∀ it p b, w.iters.get i = some it → it.bound = some p → w.strings.get p = some b →
    w'.strings.get p = some b

theorem World.KeepsDb.opened {r' : PyLevelDB} (hk : w.KeepsDb w' D) (h : w.Opened r d cmp)
    (hdb : r'.db = r.db) (hopt : r'.options = r.options) : w'.Opened r' d cmp := by
  obtain ⟨h1, ⟨x, hx⟩, o, opts, h2, h3, h4⟩ := h
  refine ⟨hdb.trans h1, hk.dbs d x hx, o, opts, hopt.trans h2, by rw [hk.options]; exact h3, ?_⟩
  cases hcmp : opts.comparator with
  | bytewise =>
    rw [hcmp] at h4
    exact h4
  | python p =>
    rw [hcmp] at h4
    obtain ⟨row, hrow, hcall⟩ := h4
    exact ⟨row, by rw [hk.comparators]; exact hrow, hcall⟩

theorem World.Yields.spared {o : Option (List Item)} (h : w.Yields D i o) (hk : w.KeepsDb w' D)
    (hs : w.Spares w' D i) : w'.Yields D i o := by
  cases o with
  | none => exact hs.iter.trans h
  | some l =>
    obtain ⟨⟨s, st, hscan, hres⟩, hon⟩ := h
    refine ⟨⟨s, st, ?_, hres⟩, fun it hit => hon it (hs.iter ▸ hit)⟩
    cases st with
    | none =>
      obtain ⟨rev, hi⟩ := hscan
      exact ⟨rev, hs.iter.trans hi⟩
    | some it =>
      obtain ⟨D', n, bound, d', r, hi, hb, hn, hr, ho, hm, hne⟩ := hscan
      obtain rfl : D' = D := by
        rcases hon _ hi with hd | hd
        · cases hd
        · exact Option.some.inj hd
      obtain ⟨r', hr', hdb, hopt, henv⟩ := hk.object r hr
      refine ⟨D', n, bound, d', r', hs.iter.trans hi, ?_, hs.cursor _ n _ hi rfl hn, hr',
        hk.opened ho hdb hopt, hs.ref r r' hr hr' hm,
        List.ne_nil_of_mem ((List.mem_erase_of_ne (by simp)).mpr henv)⟩
      -- the bound is the same string
      cases hbound : bound with
      | none =>
        rw [hbound] at hb
        exact hb
      | some p =>
        rw [hbound] at hb hi
        cases hsb : s.bound with
        | none =>
          rw [hsb] at hb
          cases hb
        | some b =>
          rw [hsb] at hb
          have hp : w.strings.get p = some b := Option.some.inj hb
          rw [Option.map_some, Option.map_some, hs.bound _ p b hi rfl hp]

theorem World.Taken.congr {S : List (Nat × E.Snap × ByteMap cmp)}
    {snaps : Nat → Option (Option (ByteMap cmp))} (h : w.Taken D d S snaps)
    (hs : w'.snapshots = w.snapshots) (hl : w'.ldbSnapshots = w.ldbSnapshots) :
    w'.Taken D d S snaps := by
  obtain ⟨h1, h2, h3, h4, h5⟩ := h
  exact ⟨h1, by rwa [hs, hl], by rwa [hs], by rwa [hs], h5⟩

/-- **A change of the world and of the state of the reference model.** The iterators that have other
entries to deliver than before are those that the change is about. -/
theorem Sim.change {Rep : E.Db → ByteMap cmp → List (E.Snap × ByteMap cmp) → Prop} {m m' : Ref cmp}
    (h : Sim Rep D d w m) (hk : w.KeepsDb w' D)
    (hstore : ∃ inst S, w'.dbs.get d = some inst ∧ Rep inst.db m'.map (S.map Prod.snd) ∧
      w'.Taken D d S m'.snaps)
    (hiters : ∀ i, (m'.iters i = m.iters i ∧ w.Spares w' D i) ∨ w'.Yields D i (m'.iters i))
    (hbatches : ∀ b, (w'.batches.get b).map (fun x => x.ops.map PyWriteBatchEntry.toOp) =
      m'.batches b) : Sim Rep D d w' m' := by
  obtain ⟨r, hr, ho, -⟩ := h.object
  obtain ⟨r', hr', hdb, hopt, henv⟩ := hk.object r hr
  refine ⟨⟨r', hr', hk.opened ho hdb hopt, henv⟩, hstore, fun i => ?_, hbatches⟩
  rcases hiters i with ⟨hm, hs⟩ | hy
  · rw [hm]
    exact (h.iters i).spared hk hs
  · exact hy

end Relation

/-! ## Every change keeps the relation -/

section Changes

variable {cmp : Bytes → Bytes → Int} {Rep : E.Db → ByteMap cmp → List (E.Snap × ByteMap cmp) → Prop}
  {m : Ref cmp} {w' : World E} {i n : Nat} {S : List (Nat × E.Snap × ByteMap cmp)}

theorem Sim.env (h : Sim Rep D d w m) (hr : w.levelDBs.get D = some r) : .env ∈ r.refs := by
  obtain ⟨r', hr', -, henv⟩ := h.object
  cases hr.symm.trans hr'
  exact henv

theorem Sim.keepsDb (h : Sim Rep D d w m) (hl : w'.levelDBs = w.levelDBs)
    (hd : ∀ d x, w.dbs.get d = some x → ∃ y, w'.dbs.get d = some y) (ho : w'.options = w.options)
    (hc : w'.comparators = w.comparators) : w.KeepsDb w' D :=
  ⟨fun r hr => ⟨r, by rw [hl]; exact hr, rfl, rfl, h.env hr⟩, hd, ho, hc⟩

theorem World.Spares.same (hi : w'.iters = w.iters) (hl : w'.levelDBs = w.levelDBs)
    (hn : w'.ldbIterators = w.ldbIterators) (hs : w'.strings = w.strings) : w.Spares w' D i := by
  refine ⟨by rw [hi], fun r r' hr hr' hm => ?_, fun _ _ _ _ _ hx => by rw [hn]; exact hx,
    fun _ _ _ _ _ hb => by rw [hs]; exact hb⟩
  rw [hl] at hr'
  cases hr.symm.trans hr'
  exact hm

/-- Only counted resources change. -/
theorem Sim.noise (h : Sim Rep D d w m) (e : Nat → Int) (o : Int) (c : Nat) :
    Sim Rep D d { w with exports := e, owned := o, calls := c } m := by
  obtain ⟨inst, S, hd, hrep, ht⟩ := h.store
  refine h.change (h.keepsDb rfl (fun _ x hx => ⟨x, hx⟩) rfl rfl) ⟨inst, S, hd, hrep, ht.congr rfl rfl⟩
    (fun i => .inl ⟨rfl, .same rfl rfl rfl rfl⟩) h.batches

/-- The database changes, and the map with it. -/
theorem Sim.wrote (h : Sim Rep D d w m) (inst : LdbInstance E) {db : E.Db} {map : ByteMap cmp} (ht : w.Taken D d S m.snaps)
    (hrep : Rep db map (S.map Prod.snd)) : Sim Rep D d (w.wrote d inst db) { m with map := map } :=
  h.change (h.keepsDb rfl (fun _ _ hx => Table.exists_set _ _ hx) rfl rfl)
    ⟨{ inst with db := db }, S, by simp [World.wrote], hrep, ht.congr rfl rfl⟩
    (fun i => .inl ⟨rfl, .same rfl rfl rfl rfl⟩) h.batches

/-- The batches change. -/
theorem Sim.setBatches (h : Sim Rep D d w m) {T : Table PyWriteBatch}
    {batches : Nat → Option (List BatchOp)}
    (hb : ∀ b, (T.get b).map (fun x => x.ops.map PyWriteBatchEntry.toOp) = batches b) :
    Sim Rep D d { w with batches := T } { m with batches := batches } := by
  obtain ⟨inst, S, hd, hrep, ht⟩ := h.store
  exact h.change (h.keepsDb rfl (fun _ x hx => ⟨x, hx⟩) rfl rfl) ⟨inst, S, hd, hrep, ht.congr rfl rfl⟩
    (fun i => .inl ⟨rfl, .same rfl rfl rfl rfl⟩) hb

/-- One batch changes. -/
theorem Sim.setBatch (h : Sim Rep D d w m) (b : Nat) (x : PyWriteBatch) :
    Sim Rep D d { w with batches := w.batches.set b x } { m with
      batches := Function.update m.batches b (some (x.ops.map PyWriteBatchEntry.toOp)) } := by
  refine h.setBatches fun b' => ?_
  by_cases hb : b' = b
  · subst hb
    simp
  · simpa [hb] using h.batches b'

theorem Sim.freeBatch (h : Sim Rep D d w m) (b : Nat) :
    Sim Rep D d { w with batches := w.batches.free b }
      { m with batches := Function.update m.batches b none } := by
  refine h.setBatches fun b' => ?_
  by_cases hb : b' = b
  · subst hb
    simp
  · simpa [hb] using h.batches b'

/-! ### Iterators -/

/-- The fields of the LevelDB object `D` change, but for the database and the options. -/
theorem World.KeepsDb.setRow {r' : PyLevelDB} (hr : w.levelDBs.get D = some r)
    (hw : w'.levelDBs = w.levelDBs.set D r') (hdb : r'.db = r.db) (hopt : r'.options = r.options)
    (henv : .env ∈ r'.refs) (hd : ∀ d x, w.dbs.get d = some x → ∃ y, w'.dbs.get d = some y)
    (ho : w'.options = w.options) (hc : w'.comparators = w.comparators) : w.KeepsDb w' D := by
  refine ⟨fun r₀ hr₀ => ?_, hd, ho, hc⟩
  cases hr.symm.trans hr₀
  exact ⟨r', by rw [hw]; simp, hdb, hopt, henv⟩

theorem World.Spares.setRow {r' : PyLevelDB} (hr : w.levelDBs.get D = some r)
    (hw : w'.levelDBs = w.levelDBs.set D r') (hi : w'.iters.get i = w.iters.get i)
    (hm : .iter i ∈ r.refs → .iter i ∈ r'.refs)
    (hn : ∀ it n x, w.iters.get i = some it → it.iterator = some n → w.ldbIterators.get n = some x →
      w'.ldbIterators.get n = some x)
    (hs : ∀ it p b, w.iters.get i = some it → it.bound = some p → w.strings.get p = some b →
      w'.strings.get p = some b) : w.Spares w' D i := by
  refine ⟨hi, fun r₀ r₁ hr₀ hr₁ => ?_, hn, hs⟩
  cases hr.symm.trans hr₀
  rw [hw, Table.get_set, if_pos rfl] at hr₁
  cases hr₁
  exact hm

/-- The iterator object `i` has to deliver `o` from now on, the others what they had. -/
theorem Sim.setIter (h : Sim Rep D d w m) {o : Option (List Item)} (hk : w.KeepsDb w' D)
    (hd : w'.dbs = w.dbs) (hs : w'.snapshots = w.snapshots) (hl : w'.ldbSnapshots = w.ldbSnapshots)
    (hb : w'.batches = w.batches) (hrest : ∀ j, j ≠ i → w.Spares w' D j) (hi : w'.Yields D i o) :
    Sim Rep D d w' { m with iters := Function.update m.iters i o } := by
  obtain ⟨inst, S, hinst, hrep, ht⟩ := h.store
  refine h.change hk ⟨inst, S, by rw [hd]; exact hinst, hrep, ht.congr hs hl⟩ (fun j => ?_)
    (by rw [hb]; exact h.batches)
  by_cases hj : j = i
  · subst hj
    exact .inr (by simpa using hi)
  · exact .inl ⟨by simp [hj], hrest j hj⟩

/-- An iterator object that is at its end. -/
theorem World.yields_nil {rev : Bool} (hi : w.iters.get i = some ⟨none, none, none, none, rev, false⟩) :
    w.Yields D i (some []) := by
  refine ⟨⟨⟨fun _ _ => 0, rev, false, none⟩, none, ⟨rev, hi⟩, Scan.results_none _⟩, fun it hit => ?_⟩
  cases hi.symm.trans hit
  exact .inl rfl

/-- The iterator object `i` comes to its end. -/
theorem Sim.cleaned (h : Sim Rep D d w m) (hinv : w.Inv) {bound : Option Nat} {rev inc : Bool}
    (hr : w.levelDBs.get D = some r)
    (hi : w.iters.get i = some ⟨some D, some D, some n, bound, rev, inc⟩) :
    Sim Rep D d (w.cleaned i D n bound rev r)
      { m with iters := Function.update m.iters i (some []) } := by
  have henv : .env ∈ r.refs.erase (.iter i) := (List.mem_erase_of_ne (by simp)).mpr (h.env hr)
  refine h.setIter (.setRow hr rfl rfl rfl henv (fun _ x hx => ⟨x, hx⟩) rfl rfl) rfl rfl rfl rfl
    (fun j hj => ?_) (World.yields_nil (by simp [World.cleaned]; rfl))
  refine .setRow hr rfl (by simp [World.cleaned, hj])
    (fun hm => (List.mem_erase_of_ne (by simpa using hj)).mpr hm) (fun it n' x hit hn' hx => ?_)
    fun it p b hit hp hb => ?_
  · have hne : n' ≠ n := by
      rintro rfl
      exact (hinv.iterApart i j _ it hi hit (Ne.symm hj)).1 n' rfl hn'
    simpa [World.cleaned, hne] using hx
  · refine get_freeOpt hb fun hbound => ?_
    exact (hinv.iterApart i j _ it hi hit (Ne.symm hj)).2 p hbound hp

/-- The cursor of the iterator object `i` moves. -/
theorem Sim.moved (h : Sim Rep D d w m) (hinv : w.Inv) {s : Scan} {bound : Option Nat} {d' : Nat}
    {it it' : E.Iter} {l : List Item}
    (hi : w.iters.get i = some ⟨some D, some D, some n, bound, s.reverse, s.includeValue⟩)
    (hb : bound.map w.strings.get = s.bound.map some) (hn : w.ldbIterators.get n = some ⟨d', it⟩)
    (hr : w.levelDBs.get D = some r) (ho : w.Opened r d' s.cmp) (hm : .iter i ∈ r.refs)
    (hne : r.refs.erase (.iter i) ≠ []) (hres : ∀ k, s.results (some it') k = Cursor.calls l k) :
    Sim Rep D d { w with ldbIterators := w.ldbIterators.set n ⟨d', it'⟩ }
      { m with iters := Function.update m.iters i (some l) } := by
  refine h.setIter (h.keepsDb rfl (fun _ x hx => ⟨x, hx⟩) rfl rfl) rfl rfl rfl rfl (fun j hj => ?_)
    ⟨⟨s, some it', ⟨D, n, bound, d', r, hi, hb, by simp, hr, ho, hm, hne⟩, hres⟩, fun x hx => ?_⟩
  · refine ⟨rfl, fun r₀ r₁ hr₀ hr₁ h₀ => ?_, fun a n' x ha hn' hx => ?_, fun _ _ _ _ _ hb => hb⟩
    · cases hr₀.symm.trans hr₁
      exact h₀
    · have hnn : n' ≠ n := by
        rintro rfl
        exact (hinv.iterApart i j _ a hi ha (Ne.symm hj)).1 n' rfl hn'
      simpa [hnn] using hx
  · cases hi.symm.trans hx
    exact .inr rfl

/-- An iterator object at its end goes. -/
theorem Sim.freeIter (h : Sim Rep D d w m) (i : Nat) :
    Sim Rep D d { w with iters := w.iters.free i }
      { m with iters := Function.update m.iters i none } := by
  refine h.setIter (h.keepsDb rfl (fun _ x hx => ⟨x, hx⟩) rfl rfl) rfl rfl rfl rfl (fun j hj => ?_)
    (by simp [World.Yields])
  refine ⟨by simp [hj], fun r₀ r₁ hr₀ hr₁ h₀ => ?_, fun _ _ _ _ _ hx => hx, fun _ _ _ _ _ hb => hb⟩
  cases hr₀.symm.trans hr₁
  exact h₀

/-- An iterator object at its end is at its end. -/
theorem Sim.ended (h : Sim Rep D d w m) {rev : Bool}
    (hi : w.iters.get i = some ⟨none, none, none, none, rev, false⟩) :
    Sim Rep D d { w with iters := w.iters.set i ⟨none, none, none, none, rev, false⟩ } m := by
  obtain ⟨inst, S, hd, hrep, ht⟩ := h.store
  refine h.change (h.keepsDb rfl (fun _ x hx => ⟨x, hx⟩) rfl rfl) ⟨inst, S, hd, hrep, ht.congr rfl rfl⟩
    (fun j => .inl ⟨rfl, ?_⟩) h.batches
  refine ⟨?_, fun r₀ r₁ hr₀ hr₁ h₀ => ?_, fun _ _ _ _ _ hx => hx, fun _ _ _ _ _ hb => hb⟩
  · by_cases hj : j = i
    · subst hj
      simp [hi]
    · simp [hj]
  · cases hr₀.symm.trans hr₁
    exact h₀

/-- A new iterator object. -/
theorem Sim.ranged (h : Sim Rep D d w m) {s : Scan} {it : E.Iter} {db : E.Db} {l : List Item}
    (ht : w.Taken D d S m.snaps) (hrep : Rep db m.map (S.map Prod.snd))
    (hr : w.levelDBs.get D = some r) (ho : w.Opened r d s.cmp)
    (hres : ∀ k, s.results (if E.valid it then some it else none) k = Cursor.calls l k) :
    Sim Rep D d (w.ranged D d r inst s it db)
      { m with iters := Function.update m.iters w.iters.next (some l) } := by
  have hne : r.refs ≠ [] := List.ne_nil_of_mem (h.env hr)
  have hyields : (w.ranged D d r inst s it db).Yields D w.iters.next (some l) := by
    refine ⟨⟨s, _, ranged_scanning ho hne, hres⟩, fun x hx => ?_⟩
    unfold World.ranged at hx
    split at hx <;>
    · rcases Table.get_push_some hx with ⟨-, rfl⟩ | ⟨hnn, -⟩
      · simp
      · exact absurd rfl hnn
  refine (h.wrote inst ht hrep).setIter ?_ ?_ ?_ ?_ ?_ (fun j hj => ?_) hyields
  all_goals unfold World.ranged World.wrote
  · split
    · exact .setRow hr rfl rfl rfl (List.mem_cons_of_mem _ (h.env hr)) (fun _ x hx => ⟨x, hx⟩) rfl rfl
    · exact ⟨fun r hr => ⟨r, hr, rfl, rfl, h.env hr⟩, fun _ x hx => ⟨x, hx⟩, rfl, rfl⟩
  · split <;> rfl
  · split <;> rfl
  · split <;> rfl
  · split <;> rfl
  · split
    · refine .setRow hr rfl (by simp [hj]) (fun hm => List.mem_cons_of_mem _ hm)
        (fun _ _ _ _ _ hx => Table.get_push_of _ hx) fun _ p b _ _ hb => ?_
      cases s.bound with
      | none => exact hb
      | some c => exact Table.get_push_of c hb
    · refine ⟨by simp [hj], fun r₀ r₁ hr₀ hr₁ h₀ => ?_,
        fun _ _ _ _ _ hx => Table.get_push_free_of _ hx, fun _ _ _ _ _ hb => hb⟩
      cases hr₀.symm.trans hr₁
      exact h₀

/-! ### Snapshots -/

/-- The references and the counter of snapshots change, and no iterator. -/
theorem Sim.setSnaps (h : Sim Rep D d w m) {refs : List Holder} {k : Int}
    {snaps : Nat → Option (Option (ByteMap cmp))} (hr : w.levelDBs.get D = some r)
    (hw : w'.levelDBs = w.levelDBs.set D (r.counted k r.nIterators refs)) (henv : .env ∈ refs)
    (hrefs : ∀ i, .iter i ∈ r.refs → .iter i ∈ refs) (hi : w'.iters = w.iters)
    (hn : w'.ldbIterators = w.ldbIterators) (hs : w'.strings = w.strings)
    (hd : ∀ d x, w.dbs.get d = some x → ∃ y, w'.dbs.get d = some y) (ho : w'.options = w.options)
    (hc : w'.comparators = w.comparators) (hb : w'.batches = w.batches)
    (hstore : ∃ inst S, w'.dbs.get d = some inst ∧ Rep inst.db m.map (S.map Prod.snd) ∧
      w'.Taken D d S snaps) : Sim Rep D d w' { m with snaps := snaps } := by
  refine h.change (.setRow hr hw rfl rfl henv hd ho hc) hstore (fun i => .inl ⟨rfl, ?_⟩)
    (by rw [hb]; exact h.batches)
  exact .setRow hr hw (by rw [hi]) (hrefs i) (fun _ _ _ _ _ hx => by rw [hn]; exact hx)
    fun _ _ _ _ _ hb => by rw [hs]; exact hb

theorem World.Taken.not_mem {snaps : Nat → Option (Option (ByteMap cmp))} (ht : w.Taken D d S snaps)
    {s : Nat} (hs : ∀ view, snaps s ≠ some (some view)) : ∀ x ∈ S, x.1 ≠ s := by
  rintro x hx rfl
  exact hs _ (ht.live x hx).1

/-- The snapshot object `s` takes a snapshot. -/
theorem World.Taken.add {snaps : Nat → Option (Option (ByteMap cmp))} (ht : w.Taken D d S snaps)
    {s : Nat} {y : E.Snap} (view : ByteMap cmp) (hs : ∀ view, snaps s ≠ some (some view)) :
    (w.addSnap s D d y r).Taken D d ((s, y, view) :: S)
      (Function.update snaps s (some (some view))) where
  nodup := by
    refine List.nodup_cons.mpr ⟨fun hmem => ?_, ht.nodup⟩
    obtain ⟨x, hx, hxs⟩ := List.mem_map.mp hmem
    exact ht.not_mem hs x hx hxs
  live x hx := by
    rcases List.mem_cons.mp hx with rfl | hx
    · exact ⟨by simp, w.ldbSnapshots.next, by simp [World.addSnap], by simp [World.addSnap]⟩
    · obtain ⟨hv, p, hp, hy⟩ := ht.live x hx
      have hne := ht.not_mem hs x hx
      refine ⟨by simp [hne, hv], p, ?_, Table.get_push_of _ hy⟩
      simp [World.addSnap, hne, hp]
  gone t := by
    by_cases hts : t = s
    · subst hts
      simp [World.addSnap]
    · simpa [World.addSnap, hts] using ht.gone t
  blank t := by
    by_cases hts : t = s
    · subst hts
      simp [World.addSnap]
    · simpa [World.addSnap, hts] using ht.blank t
  all t v hv := by
    by_cases hts : t = s
    · subst hts
      simp only [Function.update_self, Option.some.injEq] at hv
      subst hv
      exact ⟨y, List.mem_cons_self⟩
    · obtain ⟨y', hy'⟩ := ht.all t v (by simpa [hts] using hv)
      exact ⟨y', List.mem_cons_of_mem _ hy'⟩

/-- The snapshot object `s` goes, with its snapshot. -/
theorem World.Taken.drop {snaps : Nat → Option (Option (ByteMap cmp))} (hinv : w.Inv)
    (ht : w.Taken D d S snaps) {s p : Nat} {y : E.Snap} {view : ByteMap cmp}
    {S' : List (Nat × E.Snap × ByteMap cmp)} (hperm : S.Perm ((s, y, view) :: S'))
    (hs : w.snapshots.get s = some ⟨some D, some p⟩) (inst : LdbInstance E) (db : E.Db) :
    let w' := (w.wrote d inst db).endSnap s D p r
    World.Taken { w' with snapshots := w'.snapshots.free s } D d S' (Function.update snaps s none) where
  nodup := (List.nodup_cons.mp ((hperm.map Prod.fst).nodup_iff.mp ht.nodup)).2
  live x hx := by
    have hnodup := List.nodup_cons.mp ((hperm.map Prod.fst).nodup_iff.mp ht.nodup)
    have hne : x.1 ≠ s := fun e => hnodup.1 (List.mem_map.mpr ⟨x, hx, e⟩)
    obtain ⟨hv, q, hq, hy⟩ := ht.live x (hperm.mem_iff.mpr (List.mem_cons_of_mem _ hx))
    have hqp : q ≠ p := by
      rintro rfl
      exact hinv.snapApart x.1 s _ _ hq hs hne q rfl rfl
    refine ⟨by simp [hne, hv], q, ?_, ?_⟩
    · simp [World.endSnap, World.wrote, hne, hq]
    · simp [World.endSnap, World.wrote, hqp, hy]
  gone t := by
    by_cases hts : t = s
    · subst hts
      simp
    · simpa [World.endSnap, World.wrote, hts] using ht.gone t
  blank t := by
    by_cases hts : t = s
    · subst hts
      simp
    · simpa [World.endSnap, World.wrote, hts] using ht.blank t
  all t v hv := by
    by_cases hts : t = s
    · subst hts
      simp at hv
    · obtain ⟨y', hy'⟩ := ht.all t v (by simpa [hts] using hv)
      rcases List.mem_cons.mp (hperm.mem_iff.mp hy') with he | hm
      · cases he
        exact absurd rfl hts
      · exact ⟨y', hm⟩

/-- A snapshot object without a snapshot. -/
theorem Sim.blankSnap (h : Sim Rep D d w m) {s : Nat} (hs : ∀ view, m.snaps s ≠ some (some view)) :
    Sim Rep D d { w with snapshots := w.snapshots.set s ⟨none, none⟩ }
      { m with snaps := Function.update m.snaps s (some none) } := by
  obtain ⟨inst, S, hd, hrep, ht⟩ := h.store
  refine h.change (h.keepsDb rfl (fun _ x hx => ⟨x, hx⟩) rfl rfl) ⟨inst, S, hd, hrep, ?_⟩
    (fun i => .inl ⟨rfl, .same rfl rfl rfl rfl⟩) h.batches
  refine ⟨ht.nodup, fun x hx => ?_, fun t => ?_, fun t => ?_, fun t v hv => ?_⟩
  · obtain ⟨hv, p, hp, hy⟩ := ht.live x hx
    have hne := ht.not_mem hs x hx
    exact ⟨by simp [hne, hv], p, by simp [hne, hp], hy⟩
  · by_cases hts : t = s
    · subst hts
      simp
    · simpa [hts] using ht.gone t
  · by_cases hts : t = s
    · subst hts
      simp
    · simpa [hts] using ht.blank t
  · by_cases hts : t = s
    · subst hts
      simp at hv
    · exact ht.all t v (by simpa [hts] using hv)

end Changes

end PyLeveldb
