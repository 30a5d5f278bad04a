import PyLeveldb.Simulation

/-!
# The binding refines the reference model

* `put_refines`, `get_refines`, `next_refines`, ...: every call, made in a world that stands for a state
  of the reference model, gives an answer of the reference model there and leaves a world that stands for
  its next state.
* `store_refines`: so every run of calls is a run of the reference model.
-/

namespace PyLeveldb

variable {E : Env} {w : World E} {D d : Nat} {r : PyLevelDB} {inst : LdbInstance E}

open PyLevelDBIter (Item NextAllocs)

/-! ## Every call is a step -/

section Steps

variable {cmp : Bytes → Bytes → Int} {hc : Compares cmp}
  {Rep : E.Db → ByteMap cmp → List (E.Snap × ByteMap cmp) → Prop}
  {At : ByteMap cmp → E.Iter → Option Nat → Prop} {Fails : String → Prop} {m : Ref cmp} {i n : Nat}

/-- The program `p`, run for the call `op` in the world `w`, gives an answer of the reference model, and
leaves a world that stands for its next state. -/
def Refines (hc : Compares cmp) (Rep : E.Db → ByteMap cmp → List (E.Snap × ByteMap cmp) → Prop)
    (Fails : String → Prop) (D d : Nat) (w : World E) (m : Ref cmp) (op : ApiOp E) (p : C E Answer) : Prop :=
  p.wp (.alone fun _ => False)
    (fun a w' _ => ∃ m', m.Answers hc Fails op a m' ∧ Sim Rep D d w' m') w ()

theorem Ref.Answers.reports_none {op : ApiOp E} {a : Answer} {m' : Ref cmp} (hfresh : m.Fresh n op)
    (hstep : m.step hc none n op = (a, m')) : m.Answers hc Fails op a m' :=
  ⟨none, n, fun _ h => (by cases h), hfresh, hstep⟩

theorem Ref.Answers.reports_some {op : ApiOp E} {a : Answer} {m' : Ref cmp} {text : String}
    (hfails : Fails text) (hfresh : m.Fresh n op) (hstep : m.step hc (some text) n op = (a, m')) :
    m.Answers hc Fails op a m' := by
  refine ⟨some text, n, fun _ h => ?_, hfresh, hstep⟩
  cases h
  exact hfails

/-- The status and the database that leveldb gives for a write, from the map `m` to the map `m'`. -/
def WritesAs (Rep : E.Db → ByteMap cmp → List (E.Snap × ByteMap cmp) → Prop) (Fails : String → Prop)
    (m m' : ByteMap cmp) (S : List (E.Snap × ByteMap cmp)) (x : Status × E.Db) : Prop :=
  (x.1 = .ok ∧ Rep x.2 m' S) ∨ ∃ text, x.1 = .failed text ∧ Fails text ∧ Rep x.2 m S

/-- After a write. -/
theorem Sim.written (h : Sim Rep D d w m) (op : ApiOp E) {S : List (Nat × E.Snap × ByteMap cmp)}
    {map : ByteMap cmp} {x : Status × E.Db} (inst : LdbInstance E) (ht : w.Taken D d S m.snaps)
    (hx : WritesAs Rep Fails m.map map (S.map Prod.snd) x) (hfresh : m.Fresh 0 op)
    (hstep : ∀ fails, m.step hc fails 0 op = m.write true map fails) (e : Nat → Int) :
    ∃ m', m.Answers hc Fails op (Answer.of (fun _ => .none) x.1.outcome) m' ∧
      Sim Rep D d { w.wrote d inst x.2 with exports := e } m' := by
  rcases hx with ⟨hok, hrep⟩ | ⟨text, hbad, hfails, hrep⟩
  · refine ⟨{ m with map := map }, .reports_none hfresh ?_,
      (h.wrote inst ht hrep).noise e w.owned w.calls⟩
    rw [hstep, hok]
    rfl
  · refine ⟨m, .reports_some hfails hfresh ?_, (h.wrote inst ht hrep).noise e w.owned w.calls⟩
    rw [hstep, hbad]
    rfl

/-- A call that does not parse changes nothing. -/
theorem Sim.unparsed (h : Sim Rep D d w m) (op : ApiOp E) (hfresh : m.Fresh n op)
    (hstep : m.step hc none n op = (.error .parse, m)) (e : Nat → Int) :
    ∃ m', m.Answers hc Fails op (.error .parse) m' ∧ Sim Rep D d { w with exports := e } m' :=
  ⟨m, .reports_none hfresh hstep, h.noise e w.owned w.calls⟩

section Database

variable (hE : IsStore E hc Rep At Fails) (h : Sim Rep D d w m)
include hE h

theorem put_refines (args : PyLevelDB.PutArgs) :
    Refines hc Rep Fails D d w m (.put D args) (ApiOp.put D args).prog := by
  obtain ⟨r, hr, ho, -⟩ := h.object
  obtain ⟨inst, S, hd, hrep, ht⟩ := h.store
  rw [Refines, ApiOp.prog, Prog.wp_map]
  refine put_runs hr ho.1 hd (fun hp => ?_) fun hp e => ?_
  · exact h.unparsed (.put D args) (n := 0) trivial (by simp [Ref.step, Ref.write, hp]) w.exports
  · exact h.written (.put D args) inst ht (hE.put _ _ _ hrep) trivial (fun fails => by simp [Ref.step, hp]) e

theorem delete_refines (args : PyLevelDB.DeleteArgs) :
    Refines hc Rep Fails D d w m (.delete D args) (ApiOp.delete D args).prog := by
  obtain ⟨r, hr, ho, -⟩ := h.object
  obtain ⟨inst, S, hd, hrep, ht⟩ := h.store
  rw [Refines, ApiOp.prog, Prog.wp_map]
  refine delete_runs hr ho.1 hd (fun hp => ?_) fun hp e => ?_
  · exact h.unparsed (.delete D args) (n := 0) trivial (by simp [Ref.step, Ref.write, hp]) w.exports
  · exact h.written (.delete D args) inst ht (hE.delete _ _ hrep) trivial (fun fails => by simp [Ref.step, hp]) e

/-- `Write` applies the records of the batch in order, and leaves the batch. -/
theorem write_refines (args : PyLevelDB.WriteArgs) {b : PyWriteBatch}
    (hb : w.batches.get args.writeBatch = some b) :
    Refines hc Rep Fails D d w m (.write D args) (ApiOp.write D args).prog := by
  obtain ⟨r, hr, ho, -⟩ := h.object
  obtain ⟨inst, S, hd, hrep, ht⟩ := h.store
  have hrec : m.records args.writeBatch = b.ops.map PyWriteBatchEntry.toOp := by
    have := h.batches args.writeBatch
    rw [hb] at this
    rw [Ref.records, ← this]
    rfl
  rw [Refines, ApiOp.prog, Prog.wp_map]
  refine write_runs hr ho.1 hd hb (fun hp => ?_) fun hp e => ?_
  · exact h.unparsed (.write D args) (n := 0) trivial (by simp [Ref.step, Ref.write, hp]) w.exports
  · exact h.written (.write D args) inst ht (hE.write _ _ hrep) trivial
      (fun fails => by simp [Ref.step, hp, hrec]) e

theorem compactRange_refines (args : PyLevelDB.CompactArgs) :
    Refines hc Rep Fails D d w m (.compactRange D args) (ApiOp.compactRange D args).prog := by
  obtain ⟨r, hr, ho, -⟩ := h.object
  obtain ⟨inst, S, hd, hrep, ht⟩ := h.store
  rw [Refines, ApiOp.prog, Prog.wp_map]
  refine compactRange_runs hr ho.1 hd (fun hp e => ?_) fun hp e => ?_
  · exact h.unparsed (.compactRange D args) (n := 0) trivial (by simp [Ref.step, hp]) e
  · refine ⟨m, .reports_none (n := 0) trivial (by simp [Ref.step, hp, Answer.of]), ?_⟩
    exact (h.wrote inst ht (hE.compactRange _ _ hrep)).noise e w.owned w.calls

end Database

/-- The answer of a read. -/
theorem read_answers {view : ByteMap cmp} {args : PyLevelDB.GetArgs} (alloc : Bool) {status : Status}
    {value : Bytes} (hp : parses args.wellFormed [args.key] = true)
    (hx : ReadsAs Fails view args.key.bytes status value) :
    ∃ fails, (∀ text, fails = some text → Fails text) ∧
      Ref.read view args alloc fails = Answer.of .value (args.outcome alloc status value) := by
  rcases hx with ⟨rfl, hv⟩ | ⟨⟨text, rfl⟩, hv⟩ | ⟨text, rfl, hfails⟩
  · refine ⟨none, fun _ ht => (by cases ht), ?_⟩
    cases alloc <;>
      simp [Ref.read, hp, hv, PyLevelDB.GetArgs.outcome, Status.isNotFound, Status.isOk, Answer.of]
  · refine ⟨none, fun _ ht => (by cases ht), ?_⟩
    cases hdef : args.default <;>
      simp [Ref.read, hp, hv, hdef, PyLevelDB.GetArgs.outcome, Status.isNotFound, Answer.of]
  · refine ⟨some text, fun _ ht => Option.some.inj ht ▸ hfails, ?_⟩
    simp [Ref.read, hp, PyLevelDB.GetArgs.outcome, Status.isNotFound, Status.isOk, Status.toString,
      Answer.of]

/-- A read, with or without a snapshot. -/
theorem get_steps (hE : IsStore E hc Rep At Fails) (h : Sim Rep D d w m)
    {S : List (Nat × E.Snap × ByteMap cmp)} (hd : w.dbs.get d = some inst)
    (hrep : Rep inst.db m.map (S.map Prod.snd)) (ht : w.Taken D d S m.snaps) {snapshot : Option Nat}
    {snap : Option E.Snap} {view : ByteMap cmp} (hs : w.SnapshotAt d snapshot snap)
    (hview : Views m.map (S.map Prod.snd) snap view) {op : ApiOp E} {args : PyLevelDB.GetArgs}
    {alloc : Bool} (hfresh : m.Fresh 0 op)
    (hstep : ∀ fails, m.step hc fails 0 op = (Ref.read view args alloc fails, m)) :
    (PyLevelDB.get_ (some d) snapshot args alloc).wp (.alone fun _ => False)
      (fun a w' _ => ∃ m', m.Answers hc Fails op (Answer.of .value a) m' ∧ Sim Rep D d w' m') w () := by
  refine get_runs hd hs (fun hp => ?_) fun hp e o => ?_
  · refine ⟨m, .reports_none hfresh ?_, h⟩
    rw [hstep, Ref.read, hp]
    rfl
  · obtain ⟨hread, hrep'⟩ := hE.get ⟨args.verifyChecksums, args.fillCache, snap⟩ args.key.bytes view hrep
      hview
    obtain ⟨fails, hfails, hans⟩ := read_answers alloc hp hread
    refine ⟨m, ⟨fails, 0, hfails, hfresh, ?_⟩, (h.wrote inst ht hrep').noise e o w.calls⟩
    rw [hstep, hans]

theorem get_refines (hE : IsStore E hc Rep At Fails) (h : Sim Rep D d w m) (args : PyLevelDB.GetArgs)
    (alloc : Bool) : Refines hc Rep Fails D d w m (.get D args alloc) (ApiOp.get D args alloc).prog := by
  obtain ⟨r, hr, ho, -⟩ := h.object
  obtain ⟨inst, S, hd, hrep, ht⟩ := h.store
  simp only [Refines, ApiOp.prog, Prog.wp_map, PyLevelDB.get, Prog.wp_bind, wp_load_levelDB, hr,
    Prog.found_some, ho.1]
  exact get_steps hE h hd hrep ht (w.snapshotAt_none d) rfl trivial fun _ => rfl

/-! ### Snapshot objects -/

/-- A snapshot object that has a snapshot: the map that it stands for. -/
theorem Sim.held (h : Sim Rep D d w m) {s : Nat} (hs : w.HeldSnapshot s) :
    ∃ inst S y view p, w.dbs.get d = some inst ∧ Rep inst.db m.map (S.map Prod.snd) ∧
      w.Taken D d S m.snaps ∧ (s, y, view) ∈ S ∧ m.frozen s = view ∧
      w.snapshots.get s = some ⟨some D, some p⟩ ∧ w.ldbSnapshots.get p = some ⟨d, y⟩ := by
  obtain ⟨inst, S, hd, hrep, ht⟩ := h.store
  obtain ⟨x, hx, hne⟩ := hs
  cases hm : m.snaps s with
  | none =>
    have := (ht.gone s).mp hm
    rw [hx] at this
    cases this
  | some o =>
    cases o with
    | none =>
      have := (ht.blank s).mp hm
      rw [hx] at this
      cases this
      exact absurd rfl hne
    | some view =>
      obtain ⟨y, hy⟩ := ht.all s view hm
      obtain ⟨-, p, hp, hl⟩ := ht.live _ hy
      exact ⟨inst, S, y, view, p, hd, hrep, ht, hy, by simp [Ref.frozen, hm], hp, hl⟩

theorem snapshotGet_refines (hE : IsStore E hc Rep At Fails) (h : Sim Rep D d w m) {s : Nat}
    (hs : w.HeldSnapshot s) (args : PyLevelDB.GetArgs) (alloc : Bool) :
    Refines hc Rep Fails D d w m (.snapshotGet s args alloc) (ApiOp.snapshotGet s args alloc).prog := by
  obtain ⟨r, hr, ho, -⟩ := h.object
  obtain ⟨inst, S, y, view, p, hd, hrep, ht, hmem, hview, hp, hl⟩ := h.held hs
  simp only [Refines, ApiOp.prog, Prog.wp_map, PyLevelDBSnapshot.get, Prog.wp_bind, wp_load_snapshot, hp,
    Prog.found_some, wp_deref, wp_load_levelDB, hr, ho.1]
  have hat : w.SnapshotAt d (some p) (some y) := by simp [World.SnapshotAt, hl]
  refine get_steps hE h hd hrep ht hat (List.mem_map.mpr ⟨_, hmem, rfl⟩) trivial fun fails => ?_
  rw [Ref.step, hview]

/-- `CreateSnapshot`: the snapshot stands for the map as it is now. -/
theorem createSnapshot_refines (hE : IsStore E hc Rep At Fails) (h : Sim Rep D d w m) (alloc : Bool) :
    Refines hc Rep Fails D d w m (.createSnapshot D alloc) (ApiOp.createSnapshot D alloc).prog := by
  obtain ⟨r, hr, ho, henv⟩ := h.object
  obtain ⟨inst, S, hd, hrep, ht⟩ := h.store
  have hgone : m.snaps w.snapshots.next = none := (ht.gone _).mpr (Table.get_next _)
  have hget := hE.getSnapshot hrep
  rw [Refines, ApiOp.prog, Prog.wp_map]
  refine createSnapshot_runs hr ho.1 hd (fun ha => ?_) fun ha => ?_
  · subst ha
    refine ⟨_, .reports_none (n := w.snapshots.next) hgone rfl, ?_⟩
    refine h.setSnaps hr rfl
      (List.mem_cons_of_mem _ henv) (fun _ hm => List.mem_cons_of_mem _ hm) rfl rfl rfl
      (fun _ _ hx => Table.exists_set _ _ hx) rfl rfl rfl ?_
    have ht' : (w.wrote d inst (E.getSnapshot inst.db).2).Taken D d S m.snaps := ht.congr rfl rfl
    exact ⟨{ inst with db := (E.getSnapshot inst.db).2 },
      (w.snapshots.next, (E.getSnapshot inst.db).1, m.map) :: S, by simp [World.addSnap, World.wrote], hget,
      ht'.add m.map fun view => by simp [hgone]⟩
  · subst ha
    refine ⟨m, .reports_none (n := w.snapshots.next) hgone rfl, ?_⟩
    refine h.change (h.keepsDb rfl (fun _ _ hx => Table.exists_set _ _ hx) rfl rfl)
      ⟨{ inst with db := E.releaseSnapshot (E.getSnapshot inst.db).1 (E.getSnapshot inst.db).2 }, S,
        by simp [World.wrote], hE.releaseSnapshot hget, ?_⟩
      (fun i => .inl ⟨rfl, .same rfl rfl rfl rfl⟩) h.batches
    refine ⟨ht.nodup, fun x hx => ?_, ht.gone, ht.blank, ht.all⟩
    obtain ⟨hv, p, hp, hy⟩ := ht.live x hx
    exact ⟨hv, p, hp, Table.get_push_free_of _ hy⟩

theorem newSnapshot_refines (h : Sim Rep D d w m) (alloc : Bool) :
    Refines hc Rep Fails D d w m (.newSnapshot alloc) (ApiOp.newSnapshot alloc).prog := by
  obtain ⟨inst, S, hd, hrep, ht⟩ := h.store
  have hgone : m.snaps w.snapshots.next = none := (ht.gone _).mpr (Table.get_next _)
  rw [Refines, ApiOp.prog, Prog.wp_map]
  refine snapshotNew_runs ?_
  cases alloc with
  | false => exact ⟨m, .reports_none (n := w.snapshots.next) hgone rfl, h⟩
  | true =>
    exact ⟨_, .reports_none (n := w.snapshots.next) hgone rfl, h.blankSnap fun view => by simp [hgone]⟩

/-- `Snapshot(db)`. -/
theorem initSnapshot_refines (hE : IsStore E hc Rep At Fails) (h : Sim Rep D d w m) {s : Nat}
    (hs : w.snapshots.get s = some ⟨none, none⟩) {args : Option Nat} (ha : ∀ D', args = some D' → D' = D) :
    Refines hc Rep Fails D d w m (.initSnapshot s args) (ApiOp.initSnapshot s args).prog := by
  obtain ⟨r, hr, ho, henv⟩ := h.object
  obtain ⟨inst, S, hd, hrep, ht⟩ := h.store
  have hblank : ∀ view, m.snaps s ≠ some (some view) := fun view hv => by
    rw [(ht.blank s).mpr hs] at hv
    cases hv
  rw [Refines, ApiOp.prog, Prog.wp_map]
  cases args with
  | none =>
    simp only [PyLevelDBSnapshot.init, wp_inFrame, Prog.alone_event, Prog.wp_bind, wp_load_snapshot, hs,
      Prog.found_some, PyLevelDBSnapshot.close, Prog.wp_pure, wp_update_snapshot, wp_py]
    exact ⟨_, .reports_none (n := 0) trivial rfl, h.blankSnap hblank⟩
  | some D' =>
    obtain rfl := ha D' rfl
    refine snapshotInit_runs hr ho.1 hd hs ⟨_, .reports_none (n := 0) trivial rfl, ?_⟩
    refine h.setSnaps hr rfl
      (List.mem_cons_of_mem _ henv) (fun _ hm => List.mem_cons_of_mem _ hm) rfl rfl rfl
      (fun _ _ hx => Table.exists_set _ _ hx) rfl rfl rfl ?_
    have ht' : (w.wrote d inst (E.getSnapshot inst.db).2).Taken D' d S m.snaps := ht.congr rfl rfl
    exact ⟨{ inst with db := (E.getSnapshot inst.db).2 }, (s, (E.getSnapshot inst.db).1, m.map) :: S,
      by simp [World.addSnap, World.wrote], hE.getSnapshot hrep, ht'.add m.map hblank⟩

theorem dropSnapshot_refines (hE : IsStore E hc Rep At Fails) (hinv : w.Inv) (h : Sim Rep D d w m)
    {s : Nat} (hs : w.HeldSnapshot s) :
    Refines hc Rep Fails D d w m (.dropSnapshot s) (ApiOp.dropSnapshot s).prog := by
  obtain ⟨r, hr, ho, henv⟩ := h.object
  obtain ⟨inst, S, y, view, p, hd, hrep, ht, hmem, -, hp, hl⟩ := h.held hs
  obtain ⟨A, B, rfl⟩ := List.append_of_mem hmem
  have hperm : (A ++ (s, y, view) :: B).Perm ((s, y, view) :: (A ++ B)) := List.perm_middle
  have hrel : Rep (E.releaseSnapshot y inst.db) m.map ((A ++ B).map Prod.snd) :=
    hE.releaseSnapshot (hE.perm hrep (hperm.map Prod.snd))
  have hm : .snap s ∈ r.refs := by
    rcases hinv.snap s _ hp with hnone | ⟨D', p', r', d', y', hx, hr', -, -, hm⟩
    · cases hnone
    · cases hx
      cases hr.symm.trans hr'
      exact hm
  rw [Refines, ApiOp.prog, Prog.wp_map]
  refine snapshotDealloc_runs hr ho.1 hd hp hl hm henv ⟨_, .reports_none (n := 0) trivial rfl, ?_⟩
  exact h.setSnaps hr rfl ((List.mem_erase_of_ne (by simp)).mpr henv)
    (fun _ hm => (List.mem_erase_of_ne (by simp)).mpr hm) rfl rfl rfl
    (fun _ _ hx => Table.exists_set _ _ hx) rfl rfl rfl
    ⟨{ inst with db := E.releaseSnapshot y inst.db }, A ++ B, by simp [World.endSnap, World.wrote], hrel,
      ht.drop hinv hperm hp inst _⟩

/-! ### Iterator objects -/

/-- A scan, with or without a snapshot. -/
theorem scan_steps (hE : IsStore E hc Rep At Fails) (h : Sim Rep D d w m)
    {S : List (Nat × E.Snap × ByteMap cmp)} (hr : w.levelDBs.get D = some r) (ho : w.Opened r d cmp)
    (hd : w.dbs.get d = some inst) (hrep : Rep inst.db m.map (S.map Prod.snd))
    (ht : w.Taken D d S m.snaps) {snapshot : Option Nat} {snap : Option E.Snap} {view : ByteMap cmp}
    (hs : w.SnapshotAt d snapshot snap) (hview : Views m.map (S.map Prod.snd) snap view) {op : ApiOp E}
    {args : RangeArgs} {alloc : Bool} (hfresh : m.iters w.iters.next = none → m.Fresh w.iters.next op)
    (hstep : m.step hc none w.iters.next op = m.scan view args alloc w.iters.next) :
    (PyLevelDB.rangeIter_ (some D) snapshot args alloc).wp (.alone fun _ => False)
      (fun a w' _ => ∃ m', m.Answers hc Fails op (Answer.of .object a) m' ∧ Sim Rep D d w' m') w () := by
  have hfree : m.Fresh w.iters.next op := by
    refine hfresh ?_
    have := h.iters w.iters.next
    cases hm : m.iters w.iters.next with
    | none => rfl
    | some l =>
      rw [hm] at this
      obtain ⟨⟨s, st, hscan, -⟩, -⟩ := this
      cases st with
      | none =>
        obtain ⟨rev, hi⟩ := hscan
        cases (Table.get_next _).symm.trans hi
      | some it =>
        obtain ⟨D', n, bound, d', r', hi, -⟩ := hscan
        cases (Table.get_next _).symm.trans hi
  cases hp : args.parses with
  | false =>
    exact rangeIter_refused hp fun e => h.unparsed op hfree (by rw [hstep, Ref.scan, hp]; rfl) e
  | true =>
    obtain ⟨⟨it, p, hit, hat⟩, hrep'⟩ :=
      hE.newIterator ⟨args.verifyChecksums, args.fillCache, snap⟩ view hrep hview
    have hgives : E.newIterator ⟨args.verifyChecksums, args.fillCache, snap⟩ inst.db =
        (some it, (E.newIterator ⟨args.verifyChecksums, args.fillCache, snap⟩ inst.db).2) :=
      Prod.ext hit rfl
    cases alloc with
    | false =>
      refine wp_rangeIter_noMemory hr ho hd hs hp hgives fun x T e o c hT => ?_
      refine ⟨m, .reports_none hfree (by rw [hstep, Ref.scan, hp]; rfl), ?_⟩
      refine ((h.wrote inst ht hrep').noise e o c).change ?_ ⟨_, S, (Table.get_set ..).trans (if_pos rfl),
        hrep', ht.congr rfl rfl⟩ (fun i => .inl ⟨rfl, ?_⟩) h.batches
      · exact ⟨fun r hr => ⟨r, hr, rfl, rfl, h.env hr⟩, fun _ x hx => ⟨x, hx⟩, rfl, rfl⟩
      · refine ⟨rfl, fun r₀ r₁ hr₀ hr₁ h₀ => ?_, fun _ _ y _ _ hy => ?_, fun _ p b _ _ hb => hT p b hb⟩
        · cases hr₀.symm.trans hr₁
          exact h₀
        · exact Table.get_push_free_of _ hy
    | true =>
      refine wp_rangeIter_ hr ho hd hs hp hgives fun e o c => ?_
      refine ⟨_, .reports_none hfree (by rw [hstep, Ref.scan, hp]; rfl), Sim.noise ?_ e o c⟩
      refine h.ranged ht hrep' hr ho fun k => ?_
      rw [Scan.results_if_valid]
      exact Scan.results_place hc (hE.cursor view) hat args k

theorem rangeIter_refines (hE : IsStore E hc Rep At Fails) (h : Sim Rep D d w m) (args : RangeArgs)
    (alloc : Bool) :
    Refines hc Rep Fails D d w m (.rangeIter D args alloc) (ApiOp.rangeIter D args alloc).prog := by
  obtain ⟨r, hr, ho, -⟩ := h.object
  obtain ⟨inst, S, hd, hrep, ht⟩ := h.store
  rw [Refines, ApiOp.prog, Prog.wp_map]
  exact scan_steps hE h hr ho hd hrep ht (w.snapshotAt_none d) rfl id rfl

theorem snapshotRangeIter_refines (hE : IsStore E hc Rep At Fails) (h : Sim Rep D d w m) {s : Nat}
    (hs : w.HeldSnapshot s) (args : RangeArgs) (alloc : Bool) :
    Refines hc Rep Fails D d w m (.snapshotRangeIter s args alloc)
      (ApiOp.snapshotRangeIter s args alloc).prog := by
  obtain ⟨r, hr, ho, -⟩ := h.object
  obtain ⟨inst, S, y, view, p, hd, hrep, ht, hmem, hview, hp, hl⟩ := h.held hs
  simp only [Refines, ApiOp.prog, Prog.wp_map, PyLevelDBSnapshot.rangeIter, Prog.wp_bind,
    wp_load_snapshot, hp, Prog.found_some]
  have hat : w.SnapshotAt d (some p) (some y) := by simp [World.SnapshotAt, hl]
  refine scan_steps hE h hr ho hd hrep ht hat (List.mem_map.mpr ⟨_, hmem, rfl⟩) id ?_
  rw [Ref.step, hview]

/-- An iterator object of the run: what it has yet to deliver, and the scan behind it. -/
theorem Sim.yields (h : Sim Rep D d w m) {x : PyLevelDBIter} (hx : w.iters.get i = some x) :
    ∃ l, m.iters i = some l ∧ w.Yields D i (some l) := by
  have := h.iters i
  cases hm : m.iters i with
  | none =>
    rw [hm] at this
    cases hx.symm.trans this
  | some l => exact ⟨l, rfl, by rwa [hm] at this⟩

theorem Cursor.calls_inj_nil {α : Type} {l : List α}
    (h : ∀ k, Cursor.calls ([] : List α) k = Cursor.calls l k) : l = [] := by
  cases l with
  | nil => rfl
  | cons a l =>
    have := h 1
    rw [Cursor.calls_nil, Cursor.calls_cons] at this
    cases this

/-- What lies ahead of a scan that is not over. -/
theorem Scan.results_cons {s : Scan} {it : E.Iter} {l : List Item} (hstop : ¬ s.stops it = true)
    (hres : ∀ k, s.results (some it) k = Cursor.calls l k) :
    ∃ l', l = s.item it :: l' ∧ ∀ k, s.results (some (s.move it)) k = Cursor.calls l' k := by
  have hfirst := hres 1
  have hnext : ∀ k, s.results (some it) (k + 1) = some (s.item it) :: s.results (some (s.move it)) k := by
    intro k
    rw [Scan.results, Scan.next, if_neg hstop]
  cases l with
  | nil =>
    rw [hnext, Cursor.calls_nil] at hfirst
    cases hfirst
  | cons a l' =>
    rw [hnext, Cursor.calls_cons] at hfirst
    obtain rfl : s.item it = a := by
      injection hfirst with hhead _
      exact Option.some.inj hhead
    refine ⟨l', rfl, fun k => ?_⟩
    have := hres (k + 1)
    rw [hnext, Cursor.calls_cons] at this
    injection this

theorem Scan.results_nil {s : Scan} {it : E.Iter} {l : List Item} (hstop : s.stops it = true)
    (hres : ∀ k, s.results (some it) k = Cursor.calls l k) : l = [] := by
  refine Cursor.calls_inj_nil fun k => ?_
  rw [← hres]
  cases k with
  | zero => rfl
  | succ k => rw [Scan.results, Scan.next, if_pos hstop, Scan.results_none, Cursor.calls_nil]

/-- `next` delivers what is due, and the other iterators are left alone. -/
theorem next_refines (hinv : w.Inv) (h : Sim Rep D d w m) {x : PyLevelDBIter}
    (hx : w.iters.get i = some x) (allocs : NextAllocs) :
    Refines hc Rep Fails D d w m (.next i allocs) (ApiOp.next i allocs).prog := by
  obtain ⟨l, hl, ⟨s, st, hscan, hres⟩, hon⟩ := h.yields hx
  rw [Refines, ApiOp.prog, Prog.wp_map]
  cases st with
  | none =>
    obtain ⟨rev, hi⟩ := hscan
    obtain rfl : l = [] := Cursor.calls_inj_nil fun k => by rw [← Scan.results_none s, hres]
    exact wp_next_dead hi ⟨m, .reports_none (n := 0) trivial (by simp [Ref.step, Ref.deliver, hl, Answer.of]),
      h.ended hi⟩
  | some it =>
    obtain ⟨D', n, bound, d', r, hi, hb, hn, hr, ho, hm, hne⟩ := hscan
    obtain rfl : D' = D := by
      rcases hon _ hi with hd | hd
      · cases hd
      · exact Option.some.inj hd
    refine wp_next_live hi hb hn hr ho hm hne fun o c => ?_
    have hsim := h.noise w.exports o c
    have hinv' := hinv.noise w.exports o c
    by_cases hstop : s.stops it = true
    · obtain rfl := Scan.results_nil hstop hres
      have hkeep : Function.update m.iters i (some []) = m.iters := by rw [← hl, Function.update_eq_self]
      have := hsim.cleaned hinv' hr hi
      rw [hkeep] at this
      simp only [Scan.attempt, World.stepped, hstop, ↓reduceIte]
      exact ⟨m, .reports_none (n := 0) trivial (by simp [Ref.step, Ref.deliver, hl, Answer.of]), this⟩
    · obtain ⟨l', rfl, hres'⟩ := Scan.results_cons hstop hres
      have haff : Ref.affords allocs (s.item it) = s.affords allocs := by
        simp only [Ref.affords, Scan.affords, Scan.item]
        cases s.includeValue <;> rfl
      simp only [Scan.attempt, World.stepped, hstop, Bool.false_eq_true, ↓reduceIte]
      cases ha : s.affords allocs with
      | false =>
        exact ⟨m, .reports_none (n := 0) trivial (by simp [Ref.step, Ref.deliver, hl, haff, ha, Answer.of]),
          hsim⟩
      | true =>
        exact ⟨_, .reports_none (n := 0) trivial (by simp [Ref.step, Ref.deliver, hl, haff, ha, Answer.of]),
          hsim.moved hinv' hi hb hn hr ho hm hne hres'⟩

theorem dropIter_refines (hinv : w.Inv) (h : Sim Rep D d w m) {x : PyLevelDBIter}
    (hx : w.iters.get i = some x) :
    Refines hc Rep Fails D d w m (.dropIter i) (ApiOp.dropIter i).prog := by
  obtain ⟨l, hl, ⟨s, st, hscan, hres⟩, hon⟩ := h.yields hx
  rw [Refines, ApiOp.prog, Prog.wp_map]
  cases st with
  | none =>
    obtain ⟨rev, hi⟩ := hscan
    exact iterDealloc_dead hi ⟨_, .reports_none (n := 0) trivial rfl, h.freeIter i⟩
  | some it =>
    obtain ⟨D', n, bound, d', r, hi, hb, hn, hr, ho, hm, hne⟩ := hscan
    obtain rfl : D' = D := by
      rcases hon _ hi with hd | hd
      · cases hd
      · exact Option.some.inj hd
    have hbound : ∀ p, bound = some p → ∃ b, w.strings.get p = some b := by
      rintro p rfl
      cases hsb : s.bound with
      | none => simp [hsb] at hb
      | some b => exact ⟨b, by simpa [hsb] using hb⟩
    refine iterDealloc_live hi hn ho.2.1 hbound hr hm hne ⟨_, .reports_none (n := 0) trivial rfl, ?_⟩
    have := (h.cleaned hinv hr hi).freeIter i
    simpa only [Function.update_idem] using this

/-! ### Batches -/

theorem Sim.records (h : Sim Rep D d w m) {b : Nat} {x : PyWriteBatch} (hb : w.batches.get b = some x) :
    m.records b = x.ops.map PyWriteBatchEntry.toOp := by
  have := h.batches b
  rw [hb] at this
  rw [Ref.records, ← this]
  rfl

theorem newBatch_refines (h : Sim Rep D d w m) (alloc : Bool) :
    Refines hc Rep Fails D d w m (.newBatch alloc) (ApiOp.newBatch alloc).prog := by
  have hgone : m.batches w.batches.next = none := by
    rw [← h.batches, Table.get_next]
    rfl
  rw [Refines, ApiOp.prog, Prog.wp_map]
  refine batchNew_runs ?_
  cases alloc with
  | false => exact ⟨m, .reports_none (n := w.batches.next) hgone rfl, h⟩
  | true => exact ⟨_, .reports_none (n := w.batches.next) hgone rfl, h.setBatch w.batches.next ⟨[]⟩⟩

section Batch

variable {b : Nat} {x : PyWriteBatch} (h : Sim Rep D d w m) (hb : w.batches.get b = some x)
include h hb

theorem initBatch_refines (wf : Bool) :
    Refines hc Rep Fails D d w m (.initBatch b wf) (ApiOp.initBatch b wf).prog := by
  rw [Refines, ApiOp.prog, Prog.wp_map]
  refine batchInit_runs hb ⟨_, .reports_none (n := 0) trivial ?_, h.setBatch b ⟨[]⟩⟩
  cases wf <;> rfl

theorem dropBatch_refines : Refines hc Rep Fails D d w m (.dropBatch b) (ApiOp.dropBatch b).prog := by
  rw [Refines, ApiOp.prog, Prog.wp_map]
  exact batchDealloc_runs hb ⟨_, .reports_none (n := 0) trivial rfl, h.freeBatch b⟩

theorem batchPut_refines (wf : Bool) (key value : Arg) :
    Refines hc Rep Fails D d w m (.batchPut b wf key value) (ApiOp.batchPut b wf key value).prog := by
  rw [Refines, ApiOp.prog, Prog.wp_map]
  refine batchPut_runs hb (fun hp => ?_) fun hp e => ?_
  · exact h.unparsed (.batchPut b wf key value) (n := 0) trivial (by simp [Ref.step, Ref.append, hp])
      w.exports
  · refine ⟨_, .reports_none (n := 0) trivial ?_, (h.setBatch b _).noise e w.owned w.calls⟩
    simp [Ref.step, Ref.append, hp, h.records hb, Answer.of, PyWriteBatchEntry.toOp]

theorem batchDelete_refines (wf : Bool) (key : Arg) :
    Refines hc Rep Fails D d w m (.batchDelete b wf key) (ApiOp.batchDelete b wf key).prog := by
  rw [Refines, ApiOp.prog, Prog.wp_map]
  refine batchDelete_runs hb (fun hp => ?_) fun hp e => ?_
  · exact h.unparsed (.batchDelete b wf key) (n := 0) trivial (by simp [Ref.step, Ref.append, hp])
      w.exports
  · refine ⟨_, .reports_none (n := 0) trivial ?_, (h.setBatch b _).noise e w.owned w.calls⟩
    simp [Ref.step, Ref.append, hp, h.records hb, Answer.of, PyWriteBatchEntry.toOp]

end Batch

end Steps

/-! ## Runs -/

/-- The calls of a run on the LevelDB object `D`, which is not opened again: its methods, and those of
its snapshots and iterators and of batches. The objects that a call is made on are there. -/
def ApiOp.onStore (D : Nat) (op : ApiOp E) (w : World E) : Prop :=
  match op with
  | put D' _ | get D' _ _ | delete D' _ | compactRange D' _ | rangeIter D' _ _ | createSnapshot D' _ =>
    D' = D
  | write D' args => D' = D ∧ ∃ b, w.batches.get args.writeBatch = some b
  | newSnapshot _ | newBatch _ => True
  | initSnapshot s args => w.snapshots.get s = some ⟨none, none⟩ ∧ ∀ D', args = some D' → D' = D
  | snapshotGet s _ _ | snapshotRangeIter s _ _ | dropSnapshot s => w.HeldSnapshot s
  | next i _ | dropIter i => ∃ x, w.iters.get i = some x
  | initBatch b _ | batchPut b _ _ _ | batchDelete b _ _ | dropBatch b => ∃ x, w.batches.get b = some x
  | _ => False

section Run

variable {cmp : Bytes → Bytes → Int} {hc : Compares cmp}
  {Rep : E.Db → ByteMap cmp → List (E.Snap × ByteMap cmp) → Prop}
  {At : ByteMap cmp → E.Iter → Option Nat → Prop} {Fails : String → Prop} {m : Ref cmp} {op : ApiOp E}

/-- **Every call is a step of the reference model.** -/
theorem onStore_refines (hE : IsStore E hc Rep At Fails) (hinv : w.Inv) (h : Sim Rep D d w m)
    (hop : op.onStore D w) : Refines hc Rep Fails D d w m op op.prog := by
  cases op with
  | put D' args => exact (show D' = D from hop) ▸ put_refines hE h args
  | get D' args alloc => exact (show D' = D from hop) ▸ get_refines hE h args alloc
  | delete D' args => exact (show D' = D from hop) ▸ delete_refines hE h args
  | write D' args =>
    obtain ⟨rfl, b, hb⟩ := hop
    exact write_refines hE h args hb
  | compactRange D' args => exact (show D' = D from hop) ▸ compactRange_refines hE h args
  | rangeIter D' args alloc => exact (show D' = D from hop) ▸ rangeIter_refines hE h args alloc
  | createSnapshot D' alloc => exact (show D' = D from hop) ▸ createSnapshot_refines hE h alloc
  | newSnapshot alloc => exact newSnapshot_refines h alloc
  | initSnapshot s args => exact initSnapshot_refines hE h hop.1 hop.2
  | snapshotGet s args alloc => exact snapshotGet_refines hE h hop args alloc
  | snapshotRangeIter s args alloc => exact snapshotRangeIter_refines hE h hop args alloc
  | dropSnapshot s => exact dropSnapshot_refines hE hinv h hop
  | next i allocs =>
    obtain ⟨x, hx⟩ := hop
    exact next_refines hinv h hx allocs
  | dropIter i =>
    obtain ⟨x, hx⟩ := hop
    exact dropIter_refines hinv h hx
  | newBatch alloc => exact newBatch_refines h alloc
  | initBatch b wf =>
    obtain ⟨x, hx⟩ := hop
    exact initBatch_refines h hx wf
  | batchPut b wf key value =>
    obtain ⟨x, hx⟩ := hop
    exact batchPut_refines h hx wf key value
  | batchDelete b wf key =>
    obtain ⟨x, hx⟩ := hop
    exact batchDelete_refines h hx wf key
  | dropBatch b =>
    obtain ⟨x, hx⟩ := hop
    exact dropBatch_refines h hx
  | _ => exact hop.elim

theorem World.Inv.setBatches (h : w.Inv) (T : Table PyWriteBatch) :
    World.Inv { w with batches := T } where
  parts D r hr := by
    obtain ⟨d, hd⟩ := h.parts D r hr
    exact ⟨d, hd.db, hd.options, hd.cache, hd.comparator⟩
  apart := h.apart
  iter := h.iter
  iterApart := h.iterApart
  snap := h.snap
  snapApart := h.snapApart
  counts D r hr := by
    obtain ⟨h1, h2, h3, h4, h5⟩ := h.counts D r hr
    exact ⟨h1, h2, h3, h4, h5⟩

theorem World.Inv.wrote (h : w.Inv) (inst : LdbInstance E) (db : E.Db) (e : Nat → Int) (o : Int) :
    World.Inv { w.wrote d inst db with exports := e, owned := o } :=
  (h.setDb { inst with db := db }).noise e o w.calls

/-- Every call keeps the invariant of the handles. -/
theorem onStore_inv (hinv : w.Inv) (h : Sim Rep D d w m) (hop : op.onStore D w) :
    op.prog.wp (.alone (· = .aborted)) (fun _ w' _ => w'.Inv) w () := by
  obtain ⟨r, hr, ho, henv⟩ := h.object
  obtain ⟨inst, S, hd, -, ht⟩ := h.store
  have handles : op.onHandles w → op.prog.wp (.alone (· = .aborted)) (fun _ w' _ => w'.Inv) w () :=
    fun ha => onHandles_preserves op w hinv ha
  cases op with
  | put D' args =>
    obtain rfl : D' = D := hop
    rw [ApiOp.prog, Prog.wp_map]
    exact put_runs hr ho.1 hd (fun _ => hinv) fun _ e => hinv.wrote inst _ e w.owned
  | delete D' args =>
    obtain rfl : D' = D := hop
    rw [ApiOp.prog, Prog.wp_map]
    exact delete_runs hr ho.1 hd (fun _ => hinv) fun _ e => hinv.wrote inst _ e w.owned
  | write D' args =>
    obtain ⟨rfl, b, hb⟩ := hop
    rw [ApiOp.prog, Prog.wp_map]
    exact write_runs hr ho.1 hd hb (fun _ => hinv) fun _ e => hinv.wrote inst _ e w.owned
  | get D' args alloc =>
    obtain rfl : D' = D := hop
    simp only [ApiOp.prog, Prog.wp_map, PyLevelDB.get, Prog.wp_bind, wp_load_levelDB, hr,
      Prog.found_some, ho.1]
    exact get_runs hd (w.snapshotAt_none d) (fun _ => hinv) fun _ e o => hinv.wrote inst _ e o
  | snapshotGet s args alloc =>
    obtain ⟨inst', S', y, view, p, hd', -, -, -, -, hp, hl⟩ := h.held hop
    simp only [ApiOp.prog, Prog.wp_map, PyLevelDBSnapshot.get, Prog.wp_bind, wp_load_snapshot, hp,
      Prog.found_some, wp_deref, wp_load_levelDB, hr, ho.1]
    have hat : w.SnapshotAt d (some p) (some y) := by simp [World.SnapshotAt, hl]
    exact get_runs hd hat (fun _ => hinv) fun _ e o => hinv.wrote inst _ e o
  | compactRange D' args =>
    obtain rfl : D' = D := hop
    rw [ApiOp.prog, Prog.wp_map]
    exact compactRange_runs hr ho.1 hd (fun _ e => hinv.noise e w.owned w.calls)
      fun _ e => hinv.wrote inst _ e w.owned
  | newBatch alloc =>
    rw [ApiOp.prog, Prog.wp_map]
    refine batchNew_runs ?_
    cases alloc with
    | false => exact hinv
    | true => exact hinv.setBatches _
  | initBatch b wf =>
    obtain ⟨x, hx⟩ := hop
    rw [ApiOp.prog, Prog.wp_map]
    exact batchInit_runs hx (hinv.setBatches _)
  | dropBatch b =>
    obtain ⟨x, hx⟩ := hop
    rw [ApiOp.prog, Prog.wp_map]
    exact batchDealloc_runs hx (hinv.setBatches _)
  | batchPut b wf key value =>
    obtain ⟨x, hx⟩ := hop
    rw [ApiOp.prog, Prog.wp_map]
    exact batchPut_runs hx (fun _ => hinv)
      fun _ e => (hinv.noise e w.owned w.calls).setBatches _
  | batchDelete b wf key =>
    obtain ⟨x, hx⟩ := hop
    rw [ApiOp.prog, Prog.wp_map]
    exact batchDelete_runs hx (fun _ => hinv)
      fun _ e => (hinv.noise e w.owned w.calls).setBatches _
  | rangeIter D' args alloc => exact handles ⟨r, (show D' = D from hop) ▸ hr, henv⟩
  | createSnapshot D' alloc => exact handles ⟨r, (show D' = D from hop) ▸ hr, henv⟩
  | snapshotRangeIter s args alloc => exact handles hop
  | dropSnapshot s => exact handles hop
  | newSnapshot alloc => exact handles trivial
  | initSnapshot s args =>
    exact handles ⟨⟨_, hop.1⟩, fun D' hD => ⟨r, (hop.2 D' hD) ▸ hr, henv⟩⟩
  | next i allocs => exact handles hop
  | dropIter i => exact handles hop
  | _ => exact hop.elim

/-- The records of the batches. -/
def World.records (w : World E) (b : Nat) : Option (List BatchOp) :=
  (w.batches.get b).map fun x => x.ops.map PyWriteBatchEntry.toOp

/-- **The binding refines the reference model.** leveldb is a store, and the comparator an order. The
LevelDB object `D` is open on a database that holds the map `map`. In every run of calls of its methods
and those of its snapshots, its iterators and of batches, in any order, every call answers what the
reference model answers, and every further call ends. -/
theorem store_refines {w₀ : World E} {map : ByteMap cmp} {h : List (ApiOp E × Answer)}
    (hE : IsStore E hc Rep At Fails) (hstart : w₀.Start) (hr : w₀.levelDBs.get D = some r)
    (ho : w₀.Opened r d cmp) (henv : .env ∈ r.refs) (hd : w₀.dbs.get d = some inst)
    (hrep : Rep inst.db map []) (hrun : (apiCalls (ApiOp.onStore D)).Run w₀ h w) :
    (∃ m, Ref.Run hc Fails (Ref.start map w₀.records) h m) ∧
      ∀ op : ApiOp E, op.onStore D w → ∃ a w', op.prog.run w = .ok (a, w') := by
  have hsim : Sim Rep D d w₀ (Ref.start map w₀.records) := by
    refine ⟨⟨r, hr, ho, henv⟩, ⟨inst, [], hd, hrep, .nil, fun x hx => (by cases hx), fun s => ?_,
      fun s => ?_, fun s view hv => (by cases hv)⟩, fun i => hstart.iters i, fun b => rfl⟩
    · simp [Ref.start, hstart.snaps s]
    · simp [Ref.start, hstart.snaps s]
  have step : ∀ {w : World E} {m : Ref cmp} {op : ApiOp E}, w.Inv → Sim Rep D d w m → op.onStore D w →
      op.prog.wp (.alone fun _ => False) (fun a w' _ =>
        (∃ m', m.Answers hc Fails op a m' ∧ Sim Rep D d w' m') ∧ w'.Inv) w () :=
    fun hinv hs hop => Prog.wp_alone_and (onStore_refines hE hinv hs hop) (onStore_inv hinv hs hop)
  have reached : ∃ m, Ref.Run hc Fails (Ref.start map w₀.records) h m ∧ Sim Rep D d w m ∧ w.Inv := by
    induction hrun with
    | nil => exact ⟨_, .nil, hsim, hstart.inv⟩
    | snoc _ hop hret ih =>
      obtain ⟨m, hm, hs, hinv⟩ := ih
      obtain ⟨⟨m', hans, hs'⟩, hinv'⟩ := Prog.wp_of_run (step hinv hs hop) hret
      exact ⟨m', .snoc hm hans, hs', hinv'⟩
  obtain ⟨m, hm, hs, hinv⟩ := reached
  refine ⟨⟨m, hm⟩, fun op hop => ?_⟩
  obtain ⟨a, w', hret, -⟩ := Prog.wp_run (step hinv hs hop)
  exact ⟨a, w', hret⟩

end Run

/-- A snapshot and an iterator, and then the key that they read is deleted. -/
theorem store_refines_sample :
    let E := memStore compareBytes fun _ => false
    let key : Arg := ⟨7, some [97]⟩
    let h : List (ApiOp E × Answer) :=
      [(.put 0 { key := key, value := ⟨8, some [1]⟩ }, .none), (.createSnapshot 0 true, .object 0),
        (.rangeIter 0 {} true, .object 0), (.delete 0 { key := key }, .none),
        (.snapshotGet 0 { key := key } true, .value (.value [1])),
        (.get 0 { key := key } true, .error .keyError), (.dropSnapshot 0, .none),
        (.next 0 {}, .item (some ⟨[97], some [1]⟩))]
    ∃ w : World E, (∃ m, Ref.Run compareBytes_compares.toCompares (fun _ => False)
        (Ref.start SortedMap.empty (World.records (World.single [] .bytewise : World E))) h m) ∧
      ∀ op : ApiOp E, op.onStore 0 w → ∃ a w', op.prog.run w = .ok (a, w') := by
  intro E key h
  let K : Calls (World E) Fault Ev (ApiOp E) Answer := apiCalls (ApiOp.onStore 0)
  let w₀ : World E := World.single [] .bytewise
  have h₁ : K.Run w₀ (h.take 1) _ := .snoc .nil rfl rfl
  have h₂ : K.Run w₀ (h.take 2) _ := .snoc h₁ rfl rfl
  have h₃ : K.Run w₀ (h.take 3) _ := .snoc h₂ rfl rfl
  have h₄ : K.Run w₀ (h.take 4) _ := .snoc h₃ rfl rfl
  have h₅ : K.Run w₀ (h.take 5) _ := .snoc h₄ ⟨_, rfl, by decide⟩ rfl
  have h₆ : K.Run w₀ (h.take 6) _ := .snoc h₅ rfl rfl
  have h₇ : K.Run w₀ (h.take 7) _ := .snoc h₆ ⟨_, rfl, by decide⟩ rfl
  have h₈ : K.Run w₀ h _ := .snoc h₇ ⟨_, rfl⟩ rfl
  exact ⟨_, store_refines (memStore_isStore compareBytes_compares.toCompares) (single_start _) rfl
    (single_opened rfl) (List.mem_singleton_self _) rfl ⟨rfl, fun x hx => by cases hx⟩ h₈⟩

end PyLeveldb
