import PyLeveldb.Api
import PyLeveldb.Exec
import PyLeveldb.MemStore

/-!
# Batches that threads share

Any number of threads make calls of `PyWriteBatch_Put`, `PyWriteBatch_Delete` and `PyLevelDB_Write`.

* `Does`: what the blocks of these calls do, with `Progress` for what their thread knows of the call.
  `obeys` is the judgement of each of the three functions.
* `Shared`: the invariant of the pool. The list of a batch is what it was at first, and then one entry
  for each call that has appended (`appended`).
* `HandsOver`: the step of a `Write` that changes a database, by the list that it read at one moment.
-/

namespace PyLeveldb

open Threads (Host Pool Run Discipline anyStep)

variable {E : Env}

/-- The calls that are made on a batch. -/
inductive BatchCall where
  | put (self : Nat) (wellFormed : Bool) (key value : Arg)
  | delete (self : Nat) (wellFormed : Bool) (key : Arg)
  | write (self : Nat) (args : PyLevelDB.WriteArgs)

namespace BatchCall

def toOp : BatchCall → ApiOp E
  | put self wellFormed key value => .batchPut self wellFormed key value
  | delete self wellFormed key => .batchDelete self wellFormed key
  | write self args => .write self args

/-- The batch that the call appends to, and the entry, if its arguments can be parsed. -/
def appends : BatchCall → Option (Nat × PyWriteBatchEntry)
  | put self wellFormed key value =>
    if parses wellFormed [key, value] then some (self, ⟨true, key.bytes, value.bytes⟩) else none
  | delete self wellFormed key =>
    if parses wellFormed [key] then some (self, ⟨false, key.bytes, []⟩) else none
  | write _ _ => none

/-- The entry of batch `b` that is due to the call. -/
def entry (b : Nat) (a : BatchCall) : Option PyWriteBatchEntry :=
  a.appends.bind fun (self, e) => if self = b then some e else none

/-- How many events the call has behind it when it appends. -/
def eventsBefore : BatchCall → Nat
  | put .. => 5
  | delete .. => 4
  | write .. => 0

/-- How often the call hands a list to leveldb. -/
def handOvers : BatchCall → Nat
  | write _ args => if parses args.wellFormed [] then 1 else 0
  | _ => 0

end BatchCall

/-- Threads that share batches. -/
def batchHost (E : Env) : Host (World E) Fault Ev BatchCall Answer where
  prog a := a.toOp.prog
  act := gilAct
  pauses _ := true

abbrev BatchThread (E : Env) := Threads.Thread (World E) Fault Ev BatchCall Answer

abbrev BatchPool (E : Env) := Pool (World E) Fault Ev BatchCall Answer

/-- The calls of a thread that have appended: those that ended, and the one that runs if it is past
its append. -/
def appended (th : BatchThread E) : List BatchCall :=
  th.done.map (·.call) ++
    match th.call with
    | some (a, _, _) => if a.eventsBefore ≤ th.trace.length then [a] else []
    | none => []

/-- A batch is handed to leveldb. -/
def isHandOver : Ev → Bool
  | .ldb .write _ => true
  | _ => false

/-! ## What a block does -/

/-- What a thread knows of its call. -/
structure Progress where
  call : BatchCall
  /-- It holds the GIL. -/
  holds : Bool
  /-- How many events it has behind it, how many of them hand-overs, and the last of them. -/
  events : Nat
  handed : Nat
  last : Option Ev
  /-- The list that a `Write` has read. -/
  read : Option (List PyWriteBatchEntry)

namespace Progress

/-- A call that begins. -/
def init (a : BatchCall) : Progress := ⟨a, true, 0, 0, none, none⟩

/-- An event was performed. -/
def perform (x : Ev) (c : Progress) : Progress where
  call := c.call
  holds :=
    match x with
    | .beginAllowThreads => false
    | .endAllowThreads => true
    | _ => c.holds
  events := c.events + 1
  handed := c.handed + if isHandOver x then 1 else 0
  last := some x
  read := c.read

end Progress

/-- The database of a `Write` takes the list that was read. -/
def Takes (args : PyLevelDB.WriteArgs) (ops : List PyWriteBatchEntry) (d : Nat) (w w' : World E) :
    Prop :=
  ∃ r, w.dbs.get d = some r ∧ w'.dbs = w.dbs.set d
    { r with db := (E.write ⟨args.sync⟩ (ops.map PyWriteBatchEntry.toOp) r.db).2 }

/-- How a block may stop. -/
def StopsAt (c : Progress) (w : World E) : Option Ev → Prop
  | some .beginAllowThreads => c.holds = true
  | some .endAllowThreads => c.holds = false
  | some .py => True
  | some (.ldb .write d) => ∃ self args o ops, c.call = .write self args ∧ c.read = some ops ∧
      w.levelDBs.get self = some o ∧ o.db = some d
  | none => c.handed = c.call.handOvers ∧ (c.call.appends.isSome → c.call.eventsBefore < c.events)
  | _ => False

/-- The list of the batch in the block of call `c` from `w` to `w'`. -/
def Appends (c : Progress) (w w' : World E) : Prop :=
  match c.call.appends with
  | some (self, e) =>
    if c.events = c.call.eventsBefore then
      c.holds = true ∧ ∃ b, w.batches.get self = some b ∧
        w'.batches = w.batches.set self ⟨b.ops ++ [e]⟩
    else w'.batches = w.batches
  | none => w'.batches = w.batches

/-- What a block of a call does. -/
structure Does (c : Progress) (w : World E) (x : Option Ev) (c' : Progress) (w' : World E) :
    Prop where
  same : c' = { c with read := c'.read }
  read : c'.read = c.read ∨ ∃ self args b, c.call = .write self args ∧ c.holds = true ∧
    c.last = some .py ∧ w.batches.get args.writeBatch = some b ∧ c'.read = some b.ops
  levelDBs : w'.levelDBs = w.levelDBs
  batches : Appends c w w'
  dbs : if c.last.any isHandOver then ∃ self args ops d, c.call = .write self args ∧
    c.read = some ops ∧ c.last = some (.ldb .write d) ∧ Takes args ops d w w' else w'.dbs = w.dbs
  stops : StopsAt c' w' x

/-- The discipline of the calls on a batch. -/
def batchDiscipline (E : Env) : Discipline (World E) Ev Progress where
  knows _ _ := True
  does := Does
  perform := Progress.perform

/-- The rules of a judgement by blocks. -/
abbrev batchRules (E : Env) : Prog.Rules (World E) Fault Ev (Progress × World E) :=
  (batchDiscipline E).rules (fun _ => True) fun _ => true

theorem batch_event {x : Ev} {w w₀ : World E} {c c' : Progress}
    {P : World E → Progress × World E → Prop} (h : Does c w₀ (some x) c' w)
    (hP : ∀ w', P w' (c'.perform x, w')) : (batchRules E).event x w (c, w₀) P :=
  Discipline.event_of_pauses rfl h fun w' _ => hP w'

/-- A block that changes nothing that other threads see of a batch or a database. -/
theorem does_quiet {x : Option Ev} {c : Progress} {w w' : World E} (hl : w'.levelDBs = w.levelDBs)
    (hb : w'.batches = w.batches) (hd : w'.dbs = w.dbs) (hlast : c.last.any isHandOver = false)
    (happ : (c.events == c.call.eventsBefore && c.call.appends.isSome) = false) (hx : StopsAt c w' x) :
    Does c w x c w' where
  same := rfl
  read := .inl rfl
  levelDBs := hl
  batches := by
    unfold Appends
    cases ha : c.call.appends with
    | none => exact hb
    | some a =>
      have hne : c.events ≠ c.call.eventsBefore := by simpa [ha] using happ
      dsimp only
      rw [if_neg hne]
      exact hb
  dbs := by rw [if_neg (by simp [hlast])]; exact hd
  stops := hx

/-- The block that appends. -/
theorem does_append {x : Option Ev} {c : Progress} {w w' : World E} {self : Nat}
    {e : PyWriteBatchEntry} {b : PyWriteBatch} (hl : w'.levelDBs = w.levelDBs) (hd : w'.dbs = w.dbs)
    (hlast : c.last.any isHandOver = false) (happ : c.call.appends = some (self, e))
    (hevents : c.events = c.call.eventsBefore) (hholds : c.holds = true)
    (hb : w.batches.get self = some b) (hw : w'.batches = w.batches.set self ⟨b.ops ++ [e]⟩)
    (hx : StopsAt c w' x) : Does c w x c w' where
  same := rfl
  read := .inl rfl
  levelDBs := hl
  batches := by
    unfold Appends
    rw [happ]
    dsimp only
    rw [if_pos hevents]
    exact ⟨hholds, b, hb, hw⟩
  dbs := by rw [if_neg (by simp [hlast])]; exact hd
  stops := hx

theorem put_obeys (self : Nat) (wf : Bool) (key value : Arg) :
    (batchDiscipline E).Obeys (fun _ => True) (fun _ => true) ((batchHost E).prog (.put self wf key value))
      (fun _ _ => True) (.init (.put self wf key value)) := by
  intro w _
  show Prog.wp (batchRules E) (_ <$> PyWriteBatch.put self wf key value) _ w _
  simp only [Prog.wp_map, PyWriteBatch.put, Prog.wp_bind, wp_parse]
  refine batch_event (does_quiet rfl rfl rfl rfl rfl trivial) fun w₁ => ?_
  split
  next hparse =>
    have happ : (BatchCall.put self wf key value).appends =
        some (self, ⟨true, key.bytes, value.bytes⟩) := if_pos hparse
    simp only [Bool.not_true, Bool.false_eq_true, ↓reduceIte, Prog.wp_bind, wp_begin, wp_end,
      wp_releaseBuffer, PyWriteBatch.pushBack, wp_update_batch, wp_returnNone]
    refine batch_event (does_quiet rfl rfl rfl rfl rfl rfl) fun w₂ => ?_
    refine batch_event (does_quiet rfl rfl rfl rfl rfl rfl) fun w₃ => ?_
    refine batch_event (does_quiet rfl rfl rfl rfl rfl trivial) fun w₄ => ?_
    refine batch_event (does_quiet rfl rfl rfl rfl rfl trivial) fun w₅ => ?_
    refine Prog.found_of_allows trivial fun b hb => ?_
    refine batch_event (does_append rfl rfl rfl happ rfl rfl hb rfl trivial) fun w₆ => ?_
    exact ⟨_, does_quiet rfl rfl rfl rfl rfl ⟨rfl, fun _ => (by decide : 5 < 6)⟩, trivial⟩
  next hparse =>
    have happ : (BatchCall.put self wf key value).appends = none := if_neg hparse
    refine ⟨_, does_quiet rfl rfl rfl rfl rfl ⟨rfl, fun h => ?_⟩, trivial⟩
    exact absurd h (by simp [Progress.perform, Progress.init, happ])

theorem delete_obeys (self : Nat) (wf : Bool) (key : Arg) :
    (batchDiscipline E).Obeys (fun _ => True) (fun _ => true) ((batchHost E).prog (.delete self wf key))
      (fun _ _ => True) (.init (.delete self wf key)) := by
  intro w _
  show Prog.wp (batchRules E) (_ <$> PyWriteBatch.delete self wf key) _ w _
  simp only [Prog.wp_map, PyWriteBatch.delete, Prog.wp_bind, wp_parse]
  refine batch_event (does_quiet rfl rfl rfl rfl rfl trivial) fun w₁ => ?_
  split
  next hparse =>
    have happ : (BatchCall.delete self wf key).appends = some (self, ⟨false, key.bytes, []⟩) :=
      if_pos hparse
    simp only [Bool.not_true, Bool.false_eq_true, ↓reduceIte, Prog.wp_bind, wp_begin, wp_end,
      wp_releaseBuffer, PyWriteBatch.pushBack, wp_update_batch, wp_returnNone]
    refine batch_event (does_quiet rfl rfl rfl rfl rfl rfl) fun w₂ => ?_
    refine batch_event (does_quiet rfl rfl rfl rfl rfl rfl) fun w₃ => ?_
    refine batch_event (does_quiet rfl rfl rfl rfl rfl trivial) fun w₄ => ?_
    refine Prog.found_of_allows trivial fun b hb => ?_
    refine batch_event (does_append rfl rfl rfl happ rfl rfl hb rfl trivial) fun w₅ => ?_
    exact ⟨_, does_quiet rfl rfl rfl rfl rfl ⟨rfl, fun _ => (by decide : 4 < 5)⟩, trivial⟩
  next hparse =>
    have happ : (BatchCall.delete self wf key).appends = none := if_neg hparse
    refine ⟨_, does_quiet rfl rfl rfl rfl rfl ⟨rfl, fun h => ?_⟩, trivial⟩
    exact absurd h (by simp [Progress.perform, Progress.init, happ])

theorem write_obeys (self : Nat) (args : PyLevelDB.WriteArgs) :
    (batchDiscipline E).Obeys (fun _ => True) (fun _ => true) ((batchHost E).prog (.write self args))
      (fun _ _ => True) (.init (.write self args)) := by
  intro w _
  show Prog.wp (batchRules E) (_ <$> PyLevelDB.write self args) _ w _
  simp only [Prog.wp_map, PyLevelDB.write, Prog.wp_bind, wp_parse]
  refine batch_event (does_quiet rfl rfl rfl rfl rfl trivial) fun w₁ => ?_
  split
  next hparse =>
    have hover : (BatchCall.write self args).handOvers = 1 := if_pos hparse
    simp only [Bool.not_true, Bool.false_eq_true, ↓reduceIte, Prog.wp_bind, wp_load_batch, wp_begin]
    refine Prog.found_of_allows trivial fun b hb => ?_
    -- the list is read in the block that ends where the GIL is released
    have hread : Does ((Progress.init (.write self args)).perform .py) w₁ (some .beginAllowThreads)
        ⟨.write self args, true, 1, 0, some .py, some b.ops⟩
        { w₁ with exports := acquire w₁.exports [] } :=
      ⟨rfl, .inr ⟨self, args, b, rfl, rfl, rfl, hb, rfl⟩, rfl, rfl, rfl, rfl⟩
    refine batch_event hread fun w₂ => ?_
    simp only [wp_load_levelDB]
    refine Prog.found_of_allows trivial fun o ho => ?_
    simp only [wp_deref]
    refine Prog.found_of_allows trivial fun d hd => ?_
    simp only [dbWrite, wp_callDb, wp_end]
    refine Prog.found_of_allows trivial fun r hr => ?_
    refine batch_event (does_quiet rfl rfl rfl rfl rfl ⟨self, args, o, b.ops, rfl, rfl, ho, hd⟩)
      fun w₃ => ?_
    refine Prog.found_of_allows trivial fun r hr => ?_
    refine batch_event ⟨rfl, .inl rfl, rfl, rfl, ⟨self, args, b.ops, d, rfl, rfl, rfl, r, hr, rfl⟩,
      rfl⟩ fun w₄ => ?_
    split
    · refine batch_event (does_quiet rfl rfl rfl rfl rfl trivial) fun w₅ => ?_
      exact ⟨_, does_quiet rfl rfl rfl rfl rfl ⟨hover.symm, fun h => by cases h⟩, trivial⟩
    · refine batch_event (does_quiet rfl rfl rfl rfl rfl trivial) fun w₅ => ?_
      exact ⟨_, does_quiet rfl rfl rfl rfl rfl ⟨hover.symm, fun h => by cases h⟩, trivial⟩
  next hparse =>
    have hover : (BatchCall.write self args).handOvers = 0 := if_neg hparse
    exact ⟨_, does_quiet rfl rfl rfl rfl rfl ⟨hover.symm, fun h => by cases h⟩, trivial⟩

/-- **Every call on a batch keeps the discipline.** -/
theorem batch_obeys (a : BatchCall) :
    (batchDiscipline E).Obeys (fun _ => True) (fun _ => true) ((batchHost E).prog a) (fun _ _ => True) (.init a) := by
  cases a with
  | put self wf key value => exact put_obeys self wf key value
  | delete self wf key => exact delete_obeys self wf key
  | write self args => exact write_obeys self args

/-! ## The invariant -/

/-- Thread `t` is in the same call in `q` and in `p`. -/
def SameCall (q p : BatchPool E) (t : Nat) : Prop :=
  (q.threads t).call.map (·.1) = (p.threads t).call.map (·.1) ∧
    (q.threads t).call.isSome = true ∧ (q.threads t).done = (p.threads t).done

/-- While it held the GIL in the call that it is in, thread `t` read `ops` in batch `b`. -/
def HasRead (h : List (BatchPool E × Nat)) (p : BatchPool E) (t b : Nat)
    (ops : List PyWriteBatchEntry) : Prop :=
  ∃ q, (q, t) ∈ h ∧ SameCall q p t ∧ q.holder = some t ∧ q.shared.batches.get b = some ⟨ops⟩

/-- Thread `t` is at the event that hands the list of a `Write` to leveldb: the database is that of
the object, and the step to `p'` changes it by the list as it stood at one moment of the call. -/
def HandsOver (h : List (BatchPool E × Nat)) (p : BatchPool E) (t : Nat) (p' : BatchPool E) : Prop :=
  ∃ self args d k o ops, (p.threads t).call = some (.write self args, .ldb .write d, k) ∧
    p.shared.levelDBs.get self = some o ∧ o.db = some d ∧ HasRead h p t args.writeBatch ops ∧
    Takes args ops d p.shared p'.shared

/-- Thread `t` is at a hand-over. -/
def AtHandOver (p : BatchPool E) (t : Nat) : Prop :=
  ∃ a x k, (p.threads t).call = some (a, x, k) ∧ isHandOver x = true

/-- What a step of thread `t` changes. -/
structure Changes (h : List (BatchPool E × Nat)) (p : BatchPool E) (t : Nat) (p' : BatchPool E) :
    Prop where
  hands : AtHandOver p t → HandsOver h p t p'
  keeps : ¬AtHandOver p t → p'.shared.dbs = p.shared.dbs
  batches : p'.shared.batches ≠ p.shared.batches → p'.holder = some t

/-- The list of batch `b`, which was `ops₀` at first: one entry for each call that has appended, and
those of each thread in the order of its calls. -/
def ListedAs (b : Nat) (ops₀ : List PyWriteBatchEntry) (p : BatchPool E) : Prop :=
  ∃ log : List (Nat × PyWriteBatchEntry),
    p.shared.batches.get b = some ⟨ops₀ ++ log.map Prod.snd⟩ ∧
      ∀ t, (log.filter (·.1 = t)).map Prod.snd =
        (appended (p.threads t)).filterMap (BatchCall.entry b)

/-- What is known of thread `t` in a call. -/
structure InCall (h : List (BatchPool E × Nat)) (c : Progress) (p : BatchPool E) (t : Nat)
    (a : BatchCall) (x : Ev) : Prop where
  call : c.call = a
  events : c.events = (p.threads t).trace.length
  handed : c.handed = (p.threads t).trace.countP isHandOver
  holds : c.holds = true → p.holder = some t
  read : ∀ ops, c.read = some ops → ∃ self args, a = .write self args ∧
    HasRead h p t args.writeBatch ops
  stops : StopsAt c p.shared x

/-- The invariant. -/
structure Shared (p₀ : BatchPool E) (b : Nat) (ops₀ : List PyWriteBatchEntry)
    (h : List (BatchPool E × Nat)) (g : Nat → Progress) (p : BatchPool E) : Prop where
  inCall : ∀ t a x k, (p.threads t).call = some (a, x, k) → InCall h (g t) p t a x
  idle : ∀ t, (p.threads t).call = none → (p.threads t).trace = []
  list : ListedAs b ops₀ p
  levelDBs : p.shared.levelDBs = p₀.shared.levelDBs
  done : ∀ t, ∀ e ∈ (p.threads t).done, e.trace.countP isHandOver = e.call.handOvers
  changes : ∀ h' q u, h = h' ++ [(q, u)] → p.fault = none → Changes h' q u p

section Steps

variable {p₀ p p' q : BatchPool E} {t u b d : Nat} {ops₀ ops : List PyWriteBatchEntry}
  {h : List (BatchPool E × Nat)} {g : Nat → Progress} {a : BatchCall} {c c' : Progress} {x : Ev}

theorem HasRead.step (hr : HasRead h p u b ops) (hcall : (p'.threads u).call.map (·.1) =
    (p.threads u).call.map (·.1)) (hdone : (p'.threads u).done = (p.threads u).done) :
    HasRead (h ++ [(p, t)]) p' u b ops := by
  obtain ⟨q, hq, ⟨h1, h2, h3⟩, hholder, hops⟩ := hr
  exact ⟨q, List.mem_append_left _ hq, ⟨h1.trans hcall.symm, h2, h3.trans hdone.symm⟩, hholder, hops⟩

theorem StopsAt.step {w w' : World E} (hs : StopsAt c w (some x)) (hl : w'.levelDBs = w.levelDBs) :
    StopsAt c w' (some x) := by
  unfold StopsAt at hs ⊢
  rw [hl]
  exact hs

/-- A step of thread `t` says nothing new of another thread. -/
theorem InCall.step (hc : InCall h c p u a x) (hcall : (p'.threads u).call = (p.threads u).call)
    (htrace : (p'.threads u).trace = (p.threads u).trace)
    (hdone : (p'.threads u).done = (p.threads u).done)
    (hholds : p.holder = some u → p'.holder = some u)
    (hl : p'.shared.levelDBs = p.shared.levelDBs) : InCall (h ++ [(p, t)]) c p' u a x where
  call := hc.call
  events := by rw [htrace]; exact hc.events
  handed := by rw [htrace]; exact hc.handed
  holds hb := hholds (hc.holds hb)
  read ops hops := by
    obtain ⟨self, args, ha, hr⟩ := hc.read ops hops
    exact ⟨self, args, ha, hr.step (by rw [hcall]) hdone⟩
  stops := hc.stops.step hl

/-- What holds where thread `t` begins a block of the call `a`. -/
structure Entered (h : List (BatchPool E × Nat)) (p : BatchPool E) (t : Nat) (a : BatchCall)
    (c : Progress) (q : BatchPool E) : Prop where
  shared : q.shared = p.shared
  fault : q.fault = p.fault
  others : ∀ u, u ≠ t → q.threads u = p.threads u
  done : (q.threads t).done = (p.threads t).done
  call : c.call = a
  events : c.events = (q.threads t).trace.length
  handed : c.handed = (q.threads t).trace.countP isHandOver
  holds : c.holds = true → q.holder = some t
  lock : ∀ u, u ≠ t → p.holder = some u → q.holder = some u
  read : ∀ ops, c.read = some ops → ∃ self args, a = .write self args ∧
    HasRead h p t args.writeBatch ops
  within : c.last ≠ none ∨ c.read ≠ none → (p.threads t).call.map (·.1) = some a
  held : c.last = some .py → c.holds = true → p.holder = some t
  last : c.last.any isHandOver = true ↔ AtHandOver p t
  target : ∀ d, c.last = some (.ldb .write d) → ∃ self args o k, a = .write self args ∧
    (p.threads t).call = some (a, .ldb .write d, k) ∧ p.shared.levelDBs.get self = some o ∧
      o.db = some d
  appended : appended (p.threads t) =
    (p.threads t).done.map (·.call) ++ if a.eventsBefore < c.events then [a] else []

theorem holds_perform {trace : List Ev} {w : World E} (hq : Pool.Relocked (gilAct x) p q t trace)
    (hstops : StopsAt c w (some x)) (hc : c.holds = true → p.holder = some t) :
    (c.perform x).holds = true → q.holder = some t := by
  cases x with
  | beginAllowThreads => exact nofun
  | endAllowThreads => exact fun _ => (hq.acquire rfl).2
  | py | ldb => exact fun h => (hq.keep rfl).trans (hc h)
  | gilEnsure | gilRelease | call | callInside | enter | leave => exact hstops.elim

theorem entered (hs : Shared p₀ b ops₀ h g p)
    {m : Threads.Move}
    (he : (batchDiscipline E).Enters (batchHost E) Progress.init g p t m a c q) :
    Entered h p t a c q := by
  cases he with
  | start hcall hheld htodo =>
    have htrace := hs.idle t hcall
    refine ⟨rfl, rfl, fun u hu => Pool.put_of_ne _ hu, ?_, rfl, ?_, ?_, fun _ => hheld,
      fun u _ hu => hu, nofun, fun h => absurd h (by simp [Progress.init]), nofun, ⟨nofun, ?_⟩, nofun,
      ?_⟩
    · rw [Pool.put_self]
    · rw [Pool.put_self, htrace]
      rfl
    · rw [Pool.put_self, htrace]
      rfl
    · rintro ⟨a, x, k, h, -⟩
      rw [hcall] at h
      cases h
    · simp [PyLeveldb.appended, hcall, Progress.init]
  | @go a x k q hcall hperform =>
    have hin := hs.inCall t a x k hcall
    have hq := Pool.relocked_of_perform hperform
    refine ⟨hq.shared, hq.fault, hq.others, hq.done, hin.call, ?_, ?_, ?_,
      fun u hu h => (hq.holds u hu).mpr h, hin.read, fun _ => by rw [hcall]; rfl, ?_, ?_, ?_, ?_⟩
    · rw [hq.trace, List.length_append, ← hin.events]
      rfl
    · rw [hq.trace, List.countP_append, ← hin.handed, List.countP_singleton]
      rfl
    · exact holds_perform hq hin.stops hin.holds
    · intro hx
      cases hx
      exact hin.holds
    · constructor
      · exact fun h => ⟨a, x, k, hcall, h⟩
      · rintro ⟨a', x', k', h', hx'⟩
        rw [hcall] at h'
        cases h'
        exact hx'
    · intro d hd
      cases hd
      obtain ⟨self, args, o, ops, ha, hr, ho, hd⟩ := hin.stops
      exact ⟨self, args, o, k, hin.call.symm.trans ha, hcall, ho, hd⟩
    · have hlt : a.eventsBefore ≤ (p.threads t).trace.length ↔
          a.eventsBefore < (g t).events + 1 := by rw [hin.events, Nat.lt_succ_iff]
      simp only [PyLeveldb.appended, hcall, hlt]
      rfl

/-- The list of a batch after a block. -/
theorem ListedAs.step (hlist : ListedAs b ops₀ p) (hent : Entered h p t a c q)
    (happ : Appends c p.shared p'.shared)
    (hother : ∀ u, u ≠ t → p'.threads u = p.threads u)
    (hnow : (appended (p'.threads t)).filterMap (BatchCall.entry b) =
      ((p.threads t).done.map (·.call) ++
        if a.eventsBefore ≤ c.events then [a] else []).filterMap (BatchCall.entry b)) :
    ListedAs b ops₀ p' := by
  obtain ⟨log, hget, hlog⟩ := hlist
  have hbefore := hent.appended
  obtain rfl := hent.call
  -- where the list is the same, no entry is due to the block
  have hsame : p'.shared.batches.get b = p.shared.batches.get b →
      ((if c.call.eventsBefore ≤ c.events then [c.call] else []).filterMap (BatchCall.entry b) =
        (if c.call.eventsBefore < c.events then [c.call] else []).filterMap (BatchCall.entry b)) →
      ListedAs b ops₀ p' := by
    intro hb hdue
    refine ⟨log, hb.trans hget, fun u => ?_⟩
    rcases eq_or_ne u t with rfl | hne
    · rw [hnow, List.filterMap_append, hdue, ← List.filterMap_append, ← hbefore]
      exact hlog u
    · rw [hother u hne]
      exact hlog u
  unfold Appends at happ
  cases hdue : c.call.appends with
  | none =>
    rw [hdue] at happ
    have hentry : BatchCall.entry b c.call = none := by simp [BatchCall.entry, hdue]
    refine hsame (by rw [happ]) ?_
    split <;> split <;> simp [hentry]
  | some due =>
    obtain ⟨self, e⟩ := due
    rw [hdue] at happ
    have hentry : BatchCall.entry b c.call = if self = b then some e else none := by
      simp [BatchCall.entry, hdue]
    dsimp only at happ
    split at happ
    next hevents =>
      obtain ⟨-, r, hr, hset⟩ := happ
      rcases eq_or_ne self b with rfl | hne
      · have hops : r.ops = ops₀ ++ log.map Prod.snd := by
          rw [hget] at hr
          cases hr
          rfl
        refine ⟨log ++ [(t, e)], ?_, fun u => ?_⟩
        · rw [hset, Table.get_set, if_pos rfl, hops]
          simp
        · rcases eq_or_ne u t with rfl | hne
          · have hu := hlog u
            rw [hbefore, if_neg (by omega), List.append_nil] at hu
            rw [hnow, List.filterMap_append, ← hu, if_pos (by omega)]
            simp [hentry]
          · rw [hother u hne, ← hlog u]
            simp [Ne.symm hne]
      · refine hsame (by rw [hset, Table.get_set, if_neg (Ne.symm hne)]) ?_
        split <;> split <;> simp [hentry, hne]
    next hevents =>
      refine hsame (by rw [happ]) ?_
      have hiff : c.call.eventsBefore ≤ c.events ↔ c.call.eventsBefore < c.events := by omega
      simp only [hiff]

/-- What a block changes. -/
theorem Entered.changes (hent : Entered h p t a c q) {y : Option Ev} {w' : World E}
    (hdoes : Does c p.shared y c' w') (hshared : p'.shared = w') (hholder : p'.holder = q.holder) :
    Changes h p t p' where
  hands hat := by
    have hdbs := hdoes.dbs
    rw [if_pos (hent.last.mpr hat)] at hdbs
    obtain ⟨self, args, ops, d, ha, hread, hlast, htakes⟩ := hdbs
    obtain ⟨self', args', o, k, ha', hcall, ho, hd⟩ := hent.target d hlast
    obtain ⟨_, _, ha'', hhas⟩ := hent.read ops hread
    rw [hent.call] at ha
    subst ha
    cases ha'
    cases ha''
    exact ⟨self, args, d, k, o, ops, hcall, ho, hd, hhas, hshared ▸ htakes⟩
  keeps hat := by
    have hdbs := hdoes.dbs
    rw [if_neg (fun h => hat (hent.last.mp h))] at hdbs
    rw [hshared, hdbs]
  batches hne := by
    have happ := hdoes.batches
    rw [← hshared] at happ
    unfold Appends at happ
    split at happ
    · split at happ
      · exact hholder.trans (hent.holds happ.1)
      · exact absurd happ hne
    · exact absurd happ hne

/-- The last step of a history. -/
theorem changes_last {hist : List (BatchPool E × Nat)} (hc : Changes h p t p')
    (heq : h ++ [(p, t)] = hist ++ [(q, u)]) : Changes hist q u p' := by
  obtain ⟨rfl, hlast⟩ := List.append_inj' heq rfl
  cases hlast
  exact hc

/-- What another thread knows after a block of thread `t`. -/
theorem Entered.inCall (hent : Entered h p t a c q) (hne : u ≠ t) {b' : BatchCall} {c₁ : Progress}
    (hin : InCall h c₁ p u b' x) (hth : p'.threads u = q.threads u)
    (hholder : p'.holder = q.holder) (hl : p'.shared.levelDBs = p.shared.levelDBs) :
    InCall (h ++ [(p, t)]) c₁ p' u b' x := by
  have hsame : p'.threads u = p.threads u := hth.trans (hent.others u hne)
  refine hin.step (by rw [hsame]) (by rw [hsame]) (by rw [hsame]) (fun h => ?_) hl
  rw [hholder]
  exact hent.lock u hne h

/-- What the thread itself knows after a block of its own. -/
theorem Entered.inCall_self (hent : Entered h p t a c q) {k : Prog (World E) Fault Ev Answer}
    {w' : World E} (hdoes : Does c p.shared (some x) c' w')
    (hself : p'.threads t = { q.threads t with call := some (a, x, k) }) (hshared : p'.shared = w')
    (hholder : p'.holder = q.holder) : InCall (h ++ [(p, t)]) c' p' t a x := by
  have hc := hdoes.same
  have hread := hdoes.read
  have hstops := hdoes.stops
  refine ⟨?_, ?_, ?_, fun hh => ?_, fun ops hops => ?_, hshared ▸ hstops⟩
  · rw [hc]
    exact hent.call
  · rw [hc, hself]
    exact hent.events
  · rw [hc, hself]
    exact hent.handed
  · rw [hc] at hh
    rw [hholder]
    exact hent.holds hh
  · rcases hread with hsame | ⟨self, args, r, ha, hheld, hlast, hget, hnew⟩
    · rw [hsame] at hops
      obtain ⟨self, args, ha, hhas⟩ := hent.read ops hops
      refine ⟨self, args, ha, hhas.step ?_ ?_⟩
      · rw [hself, hent.within (.inr (by rw [hops]; nofun))]
        rfl
      · rw [hself]
        exact hent.done
    · rw [hnew] at hops
      cases hops
      have hwithin := hent.within (.inl (by rw [hlast]; nofun))
      refine ⟨self, args, hent.call.symm.trans ha, p, List.mem_append_right _ (List.mem_singleton_self _),
        ⟨?_, ?_, ?_⟩, hent.held hlast hheld, hget⟩
      · rw [hself, hwithin]
        rfl
      · cases hcall : (p.threads t).call with
        | none =>
          rw [hcall] at hwithin
          cases hwithin
        | some _ => rfl
      · rw [hself]
        exact hent.done.symm

/-- **Every block that the discipline allows keeps the invariant.** -/
theorem shared_keeps (p₀ : BatchPool E) (b : Nat) (ops₀ : List PyWriteBatchEntry) :
    (batchDiscipline E).Keeps (fun _ => True) (batchHost E) anyStep Progress.init (fun _ _ _ => True)
      (Shared p₀ b ops₀) where
  knows _ _ _ := trivial
  swaps := by
    intro h g p t m p' hs _ hswap
    have happ : ∀ u, appended (p'.threads u) = appended (p.threads u) := by
      intro u
      simp only [appended, hswap.call u, hswap.done u, hswap.trace u]
    have hidle : ∀ a x k, (p.threads t).call = some (a, x, k) → False := by
      intro a x k hcall
      have hstops := (hs.inCall t a x k hcall).stops
      have hyield := hswap.idle a x k hcall
      cases x with
      | call | callInside | gilEnsure | gilRelease | enter | leave => exact hstops
      | beginAllowThreads | endAllowThreads | py | ldb => cases hyield
    refine ⟨fun u a x k hcall => ?_, fun u hcall => ?_, ?_, ?_, fun u => ?_, fun h' q u heq _ => ?_⟩
    · rw [hswap.call u] at hcall
      have hne : u ≠ t := fun h => hidle a x k (h ▸ hcall)
      exact (hs.inCall u a x k hcall).step (hswap.call u) (hswap.trace u) (hswap.done u)
        (hswap.holds u hne).mpr (by rw [hswap.shared])
    · rw [hswap.trace u]
      exact hs.idle u (hswap.call u ▸ hcall)
    · obtain ⟨log, hget, hlog⟩ := hs.list
      exact ⟨log, by rw [hswap.shared, hget], fun u => by rw [happ u, hlog u]⟩
    · rw [hswap.shared, hs.levelDBs]
    · rw [hswap.done u]
      exact hs.done u
    · refine changes_last ⟨?_, fun _ => by rw [hswap.shared], fun h => ?_⟩ heq
      · rintro ⟨a, x, k, hcall, -⟩
        exact (hidle a x k hcall).elim
      · exact absurd (by rw [hswap.shared]) h
  event := by
    intro h g p t m a c q π x k c' s hs _ henters hπ _ hdoes
    obtain rfl : π = [] := List.eq_nil_iff_forall_not_mem.mpr fun y hy => nomatch hπ y hy
    have hent := entered hs henters
    have hother : ∀ u, u ≠ t → (p.settle q t a (.event [] x k s)).threads u = q.threads u :=
      fun u hu => Pool.put_of_ne _ hu
    have hself : (p.settle q t a (.event [] x k s)).threads t =
        { q.threads t with call := some (a, x, k) } := by
      simp [Pool.settle]
    have hl : (p.settle q t a (.event [] x k s)).shared.levelDBs = p.shared.levelDBs := hdoes.levelDBs
    refine ⟨fun u b' y k' hcall => ?_, fun u hcall => ?_, ?_, hl.trans hs.levelDBs, fun u => ?_,
      fun h' q' u heq _ => changes_last (hent.changes hdoes rfl rfl) heq⟩
    · rcases eq_or_ne u t with rfl | hne
      · rw [hself] at hcall
        cases hcall
        rw [Function.update_self]
        exact hent.inCall_self hdoes hself rfl rfl
      · rw [Function.update_of_ne hne]
        rw [hother u hne, hent.others u hne] at hcall
        exact hent.inCall hne (hs.inCall u b' y k' hcall) (hother u hne) rfl hl
    · rcases eq_or_ne u t with rfl | hne
      · rw [hself] at hcall
        cases hcall
      · rw [hother u hne, hent.others u hne] at hcall ⊢
        exact hs.idle u hcall
    · refine hs.list.step hent hdoes.batches (fun u hu => (hother u hu).trans (hent.others u hu)) ?_
      rw [hself]
      simp only [appended, hent.done, hent.events]
    · rcases eq_or_ne u t with rfl | hne
      · rw [hself]
        dsimp only
        rw [hent.done]
        exact hs.done u
      · rw [hother u hne, hent.others u hne]
        exact hs.done u
  ended := by
    intro h g p t m a c q π r c' s hs _ henters hπ hdoes _
    obtain rfl : π = [] := List.eq_nil_iff_forall_not_mem.mpr fun y hy => nomatch hπ y hy
    have hent := entered hs henters
    have hother : ∀ u, u ≠ t → (p.settle q t a (.ended [] r s)).threads u = q.threads u :=
      fun u hu => Pool.put_of_ne _ hu
    have hself : (p.settle q t a (.ended [] r s)).threads t = { q.threads t with
        call := none, trace := [], done := (q.threads t).done ++ [⟨a, (q.threads t).trace, r⟩] } := by
      simp [Pool.settle]
    have hl : (p.settle q t a (.ended [] r s)).shared.levelDBs = p.shared.levelDBs := hdoes.levelDBs
    obtain ⟨hhanded, hpast⟩ := hdoes.stops
    rw [hdoes.same] at hhanded hpast
    dsimp only at hhanded hpast
    refine ⟨fun u b' y k' hcall => ?_, fun u hcall => ?_, ?_, hl.trans hs.levelDBs, fun u => ?_,
      fun h' q' u heq _ => changes_last (hent.changes hdoes rfl rfl) heq⟩
    · rcases eq_or_ne u t with rfl | hne
      · rw [hself] at hcall
        cases hcall
      · rw [Function.update_of_ne hne]
        rw [hother u hne, hent.others u hne] at hcall
        exact hent.inCall hne (hs.inCall u b' y k' hcall) (hother u hne) rfl hl
    · rcases eq_or_ne u t with rfl | hne
      · rw [hself]
      · rw [hother u hne, hent.others u hne] at hcall ⊢
        exact hs.idle u hcall
    · refine hs.list.step hent hdoes.batches (fun u hu => (hother u hu).trans (hent.others u hu)) ?_
      rw [hself]
      simp only [appended, hent.done, List.map_append, List.map_cons, List.map_nil, List.append_nil,
        List.filterMap_append]
      cases hdue : a.appends with
      | none =>
        have hentry : BatchCall.entry b a = none := by simp [BatchCall.entry, hdue]
        split <;> simp [hentry]
      | some due =>
        rw [hent.call, hdue] at hpast
        rw [if_pos (Nat.le_of_lt (hpast rfl))]
    · rcases eq_or_ne u t with rfl | hne
      · rw [hself]
        dsimp only
        rw [hent.done]
        intro e he
        rcases List.mem_append.mp he with he | he
        · exact hs.done u e he
        · cases List.mem_singleton.mp he
          exact hent.handed.symm.trans (hhanded.trans (by rw [hent.call]))
      · rw [hother u hne, hent.others u hne]
        exact hs.done u
  failed := by
    intro h g p t m e hs _ _
    refine ⟨fun u a x k hcall => ?_, hs.idle, hs.list, hs.levelDBs, hs.done, fun _ _ _ _ hf => ?_⟩
    · exact (hs.inCall u a x k hcall).step rfl rfl rfl id rfl
    · cases hf

end Steps

/-! ## The claims about a pool -/

/-- The pools that are not in a call yet. -/
theorem shared_fresh {p₀ : BatchPool E} (hfresh : p₀.Fresh) {b : Nat}
    {ops₀ : List PyWriteBatchEntry} (hb : p₀.shared.batches.get b = some ⟨ops₀⟩)
    (g : Nat → Progress) : Shared p₀ b ops₀ [] g p₀ where
  inCall t a x k hcall := by
    rw [(hfresh t).1] at hcall
    cases hcall
  idle t _ := (hfresh t).2.1
  list := by
    refine ⟨[], by rw [hb]; simp, fun t => ?_⟩
    simp [appended, (hfresh t).1, (hfresh t).2.2]
  levelDBs := rfl
  done t e he := by
    rw [(hfresh t).2.2] at he
    cases he
  changes h' q u heq := by
    have := congrArg List.length heq
    simp at this

/-- **Threads that share a batch.** At every moment of a run the list of the batch is what it was, and
then one whole entry for each call that has appended, the entries of a thread in the order of its
calls. A step that changes a list is made with the GIL held. Each `Write` hands one list to leveldb,
once: the list as it stood at one moment of the call; and no other step changes a database. -/
theorem batch_shared {p₀ p : BatchPool E} {h : List (BatchPool E × Nat)} (hfresh : p₀.Fresh)
    (hrun : Run (batchHost E) anyStep p₀ h p) {b : Nat} {ops₀ : List PyWriteBatchEntry}
    (hb : p₀.shared.batches.get b = some ⟨ops₀⟩) :
    ListedAs b ops₀ p ∧
      (∀ t, ∀ e ∈ (p.threads t).done, e.trace.countP isHandOver = e.call.handOvers) ∧
      ∀ t m p', p.step (batchHost E) t m = some p' → p'.fault = none → Changes h p t p' := by
  have hall : ∀ {h p}, Run (batchHost E) anyStep p₀ h p → ∃ g, Shared p₀ b ops₀ h g p := fun hrun =>
    (shared_keeps p₀ b ops₀).run batch_obeys hfresh
      (shared_fresh hfresh hb fun _ => .init (.write 0 ⟨true, 0, false⟩)) hrun
  obtain ⟨g, hs⟩ := hall hrun
  refine ⟨hs.list, hs.done, fun t m p' hstep hf => ?_⟩
  obtain ⟨g', hs'⟩ := hall (hrun.snoc trivial hstep)
  exact hs'.changes h p t rfl hf

/-- Thread 0 puts an entry into a new batch while thread 1 writes the batch to the database. -/
def batchRace : BatchPool soundStore :=
  .start { World.single sample .bytewise with batches := Table.empty.push ⟨[]⟩ } fun
    | 0 => [.put 0 true ⟨1, some [100]⟩ ⟨2, some [4]⟩]
    | 1 => [.write 0 { writeBatch := 0 }]
    | _ => []

/-- The batch is read before the entry is appended, and written after that. -/
def batchSchedule : List (Nat × Threads.Move) :=
  [(0, .take), (0, .start), (0, .go), (0, .go), (1, .take), (1, .start), (1, .go), (1, .go),
    (0, .go), (0, .go), (0, .go), (0, .go), (0, .drop), (1, .go), (1, .go), (1, .go)]

/-- A race. -/
theorem batch_shared_sample : ∃ h p, Run (batchHost soundStore) anyStep batchRace h p ∧
    (p.shared.batches.get 0 = some ⟨[⟨true, [100], [4]⟩]⟩ ∧
      (p.shared.dbs.get 0).map (·.db) = some sample) ∧
    ListedAs 0 [] p ∧
      (∀ t, ∀ e ∈ (p.threads t).done, e.trace.countP isHandOver = e.call.handOvers) ∧
      ∀ t m p', p.step (batchHost soundStore) t m = some p' → p'.fault = none →
        Changes h p t p' := by
  have hends : (Threads.follow (batchHost soundStore) batchSchedule ([], batchRace)).map
      (fun x => (x.2.shared.batches.get 0, (x.2.shared.dbs.get 0).map (·.db))) =
      some (some ⟨[⟨true, [100], [4]⟩]⟩, some sample) := rfl
  obtain ⟨⟨h, p⟩, hfollow, heq⟩ := Option.map_eq_some_iff.mp hends
  have hrun : Run (batchHost soundStore) anyStep batchRace h p := Run.nil.follow hfollow
  exact ⟨h, p, hrun, ⟨congrArg Prod.fst heq, congrArg Prod.snd heq⟩,
    batch_shared (Pool.start_fresh _ _) hrun rfl⟩

end PyLeveldb
