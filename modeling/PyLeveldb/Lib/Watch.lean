import PyLeveldb.Lib.Monitor
import PyLeveldb.Lib.Threads

/-!
# Monitors over a pool

A monitor that reads the events of a call knows when its thread cannot hold the lock. A judgement
along the program of every call, whatever the other threads write, therefore says of each reachable
pool which events a thread may stand at while it holds the lock.

* `Pool.Within`: a thread has the lock only if its own count of the events says so.
* `Watched`: a thread in a call stands at an event that is good in a state of its monitor, and has the
  lock only if that state says so. Every step keeps it (`Watch.keeps`).
-/

namespace Threads

variable {σ ε l α β ω ρ τ : Type}

/-- The lock, as a thread counts the events: does it hold it, and did it at each `ensure` that is not
undone? -/
structure Hold where
  held : Bool
  saved : List Bool
  deriving DecidableEq

/-- What an event does to it. -/
def LockAct.apply : LockAct → Hold → Hold
  | .keep, v | .yield, v => v
  | .release, v => { v with held := false }
  | .acquire, v => { v with held := true }
  | .ensure, v => ⟨true, v.held :: v.saved⟩
  | .restore, v => ⟨v.saved.headD false, v.saved.tail⟩

/-! ## The lock -/

namespace Pool

variable {p q : Pool σ ε l ω ρ} {t : Nat} {v : Hold} {act : LockAct}

/-- Thread `t` has no more of the lock than `v` says. -/
structure Within (p : Pool σ ε l ω ρ) (t : Nat) (v : Hold) : Prop where
  saved : List.Forall₂ (fun a b => a = true → b = true) (p.threads t).saved v.saved
  held : p.holder = some t → v.held = true
  out : (p.threads t).out = true → v.held = true

/-- A change of the pool that gives thread `t` nothing. -/
theorem Within.congr (h : p.Within t v) (hs : (q.threads t).saved = (p.threads t).saved)
    (ho : (q.threads t).out = (p.threads t).out) (hh : q.holder = some t → p.holder = some t) :
    q.Within t v where
  saved := by
    rw [hs]
    exact h.saved
  held hq := h.held (hh hq)
  out hq := h.out (ho.symm.trans hq)

/-- **An event gives a thread no more of the lock than the thread takes it to give.** -/
theorem Within.relock (h : p.Within t v) (hq : p.relock t act = some q)
    (hout : (p.threads t).out = true → act = .yield) :
    q.Within t (act.apply v) ∧ (q.threads t).out = false := by
  have hin : act ≠ .yield → (p.threads t).out = false := fun hne =>
    eq_false_of_ne_true fun ho => hne (hout ho)
  obtain ⟨hsaved, hheld, hyield⟩ := h
  unfold Pool.relock at hq
  dsimp only at hq
  cases act with
  | keep =>
    cases hq
    exact ⟨⟨hsaved, hheld, hyield⟩, hin (by decide)⟩
  | release =>
    obtain ⟨-, ⟨⟩⟩ := Option.ite_none_right_eq_some.mp hq
    have ho := hin (by decide)
    refine ⟨⟨hsaved, fun hp => (by cases hp), fun ht => ?_⟩, ho⟩
    cases ho.symm.trans ht
  | acquire =>
    obtain ⟨-, ⟨⟩⟩ := Option.ite_none_right_eq_some.mp hq
    exact ⟨⟨hsaved, fun _ => rfl, fun _ => rfl⟩, hin (by decide)⟩
  | ensure =>
    have ho := hin (by decide)
    dsimp only at hq
    split at hq
    · next hp =>
      cases hq
      refine ⟨⟨?_, fun _ => rfl, fun _ => rfl⟩, by rwa [put_self]⟩
      rw [put_self]
      exact .cons (fun _ => hheld hp) hsaved
    · obtain ⟨-, ⟨⟩⟩ := Option.ite_none_right_eq_some.mp hq
      refine ⟨⟨?_, fun _ => rfl, fun _ => rfl⟩, ?_⟩
      · show List.Forall₂ _ ((p.put t _).threads t).saved _
        rw [put_self]
        exact .cons (fun hf => by cases hf) hsaved
      · show ((p.put t _).threads t).out = false
        rwa [put_self]
  | restore =>
    have ho := hin (by decide)
    dsimp only at hq
    split at hq
    · next saved hs =>
      cases hq
      rw [hs] at hsaved
      cases hv : v.saved with
      | nil =>
        rw [hv] at hsaved
        cases hsaved
      | cons b vs =>
        rw [hv] at hsaved
        obtain ⟨hb, hsaved⟩ := List.forall₂_cons.mp hsaved
        have hb : b = true := hb rfl
        refine ⟨⟨?_, fun _ => ?_, fun _ => ?_⟩, by rwa [put_self]⟩
        · rw [put_self]
          simpa [LockAct.apply, hv] using hsaved
        · simpa [LockAct.apply, hv] using hb
        · simpa [LockAct.apply, hv] using hb
    · next saved hs =>
      obtain ⟨-, ⟨⟩⟩ := Option.ite_none_right_eq_some.mp hq
      rw [hs] at hsaved
      have hout' : ((p.put t { p.threads t with saved := saved }).threads t).out = false := by
        rwa [put_self]
      refine ⟨⟨?_, fun hp => (by cases hp), fun ht => ?_⟩, hout'⟩
      · show List.Forall₂ _ ((p.put t _).threads t).saved _
        rw [put_self]
        cases hv : v.saved with
        | nil =>
          rw [hv] at hsaved
          cases hsaved
        | cons b vs =>
          rw [hv] at hsaved
          simpa [LockAct.apply, hv] using (List.forall₂_cons.mp hsaved).2
      · cases hout'.symm.trans ht
    · cases hq
  | yield =>
    dsimp only at hq
    split at hq
    · next ho =>
      obtain ⟨-, ⟨⟩⟩ := Option.ite_none_right_eq_some.mp hq
      refine ⟨⟨?_, fun _ => hyield ho, fun _ => hyield ho⟩, ?_⟩
      · show List.Forall₂ _ ((p.put t _).threads t).saved _
        rw [put_self]
        exact hsaved
      · show ((p.put t _).threads t).out = false
        rw [put_self]
    · next ho =>
      obtain ⟨-, ⟨⟩⟩ := Option.ite_none_right_eq_some.mp hq
      exact ⟨⟨hsaved, hheld, hyield⟩, eq_false_of_ne_true ho⟩

theorem Within.perform {K : Host σ ε l ω ρ} {x : l} (h : p.Within t v) (hq : p.perform K t x = some q)
    (hout : (p.threads t).out = true → K.act x = .yield) :
    q.Within t ((K.act x).apply v) ∧ (q.threads t).out = false := by
  obtain ⟨q', hq', rfl⟩ := Option.map_eq_some_iff.mp hq
  obtain ⟨hw, ho⟩ := h.relock hq' hout
  exact ⟨hw.congr (by rw [put_self]) (by rw [put_self]) id, by rw [put_self]; exact ho⟩

/-- A thread that gives up the lock at a `yield` still counts on it. -/
theorem Within.leave (h : p.Within t v) (hp : p.holder = some t) :
    Within { p.put t { p.threads t with out := true } with holder := none } t v where
  saved := by
    show List.Forall₂ _ ((p.put t _).threads t).saved _
    rw [put_self]
    exact h.saved
  held hq := by cases hq
  out _ := h.held hp

end Pool

/-! ## Blocks -/

section Blocks

variable {M : Monitor l τ} {pauses : l → Bool} {hold : τ → Hold}

/-- What is left where a block stops is judged from a state that sees the lock as `v`. -/
def Stop.Along (M : Monitor l τ) (hold : τ → Hold) (Q : α → τ → Prop) (v : Hold) :
    Stop σ ε l α → Prop
  | ended _ a _ => ∃ r, hold r = v ∧ Q a r
  | event _ x k _ => ∃ r, hold r = v ∧ M.Along (.emit x k) Q r
  | failed _ => True

/-- **A block leaves the lock alone, and a judgement goes on after it.** -/
theorem block_along (hM : ∀ x r, pauses x = false → hold (M.step x r) = hold r) {p : Prog σ ε l α}
    {Q : α → τ → Prop} {r : τ} (h : M.Along p Q r) (s : σ) (π : List l) :
    (block pauses p s π).Along M hold Q (hold r) := by
  induction p generalizing r s π with
  | ret a => exact ⟨r, rfl, h⟩
  | fault e => trivial
  | get k ih => exact ih s (h s) s π
  | set s' k ih => exact ih h s' π
  | emit x k ih =>
    unfold block
    cases hx : pauses x with
    | true => exact ⟨r, rfl, h⟩
    | false =>
      rw [← hM x r hx]
      exact ih h.2 s _

end Blocks

/-! ## Runs -/

/-- Monitors for the calls `ω`: they read the lock right, and judge the program of every call from
`r₀`, where the thread has the lock, to a state where it has it again. -/
structure Watch (K : Host σ ε l ω ρ) (M : ω → Monitor l τ) (hold : τ → Hold) (r₀ : τ) : Prop where
  step : ∀ a x r, hold ((M a).step x r) = (K.act x).apply (hold r)
  passes : ∀ x, K.pauses x = false → K.act x = .keep
  first : hold r₀ = ⟨true, []⟩
  prog : ∀ a, (M a).Along (K.prog a) (fun _ r => hold r = ⟨true, []⟩) r₀

/-- Thread `t` is between calls, or it stands at an event that is good in a state of its monitor. -/
def Watched (M : ω → Monitor l τ) (hold : τ → Hold) (act : l → LockAct) (p : Pool σ ε l ω ρ) (t : Nat) :
    Prop :=
  match (p.threads t).call with
  | none => p.Within t ⟨true, []⟩ ∧ (p.threads t).out = false
  | some (a, x, k) => ∃ r, p.Within t (hold r) ∧ ((p.threads t).out = true → act x = .yield) ∧
      (M a).Along (.emit x k) (fun _ r => hold r = ⟨true, []⟩) r

namespace Watch

variable {K : Host σ ε l ω ρ} {M : ω → Monitor l τ} {hold : τ → Hold} {r₀ : τ}
  {p p' q : Pool σ ε l ω ρ} {t u : Nat} {a : ω} {v : Hold}

theorem congr (h : Watched M hold K.act p u) (hth : q.threads u = p.threads u)
    (hh : q.holder = some u → p.holder = some u) : Watched M hold K.act q u := by
  unfold Watched at h ⊢
  rw [hth]
  cases hc : (p.threads u).call with
  | none =>
    rw [hc] at h
    exact ⟨h.1.congr (by rw [hth]) (by rw [hth]) hh, h.2⟩
  | some c =>
    obtain ⟨a, x, k⟩ := c
    rw [hc] at h
    obtain ⟨r, hw, ho, ha⟩ := h
    exact ⟨r, hw.congr (by rw [hth]) (by rw [hth]) hh, ho, ha⟩

/-- The end of a block of thread `t`. -/
theorem settle (stop : Stop σ ε l ρ) (hq : q.Within t v) (hout : (q.threads t).out = false)
    (hstop : stop.Along (M a) hold (fun _ r => hold r = ⟨true, []⟩) v)
    (hp : Watched M hold K.act p t) : Watched M hold K.act (p.settle q t a stop) t := by
  cases stop with
  | failed e => exact congr hp rfl id
  | ended π b s =>
    obtain ⟨r, rfl, hr⟩ := hstop
    have hth := Pool.settle_ended_self (p := p) (q := q) (t := t) (a := a) (π := π) (r := b) (s := s)
    unfold Watched
    rw [hth]
    rw [hr] at hq
    exact ⟨hq.congr (by rw [hth]) (by rw [hth]) id, hout⟩
  | event π x k s =>
    obtain ⟨r, rfl, hr⟩ := hstop
    have hth := Pool.settle_event_self (p := p) (q := q) (t := t) (a := a) (π := π) (x := x) (k := k)
      (s := s)
    unfold Watched
    rw [hth]
    refine ⟨r, hq.congr (by rw [hth]) (by rw [hth]) id, fun ho => ?_, hr⟩
    cases hout.symm.trans ho

theorem settle_of_ne (stop : Stop σ ε l ρ) (hu : u ≠ t) (hth : q.threads u = p.threads u)
    (hh : q.holder = some u → p.holder = some u) (hp : Watched M hold K.act p u) :
    Watched M hold K.act (p.settle q t a stop) u := by
  cases stop with
  | failed e => exact congr hp rfl id
  | ended π b s => exact congr hp ((Pool.settle_ended_of_ne hu).trans hth) hh
  | event π x k s => exact congr hp ((Pool.settle_event_of_ne hu).trans hth) hh

variable (hK : Watch K M hold r₀)
include hK

theorem block (s : σ) {r : τ} {k : Prog σ ε l ρ}
    (h : (M a).Along k (fun _ r => hold r = ⟨true, []⟩) r) :
    (Threads.block K.pauses k s []).Along (M a) hold (fun _ r => hold r = ⟨true, []⟩) (hold r) :=
  block_along (fun x r hx => by rw [hK.step, hK.passes x hx]; rfl) h s []

/-- **A step keeps every thread watched.** -/
theorem keeps {m : Move} (h : ∀ u, Watched M hold K.act p u) (hstep : p.step K t m = some p') (u : Nat) :
    Watched M hold K.act p' u := by
  have ht := h t
  have hu := h u
  obtain ⟨-, hmove⟩ := Pool.moves_of_step hstep
  by_cases hut : u = t
  · subst hut
    unfold Watched at ht
    cases hmove with
    | take hc hfree =>
      rw [hc] at ht
      unfold Watched
      rw [hc]
      exact ⟨⟨ht.1.saved, fun _ => rfl, ht.1.out⟩, ht.2⟩
    | drop hc hheld => exact congr hu rfl (fun hn => by cases hn)
    | leave hc hx hheld =>
      rw [hc] at ht
      obtain ⟨r, hw, -, ha⟩ := ht
      have hleave := hw.leave hheld
      have hth : (p.put u { p.threads u with out := true }).threads u =
          { p.threads u with out := true } := Pool.put_self _
      unfold Watched
      rw [show Pool.threads { p.put u { p.threads u with out := true } with holder := none } u = _
        from hth, hc]
      exact ⟨r, hleave, fun _ => hx, ha⟩
    | @start a todo hc hheld htodo =>
      rw [hc] at ht
      have hq : (p.put u { p.threads u with todo := todo }).Within u (hold r₀) := by
        rw [hK.first]
        exact ht.1.congr (by rw [Pool.put_self]) (by rw [Pool.put_self]) id
      exact settle _ hq (by rw [Pool.put_self]; exact ht.2) (hK.block _ (hK.prog a)) hu
    | @go a x k q hc hq =>
      rw [hc] at ht
      obtain ⟨r, hw, ho, ha⟩ := ht
      obtain ⟨hw', ho'⟩ := hw.perform hq ho
      rw [← hK.step a] at hw'
      exact settle _ hw' ho' (hK.block _ ha.2) hu
  · have hne : ∀ th, (p.put t th).threads u = p.threads u := fun th => Pool.put_of_ne th hut
    cases hmove with
    | take hc hfree => exact congr hu rfl fun hn => absurd (Option.some.inj hn).symm hut
    | drop hc hheld => exact congr hu rfl fun hn => by cases hn
    | leave hc hx hheld => exact congr hu (hne _) fun hn => by cases hn
    | start hc hheld htodo => exact settle_of_ne _ hut (hne _) id hu
    | go hc hq =>
      have hrel := Pool.relocked_of_perform hq
      exact settle_of_ne _ hut (hrel.others u hut) (hrel.holds u hut).mp hu

omit hK in
theorem start (s : σ) (todo : Nat → List ω) (t : Nat) :
    Watched M hold K.act (Pool.start s todo : Pool σ ε l ω ρ) t :=
  ⟨⟨.nil, fun _ => rfl, fun _ => rfl⟩, rfl⟩

end Watch
end Threads
