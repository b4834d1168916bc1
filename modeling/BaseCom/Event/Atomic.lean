import BaseCom.Event.Safety

/-! The event as its users may think of it: a flag that `Set` and `Reset` change and `Wait`
looks at, each at one instant between its call and its return. `Wait` looks twice at least if
it is to return `EVENT_OK`: it must have found the flag clear before it finds it set. Every
run of the monitor looks like a run of this event. -/

namespace BaseCom.Event

open Sync Transition

/-- What is called. -/
inductive Operation
  | wait (millSec : ℤ)
  | set
  | reset
  deriving DecidableEq

/-- Where a call stands. A `waiting` one has found the flag clear; a `done` one has had its
effect and has yet to return, `Wait` with an event. -/
inductive Stage
  | idle
  | waitCalled (abstime : Timespec)
  | setCalled
  | resetCalled
  | waiting (abstime : Timespec)
  | done (event : Option Events)
  deriving DecidableEq

structure AtomicEvent (ι : Type*) where
  bNotify : Bool
  clock : ℕ
  stage : ι → Stage

inductive AtomicAct (ι : Type*)
  | call (i : ι) (op : Operation)
  | effect (i : ι)
  | giveUp (i : ι)
  | ret (i : ι)
  | tick (n : ℕ)

namespace AtomicEvent

variable {ι : Type*} [DecidableEq ι]

def goto (x : AtomicEvent ι) (i : ι) (stage : Stage) : AtomicEvent ι :=
  { x with stage := Function.update x.stage i stage }

/-- Where an operation begins. -/
def called (x : AtomicEvent ι) : Operation → Stage
  | .wait millSec => .waitCalled (abstime x.clock millSec)
  | .set => .setCalled
  | .reset => .resetCalled

/-- The instant at which a call has its effect. -/
def effect (x : AtomicEvent ι) (i : ι) : Option (AtomicEvent ι) :=
  match x.stage i with
  | .setCalled => some { x.goto i (.done none) with bNotify := true }
  | .resetCalled => some { x.goto i (.done none) with bNotify := false }
  | .waitCalled abstime =>
    -- a flag that is set already is a timeout to the code
    some (x.goto i (if x.bNotify then .done (some .eventTimeout) else .waiting abstime))
  | .waiting _ => if x.bNotify then some (x.goto i (.done (some .eventOk))) else none
  | .idle | .done _ => none

def step (x : AtomicEvent ι) : AtomicAct ι → Option (AtomicEvent ι)
  | .call i op => if x.stage i = .idle then some (x.goto i (x.called op)) else none
  | .effect i => x.effect i
  | .giveUp i =>
    match x.stage i with
    | .waiting abstime =>
      if abstime.Valid ∧ ¬ abstime.Reached x.clock then none
      else some (x.goto i (.done (some .eventTimeout)))
    | _ => none
  | .ret i =>
    match x.stage i with
    | .done _ => some (x.goto i .idle)
    | _ => none
  | .tick n => some { x with clock := x.clock + n }

/-- Clear, and no call is under way. -/
def fresh (clock : ℕ) : AtomicEvent ι := ⟨false, clock, fun _ => .idle⟩

end AtomicEvent

def atomicEvent (ι : Type*) [DecidableEq ι] : Lts (AtomicEvent ι) (AtomicAct ι) where
  init x := ∃ clock, x = .fresh clock
  step := AtomicEvent.step

/-! ### What is seen -/

/-- Calls and returns. `Set` and `Reset` return nothing. -/
inductive Sight (ι : Type*)
  | call (i : ι) (op : Operation)
  | ret (i : ι) (event : Option Events)
  deriving DecidableEq

def AtomicEvent.sight {ι : Type*} (x : AtomicEvent ι) : AtomicAct ι → Option (Sight ι)
  | .call i op => some (.call i op)
  | .ret i =>
    match x.stage i with
    | .done event => some (.ret i event)
    | _ => none
  | .effect _ | .giveUp _ | .tick _ => none

namespace CEvent

variable {ι : Type*}

def sight (e : CEvent ι) : Act ι → Option (Sight ι)
  | .callWait i millSec => some (.call i (.wait millSec))
  | .callSet i => some (.call i .set)
  | .callReset i => some (.call i .reset)
  | .next i =>
    match e.mon.pc i with
    | .waitUnlock ret => some (.ret i (some (Pc.result ret)))
    | .timeoutUnlock => some (.ret i (some .eventTimeout))
    | .setUnlock | .resetUnlock => some (.ret i none)
    | _ => none
  | .spurious _ | .expire _ | .tick _ => none

end CEvent

/-! ### The instants -/

/-- The stage at a program point. `Set` and `Reset` have their effect when they assign, and
`Wait` has its when it tests the flag or its deadline has come. -/
def Pc.stage : Pc → Stage
  | .idle | .returned _ => .idle
  | .waitLock abstime => .waitCalled abstime
  | .waitTest abstime ret => if ret = 0 then .waiting abstime else .waitCalled abstime
  | .waitCall abstime | .asleep abstime => .waiting abstime
  | .woken abstime ret | .waitRet abstime ret =>
    if ret = 0 then .waiting abstime else .done (some .eventTimeout)
  | .waitUnlock ret => .done (some (Pc.result ret))
  | .timeoutUnlock => .done (some .eventTimeout)
  | .setLock | .setAssign => .setCalled
  | .setBroadcast | .setUnlock | .resetUnlock => .done none
  | .resetLock | .resetAssign => .resetCalled

variable {ι : Type*} [DecidableEq ι]

namespace CEvent

variable {e f : CEvent ι} {a : Act ι} {i : ι}

def atomic (e : CEvent ι) : AtomicEvent ι := ⟨e.bNotify, e.clock, fun i => (e.mon.pc i).stage⟩

theorem stage_of_resting {p : Pc} (h : p.resting = true) : p.stage = .idle := by
  cases p <;> first | rfl | cases h

theorem stage_wake (p : Pc) : p.wake.stage = p.stage := by
  cases p <;> rfl

/-- One thread goes to another program point. -/
theorem atomic_goto {p : Pc} (hpc : f.mon.pc = Function.update e.mon.pc i p)
    (hc : f.clock = e.clock) (hb : f.bNotify = e.bNotify) :
    f.atomic = e.atomic.goto i p.stage := by
  simp only [atomic, AtomicEvent.goto, AtomicEvent.mk.injEq, hb, hc, hpc, true_and]
  funext j
  rcases eq_or_ne j i with rfl | hj
  · simp only [Function.update_self]
  · simp only [Function.update_of_ne hj]

/-- A step within one stage. -/
theorem atomic_stays {p : Pc} (hpc : f.mon.pc = Function.update e.mon.pc i p)
    (hc : f.clock = e.clock) (hb : f.bNotify = e.bNotify) (hp : p.stage = (e.mon.pc i).stage) :
    f.atomic = e.atomic := by
  rw [atomic_goto hpc hc hb, hp]
  simp only [AtomicEvent.goto, atomic, AtomicEvent.mk.injEq, true_and]
  exact Function.update_eq_self i _

/-- A step that is none, or one of the atomic event that looks the same. -/
def Simulated (e : CEvent ι) (a : Act ι) (f : CEvent ι) : Prop :=
  (f.atomic = e.atomic ∧ e.sight a = none) ∨
    ∃ b, e.atomic.step b = some f.atomic ∧ e.atomic.sight b = e.sight a

theorem simulated_call {p : Pc} (hp : (e.mon.pc i).resting = true) (op : Operation)
    (ha : e.sight a = some (.call i op)) (hs : p.stage = e.atomic.called op) :
    Simulated e a (e.begin i p) := by
  have hidle : e.atomic.stage i = .idle := stage_of_resting hp
  have hto : (e.begin i p).atomic = e.atomic.goto i p.stage := atomic_goto rfl rfl rfl
  refine .inr ⟨.call i op, ?_, ha.symm⟩
  rw [hto, hs]
  exact if_pos hidle

theorem simulated_return {p : Pc} {event : Option Events} (hp : p.stage = .idle)
    (hs : (e.mon.pc i).stage = .done event) (ha : e.sight a = some (.ret i event)) :
    Simulated e a (e.unlock i p) := by
  have hdone : e.atomic.stage i = .done event := hs
  have hto : (e.unlock i p).atomic = e.atomic.goto i p.stage := atomic_goto rfl rfl rfl
  refine .inr ⟨.ret i, ?_, ?_⟩
  · rw [hto, hp]
    simp only [AtomicEvent.step, hdone]
  · simp only [AtomicEvent.sight, hdone, ha]

/-- `Wait` looks at the flag: the first time, or again after a wake-up. -/
theorem simulated_test {t : Timespec} {ret : ℤ} (hp : e.mon.pc i = .waitTest t ret) :
    Simulated e (.next i) { e with mon := e.mon.goto i (.afterTest e.bNotify t ret) } := by
  have hsight : e.sight (.next i) = none := by simp only [sight, hp]
  have hto : atomic { e with mon := e.mon.goto i (.afterTest e.bNotify t ret) } =
      e.atomic.goto i (Pc.afterTest e.bNotify t ret).stage := atomic_goto rfl rfl rfl
  have hstage : e.atomic.stage i = if ret = 0 then .waiting t else .waitCalled t :=
    congrArg Pc.stage hp
  have hflag : e.atomic.bNotify = e.bNotify := rfl
  by_cases hret : ret = 0
  · rw [if_pos hret] at hstage
    cases hb : e.bNotify with
    | true =>
      refine .inr ⟨.effect i, ?_, hsight.symm⟩
      rw [hb] at hto hflag
      rw [hto, hret]
      simp only [AtomicEvent.step, AtomicEvent.effect, hstage, hflag, if_true]
      rfl
    | false =>
      refine .inl ⟨atomic_stays rfl rfl rfl ?_, hsight⟩
      rw [hp, hret]
      rfl
  · rw [if_neg hret] at hstage
    refine .inr ⟨.effect i, ?_, hsight.symm⟩
    rw [hto]
    simp only [AtomicEvent.step, AtomicEvent.effect, hstage, hflag]
    cases e.bNotify with
    | true =>
      simp only [if_true, Pc.afterTest, Pc.stage, Pc.result, if_neg hret]
    | false => rfl

/-- Only the stage of the thread that broadcasts could change, and it does not. -/
theorem atomic_broadcast (hp : e.mon.pc i = .setBroadcast) :
    atomic { e with mon := (e.mon.redirect Pc.wake).goto i .setUnlock } = e.atomic := by
  simp only [atomic, AtomicEvent.mk.injEq, true_and]
  refine ⟨rfl, ?_⟩
  funext j
  rcases eq_or_ne j i with rfl | hj
  · rw [Monitor.goto_pc_self, hp]
    rfl
  · rw [Monitor.goto_pc_of_ne _ _ hj]
    exact stage_wake _

theorem simulated_giveUp {t : Timespec} {p : Pc} (hs : (e.mon.pc i).stage = .waiting t)
    (hp : p.stage = .done (some .eventTimeout)) (hdue : ¬ t.Valid ∨ t.Reached e.clock)
    (hpc : f.mon.pc = Function.update e.mon.pc i p) (hc : f.clock = e.clock)
    (hb : f.bNotify = e.bNotify) (ha : e.sight a = none) : Simulated e a f := by
  have hstage : e.atomic.stage i = .waiting t := hs
  have hopen : ¬ (t.Valid ∧ ¬ t.Reached e.atomic.clock) := fun h => hdue.elim (· h.1) h.2
  refine .inr ⟨.giveUp i, ?_, ha.symm⟩
  rw [atomic_goto hpc hc hb, hp]
  simp only [AtomicEvent.step, hstage, if_neg hopen]

/-- The assignment of `Set` or `Reset`. -/
theorem simulated_store {p : Pc} {b : Bool} (hs : e.atomic.effect i =
      some { e.atomic.goto i p.stage with bNotify := b }) (ha : e.sight a = none) :
    Simulated e a { e with mon := e.mon.store i p b } := by
  refine .inr ⟨.effect i, ?_, ha.symm⟩
  have hto : atomic { e with mon := e.mon.goto i p } = e.atomic.goto i p.stage :=
    atomic_goto rfl rfl rfl
  rw [← hto] at hs
  exact hs

theorem stage_afterRet (t : Timespec) (ret : ℤ) :
    (Pc.afterRet t ret).stage = (Pc.waitRet t ret).stage := by
  unfold Pc.afterRet
  by_cases hret : ret = 0
  · subst hret
    rfl
  · rw [if_pos hret, if_neg (Ne.symm hret)]
    simp only [Pc.stage, if_neg hret]

theorem Step.simulated (hst : Step e a f) : Simulated e a f := by
  cases hst with
  | callWait hp => exact simulated_call hp (.wait _) rfl rfl
  | callSet hp => exact simulated_call hp .set rfl rfl
  | callReset hp => exact simulated_call hp .reset rfl rfl
  | waitLock hp _ =>
    exact .inl ⟨atomic_stays rfl rfl rfl (by rw [hp]; rfl), by simp only [sight, hp]⟩
  | waitTest hp => exact simulated_test hp
  | waitCall hp _ =>
    exact .inl ⟨atomic_stays rfl rfl rfl (by rw [hp]; rfl), by simp only [sight, hp]⟩
  | waitRefused hp ht =>
    exact simulated_giveUp (by rw [hp]; rfl) rfl (.inl ht) rfl rfl rfl (by simp only [sight, hp])
  | reacquire hp _ =>
    exact .inl ⟨atomic_stays rfl rfl rfl (by rw [hp]; rfl), by simp only [sight, hp]⟩
  | waitRet hp =>
    refine .inl ⟨atomic_stays rfl rfl rfl ?_, by simp only [sight, hp]⟩
    rw [hp]
    exact stage_afterRet _ _
  | waitUnlock hp =>
    exact simulated_return rfl (by rw [hp]; rfl) (by simp only [sight, hp])
  | timeoutUnlock hp =>
    exact simulated_return rfl (by rw [hp]; rfl) (by simp only [sight, hp])
  | setLock hp _ | resetLock hp _ =>
    exact .inl ⟨atomic_stays rfl rfl rfl (by rw [hp]; rfl), by simp only [sight, hp]⟩
  | @setAssign i hp =>
    have hstage : e.atomic.stage i = .setCalled := congrArg Pc.stage hp
    exact simulated_store (by simp only [AtomicEvent.effect, hstage]; rfl)
      (by simp only [sight, hp])
  | setBroadcast hp => exact .inl ⟨atomic_broadcast hp, by simp only [sight, hp]⟩
  | setUnlock hp | resetUnlock hp =>
    exact simulated_return rfl (by rw [hp]; rfl) (by simp only [sight, hp])
  | @resetAssign i hp =>
    have hstage : e.atomic.stage i = .resetCalled := congrArg Pc.stage hp
    exact simulated_store (by simp only [AtomicEvent.effect, hstage]; rfl)
      (by simp only [sight, hp])
  | spurious hp =>
    exact .inl ⟨atomic_stays rfl rfl rfl (by rw [hp]; rfl), rfl⟩
  | expire hp ht =>
    exact simulated_giveUp (by rw [hp]; rfl) rfl (.inr ht) rfl rfl rfl rfl
  | tick => exact .inr ⟨.tick _, rfl, rfl⟩

end CEvent

/-- Whatever the threads do, what they see of the monitor they can see of the atomic event:
between its call and its return every call takes effect at one instant, a `Wait` that returns
`EVENT_OK` at one at which the flag is set, after one at which it was clear. -/
theorem looks_atomic {e₀ e : CEvent ι} {tr : List (CEvent ι × Act ι)} (hi : e₀.Initial)
    (hr : Run (cevent ι) e₀ tr e) :
    ∃ ts, Run (atomicEvent ι) (.fresh e₀.clock) ts e.atomic ∧
      observed AtomicEvent.sight ts = observed CEvent.sight tr := by
  have hstart : e₀.atomic = .fresh e₀.clock := by
    simp only [CEvent.atomic, AtomicEvent.fresh, hi.bNotify, hi.pc]
    rfl
  have hstep : ∀ u l v, (cevent ι).step u l = some v → CEvent.Simulated u l v :=
    fun _ _ _ hk => (CEvent.step_cases hk).simulated
  rw [← hstart]
  exact hr.simulate hstep

/-- One thread sets the event, and another waits for it. -/
def setThenWait : List (Act Bool) := [
  .callSet false, .next false, .next false, .next false, .next false, .callWait true 5,
  .next true, .next true, .next true]

/-- The event is set, and `Wait` returns `EVENT_TIMEOUT`. -/
theorem looks_atomic_set_then_wait : ∃ ts x, Run (atomicEvent Bool) (.fresh 0) ts x ∧
    observed AtomicEvent.sight ts = [.call false .set, .ret false none, .call true (.wait 5),
      .ret true (some .eventTimeout)] := by
  obtain ⟨e, hr, -⟩ := exists_run_of_exec (S := cevent Bool) (.construct 0) setThenWait
    (P := fun _ => True) (by decide +kernel)
  obtain ⟨ts, hts, hobs⟩ := looks_atomic (CEvent.initial_construct 0) hr
  refine ⟨ts, _, hts, hobs.trans ?_⟩
  decide +kernel

end BaseCom.Event
