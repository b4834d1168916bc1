import BaseCom.Sync.Monitor
import BaseCom.Transition.Run
import Mathlib.Data.Int.Order.Basic

/-! `CEvent` with any number of threads calling `Wait`, `Set` and `Reset`, statement by
statement. The wait on the condition variable is cut in three: the call, which
releases the mutex and sleeps; the end of the sleep by a broadcast, spuriously or at
the deadline; and the return, once the mutex is free again. -/

namespace BaseCom.Event

open Sync Transition

/-- `enum EVENTS`. -/
inductive Events
  | eventFailed
  | eventOk
  | eventTimeout
  | eventAbandoned
  deriving DecidableEq

/-- `struct timespec`. -/
structure Timespec where
  tvSec : ℤ
  tvNsec : ℤ
  deriving DecidableEq

namespace Timespec

/-- `pthread_cond_timedwait` refuses other values with `EINVAL`. -/
def Valid (t : Timespec) : Prop := 0 ≤ t.tvNsec ∧ t.tvNsec < 1000000000

/-- The instant has come, with the clock in microseconds. -/
def Reached (t : Timespec) (clock : ℕ) : Prop := t.tvSec * 1000000000 + t.tvNsec ≤ clock * 1000

instance (t : Timespec) : Decidable t.Valid := inferInstanceAs (Decidable (_ ∧ _))

instance (t : Timespec) (clock : ℕ) : Decidable (t.Reached clock) :=
  inferInstanceAs (Decidable (_ ≤ _))

end Timespec

/-- The deadline `Wait` computes from `gettimeofday`. -/
def abstime (clock : ℕ) (millSec : ℤ) : Timespec where
  tvSec := (clock / 1000000 : ℕ) + millSec.tdiv 1000
  tvNsec := (clock % 1000000 : ℕ) * 1000 + millSec.tmod 1000 * 1000000

def einval : ℤ := 22

def etimedout : ℤ := 110

/-- Where a thread stands: the statement it executes next, with the local variables
that are live there. -/
inductive Pc
  | idle
  | waitLock (abstime : Timespec)
  | waitTest (abstime : Timespec) (ret : ℤ)
  | waitCall (abstime : Timespec)
  | asleep (abstime : Timespec)
  | woken (abstime : Timespec) (rc : ℤ)
  | waitRet (abstime : Timespec) (ret : ℤ)
  | waitUnlock (ret : ℤ)
  | timeoutUnlock
  | returned (event : Events)
  | setLock
  | setAssign
  | setBroadcast
  | setUnlock
  | resetLock
  | resetAssign
  | resetUnlock
  deriving DecidableEq

namespace Pc

/-- After the test `!m_bNotify`. -/
def afterTest (bNotify : Bool) (abstime : Timespec) (ret : ℤ) : Pc :=
  if bNotify then .waitUnlock ret else .waitCall abstime

/-- After the timed wait, whose result the outer condition tests for being nonzero. -/
def afterRet (abstime : Timespec) (ret : ℤ) : Pc :=
  if ret ≠ 0 then
    if 0 = ret then .waitUnlock ret else .timeoutUnlock
  else .waitTest abstime ret

/-- What `Wait` returns after its unlock. -/
def result (ret : ℤ) : Events := if ret = 0 then .eventOk else .eventTimeout

/-- What a broadcast does to a thread. -/
def wake : Pc → Pc
  | .asleep abstime => .woken abstime 0
  | p => p

/-- Inside a critical section. -/
def Holds : Pc → Prop
  | .waitTest _ _ | .waitCall _ | .waitRet _ _ | .waitUnlock _ | .timeoutUnlock
  | .setAssign | .setBroadcast | .setUnlock | .resetAssign | .resetUnlock => True
  | .idle | .waitLock _ | .asleep _ | .woken _ _ | .returned _ | .setLock | .resetLock => False

/-- No call is under way. -/
def resting : Pc → Bool
  | .idle | .returned _ => true
  | _ => false

end Pc

/-- The object with its threads. `mon.data` is `m_bNotify`; `released` counts the calls
of `pthread_mutex_unlock` in a thread's current or last call. -/
structure CEvent (ι : Type*) where
  mon : Monitor ι Pc Bool
  clock : ℕ
  released : ι → ℕ

/-- What happens next: a thread begins a call or executes its next statement, a sleep
ends without a broadcast, or time passes. -/
inductive Act (ι : Type*)
  | callWait (i : ι) (millSec : ℤ)
  | callSet (i : ι)
  | callReset (i : ι)
  | next (i : ι)
  | spurious (i : ι)
  | expire (i : ι)
  | tick (n : ℕ)

namespace CEvent

variable {ι : Type*} [DecidableEq ι]

/-- The flag `m_bNotify`. -/
def bNotify (e : CEvent ι) : Bool := e.mon.data

def begin (e : CEvent ι) (i : ι) (p : Pc) : CEvent ι :=
  { e with mon := e.mon.goto i p, released := Function.update e.released i 0 }

/-- `pthread_mutex_unlock` by the program. -/
def unlock (e : CEvent ι) (i : ι) (p : Pc) : CEvent ι :=
  { e with mon := e.mon.unlock i p
           released := Function.update e.released i (e.released i + 1) }

/-- `pthread_mutex_lock`, or the reacquisition in the timed wait. -/
def acquire (e : CEvent ι) (i : ι) (p : Pc) : Option (CEvent ι) :=
  if e.mon.mutex = none then some { e with mon := e.mon.lock i p } else none

/-- The next statement of a thread. -/
def next (e : CEvent ι) (i : ι) : Option (CEvent ι) :=
  match e.mon.pc i with
  | .idle | .returned _ | .asleep _ => none
  | .waitLock abstime => e.acquire i (.waitTest abstime (-1))
  | .waitTest abstime ret =>
    some { e with mon := e.mon.goto i (.afterTest e.bNotify abstime ret) }
  | .waitCall abstime =>
    if abstime.Valid then some { e with mon := e.mon.unlock i (.asleep abstime) }
    else some { e with mon := e.mon.goto i (.waitRet abstime einval) }
  | .woken abstime rc => e.acquire i (.waitRet abstime rc)
  | .waitRet abstime ret => some { e with mon := e.mon.goto i (.afterRet abstime ret) }
  | .waitUnlock ret => some (e.unlock i (.returned (Pc.result ret)))
  | .timeoutUnlock => some (e.unlock i (.returned .eventTimeout))
  | .setLock => e.acquire i .setAssign
  | .setAssign => some { e with mon := e.mon.store i .setBroadcast true }
  | .setBroadcast => some { e with mon := (e.mon.redirect Pc.wake).goto i .setUnlock }
  | .setUnlock => some (e.unlock i .idle)
  | .resetLock => e.acquire i .resetAssign
  | .resetAssign => some { e with mon := e.mon.store i .resetUnlock false }
  | .resetUnlock => some (e.unlock i .idle)

def step (e : CEvent ι) : Act ι → Option (CEvent ι)
  | .callWait i millSec =>
    if (e.mon.pc i).resting then some (e.begin i (.waitLock (abstime e.clock millSec))) else none
  | .callSet i => if (e.mon.pc i).resting then some (e.begin i .setLock) else none
  | .callReset i => if (e.mon.pc i).resting then some (e.begin i .resetLock) else none
  | .next i => e.next i
  | .spurious i =>
    match e.mon.pc i with
    | .asleep abstime => some { e with mon := e.mon.goto i (.woken abstime 0) }
    | _ => none
  | .expire i =>
    match e.mon.pc i with
    | .asleep abstime =>
      if abstime.Reached e.clock then
        some { e with mon := e.mon.goto i (.woken abstime etimedout) }
      else none
    | _ => none
  | .tick n => some { e with clock := e.clock + n }

/-- A constructed object that no thread has used yet. -/
structure Initial (e : CEvent ι) : Prop where
  mutex : e.mon.mutex = none
  pc : ∀ i, e.mon.pc i = .idle
  bNotify : e.bNotify = false

/-- `CEvent::CEvent`. -/
def construct (clock : ℕ) : CEvent ι where
  mon := ⟨none, fun _ => .idle, false⟩
  clock := clock
  released := fun _ => 0

omit [DecidableEq ι] in
theorem initial_construct (clock : ℕ) : (construct clock : CEvent ι).Initial :=
  ⟨rfl, fun _ => rfl, rfl⟩

end CEvent

/-- The object under any number of threads. -/
def cevent (ι : Type*) [DecidableEq ι] : Lts (CEvent ι) (Act ι) where
  init := CEvent.Initial
  step := CEvent.step

end BaseCom.Event
