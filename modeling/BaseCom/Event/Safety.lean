import BaseCom.Event.CEvent

/-! Safety of the event as a monitor. The outline says what a thread knows in its
critical section: before it sleeps that the flag is clear, after the loop that it is
set. So no thread goes to sleep on a set flag, and a flag that is set while threads
sleep was set by a `Set` that has not come to its broadcast yet. -/

namespace BaseCom.Event

open Sync Transition

variable {ι : Type*} [DecidableEq ι] {e f : CEvent ι} {a : Act ι}

namespace CEvent

/-- Everything a step can do. -/
inductive Step (e : CEvent ι) : Act ι → CEvent ι → Prop
  | callWait {i : ι} {millSec : ℤ} (hp : (e.mon.pc i).resting = true) :
      Step e (.callWait i millSec) (e.begin i (.waitLock (abstime e.clock millSec)))
  | callSet {i : ι} (hp : (e.mon.pc i).resting = true) : Step e (.callSet i) (e.begin i .setLock)
  | callReset {i : ι} (hp : (e.mon.pc i).resting = true) :
      Step e (.callReset i) (e.begin i .resetLock)
  | waitLock {i : ι} {t : Timespec} (hp : e.mon.pc i = .waitLock t) (hm : e.mon.mutex = none) :
      Step e (.next i) { e with mon := e.mon.lock i (.waitTest t (-1)) }
  | waitTest {i : ι} {t : Timespec} {ret : ℤ} (hp : e.mon.pc i = .waitTest t ret) :
      Step e (.next i) { e with mon := e.mon.goto i (.afterTest e.bNotify t ret) }
  | waitCall {i : ι} {t : Timespec} (hp : e.mon.pc i = .waitCall t) (ht : t.Valid) :
      Step e (.next i) { e with mon := e.mon.unlock i (.asleep t) }
  | waitRefused {i : ι} {t : Timespec} (hp : e.mon.pc i = .waitCall t) (ht : ¬ t.Valid) :
      Step e (.next i) { e with mon := e.mon.goto i (.waitRet t einval) }
  | reacquire {i : ι} {t : Timespec} {rc : ℤ} (hp : e.mon.pc i = .woken t rc)
      (hm : e.mon.mutex = none) : Step e (.next i) { e with mon := e.mon.lock i (.waitRet t rc) }
  | waitRet {i : ι} {t : Timespec} {ret : ℤ} (hp : e.mon.pc i = .waitRet t ret) :
      Step e (.next i) { e with mon := e.mon.goto i (.afterRet t ret) }
  | waitUnlock {i : ι} {ret : ℤ} (hp : e.mon.pc i = .waitUnlock ret) :
      Step e (.next i) (e.unlock i (.returned (Pc.result ret)))
  | timeoutUnlock {i : ι} (hp : e.mon.pc i = .timeoutUnlock) :
      Step e (.next i) (e.unlock i (.returned .eventTimeout))
  | setLock {i : ι} (hp : e.mon.pc i = .setLock) (hm : e.mon.mutex = none) :
      Step e (.next i) { e with mon := e.mon.lock i .setAssign }
  | setAssign {i : ι} (hp : e.mon.pc i = .setAssign) :
      Step e (.next i) { e with mon := e.mon.store i .setBroadcast true }
  | setBroadcast {i : ι} (hp : e.mon.pc i = .setBroadcast) :
      Step e (.next i) { e with mon := (e.mon.redirect Pc.wake).goto i .setUnlock }
  | setUnlock {i : ι} (hp : e.mon.pc i = .setUnlock) : Step e (.next i) (e.unlock i .idle)
  | resetLock {i : ι} (hp : e.mon.pc i = .resetLock) (hm : e.mon.mutex = none) :
      Step e (.next i) { e with mon := e.mon.lock i .resetAssign }
  | resetAssign {i : ι} (hp : e.mon.pc i = .resetAssign) :
      Step e (.next i) { e with mon := e.mon.store i .resetUnlock false }
  | resetUnlock {i : ι} (hp : e.mon.pc i = .resetUnlock) : Step e (.next i) (e.unlock i .idle)
  | spurious {i : ι} {t : Timespec} (hp : e.mon.pc i = .asleep t) :
      Step e (.spurious i) { e with mon := e.mon.goto i (.woken t 0) }
  | expire {i : ι} {t : Timespec} (hp : e.mon.pc i = .asleep t) (ht : t.Reached e.clock) :
      Step e (.expire i) { e with mon := e.mon.goto i (.woken t etimedout) }
  | tick {n : ℕ} : Step e (.tick n) { e with clock := e.clock + n }

theorem acquire_cases {i : ι} {p : Pc} (h : e.acquire i p = some f) :
    e.mon.mutex = none ∧ f = { e with mon := e.mon.lock i p } := by
  unfold acquire at h
  split_ifs at h with hm
  exact ⟨hm, (Option.some.inj h).symm⟩

theorem next_cases {i : ι} (h : e.next i = some f) : Step e (.next i) f := by
  unfold next at h
  cases hp : e.mon.pc i with
  | idle | returned _ | asleep _ => simp only [hp] at h; cases h
  | waitLock t =>
    simp only [hp] at h
    obtain ⟨hm, rfl⟩ := acquire_cases h
    exact .waitLock hp hm
  | waitTest t ret =>
    simp only [hp] at h
    cases h
    exact .waitTest hp
  | waitCall t =>
    simp only [hp] at h
    split_ifs at h with ht
    · cases h
      exact .waitCall hp ht
    · cases h
      exact .waitRefused hp ht
  | woken t rc =>
    simp only [hp] at h
    obtain ⟨hm, rfl⟩ := acquire_cases h
    exact .reacquire hp hm
  | waitRet t ret =>
    simp only [hp] at h
    cases h
    exact .waitRet hp
  | waitUnlock ret =>
    simp only [hp] at h
    cases h
    exact .waitUnlock hp
  | timeoutUnlock =>
    simp only [hp] at h
    cases h
    exact .timeoutUnlock hp
  | setLock =>
    simp only [hp] at h
    obtain ⟨hm, rfl⟩ := acquire_cases h
    exact .setLock hp hm
  | setAssign =>
    simp only [hp] at h
    cases h
    exact .setAssign hp
  | setBroadcast =>
    simp only [hp] at h
    cases h
    exact .setBroadcast hp
  | setUnlock =>
    simp only [hp] at h
    cases h
    exact .setUnlock hp
  | resetLock =>
    simp only [hp] at h
    obtain ⟨hm, rfl⟩ := acquire_cases h
    exact .resetLock hp hm
  | resetAssign =>
    simp only [hp] at h
    cases h
    exact .resetAssign hp
  | resetUnlock =>
    simp only [hp] at h
    cases h
    exact .resetUnlock hp

theorem step_cases (h : e.step a = some f) : Step e a f := by
  cases a with
  | callWait i millSec =>
    simp only [step] at h
    split_ifs at h with hp
    cases h
    exact .callWait hp
  | callSet i =>
    simp only [step] at h
    split_ifs at h with hp
    cases h
    exact .callSet hp
  | callReset i =>
    simp only [step] at h
    split_ifs at h with hp
    cases h
    exact .callReset hp
  | next i => exact next_cases h
  | spurious i =>
    simp only [step] at h
    split at h
    next t hp =>
      cases h
      exact .spurious hp
    next => cases h
  | expire i =>
    simp only [step] at h
    split at h
    next t hp =>
      split_ifs at h with ht
      cases h
      exact .expire hp ht
    next => cases h
  | tick n =>
    cases h
    exact .tick

/-! ### Critical sections -/

end CEvent

/-- The thread a step belongs to. -/
def Act.mover : Act ι → Option ι
  | .callWait i _ | .callSet i | .callReset i | .next i | .spurious i | .expire i => some i
  | .tick _ => none

namespace Pc

theorem not_holds_of_resting {p : Pc} (hp : p.resting = true) : ¬ p.Holds := by
  cases p with
  | idle | returned _ => exact id
  | _ => cases hp

theorem holds_afterTest (b : Bool) (t : Timespec) (ret : ℤ) : (afterTest b t ret).Holds := by
  cases b <;> trivial

theorem holds_afterRet (t : Timespec) (ret : ℤ) : (afterRet t ret).Holds := by
  unfold afterRet
  split_ifs <;> trivial

theorem wake_ne_asleep (p : Pc) (t : Timespec) : p.wake ≠ .asleep t := by
  cases p <;> exact nofun

theorem wake_cases (p : Pc) : p.wake = p ∨ ¬ p.Holds ∧ ¬ p.wake.Holds := by
  cases p with
  | asleep t => exact .inr ⟨id, id⟩
  | _ => exact .inl rfl

end Pc

/-- The critical sections of the three methods, with assertions for the points in them. -/
def outline (asserts : Pc → Bool → Prop) (outside : ∀ p d, ¬ p.Holds → asserts p d) :
    Outline Pc Bool := ⟨Pc.Holds, asserts, outside⟩

namespace CEvent

omit [DecidableEq ι] in
theorem holds_at {m : Monitor ι Pc Bool} {i : ι} {p : Pc} (hp : m.pc i = p) (h : p.Holds) :
    (m.pc i).Holds := hp ▸ h

/-- Locking and unlocking go with the critical sections, so an outline stays valid
if the moving thread meets its next assertion. -/
theorem Step.valid {asserts : Pc → Bool → Prop} {outside : ∀ p d, ¬ p.Holds → asserts p d}
    (v : (outline asserts outside).Valid e.mon) (hst : Step e a f)
    (ha : ∀ i, a.mover = some i → asserts (f.mon.pc i) f.mon.data) :
    (outline asserts outside).Valid f.mon := by
  cases hst with
  | callWait hp | callSet hp | callReset hp =>
    have hi := ha _ rfl
    rw [begin, Monitor.goto_pc_self] at hi
    exact v.goto (iff_of_false id (Pc.not_holds_of_resting hp)) hi
  | waitLock hp hm | reacquire hp hm | setLock hp hm | resetLock hp hm =>
    have hi := ha _ rfl
    rw [Monitor.lock_pc_self] at hi
    exact v.lock hm trivial hi
  | waitTest hp =>
    have hi := ha _ rfl
    rw [Monitor.goto_pc_self] at hi
    exact v.goto (iff_of_true (Pc.holds_afterTest _ _ _) (holds_at hp trivial)) hi
  | waitRet hp =>
    have hi := ha _ rfl
    rw [Monitor.goto_pc_self] at hi
    exact v.goto (iff_of_true (Pc.holds_afterRet _ _) (holds_at hp trivial)) hi
  | waitRefused hp ht =>
    have hi := ha _ rfl
    rw [Monitor.goto_pc_self] at hi
    exact v.goto (iff_of_true trivial (holds_at hp trivial)) hi
  | waitCall hp _ => exact v.unlock (holds_at hp trivial) id
  | waitUnlock hp | timeoutUnlock hp | setUnlock hp | resetUnlock hp =>
    exact v.unlock (holds_at hp trivial) id
  | setAssign hp | resetAssign hp =>
    have hi := ha _ rfl
    rw [Monitor.store_pc_self] at hi
    refine v.store (holds_at hp trivial) ?_ hi
    trivial
  | setBroadcast hp =>
    have hi := ha _ rfl
    rw [Monitor.goto_pc_self] at hi
    refine (v.redirect Pc.wake_cases).goto (iff_of_true trivial ?_) hi
    show (Pc.wake (e.mon.pc _)).Holds
    rw [hp]
    trivial
  | spurious hp | expire hp _ =>
    refine v.goto (iff_of_false id ?_) (outside _ _ id)
    rw [hp]
    exact id
  | tick => exact v

/-! ### The wait loop -/

/-- Before it sleeps a thread knows that the flag is clear, after the loop that it is set. -/
def loopAsserts : Pc → Bool → Prop
  | .waitCall _, d => d = false
  | .waitUnlock _, d => d = true
  | _, _ => True

theorem loopAsserts_outside (p : Pc) (d : Bool) (hp : ¬ p.Holds) : loopAsserts p d := by
  cases p with
  | waitCall _ | waitUnlock _ => exact absurd trivial hp
  | _ => trivial

/-- A sleeping thread on a set flag is about to be woken. -/
def Signalled (m : Monitor ι Pc Bool) : Prop :=
  m.data = true → ∀ i t, m.pc i = .asleep t → ∃ j, m.pc j = .setBroadcast

/-- The unlocks a thread has made in its current or last call. -/
def Tally : Pc → ℕ → Prop
  | .idle, _ => True
  | .returned _, n => n = 1
  | _, n => n = 0

structure Safe (e : CEvent ι) : Prop where
  valid : (outline loopAsserts loopAsserts_outside).Valid e.mon
  signalled : Signalled e.mon
  tally : ∀ i, Tally (e.mon.pc i) (e.released i)

theorem Safe.valid_step (hs : e.Safe) (hst : Step e a f) :
    (outline loopAsserts loopAsserts_outside).Valid f.mon := by
  refine hst.valid hs.valid fun i hi => ?_
  cases hst with
  | tick => cases hi
  | waitTest hp =>
    cases hi
    rw [Monitor.goto_pc_self]
    show loopAsserts (Pc.afterTest e.mon.data _ _) e.mon.data
    cases e.mon.data <;> rfl
  | waitRet hp =>
    cases hi
    rw [Monitor.goto_pc_self, Pc.afterRet]
    split_ifs with h₁ h₂
    · exact absurd h₂.symm h₁
    · trivial
    · trivial
  | _ =>
    cases hi
    simp [begin, unlock, loopAsserts]

/-- A thread that neither goes to sleep nor is about to wake the others may move. -/
theorem Signalled.update {m m' : Monitor ι Pc Bool} (hs : Signalled m) {i : ι} {p : Pc}
    (hd : m'.data = m.data) (hpc : m'.pc = Function.update m.pc i p)
    (hp : ∀ t, p ≠ .asleep t) (hi : m.pc i ≠ .setBroadcast) : Signalled m' := by
  intro hset j t hj
  rw [hd] at hset
  rw [hpc] at hj ⊢
  have hji : j ≠ i := by
    rintro rfl
    rw [Function.update_self] at hj
    exact hp t hj
  rw [Function.update_of_ne hji] at hj
  obtain ⟨k, hk⟩ := hs hset j t hj
  have hki : k ≠ i := by
    rintro rfl
    exact hi hk
  exact ⟨k, by rw [Function.update_of_ne hki]; exact hk⟩

theorem Safe.signalled_step (hs : e.Safe) (hst : Step e a f) : Signalled f.mon := by
  have hsig := hs.signalled
  cases hst with
  | callWait hp | callSet hp | callReset hp =>
    refine hsig.update rfl rfl nofun fun hi => ?_
    rw [hi] at hp
    cases hp
  | waitLock hp _ | reacquire hp _ | setLock hp _ | resetLock hp _ | waitRefused hp _
  | waitUnlock hp | timeoutUnlock hp | setUnlock hp | resetUnlock hp | spurious hp
  | expire hp _ =>
    refine hsig.update rfl rfl nofun fun hi => ?_
    rw [hp] at hi
    cases hi
  | waitTest hp =>
    refine hsig.update rfl rfl ?_ fun hi => ?_
    · unfold Pc.afterTest
      split_ifs <;> exact nofun
    · rw [hp] at hi
      cases hi
  | waitRet hp =>
    refine hsig.update rfl rfl ?_ fun hi => ?_
    · unfold Pc.afterRet
      split_ifs <;> exact nofun
    · rw [hp] at hi
      cases hi
  | waitCall hp _ =>
    -- the assertion before the sleep: the flag is clear
    rename_i i t _
    have hclear := hs.valid.asserted i
    rw [hp] at hclear
    intro hset
    exact absurd (hset.symm.trans hclear) nofun
  | setAssign hp => exact fun _ _ _ _ => ⟨_, Monitor.store_pc_self ..⟩
  | setBroadcast hp =>
    rename_i i
    intro _ j t hj
    by_cases hji : j = i
    · subst hji
      rw [Monitor.goto_pc_self] at hj
      cases hj
    · rw [Monitor.goto_pc_of_ne _ _ hji] at hj
      exact absurd hj (Pc.wake_ne_asleep _ t)
  | resetAssign hp => exact nofun
  | tick => exact hsig

/-- Both tables change at one thread. -/
theorem Safe.tally_update (hs : e.Safe) {i : ι} {p : Pc} {n : ℕ} (hp : Tally p n) :
    ∀ j, Tally (Function.update e.mon.pc i p j) (Function.update e.released i n j) := by
  intro j
  by_cases hj : j = i
  · subst hj
    rw [Function.update_self, Function.update_self]
    exact hp
  · rw [Function.update_of_ne hj, Function.update_of_ne hj]
    exact hs.tally j

/-- A thread moves within its call and unlocks nothing. -/
theorem Safe.tally_move (hs : e.Safe) {i : ι} {p : Pc} (hp : Tally p (e.released i)) :
    ∀ j, Tally (Function.update e.mon.pc i p j) (e.released j) :=
  (Function.forall_update_iff e.mon.pc fun j q => Tally q (e.released j)).mpr
    ⟨hp, fun j _ => hs.tally j⟩

omit [DecidableEq ι] in
theorem Safe.tally_of (hs : e.Safe) {i : ι} {p : Pc} (hp : e.mon.pc i = p) :
    Tally p (e.released i) := hp ▸ hs.tally i

theorem tally_wake {p : Pc} {n : ℕ} (hp : Tally p n) : Tally p.wake n := by
  cases p <;> exact hp

theorem Safe.tally_step (hs : e.Safe) (hst : Step e a f) :
    ∀ i, Tally (f.mon.pc i) (f.released i) := by
  cases hst with
  | callWait _ | callSet _ | callReset _ => exact hs.tally_update rfl
  | setUnlock _ | resetUnlock _ => exact hs.tally_update trivial
  | waitUnlock hp | timeoutUnlock hp =>
    have hi := hs.tally_of hp
    exact hs.tally_update (congrArg Nat.succ hi)
  | waitTest hp =>
    have hi := hs.tally_of hp
    refine hs.tally_move ?_
    unfold Pc.afterTest
    split_ifs <;> exact hi
  | waitRet hp =>
    have hi := hs.tally_of hp
    refine hs.tally_move ?_
    unfold Pc.afterRet
    split_ifs <;> exact hi
  | waitLock hp _ | reacquire hp _ | setLock hp _ | resetLock hp _ | waitCall hp _
  | waitRefused hp _ | setAssign hp | resetAssign hp | spurious hp | expire hp _ =>
    have hi := hs.tally_of hp
    exact hs.tally_move hi
  | setBroadcast hp =>
    have hi := hs.tally_of hp
    exact (Function.forall_update_iff (fun j => (e.mon.pc j).wake)
      fun j q => Tally q (e.released j)).mpr ⟨hi, fun j _ => tally_wake (hs.tally j)⟩
  | tick => exact hs.tally

omit [DecidableEq ι] in
theorem Initial.safe (hi : e.Initial) : e.Safe where
  valid := by
    refine ⟨fun i => ?_, fun i => ?_⟩
    · rw [hi.mutex, hi.pc]
      exact iff_of_false nofun id
    · rw [hi.pc]
      trivial
  signalled := by
    intro _ i t hp
    rw [hi.pc] at hp
    cases hp
  tally := by
    intro i
    rw [hi.pc]
    trivial

theorem Safe.step (hs : e.Safe) (hst : Step e a f) : f.Safe :=
  ⟨hs.valid_step hst, hs.signalled_step hst, hs.tally_step hst⟩

theorem safe_of_reachable (hr : Reachable (cevent ι) e) : e.Safe :=
  hr.invariant (fun _ => Initial.safe) fun _ _ _ hs hk => hs.step (step_cases hk)

/-- Only the unlock after the loop returns `EVENT_OK`. -/
theorem Step.ok_from_unlock {i : ι} (hst : Step e (.next i) f)
    (hf : f.mon.pc i = .returned .eventOk) : ∃ ret, e.mon.pc i = .waitUnlock ret := by
  cases hst with
  | waitUnlock hp => exact ⟨_, hp⟩
  | timeoutUnlock hp | setUnlock hp | resetUnlock hp =>
    rw [unlock, Monitor.unlock_pc_self] at hf
    cases hf
  | waitLock hp _ | reacquire hp _ | setLock hp _ | resetLock hp _ =>
    rw [Monitor.lock_pc_self] at hf
    cases hf
  | waitTest hp =>
    rw [Monitor.goto_pc_self, Pc.afterTest] at hf
    split_ifs at hf
  | waitRet hp =>
    rw [Monitor.goto_pc_self, Pc.afterRet] at hf
    split_ifs at hf
  | waitCall hp _ =>
    rw [Monitor.unlock_pc_self] at hf
    cases hf
  | setAssign hp | resetAssign hp =>
    rw [Monitor.store_pc_self] at hf
    cases hf
  | waitRefused hp _ | setBroadcast hp =>
    rw [Monitor.goto_pc_self] at hf
    cases hf

end CEvent

open CEvent

/-- In every reachable state: a thread that sleeps on a set flag is about to be woken
by a `Set` that holds the mutex between its assignment and its broadcast; from the
moment a call of `Wait` has left its loop to its unlock it holds the mutex and the
flag is set, and only from there is `EVENT_OK` returned; a call that has returned has
unlocked the mutex once and does not hold it. -/
theorem monitor_safe (hr : Reachable (cevent ι) e) :
    (e.bNotify = true → ∀ i t, e.mon.pc i = .asleep t →
      ∃ j, e.mon.mutex = some j ∧ e.mon.pc j = .setBroadcast) ∧
    (∀ i ret, e.mon.pc i = .waitUnlock ret → e.mon.mutex = some i ∧ e.bNotify = true) ∧
    (∀ i f, e.step (.next i) = some f → f.mon.pc i = .returned .eventOk →
      ∃ ret, e.mon.pc i = .waitUnlock ret) ∧
    ∀ i event, e.mon.pc i = .returned event → e.released i = 1 ∧ e.mon.mutex ≠ some i := by
  have hs := safe_of_reachable hr
  have howner : ∀ i, e.mon.mutex = some i ↔ (e.mon.pc i).Holds := hs.valid.owner
  refine ⟨fun hset i t hi => ?_, fun i ret hi => ⟨?_, ?_⟩,
    fun i f hf hok => (step_cases hf).ok_from_unlock hok, fun i event hi => ⟨?_, ?_⟩⟩
  · obtain ⟨j, hj⟩ := hs.signalled hset i t hi
    refine ⟨j, (howner j).mpr ?_, hj⟩
    rw [hj]
    trivial
  · rw [howner, hi]
    trivial
  · have ha := hs.valid.asserted i
    rwa [hi] at ha
  · have ht := hs.tally i
    rwa [hi] at ht
  · rw [Ne, howner, hi]
    exact id

/-- One thread waits, another sets the event, and the first returns `EVENT_OK`. -/
theorem monitor_safe_one_waiter : ∃ e : CEvent Bool, Reachable (cevent Bool) e ∧
    e.mon.pc false = .returned .eventOk ∧ e.released false = 1 ∧ e.mon.mutex ≠ some false := by
  obtain ⟨e, hr, he⟩ := exists_reachable_of_exec (S := cevent Bool) (initial_construct 5000000)
    [.callWait false 1500, .next false, .next false, .next false, .callSet true, .next true,
      .next true, .next true, .next true, .next false, .next false, .next false, .next false]
    (P := fun e => e.mon.pc false = .returned .eventOk) (by decide +kernel)
  exact ⟨e, hr, he, (monitor_safe hr).2.2.2 false _ he⟩

/-- Within `Set`, before the broadcast, the flag is set and a thread sleeps. -/
theorem asleep_before_broadcast : ¬ ∀ e : CEvent Bool, Reachable (cevent Bool) e →
    e.bNotify = true → ∀ i t, e.mon.pc i ≠ .asleep t := by
  intro hall
  obtain ⟨e, hr, hset, he⟩ := exists_reachable_of_exec (S := cevent Bool)
    (initial_construct 5000000)
    [.callWait false 1500, .next false, .next false, .next false, .callSet true, .next true,
      .next true]
    (P := fun e => e.bNotify = true ∧ e.mon.pc false = .asleep ⟨6, 500000000⟩) (by decide +kernel)
  exact hall e hr hset false _ he

end BaseCom.Event
