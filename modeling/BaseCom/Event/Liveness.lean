import BaseCom.Event.Safety
import BaseCom.Transition.Progress

/-! Who gets through. After a broadcast nobody sleeps until a `Reset` clears the flag, and a
thread the broadcast found asleep returns `EVENT_OK` after four statements of its own,
however many others it has to take turns with. And no call is ever stuck: time and the
threads that are in a call already are enough to end it. -/

namespace BaseCom.Event

open Sync Transition

variable {ι : Type*} [DecidableEq ι] {e f : CEvent ι} {a : Act ι} {i : ι}

namespace CEvent

/-- A thread that does not move stays where it is, or is woken. -/
theorem Step.pc_other (hst : Step e a f) (ha : a.mover ≠ some i) :
    f.mon.pc i = e.mon.pc i ∨ f.mon.pc i = (e.mon.pc i).wake := by
  cases hst with
  | tick => exact .inl rfl
  | setBroadcast hp =>
    rename_i j
    have hij : i ≠ j := fun he => ha (congrArg some he.symm)
    exact .inr (Monitor.goto_pc_of_ne _ _ hij)
  | _ =>
    refine .inl (Function.update_of_ne ?_ _ _)
    rintro rfl
    exact ha rfl

/-! ### After the broadcast -/

/-- Between its assignment and its broadcast `Set` has the flag set. -/
def setAsserts : Pc → Bool → Prop
  | .setBroadcast, d => d = true
  | _, _ => True

theorem setAsserts_outside (p : Pc) (d : Bool) (hp : ¬ p.Holds) : setAsserts p d := by
  cases p with
  | setBroadcast => exact absurd trivial hp
  | _ => trivial

def Assigned (e : CEvent ι) : Prop := (outline setAsserts setAsserts_outside).Valid e.mon

omit [DecidableEq ι] in
theorem Initial.assigned (hi : e.Initial) : e.Assigned := by
  refine ⟨fun i => ?_, fun i => ?_⟩
  · rw [hi.mutex, hi.pc]
    exact iff_of_false nofun id
  · rw [hi.pc]
    trivial

theorem Assigned.step (hs : e.Assigned) (hst : Step e a f) : f.Assigned := by
  refine hst.valid hs fun i hi => ?_
  cases hst with
  | tick => cases hi
  | waitTest hp =>
    cases hi
    rw [Monitor.goto_pc_self, Pc.afterTest]
    split_ifs <;> trivial
  | waitRet hp =>
    cases hi
    rw [Monitor.goto_pc_self, Pc.afterRet]
    split_ifs <;> trivial
  | setAssign hp =>
    cases hi
    rw [Monitor.store_pc_self]
    rfl
  | _ =>
    cases hi
    simp [begin, unlock, setAsserts]

/-- No `Reset` clears the flag. -/
def NoReset (e : CEvent ι) : Act ι → Prop
  | .next i => e.mon.pc i ≠ .resetAssign
  | _ => True

instance (e : CEvent ι) (a : Act ι) : Decidable (e.NoReset a) :=
  match a with
  | .next _ => inferInstanceAs (Decidable (_ ≠ _))
  | .callWait _ _ | .callSet _ | .callReset _ | .spurious _ | .expire _ | .tick _ => isTrue trivial

/-- The flag is set and no thread sleeps. -/
structure Released (e : CEvent ι) : Prop where
  safe : e.Safe
  set : e.bNotify = true
  awake : ∀ i t, e.mon.pc i ≠ .asleep t

/-- A thread goes to sleep at the timed wait only. -/
theorem Step.asleep_back {t : Timespec} (hst : Step e a f) (hf : f.mon.pc i = .asleep t) :
    e.mon.pc i = .asleep t ∨ e.mon.pc i = .waitCall t := by
  by_cases ha : a.mover = some i
  · cases hst with
    | waitCall hp ht =>
      cases ha
      rw [Monitor.unlock_pc_self] at hf
      cases hf
      exact .inr hp
    | tick => cases ha
    | callWait _ | callSet _ | callReset _ =>
      cases ha
      rw [begin, Monitor.goto_pc_self] at hf
      cases hf
    | waitLock _ _ | reacquire _ _ | setLock _ _ | resetLock _ _ =>
      cases ha
      rw [Monitor.lock_pc_self] at hf
      cases hf
    | waitTest _ =>
      cases ha
      rw [Monitor.goto_pc_self, Pc.afterTest] at hf
      split_ifs at hf
    | waitRet _ =>
      cases ha
      rw [Monitor.goto_pc_self, Pc.afterRet] at hf
      split_ifs at hf
    | waitUnlock _ | timeoutUnlock _ | setUnlock _ | resetUnlock _ =>
      cases ha
      rw [unlock, Monitor.unlock_pc_self] at hf
      cases hf
    | setAssign _ | resetAssign _ =>
      cases ha
      rw [Monitor.store_pc_self] at hf
      cases hf
    | waitRefused _ _ | setBroadcast _ | spurious _ | expire _ _ =>
      cases ha
      rw [Monitor.goto_pc_self] at hf
      cases hf
  · rcases hst.pc_other ha with he | he
    · exact .inl (he.symm.trans hf)
    · exact absurd (he.symm.trans hf) (Pc.wake_ne_asleep _ t)

theorem released_of_broadcast (hs : e.Safe) (ha : e.Assigned) (hp : e.mon.pc i = .setBroadcast)
    (hst : Step e (.next i) f) : f.Released := by
  have hset := ha.asserted i
  rw [hp] at hset
  have hf := hs.step hst
  cases hst with
  | setBroadcast _ =>
    refine ⟨hf, hset, fun j t hj => ?_⟩
    rcases eq_or_ne j i with rfl | hne
    · rw [Monitor.goto_pc_self] at hj
      cases hj
    · rw [Monitor.goto_pc_of_ne _ _ hne] at hj
      exact Pc.wake_ne_asleep _ t hj
  | waitLock hq _ | waitTest hq | waitCall hq _ | waitRefused hq _ | reacquire hq _ | waitRet hq
  | waitUnlock hq | timeoutUnlock hq | setLock hq _ | setAssign hq | setUnlock hq | resetLock hq _
  | resetAssign hq | resetUnlock hq =>
    rw [hp] at hq
    cases hq

theorem Released.step (hr : e.Released) (hg : e.NoReset a) (hst : Step e a f) : f.Released := by
  refine ⟨hr.safe.step hst, ?_, fun j t hj => ?_⟩
  · cases hst with
    | resetAssign hp => exact absurd hp hg
    | setAssign _ => rfl
    | _ => exact hr.set
  · rcases hst.asleep_back hj with hp | hp
    · exact hr.awake j t hp
    · -- the flag is clear where a thread calls the timed wait
      have hclear := hr.safe.valid.asserted j
      rw [hp] at hclear
      exact absurd (hr.set.symm.trans hclear) nofun

end CEvent

/-! ### A released thread -/

namespace Pc

/-- On the way of a woken thread to its return with `EVENT_OK`. -/
def Leaves : Pc → Prop
  | .woken _ ret | .waitRet _ ret | .waitTest _ ret | .waitUnlock ret => ret = 0
  | _ => False

/-- The statements a woken thread still executes before its last. -/
def toUnlock : Pc → ℕ
  | .woken _ _ => 3
  | .waitRet _ _ => 2
  | .waitTest _ _ => 1
  | _ => 0

theorem wake_of_ne_asleep {p : Pc} (hp : ∀ t, p ≠ .asleep t) : p.wake = p := by
  cases p with
  | asleep t => exact absurd rfl (hp t)
  | _ => rfl

theorem Leaves.awake {p : Pc} (hp : p.Leaves) (t : Timespec) : p ≠ .asleep t := by
  rintro rfl
  cases hp

end Pc

/-- The thread executes a statement. -/
def Act.isNext (i : ι) : Act ι → Bool
  | .next j => j = i
  | _ => false

theorem Act.mover_of_isNext (h : a.isNext i = true) : a.mover = some i := by
  cases a with
  | next j => exact congrArg some (of_decide_eq_true h)
  | _ => cases h

namespace CEvent

/-- The thread is on its way to `EVENT_OK`, with the flag set. -/
structure Leaving (i : ι) (e : CEvent ι) : Prop where
  released : e.Released
  leaves : (e.mon.pc i).Leaves

/-- The thread returns `EVENT_OK`. -/
def ReturnsOk (i : ι) (e : CEvent ι) (a : Act ι) : Prop :=
  a = .next i ∧ ∃ f, (cevent ι).step e a = some f ∧ f.mon.pc i = .returned .eventOk

/-- A thread that is woken moves on by its own statements alone. -/
theorem Leaving.moves (hl : e.Leaving i) (ha : a.mover = some i) (hst : Step e a f) :
    (∃ ret, e.mon.pc i = .waitUnlock ret) ∧ a = .next i ∨
      (f.mon.pc i).Leaves ∧ (f.mon.pc i).toUnlock + 1 = (e.mon.pc i).toUnlock := by
  have hway := hl.leaves
  cases hst with
  | reacquire hp hm =>
    cases ha
    rw [hp] at hway
    rw [Monitor.lock_pc_self, hp]
    exact .inr ⟨hway, rfl⟩
  | waitRet hp =>
    rename_i j t ret
    cases ha
    rw [hp] at hway
    obtain rfl : ret = 0 := hway
    rw [Monitor.goto_pc_self, hp]
    exact .inr ⟨rfl, rfl⟩
  | waitTest hp =>
    cases ha
    rw [hp] at hway
    rw [Monitor.goto_pc_self, hp, Pc.afterTest, if_pos hl.released.set]
    exact .inr ⟨hway, rfl⟩
  | waitUnlock hp =>
    cases ha
    exact .inl ⟨⟨_, hp⟩, rfl⟩
  | tick => cases ha
  | callWait hp | callSet hp | callReset hp =>
    cases ha
    cases hq : e.mon.pc i with
    | idle | returned _ =>
      rw [hq] at hway
      cases hway
    | _ =>
      rw [hq] at hp
      cases hp
  | waitLock hp _ | waitCall hp _ | waitRefused hp _ | timeoutUnlock hp | setLock hp _
  | setAssign hp | setBroadcast hp | setUnlock hp | resetLock hp _ | resetAssign hp
  | resetUnlock hp | spurious hp | expire hp _ =>
    cases ha
    rw [hp] at hway
    cases hway

theorem Leaving.step (hl : e.Leaving i) (hg : e.NoReset a) (hk : (cevent ι).step e a = some f) :
    e.ReturnsOk i a ∨ f.Leaving i ∧
      (f.mon.pc i).toUnlock + (if a.isNext i then 1 else 0) ≤ (e.mon.pc i).toUnlock := by
  have hst := step_cases hk
  have hreleased := hl.released.step hg hst
  by_cases ha : a.mover = some i
  · rcases hl.moves ha hst with ⟨⟨ret, hp⟩, rfl⟩ | ⟨hf, hlt⟩
    · have hret := hl.leaves
      rw [hp] at hret
      obtain rfl : ret = 0 := hret
      refine .inl ⟨rfl, f, hk, ?_⟩
      have hnext : e.next i = some (e.unlock i (.returned .eventOk)) := by
        rw [next, hp]
        rfl
      rw [show (cevent ι).step e (.next i) = e.next i from rfl, hnext] at hk
      cases hk
      exact Monitor.unlock_pc_self ..
    · refine .inr ⟨⟨hreleased, hf⟩, ?_⟩
      split_ifs <;> omega
  · have hsame : f.mon.pc i = e.mon.pc i := by
      rcases hst.pc_other ha with he | he
      · exact he
      · rw [he, Pc.wake_of_ne_asleep hl.leaves.awake]
    have hidle : ¬ a.isNext i = true := fun hn => ha (Act.mover_of_isNext hn)
    refine .inr ⟨⟨hreleased, hsame ▸ hl.leaves⟩, ?_⟩
    rw [hsame, if_neg hidle]
    exact Nat.le_refl _

end CEvent

open CEvent

/-- From a broadcast on, as long as no `Reset` clears the flag, nobody sleeps, and a thread
the broadcast found asleep returns `EVENT_OK` by its fourth statement. -/
theorem set_releases (hr : Reachable (cevent ι) e) {j : ι} (hp : e.mon.pc j = .setBroadcast)
    {g : CEvent ι} (hk : (cevent ι).step e (.next j) = some f) {tr : List (CEvent ι × Act ι)}
    (hrun : Run (cevent ι) f tr g) (hno : Always NoReset tr) :
    (Always (fun u _ => ∀ i t, u.mon.pc i ≠ .asleep t) tr ∧ ∀ i t, g.mon.pc i ≠ .asleep t) ∧
      ∀ i t, e.mon.pc i = .asleep t → 3 < stepsOf (Act.isNext i) tr →
        ∃ p ∈ tr, ReturnsOk i p.1 p.2 := by
  have hassigned : e.Assigned := hr.invariant (fun _ => Initial.assigned)
    fun _ _ _ ha hk => ha.step (step_cases hk)
  have hst : Step e (.next j) f := step_cases hk
  have hreleased := released_of_broadcast (safe_of_reachable hr) hassigned hp hst
  have hstays : ∀ u b v, Released u → u.NoReset b → (cevent ι).step u b = some v → v.Released :=
    fun _ _ _ hu hn hk => hu.step hn (step_cases hk)
  refine ⟨?_, fun i t hi hlong => ?_⟩
  · obtain ⟨halong, hg⟩ := hrun.along_of_always hstays hreleased hno
    exact ⟨fun p hp => (halong p hp).awake, hg.awake⟩
  · have hij : (Act.next j).mover ≠ some i := by
      intro he
      cases he
      rw [hp] at hi
      cases hi
    have hwoken : f.mon.pc i = .woken t 0 := by
      rcases hst.pc_other hij with he | he
      · exact absurd (he.trans hi) (hreleased.awake i t)
      · rw [he, hi]
        rfl
    have hmoves : ∀ u b v, Leaving i u → u.NoReset b → (cevent ι).step u b = some v →
        u.ReturnsOk i b ∨ v.Leaving i ∧
          (v.mon.pc i).toUnlock + (if b.isNext i then 1 else 0) ≤ (u.mon.pc i).toUnlock :=
      fun _ _ _ hu hn hk => hu.step hn hk
    have hleaving : f.Leaving i := ⟨hreleased, by rw [hwoken]; rfl⟩
    refine hrun.progress (fun u => (u.mon.pc i).toUnlock) hmoves hleaving hno ?_
    rw [hwoken]
    exact hlong

/-- A thread sleeps; another is about to wake it. -/
def untilBroadcast : List (Act Bool) := [
  .callWait false 1500, .next false, .next false, .next false, .callSet true, .next true,
  .next true]

/-- The other leaves, and the thread goes on. -/
def afterBroadcast : List (Act Bool) := [
  .next true, .next false, .next false, .next false, .next false]

theorem set_releases_one_waiter :
    ∃ (e : CEvent Bool) (tr : List (CEvent Bool × Act Bool)), Reachable (cevent Bool) e ∧
      e.mon.pc false = .asleep ⟨6, 500000000⟩ ∧ ∃ p ∈ tr, ReturnsOk false p.1 p.2 := by
  obtain ⟨e, hr, hp, hi, hf⟩ := exists_reachable_of_exec (S := cevent Bool)
    (initial_construct 5000000) untilBroadcast
    (P := fun e => e.mon.pc true = .setBroadcast ∧ e.mon.pc false = .asleep ⟨6, 500000000⟩ ∧
      ((cevent Bool).step e (.next true)).any (fun f =>
        (exec (cevent Bool) f afterBroadcast).isSome ∧
          (∀ p ∈ trace (cevent Bool) f afterBroadcast, p.1.NoReset p.2) ∧
          3 < stepsOf (Act.isNext false) (trace (cevent Bool) f afterBroadcast)) = true)
    (by decide +kernel)
  obtain ⟨f, hk, hrest⟩ := (Option.any_eq_true _ _).mp hf
  obtain ⟨hsome, hno, hlong⟩ := of_decide_eq_true hrest
  obtain ⟨g, hg⟩ := Option.isSome_iff_exists.mp hsome
  exact ⟨e, _, hr, hi, (set_releases hr hp hk (run_of_exec hg) hno).2 false _ hi hlong⟩

/-! ### No call is stuck -/

/-- A deadline comes. -/
theorem Timespec.reached_later (t : Timespec) (clock : ℕ) : ∃ n, t.Reached (clock + n) := by
  refine ⟨(t.tvSec * 1000000000 + t.tvNsec).toNat, ?_⟩
  unfold Timespec.Reached
  push_cast
  omega

namespace Pc

/-- The statements a thread still executes in its call if its wait ends in time. -/
def left : Pc → ℕ
  | .idle | .returned _ => 0
  | .waitUnlock _ | .timeoutUnlock | .setUnlock | .resetUnlock => 1
  | .setBroadcast | .resetAssign => 2
  | .setAssign | .resetLock => 3
  | .setLock => 4
  | .asleep _ => 5
  | .waitCall _ => 6
  | .waitTest _ _ => 7
  | .waitLock _ => 8
  | .waitRet _ ret => if ret = 0 then 9 else 2
  | .woken _ rc => if rc = 0 then 10 else 3

theorem left_le (p : Pc) : p.left ≤ 10 := by
  cases p with
  | waitRet _ _ | woken _ _ =>
    simp only [left]
    split_ifs <;> omega
  | _ => simp [left]

theorem left_afterTest (b : Bool) (t : Timespec) (ret : ℤ) : (afterTest b t ret).left ≤ 6 := by
  cases b <;> simp [afterTest, left]

theorem left_afterRet (t : Timespec) (ret : ℤ) :
    (afterRet t ret).left < (Pc.waitRet t ret).left := by
  unfold afterRet
  split_ifs with h₁ h₂
  · exact absurd h₂.symm h₁
  · simp [left, h₁]
  · simp [left, not_not.mp h₁]

end Pc

namespace CEvent

/-- The statements up to the end of the call that has the mutex. -/
def owed (e : CEvent ι) : ℕ := e.mon.mutex.elim 0 fun j => (e.mon.pc j).left

omit [DecidableEq ι] in
theorem owed_le (e : CEvent ι) : e.owed ≤ 10 := by
  unfold owed
  cases e.mon.mutex with
  | none => exact Nat.zero_le _
  | some j => exact Pc.left_le _

/-- A sleep whose deadline is still to come. -/
def unripe (e : CEvent ι) (i : ι) : ℕ :=
  match e.mon.pc i with
  | .asleep t => if t.Reached e.clock then 0 else 1
  | _ => 0

omit [DecidableEq ι] in
theorem unripe_le (e : CEvent ι) (i : ι) : e.unripe i ≤ 1 := by
  unfold unripe
  split
  · split_ifs <;> omega
  · omega

omit [DecidableEq ι] in
theorem unripe_of_awake (hp : ∀ t, e.mon.pc i ≠ .asleep t) : e.unripe i = 0 := by
  unfold unripe
  split
  · rename_i t ht
    exact absurd ht (hp t)
  · rfl

/-- How far a thread is from the end of its call. -/
def remaining (i : ι) (e : CEvent ι) : ℕ := 16 * (e.mon.pc i).left + e.owed + e.unripe i

/-- Steps of calls that are under way, and time. -/
def ByItself (_ : CEvent ι) : Act ι → Prop
  | .next _ | .expire _ | .tick _ => True
  | .callWait _ _ | .callSet _ | .callReset _ | .spurious _ => False

omit [DecidableEq ι] in
theorem owed_le_left (hm : e.mon.mutex = some i ∨ e.mon.mutex = none) :
    e.owed ≤ (e.mon.pc i).left := by
  unfold owed
  rcases hm with hm | hm <;> rw [hm]
  · exact Nat.le_refl _
  · exact Nat.zero_le _

/-- The thread with the mutex can go on, and comes closer to the end of its call. -/
theorem Safe.owner_moves (hs : e.Safe) (hm : e.mon.mutex = some i) :
    ∃ f, (cevent ι).step e (.next i) = some f ∧ (f.mon.pc i).left < (e.mon.pc i).left ∧
      (f.mon.mutex = some i ∨ f.mon.mutex = none) := by
  have hholds : (e.mon.pc i).Holds := (hs.valid.owner i).mp hm
  have hnext : ∀ f, e.next i = some f → (f.mon.pc i).left < (e.mon.pc i).left →
      (f.mon.mutex = some i ∨ f.mon.mutex = none) → ∃ f, (cevent ι).step e (.next i) = some f ∧
        (f.mon.pc i).left < (e.mon.pc i).left ∧ (f.mon.mutex = some i ∨ f.mon.mutex = none) :=
    fun f hf hl hmutex => ⟨f, hf, hl, hmutex⟩
  cases hp : e.mon.pc i with
  | idle | waitLock _ | asleep _ | woken _ _ | returned _ | setLock | resetLock =>
    rw [hp] at hholds
    cases hholds
  | waitTest t ret =>
    have hk : e.next i = some { e with mon := e.mon.goto i (.afterTest e.bNotify t ret) } := by
      simp only [next, hp]
    rw [hp] at hnext
    refine hnext _ hk ?_ (.inl hm)
    have hle := Pc.left_afterTest e.bNotify t ret
    rw [Monitor.goto_pc_self]
    exact Nat.lt_succ_of_le hle
  | waitCall t =>
    rw [hp] at hnext
    by_cases ht : t.Valid
    · have hk : e.next i = some { e with mon := e.mon.unlock i (.asleep t) } := by
        simp only [next, hp, if_pos ht]
      refine hnext _ hk ?_ (.inr rfl)
      simp [Pc.left]
    · have hk : e.next i = some { e with mon := e.mon.goto i (.waitRet t einval) } := by
        simp only [next, hp, if_neg ht]
      refine hnext _ hk ?_ (.inl hm)
      simp [Pc.left, einval]
  | waitRet t ret =>
    have hk : e.next i = some { e with mon := e.mon.goto i (.afterRet t ret) } := by
      simp only [next, hp]
    rw [hp] at hnext
    refine hnext _ hk ?_ (.inl hm)
    rw [Monitor.goto_pc_self]
    exact Pc.left_afterRet t ret
  | waitUnlock ret =>
    have hk : e.next i = some (e.unlock i (.returned (Pc.result ret))) := by
      simp only [next, hp]
    rw [hp] at hnext
    refine hnext _ hk ?_ (.inr rfl)
    simp [unlock, Pc.left]
  | timeoutUnlock =>
    have hk : e.next i = some (e.unlock i (.returned .eventTimeout)) := by
      simp only [next, hp]
    rw [hp] at hnext
    refine hnext _ hk ?_ (.inr rfl)
    simp [unlock, Pc.left]
  | setAssign =>
    have hk : e.next i = some { e with mon := e.mon.store i .setBroadcast true } := by
      simp only [next, hp]
    rw [hp] at hnext
    refine hnext _ hk ?_ (.inl hm)
    simp [Pc.left]
  | setBroadcast =>
    have hk : e.next i = some { e with mon := (e.mon.redirect Pc.wake).goto i .setUnlock } := by
      simp only [next, hp]
    rw [hp] at hnext
    refine hnext _ hk ?_ (.inl hm)
    simp [Pc.left]
  | resetAssign =>
    have hk : e.next i = some { e with mon := e.mon.store i .resetUnlock false } := by
      simp only [next, hp]
    rw [hp] at hnext
    refine hnext _ hk ?_ (.inl hm)
    simp [Pc.left]
  | setUnlock | resetUnlock =>
    have hk : e.next i = some (e.unlock i .idle) := by
      simp only [next, hp]
    rw [hp] at hnext
    refine hnext _ hk ?_ (.inr rfl)
    simp [unlock, Pc.left]

/-- A thread that waits for the mutex gets it when it is free. -/
theorem locks_when_free (hm : e.mon.mutex = none) (hout : ¬ (e.mon.pc i).Holds)
    (hbusy : ¬ (e.mon.pc i).resting = true) (hawake : ∀ t, e.mon.pc i ≠ .asleep t) :
    ∃ f, (cevent ι).step e (.next i) = some f ∧ (f.mon.pc i).left < (e.mon.pc i).left := by
  have hlock : ∀ p, e.next i = e.acquire i p → p.left < (e.mon.pc i).left →
      ∃ f, (cevent ι).step e (.next i) = some f ∧ (f.mon.pc i).left < (e.mon.pc i).left := by
    intro p hk hl
    refine ⟨{ e with mon := e.mon.lock i p }, hk.trans (if_pos hm), ?_⟩
    rwa [Monitor.lock_pc_self]
  cases hp : e.mon.pc i with
  | waitLock t =>
    rw [hp] at hlock
    refine hlock (.waitTest t (-1)) (by simp only [next, hp]) ?_
    simp [Pc.left]
  | woken t rc =>
    rw [hp] at hlock
    refine hlock (.waitRet t rc) (by simp only [next, hp]) ?_
    simp only [Pc.left]
    split_ifs <;> omega
  | setLock =>
    rw [hp] at hlock
    refine hlock .setAssign (by simp only [next, hp]) ?_
    simp [Pc.left]
  | resetLock =>
    rw [hp] at hlock
    refine hlock .resetAssign (by simp only [next, hp]) ?_
    simp [Pc.left]
  | idle | returned _ => exact absurd (by rw [hp]; rfl) hbusy
  | asleep t => exact absurd hp (hawake t)
  | waitTest _ _ | waitCall _ | waitRet _ _ | waitUnlock _ | timeoutUnlock | setAssign
  | setBroadcast | setUnlock | resetAssign | resetUnlock =>
    rw [hp] at hout
    exact absurd trivial hout

/-- Time passes until the deadline of a sleep, and ends it. -/
theorem sleep_ends {t : Timespec} (hp : e.mon.pc i = .asleep t) :
    ∃ a f, (cevent ι).step e a = some f ∧ e.ByItself a ∧ f.remaining i < e.remaining i := by
  by_cases ht : t.Reached e.clock
  · have hk : e.step (.expire i) = some { e with mon := e.mon.goto i (.woken t etimedout) } := by
      simp only [step, hp, if_pos ht]
    refine ⟨.expire i, _, hk, trivial, ?_⟩
    have howed := owed_le { e with mon := e.mon.goto i (.woken t etimedout) }
    have hunripe := unripe_le { e with mon := e.mon.goto i (.woken t etimedout) } i
    have hafter : (Pc.woken t etimedout).left = 3 := rfl
    have hbefore : (Pc.asleep t).left = 5 := rfl
    unfold remaining
    rw [Monitor.goto_pc_self, hp, hafter, hbefore]
    omega
  · obtain ⟨n, hn⟩ := Timespec.reached_later t e.clock
    refine ⟨.tick n, { e with clock := e.clock + n }, rfl, trivial, ?_⟩
    simp only [remaining, owed, unripe, hp, if_pos hn, if_neg ht]
    omega

theorem Safe.nearer (hs : e.Safe) (hbusy : ¬ (e.mon.pc i).resting = true) :
    ∃ a f, (cevent ι).step e a = some f ∧ e.ByItself a ∧ f.Safe ∧
      f.remaining i < e.remaining i := by
  have hsafe : ∀ {a f}, (cevent ι).step e a = some f → f.Safe := fun hk => hs.step (step_cases hk)
  by_cases hin : (e.mon.pc i).Holds
  · -- the thread is in its critical section
    obtain ⟨f, hk, hlt, -⟩ := hs.owner_moves ((hs.valid.owner i).mpr hin)
    refine ⟨_, f, hk, trivial, hsafe hk, ?_⟩
    have howed := f.owed_le
    have hunripe := f.unripe_le i
    unfold remaining
    omega
  · by_cases hasleep : ∃ t, e.mon.pc i = .asleep t
    · obtain ⟨t, hp⟩ := hasleep
      obtain ⟨a, f, hk, ha, hlt⟩ := sleep_ends hp
      exact ⟨a, f, hk, ha, hsafe hk, hlt⟩
    · have hawake : ∀ t, e.mon.pc i ≠ .asleep t := fun t hp => hasleep ⟨t, hp⟩
      cases hm : e.mon.mutex with
      | none =>
        obtain ⟨f, hk, hlt⟩ := locks_when_free hm hin hbusy hawake
        refine ⟨_, f, hk, trivial, hsafe hk, ?_⟩
        have howed := f.owed_le
        have hunripe := f.unripe_le i
        unfold remaining
        omega
      | some j =>
        -- another thread has the mutex
        obtain ⟨f, hk, hlt, hmutex⟩ := hs.owner_moves hm
        have hij : (Act.next j).mover ≠ some i := by
          intro he
          cases he
          exact hin ((hs.valid.owner i).mp hm)
        have hsame : f.mon.pc i = e.mon.pc i := by
          have hst : Step e (.next j) f := step_cases hk
          rcases hst.pc_other hij with he | he
          · exact he
          · rw [he, Pc.wake_of_ne_asleep hawake]
        refine ⟨_, f, hk, trivial, hsafe hk, ?_⟩
        have howed : f.owed < e.owed := by
          have hle := owed_le_left hmutex
          have heq : e.owed = (e.mon.pc j).left := by
            unfold owed
            rw [hm]
            rfl
          omega
        have hunripe : f.unripe i = 0 := unripe_of_awake (hsame ▸ hawake)
        unfold remaining
        rw [hsame, hunripe]
        omega

end CEvent

/-- From every reachable state each call can be brought to its end by the calls under way
and by the clock: no deadlock, and no wait that only a `Set` could end. -/
theorem calls_can_return (hr : Reachable (cevent ι) e) (i : ι) :
    ∃ f tr, Run (cevent ι) e tr f ∧ Always ByItself tr ∧ (f.mon.pc i).resting = true := by
  have hnearer : ∀ u : CEvent ι, u.Safe → ¬ (u.mon.pc i).resting = true →
      ∃ a v, (cevent ι).step u a = some v ∧ u.ByItself a ∧ v.Safe ∧
        v.remaining i < u.remaining i := fun _ hu hbusy => hu.nearer hbusy
  obtain ⟨f, tr, hrun, hby, -, hrest⟩ :=
    exists_run_of_measure (S := cevent ι) (remaining i) hnearer (safe_of_reachable hr)
  exact ⟨f, tr, hrun, hby, hrest⟩

/-- A thread sleeps, and no other uses the event. -/
theorem calls_can_return_one_waiter : ∃ e f : CEvent Bool, Reachable (cevent Bool) e ∧
    e.mon.pc false = .asleep ⟨6, 500000000⟩ ∧ Reachable (cevent Bool) f ∧
    (f.mon.pc false).resting = true := by
  obtain ⟨e, hr, hp⟩ := exists_reachable_of_exec (S := cevent Bool) (initial_construct 5000000)
    [.callWait false 1500, .next false, .next false, .next false]
    (P := fun e => e.mon.pc false = .asleep ⟨6, 500000000⟩) (by decide +kernel)
  obtain ⟨f, tr, hrun, -, hrest⟩ := calls_can_return hr false
  exact ⟨e, f, hr, hp, hr.trans hrun, hrest⟩

end BaseCom.Event
