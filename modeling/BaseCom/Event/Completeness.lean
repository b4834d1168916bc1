import BaseCom.Event.Safety

/-! Whether `EVENT_TIMEOUT` is told from `EVENT_OK` by the flag. The result comes from
a local code that starts as -1 and is overwritten by the timed wait, so a call that
finds the event set on entry, or whose deadline passes while a `Set` goes through, is
bound to report a timeout with the flag set. These are the only ways. -/

namespace BaseCom.Event

open Sync Transition

variable {ι : Type*} [DecidableEq ι] {e f : CEvent ι} {a : Act ι}

namespace Pc

/-- The result of a call of `Wait` that is about to release the mutex for the last time. -/
def lastRelease : Pc → Option Events
  | .waitUnlock ret => some (result ret)
  | .timeoutUnlock => some .eventTimeout
  | _ => none

/-- The call is about to have the mutex with a nonzero code in `ret`. -/
def comesFailing : Pc → Bool
  | .waitLock _ => true
  | .woken _ rc => rc ≠ 0
  | _ => false

/-- A call that reports a timeout unless it sleeps once more. -/
def Doomed : Pc → Prop
  | .waitTest _ ret | .waitRet _ ret | .waitUnlock ret => ret ≠ 0
  | .timeoutUnlock => True
  | _ => False

theorem Doomed.holds {p : Pc} (hp : p.Doomed) : p.Holds := by
  cases p with
  | waitTest _ _ | waitRet _ _ | waitUnlock _ | timeoutUnlock => trivial
  | _ => cases hp

theorem Doomed.afterRet {t : Timespec} {ret : ℤ} (hret : ret ≠ 0) : (afterRet t ret).Doomed := by
  unfold Pc.afterRet
  rw [if_pos hret, if_neg hret.symm]
  trivial

end Pc

namespace CEvent

/-- A call of `Wait` finds the flag clear when it first has the mutex, and when it has
it again after a timed wait that failed. -/
def FindsClear (e : CEvent ι) : Act ι → Prop
  | .next i => (e.mon.pc i).comesFailing = true → e.bNotify = false
  | _ => True

instance (e : CEvent ι) (a : Act ι) : Decidable (e.FindsClear a) :=
  match a with
  | .next _ => inferInstanceAs (Decidable (_ = true → _ = false))
  | .callWait _ _ | .callSet _ | .callReset _ | .spurious _ | .expire _ | .tick _ => isTrue trivial

/-- `EVENT_TIMEOUT` is returned only by a call whose last release of the mutex finds
the flag clear. -/
def TimeoutIfClear (e : CEvent ι) : Act ι → Prop
  | .next i => (e.mon.pc i).lastRelease = some .eventTimeout → e.bNotify = false
  | _ => True

/-- With a nonzero code in hand, the flag is clear. -/
def codeAsserts : Pc → Bool → Prop
  | .waitTest _ ret, d | .waitRet _ ret, d => ret ≠ 0 → d = false
  | .waitCall _, d | .timeoutUnlock, d => d = false
  | .waitUnlock ret, _ => ret = 0
  | _, _ => True

theorem codeAsserts_outside (p : Pc) (d : Bool) (hp : ¬ p.Holds) : codeAsserts p d := by
  cases p with
  | waitTest _ _ | waitRet _ _ | waitCall _ | timeoutUnlock | waitUnlock _ =>
    exact absurd trivial hp
  | _ => trivial

/-- No call is bound to report a wrong timeout. -/
def Sound (e : CEvent ι) : Prop := (outline codeAsserts codeAsserts_outside).Valid e.mon

/-- Some call is. -/
def Owing (e : CEvent ι) : Prop := e.Safe ∧ e.bNotify = true ∧ ∃ i, (e.mon.pc i).Doomed

omit [DecidableEq ι] in
/-- The assertion of a thread, at the point where it stands. -/
theorem Sound.asserted_at (hs : e.Sound) {i : ι} {p : Pc} (hp : e.mon.pc i = p) :
    codeAsserts p e.bNotify := hp ▸ hs.asserted i

theorem Sound.step (hs : e.Sound) (hst : Step e a f) (hg : e.FindsClear a) : f.Sound := by
  refine hst.valid hs fun i hi => ?_
  cases hst with
  | tick => cases hi
  | waitLock hp _ =>
    cases hi
    have hclear : e.bNotify = false := hg (by rw [hp]; rfl)
    rw [Monitor.lock_pc_self]
    exact fun _ => hclear
  | reacquire hp _ =>
    rename_i t rc _
    cases hi
    rw [Monitor.lock_pc_self]
    exact fun hrc => hg (by rw [hp]; exact decide_eq_true hrc)
  | waitTest hp =>
    cases hi
    have ha := hs.asserted_at hp
    rw [Monitor.goto_pc_self, Pc.afterTest]
    split_ifs with hset
    · by_contra hret
      rw [ha hret] at hset
      cases hset
    · rw [Bool.not_eq_true] at hset
      exact hset
  | waitRet hp =>
    cases hi
    have ha := hs.asserted_at hp
    rw [Monitor.goto_pc_self, Pc.afterRet]
    split_ifs with h₁ h₂
    · exact absurd h₂.symm h₁
    · exact ha h₁
    · exact ha
  | waitRefused hp _ =>
    cases hi
    have ha := hs.asserted_at hp
    rw [Monitor.goto_pc_self]
    exact fun _ => ha
  | _ =>
    cases hi
    simp [begin, unlock, codeAsserts]

omit [DecidableEq ι] in
theorem Sound.timeoutIfClear (hs : e.Sound) (a : Act ι) : e.TimeoutIfClear a := by
  cases a with
  | next i =>
    intro hr
    have ha := hs.asserted i
    cases hp : e.mon.pc i with
    | waitUnlock ret =>
      rw [hp] at ha hr
      obtain rfl : ret = 0 := ha
      cases hr
    | timeoutUnlock =>
      rw [hp] at ha
      exact ha
    | _ => rw [hp] at hr; cases hr
  | _ => trivial

/-- A step that finds the flag set and is not allowed to binds its call. -/
theorem Safe.owing_of_not_findsClear (hs : e.Safe) (hst : Step e a f) (hg : ¬ e.FindsClear a) :
    f.Owing := by
  refine ⟨hs.step hst, ?_⟩
  cases hst with
  | waitLock hp hm =>
    rename_i i t
    have hset : (e.mon.pc i).comesFailing = true ∧ ¬ e.bNotify = false := Classical.not_imp.mp hg
    refine ⟨(Bool.not_eq_false _).mp hset.2, i, ?_⟩
    rw [Monitor.lock_pc_self]
    exact (by decide : (-1 : ℤ) ≠ 0)
  | reacquire hp hm =>
    rename_i i t rc
    have hset : (e.mon.pc i).comesFailing = true ∧ ¬ e.bNotify = false := Classical.not_imp.mp hg
    refine ⟨(Bool.not_eq_false _).mp hset.2, i, ?_⟩
    rw [hp] at hset
    have hrc : rc ≠ 0 := of_decide_eq_true hset.1
    rw [Monitor.lock_pc_self]
    exact hrc
  | tick | callWait _ | callSet _ | callReset _ | spurious _ | expire _ _ => exact absurd trivial hg
  | waitTest hp | waitCall hp _ | waitRefused hp _ | waitRet hp | waitUnlock hp | timeoutUnlock hp
  | setLock hp _ | setAssign hp | setBroadcast hp | setUnlock hp | resetLock hp _ | resetAssign hp
  | resetUnlock hp =>
    refine absurd (fun hcome => ?_) hg
    rw [hp] at hcome
    cases hcome

/-- A bound call keeps the mutex, and so the flag, until it reports. -/
theorem Owing.step (ho : e.Owing) (hst : Step e a f) : ¬ e.TimeoutIfClear a ∨ f.Owing := by
  have hsafe := ho.1.step hst
  obtain ⟨hs, hset, i, hi⟩ := ho
  have hmutex : e.mon.mutex = some i := (hs.valid.owner i).mpr hi.holds
  have halone : ∀ j, (e.mon.pc j).Holds → j = i := fun j hj => hs.valid.exclusive hj hi.holds
  have hother : ∀ j, ¬ (e.mon.pc j).Holds → i ≠ j := by
    rintro j hj rfl
    exact hj hi.holds
  cases hst with
  | waitTest hp =>
    rename_i j t ret
    obtain rfl := halone j (holds_at hp trivial)
    rw [hp] at hi
    refine .inr ⟨hsafe, hset, j, ?_⟩
    rw [Monitor.goto_pc_self, Pc.afterTest, if_pos hset]
    exact hi
  | waitRet hp =>
    rename_i j t ret
    obtain rfl := halone j (holds_at hp trivial)
    rw [hp] at hi
    refine .inr ⟨hsafe, hset, j, ?_⟩
    rw [Monitor.goto_pc_self]
    exact .afterRet hi
  | waitUnlock hp =>
    obtain rfl := halone _ (holds_at hp trivial)
    rw [hp] at hi
    refine .inl fun hclear => ?_
    have hfalse := hclear (by rw [hp, Pc.lastRelease, Pc.result, if_neg hi])
    rw [hset] at hfalse
    cases hfalse
  | timeoutUnlock hp =>
    refine .inl fun hclear => ?_
    have hfalse := hclear (by rw [hp]; rfl)
    rw [hset] at hfalse
    cases hfalse
  | waitCall hp _ | waitRefused hp _ | setAssign hp | setBroadcast hp | setUnlock hp
  | resetAssign hp | resetUnlock hp =>
    obtain rfl := halone _ (holds_at hp trivial)
    rw [hp] at hi
    cases hi
  | waitLock _ hm | reacquire _ hm | setLock _ hm | resetLock _ hm =>
    rw [hmutex] at hm
    cases hm
  | callWait hp | callSet hp | callReset hp =>
    refine .inr ⟨hsafe, hset, i, ?_⟩
    rw [begin, Monitor.goto_pc_of_ne _ _ (hother _ (Pc.not_holds_of_resting hp))]
    exact hi
  | spurious hp | expire hp _ =>
    refine .inr ⟨hsafe, hset, i, ?_⟩
    rw [Monitor.goto_pc_of_ne _ _ (hother _ (by rw [hp]; exact id))]
    exact hi
  | tick => exact .inr ⟨hsafe, hset, i, hi⟩

omit [DecidableEq ι] in
theorem Initial.sound (hi : e.Initial) : e.Sound := by
  refine ⟨fun i => ?_, fun i => ?_⟩
  · rw [hi.mutex, hi.pc]
    exact iff_of_false nofun id
  · rw [hi.pc]
    trivial

omit [DecidableEq ι] in
theorem Owing.mutex_ne (ho : e.Owing) : e.mon.mutex ≠ none := by
  obtain ⟨hs, -, i, hi⟩ := ho
  rw [(hs.valid.owner i).mpr hi.holds]
  exact nofun

end CEvent

open CEvent

/-- If every call of `Wait` finds the flag clear when it first has the mutex, and again
after a timed wait that failed, then `EVENT_TIMEOUT` is returned only on a clear flag;
and once the mutex is free again, only if so. -/
theorem timeout_only_if_clear {e₀ : CEvent ι} {tr : List (CEvent ι × Act ι)} (hi : e₀.Initial)
    (hr : Run (cevent ι) e₀ tr e) :
    (Always FindsClear tr → Always TimeoutIfClear tr) ∧
      (e.mon.mutex = none → (Always TimeoutIfClear tr ↔ Always FindsClear tr)) := by
  have hguard : ∀ e a f, e.Safe ∧ e.Sound → e.FindsClear a → (cevent ι).step e a = some f →
      e.TimeoutIfClear a ∧ f.Safe ∧ f.Sound := by
    intro e a f hs hg hk
    have hst := step_cases hk
    exact ⟨hs.2.timeoutIfClear a, hs.1.step hst, hs.2.step hst hg⟩
  have hbreak : ∀ e a f, e.Safe ∧ e.Sound → ¬ e.FindsClear a → (cevent ι).step e a = some f →
      ¬ e.TimeoutIfClear a ∨ f.Owing :=
    fun e a f hs hg hk => .inr (hs.1.owing_of_not_findsClear (step_cases hk) hg)
  have howe : ∀ e a f, e.Owing → (cevent ι).step e a = some f →
      ¬ e.TimeoutIfClear a ∨ f.Owing := fun e a f ho hk => ho.step (step_cases hk)
  rcases hr.guarded_or_owing hguard hbreak howe ⟨hi.safe, hi.sound⟩ with ⟨hG, hP, -⟩ | ⟨hG, hP⟩
  · exact ⟨fun _ => hP, fun _ => iff_of_true hP hG⟩
  · refine ⟨fun h => absurd h hG, fun hfree => iff_of_false ?_ hG⟩
    exact hP.resolve_right fun ho => ho.mutex_ne hfree

/-- A wait that `Set` ends in time, a `Reset`, and a wait to the deadline. -/
def bothResults : List (Act Bool) := [
  .callWait false 1500, .next false, .next false, .next false, .callSet true, .next true,
  .next true, .next true, .next true, .next false, .next false, .next false, .next false,
  .callReset true, .next true, .next true, .next true, .callWait false 20, .next false,
  .next false, .next false, .tick 20000, .expire false, .next false, .next false, .next false]

/-- Two calls of `Wait`, one that `Set` wakes and one that times out after a `Reset`. -/
theorem timeout_only_if_clear_both_results :
    ∃ (e : CEvent Bool) (tr : List (CEvent Bool × Act Bool)),
    Run (cevent Bool) (construct 5000000) tr e ∧ e.mon.pc false = .returned .eventTimeout ∧
      Always TimeoutIfClear tr := by
  have hall : Always FindsClear (trace (cevent Bool) (construct 5000000) bothResults) := by
    unfold Always
    decide +kernel
  obtain ⟨e, hr, hp⟩ := exists_run_of_exec (S := cevent Bool) (construct 5000000) bothResults
    (P := fun e => e.mon.pc false = .returned .eventTimeout) (by decide +kernel)
  exact ⟨e, _, hr, hp, (timeout_only_if_clear (initial_construct 5000000) hr).1 hall⟩

/-- The event is set; a call of `Wait` after that reports a timeout. -/
theorem timeout_on_set_event : ¬ ∀ (e₀ e : CEvent Bool) (tr : List (CEvent Bool × Act Bool)),
    e₀.Initial → Run (cevent Bool) e₀ tr e → Always TimeoutIfClear tr := by
  intro hall
  obtain ⟨e, hr, hm, hp, hset⟩ := exists_run_of_exec (S := cevent Bool) (construct 5000000)
    [.callSet true, .next true, .next true, .next true, .next true, .callWait false 1500,
      .next false, .next false]
    (P := fun e => e.mon.mutex = some false ∧ e.mon.pc false = .waitUnlock (-1) ∧
      e.bNotify = true) (by decide +kernel)
  have hlast : (cevent Bool).step e (.next false) =
      some (e.unlock false (.returned .eventTimeout)) := by
    show e.next false = _
    rw [next, hp]
    rfl
  have hbad := (always_tail.mp (hall _ _ _ (initial_construct 5000000) (hr.tail hlast))).2
  have hclear := hbad (by rw [hp]; rfl)
  rw [hset] at hclear
  cases hclear

end BaseCom.Event
