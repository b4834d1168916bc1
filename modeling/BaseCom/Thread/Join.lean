import BaseCom.Thread.CThread

/-! Who joins which thread. The field `tid` is all the object knows of its threads: a
`join` does not reset it, and a `start` overwrites it. So the calls have to come in
turns, which the phase of a call sequence keeps track of. -/

namespace BaseCom.Thread

open Transition

/-- The methods, with what `pthread_create` stores. -/
inductive Call
  | start (thread : PthreadT)
  | startFails (thread : PthreadT)
  | join
  | joinTimed (millisTime : UInt64)

/-- The object, and the threads created through it that nobody has joined. -/
structure Session where
  obj : CThread
  unjoined : List PthreadT

namespace Session

/-- A `pthread_join` takes its thread off the list. -/
def finish (s : Session) : JoinCall → Session
  | .pthreadJoin thread => { s with unjoined := s.unjoined.erase thread }
  | .nothing | .poll _ => s

/-- A new thread has an id that is not 0 and that no thread has that is not joined. -/
def step (s : Session) : Call → Option Session
  | .start thread =>
    if thread ≠ 0 ∧ thread ∉ s.unjoined then
      some ⟨s.obj.start thread, thread :: s.unjoined⟩
    else none
  | .startFails thread => some { s with obj := s.obj.start thread }
  | .join => some (s.finish s.obj.join)
  | .joinTimed millisTime => some (s.finish (s.obj.joinTimed millisTime))

/-- `pthread_join` is called with the id of a thread of the object that is not joined,
and `tid` keeps the id of such a thread. -/
def Disciplined (s : Session) : Call → Prop
  | .start thread | .startFails thread => s.obj.tid ∈ s.unjoined → thread = s.obj.tid
  | .join => ∀ thread, s.obj.join = .pthreadJoin thread → thread ∈ s.unjoined
  | .joinTimed millisTime =>
    ∀ thread, s.obj.joinTimed millisTime = .pthreadJoin thread → thread ∈ s.unjoined

end Session

/-- One object under any sequence of calls. -/
def session : Lts Session Call where
  init s := s = ⟨.construct, []⟩
  step := Session.step

/-! ### Call sequences -/

/-- What the calls so far leave to join: nothing and no id, a thread, or an id without one. -/
inductive Turn
  | nothing
  | joinable (thread : PthreadT)
  | stale
  deriving DecidableEq

namespace Turn

/-- After a `pthread_create` that failed. -/
def leftBy (thread : PthreadT) : Turn := if thread = 0 then .nothing else .stale

def next : Turn → Call → Turn
  | _, .start thread => .joinable thread
  | .joinable other, .startFails thread =>
    if thread = other then .joinable other else .leftBy thread
  | _, .startFails thread => .leftBy thread
  | .joinable _, .join => .stale
  | .joinable other, .joinTimed millisTime => if millisTime = 0 then .stale else .joinable other
  | p, .join | p, .joinTimed _ => p

/-- `join()` and `join(0)` do not meet an id without a thread, and a `start` that
changes `tid` comes when no thread is left to join. -/
def Allows : Turn → Call → Prop
  | .joinable _, .start _ => False
  | .joinable other, .startFails thread => thread = other
  | .stale, .join => False
  | .stale, .joinTimed millisTime => millisTime ≠ 0
  | _, _ => True

instance (p : Turn) (c : Call) : Decidable (p.Allows c) := by
  unfold Allows
  split <;> infer_instance

/-- What the object and its threads are in a turn. -/
def Describes (s : Session) : Turn → Prop
  | .nothing => s.obj.tid = 0 ∧ s.unjoined = []
  | .joinable thread => (s.obj.tid = thread ∧ thread ≠ 0) ∧ s.unjoined = [thread]
  | .stale => s.obj.tid ≠ 0 ∧ s.unjoined = []

end Turn

/-! ### The calls in turns -/

namespace CThread

theorem join_of_tid_eq {o : CThread} (h : o.tid = 0) : o.join = .nothing := by
  rw [join, h, if_neg (by decide)]

theorem join_of_tid_ne {o : CThread} (h : o.tid ≠ 0) : o.join = .pthreadJoin o.tid := by
  rw [join, if_pos (UInt64.pos_iff_ne_zero.mpr h)]

/-- `join(0)` is `join()`, and with another time nothing is joined. -/
theorem joinTimed_zero (o : CThread) : o.joinTimed 0 = o.join := by
  unfold joinTimed
  split_ifs with h h0
  · rw [join_of_tid_eq h]
  · rfl
  · exact absurd rfl h0

theorem joinTimed_ne {o : CThread} {millisTime : UInt64} (h : millisTime ≠ 0) :
    o.joinTimed millisTime = .nothing ∨ o.joinTimed millisTime = .poll millisTime := by
  unfold joinTimed
  split_ifs
  · exact .inl rfl
  · exact .inr rfl

end CThread

namespace Turn

variable {s t : Session} {p : Turn} {c : Call}

theorem Describes.join_iff (h : p.Describes s) : s.Disciplined .join ↔ p.Allows .join := by
  cases p with
  | nothing =>
    refine iff_of_true (fun thread hj => ?_) trivial
    rw [CThread.join_of_tid_eq h.1] at hj
    cases hj
  | joinable other =>
    obtain ⟨⟨htid, hne⟩, hun⟩ := h
    refine iff_of_true (fun thread hj => ?_) trivial
    rw [CThread.join_of_tid_ne (htid ▸ hne), htid] at hj
    cases hj
    rw [hun]
    exact List.mem_singleton_self _
  | stale =>
    obtain ⟨htid, hun⟩ := h
    refine iff_of_false (fun hj => ?_) id
    have hm := hj _ (CThread.join_of_tid_ne htid)
    rw [hun] at hm
    cases hm

theorem Describes.start_iff (h : p.Describes s) (thread : PthreadT) :
    s.Disciplined (.startFails thread) ↔ p.Allows (.startFails thread) := by
  cases p with
  | nothing => 
    refine iff_of_true (fun hm => ?_) trivial
    rw [h.2] at hm
    cases hm
  | joinable other =>
    obtain ⟨⟨rfl, -⟩, hun⟩ := h
    show (_ ∈ _ → _) ↔ _
    rw [hun]
    exact ⟨fun hm => hm (List.mem_singleton_self _), fun hm _ => hm⟩
  | stale =>
    refine iff_of_true (fun hm => ?_) trivial
    rw [h.2] at hm
    cases hm

/-- A call is disciplined exactly if its turn allows it. -/
theorem Describes.disciplined_iff (h : p.Describes s) (hk : s.step c = some t) :
    s.Disciplined c ↔ p.Allows c := by
  cases c with
  | join => exact h.join_iff
  | joinTimed millisTime =>
    by_cases hms : millisTime = 0
    · subst hms
      show (∀ thread, s.obj.joinTimed 0 = .pthreadJoin thread → thread ∈ s.unjoined) ↔ _
      rw [CThread.joinTimed_zero]
      refine h.join_iff.trans ?_
      cases p <;> simp [Allows]
    · refine iff_of_true (fun thread hj => ?_) ?_
      · rcases CThread.joinTimed_ne (o := s.obj) hms with he | he <;>
        · rw [he] at hj
          cases hj
      · cases p with
        | stale => exact hms
        | nothing | joinable _ => trivial
  | startFails thread => exact h.start_iff thread
  | start thread =>
    simp only [Session.step] at hk
    split_ifs at hk with hnew
    refine (h.start_iff thread).trans ?_
    cases p with
    | joinable other =>
      refine iff_of_false (fun he => hnew.2 ?_) id
      obtain rfl : thread = other := he
      rw [h.2]
      exact List.mem_singleton_self _
    | nothing | stale => exact Iff.rfl

theorem describes_leftBy (hun : s.unjoined = []) (thread : PthreadT) :
    (leftBy thread).Describes { s with obj := s.obj.start thread } := by
  unfold leftBy
  split_ifs with h
  · exact ⟨h, hun⟩
  · exact ⟨h, hun⟩

theorem Describes.finish_join (h : p.Describes s) (hg : p.Allows .join) :
    (p.next .join).Describes (s.finish s.obj.join) := by
  cases p with
  | nothing =>
    rw [CThread.join_of_tid_eq h.1]
    exact h
  | joinable other =>
    obtain ⟨⟨htid, hne⟩, hun⟩ := h
    rw [CThread.join_of_tid_ne (htid ▸ hne), htid]
    refine ⟨htid ▸ hne, ?_⟩
    show s.unjoined.erase other = []
    rw [hun, List.erase_cons_head]
  | stale => exact hg.elim

/-- After an allowed call the next turn describes the object. -/
theorem Describes.step (h : p.Describes s) (hg : p.Allows c) (hk : s.step c = some t) :
    (p.next c).Describes t := by
  cases c with
  | join =>
    cases hk
    exact h.finish_join hg
  | joinTimed millisTime =>
    cases hk
    by_cases hms : millisTime = 0
    · subst hms
      have hnext : p.next (.joinTimed 0) = p.next .join := by cases p <;> rfl
      have hallow : p.Allows .join := by
        cases p with
        | stale => exact absurd rfl hg
        | nothing | joinable _ => trivial
      rw [hnext, CThread.joinTimed_zero]
      exact h.finish_join hallow
    · have hnext : p.next (.joinTimed millisTime) = p := by
        cases p with
        | joinable other => exact if_neg hms
        | nothing | stale => rfl
      rw [hnext]
      rcases CThread.joinTimed_ne (o := s.obj) hms with he | he <;>
      · rw [he]
        exact h
  | start thread =>
    simp only [Session.step] at hk
    split_ifs at hk with hnew
    cases hk
    have hun : s.unjoined = [] := by
      cases p with
      | joinable other => exact hg.elim
      | nothing | stale => exact h.2
    have hnext : p.next (.start thread) = .joinable thread := by cases p <;> rfl
    rw [hnext]
    exact ⟨⟨rfl, hnew.1⟩, by rw [hun]⟩
  | startFails thread =>
    cases hk
    cases p with
    | joinable other =>
      obtain rfl : thread = other := hg
      have hnext : (joinable thread).next (.startFails thread) = .joinable thread := if_pos rfl
      rw [hnext]
      exact ⟨⟨rfl, h.1.2⟩, h.2⟩
    | nothing | stale => exact describes_leftBy h.2 thread

end Turn

/-- The object with the turn its calls have come to. -/
def turns : Lts (Session × Turn) Call := session.noting .nothing fun _ c turn => turn.next c

/-- Along every call sequence, `pthread_join` only ever gets threads of the object that
are not joined, and no `start` drops such a thread, if and only if the calls come in turns. -/
theorem join_discipline_iff {p₀ p : Session × Turn} {tr : List ((Session × Turn) × Call)}
    (hi : turns.init p₀) (hr : Run turns p₀ tr p) :
    Always (fun q c => q.1.Disciplined c) tr ↔ Always (fun q c => q.2.Allows c) tr := by
  have hiff : ∀ q c r, q.2.Describes q.1 → turns.step q c = some r →
      (q.1.Disciplined c ↔ q.2.Allows c) :=
    fun _ _ _ hq hk => hq.disciplined_iff (noting_cases hk).1
  have hkeep : ∀ q c r, q.2.Describes q.1 → q.2.Allows c → turns.step q c = some r →
      r.2.Describes r.1 := by
    intro q c r hq hg hk
    obtain ⟨hs, hn⟩ := noting_cases hk
    rw [hn]
    exact hq.step hg hs
  have hstart : p₀.2.Describes p₀.1 := by
    obtain ⟨hs, hn⟩ := hi
    rw [hn, hs]
    exact ⟨rfl, rfl⟩
  exact hr.always_congr hiff hkeep hstart

/-- A start that fails, then two threads, each joined before the next start. -/
theorem join_discipline_two_threads : ∃ p tr, Run turns (⟨.construct, []⟩, .nothing) tr p ∧
    tr.length = 6 ∧ p.1.obj.tid = 141 ∧ Always (fun q c => q.1.Disciplined c) tr := by
  have hallow : Always (fun q c => q.2.Allows c) (trace turns (⟨.construct, []⟩, .nothing)
      [.startFails 0, .joinTimed 50, .start 140, .join, .start 141, .joinTimed 0]) := by
    unfold Always
    decide +kernel
  obtain ⟨p, hr, hp⟩ := exists_run_of_exec (S := turns) (⟨.construct, []⟩, .nothing)
    [.startFails 0, .joinTimed 50, .start 140, .join, .start 141, .joinTimed 0]
    (P := fun p => p.1.obj.tid = 141) (by decide +kernel)
  have hi : turns.init (⟨.construct, []⟩, .nothing) := ⟨rfl, rfl⟩
  exact ⟨p, _, hr, rfl, hp, (join_discipline_iff hi hr).mpr hallow⟩

/-- A thread is joined twice. -/
theorem joined_again : ¬ ∀ s c, Reachable session s → s.Disciplined c := by
  intro hall
  obtain ⟨s, hr, hj, hun⟩ := exists_reachable_of_exec (S := session) (s := ⟨.construct, []⟩) rfl
    [.start 140, .join] (P := fun s => s.obj.join = .pthreadJoin 140 ∧ s.unjoined = [])
    (by decide +kernel)
  have hm := hall s .join hr 140 hj
  rw [hun] at hm
  cases hm

end BaseCom.Thread
