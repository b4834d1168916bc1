import BaseCom.Shm.Failure
import BaseCom.Transition.Checklist

/-! Retrying `DestroyMemory`. Any of its `shmdt` and `shmctl` may fail, and what a call has
done the next one finds in the two fields: an address is cleared once it is detached, the
id once the segment is removed. So the calls together take two steps in order, each until
it has succeeded. -/

namespace BaseCom.Shm

open Transition

variable {ι : Type*} [DecidableEq ι]

/-- The system calls of `DestroyMemory`, with their arguments. -/
inductive Syscall
  | shmdt (shmaddr : UInt64)
  | shmctl (shmid : Int32)
  deriving DecidableEq

/-- What fails in one call of `DestroyMemory`: `shmdt`, with the `errno` it sets, and
`shmctl`. A failing system call changes nothing. -/
structure Faults where
  shmdt : Option Int32
  shmctl : Bool

/-- The kernel in such a call, with the system calls made and whether they succeeded. -/
structure Faulty (ι : Type*) where
  view : View ι
  shmdtFails : Option Int32
  log : List (Syscall × Bool)

/-- Failures of `shmctl` are among the kernel's choices, those of `shmdt` are not. -/
def faultyCalls : ShmCalls (Faulty ι) where
  shmget key size shmflg w :=
    let (shmid, v) := kernelCalls.shmget key size shmflg w.view
    (shmid, { w with view := v })
  shmat shmid w :=
    let (addr, v) := kernelCalls.shmat shmid w.view
    (addr, { w with view := v })
  shmdt addr w :=
    match w.shmdtFails with
    | some errno => ((-1, errno), { w with log := w.log ++ [(.shmdt addr, false)] })
    | none =>
      let (ret, v) := kernelCalls.shmdt addr w.view
      (ret, { w with view := v, log := w.log ++ [(.shmdt addr, decide (ret.1 = 0))] })
  shmctl shmid w :=
    let (ret, v) := kernelCalls.shmctl shmid w.view
    (ret, { w with view := v, log := w.log ++ [(.shmctl shmid, decide (ret = 0))] })

/-- What is left to do, as the fields tell it. -/
def ShmOperator.left (o : ShmOperator) : List Syscall :=
  if o.shmid = -1 then []
  else if o.memoryAddr = null then [.shmctl o.shmid]
  else [.shmdt o.memoryAddr, .shmctl o.shmid]

/-- An object and the kernel, with the system calls of all calls so far. -/
structure Teardown (ι : Type*) where
  obj : ShmOperator
  kern : Kernel ι
  log : List (Syscall × Bool)

/-- A call of `DestroyMemory`: what it returns, its system calls and the state it leaves. -/
structure Destroyed (ι : Type*) where
  ret : Bool
  log : List (Syscall × Bool)
  next : Teardown ι

namespace Kernel

variable {k : Kernel ι} {c : Choices} {shmid : Int32}

omit [DecidableEq ι] in
theorem removed_of_shmctl (h : (k.shmctl c shmid).1 = 0) :
    ∀ g ∈ (k.shmctl c shmid).2.segs, g.shmid = shmid → g.removed = true := by
  unfold shmctl at h ⊢
  split_ifs at h ⊢
  · have hne : (-1 : Int32) ≠ 0 := by decide
    exact absurd h hne
  · intro g hg hid
    obtain ⟨g', -, rfl⟩ := List.mem_map.mp (List.mem_of_mem_filter hg)
    split_ifs at hid ⊢ with hid'
    · rfl
    · exact absurd hid hid'

end Kernel

namespace Teardown

def destroyMemory (s : Teardown ι) (i : ι) (f : Faults) : Destroyed ι :=
  let (ret, o, w) :=
    s.obj.destroyMemory faultyCalls ⟨⟨s.kern, i, ⟨false, false, f.shmctl, 0, 0⟩⟩, f.shmdt, []⟩
  ⟨ret, w.log, ⟨o, w.view.kern, s.log ++ w.log⟩⟩

end Teardown

/-- `DestroyMemory` called on one object again and again. At first its id is that of a
segment, and its address `NULL` or an attachment to it. -/
def teardown (i : ι) : Lts (Teardown ι) Faults where
  init s := (0 ≤ s.obj.shmid ∧ s.kern.Known s.obj.shmid) ∧
    (s.obj.memoryAddr = null ∨ ⟨some i, s.obj.memoryAddr, s.obj.shmid⟩ ∈ s.kern.maps) ∧ s.log = []
  step s f := some (s.destroyMemory i f).next

namespace Teardown

variable {s s₀ t : Teardown ι} {i : ι} {f : Faults}

/-- A call that returns false has failed in a system call, and the next call, whatever
fails in it, begins with that one. Or there was nothing left to do, and nothing was done. -/
def Resumes (i : ι) (s : Teardown ι) (f : Faults) : Prop :=
  let c := s.destroyMemory i f
  c.ret = false → (s.obj.shmid = -1 ∧ c.log = [] ∧ c.next = s) ∨
    ∃ x, c.log.getLast? = some (x, false) ∧
      ∀ g, ∃ b, (c.next.destroyMemory i g).log.head? = some (x, b)

/-- Both fields are empty, the segment is gone or at least marked, and of the object's
attachments exactly the one at the address it had at first has ended. -/
structure Over (i : ι) (s₀ t : Teardown ι) : Prop where
  shmid : t.obj.shmid = -1
  memoryAddr : t.obj.memoryAddr = null
  removed : ∀ g ∈ t.kern.segs, g.shmid = s₀.obj.shmid → g.removed = true
  detached : ∀ addr, t.kern.Attached i addr ↔
    s₀.kern.Attached i addr ∧ ¬ (s₀.obj.memoryAddr ≠ null ∧ addr = s₀.obj.memoryAddr)

/-- A call returns true exactly if its last system call removes the segment, and then all
is over. -/
def Completes (i : ι) (s₀ s : Teardown ι) (f : Faults) : Prop :=
  let c := s.destroyMemory i f
  (c.ret = true ↔ c.log.getLast? = some (.shmctl s₀.obj.shmid, true)) ∧
    (c.ret = true → Over i s₀ c.next)

/-- The log accounts for what is left to do and for the attachments that are left. -/
structure Sound (i : ι) (s₀ s : Teardown ι) : Prop where
  job : Underway s₀.obj.left s.log s.obj.left
  shmid : s.obj.shmid ≠ -1 → s.obj.shmid = s₀.obj.shmid
  attached : ∀ addr, s.kern.Attached i addr ↔
    s₀.kern.Attached i addr ∧ .shmdt addr ∉ succeeded s.log

/-! ### One call -/

/-- The kernel and the system calls so far once the object's attachment, if it has one,
has ended. -/
inductive Cut (i : ι) (s : Teardown ι) : Kernel ι → List (Syscall × Bool) → Prop
  | none (hm : s.obj.memoryAddr = null) : Cut i s s.kern []
  | shmdt (hm : s.obj.memoryAddr ≠ null) :
      Cut i s (s.kern.shmdt i s.obj.memoryAddr).2 [(.shmdt s.obj.memoryAddr, true)]

/-- What a call can do, one case for each way through `DestroyMemory`. -/
inductive Effect (i : ι) (s : Teardown ι) : Destroyed ι → Prop
  | idle (hid : s.obj.shmid = -1) : Effect i s ⟨false, [], s⟩
  | shmdtFails (hid : s.obj.shmid ≠ -1) (hm : s.obj.memoryAddr ≠ null) :
      Effect i s ⟨false, [(.shmdt s.obj.memoryAddr, false)],
        ⟨s.obj, s.kern, s.log ++ [(.shmdt s.obj.memoryAddr, false)]⟩⟩
  | shmctlFails (hid : s.obj.shmid ≠ -1) {k : Kernel ι} {log : List (Syscall × Bool)}
      (hc : Cut i s k log) :
      Effect i s ⟨false, log ++ [(.shmctl s.obj.shmid, false)],
        ⟨{ s.obj with memoryAddr := null }, k, s.log ++ (log ++ [(.shmctl s.obj.shmid, false)])⟩⟩
  | removes (hid : s.obj.shmid ≠ -1) {k : Kernel ι} {log : List (Syscall × Bool)}
      (hc : Cut i s k log) {c : Choices} (hctl : (k.shmctl c s.obj.shmid).1 = 0) :
      Effect i s ⟨true, log ++ [(.shmctl s.obj.shmid, true)],
        ⟨{ s.obj with shmid := -1, memoryAddr := null }, (k.shmctl c s.obj.shmid).2,
          s.log ++ (log ++ [(.shmctl s.obj.shmid, true)])⟩⟩

/-- From `shmctl` on. -/
theorem Effect.removeMemory (hid : s.obj.shmid ≠ -1) {k : Kernel ι} {log : List (Syscall × Bool)}
    (hc : Cut i s k log) (c : Choices) (shmdtFails : Option Int32) :
    let (ret, o, w) := ShmOperator.removeMemory faultyCalls { s.obj with memoryAddr := null }
      ⟨⟨k, i, c⟩, shmdtFails, log⟩
    Effect i s ⟨ret, w.log, ⟨o, w.view.kern, s.log ++ w.log⟩⟩ := by
  by_cases hctl : (k.shmctl c s.obj.shmid).1 = 0
  · simp only [ShmOperator.removeMemory, faultyCalls, kernelCalls, hctl, ne_eq, not_true_eq_false,
      if_false, decide_true]
    exact .removes hid hc hctl
  · simp only [ShmOperator.removeMemory, faultyCalls, kernelCalls, hctl, ne_eq, not_false_eq_true,
      if_true, decide_false, Kernel.shmctl_failed _ _ hctl]
    exact .shmctlFails hid hc

theorem destroyMemory_effect (s : Teardown ι) (i : ι) (f : Faults) :
    Effect i s (s.destroyMemory i f) := by
  obtain ⟨dt, ctl⟩ := f
  by_cases hid : s.obj.shmid = -1
  · simp only [destroyMemory, ShmOperator.destroyMemory, if_pos hid, List.append_nil]
    exact .idle hid
  · by_cases hm : s.obj.memoryAddr = null
    · have hnull : s.obj = { s.obj with memoryAddr := null } := by rw [← hm]
      have he := Effect.removeMemory hid (.none (i := i) hm) ⟨false, false, ctl, 0, 0⟩ dt
      rw [← hnull] at he
      simpa only [destroyMemory, ShmOperator.destroyMemory, if_neg hid, hm, ne_eq,
        not_true_eq_false, if_false] using he
    · cases dt with
      | some errno =>
        simp only [destroyMemory, ShmOperator.destroyMemory, if_neg hid, if_pos hm, faultyCalls,
          List.nil_append]
        exact .shmdtFails hid hm
      | none =>
        by_cases ha : s.kern.Attached i s.obj.memoryAddr
        · have hdt : (s.kern.shmdt i s.obj.memoryAddr).1 = (0, 0) := by
            rw [Kernel.shmdt, if_pos ha]
          have he := Effect.removeMemory hid (.shmdt (i := i) hm) ⟨false, false, ctl, 0, 0⟩ none
          simpa [destroyMemory, ShmOperator.destroyMemory, hid, hm, faultyCalls, kernelCalls,
            hdt] using he
        · have hdt : s.kern.shmdt i s.obj.memoryAddr = ((-1, einval), s.kern) := by
            rw [Kernel.shmdt, if_neg ha]
          have he := Effect.shmdtFails (i := i) hid hm
          simpa [destroyMemory, ShmOperator.destroyMemory, hid, hm, faultyCalls, kernelCalls,
            hdt] using he

namespace Effect

variable {c : Destroyed ι}

theorem log_eq (he : Effect i s c) : c.next.log = s.log ++ c.log := by
  cases he with
  | idle _ => exact (List.append_nil _).symm
  | shmdtFails _ _ | shmctlFails _ _ | removes _ _ _ => rfl

/-- A call takes the steps left, up to one that fails. -/
theorem attempted (he : Effect i s c) : Attempted s.obj.left c.log c.next.obj.left := by
  cases he with
  | idle hid =>
    rw [ShmOperator.left, if_pos hid]
    exact .nothing
  | shmdtFails hid hm =>
    simp only [ShmOperator.left, if_neg hid, if_neg hm]
    exact .fails _ _
  | shmctlFails hid hc =>
    simp only [ShmOperator.left, if_neg hid, if_true]
    cases hc with
    | none hm =>
      rw [if_pos hm]
      exact .fails _ _
    | shmdt hm =>
      rw [if_neg hm]
      exact .succeeds _ (.fails _ _)
  | removes hid hc _ =>
    simp only [ShmOperator.left, if_neg hid, if_true]
    cases hc with
    | none hm =>
      rw [if_pos hm]
      exact .succeeds _ .nothing
    | shmdt hm =>
      rw [if_neg hm]
      exact .succeeds _ (.succeeds _ .nothing)

/-- Its log tells which attachments have ended. -/
theorem attached (he : Effect i s c) (addr : UInt64) :
    c.next.kern.Attached i addr ↔
      s.kern.Attached i addr ∧ .shmdt addr ∉ succeeded c.log := by
  have hcut : ∀ {k log}, Cut i s k log → ∀ shmid b, k.Attached i addr ↔
      s.kern.Attached i addr ∧ .shmdt addr ∉ succeeded (log ++ [(.shmctl shmid, b)]) := by
    intro k log hc shmid b
    cases hc with
    | none hm => cases b <;> simp [succeeded]
    | shmdt hm =>
      rw [Kernel.attached_shmdt]
      cases b <;> simp [succeeded]
  cases he with
  | idle _ => simp [succeeded]
  | shmdtFails _ _ => simp [succeeded]
  | shmctlFails _ hc => exact hcut hc _ _
  | removes _ hc _ => exact (Kernel.attached_congr (Kernel.maps_shmctl _)).trans (hcut hc _ _)

theorem shmid_eq (he : Effect i s c) (hid : c.next.obj.shmid ≠ -1) :
    c.next.obj.shmid = s.obj.shmid := by
  cases he with
  | idle _ | shmdtFails _ _ | shmctlFails _ _ => rfl
  | removes _ _ _ => exact absurd rfl hid

end Effect

omit [DecidableEq ι] in
theorem left_eq_nil_iff : s.obj.left = [] ↔ s.obj.shmid = -1 := by
  unfold ShmOperator.left
  split_ifs with hid <;> simp [hid]

omit [DecidableEq ι] in
theorem nodup_left : s.obj.left.Nodup := by
  unfold ShmOperator.left
  split_ifs <;> simp

omit [DecidableEq ι] in
/-- The last step is the removal. -/
theorem getLast_left (hne : s.obj.left ≠ []) : s.obj.left.getLast hne = .shmctl s.obj.shmid := by
  have hid : s.obj.shmid ≠ -1 := fun h => hne (left_eq_nil_iff.mpr h)
  unfold ShmOperator.left
  simp only [if_neg hid]
  split_ifs <;> rfl

namespace Effect

variable {c : Destroyed ι}

theorem ret_iff (he : Effect i s c) : c.ret = true ↔ s.obj.left ≠ [] ∧ c.next.obj.left = [] := by
  simp only [ne_eq, left_eq_nil_iff]
  cases he with
  | idle hid | shmdtFails hid _ | shmctlFails hid _ | removes hid _ _ => simp [hid]

/-- What fails is the first step left. -/
theorem fails (he : Effect i s c) (hret : c.ret = false) (hne : s.obj.left ≠ []) :
    ∃ x xs, c.next.obj.left = x :: xs ∧ c.log.getLast? = some (x, false) := by
  have hleft : c.next.obj.left ≠ [] := by
    intro hnil
    rw [he.ret_iff.mpr ⟨hne, hnil⟩] at hret
    cases hret
  obtain ⟨x, xs, hx⟩ := List.exists_cons_of_ne_nil hleft
  have ha := he.attempted
  rw [hx] at ha
  exact ⟨x, xs, hx, ha.failed⟩

theorem idle_of_left (he : Effect i s c) (h : s.obj.left = []) :
    s.obj.shmid = -1 ∧ c = ⟨false, [], s⟩ := by
  have hid := left_eq_nil_iff.mp h
  cases he with
  | idle _ => exact ⟨hid, rfl⟩
  | shmdtFails hne _ | shmctlFails hne _ | removes hne _ _ => exact absurd hid hne

theorem removed (he : Effect i s c) (hret : c.ret = true) :
    c.next.obj.shmid = -1 ∧ c.next.obj.memoryAddr = null ∧
      ∀ g ∈ c.next.kern.segs, g.shmid = s.obj.shmid → g.removed = true := by
  cases he with
  | idle _ | shmdtFails _ _ | shmctlFails _ _ => cases hret
  | removes _ _ hctl => exact ⟨rfl, rfl, Kernel.removed_of_shmctl hctl⟩

end Effect

theorem resumes (s : Teardown ι) (i : ι) (f : Faults) : Resumes i s f := by
  have he := s.destroyMemory_effect i f
  dsimp only [Resumes]
  generalize s.destroyMemory i f = c at he
  intro hret
  by_cases hleft : s.obj.left = []
  · obtain ⟨hid, hc⟩ := he.idle_of_left hleft
    rw [hc]
    exact .inl ⟨hid, rfl, rfl⟩
  · obtain ⟨x, xs, hx, hlast⟩ := he.fails hret hleft
    refine .inr ⟨x, hlast, fun g => ?_⟩
    have ha := (c.next.destroyMemory_effect i g).attempted
    rw [hx] at ha
    exact ha.head

/-! ### Any number of calls -/

omit [DecidableEq ι] in
theorem Sound.start (h : s.log = []) : Sound i s s where
  job := by
    rw [h]
    exact .start _
  shmid _ := rfl
  attached addr := by simp [h, succeeded]

theorem Sound.effect (hs : Sound i s₀ s) {c : Destroyed ι} (he : Effect i s c) :
    Sound i s₀ c.next where
  job := by
    rw [he.log_eq]
    exact hs.job.attempt nodup_left he.attempted
  shmid hid := by
    have hsame := he.shmid_eq hid
    rw [hsame] at hid ⊢
    exact hs.shmid hid
  attached addr := by
    rw [he.attached, hs.attached, he.log_eq, succeeded_append, List.mem_append, not_or, and_assoc]

/-- True is returned by the call that removes the segment the object had at first. -/
theorem Sound.ret_iff (hs : Sound i s₀ s) {c : Destroyed ι} (he : Effect i s c) :
    c.ret = true ↔ c.log.getLast? = some (.shmctl s₀.obj.shmid, true) := by
  constructor
  · intro hret
    obtain ⟨hne, hnil⟩ := he.ret_iff.mp hret
    have ha := he.attempted
    rw [hnil] at ha
    have hid : s.obj.shmid ≠ -1 := fun h => hne (left_eq_nil_iff.mpr h)
    rw [ha.finished hne, getLast_left hne, hs.shmid hid]
  · intro hlast
    by_contra hret
    rw [Bool.not_eq_true] at hret
    by_cases hleft : s.obj.left = []
    · rw [(he.idle_of_left hleft).2] at hlast
      cases hlast
    · obtain ⟨x, xs, -, hx⟩ := he.fails hret hleft
      rw [hx] at hlast
      cases hlast

omit [DecidableEq ι] in
/-- The address is detached in the course of the job if there is one. -/
theorem shmdt_mem_left (hid : s.obj.shmid ≠ -1) (addr : UInt64) :
    .shmdt addr ∈ s.obj.left ↔ s.obj.memoryAddr ≠ null ∧ addr = s.obj.memoryAddr := by
  unfold ShmOperator.left
  rw [if_neg hid]
  split_ifs with hm <;> simp [hm]

theorem Sound.over (hs : Sound i s₀ s) {c : Destroyed ι} (he : Effect i s c)
    (hret : c.ret = true) : Over i s₀ c.next := by
  obtain ⟨hid, hm, hseg⟩ := he.removed hret
  obtain ⟨hne, hnil⟩ := he.ret_iff.mp hret
  have hbusy : s.obj.shmid ≠ -1 := fun h => hne (left_eq_nil_iff.mpr h)
  have hsame := hs.shmid hbusy
  refine ⟨hid, hm, fun g hg h => hseg g hg (h.trans hsame.symm), fun addr => ?_⟩
  -- the whole job is in the log now
  have hnext := hs.effect he
  have hjob := hnext.job.split
  rw [hnil, List.append_nil] at hjob
  rw [hnext.attached, hjob, shmdt_mem_left (hsame ▸ hbusy)]

theorem Sound.completes (hs : Sound i s₀ s) (f : Faults) : Completes i s₀ s f :=
  ⟨hs.ret_iff (s.destroyMemory_effect i f), hs.over (s.destroyMemory_effect i f)⟩

end Teardown

/-- However often `DestroyMemory` is called and whatever fails: what has succeeded and what
is left make up the two steps, so neither is taken again once it has succeeded; a call that
returns false is resumed at the step that failed; and the call that removes the segment,
and no other, returns true, and leaves both fields empty and what they recorded released. -/
theorem destroyMemory_retried {i : ι} {s₀ s : Teardown ι} {tr : List (Teardown ι × Faults)}
    (hi : (teardown i).init s₀) (hr : Run (teardown i) s₀ tr s) :
    Underway s₀.obj.left s.log s.obj.left ∧ Always (Teardown.Resumes i) tr ∧
      Always (Teardown.Completes i s₀) tr := by
  have hstep : ∀ u f t, Teardown.Sound i s₀ u → True → (teardown i).step u f = some t →
      Teardown.Sound i s₀ t := by
    rintro u f t hu - hk
    obtain rfl := Option.some.inj hk
    exact hu.effect (u.destroyMemory_effect i f)
  obtain ⟨hall, hs⟩ := hr.along_of_always hstep (.start hi.2.2) fun _ _ => trivial
  exact ⟨hs.job, fun p _ => p.1.resumes i p.2, fun p hp => (hall p hp).completes p.2⟩

/-- A segment and its one attachment. -/
def Teardown.attachedOnce : Teardown Unit where
  obj := ⟨1234, 100, 950, 7, 4096⟩
  kern := ⟨[⟨7, 1234, some (), false⟩], [⟨some (), 4096, 7⟩]⟩
  log := []

/-- `shmdt` fails, then `shmctl`, then nothing. -/
def failingInTurn : List Faults := [⟨some 12, false⟩, ⟨none, true⟩, ⟨none, false⟩, ⟨none, false⟩]

theorem destroyMemory_retried_in_turn : ∃ s tr,
    Run (teardown ()) .attachedOnce tr s ∧
      tr.map (fun p => (p.1.destroyMemory () p.2).ret) = [false, false, true, false] ∧
      s.log = [(.shmdt 4096, false), (.shmdt 4096, true), (.shmctl 7, false), (.shmctl 7, true)] ∧
      Underway [.shmdt 4096, .shmctl 7] s.log s.obj.left ∧
      Always (Teardown.Completes () .attachedOnce) tr := by
  obtain ⟨s, hr, hlog⟩ := exists_run_of_exec (S := teardown ()) .attachedOnce failingInTurn
    (P := fun s => s.log =
      [(.shmdt 4096, false), (.shmdt 4096, true), (.shmctl 7, false), (.shmctl 7, true)])
    (by decide +kernel)
  have hall := destroyMemory_retried (by unfold teardown; decide +kernel) hr
  exact ⟨s, _, hr, by decide +kernel, hlog, hall.1, hall.2.2⟩

/-- A segment attached twice, of which the second address is remembered. -/
def Teardown.attachedTwice : Teardown Unit where
  obj := ⟨1234, 100, 950, 7, 8192⟩
  kern := ⟨[⟨7, 1234, some (), false⟩], [⟨some (), 4096, 7⟩, ⟨some (), 8192, 7⟩]⟩
  log := []

/-- `DestroyMemory` completes the removal, and an attachment remains that no field records. -/
theorem destroyMemory_leaves_attachment :
    ¬ ∀ (s₀ s : Teardown Unit) (tr : List (Teardown Unit × Faults)),
      (teardown ()).init s₀ → Run (teardown ()) s₀ tr s → ∀ p ∈ tr,
        (p.1.destroyMemory () p.2).ret = true →
          ∀ addr, ¬ (p.1.destroyMemory () p.2).next.kern.Attached () addr := by
  intro hclaim
  have hinit : (teardown ()).init .attachedTwice := by unfold teardown; decide +kernel
  have hrun : Run (teardown ()) .attachedTwice [(.attachedTwice, ⟨none, false⟩)]
      (Teardown.attachedTwice.destroyMemory () ⟨none, false⟩).next := .single rfl
  refine hclaim _ _ _ hinit hrun _ (List.mem_singleton_self _) ?_ 4096 ?_
  · decide +kernel
  · decide +kernel

end BaseCom.Shm
