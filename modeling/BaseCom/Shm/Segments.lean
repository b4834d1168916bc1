import BaseCom.Shm.Operator
import BaseCom.Transition.Run
import Mathlib.Logic.Function.Basic

/-! Several objects over one System V kernel. A segment bound to a key is found by
`shmget`; `IPC_RMID` unbinds the key at once, and the segment lives on while it is
attached. The kernel may refuse any `shmget`, `shmat` or `shmctl` (permissions, limits,
a size that does not fit), and chooses new ids and addresses. -/

namespace BaseCom.Shm

open Transition

def ipcPrivate : Int32 := 0

def ipcCreat : Int32 := 512

def ipcExcl : Int32 := 1024

/-- A segment, with the object it was created through, if any. -/
structure Segment (ι : Type*) where
  shmid : Int32
  key : Int32
  creator : Option ι
  removed : Bool

/-- An address at which a segment is attached, with the object it was attached through. -/
structure Attachment (ι : Type*) where
  owner : Option ι
  addr : UInt64
  shmid : Int32
  deriving DecidableEq

structure Kernel (ι : Type*) where
  segs : List (Segment ι)
  maps : List (Attachment ι)

/-- What is left to the kernel within one operation. -/
structure Choices where
  refuseGet : Bool
  refuseAt : Bool
  refuseCtl : Bool
  newId : Int32
  newAddr : UInt64

namespace Kernel

variable {ι : Type*}

/-- The segment bound to a key. -/
def lookup (k : Kernel ι) (key : Int32) : Option (Segment ι) :=
  if key = ipcPrivate then none else k.segs.find? fun g => decide (g.key = key) && !g.removed

/-- The id is that of a segment that exists. -/
def Known (k : Kernel ι) (shmid : Int32) : Prop := ∃ g ∈ k.segs, g.shmid = shmid

instance (k : Kernel ι) (shmid : Int32) : Decidable (k.Known shmid) :=
  inferInstanceAs (Decidable (∃ g ∈ _, _))

/-- Removed segments that nobody has attached are gone. -/
def reap (k : Kernel ι) : Kernel ι :=
  { k with segs := k.segs.filter fun g => !g.removed || decide (∃ m ∈ k.maps, m.shmid = g.shmid) }

/-- `shmget`. The size of an existing segment is not kept: one that is too small is a
refusal. -/
def shmget (k : Kernel ι) (i : ι) (c : Choices) (key shmflg : Int32) : Int32 × Kernel ι :=
  if c.refuseGet then (-1, k)
  else
    match k.lookup key with
    | some g => if shmflg &&& ipcCreat ≠ 0 ∧ shmflg &&& ipcExcl ≠ 0 then (-1, k) else (g.shmid, k)
    | none =>
      if key = ipcPrivate ∨ shmflg &&& ipcCreat ≠ 0 then
        (c.newId, { k with segs := k.segs ++ [⟨c.newId, key, some i, false⟩] })
      else (-1, k)

/-- `shmat(shmid, NULL, 0)`. -/
def shmat (k : Kernel ι) (i : ι) (c : Choices) (shmid : Int32) : UInt64 × Kernel ι :=
  if c.refuseAt ∨ ¬ k.Known shmid then (shmFailed, k)
  else (c.newAddr, { k with maps := ⟨some i, c.newAddr, shmid⟩ :: k.maps })

/-- `shmctl(shmid, IPC_RMID, NULL)`. -/
def shmctl (k : Kernel ι) (c : Choices) (shmid : Int32) : Int32 × Kernel ι :=
  if c.refuseCtl ∨ ¬ k.Known shmid then (-1, k)
  else
    (0, reap { k with segs := k.segs.map fun g =>
                 if g.shmid = shmid then { g with removed := true } else g })

/-- The object has attached a segment at the address. -/
def Attached (k : Kernel ι) (i : ι) (addr : UInt64) : Prop :=
  ∃ m ∈ k.maps, m.owner = some i ∧ m.addr = addr

variable [DecidableEq ι]

instance (k : Kernel ι) (i : ι) (addr : UInt64) : Decidable (k.Attached i addr) :=
  inferInstanceAs (Decidable (∃ m ∈ _, _))

/-- `shmdt`, with `errno`. -/
def shmdt (k : Kernel ι) (i : ι) (addr : UInt64) : (Int32 × Int32) × Kernel ι :=
  if k.Attached i addr then
    ((0, 0), reap { k with maps := k.maps.filter fun m => ¬ (m.owner = some i ∧ m.addr = addr) })
  else ((-1, einval), k)

end Kernel

/-- The kernel in a call made through one object. -/
structure View (ι : Type*) where
  kern : Kernel ι
  caller : ι
  choices : Choices

variable {ι : Type*} [DecidableEq ι]

def kernelCalls : ShmCalls (View ι) where
  shmget key _ shmflg v :=
    let (shmid, k) := v.kern.shmget v.caller v.choices key shmflg
    (shmid, { v with kern := k })
  shmat shmid v :=
    let (addr, k) := v.kern.shmat v.caller v.choices shmid
    (addr, { v with kern := k })
  shmdt addr v :=
    let (ret, k) := v.kern.shmdt v.caller addr
    (ret, { v with kern := k })
  shmctl shmid v :=
    let (ret, k) := v.kern.shmctl v.choices shmid
    (ret, { v with kern := k })

/-- The objects and the kernel they share. -/
structure Sharing (ι : Type*) where
  obj : ι → ShmOperator
  kern : Kernel ι

inductive Method
  | createMemory
  | destroyMemory
  | attachMemory
  | detachMemory (pmemoryAddr : UInt64)
  deriving DecidableEq

/-- A method call on an object, with the kernel's choices in it. -/
structure MethodCall (ι : Type*) where
  who : ι
  method : Method
  choices : Choices

/-- What a call returns, `pmemoryAddr` after it, and the state it leaves. -/
structure Outcome (ι : Type*) where
  ret : Bool
  pmemoryAddr : UInt64
  next : Sharing ι

namespace Sharing

def call (s : Sharing ι) (l : MethodCall ι) : Outcome ι :=
  let v : View ι := ⟨s.kern, l.who, l.choices⟩
  match l.method with
  | .createMemory =>
    let (ret, o, v) := (s.obj l.who).createMemory kernelCalls v
    ⟨ret, null, Function.update s.obj l.who o, v.kern⟩
  | .destroyMemory =>
    let (ret, o, v) := (s.obj l.who).destroyMemory kernelCalls v
    ⟨ret, null, Function.update s.obj l.who o, v.kern⟩
  | .attachMemory =>
    let (ret, addr, o, v) := (s.obj l.who).attachMemory kernelCalls v
    ⟨ret, addr, Function.update s.obj l.who o, v.kern⟩
  | .detachMemory pmemoryAddr =>
    let (ret, o, v) := (s.obj l.who).detachMemory kernelCalls pmemoryAddr v
    ⟨ret, pmemoryAddr, Function.update s.obj l.who o, v.kern⟩

/-- A new id is that of no segment; a new address is neither `NULL` nor `(char*)-1`, and
nothing is attached there. -/
def MayChoose (s : Sharing ι) (l : MethodCall ι) : Prop :=
  (0 ≤ l.choices.newId ∧ ¬ s.kern.Known l.choices.newId) ∧
    l.choices.newAddr ≠ null ∧ l.choices.newAddr ≠ shmFailed ∧
      ¬ s.kern.Attached l.who l.choices.newAddr

instance (s : Sharing ι) (l : MethodCall ι) : Decidable (s.MayChoose l) :=
  inferInstanceAs (Decidable ((_ ∧ _) ∧ _))

def step (s : Sharing ι) (l : MethodCall ι) : Option (Sharing ι) :=
  if s.MayChoose l then some (s.call l).next else none

/-- Constructed objects with one key. Whatever segments and attachments there are
already, none came about through these objects. -/
structure Initial (key : Int32) (s : Sharing ι) : Prop where
  obj : ∀ i, ∃ size flag, s.obj i = .construct key size flag
  segs : ∀ g ∈ s.kern.segs, g.creator = none
  maps : ∀ m ∈ s.kern.maps, m.owner = none

/-- Constructed objects on a kernel without segments. -/
def fresh (key size flag : Int32) : Sharing ι := ⟨fun _ => .construct key size flag, ⟨[], []⟩⟩

omit [DecidableEq ι] in
theorem initial_fresh (key size flag : Int32) : (fresh key size flag : Sharing ι).Initial key where
  obj _ := ⟨size, flag, rfl⟩
  segs := List.forall_mem_nil _
  maps := List.forall_mem_nil _

end Sharing

/-- The objects under any sequence of calls. -/
def sharing (ι : Type*) [DecidableEq ι] (key : Int32) : Lts (Sharing ι) (MethodCall ι) where
  init := Sharing.Initial key
  step := Sharing.step

/-! ### What each call does -/

namespace Kernel

variable (k : Kernel ι) (i : ι) (c : Choices)

omit [DecidableEq ι] in
/-- `shmget` finds what is bound to the key, makes a segment where nothing is, or fails
and changes nothing. -/
theorem shmget_cases (key shmflg : Int32) :
    k.shmget i c key shmflg = (-1, k) ∨
      (∃ g, k.lookup key = some g ∧ k.shmget i c key shmflg = (g.shmid, k)) ∨
      (k.lookup key = none ∧ k.shmget i c key shmflg =
        (c.newId, { k with segs := k.segs ++ [⟨c.newId, key, some i, false⟩] })) := by
  unfold shmget
  split
  · exact .inl rfl
  · split
    next g hg =>
      split_ifs
      · exact .inl rfl
      · exact .inr (.inl ⟨g, hg, rfl⟩)
    next hn =>
      split_ifs
      · exact .inr (.inr ⟨hn, rfl⟩)
      · exact .inl rfl

omit [DecidableEq ι] in
theorem shmat_cases (shmid : Int32) :
    k.shmat i c shmid = (shmFailed, k) ∨
      (c.refuseAt = false ∧ k.Known shmid) ∧ k.shmat i c shmid =
        (c.newAddr, { k with maps := ⟨some i, c.newAddr, shmid⟩ :: k.maps }) := by
  unfold shmat
  split_ifs with h
  · exact .inl rfl
  · rw [not_or, not_not, Bool.not_eq_true] at h
    exact .inr ⟨h, rfl⟩

omit [DecidableEq ι] in
theorem shmctl_failed {shmid : Int32} (h : (k.shmctl c shmid).1 ≠ 0) :
    (k.shmctl c shmid).2 = k := by
  unfold shmctl at h ⊢
  split_ifs at h ⊢
  · rfl
  · exact absurd rfl h

theorem shmdt_ret (addr : UInt64) :
    (k.shmdt i addr).1 = (0, 0) ∨ (k.shmdt i addr).1 = (-1, einval) := by
  unfold shmdt
  split_ifs
  · exact .inl rfl
  · exact .inr rfl

end Kernel

namespace Sharing

variable {s t : Sharing ι} {i : ι} {c : Choices} {l : MethodCall ι}

theorem step_cases (h : s.step l = some t) : s.MayChoose l ∧ t = (s.call l).next := by
  unfold step at h
  split_ifs at h with hm
  exact ⟨hm, (Option.some.inj h).symm⟩

/-- One object and the kernel change. -/
def set (s : Sharing ι) (i : ι) (o : ShmOperator) (k : Kernel ι) : Sharing ι :=
  ⟨Function.update s.obj i o, k⟩

@[simp] theorem set_obj_self (o : ShmOperator) (k : Kernel ι) : (s.set i o k).obj i = o :=
  Function.update_self ..

theorem set_obj_of_ne {j : ι} (h : j ≠ i) (o : ShmOperator) (k : Kernel ι) :
    (s.set i o k).obj j = s.obj j := Function.update_of_ne h ..

/-- The `shmget` of `CreateMemory`. -/
def got (s : Sharing ι) (i : ι) (c : Choices) : Int32 × Kernel ι :=
  s.kern.shmget i c (s.obj i).key (s.obj i).flag

/-- The id `AttachMemory` uses: the object's, or else that of its `shmget`. -/
def found (s : Sharing ι) (i : ι) (c : Choices) : Int32 × Kernel ι :=
  if (s.obj i).shmid = -1 then s.kern.shmget i c (s.obj i).key shmRW
  else ((s.obj i).shmid, s.kern)

/-- The two assignments around a `shmat`. -/
def mapped (s : Sharing ι) (i : ι) (c : Choices) (r : Int32 × Kernel ι) : Sharing ι :=
  s.set i { s.obj i with shmid := r.1, memoryAddr := (r.2.shmat i c r.1).1 } (r.2.shmat i c r.1).2

/-- The kernel after the `shmdt` of `DestroyMemory`, if it comes to that. -/
def unmapped (s : Sharing ι) (i : ι) : Kernel ι :=
  if (s.obj i).memoryAddr = null then s.kern else (s.kern.shmdt i (s.obj i).memoryAddr).2

theorem call_createMemory_failed (h : (s.got i c).1 = -1) :
    s.call ⟨i, .createMemory, c⟩ =
      ⟨false, null, s.set i { s.obj i with shmid := -1 } (s.got i c).2⟩ := by
  unfold got at h ⊢
  simp [call, ShmOperator.createMemory, kernelCalls, h, set]

theorem call_createMemory (h : (s.got i c).1 ≠ -1) :
    s.call ⟨i, .createMemory, c⟩ =
      ⟨decide (((s.got i c).2.shmat i c (s.got i c).1).1 ≠ shmFailed), null,
        s.mapped i c (s.got i c)⟩ := by
  unfold mapped got at *
  simp only [call, ShmOperator.createMemory, kernelCalls, h, set, if_false]
  split_ifs with hat <;> simp [hat]

theorem call_attachMemory :
    s.call ⟨i, .attachMemory, c⟩ =
      let addr := ((s.found i c).2.shmat i c (s.found i c).1).1
      ⟨decide (addr ≠ shmFailed), if addr = shmFailed then null else addr,
        s.mapped i c (s.found i c)⟩ := by
  unfold mapped found
  by_cases hid : (s.obj i).shmid = -1
  · simp only [call, ShmOperator.attachMemory, kernelCalls, hid, set, if_true]
    split_ifs with hat <;> simp [hat]
  · simp only [call, ShmOperator.attachMemory, kernelCalls, hid, set, if_false]
    split_ifs with hat <;> simp [hat]

theorem call_destroyMemory_idle (h : (s.obj i).shmid = -1) :
    (s.call ⟨i, .destroyMemory, c⟩).next = s := by
  simp [call, ShmOperator.destroyMemory, h]

theorem call_destroyMemory_stuck (hm : (s.obj i).memoryAddr ≠ null)
    (ha : ¬ s.kern.Attached i (s.obj i).memoryAddr) :
    (s.call ⟨i, .destroyMemory, c⟩).next = s := by
  by_cases hid : (s.obj i).shmid = -1
  · exact call_destroyMemory_idle hid
  · simp [call, ShmOperator.destroyMemory, hid, hm, kernelCalls, Kernel.shmdt, ha]

theorem removeMemory_view {o : ShmOperator} (v : View ι) (hm : o.memoryAddr = null) :
    (o.removeMemory kernelCalls v).2 =
      let ctl := v.kern.shmctl v.choices o.shmid
      ({ o with shmid := if ctl.1 = 0 then -1 else o.shmid, memoryAddr := null },
        { v with kern := ctl.2 }) := by
  simp only [ShmOperator.removeMemory, kernelCalls]
  by_cases hctl : (v.kern.shmctl v.choices o.shmid).1 = 0
  · simp [hctl]
  · simp [hctl, ← hm]

theorem call_destroyMemory (hid : (s.obj i).shmid ≠ -1)
    (hm : (s.obj i).memoryAddr = null ∨ s.kern.Attached i (s.obj i).memoryAddr) :
    (s.call ⟨i, .destroyMemory, c⟩).next =
      let ctl := (s.unmapped i).shmctl c (s.obj i).shmid
      s.set i { s.obj i with shmid := if ctl.1 = 0 then -1 else (s.obj i).shmid
                             memoryAddr := null } ctl.2 := by
  unfold unmapped set
  by_cases hn : (s.obj i).memoryAddr = null
  · simp only [call, ShmOperator.destroyMemory, if_neg hid, hn, ne_eq, not_true_eq_false, if_false,
      if_true, removeMemory_view _ hn]
  · have hdt : kernelCalls.shmdt (s.obj i).memoryAddr ⟨s.kern, i, c⟩ =
        ((0, 0), ⟨(s.kern.shmdt i (s.obj i).memoryAddr).2, i, c⟩) := by
      simp only [kernelCalls, Kernel.shmdt, if_pos (hm.resolve_left hn)]
    have hnull : ({ s.obj i with memoryAddr := null } : ShmOperator).memoryAddr = null := rfl
    simp only [call, ShmOperator.destroyMemory, if_neg hid, hn, ne_eq, not_false_eq_true, if_true,
      hdt, not_true_eq_false, if_false, removeMemory_view _ hnull]

/-- A `shmdt` that fails fails with `EINVAL`, which `DetachMemory` takes for done. -/
theorem call_detachMemory_cases (addr : UInt64) :
    (s.call ⟨i, .detachMemory addr, c⟩).next = s ∨
      (s.call ⟨i, .detachMemory addr, c⟩).next =
        s.set i { s.obj i with memoryAddr := null } (s.kern.shmdt i (s.obj i).memoryAddr).2 := by
  by_cases hidle : (s.obj i).shmid = -1 ∨ (s.obj i).memoryAddr = null
  · exact .inl (by simp [call, ShmOperator.detachMemory, if_pos hidle])
  · by_cases hother : addr = (s.obj i).memoryAddr
    · refine .inr ?_
      simp only [call, ShmOperator.detachMemory, if_neg hidle, hother, ne_eq, not_true_eq_false,
        if_false, kernelCalls, set]
      rcases s.kern.shmdt_ret i (s.obj i).memoryAddr with hdt | hdt <;> simp [hdt]
    · exact .inl (by simp [call, ShmOperator.detachMemory, if_neg hidle, hother])

/-- What a call can leave behind, one case for each way through its method. -/
inductive Effect (s : Sharing ι) : MethodCall ι → Sharing ι → Prop
  | createRefused {i : ι} {c : Choices} (hget : (s.got i c).1 = -1) :
      Effect s ⟨i, .createMemory, c⟩ (s.set i { s.obj i with shmid := -1 } (s.got i c).2)
  | create {i : ι} {c : Choices} (hget : (s.got i c).1 ≠ -1) :
      Effect s ⟨i, .createMemory, c⟩ (s.mapped i c (s.got i c))
  | attach {i : ι} {c : Choices} : Effect s ⟨i, .attachMemory, c⟩ (s.mapped i c (s.found i c))
  | destroyNothing {i : ι} {c : Choices} : Effect s ⟨i, .destroyMemory, c⟩ s
  | destroy {i : ι} {c : Choices} (hid : (s.obj i).shmid ≠ -1) :
      Effect s ⟨i, .destroyMemory, c⟩
        (s.set i { s.obj i with
            shmid := if ((s.unmapped i).shmctl c (s.obj i).shmid).1 = 0 then -1 else (s.obj i).shmid
            memoryAddr := null } ((s.unmapped i).shmctl c (s.obj i).shmid).2)
  | detachNothing {i : ι} {c : Choices} (addr : UInt64) : Effect s ⟨i, .detachMemory addr, c⟩ s
  | detach {i : ι} {c : Choices} (addr : UInt64) :
      Effect s ⟨i, .detachMemory addr, c⟩
        (s.set i { s.obj i with memoryAddr := null } (s.kern.shmdt i (s.obj i).memoryAddr).2)

theorem call_effect (l : MethodCall ι) : Effect s l (s.call l).next := by
  obtain ⟨i, method, c⟩ := l
  cases method with
  | createMemory =>
    by_cases hget : (s.got i c).1 = -1
    · rw [call_createMemory_failed hget]
      exact .createRefused hget
    · rw [call_createMemory hget]
      exact .create hget
  | attachMemory =>
    rw [call_attachMemory]
    exact .attach
  | destroyMemory =>
    by_cases hid : (s.obj i).shmid = -1
    · rw [call_destroyMemory_idle hid]
      exact .destroyNothing
    · by_cases hm : (s.obj i).memoryAddr = null ∨ s.kern.Attached i (s.obj i).memoryAddr
      · rw [call_destroyMemory hid hm]
        exact .destroy hid
      · obtain ⟨hn, ha⟩ := not_or.mp hm
        rw [call_destroyMemory_stuck hn ha]
        exact .destroyNothing
  | detachMemory addr =>
    rcases s.call_detachMemory_cases (i := i) (c := c) addr with h | h
    · rw [h]
      exact .detachNothing addr
    · rw [h]
      exact .detach addr

/-- A step is the effect of a call the kernel's choices allow. -/
theorem step_effect (h : s.step l = some t) : Effect s l t := by
  rw [(step_cases h).2]
  exact call_effect l

end Sharing
end BaseCom.Shm
