import BaseCom.Shm.Failure

/-! Attachments that nothing detaches any more. An object detaches only the address in its
field, and only while it has a segment id. What it has attached otherwise stays for good, and
so does the segment, also after a `DestroyMemory` that returned true. The destructor is a
`DetachMemory` of the address in the field. -/

namespace BaseCom.Shm

open Transition

variable {ι : Type*} [DecidableEq ι]

/-- Constructed objects with keys of their own, under any sequence of calls. -/
def objects (ι : Type*) [DecidableEq ι] : Lts (Sharing ι) (MethodCall ι) where
  init s := (∀ i, ∃ key size flag, s.obj i = .construct key size flag) ∧
    ∀ m ∈ s.kern.maps, m.owner = none
  step := Sharing.step

namespace Kernel

variable {k : Kernel ι} {i : ι} {c : Choices} {m : Attachment ι}

/-- What is attached through an object is at a proper address, and its segment exists. -/
def Backed (k : Kernel ι) : Prop :=
  ∀ m ∈ k.maps, m.owner ≠ none → m.addr ≠ null ∧ m.addr ≠ shmFailed ∧ k.Known m.shmid

omit [DecidableEq ι] in
theorem Known.reap {shmid : Int32} (h : k.Known shmid) (hm : ∃ m ∈ k.maps, m.shmid = shmid) :
    k.reap.Known shmid := by
  obtain ⟨g, hg, rfl⟩ := h
  refine ⟨g, List.mem_filter.mpr ⟨hg, ?_⟩, rfl⟩
  rw [decide_eq_true hm, Bool.or_true]

omit [DecidableEq ι] in
theorem Backed.shmget (h : k.Backed) (key shmflg : Int32) :
    (k.shmget i c key shmflg).2.Backed := by
  rcases k.shmget_cases i c key shmflg with he | ⟨g, -, he⟩ | ⟨-, he⟩
  · rw [he]
    exact h
  · rw [he]
    exact h
  · rw [he]
    intro m hm ho
    obtain ⟨hnull, hfailed, g, hg, hid⟩ := h m hm ho
    exact ⟨hnull, hfailed, g, List.mem_append_left _ hg, hid⟩

omit [DecidableEq ι] in
theorem Backed.shmat (h : k.Backed) (hnew : c.newAddr ≠ null ∧ c.newAddr ≠ shmFailed)
    (shmid : Int32) : (k.shmat i c shmid).2.Backed := by
  rcases k.shmat_cases i c shmid with he | ⟨⟨-, hknown⟩, he⟩
  · rw [he]
    exact h
  · rw [he]
    refine List.forall_mem_cons.mpr ⟨fun _ => ⟨hnew.1, hnew.2, hknown⟩, fun m hm => h m hm⟩

theorem Backed.shmdt (h : k.Backed) (addr : UInt64) : (k.shmdt i addr).2.Backed := by
  unfold Kernel.shmdt
  split_ifs
  · intro m hm ho
    obtain ⟨hnull, hfailed, hknown⟩ := h m (List.mem_of_mem_filter hm) ho
    exact ⟨hnull, hfailed, Known.reap (k := ⟨k.segs, _⟩) hknown ⟨m, hm, rfl⟩⟩
  · exact h

omit [DecidableEq ι] in
theorem Backed.shmctl (h : k.Backed) (shmid : Int32) : (k.shmctl c shmid).2.Backed := by
  unfold Kernel.shmctl
  split_ifs
  · exact h
  · intro m hm ho
    obtain ⟨hnull, hfailed, g, hg, hid⟩ := h m hm ho
    refine ⟨hnull, hfailed, Known.reap (k := ⟨_, k.maps⟩) ⟨_, List.mem_map_of_mem hg, ?_⟩
      ⟨m, hm, rfl⟩⟩
    rw [← hid]
    split_ifs <;> rfl

theorem mem_shmdt {addr : UInt64} (hm : m ∈ k.maps) (hne : ¬ (m.owner = some i ∧ m.addr = addr)) :
    m ∈ (k.shmdt i addr).2.maps := by
  unfold Kernel.shmdt
  split_ifs
  · exact List.mem_filter.mpr ⟨hm, decide_eq_true hne⟩
  · exact hm

omit [DecidableEq ι] in
theorem mem_shmat {shmid : Int32} (hm : m ∈ k.maps) : m ∈ (k.shmat i c shmid).2.maps := by
  rcases k.shmat_cases i c shmid with h | ⟨-, h⟩
  · rwa [h]
  · rw [h]
    exact List.mem_cons_of_mem _ hm

end Kernel

namespace Sharing

variable {s t : Sharing ι} {i : ι} {c : Choices} {l : MethodCall ι} {m : Attachment ι}

/-- The object of an attachment can detach it. -/
def CanDetach (s : Sharing ι) (i : ι) (m : Attachment ι) : Prop :=
  (s.obj i).memoryAddr = m.addr ∧ (s.obj i).shmid ≠ -1

theorem call_detachMemory_idle (h : (s.obj i).shmid = -1) (addr : UInt64) :
    (s.call ⟨i, .detachMemory addr, c⟩).next = s := by
  simp [call, ShmOperator.detachMemory, h]

/-- `DetachMemory` with the address, on an object that can. -/
theorem CanDetach.detachMemory (h : s.CanDetach i m) (hm : m ∈ s.kern.maps)
    (ho : m.owner = some i) (hnull : m.addr ≠ null) (c : Choices) :
    m ∉ (s.call ⟨i, .detachMemory m.addr, c⟩).next.kern.maps := by
  obtain ⟨haddr, hid⟩ := h
  have hat : s.kern.Attached i m.addr := ⟨m, hm, ho, rfl⟩
  have hnext : (s.call ⟨i, .detachMemory m.addr, c⟩).next.kern = (s.kern.shmdt i m.addr).2 := by
    simp [call, ShmOperator.detachMemory, haddr, hid, hnull, kernelCalls, Kernel.shmdt, hat]
  rw [hnext, Kernel.shmdt, if_pos hat]
  intro hin
  exact of_decide_eq_true (List.mem_filter.mp hin).2 ⟨ho, rfl⟩

theorem backed_step (hb : s.kern.Backed) (hk : s.step l = some t) : t.kern.Backed := by
  obtain ⟨-, hnull, hfailed, -⟩ := (step_cases hk).1
  have hnew := And.intro hnull hfailed
  cases step_effect hk with
  | createRefused _ => exact hb.shmget _ _
  | create _ => exact (hb.shmget _ _).shmat hnew _
  | attach =>
    refine Kernel.Backed.shmat ?_ hnew _
    unfold found
    split_ifs
    · exact hb.shmget _ _
    · exact hb
  | destroyNothing | detachNothing _ => exact hb
  | destroy _ =>
    refine Kernel.Backed.shmctl ?_ _
    unfold unmapped
    split_ifs
    · exact hb
    · exact hb.shmdt _
  | detach _ => exact hb.shmdt _

/-- Around a `shmat` no attachment of the object is in its field that was there before. -/
theorem stuck_mapped {r : Int32 × Kernel ι} (hr : r.2.maps = s.kern.maps) (hm : m ∈ s.kern.maps)
    (ho : m.owner = some i) (hfailed : m.addr ≠ shmFailed)
    (hfree : ¬ s.kern.Attached i c.newAddr) :
    m ∈ (s.mapped i c r).kern.maps ∧ ¬ (s.mapped i c r).CanDetach i m := by
  unfold mapped CanDetach
  rw [set_obj_self]
  rcases r.2.shmat_cases i c r.1 with h | ⟨-, h⟩
  · rw [h]
    refine ⟨?_, fun hc => hfailed hc.1.symm⟩
    show m ∈ r.2.maps
    rwa [hr]
  · rw [h]
    refine ⟨List.mem_cons_of_mem _ ?_, fun hc => hfree ⟨m, hm, ho, hc.1.symm⟩⟩
    rwa [hr]

/-- What empties the field of an object that can not detach the attachment. -/
theorem stuck_emptied {k : Kernel ι} {shmid : Int32} (hm : m ∈ k.maps) (hnull : m.addr ≠ null) :
    let t := s.set i { s.obj i with shmid := shmid, memoryAddr := null } k
    m ∈ t.kern.maps ∧ ¬ t.CanDetach i m := by
  refine ⟨hm, fun hc => ?_⟩
  rw [CanDetach, set_obj_self] at hc
  exact hnull hc.1.symm

theorem stuck_destroyMemory (hm : m ∈ s.kern.maps) (hnull : m.addr ≠ null)
    (hstuck : ¬ s.CanDetach i m) :
    let t := (s.call ⟨i, .destroyMemory, c⟩).next
    m ∈ t.kern.maps ∧ ¬ t.CanDetach i m := by
  by_cases hid : (s.obj i).shmid = -1
  · rw [call_destroyMemory_idle hid]
    exact ⟨hm, hstuck⟩
  by_cases hlive : (s.obj i).memoryAddr = null ∨ s.kern.Attached i (s.obj i).memoryAddr
  · have hne : (s.obj i).memoryAddr ≠ m.addr := fun he => hstuck ⟨he, hid⟩
    have hun : m ∈ (s.unmapped i).maps := by
      unfold unmapped
      split_ifs
      · exact hm
      · exact Kernel.mem_shmdt hm fun hh => hne hh.2.symm
    rw [call_destroyMemory hid hlive]
    refine stuck_emptied ?_ hnull
    rwa [Kernel.maps_shmctl]
  · obtain ⟨hn, ha⟩ := not_or.mp hlive
    rw [call_destroyMemory_stuck hn ha]
    exact ⟨hm, hstuck⟩

theorem stuck_detachMemory (hm : m ∈ s.kern.maps) (hnull : m.addr ≠ null)
    (hstuck : ¬ s.CanDetach i m) (addr : UInt64) :
    let t := (s.call ⟨i, .detachMemory addr, c⟩).next
    m ∈ t.kern.maps ∧ ¬ t.CanDetach i m := by
  by_cases hid : (s.obj i).shmid = -1
  · rw [call_detachMemory_idle hid]
    exact ⟨hm, hstuck⟩
  have hne : (s.obj i).memoryAddr ≠ m.addr := fun he => hstuck ⟨he, hid⟩
  rcases s.call_detachMemory_cases (i := i) (c := c) addr with h | h
  · rw [h]
    exact ⟨hm, hstuck⟩
  · rw [h]
    exact stuck_emptied (Kernel.mem_shmdt hm fun hh => hne hh.2.symm) hnull

theorem stuck_own (hm : m ∈ s.kern.maps) (ho : m.owner = some i)
    (haddr : m.addr ≠ null ∧ m.addr ≠ shmFailed) (hstuck : ¬ s.CanDetach i m)
    (hfree : ¬ s.kern.Attached i c.newAddr) (method : Method) :
    let t := (s.call ⟨i, method, c⟩).next
    m ∈ t.kern.maps ∧ ¬ t.CanDetach i m := by
  cases method with
  | createMemory =>
    by_cases hget : (s.got i c).1 = -1
    · rw [call_createMemory_failed hget]
      refine ⟨?_, fun hc => ?_⟩
      · show m ∈ (s.got i c).2.maps
        rwa [maps_got]
      · rw [CanDetach, set_obj_self] at hc
        exact hc.2 rfl
    · rw [call_createMemory hget]
      exact stuck_mapped maps_got hm ho haddr.2 hfree
  | attachMemory =>
    rw [call_attachMemory]
    exact stuck_mapped maps_found hm ho haddr.2 hfree
  | destroyMemory => exact stuck_destroyMemory hm haddr.1 hstuck
  | detachMemory addr => exact stuck_detachMemory hm haddr.1 hstuck addr

/-- A call on another object touches neither the object nor the attachment. -/
theorem Effect.other (he : Effect s l t) (hi : i ≠ l.who) (hm : m ∈ s.kern.maps)
    (ho : m.owner = some i) : m ∈ t.kern.maps ∧ t.obj i = s.obj i := by
  have hdt : ∀ j addr, i ≠ j → m ∈ (s.kern.shmdt j addr).2.maps := by
    intro j addr hj
    refine Kernel.mem_shmdt hm fun hh => hj ?_
    exact Option.some.inj (ho.symm.trans hh.1)
  cases he with
  | createRefused _ =>
    refine ⟨?_, set_obj_of_ne hi ..⟩
    show m ∈ (s.got _ _).2.maps
    rwa [maps_got]
  | create _ =>
    refine ⟨Kernel.mem_shmat ?_, set_obj_of_ne hi ..⟩
    rwa [maps_got]
  | attach =>
    refine ⟨Kernel.mem_shmat ?_, set_obj_of_ne hi ..⟩
    rwa [maps_found]
  | destroyNothing | detachNothing _ => exact ⟨hm, rfl⟩
  | destroy _ =>
    refine ⟨?_, set_obj_of_ne hi ..⟩
    show m ∈ ((s.unmapped _).shmctl _ _).2.maps
    rw [Kernel.maps_shmctl]
    unfold unmapped
    split_ifs
    · exact hm
    · exact hdt _ _ hi
  | detach _ => exact ⟨hdt _ _ hi, set_obj_of_ne hi ..⟩

/-- An attachment its object can not detach stays so, whatever is called. -/
theorem stuck_step (hb : s.kern.Backed) (hm : m ∈ s.kern.maps) (ho : m.owner = some i)
    (hstuck : ¬ s.CanDetach i m) (hk : s.step l = some t) :
    m ∈ t.kern.maps ∧ ¬ t.CanDetach i m := by
  by_cases hi : i = l.who
  · obtain ⟨hnull, hfailed, -⟩ := hb m hm (by simp [ho])
    obtain ⟨⟨-, -, -, hfree⟩, hcall⟩ := step_cases hk
    subst hi
    rw [hcall]
    exact stuck_own hm ho ⟨hnull, hfailed⟩ hstuck hfree l.method
  · obtain ⟨hm', hobj⟩ := (step_effect hk).other hi hm ho
    refine ⟨hm', ?_⟩
    unfold CanDetach
    rwa [hobj]

end Sharing

/-- An attachment that an object has in its field, with a segment id, is detached by a
`DetachMemory` of it. Any other is never detached, whatever is called on whatever object, and
its segment is there for good. -/
theorem detached_or_stuck {s : Sharing ι} (hs : Reachable (objects ι) s) {i : ι}
    {m : Attachment ι} (hm : m ∈ s.kern.maps) (ho : m.owner = some i) :
    (s.CanDetach i m → ∀ c, m ∉ (s.call ⟨i, .detachMemory m.addr, c⟩).next.kern.maps) ∧
      (¬ s.CanDetach i m → ∀ t tr, Run (objects ι) s tr t →
        m ∈ t.kern.maps ∧ t.kern.Known m.shmid) := by
  have hown : m.owner ≠ none := by simp [ho]
  have hinit : ∀ u, (objects ι).init u → u.kern.Backed :=
    fun u hu m hm ho => absurd (hu.2 m hm) ho
  have hkeep : ∀ u l v, u.kern.Backed → (objects ι).step u l = some v → v.kern.Backed :=
    fun _ _ _ hu hk => Sharing.backed_step hu hk
  have hb : s.kern.Backed := hs.invariant hinit hkeep
  refine ⟨fun hc c => hc.detachMemory hm ho (hb m hm hown).1 c, fun hstuck t tr hr => ?_⟩
  have hstep : ∀ u l v, u.kern.Backed ∧ m ∈ u.kern.maps ∧ ¬ u.CanDetach i m →
      (objects ι).step u l = some v → v.kern.Backed ∧ m ∈ v.kern.maps ∧ ¬ v.CanDetach i m :=
    fun u l v hu hk => ⟨hkeep u l v hu.1 hk, Sharing.stuck_step hu.1 hu.2.1 ho hu.2.2 hk⟩
  obtain ⟨hb', hm', -⟩ := hr.invariant hstep ⟨hb, hm, hstuck⟩
  exact ⟨hm', (hb' m hm' hown).2.2⟩

/-- An object makes its segment and attaches it once more, and destroys it. -/
def attachedTwice : List (MethodCall Unit) := [
  ⟨(), .createMemory, ⟨false, false, false, 7, 4096⟩⟩,
  ⟨(), .attachMemory, ⟨false, false, false, 8, 8192⟩⟩]

/-- `DestroyMemory` returns true, and the segment stays. -/
theorem detached_or_stuck_attached_twice : ∃ s, Reachable (objects Unit) s ∧
    (s.call ⟨(), .destroyMemory, ⟨false, false, false, 8, 12288⟩⟩).ret = true ∧
    ∀ t tr, Run (objects Unit) s tr t → t.kern.Known 7 := by
  obtain ⟨s, hs, hm, hc, hret⟩ := exists_reachable_of_exec (S := objects Unit)
    (s := .fresh 1234 100 950) ⟨fun _ => ⟨1234, 100, 950, rfl⟩, List.forall_mem_nil _⟩ attachedTwice
    (P := fun s => ⟨some (), 4096, 7⟩ ∈ s.kern.maps ∧ (s.obj ()).memoryAddr ≠ 4096 ∧
      (s.call ⟨(), .destroyMemory, ⟨false, false, false, 8, 12288⟩⟩).ret = true)
    (by decide +kernel)
  refine ⟨s, hs, hret, fun t tr hr => ?_⟩
  exact ((detached_or_stuck hs hm rfl).2 (fun hh => hc hh.1) t tr hr).2

end BaseCom.Shm
