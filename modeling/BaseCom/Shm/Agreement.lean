import BaseCom.Shm.Segments

/-! Whether the objects of one key agree on the segment. An object keeps the id it has
once found, also when it detaches. Another object may meanwhile remove the segment and
make a new one under the key; the first then attaches the old segment, if it lives on,
or fails, and nothing in it ever asks for the key again. -/

namespace BaseCom.Shm

open Transition

variable {ι : Type*}

namespace Kernel

variable {k : Kernel ι} {key shmflg id : Int32} {g : Segment ι} {i : ι} {c : Choices}

/-- No id, or the one bound to the key. -/
def Holds (k : Kernel ι) (key id : Int32) : Prop :=
  id = -1 ∨ ∃ g, k.lookup key = some g ∧ g.shmid = id

theorem known_of_lookup (h : k.lookup key = some g) : k.Known g.shmid := by
  unfold lookup at h
  split_ifs at h
  exact ⟨g, List.mem_of_find?_eq_some h, rfl⟩

theorem lookup_reap : k.reap.lookup key = k.lookup key := by
  unfold lookup
  split_ifs
  · rfl
  · rw [reap, List.find?_filter]
    congr 1
    funext g
    cases g.removed <;> simp

theorem lookup_shmat (shmid : Int32) : (k.shmat i c shmid).2.lookup key = k.lookup key := by
  rcases k.shmat_cases i c shmid with h | ⟨-, h⟩
  · rw [h]
  · rw [h]
    rfl

theorem lookup_shmdt [DecidableEq ι] (addr : UInt64) :
    (k.shmdt i addr).2.lookup key = k.lookup key := by
  unfold shmdt
  split_ifs
  · rw [lookup_reap]
    rfl
  · rfl

theorem Holds.congr {k' : Kernel ι} (hk : k'.lookup key = k.lookup key) :
    k'.Holds key id ↔ k.Holds key id := by
  unfold Holds
  rw [hk]

/-- `shmget` returns -1 or the bound id, and takes from nobody the id it holds. -/
theorem holds_shmget (hkey : key ≠ ipcPrivate) :
    (k.shmget i c key shmflg).2.Holds key (k.shmget i c key shmflg).1 ∧
      ∀ id, k.Holds key id → (k.shmget i c key shmflg).2.Holds key id := by
  rcases k.shmget_cases i c key shmflg with h | ⟨g, hg, h⟩ | ⟨hn, h⟩
  · rw [h]
    exact ⟨.inl rfl, fun _ => id⟩
  · rw [h]
    exact ⟨.inr ⟨g, hg, rfl⟩, fun _ => id⟩
  · have hnew : (k.shmget i c key shmflg).2.lookup key = some ⟨c.newId, key, some i, false⟩ := by
      rw [h]
      unfold lookup at hn ⊢
      rw [if_neg hkey] at hn ⊢
      rw [List.find?_append, hn]
      simp
    rw [Holds, hnew, h]
    refine ⟨.inr ⟨_, rfl, rfl⟩, fun id hid => ?_⟩
    rcases hid with rfl | ⟨g, hg, -⟩
    · exact .inl rfl
    · rw [hn] at hg
      cases hg

/-- `shmget` without `IPC_CREAT`, permitted, on a bound key. -/
theorem shmget_bound (hg : k.lookup key = some g) (hc : c.refuseGet = false) :
    k.shmget i c key shmRW = (g.shmid, k) := by
  have hflg : shmRW &&& ipcCreat = 0 := by decide
  simp [shmget, hc, hg, hflg]

theorem shmat_known (h : k.Known id) (hc : c.refuseAt = false) :
    k.shmat i c id = (c.newAddr, { k with maps := ⟨some i, c.newAddr, id⟩ :: k.maps }) := by
  simp [shmat, hc, h]

/-- A permitted `shmat` gives an address of the segment if and only if it is given its id. -/
theorem shmat_current_iff (hg : k.Known g.shmid) (hat : c.refuseAt = false)
    (hnew : c.newAddr ≠ shmFailed) (hfree : ¬ k.Attached i c.newAddr) (id : Int32) :
    (k.shmat i c id).1 ≠ shmFailed ∧
        ⟨some i, (k.shmat i c id).1, g.shmid⟩ ∈ (k.shmat i c id).2.maps ↔ id = g.shmid := by
  constructor
  · rintro ⟨hne, hm⟩
    rcases k.shmat_cases i c id with h | ⟨-, h⟩
    · rw [h] at hne
      exact absurd rfl hne
    · rw [h, List.mem_cons] at hm
      rcases hm with he | hm
      · exact (Attachment.mk.inj he).2.2.symm
      · exact absurd ⟨_, hm, rfl, rfl⟩ hfree
  · rintro rfl
    rw [shmat_known hg hat]
    exact ⟨hnew, List.mem_cons_self⟩

end Kernel

namespace Sharing

variable [DecidableEq ι] {key : Int32} {s t : Sharing ι} {i : ι} {c : Choices} {l : MethodCall ι}

/-- A permitted `AttachMemory` on a bound key succeeds, and `pmemoryAddr` is attached to
the bound segment. -/
def AttachesCurrent (key : Int32) (s : Sharing ι) (l : MethodCall ι) : Prop :=
  l.method = .attachMemory → l.choices.refuseGet = false → l.choices.refuseAt = false →
    ∀ g, s.kern.lookup key = some g →
      (s.call l).ret = true ∧
        ⟨some l.who, (s.call l).pmemoryAddr, g.shmid⟩ ∈ (s.call l).next.kern.maps

/-- The object has no id or that of the bound segment. -/
def HoldsCurrent (key : Int32) (s : Sharing ι) (l : MethodCall ι) : Prop :=
  l.method = .attachMemory → l.choices.refuseGet = false → l.choices.refuseAt = false →
    ∀ g, s.kern.lookup key = some g → (s.obj l.who).shmid = -1 ∨ (s.obj l.who).shmid = g.shmid

/-- `DestroyMemory` is called on an object with an id only if no other object has that id. -/
def RemovesAlone (s : Sharing ι) (l : MethodCall ι) : Prop :=
  l.method = .destroyMemory →
    ∀ j, j ≠ l.who → (s.obj j).shmid = (s.obj l.who).shmid → (s.obj l.who).shmid = -1

/-- The objects agree with the kernel on the segment of the key. -/
def Agrees (key : Int32) (s : Sharing ι) : Prop :=
  key ≠ ipcPrivate → ∀ i, s.kern.Holds key (s.obj i).shmid

omit [DecidableEq ι] in
theorem Initial.keys (hi : s.Initial key) (i : ι) : (s.obj i).key = key := by
  obtain ⟨size, flag, ho⟩ := hi.obj i
  rw [ho]
  rfl

omit [DecidableEq ι] in
theorem Initial.agrees (hi : s.Initial key) : s.Agrees key := by
  intro _ i
  obtain ⟨size, flag, ho⟩ := hi.obj i
  exact .inl (by rw [ho]; rfl)

/-! ### One call -/

omit [DecidableEq ι] in
theorem found_of_lookup (hk : (s.obj i).key = key) {g : Segment ι} (hg : s.kern.lookup key = some g)
    (hget : c.refuseGet = false) :
    s.found i c = (if (s.obj i).shmid = -1 then g.shmid else (s.obj i).shmid, s.kern) := by
  unfold found
  split_ifs with hid
  · rw [hk, Kernel.shmget_bound hg hget]
  · rfl

/-- `AttachMemory` attaches the current segment exactly if the object holds it or no other. -/
theorem attachesCurrent_iff (hk : (s.obj l.who).key = key) (hm : s.MayChoose l) :
    s.AttachesCurrent key l ↔ s.HoldsCurrent key l := by
  have hnew : l.choices.newAddr ≠ shmFailed := hm.2.2.1
  have hfree : ¬ s.kern.Attached l.who l.choices.newAddr := hm.2.2.2
  obtain ⟨i, method, c⟩ := l
  unfold AttachesCurrent HoldsCurrent
  refine imp_congr_right fun hmethod => imp_congr_right fun hget => imp_congr_right fun hat =>
    forall_congr' fun g => imp_congr_right fun hg => ?_
  subst hmethod
  rw [call_attachMemory, found_of_lookup hk hg hget]
  have hiff := Kernel.shmat_current_iff (Kernel.known_of_lookup hg) hat hnew hfree
    (if (s.obj i).shmid = -1 then g.shmid else (s.obj i).shmid)
  constructor
  · rintro ⟨hret, hin⟩
    have hne := of_decide_eq_true hret
    simp only [if_neg hne] at hin
    have he := hiff.mp ⟨hne, hin⟩
    split_ifs at he with hid
    · exact .inl hid
    · exact .inr he
  · intro hid
    have he : (if (s.obj i).shmid = -1 then g.shmid else (s.obj i).shmid) = g.shmid := by
      split_ifs with hnone
      · rfl
      · exact hid.resolve_left hnone
    obtain ⟨hne, hin⟩ := hiff.mpr he
    refine ⟨decide_eq_true hne, ?_⟩
    simp only [if_neg hne]
    exact hin

theorem set_key {o : ShmOperator} (k : Kernel ι) (ho : o.key = (s.obj i).key) (j : ι) :
    ((s.set i o k).obj j).key = (s.obj j).key := by
  by_cases hj : j = i
  · subst hj
    rw [set_obj_self, ho]
  · rw [set_obj_of_ne hj]

/-- No call changes a key. -/
theorem Effect.key_eq (he : Effect s l t) (j : ι) : (t.obj j).key = (s.obj j).key := by
  cases he with
  | destroyNothing | detachNothing _ => rfl
  | createRefused _ | create _ | attach | destroy _ | detach _ =>
    apply set_key
    rfl

/-- One object changes to an id the kernel has for it, and the others keep theirs. -/
theorem Agrees.set {o : ShmOperator} {k : Kernel ι} (hid : key ≠ ipcPrivate → k.Holds key o.shmid)
    (hk : key ≠ ipcPrivate → ∀ j, j ≠ i → k.Holds key (s.obj j).shmid) :
    (s.set i o k).Agrees key := by
  intro hkey j
  by_cases hj : j = i
  · subst hj
    rw [set_obj_self]
    exact hid hkey
  · rw [set_obj_of_ne hj]
    exact hk hkey j hj

/-- Around a `shmat` with an id the kernel has for the key. -/
theorem Agrees.mapped (ha : s.Agrees key) {r : Int32 × Kernel ι}
    (hr : key ≠ ipcPrivate → r.2.Holds key r.1 ∧ ∀ id, s.kern.Holds key id → r.2.Holds key id) :
    (s.mapped i c r).Agrees key :=
  Agrees.set (fun hkey => (Kernel.Holds.congr (Kernel.lookup_shmat _)).mpr (hr hkey).1)
    fun hkey j _ => (Kernel.Holds.congr (Kernel.lookup_shmat _)).mpr ((hr hkey).2 _ (ha hkey j))

theorem lookup_unmapped : (s.unmapped i).lookup key = s.kern.lookup key := by
  unfold unmapped
  split_ifs
  · rfl
  · exact Kernel.lookup_shmdt _

/-- Removing the segment unbinds the key; the other objects have no id then. -/
theorem Agrees.removed (ha : s.Agrees key) (hid : (s.obj i).shmid ≠ -1)
    (hr : s.RemovesAlone ⟨i, .destroyMemory, c⟩) {o : ShmOperator}
    (ho : o.shmid = if ((s.unmapped i).shmctl c (s.obj i).shmid).1 = 0 then -1
      else (s.obj i).shmid) :
    (s.set i o ((s.unmapped i).shmctl c (s.obj i).shmid).2).Agrees key := by
  have hk : ∀ j, key ≠ ipcPrivate → (s.unmapped i).Holds key (s.obj j).shmid :=
    fun j hkey => (Kernel.Holds.congr lookup_unmapped).mpr (ha hkey j)
  have halone : ∀ j, j ≠ i → key ≠ ipcPrivate → (s.obj j).shmid = -1 := by
    intro j hj hkey
    rcases ha hkey j with hnone | ⟨g, hg, hjd⟩
    · exact hnone
    · obtain ⟨g', hg', hid'⟩ := (ha hkey i).resolve_left hid
      rw [hg] at hg'
      obtain rfl := Option.some.inj hg'
      exact absurd (hr rfl j hj (hjd.symm.trans hid')) hid
  by_cases hctl : ((s.unmapped i).shmctl c (s.obj i).shmid).1 = 0
  · rw [if_pos hctl] at ho
    exact Agrees.set (fun _ => .inl ho) fun hkey j hj => .inl (halone j hj hkey)
  · rw [if_neg hctl] at ho
    rw [Kernel.shmctl_failed _ _ hctl]
    exact Agrees.set (fun hkey => ho ▸ hk i hkey) fun hkey j _ => hk j hkey

theorem Agrees.step (ha : s.Agrees key) (hk : ∀ i, (s.obj i).key = key) (hr : s.RemovesAlone l)
    (he : Effect s l t) : t.Agrees key := by
  have hgot : ∀ i c, key ≠ ipcPrivate → (s.got i c).2.Holds key (s.got i c).1 ∧
      ∀ id, s.kern.Holds key id → (s.got i c).2.Holds key id := by
    intro i c hkey
    unfold got
    rw [hk]
    exact Kernel.holds_shmget hkey
  have hdt : ∀ i addr id, (s.kern.shmdt i addr).2.Holds key id ↔ s.kern.Holds key id :=
    fun _ _ _ => Kernel.Holds.congr (Kernel.lookup_shmdt _)
  cases he with
  | createRefused _ =>
    exact Agrees.set (fun _ => .inl rfl) fun hkey j _ => (hgot _ _ hkey).2 _ (ha hkey j)
  | create _ => exact ha.mapped (hgot _ _)
  | attach =>
    refine ha.mapped fun hkey => ?_
    unfold found
    split_ifs
    · rw [hk]
      exact Kernel.holds_shmget hkey
    · exact ⟨ha hkey _, fun _ => id⟩
  | destroyNothing | detachNothing _ => exact ha
  | destroy hid => exact ha.removed hid hr rfl
  | detach _ =>
    exact Agrees.set (fun hkey => (hdt _ _ _).mpr (ha hkey _))
      fun hkey j _ => (hdt _ _ _).mpr (ha hkey j)

omit [DecidableEq ι] in
/-- Where the objects agree with the kernel, an id is the current one. -/
theorem Agrees.holdsCurrent (ha : s.Agrees key) (l : MethodCall ι) : s.HoldsCurrent key l := by
  intro _ _ _ g hg
  have hkey : key ≠ ipcPrivate := by
    rintro rfl
    simp [Kernel.lookup] at hg
  refine (ha hkey l.who).imp_right ?_
  rintro ⟨g', hg', hid⟩
  rw [hg] at hg'
  obtain rfl := Option.some.inj hg'
  exact hid.symm

end Sharing

/-- Along every run, each `AttachMemory` on a bound key attaches the segment bound now if
and only if its object has no id or that segment's; and so it is as long as an id is
destroyed only by the last object that has it. -/
theorem attach_current_iff [DecidableEq ι] {key : Int32} {s₀ s : Sharing ι}
    {tr : List (Sharing ι × MethodCall ι)} (hi : s₀.Initial key)
    (hr : Run (sharing ι key) s₀ tr s) :
    (Always (Sharing.AttachesCurrent key) tr ↔ Always (Sharing.HoldsCurrent key) tr) ∧
      (Always Sharing.RemovesAlone tr → Always (Sharing.AttachesCurrent key) tr) := by
  have hkeys : ∀ u l v, (∀ i, (u.obj i).key = key) → (sharing ι key).step u l = some v →
      ∀ i, (v.obj i).key = key := by
    intro u l v hu hk i
    rw [(Sharing.step_effect hk).key_eq, hu i]
  have hiff : Always (Sharing.AttachesCurrent key) tr ↔ Always (Sharing.HoldsCurrent key) tr := by
    refine hr.always_congr (fun u l v hu hk => ?_) (fun u l v hu _ hk => hkeys u l v hu hk) hi.keys
    exact Sharing.attachesCurrent_iff (hu l.who) (Sharing.step_cases hk).1
  refine ⟨hiff, fun halone => hiff.mpr ?_⟩
  have hstep : ∀ u l v, (∀ i, (u.obj i).key = key) ∧ u.Agrees key → u.RemovesAlone l →
      (sharing ι key).step u l = some v → (∀ i, (v.obj i).key = key) ∧ v.Agrees key := by
    intro u l v hu hg hk
    exact ⟨hkeys u l v hu.1 hk, hu.2.step hu.1 hg (Sharing.step_effect hk)⟩
  have hall := (hr.along_of_always hstep ⟨hi.keys, hi.agrees⟩ halone).1
  exact fun p hp => (hall p hp).2.holdsCurrent p.2

/-- One object makes the segment, the other attaches it. -/
def makeAndAttach : List (MethodCall Bool) := [
  ⟨false, .createMemory, ⟨false, false, false, 7, 4096⟩⟩,
  ⟨true, .attachMemory, ⟨false, false, false, 8, 8192⟩⟩]

theorem attach_current_made_by_other : ∃ s tr,
    Run (sharing Bool 1234) (.fresh 1234 100 950) tr s ∧
      ⟨some true, 8192, 7⟩ ∈ s.kern.maps ∧ Always (Sharing.AttachesCurrent 1234) tr := by
  have halone : Always Sharing.RemovesAlone
      (trace (sharing Bool 1234) (.fresh 1234 100 950) makeAndAttach) := by
    simp only [Always, Sharing.RemovesAlone]
    decide +kernel
  obtain ⟨s, hr, hm⟩ := exists_run_of_exec (S := sharing Bool 1234) (.fresh 1234 100 950)
    makeAndAttach (P := fun s => ⟨some true, 8192, 7⟩ ∈ s.kern.maps) (by decide +kernel)
  exact ⟨s, _, hr, hm, (attach_current_iff (Sharing.initial_fresh 1234 100 950) hr).2 halone⟩

/-- One object attaches and detaches, the other destroys the segment and makes it anew:
the first can not attach any more. -/
theorem attach_fails_after_recreation : ¬ ∀ (s : Sharing Bool) (l : MethodCall Bool),
    Reachable (sharing Bool 1234) s → s.MayChoose l → s.AttachesCurrent 1234 l := by
  intro hall
  let again : MethodCall Bool := ⟨true, .attachMemory, ⟨false, false, false, 10, 8192⟩⟩
  obtain ⟨s, hr, hm, hg, hret⟩ := exists_reachable_of_exec (S := sharing Bool 1234)
    (Sharing.initial_fresh 1234 100 950) (makeAndAttach ++ [
      ⟨true, .detachMemory 8192, ⟨false, false, false, 8, 12288⟩⟩,
      ⟨false, .destroyMemory, ⟨false, false, false, 8, 12288⟩⟩,
      ⟨false, .createMemory, ⟨false, false, false, 9, 4096⟩⟩])
    (P := fun s => s.MayChoose again ∧ (s.kern.lookup 1234).isSome ∧ (s.call again).ret = false)
    (by decide +kernel)
  obtain ⟨g, hg⟩ := Option.isSome_iff_exists.mp hg
  have hok := (hall s again hr hm rfl rfl rfl g hg).1
  rw [hret] at hok
  cases hok

end BaseCom.Shm
