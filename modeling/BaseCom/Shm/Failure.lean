import BaseCom.Shm.Segments

/-! What a failing `CreateMemory` or `AttachMemory` does to its object. Both assign the
result of a system call to a field before they look at it: a failed `shmget` overwrites
the id, a failed `shmat` the address. So a failing call is harmless only where there was
nothing to overwrite, and a failed `shmat` never is. -/

namespace BaseCom.Shm

open Transition

variable {ι : Type*} [DecidableEq ι]

namespace Kernel

variable {k : Kernel ι} {i j : ι} {c : Choices} {addr : UInt64}

omit [DecidableEq ι] in
theorem attached_congr {k' : Kernel ι} (h : k'.maps = k.maps) :
    k'.Attached j addr ↔ k.Attached j addr := by
  unfold Attached
  rw [h]

omit [DecidableEq ι] in
theorem maps_shmget (key shmflg : Int32) : (k.shmget i c key shmflg).2.maps = k.maps := by
  rcases k.shmget_cases i c key shmflg with h | ⟨g, -, h⟩ | ⟨-, h⟩ <;> rw [h]

omit [DecidableEq ι] in
theorem maps_shmctl (shmid : Int32) : (k.shmctl c shmid).2.maps = k.maps := by
  unfold shmctl
  split_ifs <;> rfl

omit [DecidableEq ι] in
theorem attached_shmat {shmid : Int32} (h : (k.shmat i c shmid).1 ≠ shmFailed) :
    (k.shmat i c shmid).2.Attached j addr ↔
      j = i ∧ addr = (k.shmat i c shmid).1 ∨ k.Attached j addr := by
  rcases k.shmat_cases i c shmid with he | ⟨-, he⟩
  · rw [he] at h
    exact absurd rfl h
  · rw [he]
    simp only [Attached, List.exists_mem_cons_iff, Option.some.injEq]
    rw [eq_comm (a := i), eq_comm (a := c.newAddr)]

theorem attached_shmdt {a : UInt64} :
    (k.shmdt i a).2.Attached j addr ↔ k.Attached j addr ∧ ¬ (j = i ∧ addr = a) := by
  unfold shmdt
  split_ifs with h
  · simp only [Attached, reap, List.mem_filter, decide_eq_true_eq]
    constructor
    · rintro ⟨m, ⟨hm, hne⟩, ho, rfl⟩
      exact ⟨⟨m, hm, ho, rfl⟩, fun hh => hne ⟨by rw [ho, hh.1], hh.2⟩⟩
    · rintro ⟨⟨m, hm, ho, rfl⟩, hne⟩
      refine ⟨m, ⟨hm, fun hh => hne ⟨?_, hh.2⟩⟩, ho, rfl⟩
      rw [ho] at hh
      exact Option.some.inj hh.1
  · refine ⟨fun hj => ⟨hj, ?_⟩, And.left⟩
    rintro ⟨rfl, rfl⟩
    exact h hj

end Kernel

namespace Sharing

variable {s t : Sharing ι} {i j : ι} {c : Choices} {l : MethodCall ι}

/-- The address in the object is one of its attachments. -/
def Live (s : Sharing ι) (i : ι) : Prop := s.kern.Attached i (s.obj i).memoryAddr

/-- No segment made through the object is left, neither for others to attach nor at an
address of the object. -/
def Cleared (s : Sharing ι) (i : ι) : Prop :=
  ∀ g ∈ s.kern.segs, g.creator = some i →
    g.removed = true ∧ ∀ m ∈ s.kern.maps, m.owner = some i → m.shmid ≠ g.shmid

/-- With system calls that succeed on valid arguments, `DestroyMemory` leaves none. -/
def Recovers (s : Sharing ι) (i : ι) : Prop :=
  ∀ c : Choices, c.refuseCtl = false → (s.call ⟨i, .destroyMemory, c⟩).next.Cleared i

/-- What a failing call has to keep. -/
structure Kept (s t : Sharing ι) (i : ι) : Prop where
  address : (t.obj i).memoryAddr = null ∨ t.Live i
  shmid : (s.obj i).shmid ≠ -1 → (t.obj i).shmid = (s.obj i).shmid
  attachment : s.Live i → (t.obj i).memoryAddr = (s.obj i).memoryAddr
  recovers : t.Recovers i

/-- A call of `CreateMemory` or `AttachMemory` that fails loses nothing. -/
def KeepsHeld (s : Sharing ι) (l : MethodCall ι) : Prop :=
  l.method = .createMemory ∨ l.method = .attachMemory → (s.call l).ret = false →
    Kept s (s.call l).next l.who

/-- No `shmat` fails, and a `shmget` of `CreateMemory` fails only on an object that has
no id and of whose segments none is left. -/
def FailsEmptyHanded (s : Sharing ι) (l : MethodCall ι) : Prop :=
  match l.method with
  | .createMemory =>
    if (s.got l.who l.choices).1 = -1 then (s.obj l.who).shmid = -1 ∧ s.Cleared l.who
    else ((s.got l.who l.choices).2.shmat l.who l.choices (s.got l.who l.choices).1).1 ≠ shmFailed
  | .attachMemory =>
    ((s.found l.who l.choices).2.shmat l.who l.choices (s.found l.who l.choices).1).1 ≠ shmFailed
  | .destroyMemory | .detachMemory _ => True

instance (s : Sharing ι) (i : ι) : Decidable (s.Cleared i) :=
  inferInstanceAs (Decidable (∀ g ∈ _, _ → _ ∧ ∀ m ∈ _, _ → _))

instance (s : Sharing ι) (l : MethodCall ι) : Decidable (s.FailsEmptyHanded l) :=
  match l with
  | ⟨i, .createMemory, c⟩ =>
    inferInstanceAs (Decidable (if (s.got i c).1 = -1 then (s.obj i).shmid = -1 ∧ s.Cleared i
      else ((s.got i c).2.shmat i c (s.got i c).1).1 ≠ shmFailed))
  | ⟨_, .attachMemory, _⟩ => inferInstanceAs (Decidable (_ ≠ _))
  | ⟨_, .destroyMemory, _⟩ | ⟨_, .detachMemory _, _⟩ => isTrue trivial

/-- Every address in an object is one of its attachments, and `(char*)-1` is none. -/
structure Sane (s : Sharing ι) : Prop where
  failed : ∀ i, ¬ s.kern.Attached i shmFailed
  address : ∀ i, (s.obj i).memoryAddr = null ∨ s.Live i

omit [DecidableEq ι] in
theorem Initial.sane {key : Int32} (hi : s.Initial key) : s.Sane where
  failed := by
    rintro i ⟨m, hm, ho, -⟩
    rw [hi.maps m hm] at ho
    cases ho
  address := by
    intro i
    obtain ⟨size, flag, ho⟩ := hi.obj i
    exact .inl (by rw [ho]; rfl)

/-- The other objects' addresses stay good if they keep their attachments. -/
theorem Sane.set (hs : s.Sane) {o : ShmOperator} {k : Kernel ι} (hf : ∀ j, ¬ k.Attached j shmFailed)
    (ho : o.memoryAddr = null ∨ k.Attached i o.memoryAddr)
    (hk : ∀ j addr, j ≠ i → s.kern.Attached j addr → k.Attached j addr) : (s.set i o k).Sane where
  failed := hf
  address := by
    intro j
    unfold Live
    by_cases hj : j = i
    · subst hj
      rw [set_obj_self]
      exact ho
    · rw [set_obj_of_ne hj]
      exact (hs.address j).imp_right (hk j _ hj)

omit [DecidableEq ι] in
theorem maps_got : (s.got i c).2.maps = s.kern.maps := Kernel.maps_shmget _ _

omit [DecidableEq ι] in
theorem maps_found : (s.found i c).2.maps = s.kern.maps := by
  unfold found
  split_ifs
  · exact Kernel.maps_shmget _ _
  · rfl

theorem Sane.mapped (hs : s.Sane) {r : Int32 × Kernel ι} (hr : r.2.maps = s.kern.maps)
    (hat : (r.2.shmat i c r.1).1 ≠ shmFailed) : (s.mapped i c r).Sane := by
  have hold : ∀ j addr, (r.2.shmat i c r.1).2.Attached j addr ↔
      j = i ∧ addr = (r.2.shmat i c r.1).1 ∨ s.kern.Attached j addr := fun j addr => by
    rw [Kernel.attached_shmat hat, Kernel.attached_congr hr]
  refine hs.set (fun j hj => ?_) (.inr ((hold _ _).mpr (.inl ⟨rfl, rfl⟩)))
    fun j addr _ hj => (hold j addr).mpr (.inr hj)
  rcases (hold j _).mp hj with ⟨-, he⟩ | hj
  · exact hat he.symm
  · exact hs.failed j hj

omit [DecidableEq ι] in
theorem attached_shmctl (k : Kernel ι) (shmid : Int32) {addr : UInt64} :
    (k.shmctl c shmid).2.Attached j addr ↔ k.Attached j addr :=
  Kernel.attached_congr (Kernel.maps_shmctl _)

/-- The `shmdt` of `DestroyMemory` ends no attachment of another object. -/
theorem attached_unmapped {addr : UInt64} (hj : j ≠ i) :
    (s.unmapped i).Attached j addr ↔ s.kern.Attached j addr := by
  unfold unmapped
  split_ifs
  · exact Iff.rfl
  · rw [Kernel.attached_shmdt]
    exact and_iff_left fun hh => hj hh.1

theorem attached_of_unmapped {addr : UInt64} (h : (s.unmapped i).Attached j addr) :
    s.kern.Attached j addr := by
  unfold unmapped at h
  split_ifs at h
  · exact h
  · exact (Kernel.attached_shmdt.mp h).1

theorem Sane.step (hs : s.Sane) (hg : s.FailsEmptyHanded l) (he : Effect s l t) : t.Sane := by
  cases he with
  | createRefused _ =>
    have hk : ∀ i c j addr, (s.got i c).2.Attached j addr ↔ s.kern.Attached j addr :=
      fun _ _ _ _ => Kernel.attached_congr maps_got
    exact hs.set (fun j hj => hs.failed j ((hk _ _ _ _).mp hj))
      ((hs.address _).imp_right (hk _ _ _ _).mpr) fun j addr _ => (hk _ _ j addr).mpr
  | create hget =>
    simp only [FailsEmptyHanded, if_neg hget] at hg
    exact hs.mapped maps_got hg
  | attach => exact hs.mapped maps_found hg
  | destroyNothing | detachNothing _ => exact hs
  | destroy _ =>
    exact hs.set (fun j hj => hs.failed j (attached_of_unmapped ((attached_shmctl _ _).mp hj)))
      (.inl rfl) fun j addr hj ha => (attached_shmctl _ _).mpr ((attached_unmapped hj).mpr ha)
  | detach _ =>
    exact hs.set (fun j hj => hs.failed j (Kernel.attached_shmdt.mp hj).1) (.inl rfl)
      fun j addr hj ha => Kernel.attached_shmdt.mpr ⟨ha, fun hh => hj hh.1⟩

/-! ### Failing calls -/

/-- Without an id `DestroyMemory` does nothing. -/
theorem recovers_iff (h : (s.obj i).shmid = -1) : s.Recovers i ↔ s.Cleared i := by
  constructor
  · intro hr
    have hc := hr ⟨false, false, false, 0, 0⟩ rfl
    rwa [call_destroyMemory_idle h] at hc
  · intro hc c _
    rwa [call_destroyMemory_idle h]

/-- A failed `shmat` leaves `(char*)-1` in the object. -/
theorem Sane.not_kept (hs : s.Sane) (hnew : c.newAddr ≠ shmFailed) {r : Int32 × Kernel ι}
    (hr : r.2.maps = s.kern.maps) (hat : (r.2.shmat i c r.1).1 = shmFailed) :
    ¬ Kept s (s.mapped i c r) i := by
  have hk : (r.2.shmat i c r.1).2 = r.2 := by
    rcases r.2.shmat_cases i c r.1 with he | ⟨-, he⟩
    · rw [he]
    · rw [he] at hat
      exact absurd hat hnew
  intro hkept
  have ha := hkept.address
  unfold Live Sharing.mapped at ha
  rw [set_obj_self] at ha
  rcases ha with hnull | hlive
  · exact absurd (hat.symm.trans hnull) (by decide)
  · have hfailed : (r.2.shmat i c r.1).2.Attached i shmFailed := hat ▸ hlive
    rw [hk, Kernel.attached_congr hr] at hfailed
    exact hs.failed i hfailed

/-- A failed `shmget` leaves -1 in the object, and the kernel as it was. -/
theorem Sane.kept_iff (hs : s.Sane) :
    Kept s (s.set i { s.obj i with shmid := -1 } s.kern) i ↔
      (s.obj i).shmid = -1 ∧ s.Cleared i := by
  have hid : ((s.set i { s.obj i with shmid := -1 } s.kern).obj i).shmid = -1 := by
    rw [set_obj_self]
  have haddr : ((s.set i { s.obj i with shmid := -1 } s.kern).obj i).memoryAddr =
      (s.obj i).memoryAddr := by rw [set_obj_self]
  have hcleared : (s.set i { s.obj i with shmid := -1 } s.kern).Cleared i ↔ s.Cleared i := Iff.rfl
  constructor
  · intro hkept
    refine ⟨?_, hcleared.mp ((recovers_iff hid).mp hkept.recovers)⟩
    by_contra hne
    exact hne ((hkept.shmid hne).symm.trans hid)
  · rintro ⟨hnone, hc⟩
    refine { address := ?_, shmid := fun h => absurd hnone h, attachment := fun _ => haddr,
             recovers := (recovers_iff hid).mpr (hcleared.mpr hc) }
    unfold Live
    rw [haddr]
    exact hs.address i

omit [DecidableEq ι] in
theorem MayChoose.got_kern (hm : s.MayChoose l) (hget : (s.got l.who l.choices).1 = -1) :
    (s.got l.who l.choices).2 = s.kern := by
  unfold got at hget ⊢
  rcases s.kern.shmget_cases l.who l.choices (s.obj l.who).key (s.obj l.who).flag with
    h | ⟨g, -, h⟩ | ⟨-, h⟩
  · rw [h]
  · rw [h]
  · rw [h] at hget
    have hid : l.choices.newId = -1 := hget
    have hpos := hm.1.1
    rw [hid] at hpos
    exact absurd hpos (by decide)

/-- A call keeps what is held exactly if it is one of those that may fail. -/
theorem Sane.keepsHeld_iff (hs : s.Sane) (hm : s.MayChoose l) :
    s.KeepsHeld l ↔ s.FailsEmptyHanded l := by
  have hnew : l.choices.newAddr ≠ shmFailed := hm.2.2.1
  obtain ⟨i, method, c⟩ := l
  unfold KeepsHeld FailsEmptyHanded
  cases method with
  | createMemory =>
    by_cases hget : (s.got i c).1 = -1
    · simp only [call_createMemory_failed hget, if_pos hget, true_or, true_implies,
        hm.got_kern hget]
      exact hs.kept_iff
    · simp only [call_createMemory hget, if_neg hget, true_or, true_implies]
      by_cases hat : ((s.got i c).2.shmat i c (s.got i c).1).1 = shmFailed
      · refine iff_of_false (fun h => ?_) fun h => h hat
        exact hs.not_kept hnew maps_got hat (h (by simp [hat]))
      · exact iff_of_true (fun h => by simp [hat] at h) hat
  | attachMemory =>
    simp only [call_attachMemory, or_true, true_implies]
    by_cases hat : ((s.found i c).2.shmat i c (s.found i c).1).1 = shmFailed
    · refine iff_of_false (fun h => ?_) fun h => h hat
      exact hs.not_kept hnew maps_found hat (h (by simp [hat]))
    · exact iff_of_true (fun h => by simp [hat] at h) hat
  | destroyMemory => exact iff_of_true (fun h => by simp at h) trivial
  | detachMemory addr => exact iff_of_true (fun h => by simp at h) trivial

end Sharing

/-- Along every run, no failing `CreateMemory` or `AttachMemory` loses what its object
holds if and only if no `shmat` fails and a `shmget` of `CreateMemory` fails only for an
object without an id, none of whose segments is left. -/
theorem failures_keep_iff {key : Int32} {s₀ s : Sharing ι} {tr : List (Sharing ι × MethodCall ι)}
    (hi : s₀.Initial key) (hr : Run (sharing ι key) s₀ tr s) :
    Always Sharing.KeepsHeld tr ↔ Always Sharing.FailsEmptyHanded tr := by
  refine hr.always_congr (fun u l v hu hk => ?_) (fun u l v hu hg hk => ?_) hi.sane
  · exact hu.keepsHeld_iff (Sharing.step_cases hk).1
  · exact hu.step hg (Sharing.step_effect hk)

/-- A refused `CreateMemory` on a new object, then one that succeeds, and the end of it. -/
def refusedThenMade : List (MethodCall Bool) := [
  ⟨false, .createMemory, ⟨true, false, false, 7, 4096⟩⟩,
  ⟨false, .createMemory, ⟨false, false, false, 7, 4096⟩⟩,
  ⟨false, .detachMemory 4096, ⟨false, false, false, 8, 8192⟩⟩,
  ⟨false, .destroyMemory, ⟨false, false, false, 8, 8192⟩⟩]

theorem failures_keep_refused : ∃ s tr,
    Run (sharing Bool 1234) (.fresh 1234 100 950) tr s ∧ tr.length = 4 ∧
      (∃ p ∈ tr, p.2.method = .createMemory ∧ (p.1.call p.2).ret = false) ∧
      Always Sharing.KeepsHeld tr := by
  have hfail : Always Sharing.FailsEmptyHanded
      (trace (sharing Bool 1234) (.fresh 1234 100 950) refusedThenMade) := by
    unfold Always
    decide +kernel
  obtain ⟨s, hr, -⟩ := exists_run_of_exec (S := sharing Bool 1234) (.fresh 1234 100 950)
    refusedThenMade (P := fun _ => True) (by decide +kernel)
  exact ⟨s, _, hr, rfl, by decide +kernel,
    (failures_keep_iff (Sharing.initial_fresh 1234 100 950) hr).mpr hfail⟩

/-- `CreateMemory` on an object that has a segment, refused: the id is gone. -/
theorem id_lost_by_refused_create : ¬ ∀ (s : Sharing Unit) (l : MethodCall Unit),
    Reachable (sharing Unit 1234) s → s.MayChoose l → s.KeepsHeld l := by
  intro hall
  let again : MethodCall Unit := ⟨(), .createMemory, ⟨true, false, false, 8, 8192⟩⟩
  obtain ⟨s, hr, hm, hret, hold, hnew⟩ := exists_reachable_of_exec (S := sharing Unit 1234)
    (Sharing.initial_fresh 1234 100 950) [⟨(), .createMemory, ⟨false, false, false, 7, 4096⟩⟩]
    (P := fun s => s.MayChoose again ∧ (s.call again).ret = false ∧ (s.obj ()).shmid = 7 ∧
      ((s.call again).next.obj ()).shmid = -1) (by decide +kernel)
  have hkept := hall s again hr hm (.inl rfl) hret
  have hid := hkept.shmid (by rw [hold]; decide)
  rw [hnew, hold] at hid
  exact absurd hid (by decide)

end BaseCom.Shm
