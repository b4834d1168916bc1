import BaseCom.Shm.Operator
import BaseCom.Transition.Run

/-! Whether an object accounts for its attachments. The kernel is reduced to the
addresses this object has attached and not detached, and answers `shmget`, `shmat`
and `shmctl` as it likes. The object keeps its books exactly as long as it attaches
only with an empty address field, successfully, and detaches only with a segment id. -/

namespace BaseCom.Shm

open Transition

/-- What the kernel answers to the calls within one operation. -/
structure Answers where
  shmget : Int32
  shmat : UInt64
  shmctl : Int32

/-- The object's attachments, and the answers to come. -/
structure World where
  attached : List UInt64
  answers : Answers

/-- `shmat` succeeds with an address or returns `(char*)-1`; `shmdt` succeeds exactly on
attached addresses. -/
def worldCalls : ShmCalls World where
  shmget _ _ _ w := (w.answers.shmget, w)
  shmat _ w :=
    (w.answers.shmat,
      if w.answers.shmat = shmFailed then w
      else { w with attached := w.answers.shmat :: w.attached })
  shmdt addr w :=
    if addr ∈ w.attached then ((0, 0), { w with attached := w.attached.filter (· ≠ addr) })
    else ((-1, einval), w)
  shmctl _ w := (w.answers.shmctl, w)

inductive Op
  | createMemory
  | destroyMemory
  | attachMemory
  | detachMemory (pmemoryAddr : UInt64)
  | destruct
  deriving DecidableEq

/-- An object in use: its attachments, the last operation with what it returned, if any. -/
structure Session where
  obj : ShmOperator
  attached : List UInt64
  last : Option (Op × Bool)

namespace Session

/-- `shmat` gives out no null address and none that is attached. -/
def MayAnswer (s : Session) (a : Answers) : Prop :=
  a.shmat = shmFailed ∨ (a.shmat ≠ null ∧ a.shmat ∉ s.attached)

instance (s : Session) (a : Answers) : Decidable (s.MayAnswer a) :=
  inferInstanceAs (Decidable (_ ∨ _))

/-- The object's lifetime is over. -/
def destructed (s : Session) : Bool :=
  match s.last with
  | some (.destruct, _) => true
  | _ => false

/-- Run an operation. -/
def call (s : Session) (op : Op) (a : Answers) : Session :=
  let w : World := ⟨s.attached, a⟩
  match op with
  | .createMemory =>
    let (ret, o, w) := s.obj.createMemory worldCalls w
    ⟨o, w.attached, some (op, ret)⟩
  | .destroyMemory =>
    let (ret, o, w) := s.obj.destroyMemory worldCalls w
    ⟨o, w.attached, some (op, ret)⟩
  | .attachMemory =>
    let (ret, _, o, w) := s.obj.attachMemory worldCalls w
    ⟨o, w.attached, some (op, ret)⟩
  | .detachMemory pmemoryAddr =>
    let (ret, o, w) := s.obj.detachMemory worldCalls pmemoryAddr w
    ⟨o, w.attached, some (op, ret)⟩
  | .destruct =>
    let (o, w) := s.obj.destruct worldCalls w
    ⟨o, w.attached, some (op, true)⟩

def step (s : Session) (p : Op × Answers) : Option Session :=
  if s.destructed = false ∧ s.MayAnswer p.2 then some (s.call p.1 p.2) else none

/-- A constructed object. -/
def Initial (s : Session) : Prop :=
  ∃ key size flag, s = ⟨.construct key size flag, [], none⟩

end Session

/-- One object under any sequence of calls and answers. -/
def session : Lts Session (Op × Answers) where
  init := Session.Initial
  step := Session.step

namespace Session

/-- The attached addresses are the one in the object, or none if that is null. -/
def Books (s : Session) : Prop :=
  ∀ x, x ∈ s.attached ↔ x = s.obj.memoryAddr ∧ x ≠ null

/-- The books are right while the object lives, no attachment remains where
`DetachMemory` says so, and none after the destructor. -/
def Accounted (s : Session) : Prop :=
  match s.last with
  | some (.destruct, _) => s.attached = []
  | some (.detachMemory _, true) => s.Books ∧ s.attached = []
  | _ => s.Books

/-- The calls that keep the books. -/
def Keeps (s : Session) (p : Op × Answers) : Prop :=
  match p.1 with
  | .createMemory => p.2.shmget = -1 ∨ (s.obj.memoryAddr = null ∧ p.2.shmat ≠ shmFailed)
  | .attachMemory => s.obj.memoryAddr = null ∧ p.2.shmat ≠ shmFailed
  | .detachMemory _ | .destruct => ¬ (s.obj.shmid = -1 ∧ s.obj.memoryAddr ≠ null)
  | .destroyMemory => True

instance (s : Session) (p : Op × Answers) : Decidable (s.Keeps p) :=
  match p with
  | (.createMemory, _) => inferInstanceAs (Decidable (_ ∨ _))
  | (.attachMemory, _) => inferInstanceAs (Decidable (_ ∧ _))
  | (.detachMemory _, _) | (.destruct, _) => inferInstanceAs (Decidable (¬ _))
  | (.destroyMemory, _) => isTrue trivial

variable {s t : Session} {a : Answers} {p : Op × Answers}

/-! ### What each operation does -/

/-- The attachments after a call of `shmat`. -/
def gain (attached : List UInt64) (addr : UInt64) : List UInt64 :=
  if addr = shmFailed then attached else addr :: attached

theorem call_createMemory_failed (h : a.shmget = -1) :
    s.call .createMemory a =
      ⟨{ s.obj with shmid := -1 }, s.attached, some (.createMemory, false)⟩ := by
  simp [call, ShmOperator.createMemory, worldCalls, h]

theorem call_createMemory (h : a.shmget ≠ -1) :
    s.call .createMemory a =
      ⟨{ s.obj with shmid := a.shmget, memoryAddr := a.shmat }, gain s.attached a.shmat,
        some (.createMemory, decide (a.shmat ≠ shmFailed))⟩ := by
  by_cases hat : a.shmat = shmFailed
  · simp [call, ShmOperator.createMemory, worldCalls, h, gain, hat]
  · simp [call, ShmOperator.createMemory, worldCalls, h, gain, hat]

theorem call_attachMemory :
    s.call .attachMemory a =
      ⟨{ s.obj with shmid := if s.obj.shmid = -1 then a.shmget else s.obj.shmid
                    memoryAddr := a.shmat }, gain s.attached a.shmat,
        some (.attachMemory, decide (a.shmat ≠ shmFailed))⟩ := by
  by_cases hid : s.obj.shmid = -1 <;> by_cases hat : a.shmat = shmFailed <;>
    simp [call, ShmOperator.attachMemory, worldCalls, gain, hid, hat]

theorem removeMemory_frame (o : ShmOperator) (w : World) :
    (o.removeMemory worldCalls w).2.2 = w ∧
      (o.memoryAddr = null → (o.removeMemory worldCalls w).2.1.memoryAddr = null) := by
  by_cases hctl : w.answers.shmctl = 0
  · simp [ShmOperator.removeMemory, worldCalls, hctl]
  · simp [ShmOperator.removeMemory, worldCalls, hctl]

theorem call_destroyMemory_unbound (hid : s.obj.shmid = -1) :
    s.call .destroyMemory a = ⟨s.obj, s.attached, some (.destroyMemory, false)⟩ := by
  simp only [call, ShmOperator.destroyMemory, if_pos hid]

theorem call_destroyMemory_detached (hid : s.obj.shmid ≠ -1) (hm : s.obj.memoryAddr = null) :
    (s.call .destroyMemory a).attached = s.attached ∧
      (s.call .destroyMemory a).obj.memoryAddr = null := by
  obtain ⟨hw, ho⟩ := removeMemory_frame s.obj ⟨s.attached, a⟩
  simp only [call, ShmOperator.destroyMemory, if_neg hid, hm, ne_eq, not_true_eq_false, if_false]
  exact ⟨by rw [hw], ho hm⟩

theorem call_destroyMemory_attached (hid : s.obj.shmid ≠ -1) (hm : s.obj.memoryAddr ≠ null)
    (hin : s.obj.memoryAddr ∈ s.attached) :
    (s.call .destroyMemory a).attached = s.attached.filter (· ≠ s.obj.memoryAddr) ∧
      (s.call .destroyMemory a).obj.memoryAddr = null := by
  obtain ⟨hw, ho⟩ := removeMemory_frame { s.obj with memoryAddr := null }
    ⟨s.attached.filter (· ≠ s.obj.memoryAddr), a⟩
  have hdt : worldCalls.shmdt s.obj.memoryAddr ⟨s.attached, a⟩ =
      ((0, 0), ⟨s.attached.filter (· ≠ s.obj.memoryAddr), a⟩) := by
    simp only [worldCalls, if_pos hin]
  simp only [call, ShmOperator.destroyMemory, if_neg hid, if_pos hm, hdt, ne_eq,
    not_true_eq_false, if_false]
  exact ⟨by rw [hw], ho rfl⟩

theorem call_destroyMemory_stuck (hid : s.obj.shmid ≠ -1) (hm : s.obj.memoryAddr ≠ null)
    (hin : s.obj.memoryAddr ∉ s.attached) :
    s.call .destroyMemory a = ⟨s.obj, s.attached, some (.destroyMemory, false)⟩ := by
  have hdt : worldCalls.shmdt s.obj.memoryAddr ⟨s.attached, a⟩ =
      ((-1, einval), ⟨s.attached, a⟩) := by
    simp only [worldCalls, if_neg hin]
  simp only [call, ShmOperator.destroyMemory, if_neg hid, if_pos hm, hdt]
  rfl

theorem call_detachMemory_idle {addr : UInt64} (h : s.obj.shmid = -1 ∨ s.obj.memoryAddr = null) :
    s.call (.detachMemory addr) a = ⟨s.obj, s.attached, some (.detachMemory addr, true)⟩ := by
  simp only [call, ShmOperator.detachMemory, if_pos h]

theorem call_detachMemory_other {addr : UInt64} (h : ¬ (s.obj.shmid = -1 ∨ s.obj.memoryAddr = null))
    (hne : addr ≠ s.obj.memoryAddr) :
    s.call (.detachMemory addr) a = ⟨s.obj, s.attached, some (.detachMemory addr, false)⟩ := by
  simp only [call, ShmOperator.detachMemory, if_neg h, if_pos hne]

theorem call_detachMemory (h : ¬ (s.obj.shmid = -1 ∨ s.obj.memoryAddr = null))
    (hm : s.obj.memoryAddr ∈ s.attached) :
    s.call (.detachMemory s.obj.memoryAddr) a =
      ⟨{ s.obj with memoryAddr := null }, s.attached.filter (· ≠ s.obj.memoryAddr),
        some (.detachMemory s.obj.memoryAddr, true)⟩ := by
  simp [call, ShmOperator.detachMemory, if_neg h, worldCalls, hm]

theorem call_destruct_null (h : s.obj.memoryAddr = null) :
    s.call .destruct a = ⟨s.obj, s.attached, some (.destruct, true)⟩ := by
  simp [call, ShmOperator.destruct, h]

/-- The destructor detaches what it finds. -/
theorem call_destruct (h : s.obj.memoryAddr ≠ null) :
    s.call .destruct a =
      { s.call (.detachMemory s.obj.memoryAddr) a with last := some (.destruct, true) } := by
  simp only [call, ShmOperator.destruct, if_pos h]

/-! ### The books -/

theorem Books.nil_iff (hb : s.Books) : s.attached = [] ↔ s.obj.memoryAddr = null := by
  rw [List.eq_nil_iff_forall_not_mem]
  constructor
  · intro h
    by_contra hne
    exact h _ ((hb _).mpr ⟨rfl, hne⟩)
  · intro h x hx
    have hx' := (hb x).mp hx
    exact hx'.2 (hx'.1.trans h)

/-- Attaching keeps the books exactly if it succeeds and overwrites nothing. -/
theorem Books.gain_iff (hb : s.Books) (hf : shmFailed ∉ s.attached) (ha : s.MayAnswer a)
    (ht : t.attached = gain s.attached a.shmat) (hm : t.obj.memoryAddr = a.shmat) :
    t.Books ↔ s.obj.memoryAddr = null ∧ a.shmat ≠ shmFailed := by
  unfold Books
  rw [ht, hm]
  by_cases hat : a.shmat = shmFailed
  · rw [gain, if_pos hat, hat]
    refine iff_of_false (fun h => hf ((h _).mpr ⟨rfl, by decide⟩)) fun h => h.2 rfl
  · obtain ⟨hnn, hnew⟩ := ha.resolve_left hat
    rw [gain, if_neg hat]
    constructor
    · intro h
      refine ⟨?_, hat⟩
      by_contra hne
      have hold : s.obj.memoryAddr ∈ s.attached := (hb _).mpr ⟨rfl, hne⟩
      rw [((h _).mp (List.mem_cons_of_mem _ hold)).1] at hold
      exact hnew hold
    · intro h x
      rw [hb.nil_iff.mpr h.1, List.mem_singleton]
      exact ⟨fun hx => ⟨hx, hx ▸ hnn⟩, And.left⟩

/-- The one attachment is given back. -/
theorem Books.filter_eq_nil (hb : s.Books) :
    s.attached.filter (· ≠ s.obj.memoryAddr) = [] := by
  rw [List.filter_eq_nil_iff]
  intro x hx
  simp [((hb x).mp hx).1]

theorem books_of_null (ht : t.attached = []) (hm : t.obj.memoryAddr = null) : t.Books := by
  intro x
  rw [ht, hm]
  exact iff_of_false List.not_mem_nil fun h => h.2 h.1

theorem Books.destroyMemory (hb : s.Books) : (s.call .destroyMemory a).Books := by
  by_cases hid : s.obj.shmid = -1
  · rw [call_destroyMemory_unbound hid]
    exact hb
  · by_cases hm : s.obj.memoryAddr = null
    · obtain ⟨hatt, haddr⟩ := call_destroyMemory_detached (a := a) hid hm
      exact books_of_null (hatt.trans (hb.nil_iff.mpr hm)) haddr
    · obtain ⟨hatt, haddr⟩ := call_destroyMemory_attached (a := a) hid hm ((hb _).mpr ⟨rfl, hm⟩)
      exact books_of_null (hatt.trans hb.filter_eq_nil) haddr

theorem step_cases (h : s.step p = some t) :
    s.destructed = false ∧ s.MayAnswer p.2 ∧ t = s.call p.1 p.2 := by
  unfold step at h
  split_ifs at h with hg
  exact ⟨hg.1, hg.2, (Option.some.inj h).symm⟩

/-- While the object lives its books are right. -/
theorem Accounted.books (hc : s.Accounted) (hd : s.destructed = false) : s.Books := by
  unfold Accounted at hc
  unfold destructed at hd
  split at hc
  next heq => simp [heq] at hd
  next => exact hc.1
  next => exact hc

theorem detachMemory_subset (addr : UInt64) :
    (s.call (.detachMemory addr) a).attached ⊆ s.attached := by
  by_cases h : s.obj.shmid = -1 ∨ s.obj.memoryAddr = null
  · rw [call_detachMemory_idle h]
    exact List.Subset.refl _
  · by_cases haddr : addr = s.obj.memoryAddr
    · subst haddr
      by_cases hm : s.obj.memoryAddr ∈ s.attached
      · rw [call_detachMemory h hm]
        exact List.filter_subset_self _
      · simp [call, ShmOperator.detachMemory, if_neg h, worldCalls, hm]
    · rw [call_detachMemory_other h haddr]
      exact List.Subset.refl _

theorem destroyMemory_subset : (s.call .destroyMemory a).attached ⊆ s.attached := by
  by_cases hid : s.obj.shmid = -1
  · rw [call_destroyMemory_unbound hid]
    exact List.Subset.refl _
  · by_cases hm : s.obj.memoryAddr = null
    · rw [(call_destroyMemory_detached hid hm).1]
      exact List.Subset.refl _
    · by_cases hin : s.obj.memoryAddr ∈ s.attached
      · rw [(call_destroyMemory_attached hid hm hin).1]
        exact List.filter_subset_self _
      · rw [call_destroyMemory_stuck hid hm hin]
        exact List.Subset.refl _

/-- Only `shmat` adds attachments, and `(char*)-1` is none. -/
theorem shmFailed_notMem_step (hf : shmFailed ∉ s.attached) (hk : s.step p = some t) :
    shmFailed ∉ t.attached := by
  obtain ⟨op, a⟩ := p
  obtain ⟨-, -, rfl⟩ := step_cases hk
  have hgain : shmFailed ∉ gain s.attached a.shmat := by
    unfold gain
    split_ifs with hat
    · exact hf
    · exact fun hm => (List.mem_cons.mp hm).elim (fun he => hat he.symm) hf
  cases op with
  | createMemory =>
    show shmFailed ∉ (s.call .createMemory a).attached
    by_cases hget : a.shmget = -1
    · rw [call_createMemory_failed hget]
      exact hf
    · rw [call_createMemory hget]
      exact hgain
  | attachMemory =>
    show shmFailed ∉ (s.call .attachMemory a).attached
    rw [call_attachMemory]
    exact hgain
  | destroyMemory => exact fun hm => hf (destroyMemory_subset hm)
  | detachMemory addr => exact fun hm => hf (detachMemory_subset addr hm)
  | destruct =>
    show shmFailed ∉ (s.call .destruct a).attached
    by_cases hm : s.obj.memoryAddr = null
    · rw [call_destruct_null hm]
      exact hf
    · rw [call_destruct hm]
      exact fun hm => hf (detachMemory_subset _ hm)

/-- From right books, an operation leads to right books exactly if it keeps them. -/
theorem Accounted.step_iff (hf : shmFailed ∉ s.attached) (hc : s.Accounted)
    (hk : s.step p = some t) : t.Accounted ↔ s.Keeps p := by
  obtain ⟨op, a⟩ := p
  obtain ⟨hd, ha, rfl⟩ := step_cases hk
  have hb := hc.books hd
  cases op with
  | createMemory =>
    by_cases hget : a.shmget = -1
    · show (s.call .createMemory a).Accounted ↔ _
      rw [call_createMemory_failed hget]
      exact iff_of_true hb (.inl hget)
    · show (s.call .createMemory a).Accounted ↔ _
      rw [call_createMemory hget]
      exact (hb.gain_iff hf ha rfl rfl).trans (or_iff_right hget).symm
  | attachMemory =>
    show (s.call .attachMemory a).Accounted ↔ _
    rw [call_attachMemory]
    exact hb.gain_iff hf ha rfl rfl
  | destroyMemory =>
    exact iff_of_true (show (s.call .destroyMemory a).Accounted from hb.destroyMemory) trivial
  | detachMemory addr =>
    show (s.call (.detachMemory addr) a).Accounted ↔ _
    by_cases h : s.obj.shmid = -1 ∨ s.obj.memoryAddr = null
    · rw [call_detachMemory_idle h]
      constructor
      · exact fun hacc hk => hk.2 (hb.nil_iff.mp hacc.2)
      · intro hk
        have hm : s.obj.memoryAddr = null :=
          h.elim (fun hid => by_contra fun hm => hk ⟨hid, hm⟩) id
        exact ⟨hb, hb.nil_iff.mpr hm⟩
    · have hkeeps : s.Keeps (.detachMemory addr, a) := fun hk => h (.inl hk.1)
      by_cases haddr : addr = s.obj.memoryAddr
      · subst haddr
        have hm : s.obj.memoryAddr ∈ s.attached := (hb _).mpr ⟨rfl, fun hm => h (.inr hm)⟩
        rw [call_detachMemory h hm]
        exact iff_of_true ⟨books_of_null hb.filter_eq_nil rfl, hb.filter_eq_nil⟩ hkeeps
      · rw [call_detachMemory_other h haddr]
        exact iff_of_true hb hkeeps
  | destruct =>
    show (s.call .destruct a).Accounted ↔ _
    by_cases hm : s.obj.memoryAddr = null
    · rw [call_destruct_null hm]
      exact iff_of_true (hb.nil_iff.mpr hm) fun hk => hk.2 hm
    · rw [call_destruct hm]
      show (s.call (.detachMemory s.obj.memoryAddr) a).attached = [] ↔ _
      by_cases hid : s.obj.shmid = -1
      · rw [call_detachMemory_idle (.inl hid)]
        exact iff_of_false (fun hnil => hm (hb.nil_iff.mp hnil)) fun hk => hk ⟨hid, hm⟩
      · rw [call_detachMemory (not_or.mpr ⟨hid, hm⟩) ((hb _).mpr ⟨rfl, hm⟩)]
        exact iff_of_true hb.filter_eq_nil fun hk => hid hk.1

theorem Initial.accounted (hi : s.Initial) : s.Accounted := by
  obtain ⟨key, size, flag, rfl⟩ := hi
  exact books_of_null rfl rfl

end Session

/-- In every run of calls on one object the attachments are accounted for throughout if
and only if `CreateMemory` and `AttachMemory` attach only over an empty address field
and with success (or `shmget` fails in `CreateMemory`), and neither `DetachMemory` nor
the destructor comes when an address is there but the segment id is -1. -/
theorem accounted_iff {s₀ s : Session} {tr : List (Session × (Op × Answers))}
    (hi : s₀.Initial) (hr : Run session s₀ tr s) :
    Always (fun u _ => u.Accounted) tr ∧ s.Accounted ↔ Always Session.Keeps tr := by
  have hf : shmFailed ∉ s₀.attached := by
    obtain ⟨key, size, flag, rfl⟩ := hi
    exact List.not_mem_nil
  have hinv : ∀ u p v, shmFailed ∉ u.attached → session.step u p = some v →
      shmFailed ∉ v.attached := fun _ _ _ hu hk => Session.shmFailed_notMem_step hu hk
  have hstep : ∀ u p v, shmFailed ∉ u.attached → u.Accounted → session.step u p = some v →
      (v.Accounted ↔ u.Keeps p) := fun _ _ _ hu hc hk => hc.step_iff hu hk
  exact hr.along_iff hinv hstep hf hi.accounted

/-- Create, detach, attach again, destroy, and the end of the object. -/
def lifeCycle : List (Op × Answers) := [
  (.createMemory, ⟨7, 4096, 0⟩), (.detachMemory 4096, ⟨7, shmFailed, 0⟩),
  (.attachMemory, ⟨7, 8192, 0⟩), (.destroyMemory, ⟨7, shmFailed, 0⟩),
  (.destruct, ⟨7, shmFailed, 0⟩)]

theorem accounted_life_cycle : ∃ s tr, Run session ⟨.construct 1234 100 950, [], none⟩ tr s ∧
    tr.length = 5 ∧ Always (fun u _ => u.Accounted) tr ∧ s.attached = [] := by
  have hkeeps :
      Always Session.Keeps (trace session ⟨.construct 1234 100 950, [], none⟩ lifeCycle) := by
    unfold Always
    decide +kernel
  obtain ⟨s, hr, hs⟩ := exists_run_of_exec (S := session) ⟨.construct 1234 100 950, [], none⟩
    lifeCycle (P := fun s => s.attached = []) (by decide +kernel)
  have hall := (accounted_iff ⟨1234, 100, 950, rfl⟩ hr).mpr hkeeps
  exact ⟨s, _, hr, rfl, hall.1, hs⟩

/-- `CreateMemory` twice in a row: the first attachment is in no field any more. -/
theorem attachment_lost_by_second_create : ¬ ∀ s, Reachable session s → s.Accounted := by
  intro hall
  obtain ⟨s, hr, ho, ha, hl⟩ := exists_reachable_of_exec (S := session)
    (s := ⟨.construct 1234 100 950, [], none⟩) ⟨1234, 100, 950, rfl⟩
    [(.createMemory, ⟨7, 4096, 0⟩), (.createMemory, ⟨7, 8192, 0⟩)]
    (P := fun s => s.obj.memoryAddr = 8192 ∧ s.attached = [8192, 4096] ∧
      s.last = some (.createMemory, true)) (by decide +kernel)
  have hb : s.Books := (hall s hr).books (by simp [Session.destructed, hl])
  have hlost := (hb 4096).mp (by simp [ha])
  rw [ho] at hlost
  exact absurd hlost.1 (by decide)

end BaseCom.Shm
