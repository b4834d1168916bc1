import BaseCom.Shm.Accounting

/-! Several objects in one process, each with its own key, among other code that attaches
memory too. They share the address space, in which `shmdt` takes whatever is attached and an
address is given out again after it. Still each object goes on as if it were alone. -/

namespace BaseCom.Shm

open Transition

/-! ### One method over two kernels -/

section

variable {β κ κ' : Type*}

/-- Equal results, and states that are still related. -/
def Same (rel : κ → κ' → Prop) (x : β × κ) (y : β × κ') : Prop := x.1 = y.1 ∧ rel x.2 y.2

theorem Same.elim {rel : κ → κ' → Prop} {x : β × κ} {y : β × κ'} (h : Same rel x y) :
    ∃ b k k', x = (b, k) ∧ y = (b, k') ∧ rel k k' :=
  ⟨x.1, x.2, y.2, rfl, Prod.ext h.1.symm rfl, h.2⟩

/-- Kernels that cannot be told apart by an object that detaches one address only. -/
structure Alike (calls : ShmCalls κ) (calls' : ShmCalls κ') (rel : κ → κ' → Prop)
    (addr : UInt64) : Prop where
  shmget : ∀ {k k'} (key size shmflg : Int32), rel k k' →
    Same rel (calls.shmget key size shmflg k) (calls'.shmget key size shmflg k')
  shmat : ∀ {k k'} (shmid : Int32), rel k k' →
    Same rel (calls.shmat shmid k) (calls'.shmat shmid k')
  shmdt : ∀ {k k'}, rel k k' → Same rel (calls.shmdt addr k) (calls'.shmdt addr k')
  shmctl : ∀ {k k'} (shmid : Int32), rel k k' →
    Same rel (calls.shmctl shmid k) (calls'.shmctl shmid k')

namespace ShmOperator

/-- A call of any method; the destructor returns nothing. -/
def run (calls : ShmCalls κ) (op : Op) (o : ShmOperator) (k : κ) : Bool × ShmOperator × κ :=
  match op with
  | .createMemory => o.createMemory calls k
  | .destroyMemory => o.destroyMemory calls k
  | .attachMemory =>
    let (ret, _, o, k) := o.attachMemory calls k
    (ret, o, k)
  | .detachMemory pmemoryAddr => o.detachMemory calls pmemoryAddr k
  | .destruct => (true, o.destruct calls k)

end ShmOperator

variable {calls : ShmCalls κ} {calls' : ShmCalls κ'} {rel : κ → κ' → Prop} {addr : UInt64}
  {o : ShmOperator} {k : κ} {k' : κ'}

namespace Alike

theorem createMemory (h : Alike calls calls' rel addr) (hk : rel k k') :
    Same (Same rel) (o.createMemory calls k) (o.createMemory calls' k') := by
  obtain ⟨shmid, k₁, k₁', hx₁, hy₁, hk₁⟩ := (h.shmget o.key o.size o.flag hk).elim
  obtain ⟨addr, k₂, k₂', hx₂, hy₂, hk₂⟩ := (h.shmat shmid hk₁).elim
  simp only [ShmOperator.createMemory, hx₁, hy₁, hx₂, hy₂]
  split_ifs
  · exact ⟨rfl, rfl, hk₁⟩
  · exact ⟨rfl, rfl, hk₂⟩
  · exact ⟨rfl, rfl, hk₂⟩

theorem removeMemory (h : Alike calls calls' rel addr) (o : ShmOperator) (hk : rel k k') :
    Same (Same rel) (o.removeMemory calls k) (o.removeMemory calls' k') := by
  obtain ⟨ret, k, k', hx, hy, hk⟩ := (h.shmctl o.shmid hk).elim
  simp only [ShmOperator.removeMemory, hx, hy]
  split_ifs
  · exact ⟨rfl, rfl, hk⟩
  · exact ⟨rfl, rfl, hk⟩

theorem destroyMemory (h : Alike calls calls' rel o.memoryAddr) (hk : rel k k') :
    Same (Same rel) (o.destroyMemory calls k) (o.destroyMemory calls' k') := by
  obtain ⟨⟨ret, errno⟩, k₁, k₁', hx, hy, hk₁⟩ := (h.shmdt hk).elim
  simp only [ShmOperator.destroyMemory, hx, hy]
  split_ifs
  · exact ⟨rfl, rfl, hk⟩
  · exact ⟨rfl, rfl, hk₁⟩
  · exact h.removeMemory _ hk₁
  · exact h.removeMemory _ hk

theorem attachMemory (h : Alike calls calls' rel addr) (hk : rel k k') :
    Same (Same (Same rel)) (o.attachMemory calls k) (o.attachMemory calls' k') := by
  by_cases hid : o.shmid = -1
  · obtain ⟨shmid, k₁, k₁', hx₁, hy₁, hk₁⟩ := (h.shmget o.key 0 shmRW hk).elim
    obtain ⟨addr, k₂, k₂', hx₂, hy₂, hk₂⟩ := (h.shmat shmid hk₁).elim
    simp only [ShmOperator.attachMemory, if_pos hid, hx₁, hy₁, hx₂, hy₂]
    split_ifs
    · exact ⟨rfl, rfl, rfl, hk₂⟩
    · exact ⟨rfl, rfl, rfl, hk₂⟩
  · obtain ⟨addr, k₁, k₁', hx₁, hy₁, hk₁⟩ := (h.shmat o.shmid hk).elim
    simp only [ShmOperator.attachMemory, if_neg hid, hx₁, hy₁]
    split_ifs
    · exact ⟨rfl, rfl, rfl, hk₁⟩
    · exact ⟨rfl, rfl, rfl, hk₁⟩

theorem detachMemory (h : Alike calls calls' rel o.memoryAddr) (hk : rel k k')
    (pmemoryAddr : UInt64) :
    Same (Same rel) (o.detachMemory calls pmemoryAddr k)
      (o.detachMemory calls' pmemoryAddr k') := by
  obtain ⟨⟨nCode, errno⟩, k₁, k₁', hx, hy, hk₁⟩ := (h.shmdt hk).elim
  simp only [ShmOperator.detachMemory, hx, hy]
  split_ifs
  · exact ⟨rfl, rfl, hk⟩
  · exact ⟨rfl, rfl, hk⟩
  · exact ⟨rfl, rfl, hk₁⟩
  · exact ⟨rfl, rfl, hk₁⟩
  · exact ⟨rfl, rfl, hk₁⟩

/-- No method detaches any address but the one in the object. -/
theorem run (h : Alike calls calls' rel o.memoryAddr) (hk : rel k k') (op : Op) :
    Same (Same rel) (o.run calls op k) (o.run calls' op k') := by
  cases op with
  | createMemory => exact h.createMemory hk
  | destroyMemory => exact h.destroyMemory hk
  | attachMemory =>
    obtain ⟨hret, -, ho, hk⟩ := h.attachMemory (o := o) hk
    exact ⟨hret, ho, hk⟩
  | detachMemory pmemoryAddr => exact h.detachMemory hk pmemoryAddr
  | destruct =>
    refine ⟨rfl, ?_⟩
    show Same rel (o.destruct calls k) (o.destruct calls' k')
    unfold ShmOperator.destruct
    split_ifs
    · exact (h.detachMemory hk o.memoryAddr).2
    · exact ⟨rfl, hk⟩

end Alike

end

/-! ### The process -/

/-- An attached address with the object it was attached through, or `none` for other code. -/
structure Mapping (ι : Type*) where
  owner : Option ι
  addr : UInt64
  deriving DecidableEq

/-- The address space in a call made through one object, and the kernel's answers. -/
structure AddressSpace (ι : Type*) where
  maps : List (Mapping ι)
  caller : ι
  answers : Answers

/-- What is attached at an address goes, whoever attached it. -/
def unmap {ι : Type*} (maps : List (Mapping ι)) (addr : UInt64) : List (Mapping ι) :=
  maps.filter fun m => m.addr ≠ addr

/-- `shmat` and `shmdt` as in `worldCalls`, but in the address space of all. -/
def processCalls {ι : Type*} : ShmCalls (AddressSpace ι) where
  shmget _ _ _ v := (v.answers.shmget, v)
  shmat _ v :=
    (v.answers.shmat,
      if v.answers.shmat = shmFailed then v
      else { v with maps := ⟨some v.caller, v.answers.shmat⟩ :: v.maps })
  shmdt addr v :=
    if ∃ m ∈ v.maps, m.addr = addr then ((0, 0), { v with maps := unmap v.maps addr })
    else ((-1, einval), v)
  shmctl _ v := (v.answers.shmctl, v)

/-- The objects, with the last operation on each, and what is attached. -/
structure Process (ι : Type*) where
  obj : ι → ShmOperator
  last : ι → Option (Op × Bool)
  maps : List (Mapping ι)

/-- A method of an object, or what other code does. -/
inductive ProcessAct (ι : Type*)
  | call (who : ι) (op : Op) (a : Answers)
  | shmat (addr : UInt64)
  | shmdt (addr : UInt64)

namespace Process

variable {ι : Type*} [DecidableEq ι]

/-- The addresses attached through an object. -/
def through (maps : List (Mapping ι)) (i : ι) : List UInt64 :=
  (maps.filter fun m => m.owner = some i).map Mapping.addr

/-- What is attached otherwise. -/
def apart (maps : List (Mapping ι)) (i : ι) : List (Mapping ι) :=
  maps.filter fun m => m.owner ≠ some i

/-- An object with what was attached through it. -/
def alone (p : Process ι) (i : ι) : Session := ⟨p.obj i, through p.maps i, p.last i⟩

omit [DecidableEq ι] in
/-- A new address is neither null nor `(char*)-1`, and nothing in the process is there. -/
def MayAttach (p : Process ι) (addr : UInt64) : Prop :=
  addr ≠ null ∧ addr ≠ shmFailed ∧ ∀ m ∈ p.maps, m.addr ≠ addr

instance (p : Process ι) (addr : UInt64) : Decidable (p.MayAttach addr) :=
  inferInstanceAs (Decidable (_ ∧ _ ∧ _))

def call (p : Process ι) (i : ι) (op : Op) (a : Answers) : Process ι :=
  let (ret, o, v) := (p.obj i).run processCalls op ⟨p.maps, i, a⟩
  { obj := Function.update p.obj i o
    last := Function.update p.last i (some (op, ret))
    maps := v.maps }

/-- Other code detaches only what it has attached. -/
def step (p : Process ι) : ProcessAct ι → Option (Process ι)
  | .call i op a =>
    if (p.alone i).destructed = false ∧ (a.shmat = shmFailed ∨ p.MayAttach a.shmat) then
      some (p.call i op a)
    else none
  | .shmat addr => if p.MayAttach addr then some { p with maps := ⟨none, addr⟩ :: p.maps } else none
  | .shmdt addr =>
    if ⟨none, addr⟩ ∈ p.maps then some { p with maps := unmap p.maps addr } else none

omit [DecidableEq ι] in
/-- Constructed objects, in a process that may have attached memory already. -/
structure Initial (p : Process ι) : Prop where
  obj : ∀ i, ∃ key size flag, p.obj i = .construct key size flag
  last : ∀ i, p.last i = none
  maps : ∀ m ∈ p.maps, m.owner = none ∧ m.addr ≠ null ∧ m.addr ≠ shmFailed
  once : ∀ m ∈ p.maps, ∀ m' ∈ p.maps, m.addr = m'.addr → m = m'

end Process

/-- Any number of objects, under any sequence of calls and whatever else the process does. -/
def process (ι : Type*) [DecidableEq ι] : Lts (Process ι) (ProcessAct ι) where
  init := Process.Initial
  step := Process.step

/-! ### What an object holds -/

namespace Session

variable {s t : Session} {a : Answers} {p : Op × Answers}

/-- Nothing, the address of a `shmat` that failed, or what is attached through the object. -/
def Held (s : Session) : Prop :=
  s.obj.memoryAddr = null ∨ s.obj.memoryAddr = shmFailed ∨ s.obj.memoryAddr ∈ s.attached

theorem call_eq_run (op : Op) :
    s.call op a =
      let r := s.obj.run worldCalls op ⟨s.attached, a⟩
      ⟨r.2.1, r.2.2.attached, some (op, r.1)⟩ := by
  cases op <;> rfl

/-- After a `shmat`. -/
theorem held_of_gain (ht : t.attached = gain s.attached a.shmat)
    (hm : t.obj.memoryAddr = a.shmat) : t.Held := by
  unfold Held
  rw [ht, hm, gain]
  split_ifs with hat
  · exact .inr (.inl hat)
  · exact .inr (.inr List.mem_cons_self)

theorem Held.detachMemory (h : s.Held) (addr : UInt64) : (s.call (.detachMemory addr) a).Held := by
  by_cases hidle : s.obj.shmid = -1 ∨ s.obj.memoryAddr = null
  · rw [call_detachMemory_idle hidle]
    exact h
  · by_cases haddr : addr = s.obj.memoryAddr
    · subst haddr
      refine .inl ?_
      by_cases hm : s.obj.memoryAddr ∈ s.attached
      · rw [call_detachMemory hidle hm]
      · simp [call, ShmOperator.detachMemory, if_neg hidle, worldCalls, hm]
    · rw [call_detachMemory_other hidle haddr]
      exact h

theorem Held.destroyMemory (h : s.Held) : (s.call .destroyMemory a).Held := by
  by_cases hid : s.obj.shmid = -1
  · rw [call_destroyMemory_unbound hid]
    exact h
  · by_cases hm : s.obj.memoryAddr = null
    · exact .inl (call_destroyMemory_detached hid hm).2
    · by_cases hin : s.obj.memoryAddr ∈ s.attached
      · exact .inl (call_destroyMemory_attached hid hm hin).2
      · rw [call_destroyMemory_stuck hid hm hin]
        exact h

/-- An object never keeps an address that is detached. -/
theorem Held.call (h : s.Held) (op : Op) (a : Answers) : (s.call op a).Held := by
  cases op with
  | createMemory =>
    by_cases hget : a.shmget = -1
    · rw [call_createMemory_failed hget]
      exact h
    · rw [call_createMemory hget]
      exact held_of_gain rfl rfl
  | attachMemory =>
    rw [call_attachMemory]
    exact held_of_gain rfl rfl
  | destroyMemory => exact h.destroyMemory
  | detachMemory addr => exact h.detachMemory addr
  | destruct =>
    by_cases hm : s.obj.memoryAddr = null
    · rw [call_destruct_null hm]
      exact .inl hm
    · rw [call_destruct hm]
      exact h.detachMemory _

/-- Only the address that `shmat` answers is new. -/
theorem attached_call (op : Op) (a : Answers) {addr : UInt64}
    (h : addr ∈ (s.call op a).attached) :
    addr ∈ s.attached ∨ addr = a.shmat ∧ a.shmat ≠ shmFailed := by
  have hgain : addr ∈ gain s.attached a.shmat →
      addr ∈ s.attached ∨ addr = a.shmat ∧ a.shmat ≠ shmFailed := by
    unfold gain
    split_ifs with hat
    · exact .inl
    · exact fun hm => (List.mem_cons.mp hm).symm.imp_right fun he => ⟨he, hat⟩
  cases op with
  | createMemory =>
    by_cases hget : a.shmget = -1
    · rw [call_createMemory_failed hget] at h
      exact .inl h
    · rw [call_createMemory hget] at h
      exact hgain h
  | attachMemory =>
    rw [call_attachMemory] at h
    exact hgain h
  | destroyMemory => exact .inl (destroyMemory_subset h)
  | detachMemory pmemoryAddr => exact .inl (detachMemory_subset pmemoryAddr h)
  | destruct =>
    by_cases hm : s.obj.memoryAddr = null
    · rw [call_destruct_null hm] at h
      exact .inl h
    · rw [call_destruct hm] at h
      exact .inl (detachMemory_subset _ h)

end Session

/-! ### One object among the others -/

namespace Process

variable {ι : Type*} [DecidableEq ι] {p q : Process ι} {i : ι} {op : Op} {a : Answers}
  {maps maps₀ : List (Mapping ι)} {addr : UInt64}

omit [DecidableEq ι] in
theorem mem_unmap {m : Mapping ι} : m ∈ unmap maps addr ↔ m ∈ maps ∧ m.addr ≠ addr := by
  simp [unmap]

theorem mem_through : addr ∈ through maps i ↔ ⟨some i, addr⟩ ∈ maps := by
  unfold through
  rw [List.mem_map]
  constructor
  · rintro ⟨⟨owner, addr⟩, hm, rfl⟩
    obtain ⟨hm, ho⟩ := List.mem_filter.mp hm
    obtain rfl : owner = some i := of_decide_eq_true ho
    exact hm
  · exact fun hm => ⟨_, List.mem_filter.mpr ⟨hm, decide_eq_true rfl⟩, rfl⟩

theorem through_unmap : through (unmap maps addr) i = (through maps i).filter (· ≠ addr) := by
  unfold through unmap
  rw [List.filter_filter, List.filter_map, List.filter_filter]
  congr 1
  exact List.filter_congr fun m _ => Bool.and_comm _ _

/-- What is attached apart from one object tells what is attached through another. -/
theorem through_congr {j : ι} (hj : j ≠ i) (h : apart maps i = apart maps₀ i) :
    through maps j = through maps₀ j := by
  have hof : ∀ maps : List (Mapping ι), through maps j = through (apart maps i) j := by
    intro maps
    unfold through apart
    rw [List.filter_filter]
    congr 1
    refine List.filter_congr fun m _ => ?_
    by_cases ho : m.owner = some j
    · simp [ho, hj]
    · simp [ho]
  rw [hof maps, h, ← hof maps₀]

theorem rest_congr (h : apart maps i = apart maps₀ i) {m : Mapping ι} (ho : m.owner = none) :
    m ∈ maps ↔ m ∈ maps₀ := by
  have hof : ∀ maps : List (Mapping ι), m ∈ maps ↔ m ∈ apart maps i := by
    intro maps
    simp [apart, ho]
  rw [hof maps, h, ← hof maps₀]

/-- The address space as one object sees it, the rest being as it was. -/
structure Seen (i : ι) (maps₀ : List (Mapping ι)) (v : AddressSpace ι) (w : World) : Prop where
  caller : v.caller = i
  answers : v.answers = w.answers
  through : through v.maps i = w.attached
  apart : apart v.maps i = apart maps₀ i

theorem Seen.mem_iff {v : AddressSpace ι} {w : World} (h : Seen i maps₀ v w)
    (hown : ∀ m ∈ maps₀, m.addr = addr → m.owner = some i) :
    (∃ m ∈ v.maps, m.addr = addr) ↔ addr ∈ w.attached := by
  rw [← h.through, mem_through]
  constructor
  · rintro ⟨⟨owner, addr'⟩, hm, rfl⟩
    by_cases ho : owner = some i
    · rw [← ho]
      exact hm
    · have hap : ⟨owner, addr'⟩ ∈ Process.apart v.maps i :=
        List.mem_filter.mpr ⟨hm, decide_eq_true ho⟩
      rw [h.apart] at hap
      exact absurd (hown _ (List.mem_of_mem_filter hap) rfl) ho
  · exact fun hm => ⟨_, hm, rfl⟩

theorem Seen.unmap {v : AddressSpace ι} {w : World} (h : Seen i maps₀ v w)
    (hown : ∀ m ∈ maps₀, m.addr = addr → m.owner = some i) :
    Seen i maps₀ { v with maps := Shm.unmap v.maps addr }
      { w with attached := w.attached.filter (· ≠ addr) } where
  caller := h.caller
  answers := h.answers
  through := by rw [← h.through, through_unmap]
  apart := by
    have hap : Process.apart (Shm.unmap v.maps addr) i =
        (Process.apart v.maps i).filter fun m => m.addr ≠ addr := by
      unfold Process.apart Shm.unmap
      rw [List.filter_filter, List.filter_filter]
      exact List.filter_congr fun m _ => Bool.and_comm _ _
    rw [hap, h.apart, List.filter_eq_self]
    intro m hm
    obtain ⟨hm, ho⟩ := List.mem_filter.mp hm
    exact decide_eq_true fun he => of_decide_eq_true ho (hown m hm he)

/-- Where nobody else has attached the address, the object sees the world it would see alone. -/
theorem alike (hown : ∀ m ∈ maps₀, m.addr = addr → m.owner = some i) :
    Alike processCalls worldCalls (Seen i maps₀) addr where
  shmget _ _ _ h := ⟨congrArg Answers.shmget h.answers, h⟩
  shmat := by
    intro v w _ h
    refine ⟨congrArg Answers.shmat h.answers, ?_⟩
    simp only [processCalls, worldCalls, ← h.answers]
    split_ifs
    · exact h
    · refine ⟨h.caller, rfl, ?_, ?_⟩
      · simp [Process.through, h.caller, ← h.through]
      · simp only [Process.apart, h.caller]
        rw [List.filter_cons_of_neg (by simp)]
        exact h.apart
  shmdt h := by
    simp only [processCalls, worldCalls, h.mem_iff hown]
    split_ifs
    · exact ⟨rfl, h.unmap hown⟩
    · exact ⟨rfl, h⟩
  shmctl _ h := ⟨congrArg Answers.shmctl h.answers, h⟩

/-- Nothing is attached at one address twice, and no object holds an address of another. -/
structure Sound (p : Process ι) : Prop where
  once : ∀ m ∈ p.maps, ∀ m' ∈ p.maps, m.addr = m'.addr → m = m'
  valid : ∀ m ∈ p.maps, m.addr ≠ null ∧ m.addr ≠ shmFailed
  held : ∀ i, (p.alone i).Held

theorem Initial.sound (hi : p.Initial) : p.Sound where
  once := hi.once
  valid := fun m hm => (hi.maps m hm).2
  held := by
    intro i
    obtain ⟨key, size, flag, ho⟩ := hi.obj i
    refine .inl ?_
    show (p.obj i).memoryAddr = null
    rw [ho]
    rfl

theorem Sound.own (h : p.Sound) (i : ι) :
    ∀ m ∈ p.maps, m.addr = (p.obj i).memoryAddr → m.owner = some i := by
  intro m hm he
  obtain ⟨hnull, hfailed⟩ := h.valid m hm
  have hin : (p.obj i).memoryAddr ∈ through p.maps i :=
    ((h.held i).resolve_left fun hn => hnull (he.trans hn)).resolve_left fun hf =>
      hfailed (he.trans hf)
  rw [mem_through, ← he] at hin
  rw [h.once m hm _ hin rfl]

/-- A call is the object's own, and leaves everything else where it is. -/
theorem Sound.call (h : p.Sound) (i : ι) (op : Op) (a : Answers) :
    (p.call i op a).alone i = (p.alone i).call op a ∧
      apart (p.call i op a).maps i = apart p.maps i := by
  have hseen : Seen i p.maps ⟨p.maps, i, a⟩ ⟨through p.maps i, a⟩ := ⟨rfl, rfl, rfl, rfl⟩
  obtain ⟨hret, ho, hk⟩ := (alike (h.own i)).run hseen op
  refine ⟨?_, hk.apart⟩
  rw [Session.call_eq_run]
  simp only [alone, Process.call, Function.update_self, hret, ho, hk.through]

/-- The other objects do not notice. -/
theorem Sound.call_other (h : p.Sound) {j : ι} (hj : j ≠ i) :
    (p.call i op a).alone j = p.alone j := by
  unfold alone
  rw [through_congr hj (h.call i op a).2]
  simp only [Process.call, Function.update_of_ne hj]

theorem Sound.mem_call (h : p.Sound) {m : Mapping ι} (hm : m ∈ (p.call i op a).maps) :
    m ∈ p.maps ∨ m = ⟨some i, a.shmat⟩ ∧ a.shmat ≠ shmFailed := by
  obtain ⟨hsess, hap⟩ := h.call i op a
  obtain ⟨owner, addr⟩ := m
  by_cases ho : owner = some i
  · subst ho
    have hin : addr ∈ ((p.alone i).call op a).attached := by
      rw [← hsess]
      exact mem_through.mpr hm
    rcases Session.attached_call op a hin with hold | ⟨rfl, hat⟩
    · exact .inl (mem_through.mp hold)
    · exact .inr ⟨rfl, hat⟩
  · have hin : ⟨owner, addr⟩ ∈ apart (p.call i op a).maps i :=
      List.mem_filter.mpr ⟨hm, decide_eq_true ho⟩
    rw [hap] at hin
    exact .inl (List.mem_of_mem_filter hin)

omit [DecidableEq ι] in
/-- One more attachment, at an address that is free. -/
theorem once_of_fresh (m₀ : Mapping ι)
    (hp : ∀ m ∈ p.maps, ∀ m' ∈ p.maps, m.addr = m'.addr → m = m') (hm₀ : p.MayAttach m₀.addr)
    (hq : ∀ m ∈ q.maps, m ∈ p.maps ∨ m = m₀) :
    ∀ m ∈ q.maps, ∀ m' ∈ q.maps, m.addr = m'.addr → m = m' := by
  intro m hm m' hm' he
  rcases hq m hm with hm | rfl
  · rcases hq m' hm' with hm' | rfl
    · exact hp m hm m' hm' he
    · exact absurd he (hm₀.2.2 m hm)
  · rcases hq m' hm' with hm' | rfl
    · exact absurd he.symm (hm₀.2.2 m' hm')
    · rfl

/-- What other code does is nothing to the objects. -/
theorem Sound.rest (h : p.Sound) (hstep : maps = ⟨none, addr⟩ :: p.maps ∨
      (⟨none, addr⟩ ∈ p.maps ∧ maps = unmap p.maps addr)) (i : ι) :
    alone { p with maps := maps } i = p.alone i := by
  have hthrough : through maps i = through p.maps i := by
    rcases hstep with he | ⟨hm, he⟩
    · rw [he]
      unfold through
      rw [List.filter_cons_of_neg (by simp)]
    · rw [he, through_unmap, List.filter_eq_self]
      intro x hx
      refine decide_eq_true ?_
      rintro rfl
      cases h.once _ hm _ (mem_through.mp hx) rfl
  simp only [alone, hthrough]

/-- The calls of one object. -/
def callsOf (i : ι) : ProcessAct ι → Option (Op × Answers)
  | .call who op a => if who = i then some (op, a) else none
  | .shmat _ | .shmdt _ => none

/-- Everything a step can do. -/
theorem step_cases {l : ProcessAct ι} (h : p.step l = some q) :
    (∃ i op a, l = .call i op a ∧ (p.alone i).destructed = false ∧
        (a.shmat = shmFailed ∨ p.MayAttach a.shmat) ∧ q = p.call i op a) ∨
      (∃ addr, l = .shmat addr ∧ p.MayAttach addr ∧
        q = { p with maps := ⟨none, addr⟩ :: p.maps }) ∨
      ∃ addr, l = .shmdt addr ∧ ⟨none, addr⟩ ∈ p.maps ∧
        q = { p with maps := unmap p.maps addr } := by
  cases l with
  | call i op a =>
    obtain ⟨⟨hd, ha⟩, h⟩ := Option.ite_none_right_eq_some.mp h
    exact .inl ⟨i, op, a, rfl, hd, ha, (Option.some.inj h).symm⟩
  | shmat addr =>
    obtain ⟨ha, h⟩ := Option.ite_none_right_eq_some.mp h
    exact .inr (.inl ⟨addr, rfl, ha, (Option.some.inj h).symm⟩)
  | shmdt addr =>
    obtain ⟨hm, h⟩ := Option.ite_none_right_eq_some.mp h
    exact .inr (.inr ⟨addr, rfl, hm, (Option.some.inj h).symm⟩)

theorem Sound.step {l : ProcessAct ι} (h : p.Sound) (hk : p.step l = some q) : q.Sound := by
  obtain ⟨i, op, a, -, -, ha, rfl⟩ | ⟨addr, -, ha, rfl⟩ | ⟨addr, -, hm, rfl⟩ := step_cases hk
  · refine ⟨?_, fun m hm => ?_, fun j => ?_⟩
    · rcases ha with hfailed | hfree
      · intro m hm m' hm'
        exact h.once m ((h.mem_call hm).resolve_right fun hx => hx.2 hfailed)
          m' ((h.mem_call hm').resolve_right fun hx => hx.2 hfailed)
      · exact once_of_fresh ⟨some i, a.shmat⟩ h.once hfree
          fun m hm => (h.mem_call hm).imp_right And.left
    · rcases h.mem_call hm with hm | ⟨rfl, hat⟩
      · exact h.valid m hm
      · exact ⟨(ha.resolve_left hat).1, hat⟩
    · by_cases hj : j = i
      · rw [hj, (h.call i op a).1]
        exact (h.held i).call op a
      · rw [h.call_other hj]
        exact h.held j
  · refine ⟨?_, List.forall_mem_cons.mpr ⟨⟨ha.1, ha.2.1⟩, h.valid⟩, fun j => ?_⟩
    · exact once_of_fresh ⟨none, addr⟩ h.once ha
        fun m hm => (List.mem_cons.mp hm).symm
    · have halone : alone { p with maps := ⟨none, addr⟩ :: p.maps } j = p.alone j :=
        h.rest (.inl rfl) j
      rw [halone]
      exact h.held j
  · refine ⟨fun m hm' m' hm'' => ?_, fun m hm' => h.valid m (mem_unmap.mp hm').1, fun j => ?_⟩
    · exact h.once m (mem_unmap.mp hm').1 m' (mem_unmap.mp hm'').1
    · have halone : alone { p with maps := unmap p.maps addr } j = p.alone j :=
        h.rest (.inr ⟨hm, rfl⟩) j
      rw [halone]
      exact h.held j

/-- The object makes its own calls. -/
theorem Sound.alone_moves {l : ProcessAct ι} (h : p.Sound) (hk : p.step l = some q) {i : ι}
    {b : Op × Answers} (hl : callsOf i l = some b) :
    session.step (p.alone i) b = some (q.alone i) := by
  obtain ⟨i', op, a, rfl, hd, ha, rfl⟩ | ⟨addr, rfl, -, -⟩ | ⟨addr, rfl, -, -⟩ := step_cases hk
  · obtain ⟨rfl, hb⟩ := Option.ite_none_right_eq_some.mp hl
    cases hb
    rw [(h.call _ op a).1]
    refine if_pos ⟨hd, ha.imp_right fun hfree => ⟨hfree.1, fun hm => ?_⟩⟩
    exact hfree.2.2 _ (mem_through.mp hm) rfl
  · cases hl
  · cases hl

theorem Sound.alone_stays {l : ProcessAct ι} (h : p.Sound) (hk : p.step l = some q) {i : ι}
    (hl : callsOf i l = none) : q.alone i = p.alone i := by
  obtain ⟨i', op, a, rfl, -, -, rfl⟩ | ⟨addr, rfl, -, rfl⟩ | ⟨addr, rfl, hm, rfl⟩ := step_cases hk
  · refine h.call_other fun he => ?_
    rw [he] at hl
    simp [callsOf] at hl
  · exact h.rest (.inl rfl) i
  · exact h.rest (.inr ⟨hm, rfl⟩) i

/-- A method leaves alone what other code has attached. -/
def SparesRest (p : Process ι) (l : ProcessAct ι) : Prop :=
  ∀ i op a, l = .call i op a → ∀ addr, ⟨none, addr⟩ ∈ (p.call i op a).maps ↔ ⟨none, addr⟩ ∈ p.maps

theorem Sound.sparesRest (h : p.Sound) (l : ProcessAct ι) : p.SparesRest l := by
  rintro i op a - addr
  exact rest_congr (h.call i op a).2 rfl

end Process

/-- In every run of a process each object goes through a run of its own, the one of a single
object in `session`: only its own calls change it or detach what was attached through it, and
none detaches what other code has attached. -/
theorem objects_isolated {ι : Type*} [DecidableEq ι] {p₀ p : Process ι}
    {tr : List (Process ι × ProcessAct ι)} (hi : p₀.Initial) (hr : Run (process ι) p₀ tr p) :
    (∀ i, (p₀.alone i).Initial ∧
      Run session (p₀.alone i) (seen (·.alone i) (Process.callsOf i) tr) (p.alone i)) ∧
      Always Process.SparesRest tr := by
  have hinv : ∀ u l v, Process.Sound u → (process ι).step u l = some v → v.Sound :=
    fun _ _ _ hu hk => hu.step hk
  refine ⟨fun i => ⟨?_, ?_⟩, ?_⟩
  · obtain ⟨key, size, flag, ho⟩ := hi.obj i
    have hnone : Process.through p₀.maps i = [] := by
      refine List.eq_nil_iff_forall_not_mem.mpr fun addr hm => ?_
      cases (hi.maps _ (Process.mem_through.mp hm)).1
    exact ⟨key, size, flag, by rw [Process.alone, ho, hnone, hi.last i]⟩
  · exact hr.view hinv (fun _ _ _ _ hu hk hl => hu.alone_moves hk hl)
      (fun _ _ _ hu hk hl => hu.alone_stays hk hl) hi.sound
  · have halong := (hr.along_of_always (G := fun _ _ => True)
      (fun u l v hu _ hk => hinv u l v hu hk) hi.sound fun _ _ => trivial).1
    exact fun x hx => (halong x hx).sparesRest x.2

/-- Two objects with keys of their own. -/
def twoObjects : Process Bool where
  obj i := .construct (if i then 1234 else 4321) 100 950
  last _ := none
  maps := [⟨none, 4096⟩]

theorem initial_twoObjects : twoObjects.Initial where
  obj i := ⟨_, 100, 950, rfl⟩
  last _ := rfl
  maps := by
    simp only [twoObjects, List.forall_mem_singleton]
    decide
  once := by
    intro m hm m' hm' _
    rw [List.mem_singleton.mp hm, List.mem_singleton.mp hm']

/-- The first object detaches, and the second gets the address. -/
def addressReused : List (ProcessAct Bool) := [
  .call false .createMemory ⟨7, 8192, 0⟩, .call false (.detachMemory 8192) ⟨7, shmFailed, 0⟩,
  .call true .attachMemory ⟨8, 8192, 0⟩, .call false .destruct ⟨7, shmFailed, 0⟩]

theorem objects_isolated_address_reused : ∃ p tr, Run (process Bool) twoObjects tr p ∧
    p.maps = [⟨some true, 8192⟩, ⟨none, 4096⟩] ∧
    Run session (twoObjects.alone true)
      (seen (·.alone true) (Process.callsOf true) tr) (p.alone true) := by
  obtain ⟨p, hr, hm⟩ := exists_run_of_exec (S := process Bool) twoObjects addressReused
    (P := fun p => p.maps = [⟨some true, 8192⟩, ⟨none, 4096⟩]) (by decide +kernel)
  exact ⟨p, _, hr, hm, ((objects_isolated initial_twoObjects hr).1 true).2⟩

end BaseCom.Shm
