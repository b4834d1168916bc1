import BaseCom.Epoll.Ownership

/-! Messages the reader rejects. The acceptor takes any non-negative result of `accept` for
a descriptor, the reader returns from its loop on a message whose descriptor is not
positive. The two tests differ on descriptor 0, which `accept` returns as soon as nothing
else holds that number. -/

namespace BaseCom.Epoll

open Transition

namespace Sys

/-- The reader has not returned, and it accepts every message written. -/
def Accepting (s : Sys) : Prop := s.reader ≠ .returned ∧ ∀ m ∈ s.pipe.sent, 0 < m.fd

instance (s : Sys) : Decidable s.Accepting := inferInstanceAs (Decidable (_ ∧ _))

/-- The message written is not one for descriptor 0. -/
def WritesNotZero (s : Sys) : Act → Prop
  | .acceptor (.writePipe _ true) => ∀ h ∈ s.acceptor.hand, h.fd ≠ 0
  | _ => True

/-- Descriptor 0 is none of a connection. -/
def ZeroTaken (s : Sys) : Prop := s.kern.file 0 = some .other

/-- The acceptor has no descriptor in its hand that `accept` did not return as one. -/
structure Handed (s : Sys) : Prop where
  sound : s.Sound
  nonneg : ∀ h ∈ s.acceptor.hand, 0 ≤ h.fd

variable {listenfd : Int32} {s t : Sys} {a : Act}

theorem Initial.handed (hs : s.Initial) : s.Handed := by
  refine ⟨hs.sound, ?_⟩
  rw [hs.acceptor]
  exact List.forall_mem_nil _

theorem Initial.accepting (hs : s.Initial) : s.Accepting := by
  refine ⟨?_, ?_⟩
  · rw [hs.reader]
    exact Reader.noConfusion
  · rw [hs.pipe.2.2.1]
    exact List.forall_mem_nil _

theorem Handed.step (hs : s.Handed) (hst : Step listenfd s a t) : t.Handed := by
  refine ⟨hs.sound.step hst, ?_⟩
  have hkeep := hs.nonneg
  cases hst with
  | listenReport _ _ | listenTimeout _ | acceptFails _ | closeClient _ =>
    rw [Acceptor.hand_forEvents]
    exact List.forall_mem_nil _
  | accept ha hfd =>
    unfold Acceptor.afterAccept
    split_ifs with hpos
    · exact List.forall_mem_singleton.mpr hpos
    · rw [Acceptor.hand_forEvents]
      exact List.forall_mem_nil _
  | readOnce ha | writeFails ha =>
    rw [ha] at hkeep
    exact hkeep
  | writePipe ha =>
    rw [Acceptor.afterWrite, if_neg (by simp), Acceptor.hand_forEvents]
    exact List.forall_mem_nil _
  | _ => exact hkeep

/-! ### Where the reader returns -/

theorem forEvents_ne_returned (events : List (EpollEvent Handle)) :
    Reader.forEvents events ≠ .returned := by
  cases events with
  | nil => exact Reader.noConfusion
  | cons e rest =>
    rw [Reader.forEvents_cons]
    split <;> exact Reader.noConfusion

theorem afterRead_ne_returned (r : ReadResult) (h : Handle) (rest : List (EpollEvent Handle)) :
    Reader.afterRead r h rest ≠ .returned := by
  unfold Reader.afterRead
  split
  · exact forEvents_ne_returned rest
  · exact Reader.noConfusion
  · exact forEvents_ne_returned rest
  · exact Reader.noConfusion
  · exact Reader.noConfusion

theorem afterSetNoBlocking_ne_returned (ok : Bool) (h : Handle) :
    Reader.afterSetNoBlocking ok h ≠ .returned := by
  unfold Reader.afterSetNoBlocking
  split <;> exact Reader.noConfusion

/-- Only a message just read makes the reader return, and only one it rejects. -/
theorem Sound.returned_iff (hs : s.Sound) (hst : Step listenfd s a t) (hr : s.reader ≠ .returned) :
    t.reader = .returned ↔
      a = .reader (.readPipe true) ∧ ∃ h rest, s.inFlight = h :: rest ∧ h.fd ≤ 0 := by
  cases hst with
  | readPipe hr' hi =>
    rename_i h rest
    show Reader.afterReadPipe s.pipe.read.1 h.conn = .returned ↔ _
    rw [(hs.read_inFlight hi).2, hi]
    split_ifs with hfd
    · exact iff_of_true rfl ⟨rfl, h, rest, rfl, hfd⟩
    · refine iff_of_false id ?_
      rintro ⟨-, g, gs, ⟨⟩, hg⟩
      exact hfd hg
  | readEmpty hr' hi =>
    have hagain : Reader.afterReadPipe s.pipe.read.1 s.kern.nextConn = .readPipe := by
      rw [hs.read_empty hi]
      rfl
    refine iff_of_false (fun hret => ?_) ?_
    · cases hagain.symm.trans hret
    · rintro ⟨-, g, gs, hg, -⟩
      cases hi.symm.trans hg
  | setNoBlocking _ => exact iff_of_false (afterSetNoBlocking_ne_returned _ _) fun h => by cases h.1
  | epollWait _ _ | closeError _ =>
    exact iff_of_false (forEvents_ne_returned _) fun h => by cases h.1
  | readClient _ _ => exact iff_of_false (afterRead_ne_returned _ _ _) fun h => by cases h.1
  | readFails _ | epollAdd _ _ _ | epollAddFails _ | closeUnregistered _ | closePeer _ =>
    refine iff_of_false (fun hret => ?_) fun h => by cases h.1
    cases hret
  | _ => exact iff_of_false hr fun h => by cases h.1

theorem read_sent (p : Handoff) : p.read.2.sent = p.sent := by
  simp only [Handoff.read]
  split <;> rfl

/-- A message in flight has been written. -/
theorem Sound.sent_of_inFlight (hs : s.Sound) {h : Handle} (hh : h ∈ s.inFlight) :
    s.kern.announce h ∈ s.pipe.sent := by
  rw [hs.pipe.1]
  exact List.mem_append_right _ (List.mem_map_of_mem hh)

/-- Of all steps only a message for descriptor 0 is one the reader rejects. -/
theorem Accepting.step_iff (hs : s.Handed) (hg : s.Accepting) (hst : Step listenfd s a t) :
    t.Accepting ↔ s.WritesNotZero a := by
  have hloops : t.reader ≠ .returned := by
    intro hret
    obtain ⟨-, h, rest, hi, hfd⟩ := (hs.sound.returned_iff hst hg.1).mp hret
    have hmem : h ∈ s.inFlight := by
      rw [hi]
      exact List.mem_cons_self
    have hpos := hg.2 _ (hs.sound.sent_of_inFlight hmem)
    exact absurd hpos (Int32.not_lt.mpr hfd)
  have hkeep : t.pipe.sent = s.pipe.sent → t.Accepting := by
    intro hsent
    refine ⟨hloops, ?_⟩
    rw [hsent]
    exact hg.2
  cases hst with
  | writePipe ha =>
    rename_i garbage h msg rest
    have hmsg : msg = s.kern.announce h := hs.sound.message (h, msg) (by rw [ha]; rfl)
    have hnonneg : 0 ≤ h.fd := by
      have hn := hs.nonneg
      rw [ha] at hn
      exact hn h (List.mem_singleton_self h)
    have hnew : 0 < msg.fd ↔ h.fd ≠ 0 := by
      rw [hmsg]
      exact ⟨fun hlt he => by simp [Kernel.announce, he] at hlt,
        fun hne => Int32.lt_of_le_of_ne hnonneg (Ne.symm hne)⟩
    have hhand : s.WritesNotZero (.acceptor (.writePipe garbage true)) ↔ h.fd ≠ 0 := by
      simp only [WritesNotZero, ha, Acceptor.hand, List.forall_mem_singleton]
    rw [hhand, ← hnew]
    constructor
    · exact fun ht => ht.2 msg (List.mem_append_right _ (List.mem_singleton_self msg))
    · refine fun hpos => ⟨hloops, fun m hm => ?_⟩
      rcases List.mem_append.mp hm with hm | hm
      · exact hg.2 m hm
      · rwa [List.mem_singleton.mp hm]
  | readPipe _ _ | readEmpty _ _ => exact iff_of_true (hkeep (read_sent _)) trivial
  | _ => exact iff_of_true (hkeep rfl) trivial

/-! ### Descriptor 0 -/

/-- Neither thread closes a descriptor that is not a connection's. -/
theorem ZeroTaken.step (hs : s.Sound) (hz : s.ZeroTaken) (hst : Step listenfd s a t) :
    t.ZeroTaken := by
  have hclose : ∀ h : Handle, s.kern.file h.fd = some (.conn h.conn) →
      (s.kern.close h.fd).file 0 = some .other := by
    intro h hf
    have hne : (0 : Int32) ≠ h.fd := by
      intro he
      rw [← he, hz] at hf
      cases hf
    rw [← hz]
    exact Function.update_of_ne hne _ _
  cases hst with
  | accept ha hfd =>
    rename_i fd rest
    unfold ZeroTaken Kernel.accept
    simp only
    split_ifs with hpos
    · have hne : (0 : Int32) ≠ fd := by
        intro he
        have hfree := (hfd.resolve_left (Int32.not_lt.mpr hpos)).2
        rw [← he, hz] at hfree
        cases hfree
      rw [Function.update_of_ne hne]
      exact hz
    · exact hz
  | closeClient ha => exact hclose _ (hs.target_file (.inl (by rw [ha]; rfl)))
  | closeUnregistered hr | closePeer hr | closeError hr =>
    exact hclose _ (hs.target_file (.inr (by rw [hr]; rfl)))
  | readOnce _ | readClient _ _ => exact (congrFun (Kernel.read_file ..) 0).trans hz
  | _ => exact hz

theorem ZeroTaken.writesNotZero (hs : s.Sound) (hz : s.ZeroTaken) : s.WritesNotZero a := by
  have hne : ∀ h ∈ s.acceptor.hand, h.fd ≠ 0 := by
    intro h hh he
    have hf := hs.hand_file hh
    rw [he, hz] at hf
    cases hf
  unfold WritesNotZero
  split
  · exact hne
  · trivial

end Sys

/-- In every state of a run the reader has not returned and accepts every message written,
if and only if none was written for descriptor 0. Where descriptor 0 is open from the
start, none ever is. -/
theorem reader_accepts_iff {listenfd : Int32} {s₀ s : Sys} {tr : List (Sys × Act)}
    (hi : s₀.Initial) (hr : Run (server listenfd) s₀ tr s) :
    (Always (fun u _ => u.Accepting) tr ∧ s.Accepting ↔ Always Sys.WritesNotZero tr) ∧
      (s₀.kern.file 0 ≠ none → Always Sys.WritesNotZero tr) := by
  constructor
  · exact hr.along_iff (fun _ _ _ hu hk => hu.step (Sys.step_cases hk))
      (fun _ _ _ hu hg hk => hg.step_iff hu (Sys.step_cases hk)) hi.handed hi.accepting
  · intro hopen
    have hzero : s₀.ZeroTaken := by
      unfold Sys.ZeroTaken
      cases hf : s₀.kern.file 0 with
      | none => exact absurd hf hopen
      | some file =>
        cases file with
        | conn c => exact absurd hf (hi.file 0 c)
        | other => rfl
    have hstep : ∀ u a v, (u.Sound ∧ u.ZeroTaken) → True → (server listenfd).step u a = some v →
        v.Sound ∧ v.ZeroTaken :=
      fun _ _ _ ⟨hu, hz⟩ _ hk => ⟨hu.step (Sys.step_cases hk), hz.step hu (Sys.step_cases hk)⟩
    have halong := (hr.along_of_always hstep ⟨hi.sound, hzero⟩ fun _ _ => trivial).1
    exact fun p hp => (halong p hp).2.writesNotZero (halong p hp).1

/-- A process that closed its standard input before it started the threads. -/
def daemon : Sys :=
  { Sys.start with kern := { Sys.start.kern with
      file := fun fd => if 1 ≤ fd ∧ fd ≤ 7 then some .other else none } }

theorem initial_daemon : daemon.Initial := by
  refine { Sys.initial_start with file := ?_ }
  intro fd c h
  simp only [daemon] at h
  split_ifs at h
  cases h

/-- The first client, as number 8. -/
theorem reader_accepts_first_client : ∃ s tr, Run (server 5) Sys.start tr s ∧
    s.reader = .epollWait ∧ Always (fun u _ => u.Accepting) tr ∧ s.Accepting := by
  obtain ⟨s, hr, hw⟩ := exists_run_of_exec (S := server 5) Sys.start firstClient
    (P := fun s => s.reader = .epollWait) (by decide +kernel)
  have hboth := reader_accepts_iff Sys.initial_start hr
  exact ⟨s, _, hr, hw, hboth.1.mpr (hboth.2 (by decide))⟩

/-- With descriptor 0 free, the first client is accepted as number 0, and its message ends
the reader. -/
theorem reader_returns_on_zero :
    ¬ ∀ listenfd s, Reachable (server listenfd) s → s.reader ≠ .returned := by
  intro hall
  obtain ⟨s, hr, hret⟩ := exists_reachable_of_exec (S := server 5) initial_daemon [
    .env (.connect ⟨16777343, 4660⟩), .acceptor (.epollWait true), .acceptor (.accept 0),
    .acceptor (.readClient (some .eintr)), .acceptor (.writePipe .zero true),
    .reader (.readPipe true)] (P := fun s => s.reader = .returned) (by decide +kernel)
  exact hall 5 s hr hret

end BaseCom.Epoll
