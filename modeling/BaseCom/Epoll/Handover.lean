import BaseCom.Epoll.Lifecycle
import BaseCom.Transition.Progress

/-! How long a message waits. One pass of the reader's loop takes one message off the pipe
and handles at most one batch of events, so it is bounded whatever the clients do, and each
message is registered after a number of the reader's calls that its place on the pipe fixes.
Neither the accept thread nor the clients can put it off. -/

namespace BaseCom.Epoll

open Transition

/-- The calls a pass can make: the poll, `fcntl`, `epoll_ctl`, `epoll_wait`, one call for
each of 1024 events, and a `close`. -/
def passLength : ℕ := 1029

namespace Reader

/-- The calls the reader can make before it polls the pipe again. -/
def callsLeft : Reader → ℕ
  | .readPipe | .returned | .exited => 0
  | .setNoBlocking _ => 1028
  | .epollAdd _ | .closeUnregistered _ => 1027
  | .epollWait => 1026
  | .readClient _ rest | .closeError _ rest => rest.length + 2
  | .closePeer _ => 1

theorem callsLeft_forEvents (events : List (EpollEvent Handle)) :
    (forEvents events).callsLeft ≤ events.length + 1 := by
  cases events with
  | nil => exact Nat.zero_le _
  | cons e rest =>
    rw [forEvents_cons]
    split <;> exact Nat.le_refl _

theorem callsLeft_afterRead (r : ReadResult) (h : Handle) (rest : List (EpollEvent Handle)) :
    (afterRead r h rest).callsLeft ≤ rest.length + 1 := by
  unfold afterRead
  split
  · exact callsLeft_forEvents rest
  · exact Nat.zero_le _
  · exact callsLeft_forEvents rest
  · exact Nat.zero_le _
  · exact Nat.le_add_left _ _

end Reader

/-- A call of the reader, but for a poll that was interrupted. -/
def Act.reads : Act → Bool
  | .reader (.readPipe ok) => ok
  | .reader _ => true
  | _ => false

namespace Sys

/-- `fcntl` and `epoll_ctl` succeed. -/
def Unhindered (_ : Sys) : Act → Prop
  | .reader (.setNoBlocking ok) => ok = true
  | .reader (.epollAdd ok) => ok = true
  | _ => True

/-- The reader registers a connection. -/
def Registers (h : Handle) (s : Sys) (a : Act) : Prop :=
  s.reader = .epollAdd h ∧ a = .reader (.epollAdd true)

/-- The calls the reader can make before it registers a connection. -/
def callsBefore (h : Handle) (s : Sys) : ℕ :=
  if h ∈ s.inFlight then s.reader.callsLeft + passLength * s.inFlight.idxOf h + 2
  else if s.reader = .setNoBlocking h then 1 else 0

/-- A server that cannot take descriptor 0 for a connection, so its reader loops. -/
structure Steady (s : Sys) : Prop where
  balanced : s.Balanced
  zero : s.ZeroTaken
  looping : s.reader ≠ .returned

/-- A connection on the pipe or in the reader's hand. -/
structure Awaited (h : Handle) (s : Sys) : Prop where
  steady : s.Steady
  waits : h ∈ s.inFlight ∨ s.reader = .setNoBlocking h ∨ s.reader = .epollAdd h

variable {listenfd : Int32} {s t : Sys} {a : Act} {h : Handle}

theorem callsBefore_of_mem (hm : h ∈ s.inFlight) :
    callsBefore h s = s.reader.callsLeft + passLength * s.inFlight.idxOf h + 2 := if_pos hm

theorem Sound.notMem_of_hand (hs : s.Sound) (hh : h ∈ s.reader.hand) : h ∉ s.inFlight := by
  have hnodup : s.front.Nodup := (List.Nodup.of_map _ hs.tracks.owned.once).of_append_left
  have hbehind := (List.nodup_append'.mp hnodup).2.1
  exact fun hm => (List.nodup_append'.mp hbehind).2.2 hm hh

/-- The messages on the pipe are for positive numbers. -/
theorem Steady.pos (hw : s.Steady) (hg : h ∈ s.inFlight) : ¬ h.fd ≤ 0 := by
  obtain ⟨hs, lost, he⟩ := hw.balanced
  have hheld : h ∈ s.held := by
    apply mem_held.mpr
    exact .inr (List.mem_append_right _ (List.mem_append_left _ hg))
  intro hle
  have hzero : h.fd = 0 := Int32.le_antisymm hle (he.nonneg h hheld)
  have hfile := hs.file_of_held hheld
  rw [hzero, hw.zero] at hfile
  cases hfile

theorem Steady.step (hw : s.Steady) (hk : (server listenfd).step s a = some t) : t.Steady := by
  have hst := step_cases hk
  obtain ⟨hs, lost, he⟩ := hw.balanced
  refine ⟨⟨hs.step hst, he.step hs (live_of_step hk) hst⟩, hw.zero.step hs hst, ?_⟩
  intro hret
  obtain ⟨-, g, rest, hi, hle⟩ := (hs.returned_iff hst hw.looping).mp hret
  have hg : g ∈ s.inFlight := by
    rw [hi]
    exact List.mem_cons_self
  exact hw.pos hg hle

theorem Initial.steady (hi : s.Initial) (hopen : s.kern.file 0 ≠ none) : s.Steady := by
  refine ⟨⟨hi.sound, [], hi.exact⟩, ?_, ?_⟩
  · unfold ZeroTaken
    cases hf : s.kern.file 0 with
    | none => exact absurd hf hopen
    | some file =>
      cases file with
      | conn c => exact absurd hf (hi.file 0 c)
      | other => rfl
  · rw [hi.reader]
    exact Reader.noConfusion

/-- Elsewhere than at `fcntl` and `epoll_ctl` the connection is on the pipe. -/
theorem Awaited.mem (hw : s.Awaited h) (h₁ : s.reader ≠ .setNoBlocking h)
    (h₂ : s.reader ≠ .epollAdd h) : h ∈ s.inFlight := by
  rcases hw.waits with hm | he | he
  · exact hm
  · exact absurd he h₁
  · exact absurd he h₂

/-- What is left to show of a step. -/
def Nearer (h : Handle) (s t : Sys) (n : ℕ) : Prop :=
  (h ∈ t.inFlight ∨ t.reader = .setNoBlocking h ∨ t.reader = .epollAdd h) ∧
    callsBefore h t + n ≤ callsBefore h s

/-- A call that takes no message off the pipe. -/
theorem nearer_of_mem {n : ℕ} (hm : h ∈ s.inFlight) (hi : t.inFlight = s.inFlight)
    (hc : t.reader.callsLeft + n ≤ s.reader.callsLeft) : Nearer h s t n := by
  have hm' : h ∈ t.inFlight := hi ▸ hm
  refine ⟨.inl hm', ?_⟩
  rw [callsBefore_of_mem hm, callsBefore_of_mem hm', hi]
  omega

/-- A step of the accept thread or a client. -/
theorem nearer_of_append (hs : t.Sound) (hr : t.reader = s.reader) {new : List Handle}
    (hi : t.inFlight = s.inFlight ++ new)
    (hw : h ∈ s.inFlight ∨ s.reader = .setNoBlocking h ∨ s.reader = .epollAdd h) :
    Nearer h s t 0 := by
  by_cases hm : h ∈ s.inFlight
  · have hm' : h ∈ t.inFlight := by
      rw [hi]
      exact List.mem_append_left _ hm
    refine ⟨.inl hm', ?_⟩
    rw [callsBefore_of_mem hm, callsBefore_of_mem hm', hr, hi, List.idxOf_append_of_mem hm]
  · have hw := hw.resolve_left hm
    have hhand : h ∈ t.reader.hand := by
      rw [hr]
      rcases hw with he | he <;> rw [he] <;> exact List.mem_singleton_self _
    have hm' := hs.notMem_of_hand hhand
    rw [← hr] at hw
    refine ⟨.inr hw, ?_⟩
    rw [callsBefore, callsBefore, if_neg hm, if_neg hm', hr]
    exact Nat.le_refl _

/-- The poll takes the oldest message off the pipe. -/
theorem Awaited.nearer_readPipe (hw : s.Awaited h) {g : Handle} {rest : List Handle}
    (hr : s.reader = .readPipe) (hi : s.inFlight = g :: rest) (hs : t.Sound)
    (hr' : t.reader = .setNoBlocking g) (hi' : t.inFlight = rest) : Nearer h s t 1 := by
  have hm : h ∈ s.inFlight := by
    refine hw.mem ?_ ?_ <;> rw [hr] <;> exact Reader.noConfusion
  have hbefore := callsBefore_of_mem hm
  rw [hr, hi] at hbefore
  by_cases hg : g = h
  · subst hg
    have hm' : g ∉ t.inFlight := by
      apply hs.notMem_of_hand
      rw [hr']
      exact List.mem_singleton_self _
    refine ⟨.inr (.inl hr'), ?_⟩
    rw [hbefore, callsBefore, if_neg hm', if_pos hr', List.idxOf_cons_self]
    exact Nat.le_refl _
  · have hm' : h ∈ t.inFlight := by
      rw [hi] at hm
      rw [hi']
      exact (List.mem_cons.mp hm).resolve_left (Ne.symm hg)
    refine ⟨.inl hm', ?_⟩
    rw [hbefore, callsBefore_of_mem hm', hr', hi', List.idxOf_cons_ne rest hg]
    simp only [Reader.callsLeft, passLength]
    omega

theorem Awaited.step (hw : s.Awaited h) (hU : s.Unhindered a)
    (hk : (server listenfd).step s a = some t) :
    s.Registers h a ∨ t.Awaited h ∧
      callsBefore h t + (if a.reads then 1 else 0) ≤ callsBefore h s := by
  have hst := step_cases hk
  have hs := hw.steady.balanced.1
  have ht := hw.steady.step hk
  have hback : Nearer h s t (if a.reads then 1 else 0) →
      s.Registers h a ∨ t.Awaited h ∧
        callsBefore h t + (if a.reads then 1 else 0) ≤ callsBefore h s := by
    rintro ⟨hwaits, hle⟩
    exact .inr ⟨⟨ht, hwaits⟩, hle⟩
  have hmem : ∀ r, s.reader = r → r ≠ .setNoBlocking h → r ≠ .epollAdd h → h ∈ s.inFlight := by
    rintro r rfl h₁ h₂
    exact hw.mem h₁ h₂
  cases hst with
  | writePipe _ => exact hback (nearer_of_append ht.balanced.1 rfl rfl hw.waits)
  | connect _ | deliver _ _ _ | peerClose _ | peerError _ | listenReport _ _ | listenTimeout _
  | accept _ _ | acceptFails _ | readOnce _ | writeFails _ | closeClient _ =>
    exact hback (nearer_of_append ht.balanced.1 rfl (List.append_nil _).symm hw.waits)
  | readPipe hr hi =>
    rename_i g rest
    have hg : g ∈ s.inFlight := by
      rw [hi]
      exact List.mem_cons_self
    refine hback (hw.nearer_readPipe hr hi ht.balanced.1 ?_ rfl)
    show Reader.afterReadPipe _ _ = _
    rw [(hs.read_inFlight hi).2, if_neg (hw.steady.pos hg)]
  | readEmpty hr hi =>
    have hm := hmem _ hr Reader.noConfusion Reader.noConfusion
    rw [hi] at hm
    cases hm
  | readFails hr =>
    have hm := hmem _ hr Reader.noConfusion Reader.noConfusion
    refine hback (nearer_of_mem hm rfl ?_)
    rw [hr]
    exact Nat.le_refl _
  | setNoBlocking hr =>
    rename_i ok g
    obtain rfl : ok = true := hU
    by_cases hm : h ∈ s.inFlight
    · refine hback (nearer_of_mem hm rfl ?_)
      rw [hr]
      exact Nat.le_refl _
    · rcases hw.waits.resolve_left hm with hg | hg
      · cases hr.symm.trans hg
        refine hback ⟨.inr (.inr rfl), ?_⟩
        rw [callsBefore, callsBefore, if_neg hm, if_neg hm, if_pos hr]
        exact Nat.le_refl _
      · cases hr.symm.trans hg
  | epollAdd hr hf hnew =>
    by_cases hm : h ∈ s.inFlight
    · refine hback (nearer_of_mem hm rfl ?_)
      rw [hr]
      exact Nat.le_refl _
    · rcases hw.waits.resolve_left hm with hg | hg
      · cases hr.symm.trans hg
      · exact .inl ⟨hg, rfl⟩
  | epollAddFails hr => cases hU
  | closeUnregistered hr =>
    have hm := hmem _ hr Reader.noConfusion Reader.noConfusion
    refine hback (nearer_of_mem hm rfl ?_)
    rw [hr]
    exact Nat.le_refl _
  | epollWait hr hmay =>
    rename_i events
    have hm := hmem _ hr Reader.noConfusion Reader.noConfusion
    refine hback (nearer_of_mem hm rfl ?_)
    have hlen := hmay.1
    have hcalls := Reader.callsLeft_forEvents events
    rw [hr]
    show (Reader.forEvents events).callsLeft + 1 ≤ 1026
    omega
  | readClient hr hf =>
    rename_i fault g rest
    have hm := hmem _ hr Reader.noConfusion Reader.noConfusion
    refine hback (nearer_of_mem hm rfl ?_)
    have hcalls := Reader.callsLeft_afterRead (s.kern.read g.fd 1024 fault).1 g rest
    rw [hr]
    show (Reader.afterRead _ g rest).callsLeft + 1 ≤ rest.length + 2
    omega
  | closePeer hr =>
    have hm := hmem _ hr Reader.noConfusion Reader.noConfusion
    refine hback (nearer_of_mem hm rfl ?_)
    rw [hr]
    exact Nat.le_refl _
  | closeError hr =>
    rename_i g rest
    have hm := hmem _ hr Reader.noConfusion Reader.noConfusion
    refine hback (nearer_of_mem hm rfl ?_)
    have hcalls := Reader.callsLeft_forEvents rest
    rw [hr]
    show (Reader.forEvents rest).callsLeft + 1 ≤ rest.length + 2
    omega

/-- A batch is of one report. -/
theorem Step.batch_le (hst : Step listenfd s a t) (hb : s.reader.batch.length ≤ 1024) :
    t.reader.batch.length ≤ 1024 := by
  cases hst with
  | readPipe _ _ | readEmpty _ _ | readFails _ =>
    rw [Reader.batch_afterReadPipe]
    exact Nat.zero_le _
  | setNoBlocking _ =>
    rw [Reader.batch_afterSetNoBlocking]
    exact Nat.zero_le _
  | epollAdd _ _ _ | epollAddFails _ | closeUnregistered _ | closePeer _ => exact Nat.zero_le _
  | epollWait _ hm =>
    rw [Reader.batch_forEvents, List.length_map]
    exact hm.1
  | readClient hr _ =>
    rw [hr] at hb
    exact (Reader.afterRead_batch _ _ _).2.length_le.trans hb
  | closeError hr =>
    rename_i g rest
    simp only [hr, Reader.batch, List.length_cons] at hb
    rw [Reader.batch_forEvents]
    omega
  | _ => exact hb

theorem batch_le_of_reachable (hr : Reachable (server listenfd) s) :
    s.reader.batch.length ≤ 1024 := by
  have hstep : ∀ u a v, u.reader.batch.length ≤ 1024 → (server listenfd).step u a = some v →
      v.reader.batch.length ≤ 1024 := fun _ _ _ hu hk => (step_cases hk).batch_le hu
  have hinit : ∀ u, (server listenfd).init u → u.reader.batch.length ≤ 1024 := by
    intro u hu
    rw [hu.reader]
    exact Nat.zero_le _
  exact hr.invariant hinit hstep

/-- A message waits for the rest of a pass and for those before it. -/
theorem callsBefore_le (hb : s.reader.batch.length ≤ 1024) {i : ℕ} (hnodup : s.inFlight.Nodup)
    (hi : s.inFlight[i]? = some h) : callsBefore h s ≤ passLength * (i + 1) + 1 := by
  obtain ⟨hlt, rfl⟩ := List.getElem?_eq_some_iff.mp hi
  have hcalls : s.reader.callsLeft ≤ 1028 := by
    cases hr : s.reader with
    | readClient g rest | closeError g rest =>
      simp only [hr, Reader.batch, List.length_cons, List.length_map] at hb
      simp only [Reader.callsLeft]
      omega
    | _ => simp only [Reader.callsLeft]; omega
  rw [callsBefore_of_mem (List.getElem_mem hlt), hnodup.idxOf_getElem i hlt]
  simp only [passLength]
  omega

end Sys

/-- Where the server cannot take descriptor 0 for a connection, the message at any place of
the pipe is registered after a bounded number of calls of the reader, whatever the accept
thread and the clients do between them, as long as `fcntl` and `epoll_ctl` succeed. The two
`fcntl` of `SetNoBlocking` count as one call. -/
theorem registered_within {listenfd : Int32} {s₀ s t : Sys} {ts tr : List (Sys × Act)}
    (hi : s₀.Initial) (hzero : s₀.kern.file 0 ≠ none) (hs : Run (server listenfd) s₀ ts s)
    (hr : Run (server listenfd) s tr t) (hU : Always Sys.Unhindered tr) {i : ℕ} {h : Handle}
    (hh : s.inFlight[i]? = some h) (hlong : passLength * (i + 1) + 1 < stepsOf Act.reads tr) :
    ∃ p ∈ tr, p.1.Registers h p.2 := by
  have hsteady : s.Steady := by
    have hstep : ∀ u a v, Sys.Steady u → (server listenfd).step u a = some v → Sys.Steady v :=
      fun _ _ _ hu hk => hu.step hk
    exact hs.invariant hstep (hi.steady hzero)
  have hawaited : s.Awaited h := ⟨hsteady, .inl (List.mem_of_getElem? hh)⟩
  have hfront : s.front.Nodup :=
    (List.Nodup.of_map _ hsteady.balanced.1.tracks.owned.once).of_append_left
  have hnodup := (List.nodup_append'.mp (List.nodup_append'.mp hfront).2.1).1
  have hbatch := Sys.batch_le_of_reachable ⟨s₀, ts, hi, hs⟩
  have hbound := Sys.callsBefore_le hbatch hnodup hh
  exact hr.progress (Sys.callsBefore h) (fun _ _ _ hw hu hk => hw.step hu hk) hawaited hU
    (by omega)

/-- A poll of an empty pipe. -/
theorem step_empty_poll {s : Sys} (hs : s.Sound) (hr : s.reader = .readPipe)
    (hi : s.inFlight = []) :
    (server 5).step s (.reader (.readPipe true)) = some s := by
  have hlive : s.reader ≠ .exited := by
    rw [hr]
    exact Reader.noConfusion
  have hread : s.readerStep (.readPipe true) = some s := by
    simp only [Sys.readerStep, hr, hi, if_true, hs.read_empty hi, Reader.afterReadPipe]
    rw [← hr, ← hi]
  simp only [server, Sys.step, if_neg hlive, hread]

/-- The pass of the reader that takes the first client's message. -/
def firstPass : List Act := [
  .reader (.readPipe true), .reader (.setNoBlocking true), .reader (.epollAdd true),
  .reader (.epollWait [])]

/-- The first client's message, and a thousand polls of an empty pipe after it. -/
theorem registered_within_first_client : ∃ s tr t, Run (server 5) s tr t ∧
    s.inFlight = [⟨8, 0⟩] ∧ ∃ p ∈ tr, p.1.Registers ⟨8, 0⟩ p.2 := by
  obtain ⟨s, hs, hin, hpass⟩ := exists_run_of_exec (S := server 5) Sys.start (firstClient.take 5)
    (P := fun s => s.inFlight = [⟨8, 0⟩] ∧ (exec (server 5) s firstPass).any (fun t =>
      decide (t.reader = .readPipe ∧ t.inFlight = [])) = true) (by decide +kernel)
  obtain ⟨t, ht, hread, hempty⟩ := exists_run_of_exec (S := server 5) s firstPass hpass
  have hsound := Sys.sound_of_reachable ⟨Sys.start, _, Sys.initial_start, hs.trans ht⟩
  have hrun := ht.trans (Run.idle (step_empty_poll hsound hread hempty) 1100)
  have hU : Always Sys.Unhindered (trace (server 5) s firstPass ++
      List.replicate 1100 (t, .reader (.readPipe true))) := by
    intro p hp
    rcases List.mem_append.mp hp with hp | hp
    · refine always_trace (fun a ha u => ?_) s p hp
      simp only [firstPass, List.mem_cons, List.not_mem_nil, or_false] at ha
      rcases ha with rfl | rfl | rfl | rfl <;> trivial
    · rw [List.eq_of_mem_replicate hp]
      trivial
  refine ⟨s, _, t, hrun, hin, registered_within Sys.initial_start (by decide) hs hrun hU
    (i := 0) (by rw [hin]; rfl) ?_⟩
  rw [stepsOf_append, stepsOf_replicate rfl]
  simp only [passLength]
  omega

end BaseCom.Epoll
