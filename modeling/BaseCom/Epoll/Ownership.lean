import BaseCom.Epoll.Steps
import BaseCom.Epoll.Tracks

/-! Who owns a descriptor number. From `accept` on, a connection's number is in the
accept thread's hand, in a message on the pipe, in the reader's hand or in the
interest list, and only there. The pipe holds the messages of the handles in flight,
so the reader takes out the number the acceptor put in, while it is still open
and still the number of that connection. -/

namespace BaseCom.Epoll

open Transition

/-- The message that hands a connection on. -/
def Kernel.announce (k : Kernel) (h : Handle) : Pipemsg :=
  { op := 1, fd := h.fd, ip := (k.peer h.conn).sinAddr, port := (k.peer h.conn).sinPort }

namespace Sys

/-- The handles that are not registered: in a thread's hand or on the pipe. -/
def front (s : Sys) : List Handle := s.acceptor.hand ++ (s.inFlight ++ s.reader.hand)

structure Sound (s : Sys) : Prop where
  tracks : s.kern.Tracks s.front s.reader.batch
  pipe : s.pipe.Framed (s.inFlight.map s.kern.announce)
  message : ∀ p ∈ s.acceptor.message, p.2 = s.kern.announce p.1

variable {listenfd : Int32} {s t : Sys} {a : Act}

theorem Initial.sound (hs : s.Initial) : s.Sound := by
  have hfront : s.front = [] := by
    rw [front, hs.acceptor, hs.inFlight, hs.reader]
    rfl
  have hreg : s.kern.registered = [] := by rw [Kernel.registered, hs.interest]; rfl
  obtain ⟨hp, hst, hsent, hdec⟩ := hs.pipe
  refine ⟨?_, ?_, ?_⟩
  · rw [hfront, hs.reader]
    exact {
      owned := by rw [hreg]; exact .nil
      known := by rw [hreg, hs.backlog]; exact List.nodup_nil
      old := by rw [hreg, hs.backlog]; exact List.forall_mem_nil _
      items := by rw [hs.interest]; exact List.forall_mem_nil _
      distinct := List.nodup_nil
      reported := List.nil_subset _ }
  · have hnot : s.pipe.status ≠ .notFourteen := by simp [hst]
    rw [hs.inFlight]
    exact ⟨by rw [hsent, hdec]; rfl, hp, hnot⟩
  · intro p hm
    rw [hs.acceptor] at hm
    cases hm

/-! ### Messages -/

theorem hand_of_message {b : Acceptor} {p : Handle × Pipemsg} (hp : p ∈ b.message) :
    p.1 ∈ b.hand := by
  cases b with
  | readClient h msg rest | writePipe h msg rest =>
    cases hp
    exact List.mem_singleton_self h
  | epollWait | accept rest | closeClient h rest => cases hp

/-- The address of a connection that has arrived never changes. -/
theorem Step.peer_eq (hst : Step listenfd s a t) {c : Conn} (hc : c < s.kern.nextConn) :
    t.kern.peer c = s.kern.peer c := by
  cases hst with
  | connect addr => exact Function.update_of_ne (Nat.ne_of_lt hc) _ _
  | readOnce _ | readClient _ _ => exact congrFun (Kernel.read_peer ..) c
  | _ => rfl

theorem Sound.announce_eq (hs : s.Sound) (hst : Step listenfd s a t) {h : Handle}
    (hh : h ∈ s.front) : t.kern.announce h = s.kern.announce h := by
  have hc : h.conn ∈ (s.front ++ s.kern.registered).map Handle.conn ++ s.kern.backlog :=
    List.mem_append_left _ (List.mem_map_of_mem (List.mem_append_left _ hh))
  unfold Kernel.announce
  rw [hst.peer_eq (hs.tracks.old _ hc)]

theorem Sound.message_step (hs : s.Sound) (hst : Step listenfd s a t) :
    ∀ p ∈ t.acceptor.message, p.2 = t.kern.announce p.1 := by
  have hkeep : ∀ p ∈ s.acceptor.message, p.2 = t.kern.announce p.1 := by
    intro p hp
    rw [hs.announce_eq hst (List.mem_append_left _ (hand_of_message hp))]
    exact hs.message p hp
  cases hst with
  | listenReport ha he | listenTimeout ha | acceptFails ha =>
    rw [Acceptor.message_forEvents]
    exact nofun
  | accept ha hfd =>
    unfold Acceptor.afterAccept
    split_ifs
    · rintro p ⟨⟩
      rfl
    · rw [Acceptor.message_forEvents]
      exact nofun
  | readOnce ha =>
    rw [ha] at hkeep
    exact hkeep
  | writePipe ha =>
    rw [Acceptor.afterWrite, if_neg (by simp), Acceptor.message_forEvents]
    exact nofun
  | writeFails ha => exact nofun
  | closeClient ha =>
    rw [Acceptor.message_forEvents]
    exact nofun
  | _ => exact hkeep

/-! ### The pipe -/

/-- The read takes the message of the oldest handle in flight, and unless the
number is not positive the reader has that handle in its hand. -/
theorem Sound.read_inFlight (hs : s.Sound) {h : Handle} {rest : List Handle}
    (hi : s.inFlight = h :: rest) :
    s.pipe.read.2.Framed (rest.map s.kern.announce) ∧
      Reader.afterReadPipe s.pipe.read.1 h.conn =
        if h.fd ≤ 0 then .returned else .setNoBlocking h := by
  have hp : s.pipe.Framed (s.kern.announce h :: rest.map s.kern.announce) := by
    have hf := hs.pipe
    rwa [hi] at hf
  obtain ⟨mem, hr⟩ := Handoff.read_cons hp
  obtain ⟨ms, hms, hf⟩ := Handoff.framed_read hp
  obtain rfl : rest.map s.kern.announce = ms := by simpa using hms
  refine ⟨hf, ?_⟩
  rw [hr]
  show Reader.afterReadPipe (Prod.fst (if h.fd ≤ 0 then _ else _)) h.conn = _
  split_ifs <;> rfl

theorem Sound.read_empty (hs : s.Sound) (hi : s.inFlight = []) :
    s.pipe.read = (.again, s.pipe) := by
  apply Handoff.read_nil
  have hf := hs.pipe
  rwa [hi] at hf

theorem Sound.pipe_step (hs : s.Sound) (hst : Step listenfd s a t) :
    t.pipe.Framed (t.inFlight.map t.kern.announce) := by
  have hkeep : s.inFlight.map t.kern.announce = s.inFlight.map s.kern.announce :=
    List.map_congr_left fun h hh => hs.announce_eq hst
      (List.mem_append_right _ (List.mem_append_left _ hh))
  cases hst with
  | writePipe ha =>
    have hm := hs.message (_, _) (by rw [ha]; rfl)
    rw [List.map_append, List.map_singleton, ← hm]
    exact Handoff.write_framed hs.pipe _ _
  | readPipe hr hi => exact (hs.read_inFlight hi).1
  | readEmpty hr hi =>
    rw [hs.read_empty hi]
    exact hs.pipe
  | _ =>
    rw [hkeep]
    exact hs.pipe

/-! ### The handles -/

theorem Sound.tracks_step (hs : s.Sound) (hst : Step listenfd s a t) :
    t.kern.Tracks t.front t.reader.batch := by
  have hk := hs.tracks
  cases hst with
  | connect addr => exact hk.arrive addr
  | deliver hc hn he => exact hk.deliver _ _
  | peerClose hc | peerError hc => exact hk.peerClose _
  | listenReport ha he =>
    simp only [front, ha, Acceptor.hand] at hk
    simp only [front, Acceptor.hand_forEvents]
    exact hk.congr rfl rfl rfl rfl
  | listenTimeout ha | acceptFails ha =>
    simp only [front, ha, Acceptor.hand] at hk
    simp only [front, Acceptor.hand_forEvents]
    exact hk
  | accept ha hfd =>
    simp only [front, ha, Acceptor.hand] at hk
    simp only [front, Acceptor.afterAccept]
    split_ifs with hpos
    · exact hk.accept hfd hpos
    · rw [Acceptor.hand_forEvents]
      exact hk.acceptFails hpos
  | readOnce ha =>
    simp only [front, ha, Acceptor.hand] at hk
    exact hk.read _ _ _
  | writePipe ha =>
    simp only [front, ha, Acceptor.hand] at hk
    simp only [front, Acceptor.afterWrite, ne_eq, not_true_eq_false, if_false,
      Acceptor.hand_forEvents, List.nil_append]
    apply hk.hands
    rw [List.append_assoc]
    exact List.perm_middle.subperm
  | writeFails ha =>
    simp only [front, ha, Acceptor.hand] at hk
    exact hk
  | closeClient ha =>
    simp only [front, ha, Acceptor.hand] at hk
    simp only [front, Acceptor.hand_forEvents, List.nil_append]
    exact hk.closeFront
  | readPipe hr hi =>
    simp only [front, hr, hi, Reader.hand, Reader.batch] at hk
    simp only [front, (hs.read_inFlight hi).2]
    split_ifs
    · apply hk.hands
      exact (List.Sublist.append_left (List.sublist_cons_self _ _) _).subperm
    · apply hk.hands
      refine (List.Perm.append_left _ ?_).subperm
      rw [List.append_nil]
      exact List.perm_append_singleton _ _
  | readEmpty hr hi =>
    simp only [front, hr, Reader.hand, Reader.batch] at hk
    rw [hs.read_empty hi]
    exact hk
  | readFails hr =>
    simp only [front, hr, Reader.hand, Reader.batch] at hk
    exact hk
  | setNoBlocking hr =>
    simp only [front, hr, Reader.hand, Reader.batch] at hk
    simp only [front, Reader.afterSetNoBlocking]
    split_ifs
    · exact hk
    · apply hk.hands
      exact (List.Sublist.append_left (List.Sublist.append_left (List.nil_sublist _) _) _).subperm
  | epollAdd hr hf hnew =>
    rename_i h c
    simp only [front, hr, Reader.hand, Reader.batch] at hk
    have hc : c = h.conn := by
      have hfile := hk.file_of_mem (h := h) (by simp)
      rw [hf] at hfile
      simpa using hfile
    simp only [front, Reader.afterEpollAdd, ne_eq, not_true_eq_false, if_false, Reader.hand,
      Reader.batch, List.append_nil]
    rw [hc]
    apply Kernel.Tracks.epollAdd
    apply hk.hands
    rw [← List.append_assoc]
    exact (List.perm_append_singleton _ _).symm.subperm
  | epollAddFails hr =>
    simp only [front, hr, Reader.hand, Reader.batch] at hk
    exact hk
  | closeUnregistered hr =>
    simp only [front, hr, Reader.hand, Reader.batch] at hk
    simp only [front, Reader.hand, Reader.batch, List.append_nil]
    apply Kernel.Tracks.closeFront
    apply hk.hands
    rw [← List.append_assoc]
    exact (List.perm_append_singleton _ _).symm.subperm
  | epollWait hr hm =>
    simp only [front, hr, Reader.hand, Reader.batch] at hk
    simp only [front, Reader.hand_forEvents, Reader.batch_forEvents]
    exact hk.report hm
  | readClient hr hf =>
    simp only [front, hr, Reader.hand, Reader.batch] at hk
    obtain ⟨hhand, hbatch⟩ := Reader.afterRead_batch (s.kern.read _ 1024 _).1 _ _
    simp only [front]
    rw [hhand]
    exact (hk.read _ _ _).rest hbatch
  | closePeer hr =>
    simp only [front, hr, Reader.hand, Reader.batch] at hk
    exact hk.closeBatch
  | closeError hr =>
    simp only [front, hr, Reader.hand, Reader.batch] at hk
    simp only [front, Reader.hand_forEvents, Reader.batch_forEvents]
    exact hk.closeBatch

theorem Sound.step (hs : s.Sound) (hst : Step listenfd s a t) : t.Sound :=
  ⟨hs.tracks_step hst, hs.pipe_step hst, hs.message_step hst⟩

theorem Sound.hand_file (hs : s.Sound) {h : Handle} (hh : h ∈ s.acceptor.hand) :
    s.kern.file h.fd = some (.conn h.conn) :=
  hs.tracks.file_of_mem (List.mem_append_left _ (List.mem_append_left _ hh))

/-- What either thread is about to read or close is the connection it means. -/
theorem Sound.target_file (hs : s.Sound) {h : Handle}
    (ht : s.acceptor.target = some h ∨ s.reader.target = some h) :
    s.kern.file h.fd = some (.conn h.conn) := by
  have hk := hs.tracks
  rcases ht with ht | ht
  · exact hs.hand_file (Acceptor.hand_of_target ht)
  · rcases Reader.hand_or_batch_of_target ht with hm | hm
    · apply hk.file_of_mem
      apply List.mem_append_left
      exact List.mem_append_right _ (List.mem_append_right _ hm)
    · exact hk.file_of_batch hm

theorem sound_of_reachable (hr : Reachable (server listenfd) s) : s.Sound :=
  hr.invariant (fun _ => Initial.sound) fun _ _ _ hs hst => hs.step (step_cases hst)

end Sys

/-- At every moment the messages on the pipe are those of the handles in flight;
the numbers in flight and in the interest list are open, denote the connections
they were accepted for and occur once; and what either thread is about to read or
close is the connection it means. -/
theorem descriptors_owned {listenfd : Int32} {s : Sys} (hr : Reachable (server listenfd) s) :
    msgCodec.unframe s.pipe.pipe = s.inFlight.map s.kern.announce ∧
      ((s.inFlight ++ s.kern.registered).map Handle.fd).Nodup ∧
      (∀ h ∈ s.inFlight ++ s.kern.registered, s.kern.file h.fd = some (.conn h.conn)) ∧
      (∀ i ∈ s.kern.interest, i.file = i.data.conn) ∧
      ∀ h, s.acceptor.target = some h ∨ s.reader.target = some h →
        s.kern.file h.fd = some (.conn h.conn) := by
  have hs := Sys.sound_of_reachable hr
  have hk := hs.tracks
  have hsub : (s.inFlight ++ s.kern.registered).Sublist (s.front ++ s.kern.registered) := by
    apply List.Sublist.append_right
    unfold Sys.front
    exact (List.sublist_append_left _ _).trans (List.sublist_append_right _ _)
  refine ⟨?_, (hsub.map _).nodup hk.owned.once, fun h hh => hk.file_of_mem (hsub.subset hh),
    hk.items, fun h ht => hs.target_file ht⟩
  rw [hs.pipe.2.1]
  exact msgCodec.unframe_stream _

/-- A client connects, is accepted as number 8, handed over and registered, and
sends: the reader is about to read from it, under its number. -/
theorem descriptors_owned_first_client :
    ∃ s, Reachable (server 5) s ∧ s.reader.target = some ⟨8, 0⟩ ∧
      s.kern.file 8 = some (.conn 0) := by
  obtain ⟨s, hr, ht⟩ := exists_reachable_of_exec (S := server 5) Sys.initial_start
    (firstClient ++ [.env (.deliver 0 7), .reader (.epollWait [firstReadable])])
    (P := fun s => s.reader.target = some ⟨8, 0⟩) (by decide +kernel)
  exact ⟨s, hr, ht, (descriptors_owned hr).2.2.2.2 _ (.inr ht)⟩

end BaseCom.Epoll
