import BaseCom.Epoll.Closing
import BaseCom.Epoll.Lifecycle

/-! Why a connection is closed. Neither thread closes a connection on its own account: its
client has closed or reset it, its message was not written, or epoll refused it or reported it
as failed; and all of them end with the process when `fcntl` fails. What else becomes of other
connections, and how long this one is silent, is no cause. -/

namespace BaseCom.Epoll

open Transition

/-- A read is told apart from the end of the stream. -/
theorem Kernel.eof_of_read {k : Kernel} {fd : Int32} {len : ℕ} {fault : Option Errno} {c : Conn}
    (hf : k.file fd = some (.conn c)) (hlen : 0 < len)
    (hr : (k.read fd len fault).1 = .bytes 0) : (k.sock c).eof = true := by
  unfold read at hr
  rw [hf] at hr
  cases fault with
  | some e => cases hr
  | none =>
    simp only at hr
    split_ifs at hr with hpos heof
    · have hmin : min (k.sock c).unread len = 0 := by simpa using hr
      omega
    · exact heof

/-- Reading does not bring the end of the stream. -/
theorem Kernel.read_eof (k : Kernel) (fd : Int32) (len : ℕ) (fault : Option Errno) (c : Conn) :
    ((k.read fd len fault).2.sock c).eof = (k.sock c).eof := by
  unfold read
  split
  · rename_i d _
    split_ifs
    · unfold consume
      rcases eq_or_ne c d with rfl | hne
      · simp only [Function.update_self]
      · simp only [Function.update_of_ne hne]
    · rfl
    · rfl
  · rfl
  · rfl

namespace Sys

/-- What ends a connection at the server. A failed `fcntl`, for whatever client, ends the
process and with it every connection. -/
def Cause (c : Conn) (s : Sys) : Act → Prop
  | .env (.peerClose d) | .env (.peerError d) => d = c
  | .acceptor (.writePipe _ false) => c ∈ s.acceptor.hand.map Handle.conn
  | .reader (.epollAdd false) => c ∈ s.reader.hand.map Handle.conn
  | .reader (.epollWait events) => c ∈ (failures events).map Handle.conn
  | .reader (.setNoBlocking ok) => ok = false
  | _ => False

instance (c : Conn) (s : Sys) (a : Act) : Decidable (s.Cause c a) := by
  unfold Cause
  split <;> infer_instance

/-- Nothing has happened for which a thread would close the connection. -/
structure Spared (c : Conn) (s : Sys) : Prop where
  sound : s.Sound
  eof : c < s.kern.nextConn → (s.kern.sock c).eof = false
  acceptor : ∀ h rest, s.acceptor = .closeClient h rest → h.conn ≠ c
  reader : ∀ h ∈ s.reader.doomed, h.conn ≠ c

variable {listenfd : Int32} {s t : Sys} {a : Act} {c : Conn}

theorem Initial.spared (hi : s.Initial) (c : Conn) : s.Spared c where
  sound := hi.sound
  eof := by
    intro hlt
    rw [hi.nextConn] at hlt
    exact absurd hlt (Nat.not_lt_zero _)
  acceptor := by
    intro h rest hc
    rw [hi.acceptor] at hc
    cases hc
  reader := by
    rw [hi.reader]
    exact List.forall_mem_nil _

theorem forEvents_ne_closeClient (batch rest : List (EpollEvent Int32)) (h : Handle) :
    Acceptor.forEvents listenfd batch ≠ .closeClient h rest := by
  intro hc
  have hh : h ∈ (Acceptor.forEvents listenfd batch).hand := by
    rw [hc]
    exact List.mem_singleton_self h
  rw [Acceptor.hand_forEvents] at hh
  cases hh

theorem Spared.eof_step (hs : s.Spared c) (hno : ¬ s.Cause c a) (hst : Step listenfd s a t) :
    c < t.kern.nextConn → (t.kern.sock c).eof = false := by
  cases hst with
  | connect addr =>
    intro hlt
    rcases Nat.lt_succ_iff_lt_or_eq.mp hlt with hlt | heq
    · have hne : c ≠ s.kern.nextConn := Nat.ne_of_lt hlt
      simp only [Kernel.arrive, Function.update_of_ne hne, hs.eof hlt]
    · simp only [Kernel.arrive, heq, Function.update_self]
  | deliver hc hn he =>
    rename_i d n
    intro hlt
    rcases eq_or_ne c d with rfl | hne
    · simp only [Kernel.deliver, Kernel.wake, Function.update_self, he]
    · simp only [Kernel.deliver, Kernel.wake, Function.update_of_ne hne, hs.eof hlt]
  | peerClose hc | peerError hc =>
    rename_i d
    intro hlt
    have hne : c ≠ d := fun he => hno he.symm
    simp only [Kernel.peerClose, Kernel.wake, Function.update_of_ne hne, hs.eof hlt]
  | readOnce _ | readClient _ _ =>
    intro hlt
    rw [Kernel.read_nextConn] at hlt
    rw [Kernel.read_eof, hs.eof hlt]
  | _ => exact hs.eof

theorem Spared.acceptor_step (hs : s.Spared c) (hno : ¬ s.Cause c a) (hst : Step listenfd s a t) :
    ∀ h rest, t.acceptor = .closeClient h rest → h.conn ≠ c := by
  intro h rest
  cases hst with
  | listenReport _ _ | listenTimeout _ | acceptFails _ | closeClient _ =>
    exact fun hc => absurd hc (forEvents_ne_closeClient _ _ _)
  | accept ha hfd =>
    simp only [Acceptor.afterAccept]
    split_ifs
    · rintro ⟨⟩
    · exact fun hc => absurd hc (forEvents_ne_closeClient _ _ _)
  | readOnce ha => exact Acceptor.noConfusion
  | writePipe ha =>
    simp only [Acceptor.afterWrite, ne_eq, not_true_eq_false, if_false]
    exact fun hc => absurd hc (forEvents_ne_closeClient _ _ _)
  | writeFails ha =>
    rename_i garbage g msg rest'
    intro hc he
    simp only [Acceptor.afterWrite, ne_eq, reduceCtorEq, not_false_eq_true, if_true] at hc
    have hg : g = h := (Acceptor.closeClient.inj hc).1
    refine hno ?_
    show c ∈ s.acceptor.hand.map Handle.conn
    rw [ha, hg, ← he]
    exact List.mem_singleton_self _
  | _ => exact hs.acceptor h rest

/-- The reader learns of nothing but a cause and the end of the stream. -/
theorem Spared.reader_step (hs : s.Spared c) (hno : ¬ s.Cause c a) (hst : Step listenfd s a t) :
    ∀ h ∈ t.reader.doomed, h.conn ≠ c := by
  intro h hh
  rcases hst.doomed_subset h hh with hd | ⟨b, rfl, hb⟩
  · exact hs.reader h hd
  · rintro rfl
    cases hst with
    | epollAddFails hr =>
      refine hno (List.mem_map_of_mem ?_)
      simp only [learns, hr] at hb
      rw [hr]
      exact hb
    | epollWait hr hm => exact hno (List.mem_map_of_mem hb)
    | readClient hr hf =>
      rename_i fault g rest
      have hmem : g ∈ s.reader.batch := by
        rw [hr]
        exact List.mem_cons_self
      simp only [learns, hr] at hb
      split at hb
      · rename_i hres
        obtain rfl : h = g := List.mem_singleton.mp hb
        have hold : h.conn < s.kern.nextConn :=
          hs.sound.tracks.old _ (List.mem_append_left _ (List.mem_map_of_mem
            (List.mem_append_right _ (hs.sound.tracks.reported hmem))))
        have heof := Kernel.eof_of_read (hs.sound.tracks.file_of_batch hmem) (by decide) hres
        rw [hs.eof hold] at heof
        cases heof
      · rename_i hres
        simp only [hres] at hh
        cases hh
      all_goals cases hb
    | epollAdd hr _ _ =>
      simp only [learns, hr] at hb
      cases hb
    | readPipe _ _ | readEmpty _ _ | readFails _ | setNoBlocking _ | closeUnregistered _
    | closePeer _ | closeError _ => cases hb

theorem Spared.step (hs : s.Spared c) (hno : ¬ s.Cause c a) (hst : Step listenfd s a t) :
    t.Spared c where
  sound := hs.sound.step hst
  eof := hs.eof_step hno hst
  acceptor := hs.acceptor_step hno hst
  reader := hs.reader_step hno hst

/-- The connections a call ends: one that is closed, or one that `accept` finds aborted. -/
def ends (s : Sys) : Act → List Conn
  | .acceptor (.accept fd) => if 0 ≤ fd then [] else s.kern.backlog.take 1
  | .acceptor .closeClient => (s.acceptor.target.map Handle.conn).toList
  | .reader .closeUnregistered | .reader .closePeer | .reader .closeError =>
    (s.reader.target.map Handle.conn).toList
  | _ => []

/-- What takes the server's end of a connection away before its client has closed. -/
def Hinders (c : Conn) (s : Sys) : Act → Prop
  | .acceptor (.accept fd) => ¬ 0 ≤ fd ∧ c ∈ s.kern.backlog.take 1
  | a => s.Cause c a

instance (c : Conn) (s : Sys) (a : Act) : Decidable (s.Hinders c a) := by
  unfold Hinders
  split <;> infer_instance

theorem not_cause_of_not_hinders (hno : ¬ s.Hinders c a) : ¬ s.Cause c a := by
  intro hc
  cases a with
  | env e => exact hno hc
  | reader b => exact hno hc
  | acceptor b =>
    cases b with
    | accept fd => exact hc
    | epollWait _ | acceptFails | readClient _ | writePipe _ _ | closeClient => exact hno hc

theorem Sound.target_old (hs : s.Sound) {h : Handle}
    (hh : s.acceptor.target = some h ∨ s.reader.target = some h) : h.conn < s.kern.nextConn := by
  have hmem : h ∈ s.front ++ s.kern.registered := by
    rcases hh with hh | hh
    · exact List.mem_append_left _ (List.mem_append_left _ (Acceptor.hand_of_target hh))
    · rcases Reader.hand_or_batch_of_target hh with hm | hm
      · exact List.mem_append_left _ (List.mem_append_right _ (List.mem_append_right _ hm))
      · exact List.mem_append_right _ (hs.tracks.reported hm)
  exact hs.tracks.old _ (List.mem_append_left _ (List.mem_map_of_mem hmem))

theorem Sound.ends_old (hs : s.Sound) : ∀ d ∈ s.ends a, d < s.kern.nextConn := by
  intro d hd
  have htarget : ∀ o : Option Handle, d ∈ (o.map Handle.conn).toList →
      ∃ h, o = some h ∧ h.conn = d := by
    intro o ho
    simpa using ho
  cases a with
  | env e => cases hd
  | acceptor b =>
    cases b with
    | accept fd =>
      simp only [ends] at hd
      split_ifs at hd
      · cases hd
      · exact hs.tracks.old d (List.mem_append_right _ (List.mem_of_mem_take hd))
    | closeClient =>
      obtain ⟨h, hh, rfl⟩ := htarget _ hd
      exact hs.target_old (.inl hh)
    | epollWait _ | acceptFails | readClient _ | writePipe _ _ => cases hd
  | reader b =>
    cases b with
    | closeUnregistered | closePeer | closeError =>
      obtain ⟨h, hh, rfl⟩ := htarget _ hd
      exact hs.target_old (.inr hh)
    | readPipe _ | setNoBlocking _ | epollAdd _ | epollWait _ | readClient _ => cases hd

theorem Spared.notMem_ends (hs : s.Spared c) (hno : ¬ s.Hinders c a)
    (hst : Step listenfd s a t) : c ∉ s.ends a := by
  cases hst with
  | accept ha hfd =>
    rename_i fd rest
    simp only [ends]
    split_ifs with hpos
    · exact List.not_mem_nil
    · exact fun hm => hno ⟨hpos, hm⟩
  | closeClient ha =>
    simp only [ends, ha]
    exact fun hm => hs.acceptor _ _ ha (List.mem_singleton.mp hm).symm
  | closeUnregistered hr | closePeer hr | closeError hr =>
    simp only [ends, hr]
    refine fun hm => hs.reader _ ?_ (List.mem_singleton.mp hm).symm
    rw [hr]
    exact List.mem_cons_self
  | _ => exact List.not_mem_nil

theorem hand_or_batch_of_doomed {r : Reader} {h : Handle} (hd : h ∈ r.doomed) :
    h ∈ r.hand ∨ h ∈ r.batch := by
  cases r with
  | closeUnregistered g => exact .inl hd
  | closePeer g => exact .inr hd
  | readClient g rest => exact .inr (List.mem_cons_of_mem _ (failures_subset rest hd))
  | closeError g rest =>
    refine .inr ?_
    rcases List.mem_cons.mp hd with rfl | hd
    · exact List.mem_cons_self
    · exact List.mem_cons_of_mem _ (failures_subset rest hd)
  | readPipe | setNoBlocking _ | epollAdd _ | epollWait | returned | exited => cases hd

/-- A client that is still to come is spared. -/
theorem Sound.spared_next (hs : s.Sound) : s.Spared s.kern.nextConn where
  sound := hs
  eof := fun hlt => absurd hlt (Nat.lt_irrefl _)
  acceptor := by
    intro h rest ha
    exact Nat.ne_of_lt (hs.target_old (.inl (by rw [ha]; rfl)))
  reader := by
    intro h hd
    refine Nat.ne_of_lt (hs.tracks.old _ (List.mem_append_left _ (List.mem_map_of_mem ?_)))
    rcases hand_or_batch_of_doomed hd with hm | hm
    · exact List.mem_append_left _ (List.mem_append_right _ (List.mem_append_right _ hm))
    · exact List.mem_append_right _ (hs.tracks.reported hm)

end Sys

end BaseCom.Epoll
