import BaseCom.Epoll.Steps

/-! The accept backlog under edge triggering. An edge is worth one report and a
report one call of `accept`, whatever the number of connections behind it. Clients
that arrive while others are queued share the edge that is pending, so the backlog
is drained exactly in the runs in which every client finds at its arrival as many
calls of `accept` ahead as there are connections queued. -/

namespace BaseCom.Epoll

open Transition

namespace Sys

/-- A client connects only when every connection queued before it has a call of
`accept` ahead in the current pass, and a call takes none only when it can be spared. -/
def Spaced (listenfd : Int32) (s : Sys) : Act → Prop
  | .env (.connect _) => s.kern.backlog.length ≤ s.acceptor.acceptsLeft listenfd
  | .acceptor .acceptFails =>
    s.kern.backlog.length < s.kern.listenEdge.toNat + s.acceptor.acceptsLeft listenfd
  | _ => True

/-- The pending edge and the current pass are enough for the backlog. -/
def BacklogCovered (listenfd : Int32) (s : Sys) : Prop :=
  s.kern.backlog.length ≤ s.kern.listenEdge.toNat + s.acceptor.acceptsLeft listenfd

variable {listenfd : Int32} {s t : Sys} {a : Act}

theorem Initial.backlogCovered (hs : s.Initial) : s.BacklogCovered listenfd := by
  unfold BacklogCovered
  rw [hs.backlog]
  exact Nat.zero_le _

theorem acceptsIn_listenEvent : Acceptor.acceptsIn listenfd [listenEvent listenfd] = 1 := by
  simp [Acceptor.acceptsIn, listenEvent, EventMask.readable]

/-- Only an arrival and a call that takes none can leave a connection without a call of
`accept`, and no later step makes up for it. -/
theorem Step.backlogCovered_iff (hst : Step listenfd s a t) :
    t.BacklogCovered listenfd ↔ s.BacklogCovered listenfd ∧ s.Spaced listenfd a := by
  unfold BacklogCovered
  cases hst with
  | connect addr =>
    simp only [Spaced, Kernel.arrive, List.length_append, List.length_singleton, Bool.toNat_true]
    omega
  | listenReport ha he =>
    rw [ha, he, Acceptor.acceptsLeft_forEvents, acceptsIn_listenEvent,
      Acceptor.acceptsLeft_epollWait]
    simp [Spaced]
  | listenTimeout ha =>
    rw [ha]
    simp [Spaced, Acceptor.forEvents]
  | accept ha hfd =>
    rw [ha, Acceptor.acceptsLeft_afterAccept, Acceptor.acceptsLeft_accept]
    simp only [Spaced, Kernel.accept, List.length_tail, and_true]
    omega
  | acceptFails ha =>
    simp only [Spaced, ha, Acceptor.acceptsLeft_forEvents, Acceptor.acceptsLeft_accept]
    omega
  | readOnce ha =>
    rw [ha, Acceptor.afterRead, Acceptor.acceptsLeft_writePipe, Acceptor.acceptsLeft_readClient]
    simp [Spaced]
  | writePipe ha | writeFails ha =>
    rw [ha, Acceptor.acceptsLeft_afterWrite, Acceptor.acceptsLeft_writePipe]
    simp [Spaced]
  | closeClient ha =>
    rw [ha, Acceptor.acceptsLeft_forEvents, Acceptor.acceptsLeft_closeClient]
    simp [Spaced, Kernel.close]
  | readClient hr hf => simp [Spaced]
  | _ => exact (and_iff_left trivial).symm

end Sys

/-- Whenever the accept thread waits with no edge pending, the backlog is empty if and
only if so far every client connected while the queued ones had a call of `accept` ahead,
and every call that took none could be spared. -/
theorem backlog_drained_iff {listenfd : Int32} {s₀ s : Sys} {tr : List (Sys × Act)}
    (hi : s₀.Initial) (hr : Run (server listenfd) s₀ tr s) (hw : s.acceptor = .epollWait)
    (he : s.kern.listenEdge = false) : s.kern.backlog = [] ↔ Always (Sys.Spaced listenfd) tr := by
  have hrun := hr.always_iff fun _ _ _ hst => (Sys.step_cases hst).backlogCovered_iff
  have hend : s.BacklogCovered listenfd ↔ s.kern.backlog = [] := by
    unfold Sys.BacklogCovered
    rw [hw, he, Acceptor.acceptsLeft_epollWait, Bool.toNat_false, Nat.le_zero,
      List.length_eq_zero_iff]
  rw [← hend, hrun]
  exact and_iff_right hi.backlogCovered

/-- One client, accepted and handed on. -/
theorem backlog_drained_one_client : ∃ s tr, Run (server 5) Sys.start tr s ∧
    s.kern.nextConn = 1 ∧ s.kern.backlog = [] ∧ Always (Sys.Spaced 5) tr := by
  obtain ⟨s, hr, hw, he, hn, hb⟩ := exists_run_of_exec (S := server 5) Sys.start [
    .env (.connect ⟨16777343, 4660⟩), .acceptor (.epollWait true), .acceptor (.accept 8),
    .acceptor (.readClient (some .eintr)), .acceptor (.writePipe .zero true)]
    (P := fun s => s.acceptor = .epollWait ∧ s.kern.listenEdge = false ∧ s.kern.nextConn = 1 ∧
      s.kern.backlog = []) (by decide +kernel)
  exact ⟨s, _, hr, hn, hb, (backlog_drained_iff Sys.initial_start hr hw he).mp hb⟩

/-- Two clients connect before the thread wakes up: one edge, one report, one call
of `accept`, and the second client waits behind no edge. -/
theorem backlog_stranded_second_client : ¬ ∀ listenfd s, Reachable (server listenfd) s →
    s.acceptor = .epollWait → s.kern.listenEdge = false → s.kern.backlog = [] := by
  intro hall
  obtain ⟨s, hr, hw, he, hb⟩ := exists_reachable_of_exec (S := server 5) Sys.initial_start [
    .env (.connect ⟨16777343, 4660⟩), .env (.connect ⟨16777343, 4661⟩),
    .acceptor (.epollWait true), .acceptor (.accept 8), .acceptor (.readClient (some .eintr)),
    .acceptor (.writePipe .zero true)]
    (P := fun s => s.acceptor = .epollWait ∧ s.kern.listenEdge = false ∧ s.kern.backlog = [1])
    (by decide +kernel)
  rw [hall 5 s hr hw he] at hb
  cases hb

end BaseCom.Epoll
