import BaseCom.Epoll.Steps

/-! The reader with an empty pipe. A pass polls the pipe first and starts afresh
when nothing is there, so the clients of the interest list are looked at only in
passes that began with a message. -/

namespace BaseCom.Epoll

open Transition

/-- Nothing on the pipe: the read returns -1. -/
theorem Handoff.read_of_pipe_nil {p : Handoff} (hp : p.pipe = []) : p.read.1 = .again := by
  simp only [Handoff.read, readMsg, if_pos hp, verdict]
  rfl

namespace Sys

/-- A poll of the pipe finds it empty. -/
def PollsEmpty (s : Sys) : Act → Prop
  | .reader (.readPipe true) => s.pipe.pipe = []
  | _ => True

/-- The reader reads the connection. -/
def Reads (h : Handle) (s : Sys) (a : Act) : Prop :=
  s.reader.target = some h ∧ ∃ fault, a = .reader (.readClient fault)

/-- Some run, however long and whatever the clients, the acceptor and the kernel do,
reads the connection while every poll finds the pipe empty. -/
def Served (listenfd : Int32) (s : Sys) (h : Handle) : Prop :=
  ∃ tr t, Run (server listenfd) s tr t ∧ Always PollsEmpty tr ∧ ∃ p ∈ tr, Reads h p.1 p.2

variable {listenfd : Int32} {s t : Sys} {a : Act}

/-- At the top of the loop the next call is the poll, and an empty pipe leads back there. -/
theorem Step.stays_at_top (hst : Step listenfd s a t) (htop : s.reader = .readPipe)
    (hp : s.PollsEmpty a) : t.reader = .readPipe := by
  cases hst with
  | readPipe hr hi | readEmpty hr hi =>
    show Reader.afterReadPipe s.pipe.read.1 _ = .readPipe
    rw [Handoff.read_of_pipe_nil hp, Reader.afterReadPipe]
  | readFails hr => rfl
  | setNoBlocking hr | epollAdd hr _ _ | epollAddFails hr | closeUnregistered hr | epollWait hr _
  | readClient hr _ | closePeer hr | closeError hr =>
    have hne := htop.symm.trans hr
    cases hne
  | _ => exact htop

theorem along_top {tr : List (Sys × Act)} (hr : Run (server listenfd) s tr t)
    (htop : s.reader = .readPipe) (hp : Always PollsEmpty tr) :
    Always (fun u _ => u.reader = .readPipe) tr ∧ t.reader = .readPipe := by
  have hstep : ∀ u b v, u.reader = .readPipe → u.PollsEmpty b →
      (server listenfd).step u b = some v → v.reader = .readPipe :=
    fun _ _ _ htop hp hk => (step_cases hk).stays_at_top htop hp
  exact hr.along_of_always hstep htop hp

theorem not_served (htop : s.reader = .readPipe) (h : Handle) : ¬ s.Served listenfd h := by
  rintro ⟨tr, t, hr, hp, p, hm, htarget, -⟩
  rw [(along_top hr htop hp).1 p hm] at htarget
  cases htarget

/-- A pass over an empty pipe changes nothing. -/
theorem poll_fails (htop : s.reader = .readPipe) :
    (server listenfd).step s (.reader (.readPipe false)) = some s := by
  have hs : { s with reader := Reader.afterReadPipe .again s.kern.nextConn } = s := by
    show { s with reader := Reader.readPipe } = s
    rw [← htop]
  simp only [server, step, readerStep, htop, hs]
  rfl

theorem polls (htop : s.reader = .readPipe) (n : ℕ) :
    Run (server listenfd) s (List.replicate n (s, .reader (.readPipe false))) s := by
  induction n with
  | zero => exact .refl s
  | succ n ih =>
    rw [List.replicate_succ']
    exact ih.tail (poll_fails htop)

end Sys

/-- From the top of the loop with an empty pipe, no number of passes reads any
connection, whether or not it has an edge pending; and there is no end of passes. -/
theorem starved_while_pipe_empty {listenfd : Int32} {s : Sys} (htop : s.reader = .readPipe)
    (h : Handle) :
    ¬ s.Served listenfd h ∧
      ∀ n, ∃ tr, tr.length = n ∧ Always Sys.PollsEmpty tr ∧ Run (server listenfd) s tr s := by
  refine ⟨Sys.not_served htop h, fun n => ⟨_, List.length_replicate, ?_, Sys.polls htop n⟩⟩
  intro p hp
  rw [List.eq_of_mem_replicate hp]
  trivial

/-- The first client is registered, the reader is back at the top, and bytes arrive. -/
theorem starved_first_client : ∃ s, Reachable (server 5) s ∧
    s.kern.interest = [⟨⟨8, 0⟩, 0, true⟩] ∧ s.kern.sock 0 = ⟨10, false⟩ ∧
    ¬ s.Served 5 ⟨8, 0⟩ := by
  obtain ⟨s, hr, htop, hi, hk⟩ := exists_reachable_of_exec (S := server 5) Sys.initial_start
    (firstClient ++ [.reader (.epollWait []), .env (.deliver 0 10)])
    (P := fun s => s.reader = .readPipe ∧ s.kern.interest = [⟨⟨8, 0⟩, 0, true⟩] ∧
      s.kern.sock 0 = ⟨10, false⟩) (by decide +kernel)
  exact ⟨s, hr, hi, hk, (starved_while_pipe_empty htop ⟨8, 0⟩).1⟩

/-- So a registered connection with bytes and an edge pending may never be read. -/
theorem served_fails_first_client : ¬ ∀ listenfd s h, Reachable (server listenfd) s →
    s.reader = .readPipe → s.pipe.pipe = [] →
    (∃ i ∈ s.kern.interest, i.data = h ∧ i.edge = true ∧
      (s.kern.sock i.file).readable = true) → s.Served listenfd h := by
  intro hall
  obtain ⟨s, hr, htop, hp, hi⟩ := exists_reachable_of_exec (S := server 5) Sys.initial_start
    (firstClient ++ [.reader (.epollWait []), .env (.deliver 0 10)])
    (P := fun s => s.reader = .readPipe ∧ s.pipe.pipe = [] ∧
      ∃ i ∈ s.kern.interest, i.data = ⟨8, 0⟩ ∧ i.edge = true ∧
        (s.kern.sock i.file).readable = true) (by decide +kernel)
  exact Sys.not_served htop ⟨8, 0⟩ (hall 5 s ⟨8, 0⟩ hr htop hp hi)

end BaseCom.Epoll
