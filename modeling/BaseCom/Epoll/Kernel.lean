import BaseCom.Epoll.Reader
import Mathlib.Logic.Function.Basic

/-! What the two threads use of the kernel: one table of descriptor numbers, the
listening socket with its accept backlog, a receive queue for each connection,
and the edge-triggered interest list of the reader's epoll instance. An operation
is a function of the kernel state and of the choices the kernel has. -/

namespace BaseCom.Epoll

/-- What a descriptor number denotes. Listening socket, epoll instances, pipe ends
and the standard streams are `other`. -/
inductive File
  | conn (c : Conn)
  | other
  deriving DecidableEq

/-- The receive side of a connection: bytes not read yet, and whether the peer has
closed behind them or reset the connection. -/
structure Socket where
  unread : ℕ
  eof : Bool
  deriving DecidableEq

/-- A read would return bytes or the end of the stream. -/
def Socket.readable (k : Socket) : Bool := decide (0 < k.unread) || k.eof

/-- An entry of the interest list: the user data it was registered with, the
connection, and whether an edge is pending. -/
structure EpItem where
  data : Handle
  file : Conn
  edge : Bool
  deriving DecidableEq

structure Kernel where
  file : Int32 → Option File
  sock : Conn → Socket
  peer : Conn → SockaddrIn
  nextConn : Conn
  backlog : List Conn
  listenEdge : Bool
  interest : List EpItem

namespace Kernel

/-! ### The network -/

/-- Something happened on a connection: its entry has an edge. -/
def wake (k : Kernel) (c : Conn) : Kernel :=
  { k with interest := k.interest.map fun i => if i.file = c then { i with edge := true } else i }

/-- A client connects. -/
def arrive (k : Kernel) (addr : SockaddrIn) : Kernel :=
  { k with
    sock := Function.update k.sock k.nextConn ⟨0, false⟩
    peer := Function.update k.peer k.nextConn addr
    nextConn := k.nextConn + 1
    backlog := k.backlog ++ [k.nextConn]
    listenEdge := true }

/-- `n` bytes arrive. -/
def deliver (k : Kernel) (c : Conn) (n : ℕ) : Kernel :=
  wake { k with sock := Function.update k.sock c ⟨(k.sock c).unread + n, (k.sock c).eof⟩ } c

/-- The peer closes its sending side. -/
def peerClose (k : Kernel) (c : Conn) : Kernel :=
  wake { k with sock := Function.update k.sock c ⟨(k.sock c).unread, true⟩ } c

/-! ### System calls -/

/-- `accept` that takes the oldest connection off the backlog, under the number `fd`, or
with the result -1 if it was aborted or none was there. -/
def accept (k : Kernel) (fd : Int32) : Kernel :=
  { k with
    backlog := k.backlog.tail
    file := if 0 ≤ fd then Function.update k.file fd (some (.conn (k.backlog.headD k.nextConn)))
      else k.file }

/-- The numbers `accept` may return: -1, or one that is not open. -/
def MayAccept (k : Kernel) (fd : Int32) : Prop :=
  fd < 0 ∨ (k.backlog ≠ [] ∧ k.file fd = none)

/-- Take bytes off a receive queue. -/
def consume (k : Kernel) (c : Conn) (n : ℕ) : Kernel :=
  { k with sock := Function.update k.sock c ⟨(k.sock c).unread - n, (k.sock c).eof⟩ }

/-- A non-blocking `read` of at most `len` bytes. A fault is an error the kernel
may return at any time, taking nothing. -/
def read (k : Kernel) (fd : Int32) (len : ℕ) (fault : Option Errno) : ReadResult × Kernel :=
  match k.file fd, fault with
  | some (.conn c), none =>
    if 0 < (k.sock c).unread then
      (.bytes (min (k.sock c).unread len), k.consume c (min (k.sock c).unread len))
    else if (k.sock c).eof then (.bytes 0, k)
    else (.error .eagain, k)
  | some (.conn _), some e => (.error e, k)
  | _, _ => (.error .other, k)

/-- A read touches receive queues only. -/
theorem read_frame (k : Kernel) (fd : Int32) (len : ℕ) (fault : Option Errno) :
    ∃ sock, (k.read fd len fault).2 = { k with sock := sock } := by
  unfold read
  split
  · split_ifs
    · exact ⟨_, rfl⟩
    · exact ⟨k.sock, rfl⟩
    · exact ⟨k.sock, rfl⟩
  · exact ⟨k.sock, rfl⟩
  · exact ⟨k.sock, rfl⟩

section

variable (k : Kernel) (fd : Int32) (len : ℕ) (fault : Option Errno)

@[simp] theorem read_file : (k.read fd len fault).2.file = k.file := by
  obtain ⟨sock, h⟩ := k.read_frame fd len fault
  rw [h]

@[simp] theorem read_peer : (k.read fd len fault).2.peer = k.peer := by
  obtain ⟨sock, h⟩ := k.read_frame fd len fault
  rw [h]

@[simp] theorem read_nextConn : (k.read fd len fault).2.nextConn = k.nextConn := by
  obtain ⟨sock, h⟩ := k.read_frame fd len fault
  rw [h]

@[simp] theorem read_backlog : (k.read fd len fault).2.backlog = k.backlog := by
  obtain ⟨sock, h⟩ := k.read_frame fd len fault
  rw [h]

@[simp] theorem read_listenEdge : (k.read fd len fault).2.listenEdge = k.listenEdge := by
  obtain ⟨sock, h⟩ := k.read_frame fd len fault
  rw [h]

@[simp] theorem read_interest : (k.read fd len fault).2.interest = k.interest := by
  obtain ⟨sock, h⟩ := k.read_frame fd len fault
  rw [h]

end

/-- A blocking `read` on the descriptor would wait for its client. -/
def blocks (k : Kernel) (fd : Int32) : Bool :=
  match k.file fd with
  | some (.conn c) => !(k.sock c).readable
  | _ => false

/-- `close`. Descriptors are never duplicated, so this is the last reference and
takes the connection off the interest list. -/
def close (k : Kernel) (fd : Int32) : Kernel :=
  { k with
    file := Function.update k.file fd none
    interest := match k.file fd with
      | some (.conn c) => k.interest.filter fun i => i.file ≠ c
      | _ => k.interest }

/-- `epoll_ctl(epfd, EPOLL_CTL_ADD, h.fd, EPOLLIN | EPOLLET)` on a connection. One
that is readable already has an edge at once. -/
def epollAdd (k : Kernel) (h : Handle) (c : Conn) : Kernel :=
  { k with interest := k.interest ++ [⟨h, c, (k.sock c).readable⟩] }

/-- `epoll_wait` may report these events: pending edges, each descriptor once. -/
def MayReport (k : Kernel) (events : List (EpollEvent Handle)) : Prop :=
  events.length ≤ 1024 ∧ (events.map (·.data.fd)).Nodup ∧
    ∀ e ∈ events, ∃ i ∈ k.interest, i.data = e.data ∧ i.edge = true

/-- A reported edge is no longer pending. -/
def report (k : Kernel) (events : List (EpollEvent Handle)) : Kernel :=
  { k with
    interest := k.interest.map fun i =>
      if i.data ∈ events.map (·.data) then { i with edge := false } else i }

instance (k : Kernel) (fd : Int32) : Decidable (k.MayAccept fd) :=
  inferInstanceAs (Decidable (_ ∨ _))

instance (k : Kernel) (events : List (EpollEvent Handle)) : Decidable (k.MayReport events) :=
  inferInstanceAs (Decidable (_ ∧ _))

end Kernel

end BaseCom.Epoll
