import BaseCom.Epoll.Message

/-! The event loop of `EpollServer::BindEpollRecv`, cut at its system calls. A
state of the thread is the call it makes next, with the local variables that are
live there; the functions say where each result leads. The batch is the part of
the `events` array the `for` loop has not reached. -/

namespace BaseCom.Epoll

/-- A connection, numbered in the order of arrival. -/
abbrev Conn := ℕ

/-- A descriptor number, with the connection whose `accept` put the number into
circulation. The code sees `fd`; `conn` is history. -/
structure Handle where
  fd : Int32
  conn : Conn
  deriving DecidableEq

/-- The `events` of a report. The kernel reports no descriptor without a cause. -/
structure EventMask where
  epollin : Bool
  epollerr : Bool
  epollhup : Bool
  cause : (epollin || epollerr || epollhup) = true
  deriving DecidableEq

/-- `EPOLLIN` alone. -/
def EventMask.readable : EventMask := ⟨true, false, false, rfl⟩

/-- `struct epoll_event`, with the user data it was registered with. -/
structure EpollEvent (δ : Type) where
  events : EventMask
  data : δ
  deriving DecidableEq

/-- What `accept` stores about the peer. -/
structure SockaddrIn where
  sinAddr : UInt32
  sinPort : UInt16
  deriving DecidableEq

/-- The next system call of the accept thread. -/
inductive Acceptor
  | epollWait
  | accept (rest : List (EpollEvent Int32))
  | readClient (h : Handle) (msg : Pipemsg) (rest : List (EpollEvent Int32))
  | writePipe (h : Handle) (msg : Pipemsg) (rest : List (EpollEvent Int32))
  | closeClient (h : Handle) (rest : List (EpollEvent Int32))
  deriving DecidableEq

namespace Acceptor

/-- The `for` loop up to its next call: reports for another descriptor and
exceptional reports are skipped. -/
def forEvents (listenfd : Int32) : List (EpollEvent Int32) → Acceptor
  | [] => .epollWait
  | e :: rest =>
    if e.data ≠ listenfd then forEvents listenfd rest
    else if e.events.epollerr || e.events.epollhup then forEvents listenfd rest
    else .accept rest

/-- A connection is read from once before it is handed on. -/
def afterAccept (listenfd acceptfd : Int32) (conn : Conn) (cliaddr : SockaddrIn)
    (rest : List (EpollEvent Int32)) : Acceptor :=
  if 0 ≤ acceptfd then
    .readClient ⟨acceptfd, conn⟩
      { op := 1, fd := acceptfd, ip := cliaddr.sinAddr, port := cliaddr.sinPort } rest
  else forEvents listenfd rest

/-- The result of the read is not looked at. -/
def afterRead (h : Handle) (msg : Pipemsg) (rest : List (EpollEvent Int32)) : Acceptor :=
  .writePipe h msg rest

def afterWrite (listenfd : Int32) (ret : ℤ) (h : Handle) (rest : List (EpollEvent Int32)) :
    Acceptor :=
  if ret ≠ 14 then .closeClient h rest else forEvents listenfd rest

/-- The descriptor in the thread's local variables. -/
def hand : Acceptor → List Handle
  | .epollWait | .accept _ => []
  | .readClient h _ _ | .writePipe h _ _ | .closeClient h _ => [h]

/-- The connection descriptor the next call reads or closes. -/
def target : Acceptor → Option Handle
  | .epollWait | .accept _ | .writePipe _ _ _ => none
  | .readClient h _ _ | .closeClient h _ => some h

/-- The message in the thread's hand. -/
def message : Acceptor → Option (Handle × Pipemsg)
  | .readClient h msg _ | .writePipe h msg _ => some (h, msg)
  | .epollWait | .accept _ | .closeClient _ _ => none

/-- The reports of a batch that lead to a call of `accept`. -/
def acceptsIn (listenfd : Int32) (batch : List (EpollEvent Int32)) : ℕ :=
  batch.countP fun e => e.data = listenfd ∧ ¬ (e.events.epollerr || e.events.epollhup)

/-- The calls of `accept` the thread makes before it waits again. -/
def acceptsLeft (listenfd : Int32) : Acceptor → ℕ
  | .epollWait => 0
  | .accept rest => acceptsIn listenfd rest + 1
  | .readClient _ _ rest | .writePipe _ _ rest | .closeClient _ rest => acceptsIn listenfd rest

variable (listenfd : Int32) (batch : List (EpollEvent Int32))

theorem acceptsLeft_epollWait : Acceptor.epollWait.acceptsLeft listenfd = 0 := rfl

theorem acceptsLeft_accept : (accept batch).acceptsLeft listenfd = acceptsIn listenfd batch + 1 :=
  rfl

theorem acceptsLeft_readClient (h : Handle) (msg : Pipemsg) :
    (readClient h msg batch).acceptsLeft listenfd = acceptsIn listenfd batch := rfl

theorem acceptsLeft_writePipe (h : Handle) (msg : Pipemsg) :
    (writePipe h msg batch).acceptsLeft listenfd = acceptsIn listenfd batch := rfl

theorem acceptsLeft_closeClient (h : Handle) :
    (closeClient h batch).acceptsLeft listenfd = acceptsIn listenfd batch := rfl

/-- Before its next call the loop skips, and it skips no call of `accept`. -/
theorem acceptsLeft_forEvents :
    (forEvents listenfd batch).acceptsLeft listenfd = acceptsIn listenfd batch := by
  induction batch with
  | nil => rfl
  | cons e rest ih =>
    unfold forEvents
    split_ifs with h₁ h₂
    · rw [ih, acceptsIn, acceptsIn, List.countP_cons_of_neg (by simp [h₁])]
    · rw [ih, acceptsIn, acceptsIn, List.countP_cons_of_neg (by simp only [h₂]; simp)]
    · have hd : e.data = listenfd := by simpa using h₁
      rw [acceptsIn, List.countP_cons_of_pos (by simp only [hd, h₂]; simp)]
      rfl

/-- After skipping, the thread waits or accepts; it holds no descriptor. -/
theorem forEvents_cases :
    forEvents listenfd batch = .epollWait ∨ ∃ rest, forEvents listenfd batch = .accept rest := by
  induction batch with
  | nil => exact .inl rfl
  | cons e rest ih =>
    unfold forEvents
    split_ifs
    · exact ih
    · exact ih
    · exact .inr ⟨rest, rfl⟩

theorem acceptsLeft_afterAccept (fd : Int32) (conn : Conn) (cliaddr : SockaddrIn) :
    (afterAccept listenfd fd conn cliaddr batch).acceptsLeft listenfd =
      acceptsIn listenfd batch := by
  unfold afterAccept
  split_ifs
  · rfl
  · exact acceptsLeft_forEvents listenfd batch

theorem acceptsLeft_afterWrite (ret : ℤ) (h : Handle) :
    (afterWrite listenfd ret h batch).acceptsLeft listenfd = acceptsIn listenfd batch := by
  unfold afterWrite
  split_ifs
  · rfl
  · exact acceptsLeft_forEvents listenfd batch

theorem hand_of_target {b : Acceptor} {h : Handle} (ht : b.target = some h) : h ∈ b.hand := by
  cases b with
  | readClient _ _ _ | closeClient _ _ =>
    cases ht
    exact List.mem_singleton_self _
  | epollWait | accept _ | writePipe _ _ _ => cases ht

@[simp] theorem hand_forEvents : (forEvents listenfd batch).hand = [] := by
  rcases forEvents_cases listenfd batch with h | ⟨rest, h⟩ <;> rw [h] <;> rfl

@[simp] theorem message_forEvents : (forEvents listenfd batch).message = none := by
  rcases forEvents_cases listenfd batch with h | ⟨rest, h⟩ <;> rw [h] <;> rfl

end Acceptor

end BaseCom.Epoll
