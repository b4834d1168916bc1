import BaseCom.Epoll.Acceptor
import BaseCom.Epoll.Pipe

/-! The loop of `PipeReadThread::ReadPipe`, cut at its system calls like the
accept loop. One pass polls the pipe and, only if a message came, registers its
descriptor and handles one batch of client events. -/

namespace BaseCom.Epoll

/-- The values of `errno` the reader tells apart. -/
inductive Errno
  | eagain
  | eintr
  | other
  deriving DecidableEq

/-- A `read`: the count it returned, or -1 with `errno`. -/
inductive ReadResult
  | bytes (n : ℕ)
  | error (errno : Errno)
  deriving DecidableEq

/-- The next system call of the reader thread. `returned` is a `return` out of the
loop, `exited` the `exit(1)` of `SetNoBlocking`. -/
inductive Reader
  | readPipe
  | setNoBlocking (h : Handle)
  | epollAdd (h : Handle)
  | closeUnregistered (h : Handle)
  | epollWait
  | readClient (h : Handle) (rest : List (EpollEvent Handle))
  | closePeer (h : Handle)
  | closeError (h : Handle) (rest : List (EpollEvent Handle))
  | returned
  | exited
  deriving DecidableEq

namespace Reader

/-- The `for` loop up to its next call. -/
def forEvents : List (EpollEvent Handle) → Reader
  | [] => .readPipe
  | e :: rest =>
    if e.events.epollin then .readClient e.data rest
    else if e.events.epollerr || e.events.epollhup then .closeError e.data rest
    else forEvents rest

/-- What follows the poll of the pipe. An empty pipe starts the loop afresh. -/
def afterReadPipe (v : Verdict) (conn : Conn) : Reader :=
  match v with
  | .again => .readPipe
  | .notFourteen | .badFd => .returned
  | .message msg => if msg.op = 1 then .setNoBlocking ⟨msg.fd, conn⟩ else .epollWait

def afterSetNoBlocking (ok : Bool) (h : Handle) : Reader := if ok then .epollAdd h else .exited

def afterEpollAdd (ret : ℤ) (h : Handle) : Reader :=
  if ret ≠ 0 then .closeUnregistered h else .epollWait

/-- What follows the read of a reported connection. Every `break` leaves the batch. -/
def afterRead (r : ReadResult) (h : Handle) (rest : List (EpollEvent Handle)) : Reader :=
  match r with
  | .bytes (_ + 1) => forEvents rest
  | .error .eagain => .readPipe
  | .error .eintr => forEvents rest
  | .error .other => .readPipe
  | .bytes 0 => .closePeer h

/-- The descriptor in the thread's local variables, taken out of a message and
not registered yet. -/
def hand : Reader → List Handle
  | .setNoBlocking h | .epollAdd h | .closeUnregistered h => [h]
  | .readPipe | .epollWait | .readClient _ _ | .closePeer _ | .closeError _ _
  | .returned | .exited => []

/-- The reported connections the pass still deals with. -/
def batch : Reader → List Handle
  | .readClient h rest | .closeError h rest => h :: rest.map (·.data)
  | .closePeer h => [h]
  | .readPipe | .setNoBlocking _ | .epollAdd _ | .closeUnregistered _ | .epollWait
  | .returned | .exited => []

/-- The connection descriptor the next call reads or closes. -/
def target : Reader → Option Handle
  | .readClient h _ | .closePeer h | .closeError h _ | .closeUnregistered h => some h
  | .readPipe | .setNoBlocking _ | .epollAdd _ | .epollWait | .returned | .exited => none

theorem hand_or_batch_of_target {r : Reader} {h : Handle} (ht : r.target = some h) :
    h ∈ r.hand ∨ h ∈ r.batch := by
  cases r with
  | closeUnregistered g =>
    cases ht
    exact .inl (List.mem_singleton_self _)
  | readClient _ _ | closeError _ _ =>
    cases ht
    exact .inr List.mem_cons_self
  | closePeer g =>
    cases ht
    exact .inr (List.mem_singleton_self _)
  | readPipe | setNoBlocking _ | epollAdd _ | epollWait | returned | exited => cases ht

/-- Every event has a cause, so the loop skips none. -/
theorem forEvents_cons (e : EpollEvent Handle) (rest : List (EpollEvent Handle)) :
    forEvents (e :: rest) =
      if e.events.epollin then .readClient e.data rest else .closeError e.data rest := by
  have hc := e.events.cause
  unfold forEvents
  cases hin : e.events.epollin
  · rw [hin, Bool.false_or] at hc
    simp [hc]
  · simp

theorem hand_forEvents (es : List (EpollEvent Handle)) : (forEvents es).hand = [] := by
  cases es with
  | nil => rfl
  | cons e rest =>
    rw [forEvents_cons]
    split <;> rfl

theorem batch_forEvents (es : List (EpollEvent Handle)) :
    (forEvents es).batch = es.map (·.data) := by
  cases es with
  | nil => rfl
  | cons e rest =>
    rw [forEvents_cons]
    split <;> rfl

/-- Until the reports come the thread has no batch. -/
theorem batch_afterReadPipe (v : Verdict) (conn : Conn) : (afterReadPipe v conn).batch = [] := by
  unfold afterReadPipe
  split
  · rfl
  · rfl
  · rfl
  · split_ifs <;> rfl

theorem batch_afterSetNoBlocking (ok : Bool) (h : Handle) :
    (afterSetNoBlocking ok h).batch = [] := by
  cases ok <;> rfl

/-- After a read the thread holds nothing new, and what it still deals with was
in the batch already. -/
theorem afterRead_batch (r : ReadResult) (h : Handle) (rest : List (EpollEvent Handle)) :
    (afterRead r h rest).hand = [] ∧
      (afterRead r h rest).batch.Sublist (h :: rest.map (·.data)) := by
  unfold afterRead
  split
  · exact ⟨hand_forEvents _, batch_forEvents rest ▸ List.sublist_cons_self _ _⟩
  · exact ⟨rfl, List.nil_sublist _⟩
  · exact ⟨hand_forEvents _, batch_forEvents rest ▸ List.sublist_cons_self _ _⟩
  · exact ⟨rfl, List.nil_sublist _⟩
  · exact ⟨rfl, List.singleton_sublist.mpr List.mem_cons_self⟩

end Reader

end BaseCom.Epoll
