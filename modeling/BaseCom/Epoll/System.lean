import BaseCom.Epoll.Kernel

/-! Acceptor, pipe and reader running together over one kernel, with the clients
as environment. A label names the system call that is made and what the kernel
answers, so runs of this system are the interleavings of the two threads with
any arrivals, data, closes and errors, and any choice of descriptor numbers. -/

namespace BaseCom.Epoll

open Transition

/-- The kernel, the pipe, the two threads, and the connections the messages in the
pipe are for. -/
structure Sys where
  kern : Kernel
  pipe : Handoff
  acceptor : Acceptor
  reader : Reader
  inFlight : List Handle

/-- What the clients do. A reset ends the stream as a close does; a read that fails with it is
a fault of that read. -/
inductive EnvAct
  | connect (addr : SockaddrIn)
  | deliver (c : Conn) (n : ℕ)
  | peerClose (c : Conn)
  | peerError (c : Conn)

/-- The calls of `BindEpollRecv`, with their results. An `accept` may also fail and leave the
oldest connection in the backlog, as with `EMFILE` and `EINTR`. -/
inductive AcceptorAct
  | epollWait (report : Bool)
  | accept (fd : Int32)
  | acceptFails
  | readClient (fault : Option Errno)
  | writePipe (garbage : MsgMem) (ok : Bool)
  | closeClient

/-- The calls of `ReadPipe`, with their results. -/
inductive ReaderAct
  | readPipe (ok : Bool)
  | setNoBlocking (ok : Bool)
  | epollAdd (ok : Bool)
  | closeUnregistered
  | epollWait (events : List (EpollEvent Handle))
  | readClient (fault : Option Errno)
  | closePeer
  | closeError

inductive Act
  | env (a : EnvAct)
  | acceptor (a : AcceptorAct)
  | reader (a : ReaderAct)

namespace Sys

def envStep (s : Sys) : EnvAct → Option Sys
  | .connect addr => some { s with kern := s.kern.arrive addr }
  | .deliver c n =>
    if c < s.kern.nextConn ∧ 0 < n ∧ (s.kern.sock c).eof = false then
      some { s with kern := s.kern.deliver c n }
    else none
  | .peerClose c =>
    if c < s.kern.nextConn then some { s with kern := s.kern.peerClose c } else none
  | .peerError c =>
    if c < s.kern.nextConn then some { s with kern := s.kern.peerClose c } else none

/-- The report of the listening socket. In the state LISTEN a socket is reported
with `EPOLLIN` alone. -/
def listenEvent (listenfd : Int32) : EpollEvent Int32 := ⟨.readable, listenfd⟩

def acceptorStep (listenfd : Int32) (s : Sys) : AcceptorAct → Option Sys
  | .epollWait report =>
    match s.acceptor with
    | .epollWait =>
      if report then
        if s.kern.listenEdge then
          some { s with kern := { s.kern with listenEdge := false }
                        acceptor := .forEvents listenfd [listenEvent listenfd] }
        else none
      else some { s with acceptor := .forEvents listenfd [] }
    | _ => none
  | .accept fd =>
    match s.acceptor with
    | .accept rest =>
      if s.kern.MayAccept fd then
        let conn := s.kern.backlog.headD s.kern.nextConn
        some { s with kern := s.kern.accept fd
                      acceptor := .afterAccept listenfd fd conn (s.kern.peer conn) rest }
      else none
    | _ => none
  | .acceptFails =>
    match s.acceptor with
    | .accept rest =>
      some { s with acceptor := .afterAccept listenfd (-1) s.kern.nextConn ⟨0, 0⟩ rest }
    | _ => none
  | .readClient fault =>
    match s.acceptor with
    | .readClient h msg rest =>
      if fault = none ∧ s.kern.blocks h.fd then none
      else some { s with kern := (s.kern.read h.fd 39 fault).2
                         acceptor := .afterRead h msg rest }
    | _ => none
  | .writePipe garbage ok =>
    match s.acceptor with
    | .writePipe h msg rest =>
      if ok then
        some { s with pipe := s.pipe.write msg garbage
                      acceptor := .afterWrite listenfd 14 h rest
                      inFlight := s.inFlight ++ [h] }
      else some { s with acceptor := .afterWrite listenfd (-1) h rest }
    | _ => none
  | .closeClient =>
    match s.acceptor with
    | .closeClient h rest =>
      some { s with kern := s.kern.close h.fd, acceptor := .forEvents listenfd rest }
    | _ => none

def readerStep (s : Sys) : ReaderAct → Option Sys
  | .readPipe ok =>
    match s.reader with
    | .readPipe =>
      if ok then
        match s.inFlight with
        | h :: rest =>
          some { s with pipe := s.pipe.read.2
                        reader := .afterReadPipe s.pipe.read.1 h.conn
                        inFlight := rest }
        | [] =>
          some { s with pipe := s.pipe.read.2
                        reader := .afterReadPipe s.pipe.read.1 s.kern.nextConn }
      else some { s with reader := .afterReadPipe .again s.kern.nextConn }
    | _ => none
  | .setNoBlocking ok =>
    match s.reader with
    | .setNoBlocking h => some { s with reader := .afterSetNoBlocking ok h }
    | _ => none
  | .epollAdd ok =>
    match s.reader with
    | .epollAdd h =>
      if ok then
        match s.kern.file h.fd with
        | some (.conn c) =>
          if ∀ i ∈ s.kern.interest, i.file ≠ c then
            some { s with kern := s.kern.epollAdd h c, reader := .afterEpollAdd 0 h }
          else none
        | _ => none
      else some { s with reader := .afterEpollAdd (-1) h }
    | _ => none
  | .closeUnregistered =>
    match s.reader with
    | .closeUnregistered h => some { s with kern := s.kern.close h.fd, reader := .epollWait }
    | _ => none
  | .epollWait events =>
    match s.reader with
    | .epollWait =>
      if s.kern.MayReport events then
        some { s with kern := s.kern.report events, reader := .forEvents events }
      else none
    | _ => none
  | .readClient fault =>
    match s.reader with
    | .readClient h rest =>
      if fault = some .eagain then none
      else some { s with kern := (s.kern.read h.fd 1024 fault).2
                         reader := .afterRead (s.kern.read h.fd 1024 fault).1 h rest }
    | _ => none
  | .closePeer =>
    match s.reader with
    | .closePeer h => some { s with kern := s.kern.close h.fd, reader := .readPipe }
    | _ => none
  | .closeError =>
    match s.reader with
    | .closeError h rest =>
      some { s with kern := s.kern.close h.fd, reader := .forEvents rest }
    | _ => none

/-- A step of the process and its clients. `exit(1)` in the reader ends both threads. -/
def step (listenfd : Int32) (s : Sys) (a : Act) : Option Sys :=
  if s.reader = .exited then none
  else
    match a with
    | .env a => s.envStep a
    | .acceptor a => s.acceptorStep listenfd a
    | .reader a => s.readerStep a

/-- Both threads are at the head of their loops, no client has connected, and the
open descriptors are none of a connection. -/
structure Initial (s : Sys) : Prop where
  file : ∀ fd c, s.kern.file fd ≠ some (.conn c)
  nextConn : s.kern.nextConn = 0
  backlog : s.kern.backlog = []
  interest : s.kern.interest = []
  pipe : s.pipe.pipe = [] ∧ s.pipe.status = .looping ∧ s.pipe.sent = [] ∧ s.pipe.decoded = []
  acceptor : s.acceptor = .epollWait
  reader : s.reader = .readPipe
  inFlight : s.inFlight = []

/-- A process whose descriptors up to 7 are the standard streams, the pipe, the
listening socket and the epoll instances. -/
def start : Sys where
  kern := {
    file := fun fd => if 0 ≤ fd ∧ fd ≤ 7 then some .other else none
    sock := fun _ => ⟨0, false⟩
    peer := fun _ => ⟨0, 0⟩
    nextConn := 0
    backlog := []
    listenEdge := false
    interest := [] }
  pipe := ⟨[], .zero, .looping, [], []⟩
  acceptor := .epollWait
  reader := .readPipe
  inFlight := []

theorem initial_start : start.Initial where
  file := by
    intro fd c h
    simp only [start] at h
    split_ifs at h
    cases h
  nextConn := rfl
  backlog := rfl
  interest := rfl
  pipe := ⟨rfl, rfl, rfl, rfl⟩
  acceptor := rfl
  reader := rfl
  inFlight := rfl

end Sys

/-- The two threads, the pipe and the clients. -/
def server (listenfd : Int32) : Lts Sys Act where
  init := Sys.Initial
  step := Sys.step listenfd

/-- The calls that bring the first client, as number 8, into the interest list. -/
def firstClient : List Act := [
  .env (.connect ⟨16777343, 4660⟩), .acceptor (.epollWait true), .acceptor (.accept 8),
  .acceptor (.readClient (some .eintr)), .acceptor (.writePipe .zero true),
  .reader (.readPipe true), .reader (.setNoBlocking true), .reader (.epollAdd true)]

/-- The report of the first client with `EPOLLIN`. -/
def firstReadable : EpollEvent Handle := ⟨.readable, ⟨8, 0⟩⟩

end BaseCom.Epoll
