import BaseCom.Epoll.System

/-! Everything a step can do, said once: one case for each call and each kind of
answer, with the guard it has and the state it leads to. Invariants are proved by
cases on this relation and do not look into the step function. -/

namespace BaseCom.Epoll

open Transition

namespace Sys

inductive Step (listenfd : Int32) (s : Sys) : Act → Sys → Prop
  | connect (addr : SockaddrIn) :
      Step listenfd s (.env (.connect addr)) { s with kern := s.kern.arrive addr }
  | deliver {c : Conn} {n : ℕ} (hc : c < s.kern.nextConn) (hn : 0 < n)
      (he : (s.kern.sock c).eof = false) :
      Step listenfd s (.env (.deliver c n)) { s with kern := s.kern.deliver c n }
  | peerClose {c : Conn} (hc : c < s.kern.nextConn) :
      Step listenfd s (.env (.peerClose c)) { s with kern := s.kern.peerClose c }
  | peerError {c : Conn} (hc : c < s.kern.nextConn) :
      Step listenfd s (.env (.peerError c)) { s with kern := s.kern.peerClose c }
  | listenReport (ha : s.acceptor = .epollWait) (he : s.kern.listenEdge = true) :
      Step listenfd s (.acceptor (.epollWait true))
        { s with kern := { s.kern with listenEdge := false }
                 acceptor := .forEvents listenfd [listenEvent listenfd] }
  | listenTimeout (ha : s.acceptor = .epollWait) :
      Step listenfd s (.acceptor (.epollWait false))
        { s with acceptor := .forEvents listenfd [] }
  | accept {fd : Int32} {rest : List (EpollEvent Int32)} (ha : s.acceptor = .accept rest)
      (hfd : s.kern.MayAccept fd) :
      Step listenfd s (.acceptor (.accept fd))
        { s with kern := s.kern.accept fd
                 acceptor := .afterAccept listenfd fd (s.kern.backlog.headD s.kern.nextConn)
                   (s.kern.peer (s.kern.backlog.headD s.kern.nextConn)) rest }
  | acceptFails {rest : List (EpollEvent Int32)} (ha : s.acceptor = .accept rest) :
      Step listenfd s (.acceptor .acceptFails) { s with acceptor := .forEvents listenfd rest }
  | readOnce {fault : Option Errno} {h : Handle} {msg : Pipemsg} {rest : List (EpollEvent Int32)}
      (ha : s.acceptor = .readClient h msg rest) :
      Step listenfd s (.acceptor (.readClient fault))
        { s with kern := (s.kern.read h.fd 39 fault).2, acceptor := .afterRead h msg rest }
  | writePipe {garbage : MsgMem} {h : Handle} {msg : Pipemsg} {rest : List (EpollEvent Int32)}
      (ha : s.acceptor = .writePipe h msg rest) :
      Step listenfd s (.acceptor (.writePipe garbage true))
        { s with pipe := s.pipe.write msg garbage
                 acceptor := .afterWrite listenfd 14 h rest
                 inFlight := s.inFlight ++ [h] }
  | writeFails {garbage : MsgMem} {h : Handle} {msg : Pipemsg} {rest : List (EpollEvent Int32)}
      (ha : s.acceptor = .writePipe h msg rest) :
      Step listenfd s (.acceptor (.writePipe garbage false))
        { s with acceptor := .afterWrite listenfd (-1) h rest }
  | closeClient {h : Handle} {rest : List (EpollEvent Int32)}
      (ha : s.acceptor = .closeClient h rest) :
      Step listenfd s (.acceptor .closeClient)
        { s with kern := s.kern.close h.fd, acceptor := .forEvents listenfd rest }
  | readPipe {h : Handle} {rest : List Handle} (hr : s.reader = .readPipe)
      (hi : s.inFlight = h :: rest) :
      Step listenfd s (.reader (.readPipe true))
        { s with pipe := s.pipe.read.2
                 reader := .afterReadPipe s.pipe.read.1 h.conn
                 inFlight := rest }
  | readEmpty (hr : s.reader = .readPipe) (hi : s.inFlight = []) :
      Step listenfd s (.reader (.readPipe true))
        { s with pipe := s.pipe.read.2
                 reader := .afterReadPipe s.pipe.read.1 s.kern.nextConn }
  | readFails (hr : s.reader = .readPipe) :
      Step listenfd s (.reader (.readPipe false))
        { s with reader := .afterReadPipe .again s.kern.nextConn }
  | setNoBlocking {ok : Bool} {h : Handle} (hr : s.reader = .setNoBlocking h) :
      Step listenfd s (.reader (.setNoBlocking ok)) { s with reader := .afterSetNoBlocking ok h }
  | epollAdd {h : Handle} {c : Conn} (hr : s.reader = .epollAdd h)
      (hf : s.kern.file h.fd = some (.conn c)) (hnew : ∀ i ∈ s.kern.interest, i.file ≠ c) :
      Step listenfd s (.reader (.epollAdd true))
        { s with kern := s.kern.epollAdd h c, reader := .afterEpollAdd 0 h }
  | epollAddFails {h : Handle} (hr : s.reader = .epollAdd h) :
      Step listenfd s (.reader (.epollAdd false)) { s with reader := .afterEpollAdd (-1) h }
  | closeUnregistered {h : Handle} (hr : s.reader = .closeUnregistered h) :
      Step listenfd s (.reader .closeUnregistered)
        { s with kern := s.kern.close h.fd, reader := .epollWait }
  | epollWait {events : List (EpollEvent Handle)} (hr : s.reader = .epollWait)
      (hm : s.kern.MayReport events) :
      Step listenfd s (.reader (.epollWait events))
        { s with kern := s.kern.report events, reader := .forEvents events }
  | readClient {fault : Option Errno} {h : Handle} {rest : List (EpollEvent Handle)}
      (hr : s.reader = .readClient h rest) (hf : fault ≠ some .eagain) :
      Step listenfd s (.reader (.readClient fault))
        { s with kern := (s.kern.read h.fd 1024 fault).2
                 reader := .afterRead (s.kern.read h.fd 1024 fault).1 h rest }
  | closePeer {h : Handle} (hr : s.reader = .closePeer h) :
      Step listenfd s (.reader .closePeer) { s with kern := s.kern.close h.fd, reader := .readPipe }
  | closeError {h : Handle} {rest : List (EpollEvent Handle)}
      (hr : s.reader = .closeError h rest) :
      Step listenfd s (.reader .closeError)
        { s with kern := s.kern.close h.fd, reader := .forEvents rest }

variable {listenfd : Int32} {s t : Sys}

theorem envStep_cases {a : EnvAct} (h : s.envStep a = some t) : Step listenfd s (.env a) t := by
  cases a with
  | connect addr =>
    cases h
    exact .connect addr
  | deliver c n =>
    simp only [envStep] at h
    split_ifs at h with hc
    cases h
    exact .deliver hc.1 hc.2.1 hc.2.2
  | peerClose c =>
    simp only [envStep] at h
    split_ifs at h with hc
    cases h
    exact .peerClose hc
  | peerError c =>
    simp only [envStep] at h
    split_ifs at h with hc
    cases h
    exact .peerError hc

theorem acceptorStep_cases {a : AcceptorAct} (h : s.acceptorStep listenfd a = some t) :
    Step listenfd s (.acceptor a) t := by
  cases a with
  | epollWait report =>
    simp only [acceptorStep] at h
    split at h
    next ha =>
      cases report with
      | true =>
        simp only [if_true] at h
        split_ifs at h with he
        cases h
        exact .listenReport ha he
      | false =>
        cases h
        exact .listenTimeout ha
    next => cases h
  | accept fd =>
    simp only [acceptorStep] at h
    split at h
    next rest ha =>
      split_ifs at h with hfd
      cases h
      exact .accept ha hfd
    next => cases h
  | acceptFails =>
    simp only [acceptorStep] at h
    split at h
    next rest ha =>
      cases h
      exact .acceptFails ha
    next => cases h
  | readClient fault =>
    simp only [acceptorStep] at h
    split at h
    next c msg rest ha =>
      split_ifs at h with hb
      cases h
      exact .readOnce ha
    next => cases h
  | writePipe garbage ok =>
    simp only [acceptorStep] at h
    split at h
    next c msg rest ha =>
      cases ok with
      | true =>
        cases h
        exact .writePipe ha
      | false =>
        cases h
        exact .writeFails ha
    next => cases h
  | closeClient =>
    simp only [acceptorStep] at h
    split at h
    next c rest ha =>
      cases h
      exact .closeClient ha
    next => cases h

theorem readerStep_cases {a : ReaderAct} (h : s.readerStep a = some t) :
    Step listenfd s (.reader a) t := by
  cases a with
  | readPipe ok =>
    simp only [readerStep] at h
    split at h
    next hr =>
      cases ok with
      | true =>
        simp only [if_true] at h
        split at h
        next c rest hi =>
          cases h
          exact .readPipe hr hi
        next hi =>
          cases h
          exact .readEmpty hr hi
      | false =>
        cases h
        exact .readFails hr
    next => cases h
  | setNoBlocking ok =>
    simp only [readerStep] at h
    split at h
    next c hr =>
      cases h
      exact .setNoBlocking hr
    next => cases h
  | epollAdd ok =>
    simp only [readerStep] at h
    split at h
    next d hr =>
      cases ok with
      | true =>
        simp only [if_true] at h
        split at h
        next c hf =>
          split_ifs at h with hnew
          cases h
          exact .epollAdd hr hf hnew
        next => cases h
      | false =>
        cases h
        exact .epollAddFails hr
    next => cases h
  | closeUnregistered =>
    simp only [readerStep] at h
    split at h
    next c hr =>
      cases h
      exact .closeUnregistered hr
    next => cases h
  | epollWait events =>
    simp only [readerStep] at h
    split at h
    next hr =>
      split_ifs at h with hm
      cases h
      exact .epollWait hr hm
    next => cases h
  | readClient fault =>
    simp only [readerStep] at h
    split at h
    next c rest hr =>
      split_ifs at h with hf
      cases h
      exact .readClient hr hf
    next => cases h
  | closePeer =>
    simp only [readerStep] at h
    split at h
    next c hr =>
      cases h
      exact .closePeer hr
    next => cases h
  | closeError =>
    simp only [readerStep] at h
    split at h
    next c rest hr =>
      cases h
      exact .closeError hr
    next => cases h

theorem step_cases {a : Act} (h : s.step listenfd a = some t) : Step listenfd s a t := by
  unfold step at h
  split_ifs at h
  cases a with
  | env a => exact envStep_cases h
  | acceptor a => exact acceptorStep_cases h
  | reader a => exact readerStep_cases h

/-! ### The pipe as a hand-off -/

/-- `ReadPipe` has not returned, or its thread has. -/
def Looping (s : Sys) : Prop := s.reader = .returned ∨ s.pipe.status = .looping

theorem Looping.status (hs : s.Looping) (hr : s.reader = .readPipe) : s.pipe.status = .looping := by
  refine hs.resolve_left fun hret => ?_
  rw [hr] at hret
  cases hret

theorem Step.looping (hst : Step listenfd s a t) (hs : s.Looping) : t.Looping := by
  cases hst with
  | readPipe hr _ | readEmpty hr _ =>
    rcases s.pipe.read_status with hk | hv
    · exact .inr (hk.trans (hs.status hr))
    · refine .inl ?_
      rcases hv with hv | hv <;> simp only [hv, Reader.afterReadPipe]
  | setNoBlocking hr | epollAdd hr _ _ | epollAddFails hr | closeUnregistered hr | epollWait hr _
  | readClient hr _ | closePeer hr | closeError hr | readFails hr =>
    refine .inr (hs.resolve_left fun hret => ?_)
    rw [hr] at hret
    cases hret
  | _ => exact hs

end Sys

/-- Whatever the threads do, their pipe goes through the states of the hand-off. -/
theorem handoff_of_server {listenfd : Int32} {s : Sys} (hr : Reachable (server listenfd) s) :
    Reachable handoff s.pipe := by
  have hinit : ∀ u, (server listenfd).init u → u.Looping ∧ handoff.init u.pipe :=
    fun u hu => ⟨.inr hu.pipe.2.1, hu.pipe⟩
  have hinv : ∀ u a v, u.Looping → (server listenfd).step u a = some v → v.Looping :=
    fun _ _ _ hu hk => (Sys.step_cases hk).looping hu
  refine hr.map Sys.pipe hinit hinv fun u a v hu hk => ?_
  cases Sys.step_cases hk with
  | writePipe ha => exact .inr ⟨.write _ _, rfl⟩
  | readPipe hr _ | readEmpty hr _ =>
    exact .inr ⟨.read, by simp only [handoff, handoffStep, if_pos (hu.status hr)]⟩
  | _ => exact .inl rfl

end BaseCom.Epoll
