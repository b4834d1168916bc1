import BaseCom.Epoll.System

/-! The start of `BindEpollRecv`, up to its loop. Five system calls can fail there, spread
over four methods, and `FreeFd` cleans up after them. Two failures slip through: the result
of `bind` is dropped, and `listen` gives an unbound socket a port of its own; and `FreeFd`
takes descriptor 0 for no descriptor. -/

namespace BaseCom.Epoll

open Transition

/-- The system calls of the start, each a function of the kernel's state. -/
structure StartupCalls (κ : Type*) where
  epollCreate (size : Int32) : κ → Int32 × κ
  socket : κ → Int32 × κ
  fcntlGetfl (fd : Int32) : κ → Int32 × κ
  fcntlSetfl (fd opts : Int32) : κ → Int32 × κ
  setsockopt (fd : Int32) : κ → Int32 × κ
  epollCtl (epfd fd : Int32) : κ → Int32 × κ
  bind (fd : Int32) (port : UInt16) : κ → Int32 × κ
  listen (fd backlog : Int32) : κ → Int32 × κ
  close (fd : Int32) : κ → κ

def oNonblock : Int32 := 2048

/-- The data members the start uses. -/
structure EpollServer where
  uListenPort : UInt16
  backStroreSize : Int32
  backlog : Int32
  listenfd : Int32
  epfd : Int32
  deriving DecidableEq

/-- Where a call of `BindEpollRecv` is: it has returned (or was not made), the process has
been ended by `exit(1)`, or it is in its loop. -/
inductive Startup
  | returned
  | exited
  | looping
  deriving DecidableEq

namespace EpollServer

/-- `EpollServer::EpollServer`. -/
def construct : EpollServer :=
  { uListenPort := 5000, backStroreSize := 1024, backlog := 5, listenfd := -1, epfd := -1 }

def setListenPort (o : EpollServer) (port : Int32) : EpollServer :=
  { o with uListenPort := port.toUInt32.toUInt16 }

variable {κ : Type*} (calls : StartupCalls κ)

/-- The result is false where the code calls `exit(1)`. -/
def setNoBlocking (fd : Int32) (k : κ) : Bool × κ :=
  let (opts, k) := calls.fcntlGetfl fd k
  if opts < 0 then (false, k)
  else
    let (ret, k) := calls.fcntlSetfl fd (opts ||| oNonblock) k
    (decide ¬ ret < 0, k)

/-- The result is false where the code calls `exit(1)`. -/
def setReuseAddr (fd : Int32) (k : κ) : Bool × κ :=
  let (ret, k) := calls.setsockopt fd k
  (decide ¬ ret < 0, k)

def setEpollCtl (o : EpollServer) (k : κ) : Int32 × κ := calls.epollCtl o.epfd o.listenfd k

def setListen (o : EpollServer) (k : κ) : Int32 × κ :=
  let (_, k) := calls.bind o.listenfd o.uListenPort k
  calls.listen o.listenfd o.backlog k

def freeFd (o : EpollServer) (k : κ) : EpollServer × κ :=
  let (o, k) :=
    if o.listenfd > 0 then ({ o with listenfd := -1 }, calls.close o.listenfd k) else (o, k)
  if o.epfd > 0 then ({ o with epfd := -1 }, calls.close o.epfd k) else (o, k)

/-- The part of `BindEpollRecv` from `SetEpollCtl` up to `while (true)`. -/
def bindEpollRecvCtl (o : EpollServer) (k : κ) : Startup × EpollServer × κ :=
  let (ret, k) := o.setEpollCtl calls k
  if 0 ≠ ret then (.returned, o.freeFd calls k)
  else
    let (ret, k) := o.setListen calls k
    if 0 ≠ ret then (.returned, o.freeFd calls k) else (.looping, o, k)

/-- The part of `BindEpollRecv` from `SetNoBlocking` on. -/
def bindEpollRecvOpts (o : EpollServer) (k : κ) : Startup × EpollServer × κ :=
  let (ok, k) := setNoBlocking calls o.listenfd k
  if ¬ ok then (.exited, o, k)
  else
    let (ok, k) := setReuseAddr calls o.listenfd k
    if ¬ ok then (.exited, o, k) else o.bindEpollRecvCtl calls k

/-- `BindEpollRecv` up to `while (true)`. -/
def bindEpollRecv (o : EpollServer) (k : κ) : Startup × EpollServer × κ :=
  let (epfd, k) := calls.epollCreate o.backStroreSize k
  let o := { o with epfd := epfd }
  if o.epfd < 0 then (.returned, o, k)
  else
    let (listenfd, k) := calls.socket k
    let o : EpollServer := { o with listenfd := listenfd }
    if o.listenfd < 0 then (.returned, o.freeFd calls k) else o.bindEpollRecvOpts calls k

end EpollServer

/-! ### The descriptor table -/

/-- What a descriptor number denotes: an epoll instance with the numbers registered in it, a
TCP socket with the port it is bound to, or something of the rest of the process. -/
inductive StartupFile
  | epoll (interest : List Int32)
  | socket (port : Option UInt16) (listening : Bool)
  | other
  deriving DecidableEq

abbrev FileTable := Int32 → Option StartupFile

/-- Registrations of a closed descriptor go with it. -/
def StartupFile.forget (fd : Int32) : StartupFile → StartupFile
  | .epoll interest => .epoll (interest.filter (· ≠ fd))
  | .socket port listening => .socket port listening
  | .other => .other

namespace FileTable

def register (t : FileTable) (epfd fd : Int32) : FileTable :=
  match t epfd with
  | some (.epoll interest) => Function.update t epfd (some (.epoll (fd :: interest)))
  | _ => t

/-- Port 0 asks for any free port. -/
def bind (t : FileTable) (fd : Int32) (port freePort : UInt16) : FileTable :=
  match t fd with
  | some (.socket _ listening) =>
    Function.update t fd (some (.socket (some (if port = 0 then freePort else port)) listening))
  | _ => t

/-- A socket that is not bound is bound to a free port. -/
def listen (t : FileTable) (fd : Int32) (freePort : UInt16) : FileTable :=
  match t fd with
  | some (.socket port _) => Function.update t fd (some (.socket (some (port.getD freePort)) true))
  | _ => t

def close (t : FileTable) (fd : Int32) : FileTable := fun n =>
  if n = fd then none else (t n).map (.forget fd)

end FileTable

/-- The results of the calls within one start. Where `bind` or `listen` has to find a port
itself it is `freePort`. -/
structure StartupAnswers where
  epollCreate : Int32
  socket : Int32
  fcntlGetfl : Int32
  fcntlSetfl : Int32
  setsockopt : Int32
  epollCtl : Int32
  bind : Int32
  listen : Int32
  freePort : UInt16

structure StartupKernel where
  file : FileTable
  answers : StartupAnswers

/-- A call has its effect if its result is no failure. -/
def startupCalls : StartupCalls StartupKernel where
  epollCreate _ k :=
    let fd := k.answers.epollCreate
    (fd, if fd < 0 then k else { k with file := Function.update k.file fd (some (.epoll [])) })
  socket k :=
    let fd := k.answers.socket
    (fd, if fd < 0 then k
      else { k with file := Function.update k.file fd (some (.socket none false)) })
  fcntlGetfl _ k := (k.answers.fcntlGetfl, k)
  fcntlSetfl _ _ k := (k.answers.fcntlSetfl, k)
  setsockopt _ k := (k.answers.setsockopt, k)
  epollCtl epfd fd k :=
    let ret := k.answers.epollCtl
    (ret, if ret = 0 then { k with file := k.file.register epfd fd } else k)
  bind fd port k :=
    let ret := k.answers.bind
    (ret, if ret = 0 then { k with file := k.file.bind fd port k.answers.freePort } else k)
  listen fd _ k :=
    let ret := k.answers.listen
    (ret, if ret = 0 then { k with file := k.file.listen fd k.answers.freePort } else k)
  close fd k := { k with file := k.file.close fd }

/-! ### A server that is started again and again -/

/-- The object, the descriptor table of its process, and where the last start is. -/
structure Service where
  obj : EpollServer
  file : FileTable
  stage : Startup

/-- A call of `BindEpollRecv` with the results of its system calls, a call of `SetListenPort`
before one, or a descriptor of the rest of the process opened or closed. -/
inductive ServiceAct
  | bindEpollRecv (a : StartupAnswers)
  | setListenPort (port : Int32)
  | openOther (fd : Int32)
  | closeOther (fd : Int32)

namespace Service

/-- New descriptors have numbers that are not in use, and a failure is -1. -/
def MayAnswer (s : Service) (a : StartupAnswers) : Prop :=
  (a.epollCreate = -1 ∨ 0 ≤ a.epollCreate ∧ s.file a.epollCreate = none) ∧
    (a.socket = -1 ∨ 0 ≤ a.socket ∧ s.file a.socket = none ∧ a.socket ≠ a.epollCreate) ∧
      a.freePort ≠ 0

instance (s : Service) (a : StartupAnswers) : Decidable (s.MayAnswer a) :=
  inferInstanceAs (Decidable ((_ ∨ _) ∧ (_ ∨ _) ∧ _))

def start (s : Service) (a : StartupAnswers) : Service :=
  let (stage, obj, k) := s.obj.bindEpollRecv startupCalls ⟨s.file, a⟩
  ⟨obj, k.file, stage⟩

def step (s : Service) : ServiceAct → Option Service
  | .bindEpollRecv a => if s.stage = .returned ∧ s.MayAnswer a then some (s.start a) else none
  | .setListenPort port =>
    if s.stage = .returned then some { s with obj := s.obj.setListenPort port } else none
  | .openOther fd =>
    if s.file fd = none then some { s with file := Function.update s.file fd (some .other) }
    else none
  | .closeOther fd =>
    if s.file fd = some .other then some { s with file := s.file.close fd } else none

/-- No descriptor of a start is open. -/
def Clean (t : FileTable) : Prop := ∀ fd, t fd = none ∨ t fd = some .other

/-- A constructed server in a process with any descriptors. -/
structure Initial (s : Service) : Prop where
  obj : s.obj = .construct
  file : Clean s.file
  stage : s.stage = .returned

/-- In the loop the listening socket is bound to `m_uListenPort`, listening, and registered
in `m_epfd`. Otherwise every descriptor of a start is closed and both fields are -1. -/
def AllOrNothing (s : Service) : Prop :=
  match s.stage with
  | .looping =>
    s.file s.obj.listenfd = some (.socket (some s.obj.uListenPort) true) ∧
      ∃ interest, s.file s.obj.epfd = some (.epoll interest) ∧ s.obj.listenfd ∈ interest
  | .returned => Clean s.file ∧ s.obj.listenfd = -1 ∧ s.obj.epfd = -1
  | .exited => True

end Service

/-- The server under any sequence of starts. -/
def service : Lts Service ServiceAct where
  init := Service.Initial
  step := Service.step

/-! ### What a start comes to -/

namespace StartupAnswers

/-- Where a start with these results ends. -/
def outcome (a : StartupAnswers) : Startup :=
  if a.epollCreate < 0 ∨ a.socket < 0 then .returned
  else if a.fcntlGetfl < 0 ∨ a.fcntlSetfl < 0 ∨ a.setsockopt < 0 then .exited
  else if a.epollCtl ≠ 0 ∨ a.listen ≠ 0 then .returned
  else .looping

/-- The descriptors a start gets. -/
def gets (a : StartupAnswers) : List Int32 :=
  if a.epollCreate < 0 then [] else if a.socket < 0 then [a.epollCreate]
  else [a.epollCreate, a.socket]

/-- The port the socket is bound to in the end. -/
def boundPort (a : StartupAnswers) (port : UInt16) : UInt16 :=
  if a.bind = 0 ∧ port ≠ 0 then port else a.freePort

theorem boundPort_eq_iff (a : StartupAnswers) (port : UInt16) :
    a.boundPort port = port ↔ a.bind = 0 ∧ port ≠ 0 ∨ a.freePort = port := by
  unfold boundPort
  split_ifs with h
  · exact iff_of_true rfl (.inl h)
  · exact (or_iff_right h).symm

/-- What the results have to be like, by where the start ends. A start that returns has got no
descriptor 0. In one that enters the loop `bind` did not fail, or the free port is by chance
the one asked for. -/
def Meets (a : StartupAnswers) (port : UInt16) : Startup → Prop
  | .returned => 0 ∉ a.gets
  | .exited => True
  | .looping => a.bind = 0 ∧ port ≠ 0 ∨ a.freePort = port

instance (a : StartupAnswers) (port : UInt16) (e : Startup) : Decidable (a.Meets port e) :=
  match e with
  | .returned => inferInstanceAs (Decidable (_ ∉ _))
  | .exited => isTrue trivial
  | .looping => inferInstanceAs (Decidable (_ ∨ _))

end StartupAnswers

namespace FileTable

variable {t : FileTable} {fd n : Int32}

/-- A `close` guarded as in `FreeFd`. -/
def closeIfPos (t : FileTable) (fd : Int32) : FileTable := if fd > 0 then t.close fd else t

theorem register_frame (epfd fd : Int32) :
    ∃ x, t.register epfd fd = Function.update t epfd x := by
  unfold register
  split
  · exact ⟨_, rfl⟩
  · exact ⟨t epfd, (Function.update_eq_self _ _).symm⟩

theorem bind_frame (fd : Int32) (port freePort : UInt16) :
    ∃ x, t.bind fd port freePort = Function.update t fd x := by
  unfold bind
  split
  · exact ⟨_, rfl⟩
  · exact ⟨t fd, (Function.update_eq_self _ _).symm⟩

theorem clean_close (h : ∀ m, m ≠ fd → t m = none ∨ t m = some .other) (m : Int32) :
    t.close fd m = none ∨ t.close fd m = some .other := by
  unfold close
  split_ifs with hm
  · exact .inl rfl
  · rcases h m hm with hn | ho
    · exact .inl (by rw [hn]; rfl)
    · exact .inr (by rw [ho]; rfl)

end FileTable

namespace Service

variable {s t : Service} {a : StartupAnswers}

/-- `FreeFd`. -/
def freed (s : Service) : Service where
  obj := { s.obj with
    listenfd := if s.obj.listenfd > 0 then -1 else s.obj.listenfd
    epfd := if s.obj.epfd > 0 then -1 else s.obj.epfd }
  file := (s.file.closeIfPos s.obj.listenfd).closeIfPos s.obj.epfd
  stage := .returned

/-- The object once both descriptors are there. -/
def holding (s : Service) (a : StartupAnswers) : EpollServer :=
  { s.obj with epfd := a.epollCreate, listenfd := a.socket }

/-- The table once both descriptors are there. -/
def opened (s : Service) (a : StartupAnswers) : FileTable :=
  Function.update (Function.update s.file a.epollCreate (some (.epoll []))) a.socket
    (some (.socket none false))

/-- The table after `epoll_ctl`. -/
def registered (s : Service) (a : StartupAnswers) : FileTable :=
  if a.epollCtl = 0 then (s.opened a).register a.epollCreate a.socket else s.opened a

/-- The table after `bind`. -/
def bound (s : Service) (a : StartupAnswers) : FileTable :=
  if a.bind = 0 then (s.registered a).bind a.socket s.obj.uListenPort a.freePort
  else s.registered a

/-- The table after `listen`. -/
def listening (s : Service) (a : StartupAnswers) : FileTable :=
  if a.listen = 0 then (s.bound a).listen a.socket a.freePort else s.bound a

section

variable (o : EpollServer) (f : FileTable)

theorem freeFd_eq :
    o.freeFd startupCalls ⟨f, a⟩ =
      ((freed ⟨o, f, .returned⟩).obj, ⟨(freed ⟨o, f, .returned⟩).file, a⟩) := by
  unfold EpollServer.freeFd freed FileTable.closeIfPos
  by_cases hl : o.listenfd > 0 <;> by_cases he : o.epfd > 0 <;> simp [startupCalls, hl, he]

theorem epollCreate_eq (size : Int32) :
    startupCalls.epollCreate size ⟨f, a⟩ =
      (a.epollCreate, ⟨if a.epollCreate < 0 then f
        else Function.update f a.epollCreate (some (.epoll [])), a⟩) := by
  by_cases h : a.epollCreate < 0 <;> simp [startupCalls, h]

theorem socket_eq :
    startupCalls.socket ⟨f, a⟩ =
      (a.socket, ⟨if a.socket < 0 then f
        else Function.update f a.socket (some (.socket none false)), a⟩) := by
  by_cases h : a.socket < 0 <;> simp [startupCalls, h]

theorem setEpollCtl_eq :
    o.setEpollCtl startupCalls ⟨f, a⟩ =
      (a.epollCtl, ⟨if a.epollCtl = 0 then f.register o.epfd o.listenfd else f, a⟩) := by
  unfold EpollServer.setEpollCtl
  by_cases h : a.epollCtl = 0 <;> simp [startupCalls, h]

theorem setListen_eq :
    o.setListen startupCalls ⟨f, a⟩ =
      let g := if a.bind = 0 then f.bind o.listenfd o.uListenPort a.freePort else f
      (a.listen, ⟨if a.listen = 0 then g.listen o.listenfd a.freePort else g, a⟩) := by
  unfold EpollServer.setListen
  by_cases hb : a.bind = 0 <;> by_cases hl : a.listen = 0 <;> simp [startupCalls, hb, hl]

theorem setNoBlocking_eq (fd : Int32) :
    EpollServer.setNoBlocking startupCalls fd ⟨f, a⟩ =
      (decide ¬ (a.fcntlGetfl < 0 ∨ a.fcntlSetfl < 0), ⟨f, a⟩) := by
  unfold EpollServer.setNoBlocking
  by_cases hg : a.fcntlGetfl < 0 <;> simp [startupCalls, hg]

end

/-- The start from `SetEpollCtl` on. -/
theorem bindEpollRecvCtl_eq :
    (s.holding a).bindEpollRecvCtl startupCalls ⟨s.opened a, a⟩ =
      if a.epollCtl ≠ 0 then
        (.returned, (freed ⟨s.holding a, s.opened a, .returned⟩).obj,
          ⟨(freed ⟨s.holding a, s.opened a, .returned⟩).file, a⟩)
      else if a.listen ≠ 0 then
        (.returned, (freed ⟨s.holding a, s.bound a, .returned⟩).obj,
          ⟨(freed ⟨s.holding a, s.bound a, .returned⟩).file, a⟩)
      else (.looping, s.holding a, ⟨s.listening a, a⟩) := by
  unfold EpollServer.bindEpollRecvCtl
  rw [setEpollCtl_eq]
  by_cases hc : a.epollCtl = 0
  · have hreg : s.registered a = (s.opened a).register (s.holding a).epfd (s.holding a).listenfd :=
      if_pos hc
    have hlist : (s.holding a).setListen startupCalls ⟨s.registered a, a⟩ =
        (a.listen, ⟨s.listening a, a⟩) := setListen_eq _ _
    simp only [hc, ← hreg, hlist, freeFd_eq, if_true, ne_eq, not_true_eq_false, if_false]
    by_cases hl : a.listen = 0
    · simp [hl]
    · simp [hl, listening, eq_comm]
  · simp [hc, freeFd_eq, eq_comm]

/-- Only the two descriptors of a start differ. -/
def FrameOf (s : Service) (a : StartupAnswers) (f : FileTable) : Prop :=
  ∀ fd, fd ≠ a.epollCreate → fd ≠ a.socket → f fd = s.file fd

theorem frameOf_opened : s.FrameOf a (s.opened a) := by
  intro fd he hs
  unfold opened
  rw [Function.update_of_ne hs, Function.update_of_ne he]

theorem frameOf_bound : s.FrameOf a (s.bound a) := by
  intro fd he hs
  have hreg : s.registered a fd = s.file fd := by
    unfold registered
    split_ifs
    · obtain ⟨x, hx⟩ := (s.opened a).register_frame a.epollCreate a.socket
      rw [hx, Function.update_of_ne he, frameOf_opened fd he hs]
    · exact frameOf_opened fd he hs
  unfold bound
  split_ifs
  · obtain ⟨x, hx⟩ := (s.registered a).bind_frame a.socket s.obj.uListenPort a.freePort
    rw [hx, Function.update_of_ne hs, hreg]
  · exact hreg

/-- Where nothing failed but perhaps `bind`, the socket listens on the port it is bound to. -/
theorem listening_eq (hne : a.socket ≠ a.epollCreate) (hc : a.epollCtl = 0) (hl : a.listen = 0) :
    s.listening a a.epollCreate = some (.epoll [a.socket]) ∧
      s.listening a a.socket =
        some (.socket (some (a.boundPort s.obj.uListenPort)) true) := by
  have hepoll : s.opened a a.epollCreate = some (.epoll []) := by
    unfold opened
    rw [Function.update_of_ne hne.symm, Function.update_self]
  have hreg : s.registered a = Function.update (s.opened a) a.epollCreate
      (some (.epoll [a.socket])) := by
    simp only [registered, if_pos hc, FileTable.register, hepoll]
  have hsock : s.registered a a.socket = some (.socket none false) := by
    rw [hreg, Function.update_of_ne hne]
    exact Function.update_self ..
  unfold listening bound StartupAnswers.boundPort
  by_cases hb : a.bind = 0
  · by_cases hp : s.obj.uListenPort = 0 <;>
      simp [hl, hb, hp, FileTable.bind, FileTable.listen, hsock, hreg,
        Function.update_of_ne hne.symm]
  · simp [hl, hb, FileTable.listen, hsock, hreg, Function.update_of_ne hne.symm]

/-- One case for each way a start can end. -/
inductive Attempt (s : Service) (a : StartupAnswers) : Service → Prop
  | noEpoll (he : a.epollCreate < 0) :
      Attempt s a ⟨{ s.obj with epfd := a.epollCreate }, s.file, .returned⟩
  | noSocket (he : ¬ a.epollCreate < 0) (hs : a.socket < 0) :
      Attempt s a (freed ⟨s.holding a,
        Function.update s.file a.epollCreate (some (.epoll [])), .returned⟩)
  | exits {f : FileTable} (ho : a.outcome = .exited) : Attempt s a ⟨s.holding a, f, .exited⟩
  | refused {f : FileTable} (he : ¬ a.epollCreate < 0) (hs : ¬ a.socket < 0)
      (ho : a.outcome = .returned) (hf : s.FrameOf a f) :
      Attempt s a (freed ⟨s.holding a, f, .returned⟩)
  | enters (ho : a.outcome = .looping) (hc : a.epollCtl = 0) (hl : a.listen = 0) :
      Attempt s a ⟨s.holding a, s.listening a, .looping⟩

theorem bindEpollRecvOpts_exits {o : EpollServer} {f : FileTable}
    (h : a.fcntlGetfl < 0 ∨ a.fcntlSetfl < 0 ∨ a.setsockopt < 0) :
    o.bindEpollRecvOpts startupCalls ⟨f, a⟩ = (.exited, o, ⟨f, a⟩) := by
  unfold EpollServer.bindEpollRecvOpts EpollServer.setReuseAddr
  rw [setNoBlocking_eq]
  by_cases hn : a.fcntlGetfl < 0 ∨ a.fcntlSetfl < 0
  · simp [hn]
  · have hopt : a.setsockopt < 0 := by tauto
    simp [hn, startupCalls, hopt]

theorem bindEpollRecvOpts_goes_on {o : EpollServer} {f : FileTable}
    (h : ¬ (a.fcntlGetfl < 0 ∨ a.fcntlSetfl < 0 ∨ a.setsockopt < 0)) :
    o.bindEpollRecvOpts startupCalls ⟨f, a⟩ = o.bindEpollRecvCtl startupCalls ⟨f, a⟩ := by
  rw [← or_assoc, not_or] at h
  unfold EpollServer.bindEpollRecvOpts EpollServer.setReuseAddr
  rw [setNoBlocking_eq]
  simp [h.1, startupCalls, h.2]

theorem start_attempt (s : Service) (a : StartupAnswers) : Attempt s a (s.start a) := by
  by_cases he : a.epollCreate < 0
  · have h : s.start a = ⟨{ s.obj with epfd := a.epollCreate }, s.file, .returned⟩ := by
      simp only [start, EpollServer.bindEpollRecv, epollCreate_eq, if_pos he]
    rw [h]
    exact .noEpoll he
  by_cases hs : a.socket < 0
  · have h : s.start a = freed ⟨s.holding a,
        Function.update s.file a.epollCreate (some (.epoll [])), .returned⟩ := by
      simp only [start, EpollServer.bindEpollRecv, epollCreate_eq, socket_eq, if_neg he, if_pos hs,
        freeFd_eq]
      rfl
    rw [h]
    exact .noSocket he hs
  have hopts : s.start a =
      let r := (s.holding a).bindEpollRecvOpts startupCalls ⟨s.opened a, a⟩
      ⟨r.2.1, r.2.2.file, r.1⟩ := by
    simp only [start, EpollServer.bindEpollRecv, epollCreate_eq, socket_eq, if_neg he, if_neg hs]
    rfl
  have hgot : ¬ (a.epollCreate < 0 ∨ a.socket < 0) := by tauto
  rw [hopts]
  by_cases hx : a.fcntlGetfl < 0 ∨ a.fcntlSetfl < 0 ∨ a.setsockopt < 0
  · rw [bindEpollRecvOpts_exits hx]
    exact .exits (by rw [StartupAnswers.outcome, if_neg hgot, if_pos hx])
  rw [bindEpollRecvOpts_goes_on hx, bindEpollRecvCtl_eq]
  have hout : a.outcome = if a.epollCtl ≠ 0 ∨ a.listen ≠ 0 then .returned else .looping := by
    rw [StartupAnswers.outcome, if_neg hgot, if_neg hx]
  by_cases hc : a.epollCtl = 0
  · by_cases hl : a.listen = 0
    · simp only [hc, hl, ne_eq, not_true_eq_false, if_false]
      exact .enters (by simp [hout, hc, hl]) hc hl
    · simp only [hc, hl, ne_eq, not_true_eq_false, not_false_eq_true, if_false, if_true]
      exact .refused he hs (by simp [hout, hl]) frameOf_bound
  · simp only [hc, ne_eq, not_false_eq_true, if_true]
    exact .refused he hs (by simp [hout, hc]) frameOf_opened

/-! ### All or nothing -/

/-- Every start has the results it needs. -/
def StartsClean (s : Service) : ServiceAct → Prop
  | .bindEpollRecv a => a.Meets s.obj.uListenPort a.outcome
  | .setListenPort _ | .openOther _ | .closeOther _ => True

instance (s : Service) (l : ServiceAct) : Decidable (s.StartsClean l) :=
  match l with
  | .bindEpollRecv a => inferInstanceAs (Decidable (a.Meets _ _))
  | .setListenPort _ | .openOther _ | .closeOther _ => isTrue trivial

theorem pos_of_ne {fd : Int32} (h : 0 ≤ fd) (hne : fd ≠ 0) : fd > 0 :=
  Int32.lt_of_le_of_ne h hne.symm

/-- `FreeFd` leaves nothing behind unless one of the descriptors is 0. -/
theorem freed_allOrNothing_iff {o : EpollServer} {f : FileTable} {e : Startup}
    (hl : o.listenfd = -1 ∨ 0 ≤ o.listenfd) (he : 0 ≤ o.epfd)
    (hf : ∀ fd, fd ≠ o.epfd → fd ≠ o.listenfd ∨ o.listenfd = -1 →
      f fd = none ∨ f fd = some .other) :
    (freed ⟨o, f, e⟩).AllOrNothing ↔ o.listenfd ≠ 0 ∧ o.epfd ≠ 0 := by
  constructor
  · rintro ⟨-, hlisten, hepoll⟩
    simp only [freed] at hlisten hepoll
    constructor
    · intro h0
      rw [h0] at hlisten
      exact absurd hlisten (by decide)
    · intro h0
      rw [h0] at hepoll
      exact absurd hepoll (by decide)
  · rintro ⟨hl0, he0⟩
    have hepos := pos_of_ne he he0
    show Clean _ ∧ _ ∧ _
    simp only [freed, FileTable.closeIfPos, if_pos hepos, and_true]
    rcases hl with hneg | hnonneg
    · have hlneg : ¬ o.listenfd > 0 := by rw [hneg]; decide
      simp only [if_neg hlneg]
      exact ⟨FileTable.clean_close fun m hm => hf m hm (.inr hneg), hneg⟩
    · have hlpos := pos_of_ne hnonneg hl0
      simp only [if_pos hlpos, and_true]
      refine FileTable.clean_close fun m hm => ?_
      unfold FileTable.close
      split_ifs with hml
      · exact .inl rfl
      · rcases hf m hm (.inl hml) with hn | ho
        · exact .inl (by rw [hn]; rfl)
        · exact .inr (by rw [ho]; rfl)

/-- In the loop the socket is registered and listens, on the port asked for or not. -/
theorem looping_allOrNothing_iff (hne : a.socket ≠ a.epollCreate) (hc : a.epollCtl = 0)
    (hl : a.listen = 0) :
    (⟨s.holding a, s.listening a, .looping⟩ : Service).AllOrNothing ↔
      a.Meets s.obj.uListenPort .looping := by
  obtain ⟨hepoll, hsock⟩ := listening_eq (s := s) hne hc hl
  show (_ ∧ _) ↔ (_ ∨ _)
  rw [← a.boundPort_eq_iff]
  simp only [holding, hepoll, hsock]
  simp

/-- A start from a clean state is all or nothing exactly under the condition. -/
theorem Attempt.allOrNothing_iff (hs : s.AllOrNothing) (hst : s.stage = .returned)
    (hm : s.MayAnswer a) (h : Attempt s a t) :
    t.AllOrNothing ↔ a.Meets s.obj.uListenPort a.outcome := by
  unfold AllOrNothing at hs
  rw [hst] at hs
  obtain ⟨hclean, hlisten, -⟩ := hs
  obtain ⟨hcreate, hsocket, -⟩ := hm
  cases h with
  | noEpoll he =>
    have hout : a.outcome = .returned := by rw [StartupAnswers.outcome, if_pos (.inl he)]
    have hneg := hcreate.resolve_right fun hh => Int32.not_le.mpr he hh.1
    rw [hout]
    refine iff_of_true ⟨hclean, hlisten, hneg⟩ ?_
    simp only [StartupAnswers.Meets, StartupAnswers.gets, if_pos he, List.not_mem_nil,
      not_false_eq_true]
  | noSocket he hneg =>
    have hout : a.outcome = .returned := by rw [StartupAnswers.outcome, if_pos (.inr hneg)]
    have hmin := hsocket.resolve_right fun hh => Int32.not_le.mpr hneg hh.1
    have hlisten' : (s.holding a).listenfd = -1 := hmin
    have hepoll : 0 ≤ (s.holding a).epfd := Int32.not_lt.mp he
    rw [freed_allOrNothing_iff (.inl hlisten') hepoll, hout]
    · have hne : (-1 : Int32) ≠ 0 := by decide
      simp [StartupAnswers.Meets, StartupAnswers.gets, he, holding, hmin, hne, eq_comm]
    · intro fd hfd _
      have hkeep : Function.update s.file a.epollCreate (some (.epoll [])) fd = s.file fd :=
        Function.update_of_ne hfd ..
      rw [hkeep]
      exact hclean fd
  | exits ho =>
    rw [ho]
    exact iff_of_true trivial trivial
  | refused he hn ho hf =>
    have hnonneg := Int32.not_lt.mp hn
    have hlisten' : 0 ≤ (s.holding a).listenfd := hnonneg
    have hepoll : 0 ≤ (s.holding a).epfd := Int32.not_lt.mp he
    rw [freed_allOrNothing_iff (.inr hlisten') hepoll, ho]
    · simp only [StartupAnswers.Meets, StartupAnswers.gets, if_neg he, if_neg hn, holding,
        List.mem_cons, List.not_mem_nil, or_false, not_or]
      exact ⟨fun h => ⟨h.2.symm, h.1.symm⟩, fun h => ⟨Ne.symm h.2, Ne.symm h.1⟩⟩
    · intro fd hfd hor
      have hfs : fd ≠ a.socket := by
        refine hor.resolve_right fun hmin => ?_
        have hsock : a.socket = -1 := hmin
        rw [hsock] at hnonneg
        exact absurd hnonneg (by decide)
      rw [hf fd hfd hfs]
      exact hclean fd
  | enters ho hc hl =>
    have hgot : ¬ (a.epollCreate < 0 ∨ a.socket < 0) := by
      intro hh
      rw [StartupAnswers.outcome, if_pos hh] at ho
      cases ho
    have hne : a.socket ≠ a.epollCreate := by
      rcases hsocket with hmin | hh
      · exact absurd (.inr (by rw [hmin]; decide)) hgot
      · exact hh.2.2
    rw [ho]
    exact looping_allOrNothing_iff hne hc hl

/-- A descriptor others open has none of the server's numbers. -/
theorem AllOrNothing.openOther (hs : s.AllOrNothing) {fd : Int32} (hfree : s.file fd = none) :
    { s with file := Function.update s.file fd (some .other) }.AllOrNothing := by
  have hkeep : ∀ n x, s.file n = some x →
      Function.update s.file fd (some .other) n = some x := by
    intro n x hn
    have hne : n ≠ fd := by
      rintro rfl
      rw [hfree] at hn
      cases hn
    rw [Function.update_of_ne hne, hn]
  unfold AllOrNothing at *
  cases hst : s.stage with
  | exited => trivial
  | returned =>
    simp only [hst] at hs ⊢
    refine ⟨fun n => ?_, hs.2⟩
    rcases eq_or_ne n fd with rfl | hne
    · exact .inr (Function.update_self ..)
    · rw [Function.update_of_ne hne]
      exact hs.1 n
  | looping =>
    simp only [hst] at hs ⊢
    obtain ⟨hl, interest, he, hmem⟩ := hs
    exact ⟨hkeep _ _ hl, interest, hkeep _ _ he, hmem⟩

/-- Others close only what is their own. -/
theorem AllOrNothing.closeOther (hs : s.AllOrNothing) {fd : Int32}
    (hother : s.file fd = some .other) : { s with file := s.file.close fd }.AllOrNothing := by
  have hkeep : ∀ n x, s.file n = some x → x ≠ .other →
      n ≠ fd ∧ s.file.close fd n = some (x.forget fd) := by
    intro n x hn hx
    have hne : n ≠ fd := by
      rintro rfl
      exact hx (Option.some.inj (hn.symm.trans hother))
    refine ⟨hne, ?_⟩
    rw [FileTable.close, if_neg hne, hn]
    rfl
  unfold AllOrNothing at *
  cases hst : s.stage with
  | exited => trivial
  | returned =>
    simp only [hst] at hs ⊢
    exact ⟨FileTable.clean_close fun m _ => hs.1 m, hs.2⟩
  | looping =>
    simp only [hst] at hs ⊢
    obtain ⟨hl, interest, he, hmem⟩ := hs
    obtain ⟨hne, hl'⟩ := hkeep _ _ hl (by simp)
    obtain ⟨-, he'⟩ := hkeep _ _ he (by simp)
    refine ⟨hl', _, he', ?_⟩
    exact List.mem_filter.mpr ⟨hmem, decide_eq_true hne⟩

/-- What others do to the descriptor table is nothing to the server. -/
theorem AllOrNothing.step_iff {l : ServiceAct} (hs : s.AllOrNothing) (h : s.step l = some t) :
    t.AllOrNothing ↔ s.StartsClean l := by
  cases l with
  | bindEpollRecv a =>
    simp only [step] at h
    split_ifs at h with hok
    cases h
    exact (start_attempt s a).allOrNothing_iff hs hok.1 hok.2
  | setListenPort port =>
    simp only [step] at h
    split_ifs at h with hst
    cases h
    refine iff_of_true ?_ trivial
    unfold AllOrNothing at hs ⊢
    rw [hst] at hs
    simp only [hst]
    exact hs
  | openOther fd =>
    simp only [step] at h
    split_ifs at h with hfree
    cases h
    exact iff_of_true (hs.openOther hfree) trivial
  | closeOther fd =>
    simp only [step] at h
    split_ifs at h with hother
    cases h
    exact iff_of_true (hs.closeOther hother) trivial

theorem Initial.allOrNothing (hi : s.Initial) : s.AllOrNothing := by
  unfold AllOrNothing
  rw [hi.stage, hi.obj]
  exact ⟨hi.file, rfl, rfl⟩

/-- The threads' system once the loop is entered: what is open is none of a connection. -/
def handover (s : Service) : Sys :=
  { Sys.start with
    kern := { Sys.start.kern with file := fun fd => (s.file fd).map fun _ => .other } }

theorem handover_initial : s.handover.Initial where
  file := by
    intro fd c h
    obtain ⟨x, -, hx⟩ := Option.map_eq_some_iff.mp h
    cases hx
  nextConn := rfl
  backlog := rfl
  interest := rfl
  pipe := ⟨rfl, rfl, rfl, rfl⟩
  acceptor := rfl
  reader := rfl
  inFlight := rfl

theorem reachable_handover (s : Service) : Reachable (server s.obj.listenfd) s.handover :=
  .of_init handover_initial

end Service

/-- In every state of a run a server in its loop is bound to `m_uListenPort`, listening and
registered, and one whose `BindEpollRecv` has returned has closed what it opened and cleared
both fields, if and only if no start that returned got descriptor 0 and in every start that
entered the loop the socket was bound to the port it was to have. -/
theorem all_or_nothing_iff {s₀ s : Service} {tr : List (Service × ServiceAct)}
    (hi : s₀.Initial) (hr : Run service s₀ tr s) :
    Always (fun u _ => u.AllOrNothing) tr ∧ s.AllOrNothing ↔ Always Service.StartsClean tr := by
  have hinv : ∀ u l v, True → service.step u l = some v → True := fun _ _ _ _ _ => trivial
  exact hr.along_iff hinv (fun u l v _ hu hk => hu.step_iff hk) trivial hi.allOrNothing

/-- A process with its standard streams, and a server in it. -/
def Service.fresh : Service where
  obj := .construct
  file := fun fd => if 0 ≤ fd ∧ fd ≤ 2 then some .other else none
  stage := .returned

theorem Service.initial_fresh : fresh.Initial where
  obj := rfl
  file := by
    intro fd
    simp only [fresh]
    split_ifs
    · exact .inr rfl
    · exact .inl rfl
  stage := rfl

/-- The results of a start on which nothing fails. -/
def smooth : StartupAnswers := ⟨3, 4, 2, 0, 0, 0, 0, 0, 40000⟩

/-- `listen` fails, and the start made again succeeds. -/
theorem all_or_nothing_second_start : ∃ s tr, Run service .fresh tr s ∧ tr.length = 2 ∧
    s.stage = .looping ∧ Always (fun u _ => u.AllOrNothing) tr ∧ s.AllOrNothing := by
  obtain ⟨s, hr, hst⟩ := exists_run_of_exec (S := service) .fresh
    [.bindEpollRecv { smooth with listen := -1 }, .bindEpollRecv smooth]
    (P := fun s => s.stage = .looping) (by decide +kernel)
  refine ⟨s, _, hr, rfl, hst, (all_or_nothing_iff Service.initial_fresh hr).mpr ?_⟩
  unfold Always
  decide +kernel

/-- The port is taken: `bind` fails, and the loop runs on another port. -/
theorem loop_entered_unbound : ¬ ∀ s, Reachable service s → s.AllOrNothing := by
  intro hall
  obtain ⟨s, hr, hst, hport, hfile⟩ := exists_reachable_of_exec (S := service)
    Service.initial_fresh [.bindEpollRecv { smooth with bind := -1 }]
    (P := fun s => s.stage = .looping ∧ s.obj.uListenPort = 5000 ∧
      s.file s.obj.listenfd = some (.socket (some 40000) true)) (by decide +kernel)
  have hs := hall s hr
  unfold Service.AllOrNothing at hs
  rw [hst, hfile, hport] at hs
  exact absurd hs.1 (by decide)

end BaseCom.Epoll
