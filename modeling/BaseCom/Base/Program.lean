import BaseCom.Epoll.Lifecycle
import BaseCom.Epoll.Startup

/-! The whole program from `main` on. `TestFork` lets a child of the process go on to
`TestEpoll` if `execlp` has failed; there the pipe is made and the two threads are started,
and the process lives until `scanf` returns. A descriptor is the lowest number not in use, and
0, 1 and 2 are in use from the start: were they not, the pipe would get them, and what the
process prints and what `scanf` reads would go through it. -/

namespace BaseCom.Epoll

/-! ### Descriptors that are none of a connection -/

variable {k : Kernel} {front batch : List Handle} {s t : Sys} {file : Int32 → Option File}

theorem Kernel.Tracks.relabel (h : k.Tracks front batch)
    (hf : ∀ fd c, k.file fd = some (.conn c) → file fd = some (.conn c)) :
    Kernel.Tracks { k with file := file } front batch where
  owned := ⟨h.owned.once, fun x hx => hf _ _ (h.owned.denotes x hx)⟩
  known := h.known
  old := h.old
  items := h.items
  distinct := h.distinct
  reported := h.reported

/-- What else is opened or closed is nothing to the threads. -/
theorem Sys.Handed.relabel (h : s.Handed)
    (hf : ∀ fd c, s.kern.file fd = some (.conn c) → file fd = some (.conn c)) :
    Sys.Handed { s with kern := { s.kern with file := file } } :=
  ⟨⟨h.sound.tracks.relabel hf, h.sound.pipe, h.sound.message⟩, h.nonneg⟩

/-- The two threads open and close nothing but connections. -/
theorem Sys.Sound.other_iff {listenfd : Int32} {a : Act} (hs : s.Sound)
    (hst : Sys.Step listenfd s a t) {n : Int32} :
    t.kern.file n = some .other ↔ s.kern.file n = some .other := by
  cases hst.flow hs with
  | keeps _ file | drops _ _ _ file => rw [file]
  | accepts h _ free _ _ file =>
    rw [file]
    rcases eq_or_ne n h.fd with rfl | hne
    · simp [free]
    · rw [Function.update_of_ne hne]
  | closes h mem _ file =>
    rw [file]
    rcases eq_or_ne n h.fd with rfl | hne
    · simp [hs.file_of_held mem]
    · rw [Function.update_of_ne hne]

end BaseCom.Epoll

namespace BaseCom.Base

open Transition Epoll

/-- The next call of the main thread. The log file is opened before `main`, by the constructor
of `MyLog4Cpp::_instance`. -/
inductive Main
  | openLog
  | fork
  | execlp
  | pipe
  | setNoBlocking
  | startServer
  | startReader
  | scanf
  | ended
  deriving DecidableEq

/-- The thread of the `EpollServer`: its next call, or its loop. From `SetNoBlocking` to
`SetListen` nothing is opened. -/
inductive ServerThread
  | unborn
  | epollCreate
  | socket (epfd : Int32)
  | configure (epfd listenfd : Int32)
  | looping (listenfd : Int32)
  | over
  deriving DecidableEq

/-- The thread of the `PipeReadThread`. -/
inductive PipeThread
  | unborn
  | epollCreate
  | looping
  | over
  deriving DecidableEq

/-- The process, with what the threads work on. -/
structure Program where
  main : Main
  server : ServerThread
  reader : PipeThread
  sys : Sys

/-- A call with its result. A call that opens a descriptor fails with `none`. -/
inductive ProgramAct
  | openLog (fd : Option ℕ)
  | fork (id : Int32)
  | execlp (ok : Bool)
  | pipe (fd : Option (ℕ × ℕ))
  | setNoBlocking (ok : Bool)
  | startServer (ok : Bool)
  | startReader (ok : Bool)
  | scanf
  | serverEpollCreate (fd : Option ℕ)
  | serverSocket (fd : Option ℕ)
  | configure (outcome : Startup)
  | readerEpollCreate (fd : Option ℕ)
  | sys (a : Act)

/-- The lowest number not in use. -/
def Lowest (k : Kernel) (n : ℕ) : Prop :=
  n < 2147483648 ∧ k.file (.ofNat n) = none ∧ ∀ m < n, k.file (.ofNat m) ≠ none

instance (k : Kernel) (n : ℕ) : Decidable (Lowest k n) :=
  inferInstanceAs (Decidable (_ ∧ _ ∧ _))

/-- A call that opens something other than a connection. -/
def openOther (k : Kernel) : Option ℕ → Option Kernel
  | none => some k
  | some n =>
    if Lowest k n then some { k with file := Function.update k.file (.ofNat n) (some .other) }
    else none

/-- `FreeFd`. -/
def freeFd (k : Kernel) (listenfd epfd : Int32) : Kernel :=
  let k := if listenfd > 0 then k.close listenfd else k
  if epfd > 0 then k.close epfd else k

namespace ServerThread

/-- After `epoll_create`. -/
def afterEpollCreate : Option ℕ → ServerThread
  | none => .over
  | some n => .socket (.ofNat n)

/-- What the thread would close. -/
def fds : ServerThread → List Int32
  | .socket epfd => [epfd]
  | .configure epfd listenfd => [epfd, listenfd]
  | .unborn | .epollCreate | .looping _ | .over => []

end ServerThread

namespace Program

/-- `m_listenfd` of a server in its loop. -/
def listenfd (p : Program) : Int32 :=
  match p.server with
  | .looping listenfd => listenfd
  | _ => -1

/-- Clients can connect and are accepted once the server is in its loop. -/
def Allows (p : Program) : Act → Prop
  | .env _ | .acceptor _ => p.server = .looping p.listenfd
  | .reader _ => p.reader = .looping

instance (p : Program) (a : Act) : Decidable (p.Allows a) := by
  unfold Allows
  split <;> infer_instance

def withKern (p : Program) (k : Kernel) : Program := { p with sys := { p.sys with kern := k } }

/-- A call of the main thread. -/
def mainStep (p : Program) : ProgramAct → Option Program
  | .openLog fd =>
    if p.main = .openLog then
      (openOther p.sys.kern fd).map fun k => { p.withKern k with main := .fork }
    else none
  | .fork id =>
    if p.main = .fork then some { p with main := if id = 0 then .execlp else .ended } else none
  | .execlp ok =>
    -- the process goes on as another program
    if p.main = .execlp then some { p with main := if ok then .ended else .pipe } else none
  | .pipe none => if p.main = .pipe then some { p with main := .scanf } else none
  | .pipe (some (rfd, wfd)) =>
    if p.main = .pipe then
      ((openOther p.sys.kern (some rfd)).bind fun k => openOther k (some wfd)).map fun k =>
        { p.withKern k with main := .setNoBlocking }
    else none
  | .setNoBlocking ok =>
    if p.main = .setNoBlocking then some { p with main := if ok then .startServer else .ended }
    else none
  | .startServer ok =>
    if p.main = .startServer then
      some { p with main := .startReader, server := if ok then .epollCreate else .unborn }
    else none
  | .startReader ok =>
    if p.main = .startReader then
      some { p with main := .scanf, reader := if ok then .epollCreate else .unborn }
    else none
  | .scanf => if p.main = .scanf then some { p with main := .ended } else none
  | _ => none

/-- A call of one of the two threads. -/
def threadStep (p : Program) : ProgramAct → Option Program
  | .serverEpollCreate fd =>
    if p.server = .epollCreate then
      (openOther p.sys.kern fd).map fun k => { p.withKern k with server := .afterEpollCreate fd }
    else none
  | .serverSocket fd =>
    match p.server with
    | .socket epfd =>
      match fd with
      | none => some { p.withKern (freeFd p.sys.kern (-1) epfd) with server := .over }
      | some n =>
        (openOther p.sys.kern (some n)).map fun k =>
          { p.withKern k with server := .configure epfd (.ofNat n) }
    | _ => none
  | .configure outcome =>
    match p.server with
    | .configure epfd listenfd =>
      match outcome with
      | .returned => some { p.withKern (freeFd p.sys.kern listenfd epfd) with server := .over }
      | .exited => some { p with main := .ended }
      | .looping => some { p with server := .looping listenfd }
    | _ => none
  | .readerEpollCreate fd =>
    if p.reader = .epollCreate then
      (openOther p.sys.kern fd).map fun k =>
        { p.withKern k with reader := if fd.isSome then .looping else .over }
    else none
  | .sys a =>
    if p.Allows a then (p.sys.step p.listenfd a).map fun s => { p with sys := s } else none
  | _ => none

def step (p : Program) (a : ProgramAct) : Option Program :=
  if p.main = .ended ∨ p.sys.reader = .exited then none
  else (p.mainStep a).orElse fun _ => p.threadStep a

/-- The process before `main`, started with the three standard streams and with whatever
descriptors else. -/
structure Initial (p : Program) : Prop where
  streams : ∀ fd ∈ [(0 : Int32), 1, 2], p.sys.kern.file fd = some .other
  main : p.main = .openLog
  server : p.server = .unborn
  reader : p.reader = .unborn
  sys : p.sys.Initial

/-- Everything a step can do. -/
inductive Step (p : Program) : ProgramAct → Program → Prop
  | openLog {fd : Option ℕ} {k : Kernel} (hm : p.main = .openLog)
      (hk : openOther p.sys.kern fd = some k) :
      Step p (.openLog fd) { p.withKern k with main := .fork }
  | fork {id : Int32} (hm : p.main = .fork) :
      Step p (.fork id) { p with main := if id = 0 then .execlp else .ended }
  | execlp {ok : Bool} (hm : p.main = .execlp) :
      Step p (.execlp ok) { p with main := if ok then .ended else .pipe }
  | pipeFails (hm : p.main = .pipe) : Step p (.pipe none) { p with main := .scanf }
  | pipe {rfd wfd : ℕ} {k k' : Kernel} (hm : p.main = .pipe)
      (hr : openOther p.sys.kern (some rfd) = some k) (hw : openOther k (some wfd) = some k') :
      Step p (.pipe (some (rfd, wfd))) { p.withKern k' with main := .setNoBlocking }
  | setNoBlocking {ok : Bool} (hm : p.main = .setNoBlocking) :
      Step p (.setNoBlocking ok) { p with main := if ok then .startServer else .ended }
  | startServer {ok : Bool} (hm : p.main = .startServer) :
      Step p (.startServer ok)
        { p with main := .startReader, server := if ok then .epollCreate else .unborn }
  | startReader {ok : Bool} (hm : p.main = .startReader) :
      Step p (.startReader ok)
        { p with main := .scanf, reader := if ok then .epollCreate else .unborn }
  | scanf (hm : p.main = .scanf) : Step p .scanf { p with main := .ended }
  | serverEpollCreate {fd : Option ℕ} {k : Kernel} (hs : p.server = .epollCreate)
      (hk : openOther p.sys.kern fd = some k) :
      Step p (.serverEpollCreate fd) { p.withKern k with server := .afterEpollCreate fd }
  | socketFails {epfd : Int32} (hs : p.server = .socket epfd) :
      Step p (.serverSocket none)
        { p.withKern (freeFd p.sys.kern (-1) epfd) with server := .over }
  | socket {epfd : Int32} {n : ℕ} {k : Kernel} (hs : p.server = .socket epfd)
      (hk : openOther p.sys.kern (some n) = some k) :
      Step p (.serverSocket (some n)) { p.withKern k with server := .configure epfd (.ofNat n) }
  | configureFails {epfd listenfd : Int32} (hs : p.server = .configure epfd listenfd) :
      Step p (.configure .returned)
        { p.withKern (freeFd p.sys.kern listenfd epfd) with server := .over }
  | configureExits {epfd listenfd : Int32} (hs : p.server = .configure epfd listenfd) :
      Step p (.configure .exited) { p with main := .ended }
  | configure {epfd listenfd : Int32} (hs : p.server = .configure epfd listenfd) :
      Step p (.configure .looping) { p with server := .looping listenfd }
  | readerEpollCreate {fd : Option ℕ} {k : Kernel} (hr : p.reader = .epollCreate)
      (hk : openOther p.sys.kern fd = some k) :
      Step p (.readerEpollCreate fd)
        { p.withKern k with reader := if fd.isSome then .looping else .over }
  | sys {a : Act} {s : Sys} (ha : p.Allows a) (hk : Sys.Step p.listenfd p.sys a s) :
      Step p (.sys a) { p with sys := s }

variable {p q : Program} {a : ProgramAct}

theorem mainStep_cases (h : p.mainStep a = some q) : Step p a q := by
  cases a with
  | openLog fd =>
    obtain ⟨hm, h⟩ := Option.ite_none_right_eq_some.mp h
    obtain ⟨k, hk, rfl⟩ := Option.map_eq_some_iff.mp h
    exact .openLog hm hk
  | fork id =>
    obtain ⟨hm, h⟩ := Option.ite_none_right_eq_some.mp h
    cases h
    exact .fork hm
  | execlp ok =>
    obtain ⟨hm, h⟩ := Option.ite_none_right_eq_some.mp h
    cases h
    exact .execlp hm
  | pipe fd =>
    cases fd with
    | none =>
      obtain ⟨hm, h⟩ := Option.ite_none_right_eq_some.mp h
      cases h
      exact .pipeFails hm
    | some fd =>
      obtain ⟨hm, h⟩ := Option.ite_none_right_eq_some.mp h
      obtain ⟨k', hk', rfl⟩ := Option.map_eq_some_iff.mp h
      obtain ⟨k, hr, hw⟩ := Option.bind_eq_some_iff.mp hk'
      exact .pipe hm hr hw
  | setNoBlocking ok =>
    obtain ⟨hm, h⟩ := Option.ite_none_right_eq_some.mp h
    cases h
    exact .setNoBlocking hm
  | startServer ok =>
    obtain ⟨hm, h⟩ := Option.ite_none_right_eq_some.mp h
    cases h
    exact .startServer hm
  | startReader ok =>
    obtain ⟨hm, h⟩ := Option.ite_none_right_eq_some.mp h
    cases h
    exact .startReader hm
  | scanf =>
    obtain ⟨hm, h⟩ := Option.ite_none_right_eq_some.mp h
    cases h
    exact .scanf hm
  | _ => cases h

theorem threadStep_cases (h : p.threadStep a = some q) : Step p a q := by
  cases a with
  | serverEpollCreate fd =>
    obtain ⟨hs, h⟩ := Option.ite_none_right_eq_some.mp h
    obtain ⟨k, hk, rfl⟩ := Option.map_eq_some_iff.mp h
    exact .serverEpollCreate hs hk
  | serverSocket fd =>
    simp only [threadStep] at h
    split at h
    next epfd hs =>
      cases fd with
      | none =>
        cases h
        exact .socketFails hs
      | some n =>
        obtain ⟨k, hk, rfl⟩ := Option.map_eq_some_iff.mp h
        exact .socket hs hk
    next => cases h
  | configure outcome =>
    simp only [threadStep] at h
    split at h
    next epfd listenfd hs =>
      cases outcome with
      | returned =>
        cases h
        exact .configureFails hs
      | exited =>
        cases h
        exact .configureExits hs
      | looping =>
        cases h
        exact .configure hs
    next => cases h
  | readerEpollCreate fd =>
    obtain ⟨hr, h⟩ := Option.ite_none_right_eq_some.mp h
    obtain ⟨k, hk, rfl⟩ := Option.map_eq_some_iff.mp h
    exact .readerEpollCreate hr hk
  | sys a =>
    obtain ⟨ha, h⟩ := Option.ite_none_right_eq_some.mp h
    obtain ⟨s, hs, rfl⟩ := Option.map_eq_some_iff.mp h
    exact .sys ha (Sys.step_cases hs)
  | _ => cases h

theorem step_cases (h : p.step a = some q) : Step p a q := by
  unfold step at h
  split_ifs at h
  cases hm : p.mainStep a with
  | some r =>
    rw [hm] at h
    cases h
    exact mainStep_cases hm
  | none =>
    rw [hm] at h
    exact threadStep_cases h

end Program

def program : Lts Program ProgramAct where
  init := Program.Initial
  step := Program.step

/-! ### Number 0 -/

/-- Connections keep their numbers, and number 0 stays taken. -/
structure Beside (k k' : Kernel) : Prop where
  same : ∃ file, k' = { k with file := file }
  conn : ∀ fd c, k'.file fd = some (.conn c) ↔ k.file fd = some (.conn c)
  zero : k.file 0 = some .other → k'.file 0 = some .other

namespace Beside

variable {k k' k'' : Kernel}

theorem refl (k : Kernel) : Beside k k := ⟨⟨k.file, rfl⟩, fun _ _ => Iff.rfl, id⟩

theorem trans (h : Beside k k') (h' : Beside k' k'') : Beside k k'' := by
  obtain ⟨file, rfl⟩ := h.same
  obtain ⟨file', rfl⟩ := h'.same
  refine ⟨⟨file', rfl⟩, fun fd c => ?_, fun hz => h'.zero (h.zero hz)⟩
  exact (h'.conn fd c).trans (h.conn fd c)

/-- A number that is none of a connection comes to mean something else. -/
theorem update {fd : Int32} (hfd : ∀ c, k.file fd ≠ some (.conn c)) {x : Option File}
    (hx : ∀ c, x ≠ some (.conn c)) (hz : fd = 0 → k.file 0 ≠ some .other) :
    Beside k { k with file := Function.update k.file fd x } := by
  refine ⟨⟨_, rfl⟩, fun n c => ?_, fun h => ?_⟩
  · rcases eq_or_ne n fd with rfl | hne
    · simp only [Function.update_self]
      exact iff_of_false (hx c) (hfd c)
    · simp only [Function.update_of_ne hne]
  · have hne : 0 ≠ fd := fun he => hz he.symm h
    simp only [Function.update_of_ne hne, h]

theorem close {fd : Int32} (hfd : ∀ c, k.file fd ≠ some (.conn c)) (hpos : 0 < fd) :
    Beside k (k.close fd) := by
  have heq : k.close fd = { k with file := Function.update k.file fd none } := by
    unfold Kernel.close
    cases hf : k.file fd with
    | none => rfl
    | some x =>
      cases x with
      | conn c => exact absurd hf (hfd c)
      | other => rfl
  rw [heq]
  refine update hfd nofun ?_
  rintro rfl
  exact absurd hpos (by decide)

end Beside

section

variable {k k' : Kernel}

theorem openOther_beside {fd : Option ℕ} (h : openOther k fd = some k') : Beside k k' := by
  cases fd with
  | none =>
    cases h
    exact .refl k
  | some n =>
    obtain ⟨hlow, h⟩ := Option.ite_none_right_eq_some.mp h
    cases h
    have hfree : k.file (.ofNat n) = none := hlow.2.1
    refine .update (fun c hc => ?_) (fun c hc => ?_) fun he hz => ?_
    · cases hfree.symm.trans hc
    · cases hc
    · rw [he, hz] at hfree
      cases hfree

theorem openOther_other {fd : Option ℕ} (h : openOther k fd = some k') :
    (∀ n, k.file n = some .other → k'.file n = some .other) ∧
      ∀ n ∈ fd, k'.file (.ofNat n) = some .other := by
  cases fd with
  | none =>
    cases h
    exact ⟨fun _ hn => hn, nofun⟩
  | some m =>
    obtain ⟨hlow, h⟩ := Option.ite_none_right_eq_some.mp h
    cases h
    refine ⟨fun n hn => ?_, fun n hn => ?_⟩
    · have hne : n ≠ .ofNat m := by
        rintro rfl
        cases hn.symm.trans hlow.2.1
      simp only [Function.update_of_ne hne, hn]
    · cases hn
      exact Function.update_self ..

theorem freeFd_beside {listenfd epfd : Int32}
    (hl : listenfd > 0 → ∀ c, k.file listenfd ≠ some (.conn c))
    (he : ∀ c, k.file epfd ≠ some (.conn c)) : Beside k (freeFd k listenfd epfd) := by
  have hfirst : Beside k (if listenfd > 0 then k.close listenfd else k) := by
    split_ifs with hpos
    · exact .close (hl hpos) hpos
    · exact .refl k
  unfold freeFd
  simp only
  generalize (if listenfd > 0 then k.close listenfd else k) = k₁ at hfirst ⊢
  split_ifs with hpos
  · exact hfirst.trans (.close (fun c hc => he c ((hfirst.conn epfd c).mp hc)) hpos)
  · exact hfirst

end

namespace Program

variable {p q : Program} {a : ProgramAct}

/-- The threads run in the process that did not become another, and number 0 is taken. -/
structure Fit (p : Program) : Prop where
  handed : p.sys.Handed
  accepting : p.sys.Accepting
  zero : p.sys.ZeroTaken
  fds : ∀ fd ∈ p.server.fds, p.sys.kern.file fd = some .other
  born : p.server ≠ .unborn → p.main = .startReader ∨ p.main = .scanf ∨ p.main = .ended
  joined : p.reader ≠ .unborn → p.main = .scanf ∨ p.main = .ended

theorem Initial.fit (hi : p.Initial) : p.Fit where
  handed := hi.sys.handed
  accepting := hi.sys.accepting
  zero := hi.streams 0 List.mem_cons_self
  fds := by
    rw [hi.server]
    exact List.forall_mem_nil _
  born := fun h => absurd hi.server h
  joined := fun h => absurd hi.reader h

/-- A step that leaves the threads' system alone, or only opens and closes beside it. -/
theorem Fit.beside (h : p.Fit) {k : Kernel} (hk : Beside p.sys.kern k)
    (hq : q.sys = { p.sys with kern := k })
    (hfds : ∀ fd ∈ q.server.fds, k.file fd = some .other)
    (hborn : q.server ≠ .unborn → q.main = .startReader ∨ q.main = .scanf ∨ q.main = .ended)
    (hjoined : q.reader ≠ .unborn → q.main = .scanf ∨ q.main = .ended) : q.Fit := by
  have hzero := hk.zero h.zero
  obtain ⟨file, rfl⟩ := hk.same
  refine ⟨?_, ?_, ?_, ?_, hborn, hjoined⟩
  · rw [hq]
    exact h.handed.relabel fun fd c hc => (hk.conn fd c).mpr hc
  · rw [hq]
    exact h.accepting
  · unfold Sys.ZeroTaken
    rw [hq]
    exact hzero
  · rw [hq]
    exact hfds

theorem Fit.unborn (h : p.Fit) (hm : p.main ≠ .startReader) (hm' : p.main ≠ .scanf)
    (hm'' : p.main ≠ .ended) : p.server = .unborn ∧ p.reader = .unborn := by
  constructor
  · by_contra hs
    rcases h.born hs with he | he | he
    · exact hm he
    · exact hm' he
    · exact hm'' he
  · by_contra hr
    rcases h.joined hr with he | he
    · exact hm' he
    · exact hm'' he

/-- What the start of the server closes is none of a connection. -/
theorem Fit.freeFd_beside (h : p.Fit) {listenfd epfd : Int32}
    (hl : listenfd > 0 → listenfd ∈ p.server.fds) (he : epfd ∈ p.server.fds) :
    Beside p.sys.kern (freeFd p.sys.kern listenfd epfd) := by
  refine Base.freeFd_beside (fun hpos c hc => ?_) fun c hc => ?_
  · cases (h.fds listenfd (hl hpos)).symm.trans hc
  · cases (h.fds epfd he).symm.trans hc

/-- A step of the main thread before there is another. -/
theorem Fit.alone (h : p.Fit) (hb : p.server = .unborn ∧ p.reader = .unborn) {k : Kernel}
    (hk : Beside p.sys.kern k) {m : Main} : Fit { p.withKern k with main := m } := by
  obtain ⟨hs, hr⟩ := hb
  refine h.beside hk rfl ?_ (fun hn => absurd hs hn) fun hn => absurd hr hn
  show ∀ fd ∈ p.server.fds, _
  rw [hs]
  exact List.forall_mem_nil _

/-- A step of the server's thread. -/
theorem Fit.serverMoves (h : p.Fit) (hs : p.server ≠ .unborn) {k : Kernel}
    (hk : Beside p.sys.kern k) {server : ServerThread}
    (hfds : ∀ fd ∈ server.fds, k.file fd = some .other) :
    Fit { p.withKern k with server := server } :=
  h.beside hk rfl hfds (fun _ => h.born hs) h.joined

/-- A thread's step within the system keeps what it keeps there. -/
theorem Fit.sysStep (h : p.Fit) {b : Act} {s : Sys} (hk : Sys.Step p.listenfd p.sys b s) :
    Fit { p with sys := s } := by
  have hsound := h.handed.sound
  refine ⟨h.handed.step hk, ?_, h.zero.step hsound hk, fun fd hfd => ?_, h.born, h.joined⟩
  · exact (h.accepting.step_iff h.handed hk).mpr (h.zero.writesNotZero hsound)
  · exact (hsound.other_iff hk).mpr (h.fds fd hfd)

theorem Fit.step (h : p.Fit) (hst : Step p a q) : q.Fit := by
  have hsame := Beside.refl p.sys.kern
  cases hst with
  | openLog hm hk =>
    exact h.alone (h.unborn (by simp [hm]) (by simp [hm]) (by simp [hm])) (openOther_beside hk)
  | fork hm | execlp hm | pipeFails hm | setNoBlocking hm =>
    exact h.alone (h.unborn (by simp [hm]) (by simp [hm]) (by simp [hm])) hsame
  | pipe hm hr hw =>
    exact h.alone (h.unborn (by simp [hm]) (by simp [hm]) (by simp [hm]))
      ((openOther_beside hr).trans (openOther_beside hw))
  | startServer hm =>
    rename_i ok
    obtain ⟨hs, hr⟩ := h.unborn (by simp [hm]) (by simp [hm]) (by simp [hm])
    refine h.beside hsame rfl ?_ (fun _ => .inl rfl) fun hn => absurd hr hn
    cases ok <;> exact List.forall_mem_nil _
  | startReader hm =>
    exact h.beside hsame rfl h.fds (fun _ => .inr (.inl rfl)) fun _ => .inl rfl
  | scanf hm => exact h.beside hsame rfl h.fds (fun _ => .inr (.inr rfl)) fun _ => .inr rfl
  | serverEpollCreate hs hk =>
    rename_i fd k
    refine h.serverMoves (by simp [hs]) (openOther_beside hk) ?_
    cases fd with
    | none => exact List.forall_mem_nil _
    | some n => exact List.forall_mem_singleton.mpr ((openOther_other hk).2 n rfl)
  | socketFails hs =>
    refine h.serverMoves (by simp [hs]) (h.freeFd_beside (fun hpos => ?_) ?_)
      (List.forall_mem_nil _)
    · exact absurd hpos (by decide)
    · rw [hs]
      exact List.mem_singleton_self _
  | socket hs hk =>
    rename_i epfd n k
    have hother := h.fds
    rw [hs] at hother
    refine h.serverMoves (by simp [hs]) (openOther_beside hk) ?_
    obtain ⟨hkeep, hnew⟩ := openOther_other hk
    refine List.forall_mem_cons.mpr ⟨?_, List.forall_mem_singleton.mpr (hnew n rfl)⟩
    exact hkeep _ (hother epfd (List.mem_singleton_self _))
  | configureFails hs =>
    refine h.serverMoves (by simp [hs]) (h.freeFd_beside (fun _ => ?_) ?_)
      (List.forall_mem_nil _)
    · rw [hs]
      exact List.mem_cons_of_mem _ (List.mem_singleton_self _)
    · rw [hs]
      exact List.mem_cons_self
  | configureExits hs =>
    exact h.beside hsame rfl h.fds (fun _ => .inr (.inr rfl)) fun _ => .inr rfl
  | configure hs => exact h.serverMoves (by simp [hs]) hsame (List.forall_mem_nil _)
  | readerEpollCreate hr hk =>
    rename_i fd k
    have hb : p.reader ≠ .unborn := by simp [hr]
    exact h.beside (openOther_beside hk) rfl
      (fun fd hfd => (openOther_other hk).1 fd (h.fds fd hfd)) h.born fun _ => h.joined hb
  | sys ha hk => exact h.sysStep hk

/-! ### Which process it is -/

/-- One of the two threads has been started. -/
def Threaded (p : Program) : Prop := p.server ≠ .unborn ∨ p.reader ≠ .unborn

theorem threaded_of_allows {b : Act} (ha : p.Allows b) : p.Threaded := by
  cases b with
  | env e | acceptor b =>
    have hs : p.server = .looping p.listenfd := ha
    exact .inl (by rw [hs]; exact ServerThread.noConfusion)
  | reader b =>
    have hr : p.reader = .looping := ha
    exact .inr (by rw [hr]; exact PipeThread.noConfusion)

end Program

/-- The calls that decide which process, and which program, goes on. -/
def ProgramAct.deciding : ProgramAct → Bool
  | .fork _ | .execlp _ => true
  | _ => false

/-- Those of a run, in order. -/
def decided (tr : List (Program × ProgramAct)) : List ProgramAct :=
  (tr.map Prod.snd).filter ProgramAct.deciding

/-- The deciding calls behind each call of the main thread. At its end there may be others. -/
def Main.behind : Main → Option (List ProgramAct)
  | .openLog | .fork => some []
  | .execlp => some [.fork 0]
  | .pipe | .setNoBlocking | .startServer | .startReader | .scanf => some [.fork 0, .execlp false]
  | .ended => none

namespace Program

variable {p q : Program} {a : ProgramAct} {tr : List (Program × ProgramAct)}

theorem decided_tail : decided (tr ++ [(p, a)]) = decided tr ++ if a.deciding then [a] else [] := by
  unfold decided
  rw [List.map_append, List.filter_append]
  cases ha : a.deciding <;> simp [ha]

/-- The main thread is where the deciding calls have led, and a thread is where none followed
the failed `execlp` of a child. -/
structure Descended (tr : List (Program × ProgramAct)) (p : Program) : Prop where
  main : ∀ calls ∈ p.main.behind, decided tr = calls
  threads : p.Threaded → decided tr = [.fork 0, .execlp false]

/-- A call that decides nothing, made by the main thread or by a thread. -/
theorem Descended.same (h : Descended tr p) (ha : a.deciding = false)
    (hmain : ∀ calls ∈ q.main.behind, calls ∈ p.main.behind)
    (hthreads : q.Threaded → p.Threaded ∨ [.fork 0, .execlp false] ∈ p.main.behind) :
    Descended (tr ++ [(p, a)]) q := by
  have heq : decided (tr ++ [(p, a)]) = decided tr := by
    rw [decided_tail, ha]
    exact List.append_nil _
  refine ⟨fun calls hc => heq.trans (h.main calls (hmain calls hc)), fun ht => heq.trans ?_⟩
  exact (hthreads ht).elim h.threads (h.main _)

theorem Descended.step (h : Descended tr p) (hfit : p.Fit) (hst : Step p a q) :
    Descended (tr ++ [(p, a)]) q := by
  have hunborn : p.server = .unborn ∧ p.reader = .unborn → ¬ p.Threaded := by
    rintro ⟨hs, hr⟩ (ht | ht)
    · exact ht hs
    · exact ht hr
  cases hst with
  | fork hm =>
    rename_i id
    have hnone := hunborn (hfit.unborn (by simp [hm]) (by simp [hm]) (by simp [hm]))
    have hcalls : decided tr = [] := h.main [] (by rw [hm]; rfl)
    refine ⟨fun calls hc => ?_, fun ht => absurd ht hnone⟩
    rw [decided_tail, hcalls]
    split_ifs at hc with hid
    · cases hc
      rw [hid]
      rfl
    · cases hc
  | execlp hm =>
    rename_i ok
    have hnone := hunborn (hfit.unborn (by simp [hm]) (by simp [hm]) (by simp [hm]))
    have hcalls : decided tr = [.fork 0] := h.main _ (by rw [hm]; rfl)
    refine ⟨fun calls hc => ?_, fun ht => absurd ht hnone⟩
    rw [decided_tail, hcalls]
    cases ok <;> cases hc
    rfl
  | openLog hm | pipeFails hm | pipe hm _ _ =>
    exact h.same rfl (by rw [hm]; exact fun _ hc => hc) fun ht => .inl ht
  | setNoBlocking hm =>
    rename_i ok
    refine h.same rfl ?_ fun ht => .inl ht
    rw [hm]
    cases ok
    · exact nofun
    · exact fun _ hc => hc
  | startServer hm | startReader hm =>
    exact h.same rfl (by rw [hm]; exact fun _ hc => hc) fun _ => .inr (by rw [hm]; rfl)
  | scanf hm => exact h.same rfl nofun fun ht => .inl ht
  | configureExits hs => exact h.same rfl nofun fun ht => .inl ht
  | serverEpollCreate hs _ | socketFails hs | socket hs _ | configureFails hs | configure hs =>
    exact h.same rfl (fun _ hc => hc) fun _ => .inl (.inl (by simp [hs]))
  | readerEpollCreate hr _ => exact h.same rfl (fun _ hc => hc) fun _ => .inl (.inr (by simp [hr]))
  | sys ha _ => exact h.same rfl (fun _ hc => hc) fun _ => .inl (threaded_of_allows ha)

theorem descended_of_run {p₀ : Program} (hi : p₀.Initial) (hr : Run program p₀ tr p) :
    p.Fit ∧ Descended tr p := by
  induction hr with
  | refl =>
    refine ⟨hi.fit, fun calls hc => ?_, fun ht => ?_⟩
    · rw [hi.main] at hc
      cases hc
      rfl
    · exact absurd ht (not_or.mpr ⟨not_not.mpr hi.server, not_not.mpr hi.reader⟩)
  | tail _ hk ih =>
    have hst := step_cases hk
    exact ⟨ih.1.step hst, ih.2.step ih.1 hst⟩

end Program

/-- The reader never returns for a message it rejects, whatever descriptors the program is
started with besides the standard streams and whatever calls fail: no connection gets number
0, so the messages are all for positive numbers. The threads run only in a child of the first
process whose `execlp` has failed, and only until its `scanf` returns. -/
theorem zero_never_accepted {p₀ p : Program} {tr : List (Program × ProgramAct)}
    (hi : p₀.Initial) (hr : Run program p₀ tr p) :
    p.sys.reader ≠ .returned ∧ (∀ m ∈ p.sys.pipe.sent, 0 < m.fd) ∧
      (∀ c, p.sys.kern.file 0 ≠ some (.conn c)) ∧
      (p.Threaded → decided tr = [.fork 0, .execlp false] ∧
        (p.main = .startReader ∨ p.main = .scanf ∨ p.main = .ended)) := by
  obtain ⟨hp, hd⟩ := Program.descended_of_run hi hr
  refine ⟨hp.accepting.1, hp.accepting.2, fun c hc => ?_, fun ht => ⟨hd.threads ht, ?_⟩⟩
  · cases hp.zero.symm.trans hc
  · rcases ht with hs | hr
    · exact hp.born hs
    · exact .inr (hp.joined hr)

/-- A process with the standard streams alone. -/
def bare : Program where
  main := .openLog
  server := .unborn
  reader := .unborn
  sys := { Sys.start with kern := { Sys.start.kern with
    file := fun fd => if 0 ≤ fd ∧ fd ≤ 2 then some .other else none } }

theorem initial_bare : bare.Initial where
  streams := by
    simp only [List.forall_mem_cons]
    exact ⟨rfl, rfl, rfl, List.forall_mem_nil _⟩
  main := rfl
  server := rfl
  reader := rfl
  sys :=
    { Sys.initial_start with
      file := by
        intro fd c h
        simp only [bare] at h
        split_ifs at h
        cases h }

/-- The pipe gets the numbers 3 and 4, and the first client is registered as number 8. -/
def bareRun : List ProgramAct := [
  .openLog none, .fork 0, .execlp false, .pipe (some (3, 4)), .setNoBlocking true,
  .startServer true, .startReader true, .serverEpollCreate (some 5), .serverSocket (some 6),
  .configure .looping, .readerEpollCreate (some 7), .sys (.env (.connect ⟨16777343, 4660⟩)),
  .sys (.acceptor (.epollWait true)), .sys (.acceptor (.accept 8)),
  .sys (.acceptor (.readClient (some .eintr))), .sys (.acceptor (.writePipe .zero true)),
  .sys (.reader (.readPipe true)), .sys (.reader (.setNoBlocking true)),
  .sys (.reader (.epollAdd true))]

theorem zero_never_accepted_bare : ∃ p tr, Run program bare tr p ∧
    p.sys.kern.registered = [⟨8, 0⟩] ∧ p.sys.reader ≠ .returned ∧
    (∀ m ∈ p.sys.pipe.sent, 0 < m.fd) ∧ decided tr = [.fork 0, .execlp false] := by
  obtain ⟨p, hr, hreg, hserver⟩ := exists_run_of_exec (S := program) bare bareRun
    (P := fun p => p.sys.kern.registered = [⟨8, 0⟩] ∧ p.server = .looping 6) (by decide +kernel)
  obtain ⟨hret, hsent, -, hthreads⟩ := zero_never_accepted initial_bare hr
  have hthreaded : p.Threaded := .inl (by rw [hserver]; exact ServerThread.noConfusion)
  exact ⟨p, _, hr, hreg, hret, hsent, (hthreads hthreaded).1⟩

end BaseCom.Base
