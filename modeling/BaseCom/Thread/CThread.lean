import BaseCom.Transition.Run
import Mathlib.Logic.Function.Basic

/-! `CThread`: the object with its two fields, the code a started thread executes and
the threads that wait for it. A thread is what it has left to execute. The statements of
`run` are the subclass's; the fields are private and it can not write them. -/

namespace BaseCom.Thread

open Transition

/-- `pthread_t`. No thread has the id 0. -/
abbrev PthreadT := UInt64

def threadStatusNew : Int32 := 0

def threadStatusRunning : Int32 := 1

def threadStatusExit : Int32 := -1

/-- The data members. -/
structure CThread where
  tid : PthreadT
  threadStatus : Int32
  deriving DecidableEq

/-- What a call of `join` comes to. -/
inductive JoinCall
  | nothing
  | pthreadJoin (thread : PthreadT)
  | poll (millisTime : UInt64)
  deriving DecidableEq

namespace CThread

/-- `CThread::CThread`. -/
def construct : CThread := { tid := 0, threadStatus := threadStatusNew }

/-- `start`, whose `pthread_create` leaves `thread` in `tid`: the id of the new thread,
or after a failure anything. The comparison of the result is dropped, and there is no
`return`. -/
def start (o : CThread) (thread : PthreadT) : CThread := { o with tid := thread }

def getState (o : CThread) : Int32 := o.threadStatus

/-- `join()`. -/
def join (o : CThread) : JoinCall := if o.tid > 0 then .pthreadJoin o.tid else .nothing

/-- `join(millisTime)`. -/
def joinTimed (o : CThread) (millisTime : UInt64) : JoinCall :=
  if o.tid = 0 then .nothing
  else if millisTime = 0 then o.join
  else .poll millisTime

/-- The condition of the loop in `join(millisTime)`. -/
def polls (o : CThread) (millisTime k : UInt64) : Bool :=
  decide (o.threadStatus ≠ threadStatusExit) && decide (k ≤ millisTime)

end CThread

/-! ### The thread -/

inductive Stmt
  | setStatus (status : Int32)
  | setTid
  | run
  | clearTid
  | pthreadExit
  | returnNull
  deriving DecidableEq

/-- `run1`. Nothing calls it. -/
def run1 : List Stmt :=
  [.setStatus threadStatusRunning, .setTid, .run, .setStatus threadStatusExit, .clearTid,
    .pthreadExit]

/-- `thread_proxy_func`, the entry `start` passes to `pthread_create`. -/
def threadProxyFunc : List Stmt := [.run, .returnNull]

/-- A created thread: its id, what it has left to execute, and whether it is inside `run`. -/
structure Started where
  self : PthreadT
  code : List Stmt
  inRun : Bool
  deriving DecidableEq

/-- How far the thread's body has come. -/
inductive Phase
  | notBegun
  | running
  | returned
  deriving DecidableEq

namespace Started

def phase (t : Started) : Phase :=
  if t.inRun then .running else if .run ∈ t.code then .notBegun else .returned

/-- The next statement. A call of `run` takes two steps, its beginning and its return. -/
def exec (t : Started) (o : CThread) : Option (Started × CThread) :=
  match t.code with
  | [] => none
  | .run :: rest =>
    if t.inRun then some ({ t with code := rest, inRun := false }, o)
    else some ({ t with inRun := true }, o)
  | .setStatus status :: rest => some ({ t with code := rest }, { o with threadStatus := status })
  | .setTid :: rest => some ({ t with code := rest }, { o with tid := t.self })
  | .clearTid :: rest => some ({ t with code := rest }, { o with tid := 0 })
  | .pthreadExit :: _ | .returnNull :: _ => some ({ t with code := [] }, o)

end Started

/-! ### The thread and its observers -/

/-- A thread that may wait for the started one. -/
inductive Observer
  | idle
  | polling (millisTime k : UInt64)
  | joining (thread : PthreadT)
  deriving DecidableEq

/-- Where a call of `join` leads its caller. -/
def Observer.ofCall : JoinCall → Observer
  | .nothing => .idle
  | .pthreadJoin thread => .joining thread
  | .poll millisTime => .polling millisTime 0

structure Sys (ι : Type*) where
  obj : CThread
  thread : Option Started
  observer : ι → Observer

/-- A step of the started thread, with `body` a step inside `run`, or of an observer. -/
inductive Act (ι : Type*)
  | start (thread : PthreadT)
  | startFails (thread : PthreadT)
  | next
  | body
  | join (i : ι)
  | joinTimed (i : ι) (millisTime : UInt64)
  | poll (i : ι)
  | joined (i : ι)

namespace Sys

variable {ι : Type*} [DecidableEq ι]

def phase (s : Sys ι) : Phase := (s.thread.map Started.phase).getD .notBegun

def observe (s : Sys ι) (i : ι) (b : Observer) : Sys ι :=
  { s with observer := Function.update s.observer i b }

def step (entry : List Stmt) (s : Sys ι) : Act ι → Option (Sys ι)
  | .start thread =>
    if s.thread = none ∧ thread ≠ 0 then
      some { s with obj := s.obj.start thread, thread := some ⟨thread, entry, false⟩ }
    else none
  | .startFails thread =>
    if s.thread = none then some { s with obj := s.obj.start thread } else none
  | .next =>
    match s.thread with
    | none => none
    | some t => (t.exec s.obj).map fun r => { s with thread := some r.1, obj := r.2 }
  | .body => if s.phase = .running then some s else none
  | .join i => if s.observer i = .idle then some (s.observe i (.ofCall s.obj.join)) else none
  | .joinTimed i millisTime =>
    if s.observer i = .idle then some (s.observe i (.ofCall (s.obj.joinTimed millisTime))) else none
  | .poll i =>
    match s.observer i with
    | .polling millisTime k =>
      some (s.observe i (if s.obj.polls millisTime k then .polling millisTime (k + 1) else .idle))
    | _ => none
  | .joined i =>
    match s.observer i with
    | .joining thread =>
      if ∃ t ∈ s.thread, t.self = thread ∧ t.code = [] then some (s.observe i .idle) else none
    | _ => none

/-- Everything a step can do. -/
inductive Step (entry : List Stmt) (s : Sys ι) : Act ι → Sys ι → Prop
  | start {thread : PthreadT} (hn : s.thread = none) (h0 : thread ≠ 0) :
      Step entry s (.start thread)
        { s with obj := s.obj.start thread, thread := some ⟨thread, entry, false⟩ }
  | startFails {thread : PthreadT} (hn : s.thread = none) :
      Step entry s (.startFails thread) { s with obj := s.obj.start thread }
  | next {t : Started} {r : Started × CThread} (ht : s.thread = some t)
      (he : t.exec s.obj = some r) :
      Step entry s .next { s with thread := some r.1, obj := r.2 }
  | body (hp : s.phase = .running) : Step entry s .body s
  | join {i : ι} (hi : s.observer i = .idle) :
      Step entry s (.join i) (s.observe i (.ofCall s.obj.join))
  | joinTimed {i : ι} {millisTime : UInt64} (hi : s.observer i = .idle) :
      Step entry s (.joinTimed i millisTime)
        (s.observe i (.ofCall (s.obj.joinTimed millisTime)))
  | poll {i : ι} {millisTime k : UInt64} (hi : s.observer i = .polling millisTime k) :
      Step entry s (.poll i)
        (s.observe i (if s.obj.polls millisTime k then .polling millisTime (k + 1) else .idle))
  | joined {i : ι} {thread : PthreadT} (hi : s.observer i = .joining thread)
      (ht : ∃ t ∈ s.thread, t.self = thread ∧ t.code = []) :
      Step entry s (.joined i) (s.observe i .idle)

theorem step_cases {entry : List Stmt} {s t : Sys ι} {a : Act ι} (h : s.step entry a = some t) :
    Step entry s a t := by
  cases a with
  | start thread =>
    simp only [step] at h
    split_ifs at h with hn
    cases h
    exact .start hn.1 hn.2
  | startFails thread =>
    simp only [step] at h
    split_ifs at h with hn
    cases h
    exact .startFails hn
  | next =>
    simp only [step] at h
    split at h
    next => cases h
    next u hu =>
      obtain ⟨r, he, rfl⟩ := Option.map_eq_some_iff.mp h
      exact .next hu he
  | body =>
    simp only [step] at h
    split_ifs at h with hp
    cases h
    exact .body hp
  | join i =>
    simp only [step] at h
    split_ifs at h with hi
    cases h
    exact .join hi
  | joinTimed i millisTime =>
    simp only [step] at h
    split_ifs at h with hi
    cases h
    exact .joinTimed hi
  | poll i =>
    simp only [step] at h
    split at h
    next millisTime k hi =>
      cases h
      exact .poll hi
    next => cases h
  | joined i =>
    simp only [step] at h
    split at h
    next thread hi =>
      split_ifs at h with ht
      cases h
      exact .joined hi ht
    next => cases h

/-- A constructed object that no thread has used yet. -/
structure Initial (s : Sys ι) : Prop where
  obj : s.obj = .construct
  thread : s.thread = none
  observer : ∀ i, s.observer i = .idle

def fresh : Sys ι := ⟨.construct, none, fun _ => .idle⟩

omit [DecidableEq ι] in
theorem initial_fresh : (fresh : Sys ι).Initial := ⟨rfl, rfl, fun _ => rfl⟩

end Sys

/-- One start of a thread with a given entry, and any number of observers. -/
def threadSys (ι : Type*) [DecidableEq ι] (entry : List Stmt) : Lts (Sys ι) (Act ι) where
  init := Sys.Initial
  step := Sys.step entry

end BaseCom.Thread
