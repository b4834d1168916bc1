import BaseCom.Client.SendLoop
import BaseCom.Epoll.Cause

/-! The demo client against the server. The client sends its message and reads the reply
before it closes; the server reads, and never writes to a connection. So the client's `read`
returns only when its connection is gone at the server's end, and as far as nothing goes
wrong the server does away with a connection only when its client closes. -/

namespace BaseCom.Client

open Transition Epoll

/-- The server, the connections whose end at the server is gone, and one client: its
connection, the variables of its `main`, and whether its `read` has returned. -/
structure Conversation where
  server : Sys
  ended : List Conn
  conn : Option Conn
  sender : Sender
  answered : Bool

/-- Whose turn it is: the server's and the other clients', or the client's. -/
inductive Turn
  | server (a : Act)
  | connect (addr : SockaddrIn)
  | send (sendBytes : ℤ)
  | read
  | close

/-- What nobody but its client does to a connection. -/
def ByOwner (c : Conn) : Act → Bool
  | .env (.deliver d _) | .env (.peerClose d) | .env (.peerError d) => d = c
  | _ => false

namespace Conversation

def step (listenfd : Int32) (p : Conversation) : Turn → Option Conversation
  | .server a =>
    if p.conn.any (ByOwner · a) then none
    else (p.server.step listenfd a).map fun s =>
      { p with server := s, ended := p.server.ends a ++ p.ended }
  | .connect addr =>
    if p.conn = none then
      (p.server.step listenfd (.env (.connect addr))).map fun s =>
        { p with server := s, conn := some p.server.kern.nextConn }
    else none
  | .send sendBytes =>
    p.conn.bind fun c =>
      (p.sender.step message sendBytes).bind fun sender =>
        if 0 < sendBytes then
          (p.server.step listenfd (.env (.deliver c sendBytes.toNat))).map fun s =>
            { p with server := s, sender := sender }
        else some { p with sender := sender }
  | .read =>
    p.conn.bind fun c =>
      -- the exit of the server's process ends every connection
      if p.sender.stage = .reading ∧ (c ∈ p.ended ∨ p.server.reader = .exited) then
        some { p with answered := true }
      else none
  | .close =>
    p.conn.bind fun c =>
      if p.sender.stage = .returned ∨ p.answered = true then
        (p.server.step listenfd (.env (.peerClose c))).map fun s => { p with server := s }
      else none

/-- The server is at its start and the client has not connected. -/
structure Initial (p : Conversation) : Prop where
  server : p.server.Initial
  ended : p.ended = []
  conn : p.conn = none
  sender : p.sender = .start
  answered : p.answered = false

/-- The server gives up the client's connection, or exits. -/
def Hindered (p : Conversation) : Turn → Prop
  | .server a => p.conn.any fun c => p.server.Hinders c a
  | _ => False

instance (p : Conversation) (turn : Turn) : Decidable (p.Hindered turn) := by
  unfold Hindered
  split <;> infer_instance

/-- The client's connection is there, and nothing has happened for which the server would end
it. -/
structure Kept (p : Conversation) (c : Conn) : Prop where
  spared : p.server.Spared c
  past : c < p.server.kern.nextConn
  lasts : c ∉ p.ended
  running : p.server.reader ≠ .exited

structure Waiting (p : Conversation) : Prop where
  sound : p.server.Sound
  unanswered : p.answered = false
  old : ∀ c ∈ p.ended, c < p.server.kern.nextConn
  kept : ∀ c ∈ p.conn, p.sender.stage = .returned ∨ p.Kept c

variable {listenfd : Int32} {p q : Conversation} {turn : Turn}

theorem Initial.waiting (hp : p.Initial) : p.Waiting where
  sound := hp.server.sound
  unanswered := hp.answered
  old := by
    rw [hp.ended]
    exact List.forall_mem_nil _
  kept := by
    rw [hp.conn]
    rintro c ⟨⟩

/-- The process exits at `fcntl` only. -/
theorem exited_of_step {s t : Sys} {a : Act} (hst : Sys.Step listenfd s a t)
    (hlive : s.reader ≠ .exited) (ha : a ≠ .reader (.setNoBlocking false)) :
    t.reader ≠ .exited := by
  have hevents : ∀ events, Reader.forEvents events ≠ .exited := by
    intro events
    cases events with
    | nil => exact Reader.noConfusion
    | cons e rest =>
      rw [Reader.forEvents_cons]
      split <;> exact Reader.noConfusion
  cases hst with
  | setNoBlocking hr =>
    rename_i ok h
    cases ok with
    | true => exact Reader.noConfusion
    | false => exact absurd rfl ha
  | readPipe _ _ | readEmpty _ _ =>
    simp only [Reader.afterReadPipe]
    split
    any_goals exact Reader.noConfusion
    split_ifs <;> exact Reader.noConfusion
  | readFails _ | epollAdd _ _ _ | epollAddFails _ | closeUnregistered _ | closePeer _ =>
    exact Reader.noConfusion
  | epollWait _ _ | closeError _ => exact hevents _
  | readClient _ _ =>
    simp only [Reader.afterRead]
    split
    any_goals exact Reader.noConfusion
    all_goals exact hevents _
  | _ => exact hlive

/-- A step of the server keeps the connection unless it hinders it. -/
theorem Kept.step {c : Conn} (hk : p.Kept c) {a : Act} {s : Sys}
    (hst : Sys.Step listenfd p.server a s) (hno : ¬ p.server.Hinders c a) {ended : List Conn}
    (hended : c ∉ ended) {sender : Sender} :
    Kept { p with server := s, ended := ended, sender := sender } c where
  spared := hk.spared.step (Sys.not_cause_of_not_hinders hno) hst
  past := Nat.lt_of_lt_of_le hk.past hst.backlog_mem.1
  lasts := hended
  running := by
    refine exited_of_step hst hk.running ?_
    rintro rfl
    exact hno rfl

theorem Waiting.step (hw : p.Waiting) (hno : ¬ p.Hindered turn)
    (h : p.step listenfd turn = some q) : q.Waiting := by
  cases turn with
  | server a =>
    simp only [Conversation.step] at h
    split_ifs at h
    obtain ⟨s, hs, rfl⟩ := Option.map_eq_some_iff.mp h
    have hst := Sys.step_cases hs
    have hnext := hst.backlog_mem.1
    refine ⟨hw.sound.step hst, hw.unanswered, fun c hc => ?_, fun c hc => ?_⟩
    · rcases List.mem_append.mp hc with hc | hc
      · exact Nat.lt_of_lt_of_le (hw.sound.ends_old c hc) hnext
      · exact Nat.lt_of_lt_of_le (hw.old c hc) hnext
    · have hkeeps : ¬ p.server.Hinders c a :=
        fun hh => hno ((Option.any_eq_true _ _).mpr ⟨c, hc, decide_eq_true hh⟩)
      refine (hw.kept c hc).imp_right fun hk => hk.step hst hkeeps fun hm => ?_
      rcases List.mem_append.mp hm with hm | hm
      · exact hk.spared.notMem_ends hkeeps hst hm
      · exact hk.lasts hm
  | connect addr =>
    simp only [Conversation.step] at h
    split_ifs at h
    obtain ⟨s, hs, rfl⟩ := Option.map_eq_some_iff.mp h
    have hst := Sys.step_cases hs
    refine ⟨hw.sound.step hst, hw.unanswered, fun c hc => ?_, fun c hc => .inr ?_⟩
    · exact Nat.lt_of_lt_of_le (hw.old c hc) hst.backlog_mem.1
    · obtain rfl : p.server.kern.nextConn = c := Option.some.inj hc
      have hk : (Epoll.server listenfd).step p.server (.env (.connect addr)) = some s := hs
      have hlive := Sys.live_of_step hk
      have hno : ¬ p.server.Cause p.server.kern.nextConn (.env (.connect addr)) := id
      refine ⟨hw.sound.spared_next.step hno hst, ?_, fun hm => ?_, ?_⟩
      · cases hst
        exact Nat.lt_succ_self _
      · exact Nat.lt_irrefl _ (hw.old _ hm)
      · exact exited_of_step hst hlive (by rintro ⟨⟩)
  | send sendBytes =>
    obtain ⟨c, hc, h⟩ := Option.bind_eq_some_iff.mp h
    obtain ⟨sender, hsend, h⟩ := Option.bind_eq_some_iff.mp h
    have hstage : p.sender.stage ≠ .returned := by
      unfold Sender.step at hsend
      split_ifs at hsend with hok
      rw [hok.1]
      exact Stage.noConfusion
    have hk := (hw.kept c hc).resolve_left hstage
    split_ifs at h
    · obtain ⟨s, hs, rfl⟩ := Option.map_eq_some_iff.mp h
      have hst := Sys.step_cases hs
      refine ⟨hw.sound.step hst, hw.unanswered, fun d hd => ?_, fun d hd => .inr ?_⟩
      · exact Nat.lt_of_lt_of_le (hw.old d hd) hst.backlog_mem.1
      · obtain rfl : c = d := Option.some.inj (hc.symm.trans hd)
        exact hk.step hst (fun hh => hh) hk.lasts
    · cases h
      refine ⟨hw.sound, hw.unanswered, hw.old, fun d hd => .inr ?_⟩
      obtain rfl : c = d := Option.some.inj (hc.symm.trans hd)
      exact ⟨hk.spared, hk.past, hk.lasts, hk.running⟩
  | read =>
    obtain ⟨c, hc, h⟩ := Option.bind_eq_some_iff.mp h
    split_ifs at h with hread
    -- the client is past its loop, so its connection is kept
    obtain ⟨hstage, hgone⟩ := hread
    have hk := (hw.kept c hc).resolve_left (by rw [hstage]; exact Stage.noConfusion)
    rcases hgone with hm | hx
    · exact absurd hm hk.lasts
    · exact absurd hx hk.running
  | close =>
    obtain ⟨c, hc, h⟩ := Option.bind_eq_some_iff.mp h
    split_ifs at h with hdone
    obtain ⟨s, hs, rfl⟩ := Option.map_eq_some_iff.mp h
    have hst := Sys.step_cases hs
    have hret : p.sender.stage = .returned := by
      refine hdone.resolve_right fun ha => ?_
      rw [hw.unanswered] at ha
      cases ha
    refine ⟨hw.sound.step hst, hw.unanswered, fun d hd => ?_, fun d hd => .inl hret⟩
    exact Nat.lt_of_lt_of_le (hw.old d hd) hst.backlog_mem.1

end Conversation

def conversation (listenfd : Int32) : Lts Conversation Turn where
  init := Conversation.Initial
  step := Conversation.step listenfd

/-- The client gets no reply and hears no end: whatever it sends in whatever parts, and
whatever the server does with the other clients, as long as nothing goes wrong with its own
connection and no `fcntl` fails, for any client, which would end the process, its `read` does
not return and the server keeps the connection. -/
theorem reply_awaited {listenfd : Int32} {p₀ p : Conversation} {tr : List (Conversation × Turn)}
    (hi : p₀.Initial) (hr : Run (conversation listenfd) p₀ tr p)
    (hno : Always (fun q turn => ¬ q.Hindered turn) tr) :
    p.answered = false ∧ ∀ c ∈ p.conn, p.sender.stage ≠ .returned → c ∉ p.ended ∧
      (p.server.kern.sock c).eof = false := by
  have hstep : ∀ u turn v, u.Waiting → ¬ u.Hindered turn →
      (conversation listenfd).step u turn = some v → v.Waiting :=
    fun _ _ _ hu hh hk => hu.step hh hk
  have hw := (hr.along_of_always hstep hi.waiting hno).2
  refine ⟨hw.unanswered, fun c hc hstage => ?_⟩
  have hk := (hw.kept c hc).resolve_left hstage
  exact ⟨hk.lasts, hk.spared.eof hk.past⟩

/-- The client sends its message in two parts; the server reads all of it. -/
def demo : List Turn := [
  .connect ⟨16777343, 4660⟩, .send 10, .server (.acceptor (.epollWait true)),
  .server (.acceptor (.accept 8)), .server (.acceptor (.readClient none)),
  .server (.acceptor (.writePipe .zero true)), .server (.reader (.readPipe true)),
  .server (.reader (.setNoBlocking true)), .server (.reader (.epollAdd true)), .send 6,
  .server (.reader (.epollWait [firstReadable])), .server (.reader (.readClient none))]

def Conversation.start : Conversation where
  server := Sys.start
  ended := []
  conn := none
  sender := .start
  answered := false

theorem Conversation.initial_start : Conversation.start.Initial :=
  ⟨Sys.initial_start, rfl, rfl, rfl, rfl⟩

theorem reply_awaited_demo : ∃ p tr, Run (conversation 5) .start tr p ∧
    p.sender.stage = .reading ∧ p.conn = some 0 ∧ (p.server.kern.sock 0).unread = 0 ∧
    p.answered = false := by
  obtain ⟨p, hr, hstage, hconn, hread⟩ := exists_run_of_exec (S := conversation 5) .start demo
    (P := fun p => p.sender.stage = .reading ∧ p.conn = some 0 ∧
      (p.server.kern.sock 0).unread = 0) (by decide +kernel)
  have hno : ∀ q ∈ trace (conversation 5) .start demo, ¬ q.1.Hindered q.2 := by decide +kernel
  exact ⟨p, _, hr, hstage, hconn, hread, (reply_awaited Conversation.initial_start hr hno).1⟩

end BaseCom.Client
