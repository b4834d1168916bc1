import BaseCom.Epoll.Steps

/-! One batch of client events. The loop over the events reads or closes their
descriptors in order; an end of stream, an empty queue or an error other than an
interruption leaves it. So what becomes of one event depends on those before it,
and on their order, unless no read in the batch ends the loop. -/

namespace BaseCom.Epoll

open Transition

/-- The calls of the loop that concern a client. -/
inductive Call
  | read (fd : Int32)
  | close (fd : Int32)
  deriving DecidableEq

/-- The calls of one pass over the events, with the outcome of a read of each descriptor. -/
def handle (outcome : Int32 → ReadResult) : List (EpollEvent Handle) → List Call
  | [] => []
  | e :: rest =>
    if e.events.epollin then
      match outcome e.data.fd with
      | .bytes (_ + 1) => .read e.data.fd :: handle outcome rest
      | .error .eagain => [.read e.data.fd]
      | .error .eintr => .read e.data.fd :: handle outcome rest
      | .error .other => [.read e.data.fd]
      | .bytes 0 => [.read e.data.fd, .close e.data.fd]
    else if e.events.epollerr || e.events.epollhup then .close e.data.fd :: handle outcome rest
    else handle outcome rest

/-- The outcomes on which the loop is left. -/
def ReadResult.breaks : ReadResult → Bool
  | .bytes 0 | .error .eagain | .error .other => true
  | .bytes (_ + 1) | .error .eintr => false

/-- The call an event is for. -/
def EpollEvent.call (e : EpollEvent Handle) : Call :=
  if e.events.epollin then .read e.data.fd else .close e.data.fd

variable {outcome : Int32 → ReadResult} {e : EpollEvent Handle}
  {events rest : List (EpollEvent Handle)}

/-! ### The loop and the thread -/

/-- The calls a thread in the middle of a batch has still to make. -/
def Reader.remaining (outcome : Int32 → ReadResult) : Reader → List Call
  | .closePeer h => [.close h.fd]
  | .readClient h rest => handle outcome (⟨.readable, h⟩ :: rest)
  | .closeError h rest => .close h.fd :: handle outcome rest
  | .readPipe | .setNoBlocking _ | .epollAdd _ | .closeUnregistered _ | .epollWait
  | .returned | .exited => []

theorem Reader.remaining_forEvents :
    (forEvents events).remaining outcome = handle outcome events := by
  cases events with
  | nil => rfl
  | cons e rest =>
    have hc := e.events.cause
    rw [forEvents_cons]
    by_cases hin : e.events.epollin = true
    · rw [if_pos hin]
      simp only [remaining, handle, EventMask.readable, hin, if_true]
    · rw [if_neg hin]
      rw [Bool.not_eq_true] at hin
      rw [hin, Bool.false_or] at hc
      simp [remaining, handle, hin, hc]

/-- After a read the thread goes on as the loop does. -/
theorem Reader.remaining_afterRead (h : Handle) :
    (readClient h rest).remaining outcome =
      .read h.fd :: (afterRead (outcome h.fd) h rest).remaining outcome := by
  cases ho : outcome h.fd with
  | bytes n =>
    cases n with
    | zero => simp only [remaining, handle, EventMask.readable, if_true, ho, afterRead]
    | succ n =>
      rw [afterRead, remaining_forEvents]
      simp only [remaining, handle, EventMask.readable, if_true, ho]
  | error errno =>
    cases errno with
    | eagain | other => simp only [remaining, handle, EventMask.readable, if_true, ho, afterRead]
    | eintr =>
      rw [afterRead, remaining_forEvents]
      simp only [remaining, handle, EventMask.readable, if_true, ho]

/-- The call a step makes, if it is one of these. -/
def Sys.call (s : Sys) : Act → List Call
  | .reader (.readClient _) => (s.reader.target.map fun h => .read h.fd).toList
  | .reader .closePeer | .reader .closeError => (s.reader.target.map fun h => .close h.fd).toList
  | _ => []

/-- The reader is within a batch, and its reads come out as told. -/
def Sys.InBatch (outcome : Int32 → ReadResult) (s : Sys) : Act → Prop
  | .reader a => s.reader.batch ≠ [] ∧ ∀ h fault, s.reader.target = some h →
      a = .readClient fault → (s.kern.read h.fd 1024 fault).1 = outcome h.fd
  | _ => True

theorem Sys.Step.remaining {listenfd : Int32} {s t : Sys} {a : Act} (hst : Step listenfd s a t)
    (hin : s.InBatch outcome a) :
    s.reader.remaining outcome = s.call a ++ t.reader.remaining outcome := by
  cases hst with
  | readPipe hr _ | readEmpty hr _ | readFails hr | setNoBlocking hr | epollAdd hr _ _
  | epollAddFails hr | closeUnregistered hr | epollWait hr _ =>
    refine absurd ?_ hin.1
    rw [hr]
    rfl
  | readClient hr _ =>
    rw [hr, Reader.remaining_afterRead, ← hin.2 _ _ (by rw [hr]; rfl) rfl]
    simp only [call, hr]
    rfl
  | closePeer hr =>
    simp only [call, hr]
    rfl
  | closeError hr =>
    simp only [call, hr, Reader.remaining_forEvents]
    rfl
  | _ => rfl

/-- Whatever the other parties do meanwhile, a batch that has come to its end has
made the calls of `handle`, in order. -/
theorem calls_of_batch {listenfd : Int32} {s t : Sys} {tr : List (Sys × Act)}
    (hr : Run (server listenfd) s tr t) (hs : s.reader = .forEvents events)
    (ht : t.reader = .readPipe) (hin : Always (Sys.InBatch outcome) tr) :
    tr.flatMap (fun p => p.1.call p.2) = handle outcome events := by
  have hrun : s.reader.remaining outcome =
      tr.flatMap (fun p => p.1.call p.2) ++ t.reader.remaining outcome := by
    clear hs ht
    induction hr with
    | refl => rfl
    | tail _ hk ih =>
      obtain ⟨hin, ha⟩ := always_tail.mp hin
      rw [ih hin, (Sys.step_cases hk).remaining ha, List.flatMap_append, List.append_assoc]
      simp only [List.flatMap_singleton]
  rw [hs, ht, Reader.remaining_forEvents] at hrun
  rw [hrun]
  exact (List.append_nil _).symm

/-! ### The loop and the order of events -/

/-- The loop runs to its end if no read ends it. -/
theorem handle_of_not_breaks
    (hb : ∀ e ∈ events, e.events.epollin = true → (outcome e.data.fd).breaks = false) :
    handle outcome events = events.map EpollEvent.call := by
  induction events with
  | nil => rfl
  | cons e rest ih =>
    have hrest := ih fun x hx => hb x (List.mem_cons_of_mem _ hx)
    have hc := e.events.cause
    by_cases hin : e.events.epollin = true
    · have ho := hb e List.mem_cons_self hin
      rw [handle, if_pos hin, List.map_cons, EpollEvent.call, if_pos hin, ← hrest]
      cases hr : outcome e.data.fd with
      | bytes n =>
        cases n with
        | zero => rw [hr] at ho; cases ho
        | succ n => rfl
      | error errno =>
        cases errno with
        | eagain | other => rw [hr] at ho; cases ho
        | eintr => rfl
    · rw [handle, if_neg hin, List.map_cons, EpollEvent.call, if_neg hin, ← hrest]
      rw [Bool.not_eq_true] at hin
      rw [hin, Bool.false_or] at hc
      rw [if_pos hc]

/-- A read that ends the loop is the last thing that happens, but for the close of
the same descriptor. -/
theorem fd_of_breaks (hin : e.events.epollin = true) (hb : (outcome e.data.fd).breaks = true)
    {c : Call} (hc : c ∈ handle outcome (e :: rest)) :
    c = .read e.data.fd ∨ c = .close e.data.fd := by
  rw [handle, if_pos hin] at hc
  cases hr : outcome e.data.fd with
  | bytes n =>
    cases n with
    | zero => rw [hr] at hc; simpa using hc
    | succ n => rw [hr] at hb; cases hb
  | error errno =>
    rw [hr] at hc hb
    cases errno with
    | eagain | other => exact .inl (List.mem_singleton.mp hc)
    | eintr => cases hb

/-- The first event is always dealt with. -/
theorem call_mem_handle : e.call ∈ handle outcome (e :: rest) := by
  have hc := e.events.cause
  unfold EpollEvent.call
  by_cases hin : e.events.epollin = true
  · rw [handle, if_pos hin, if_pos hin]
    split
    · exact List.mem_cons_self
    · exact List.mem_cons_self
    · exact List.mem_cons_self
    · exact List.mem_cons_self
    · exact List.mem_cons_self
  · rw [handle, if_neg hin, if_neg hin]
    rw [Bool.not_eq_true] at hin
    rw [hin, Bool.false_or] at hc
    rw [if_pos hc]
    exact List.mem_cons_self

theorem call_eq (e : EpollEvent Handle) : e.call = .read e.data.fd ∨ e.call = .close e.data.fd := by
  unfold EpollEvent.call
  split_ifs
  · exact .inl rfl
  · exact .inr rfl

/-- The descriptor of every event is read or closed. -/
def AllHandled (outcome : Int32 → ReadResult) (events : List (EpollEvent Handle)) : Prop :=
  ∀ e ∈ events, .read e.data.fd ∈ handle outcome events ∨ .close e.data.fd ∈ handle outcome events

/-- The order of the events decides neither which descriptors are read nor which
are closed. -/
def OrderFree (outcome : Int32 → ReadResult) (events : List (EpollEvent Handle)) : Prop :=
  ∀ events', events.Perm events' → ∀ c, c ∈ handle outcome events' ↔ c ∈ handle outcome events

theorem allHandled_of_call_mem (h : ∀ e ∈ events, e.call ∈ handle outcome events) :
    AllHandled outcome events := by
  intro e he
  have hm := h e he
  rcases call_eq e with hc | hc
  · exact .inl (hc ▸ hm)
  · exact .inr (hc ▸ hm)

theorem independent_of_not_breaks
    (hb : ∀ e ∈ events, e.events.epollin = true → (outcome e.data.fd).breaks = false) :
    AllHandled outcome events ∧ OrderFree outcome events := by
  refine ⟨allHandled_of_call_mem fun e he => ?_, fun events' hp c => ?_⟩
  · rw [handle_of_not_breaks hb]
    exact List.mem_map_of_mem he
  · have hb' : ∀ e ∈ events', e.events.epollin = true → (outcome e.data.fd).breaks = false :=
      fun e he => hb e (hp.mem_iff.mpr he)
    rw [handle_of_not_breaks hb, handle_of_not_breaks hb']
    exact (hp.map _).mem_iff.symm

theorem independent_of_length_le (hlen : events.length ≤ 1) :
    AllHandled outcome events ∧ OrderFree outcome events := by
  cases events with
  | nil =>
    refine ⟨nofun, fun events' hp c => ?_⟩
    rw [List.nil_perm.mp hp]
  | cons e rest =>
    obtain rfl : rest = [] := by
      rw [List.length_cons] at hlen
      exact List.length_eq_zero_iff.mp (by omega)
    refine ⟨allHandled_of_call_mem fun x hx => ?_, fun events' hp c => ?_⟩
    · rw [List.mem_singleton.mp hx]
      exact call_mem_handle
    · rw [List.singleton_perm.mp hp]

/-- With a read that ends the loop put first, no other event is dealt with. -/
theorem length_le_of_breaks (hn : (events.map (·.data.fd)).Nodup) (hall : AllHandled outcome events)
    (hord : OrderFree outcome events) (he : e ∈ events) (hin : e.events.epollin = true)
    (hb : (outcome e.data.fd).breaks = true) : events.length ≤ 1 := by
  have hp : events.Perm (e :: events.erase e) := List.perm_cons_erase he
  have hnp : ((e :: events.erase e).map (·.data.fd)).Nodup := (hp.map _).nodup_iff.mp hn
  rw [List.map_cons, List.nodup_cons] at hnp
  have hrest : events.erase e = [] := by
    apply List.eq_nil_iff_forall_not_mem.mpr
    intro x hx
    have hne : x.data.fd ≠ e.data.fd := fun h => hnp.1 (h ▸ List.mem_map_of_mem hx)
    rcases hall x (List.mem_of_mem_erase hx) with hm | hm
    · have hc := fd_of_breaks hin hb ((hord _ hp _).mpr hm)
      simp only [Call.read.injEq, reduceCtorEq, or_false] at hc
      exact hne hc
    · have hc := fd_of_breaks hin hb ((hord _ hp _).mpr hm)
      simp only [Call.close.injEq, reduceCtorEq, false_or] at hc
      exact hne hc
  rw [hp.length_eq, hrest]
  rfl

/-- One client's event leaves another's alone exactly if the batch has one event
only or no read in it ends the loop. -/
theorem batch_independent_iff (hn : (events.map (·.data.fd)).Nodup) :
    AllHandled outcome events ∧ OrderFree outcome events ↔
      events.length ≤ 1 ∨
        ∀ e ∈ events, e.events.epollin = true → (outcome e.data.fd).breaks = false := by
  constructor
  · rintro ⟨hall, hord⟩
    by_cases hb : ∀ e ∈ events, e.events.epollin = true → (outcome e.data.fd).breaks = false
    · exact .inr hb
    · push Not at hb
      obtain ⟨e, he, hin, hbr⟩ := hb
      exact .inl (length_le_of_breaks hn hall hord he hin (Bool.eq_true_of_not_eq_false hbr))
  · rintro (hlen | hb)
    · exact independent_of_length_le hlen
    · exact independent_of_not_breaks hb

/-- Two clients with bytes to read, one of them interrupted. -/
theorem batch_independent_two_clients :
    let events : List (EpollEvent Handle) :=
      [⟨.readable, ⟨8, 0⟩⟩, ⟨⟨true, false, true, rfl⟩, ⟨9, 1⟩⟩]
    let outcome := fun fd => if fd = 8 then ReadResult.bytes 12 else .error .eintr
    AllHandled outcome events ∧ OrderFree outcome events := by
  intro events outcome
  exact (batch_independent_iff (by decide)).mpr (.inr (by decide))

/-- A client that has closed, reported before one that has sent: the second is not read. -/
theorem batch_suppressed_by_peer_close : ¬ ∀ (outcome : Int32 → ReadResult) events,
    events.length ≤ 1024 → (events.map (·.data.fd)).Nodup →
      AllHandled outcome events ∧ OrderFree outcome events := by
  intro hall
  have hboth := hall (fun fd => if fd = 8 then .bytes 0 else .bytes 12)
    [⟨.readable, ⟨8, 0⟩⟩, ⟨.readable, ⟨9, 1⟩⟩]
    (by decide) (by decide)
  have hsecond := hboth.1 ⟨.readable, ⟨9, 1⟩⟩ (by decide)
  revert hsecond
  decide

end BaseCom.Epoll
