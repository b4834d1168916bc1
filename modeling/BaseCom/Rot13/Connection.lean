import BaseCom.Rot13.Chunking
import BaseCom.Streaming.Buffer
import BaseCom.Transition.Run

/-! The life of a connection under the event loop. In a pass of the loop the write event comes
first: of the output buffer goes to the socket what the kernel's send buffer takes, and nothing
while it has too little room for the socket to be writable. Then the socket is read once, or
found to be at its end. What the output buffer still holds when `errorcb` frees it is gone, and
an end of file says nothing about it: the client has only stopped sending. -/

namespace BaseCom.Rot13

open Transition

/-- The flags `errorcb` looks at. -/
structure BevEvents where
  eof : Bool
  error : Bool
  timeout : Bool
  deriving DecidableEq

def eofEvent : BevEvents := ⟨true, false, false⟩

def errorEvent : BevEvents := ⟨false, true, false⟩

/-- The send buffer of a socket: its size, and the room in it from which on the socket is
writable. -/
structure SendBuffer where
  size : ℕ
  lowat : ℕ
  pos : 0 < lowat
  le : lowat ≤ size

/-- A connection, with the bytes written to its socket, how many of them are queued in the send
buffer, and the event it was freed on. The bytes `readcb` has appended are history. -/
structure Connection where
  bev : Bufferevent
  sndbuf : SendBuffer
  queued : ℕ
  socket : Bytes
  freed : Option BevEvents
  appended : Bytes

/-- What the read event of a pass finds: it is not active, or there are bytes, or the client has
shut down its sending side and all it sent is read, or the read fails. -/
inductive Ready (ρ : Type)
  | idle
  | bytes (chunk : ρ)
  | eof
  | error

/-- The client's side takes bytes off the send buffer. The event loop comes to the connection,
with how much the socket would take and what the read event finds; or it does and the write
event fails, which leaves no read event. -/
inductive Event
  | take (n : ℕ)
  | pass (offer : ℕ) (ready : Ready Bytes)
  | writeFails

/-- A connection `do_accept` has just set up. -/
def accepted (sndbuf : SendBuffer) (bev : Bufferevent) : Connection :=
  ⟨bev, sndbuf, 0, [], none, []⟩

namespace Connection

def room (c : Connection) : ℕ := c.sndbuf.size - c.queued

/-- A writable socket takes something, and no more than there is room for; one that is not
writable gets no write event. -/
def MayOffer (c : Connection) (offer : ℕ) : Prop :=
  if c.sndbuf.lowat ≤ c.room then 0 < offer ∧ offer ≤ c.room else offer = 0

instance (c : Connection) (offer : ℕ) : Decidable (c.MayOffer offer) :=
  inferInstanceAs (Decidable (ite _ _ _))

/-- The write event, which takes from the output buffer what the socket takes. -/
def writeEvent (c : Connection) (offer : ℕ) : Connection :=
  { c with bev := { c.bev with output := (evbufferRemove offer c.bev.output).2 }
           queued := c.queued + (evbufferRemove offer c.bev.output).1.length
           socket := c.socket ++ (evbufferRemove offer c.bev.output).1 }

/-- `bufferevent_free`, which discards what is pending and closes the socket. -/
def buffereventFree (c : Connection) (what : BevEvents) : Connection :=
  { c with bev := { c.bev with input := [], output := [] }, freed := some what }

/-- `errorcb`. The branches for the three flags are empty. -/
def errorcb (c : Connection) (what : BevEvents) : Connection := c.buffereventFree what

/-- The read event. -/
def readEvent (c : Connection) : Ready Bytes → Option Connection
  | .idle => some c
  | .bytes chunk =>
    if WithinWatermark c.bev chunk then
      (deliver c.bev chunk).map fun bev =>
        { c with bev := bev, appended := c.appended ++ bev.output.drop c.bev.output.length }
    else none
  | .eof => some (c.errorcb eofEvent)
  | .error => some (c.errorcb errorEvent)

def step (c : Connection) : Event → Option Connection
  | .take n => if n ≤ c.queued then some { c with queued := c.queued - n } else none
  | .pass offer ready =>
    if c.freed = none ∧ c.MayOffer offer then (c.writeEvent offer).readEvent ready else none
  | .writeFails =>
    if c.freed = none ∧ c.bev.output ≠ [] then some (c.errorcb errorEvent) else none

/-- Until it is freed, a connection has in its output buffer what it has not written. -/
structure Accounted (c : Connection) : Prop where
  pending : Pending c.bev
  sent : c.socket ++ c.bev.output = c.appended

end Connection

/-- The connections of the server, each on its own. -/
def connection : Lts Connection Event where
  init c := ∃ fd bev sndbuf, doAccept fd = .serve bev ∧ c = accepted sndbuf bev
  step := Connection.step

/-! ### What the world does in a run -/

def Event.chunk : Event → Bytes
  | .pass _ (.bytes chunk) => chunk
  | _ => []

def Event.offer : Event → ℕ
  | .pass offer _ => offer
  | _ => 0

/-- The bytes read from the socket. -/
def delivered (tr : List (Connection × Event)) : Bytes := tr.flatMap fun p => p.2.chunk

theorem delivered_append (tr ts : List (Connection × Event)) :
    delivered (tr ++ ts) = delivered tr ++ delivered ts := List.flatMap_append

theorem delivered_snoc (tr : List (Connection × Event)) (c : Connection) (a : Event) :
    delivered (tr ++ [(c, a)]) = delivered tr ++ a.chunk := by
  rw [delivered_append]
  simp [delivered]

/-- What a delivery does to both buffers. -/
theorem deliver_eq {bev : Bufferevent} (hp : Pending bev) {chunk : Bytes}
    (hok : WithinWatermark bev chunk) :
    deliver bev chunk =
      some { bev with input := (reference.run bev.input chunk).1
                      output := bev.output ++ (reference.run bev.input chunk).2 } :=
  readcb_eq_reference bev.input chunk bev hp.1.1 hp.1.2 (hp.2 ▸ hok.2)

namespace Connection

variable {c d : Connection} {a : Event}

/-- The bytes are read and replied to as the reference does. -/
def serve (c : Connection) (chunk : Bytes) : Connection :=
  { c with bev := { c.bev with input := (reference.run c.bev.input chunk).1
                               output := c.bev.output ++ (reference.run c.bev.input chunk).2 }
           appended := c.appended ++ (reference.run c.bev.input chunk).2 }

theorem readEvent_bytes (hp : Pending c.bev) {chunk : Bytes} (hok : WithinWatermark c.bev chunk) :
    c.readEvent (.bytes chunk) = some (c.serve chunk) := by
  simp only [readEvent, if_pos hok, deliver_eq hp hok, Option.map_some, List.drop_left, serve]

/-- One case for each event, with what it does to an accounted connection. -/
inductive Step (c : Connection) : Event → Connection → Prop
  | take {n : ℕ} (hn : n ≤ c.queued) : Step c (.take n) { c with queued := c.queued - n }
  | idle {offer : ℕ} (hf : c.freed = none) (ho : c.MayOffer offer) :
      Step c (.pass offer .idle) (c.writeEvent offer)
  | bytes {offer : ℕ} {chunk : Bytes} (hf : c.freed = none) (ho : c.MayOffer offer)
      (hok : WithinWatermark c.bev chunk) :
      Step c (.pass offer (.bytes chunk)) ((c.writeEvent offer).serve chunk)
  | eof {offer : ℕ} (hf : c.freed = none) (ho : c.MayOffer offer) :
      Step c (.pass offer .eof) ((c.writeEvent offer).errorcb eofEvent)
  | error {offer : ℕ} (hf : c.freed = none) (ho : c.MayOffer offer) :
      Step c (.pass offer .error) ((c.writeEvent offer).errorcb errorEvent)
  | writeFails (hf : c.freed = none) : Step c .writeFails (c.errorcb errorEvent)

theorem step_cases (hc : c.freed = none → c.Accounted) (h : c.step a = some d) : Step c a d := by
  cases a with
  | take n =>
    simp only [step] at h
    split_ifs at h with hn
    cases h
    exact .take hn
  | pass offer ready =>
    simp only [step] at h
    split_ifs at h with hok
    obtain ⟨hf, ho⟩ := hok
    cases ready with
    | idle =>
      cases h
      exact .idle hf ho
    | bytes chunk =>
      by_cases hwm : WithinWatermark c.bev chunk
      · have hp : Pending (c.writeEvent offer).bev := (hc hf).pending
        have hread := readEvent_bytes (c := c.writeEvent offer) hp hwm
        obtain rfl := Option.some.inj (hread.symm.trans h)
        exact .bytes hf ho hwm
      · have hnone : (c.writeEvent offer).readEvent (.bytes chunk) = none := if_neg hwm
        rw [hnone] at h
        cases h
    | eof =>
      cases h
      exact .eof hf ho
    | error =>
      cases h
      exact .error hf ho
  | writeFails =>
    simp only [step] at h
    split_ifs at h with hok
    cases h
    exact .writeFails hok.1

theorem Accounted.writeEvent (hc : c.Accounted) (offer : ℕ) : (c.writeEvent offer).Accounted := by
  refine ⟨hc.pending, ?_⟩
  show c.socket ++ c.bev.output.take offer ++ c.bev.output.drop offer = c.appended
  rw [List.append_assoc, List.take_append_drop, hc.sent]

theorem Accounted.serve (hc : c.Accounted) (chunk : Bytes) : (c.serve chunk).Accounted := by
  refine ⟨⟨Streaming.lineFramer_pending (by decide) hc.pending.1 _, hc.pending.2⟩, ?_⟩
  show c.socket ++ (c.bev.output ++ _) = c.appended ++ _
  rw [← hc.sent, List.append_assoc]

theorem Step.accounted (hc : c.freed = none → c.Accounted) (hst : Step c a d) :
    d.freed = none → d.Accounted := by
  intro hd
  cases hst with
  | take hn => exact ⟨(hc hd).pending, (hc hd).sent⟩
  | idle hf ho => exact (hc hf).writeEvent _
  | bytes hf ho hok => exact ((hc hf).writeEvent _).serve _
  | eof hf ho | error hf ho | writeFails hf => cases hd

/-- The send buffer is the same one, and no fuller than it is large. -/
theorem Step.queued_le (hc : c.queued ≤ c.sndbuf.size) (hst : Step c a d) :
    d.sndbuf = c.sndbuf ∧ d.queued ≤ d.sndbuf.size := by
  have hwrite : ∀ {offer}, c.MayOffer offer →
      c.queued + (c.bev.output.take offer).length ≤ c.sndbuf.size := by
    intro offer ho
    have hlen := List.length_take_le offer c.bev.output
    unfold MayOffer room at ho
    split_ifs at ho
    · omega
    · omega
  cases hst with
  | take hn =>
    refine ⟨rfl, ?_⟩
    dsimp only
    omega
  | idle hf ho | bytes hf ho hok | eof hf ho | error hf ho => exact ⟨rfl, hwrite ho⟩
  | writeFails hf => exact ⟨rfl, hc⟩

theorem Step.socket (hst : Step c a d) :
    d.socket = c.socket ++ c.bev.output.take a.offer := by
  cases hst with
  | take hn | writeFails hf =>
    simp [Event.offer, errorcb, buffereventFree]
  | idle hf ho | bytes hf ho hok | eof hf ho | error hf ho => rfl

end Connection

section Runs

variable {c₀ c : Connection} {tr : List (Connection × Event)}

/-- What `readcb` appends in a run is the output of the reference on the bytes read. -/
theorem appended_eq_reference (hi : connection.init c₀) (hr : Run connection c₀ tr c) :
    c.appended = (reference.run [] (delivered tr)).2 ∧ (c.freed = none → c.Accounted ∧
      c.bev.input = (reference.run [] (delivered tr)).1) := by
  induction hr with
  | refl =>
    obtain ⟨fd, bev, sndbuf, hb, rfl⟩ := hi
    refine ⟨rfl, fun _ => ⟨⟨pending_accept hb, ?_⟩, ?_⟩⟩
    · rw [accepted, doAccept_serve hb]
      rfl
    · rw [accepted, doAccept_serve hb]
      rfl
  | @tail c d tr a hr hk ih =>
    obtain ⟨happ, hopen⟩ := ih
    have hst := Connection.step_cases (fun hf => (hopen hf).1) hk
    have hacc := hst.accounted fun hf => (hopen hf).1
    rw [delivered_snoc]
    cases hst with
    | take hn =>
      simp only [Event.chunk, List.append_nil]
      exact ⟨happ, fun hf => ⟨hacc hf, (hopen hf).2⟩⟩
    | idle hf ho =>
      simp only [Event.chunk, List.append_nil]
      exact ⟨happ, fun hf => ⟨hacc hf, (hopen hf).2⟩⟩
    | bytes hf ho hok =>
      rw [reference.run_append, ← (hopen hf).2, ← happ]
      exact ⟨rfl, fun hf => ⟨hacc hf, rfl⟩⟩
    | eof hf ho | error hf ho | writeFails hf =>
      simp only [Event.chunk, List.append_nil]
      exact ⟨happ, fun hf => by cases hf⟩

theorem step_of_run (hi : connection.init c₀) (hr : Run connection c₀ tr c) {a : Event}
    {d : Connection} (hk : connection.step c a = some d) : Connection.Step c a d :=
  Connection.step_cases (fun hf => ((appended_eq_reference hi hr).2 hf).1) hk

theorem queued_le (hi : connection.init c₀) (hr : Run connection c₀ tr c) :
    c.sndbuf = c₀.sndbuf ∧ c.queued ≤ c.sndbuf.size := by
  induction hr with
  | refl =>
    obtain ⟨fd, bev, sndbuf, hb, rfl⟩ := hi
    exact ⟨rfl, Nat.zero_le _⟩
  | tail hr hk ih =>
    obtain ⟨hs, hle⟩ := (step_of_run hi hr hk).queued_le ih.2
    exact ⟨hs.trans ih.1, hle⟩

/-- The length of the reply to what a pass reads. -/
def replyTo (p : Connection × Event) : ℕ := (reference.run p.1.bev.input p.2.chunk).2.length

/-- The output buffer of a run is let out and fed by turns; when it is freed, what it holds
then stays unwritten. -/
theorem unwritten (hi : connection.init c₀) (hr : Run connection c₀ tr c) :
    ∃ rest, c.socket ++ rest = c.appended ∧
      rest.length = Streaming.level (fun p => p.2.offer) replyTo tr ∧
      (c.freed = none → rest = c.bev.output) := by
  induction hr with
  | refl =>
    obtain ⟨fd, bev, sndbuf, hb, rfl⟩ := hi
    refine ⟨[], rfl, rfl, fun _ => ?_⟩
    rw [accepted, doAccept_serve hb]
  | @tail c d tr a hr hk ih =>
    obtain ⟨rest, hrest, hlen, hout⟩ := ih
    have hst := step_of_run hi hr hk
    have hwrite : ∀ offer, (c.writeEvent offer).socket ++ (c.writeEvent offer).bev.output =
        c.socket ++ c.bev.output := by
      intro offer
      show c.socket ++ c.bev.output.take offer ++ c.bev.output.drop offer = _
      rw [List.append_assoc, List.take_append_drop]
    simp only [Streaming.level_snoc, ← hlen]
    cases hst with
    | take hn => exact ⟨rest, hrest, by simp [Event.offer, Event.chunk, replyTo], hout⟩
    | @idle offer hf ho =>
      obtain rfl := hout hf
      refine ⟨_, (hwrite offer).trans hrest, ?_, fun _ => rfl⟩
      simp [Event.offer, Event.chunk, replyTo, Connection.writeEvent, evbufferRemove]
    | @bytes offer chunk hf ho hok =>
      obtain rfl := hout hf
      refine ⟨_, ?_, ?_, fun _ => rfl⟩
      · show _ ++ ((c.writeEvent offer).bev.output ++ _) = c.appended ++ _
        rw [← List.append_assoc, ← hrest, ← hwrite offer]
        rfl
      · simp [Event.offer, Event.chunk, replyTo, Connection.serve, Connection.writeEvent,
          evbufferRemove]
    | @eof offer hf ho | @error offer hf ho =>
      obtain rfl := hout hf
      refine ⟨_, (hwrite offer).trans hrest, ?_, fun hd => by cases hd⟩
      simp [Event.offer, Event.chunk, replyTo, Connection.writeEvent, evbufferRemove]
    | writeFails hf =>
      exact ⟨rest, hrest, by simp [Event.offer, Event.chunk, replyTo], fun hd => by cases hd⟩

end Runs

/-! ### Lines, and an end of file -/

/-- The buffers of a connection just accepted. -/
def freshBev : Bufferevent := ⟨[], [], 0, maxLine⟩

end BaseCom.Rot13
