import BaseCom.Rot13.Daemon

/-! Going on with one client from wherever the server is. A client that still sends has all it
sent read and its whole reply written if it takes what comes and the event loop comes to its
socket; the other clients can be left as they are. Only a write to a connection another client
has broken could be in the way, as the end of the process. -/

namespace BaseCom.Rot13

open Transition

namespace Daemon

variable {d e : Daemon} {a : DaemonAct} {s : Socket} {b : Connection}

/-- What callbacks of one bufferevent that do not free it, and its client's taking bytes, leave
alone. -/
structure Beside (s : Socket) (d e : Daemon) : Prop where
  live : e.live = d.live
  sent : e.sent = d.sent
  peer : e.peer = d.peer
  others : ∀ c, c ≠ s.client →
    e.unread c = d.unread c ∧ e.written c = d.written c ∧ e.bev c = d.bev c

theorem Beside.refl (s : Socket) (d : Daemon) : Beside s d d :=
  ⟨rfl, rfl, rfl, fun _ _ => ⟨rfl, rfl, rfl⟩⟩

theorem Beside.trans {f : Daemon} (h : Beside s d e) (k : Beside s e f) : Beside s d f where
  live := k.live.trans h.live
  sent := k.sent.trans h.sent
  peer := k.peer.trans h.peer
  others := by
    intro c hc
    obtain ⟨hu, hw, hb⟩ := h.others c hc
    obtain ⟨ku, kw, kb⟩ := k.others c hc
    exact ⟨ku.trans hu, kw.trans hw, kb.trans hb⟩

/-- No write that is waiting is one to a broken connection. -/
def Quiet (d : Daemon) : Prop := ∀ s ∈ d.live, ¬ d.Broken s s.client

theorem Beside.quiet (h : Beside s d e) (hp : d.peer s.client ≠ .reset) (hq : d.Quiet) :
    e.Quiet := by
  rintro s' hs' ⟨hreset, hout⟩
  rw [h.live] at hs'
  rw [h.peer] at hreset
  by_cases hc : s'.client = s.client
  · rw [hc] at hreset
    exact hp hreset
  · rw [(h.others _ hc).2.2] at hout
    exact hq s' hs' ⟨hreset, hout⟩

/-- A run of such steps. -/
structure Onward (P : DaemonAct → Prop) (s : Socket) (d : Daemon) (tr : List (Daemon × DaemonAct))
    (e : Daemon) : Prop where
  run : Run daemon d tr e
  sound : e.Sound
  beside : Beside s d e
  along : Always (fun u a => (u.Sound ∧ Beside s d u) ∧ P a) tr

variable {P Q : DaemonAct → Prop} {tr ts : List (Daemon × DaemonAct)}

theorem Onward.nil (h : d.Sound) : Onward P s d [] d := ⟨.refl d, h, .refl s d, always_nil _⟩

theorem Onward.cons {f : Daemon} (h : d.Sound) (hk : daemon.step d a = some e)
    (hb : Beside s d e) (ha : P a) (k : Onward P s e ts f) : Onward P s d ((d, a) :: ts) f where
  run := (Run.single hk).trans k.run
  sound := k.sound
  beside := hb.trans k.beside
  along := by
    refine List.forall_mem_cons.mpr ⟨⟨⟨h, .refl s d⟩, ha⟩, fun p hp => ?_⟩
    obtain ⟨⟨hu, hbu⟩, hp⟩ := k.along p hp
    exact ⟨⟨hu, hb.trans hbu⟩, hp⟩

theorem Onward.trans {f : Daemon} (h : Onward P s d tr e) (k : Onward P s e ts f) :
    Onward P s d (tr ++ ts) f where
  run := h.run.trans k.run
  sound := k.sound
  beside := h.beside.trans k.beside
  along := by
    intro p hp
    rcases List.mem_append.mp hp with hp | hp
    · exact h.along p hp
    · obtain ⟨⟨hu, hbu⟩, hp⟩ := k.along p hp
      exact ⟨⟨hu, h.beside.trans hbu⟩, hp⟩

/-- A pass that does not free the bufferevent. -/
theorem Sound.pass (h : d.Sound) (hs : s ∈ d.live) {offer : ℕ} {ready : Ready ℕ}
    (hp : d.peer s.client ≠ .reset) (hfind : d.MayFind s.client ready)
    (hb : connection.step (d.bev s.client)
      (.pass offer (ready.map fun n => (d.unread s.client).take n)) = some b)
    (hopen : b.freed = none) :
    ∃ e, daemon.step d (.pass s offer ready) = some e ∧ Beside s d e ∧ e.bev s.client = b ∧
      e.unread s.client = (d.unread s.client).drop ready.count ∧
      e.written s.client = d.written s.client ++ (d.bev s.client).bev.output.take offer := by
  have halive : d.alive = true := h.tracks.alive (List.ne_nil_of_mem hs)
  have hok : d.MayFind s.client ready ∧ ¬ d.Broken s s.client := ⟨hfind, fun hbr => hp hbr.1⟩
  have hb' : (d.bev s.client).step
      (.pass offer (ready.map fun n => (d.unread s.client).take n)) = some b := hb
  have hk : daemon.step d (.pass s offer ready) = some
      { d with
        bev := Function.update d.bev s.client b
        unread := Function.update d.unread s.client ((d.unread s.client).drop ready.count)
        written := Function.update d.written s.client
          (d.written s.client ++ (d.bev s.client).bev.output.take offer) } := by
    show d.step (.pass s offer ready) = _
    simp only [Daemon.step, if_pos halive, act, callbacks, if_pos hs, h.tracks.file_of_mem hs,
      if_pos hok, hb', Option.map_some, settle, if_pos hopen]
  refine ⟨_, hk, ⟨rfl, rfl, rfl, fun c hc => ⟨?_, ?_, ?_⟩⟩, ?_, ?_, ?_⟩
  · exact Function.update_of_ne hc _ _
  · exact Function.update_of_ne hc _ _
  · exact Function.update_of_ne hc _ _
  · exact Function.update_self ..
  · exact Function.update_self ..
  · exact Function.update_self ..

/-- What is written is what the send buffer has taken. -/
structure Flow (s : Socket) (d e : Daemon) : Prop where
  sndbuf : (e.bev s.client).sndbuf = (d.bev s.client).sndbuf
  queued : (e.written s.client).length + (d.bev s.client).queued =
    (d.written s.client).length + (e.bev s.client).queued

theorem Flow.trans {f : Daemon} (h : Flow s d e) (k : Flow s e f) : Flow s d f where
  sndbuf := k.sndbuf.trans h.sndbuf
  queued := by
    have hd := h.queued
    have he := k.queued
    omega

/-- The bytes that have come are read one at a time. -/
def Reads (s : Socket) (a : DaemonAct) : Prop := ∃ offer, a = .pass s offer (.bytes 1)

end Daemon

end BaseCom.Rot13
