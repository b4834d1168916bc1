import BaseCom.Rot13.Chunking
import BaseCom.Streaming.Channel
import BaseCom.Streaming.RoundTrip
import BaseCom.Transition.Run

/-! What `readcb` does to the bytes of a connection, seen at the head of every loop
iteration and not only between the calls. Any amount may be delivered at once, beyond the
high watermark too. The connection is a channel: each iteration passes a line or a block
on through `rot13_char`, and a drained line gets a newline of the server's own. Only a
line longer than an `int` can count, far beyond the watermark, is not got through. -/

namespace BaseCom.Rot13

open Streaming Transition

/-- Outside `readcb`, before an `evbuffer_readln`, and before a test of the drain loop. -/
inductive Control
  | resting
  | lines
  | draining
  deriving DecidableEq

/-- A connection with the bytes written to its socket, in the middle of a `readcb` or not. -/
structure Serving where
  bev : Bufferevent
  socket : Bytes
  control : Control
  deriving DecidableEq

/-- Bytes arrive and `readcb` is called, some of the output buffer is written, or `readcb`
goes on. -/
inductive Move
  | read (chunk : Bytes)
  | write (n : ℕ)
  | next
  deriving DecidableEq

namespace Serving

def receive (s : Serving) (chunk : Bytes) : Serving :=
  { s with bev := { s.bev with input := s.bev.input ++ chunk }, control := .lines }

/-- To the next loop head of `readcb`, or to its end; nowhere if the counter of the
rotation loop overflows. -/
def next (s : Serving) : Option Serving :=
  match s.control with
  | .resting => none
  | .lines =>
    match evbufferReadln s.bev.input with
    | some (line, rest) =>
      (rotLoop 0 line).map fun line =>
        { s with bev := { s.bev with
            input := rest
            output := evbufferAdd (evbufferAdd s.bev.output line) [newline] } }
    | none =>
      some { s with control := if s.bev.input.length ≥ maxLine then .draining else .resting }
  | .draining =>
    if s.bev.input.length ≠ 0 then
      let (buf, rest) := evbufferRemove 1024 s.bev.input
      some { s with bev := { s.bev with input := rest
                                        output := evbufferAdd s.bev.output (buf.map rot13Char) } }
    else some { s with bev := { s.bev with output := evbufferAdd s.bev.output [newline] }
                       control := .resting }

def step (s : Serving) : Move → Option Serving
  | .read chunk => if s.control = .resting then some (s.receive chunk) else none
  | .write n =>
    if s.control = .resting ∧ 0 < n ∧ n ≤ s.bev.output.length then
      some { s with bev := { s.bev with output := (evbufferRemove n s.bev.output).2 }
                    socket := s.socket ++ (evbufferRemove n s.bev.output).1 }
    else none
  | .next => s.next

/-- All the server has written, to the socket or the output buffer. -/
def total (s : Serving) : Bytes := s.socket ++ s.bev.output

end Serving

/-- Connections from their acceptance on. -/
def serving : Lts Serving Move where
  init s := ∃ fd bev, doAccept fd = .serve bev ∧ s = ⟨bev, [], .resting⟩
  step := Serving.step

/-- The bytes delivered, the over-long drains begun, and where in the total output their
newlines are. -/
structure Account where
  delivered : Bytes
  drains : ℕ
  extra : List ℕ

/-- A drain is where control goes from the lines to draining, and ends where it goes to rest. -/
def account (s : Serving) : Move → Account → Account
  | .read chunk, h => { h with delivered := h.delivered ++ chunk }
  | .write _, h => h
  | .next, h =>
    match s.control, s.next.map Serving.control with
    | .lines, some .draining => { h with drains := h.drains + 1 }
    | .draining, some .resting => { h with extra := h.extra ++ [s.total.length] }
    | _, _ => h

/-- Connections with their account. -/
def accounted : Lts (Serving × Account) Move := serving.noting ⟨[], 0, []⟩ account

/-- Every complete line is one whose bytes an `int` can count. -/
def Fits (buf : Bytes) : Prop := ∀ line ∈ (buf.splitOn newline).dropLast, line.length ≤ intMax

namespace Serving

/-- The connection as a channel. -/
def channel (p : Serving × Account) : Channel UInt8 UInt8 :=
  ⟨p.2.delivered, p.1.bev.input, p.1.total, p.2.extra⟩

/-- Each drain has written its one newline, but for the one going on. -/
def Drained (p : Serving × Account) : Prop :=
  p.2.extra.length + (if p.1.control = .draining then 1 else 0) = p.2.drains

/-- The `readcb` called when the chunk has been read comes to its end. -/
def Returns (s : Serving) (chunk : Bytes) : Prop :=
  ∃ n t, exec serving (s.receive chunk) (List.replicate n .next) = some t ∧ t.control = .resting

/-- It does so where all its lines fit, and then where the big-step `readcb` says; where one
does not, neither comes to an end. -/
structure Called (s : Serving) (chunk : Bytes) : Prop where
  ends : Fits (s.bev.input ++ chunk) → ∃ bev n, deliver s.bev chunk = some bev ∧
    exec serving (s.receive chunk) (List.replicate n .next) = some { s with bev := bev }
  overflows : ¬ Fits (s.bev.input ++ chunk) → deliver s.bev chunk = none ∧ ¬ s.Returns chunk

end Serving

/-! ### The calls of `evbuffer_readln` and `rot13_char` -/

theorem evbufferReadln_cases (buf : Bytes) :
    (evbufferReadln buf = none ∧ newline ∉ buf) ∨
      ∃ line rest, evbufferReadln buf = some (line, rest) ∧ newline ∉ line ∧
        buf = line ++ newline :: rest := by
  by_cases h : newline ∈ buf
  · obtain ⟨line, rest, rfl, hline⟩ := List.eq_append_cons_of_mem h
    exact .inr ⟨line, rest, evbufferReadln_line line rest hline, hline, rfl⟩
  · exact .inl ⟨evbufferReadln_none h, h⟩

/-- A newline is passed on as it is. -/
theorem rot13Char_newline : rot13Char newline = newline := by decide

/-! ### Lines that can be counted -/

theorem fits_of_notMem {buf : Bytes} (h : newline ∉ buf) : Fits buf := by
  have hone : buf.splitOn newline = [buf] := List.splitOn_eq_singleton h
  rw [Fits, hone]
  exact List.forall_mem_nil _

theorem fits_line_iff {line : Bytes} (h : newline ∉ line) (rest : Bytes) :
    Fits (line ++ newline :: rest) ↔ line.length ≤ intMax ∧ Fits rest := by
  unfold Fits
  rw [splitOn_append_cons h, List.dropLast_cons_of_ne_nil (List.splitOn_ne_nil _ _),
    List.forall_mem_cons]

namespace Serving

variable {s t : Serving} {m : Move} {p q : Serving × Account}

/-! ### Where `readcb` comes to -/

theorem next_line {bev : Bufferevent} (socket : Bytes) {line rest : Bytes} (h : newline ∉ line)
    (hin : bev.input = line ++ newline :: rest) :
    next ⟨bev, socket, .lines⟩ = (rotLoop 0 line).map fun line =>
      ⟨{ bev with input := rest, output := bev.output ++ (line ++ [newline]) }, socket,
        .lines⟩ := by
  simp only [next, hin, evbufferReadln_line line rest h, evbufferAdd, List.append_assoc]

theorem next_lines_end {bev : Bufferevent} (socket : Bytes) (h : newline ∉ bev.input) :
    next ⟨bev, socket, .lines⟩ =
      some ⟨bev, socket, if bev.input.length ≥ maxLine then .draining else .resting⟩ := by
  simp only [next, evbufferReadln_none h]

theorem next_block {bev : Bufferevent} (socket : Bytes) (h : bev.input.length ≠ 0) :
    next ⟨bev, socket, .draining⟩ =
      some ⟨{ bev with input := bev.input.drop 1024
                       output := bev.output ++ (bev.input.take 1024).map rot13Char },
        socket, .draining⟩ := by
  simp only [next, if_pos h, evbufferRemove, evbufferAdd]

theorem next_drain_end {bev : Bufferevent} (socket : Bytes) (h : bev.input = []) :
    next ⟨bev, socket, .draining⟩ =
      some ⟨{ bev with output := bev.output ++ [newline] }, socket, .resting⟩ := by
  simp [next, h, evbufferAdd]

/-- To the loop head after the next. -/
theorem exec_next {u : Serving} (h : next s = some t) (n : ℕ)
    (hu : exec serving t (List.replicate n .next) = some u) :
    exec serving s (List.replicate (n + 1) .next) = some u := by
  have hk : serving.step s .next = some t := h
  rw [List.replicate_succ, exec, hk]
  exact hu

/-- What is reached is where one is, or is reached from the next loop head. -/
theorem exec_cases {n : ℕ} (h : exec serving s (List.replicate n .next) = some t) :
    t = s ∨ ∃ u m, next s = some u ∧ exec serving u (List.replicate m .next) = some t := by
  cases n with
  | zero =>
    cases h
    exact .inl rfl
  | succ m =>
    rw [List.replicate_succ, exec] at h
    obtain ⟨u, hk, hu⟩ := Option.bind_eq_some_iff.mp h
    exact .inr ⟨u, m, hk, hu⟩

/-- By induction on what is left of the input, a block at a time. -/
theorem drain_returns (bev : Bufferevent) (socket : Bytes) :
    ∃ n, exec serving ⟨bev, socket, .draining⟩ (List.replicate n .next) =
      some ⟨{ bev with input := []
                       output := bev.output ++ (bev.input.map rot13Char ++ [newline]) },
        socket, .resting⟩ := by
  induction hlen : bev.input.length using Nat.strongRecOn generalizing bev with
  | ind k ih =>
    subst hlen
    by_cases h : bev.input.length = 0
    · have hnil := List.eq_nil_of_length_eq_zero h
      refine ⟨1, exec_next (next_drain_end socket hnil) 0 ?_⟩
      rw [hnil]
      rfl
    · have hless : (bev.input.drop 1024).length < bev.input.length := by
        rw [List.length_drop]
        omega
      obtain ⟨n, hn⟩ := ih _ hless
        { bev with input := bev.input.drop 1024
                   output := bev.output ++ (bev.input.take 1024).map rot13Char } rfl
      refine ⟨n + 1, exec_next (next_block socket h) n ?_⟩
      rw [hn]
      simp only [List.append_assoc]
      rw [← List.append_assoc (List.map _ _), ← List.map_append, List.take_append_drop]

/-- By induction on the input, a line at a time. -/
theorem readcb_returns {bev : Bufferevent} (socket : Bytes) (hf : Fits bev.input) :
    ∃ bev' n, readcb bev = some bev' ∧
      exec serving ⟨bev, socket, .lines⟩ (List.replicate n .next) =
        some ⟨bev', socket, .resting⟩ := by
  induction hlen : bev.input.length using Nat.strongRecOn generalizing bev with
  | ind k ih =>
    subst hlen
    rcases evbufferReadln_cases bev.input with ⟨-, hno⟩ | ⟨line, rest, -, hline, hin⟩
    · have hend := next_lines_end socket hno
      by_cases hlong : maxLine ≤ bev.input.length
      · obtain ⟨n, hn⟩ := drain_returns bev socket
        rw [if_pos hlong] at hend
        exact ⟨_, n + 1, readcb_long hno hlong, exec_next hend n hn⟩
      · rw [if_neg hlong] at hend
        exact ⟨_, 1, readcb_short hno (Nat.lt_of_not_le hlong), exec_next hend 0 rfl⟩
    · rw [hin] at hf
      obtain ⟨hcount, hrest⟩ := (fits_line_iff hline rest).mp hf
      have hless : rest.length < bev.input.length := by
        rw [hin, List.length_append, List.length_cons]
        omega
      obtain ⟨bev', n, hb, hn⟩ := @ih _ hless
        { bev with input := rest
                   output := bev.output ++ (line.map rot13Char ++ [newline]) } hrest rfl
      have hnext := next_line socket hline hin
      rw [rotLoop_line hcount, Option.map_some] at hnext
      refine ⟨bev', n + 1, ?_, exec_next hnext n hn⟩
      rw [← hb, ← readcb_line bev line rest hline hcount, ← hin]

/-- The lines before the one that cannot be counted are got through, it is not. -/
theorem readcb_overflows {bev : Bufferevent} (socket : Bytes) (hf : ¬ Fits bev.input) :
    readcb bev = none ∧ ∀ n t, exec serving ⟨bev, socket, .lines⟩ (List.replicate n .next) =
      some t → t.control = .lines := by
  induction hlen : bev.input.length using Nat.strongRecOn generalizing bev with
  | ind k ih =>
    subst hlen
    rcases evbufferReadln_cases bev.input with ⟨-, hno⟩ | ⟨line, rest, -, hline, hin⟩
    · exact absurd (fits_of_notMem hno) hf
    · rw [hin, fits_line_iff hline rest] at hf
      have hnext := next_line socket hline hin
      have hself : bev = { bev with input := line ++ newline :: rest } := by rw [← hin]
      rcases Nat.lt_or_ge intMax line.length with hlong | hcount
      · rw [rotLoop_overflow hlong, Option.map_none] at hnext
        refine ⟨?_, fun n t ht => ?_⟩
        · rw [hself, readcb_overflow bev line rest hline hlong]
        · rcases exec_cases ht with rfl | ⟨u, m, hu, -⟩
          · rfl
          · rw [hnext] at hu
            cases hu
      · have hless : rest.length < bev.input.length := by
          rw [hin, List.length_append, List.length_cons]
          omega
        obtain ⟨hb, hn⟩ := @ih _ hless
          { bev with input := rest
                     output := bev.output ++ (line.map rot13Char ++ [newline]) }
          (fun hr => hf ⟨hcount, hr⟩) rfl
        rw [rotLoop_line hcount, Option.map_some] at hnext
        refine ⟨?_, fun n t ht => ?_⟩
        · rw [hself, readcb_line bev line rest hline hcount, hb]
        · rcases exec_cases ht with rfl | ⟨u, m, hu, ht⟩
          · rfl
          · obtain rfl := Option.some.inj (hnext.symm.trans hu)
            exact hn m t ht

theorem called (hc : s.control = .resting) (chunk : Bytes) : s.Called chunk where
  ends := by
    intro hf
    obtain ⟨bev, n, hb, hn⟩ :=
      @readcb_returns { s.bev with input := s.bev.input ++ chunk } s.socket hf
    refine ⟨bev, n, hb, ?_⟩
    rw [receive, hn, ← hc]
  overflows := by
    intro hf
    obtain ⟨hb, hn⟩ :=
      @readcb_overflows { s.bev with input := s.bev.input ++ chunk } s.socket hf
    refine ⟨hb, ?_⟩
    rintro ⟨n, t, ht, hrest⟩
    have hlines := hn n t ht
    rw [hrest] at hlines
    cases hlines

/-! ### What each step does -/

/-- One case for each way from a loop head to the next, and for what the event loop does. -/
inductive Step (bev : Bufferevent) (socket : Bytes) (h : Account) :
    Control → Move → Serving × Account → Prop
  | read (chunk : Bytes) :
      Step bev socket h .resting (.read chunk)
        (⟨{ bev with input := bev.input ++ chunk }, socket, .lines⟩,
          { h with delivered := h.delivered ++ chunk })
  | write (n : ℕ) :
      Step bev socket h .resting (.write n)
        (⟨{ bev with output := bev.output.drop n }, socket ++ bev.output.take n, .resting⟩, h)
  | line {line rest : Bytes} (hline : newline ∉ line) (hin : bev.input = line ++ newline :: rest) :
      Step bev socket h .lines .next
        (⟨{ bev with input := rest
                     output := bev.output ++ (line.map rot13Char ++ [newline]) },
          socket, .lines⟩, h)
  | rest (hno : newline ∉ bev.input) (hlen : bev.input.length < maxLine) :
      Step bev socket h .lines .next (⟨bev, socket, .resting⟩, h)
  | drain : Step bev socket h .lines .next
        (⟨bev, socket, .draining⟩, { h with drains := h.drains + 1 })
  | block :
      Step bev socket h .draining .next
        (⟨{ bev with input := bev.input.drop 1024
                     output := bev.output ++ (bev.input.take 1024).map rot13Char },
          socket, .draining⟩, h)
  | drainEnds (hin : bev.input = []) :
      Step bev socket h .draining .next
        (⟨{ bev with output := bev.output ++ [newline] }, socket, .resting⟩,
          { h with extra := h.extra ++ [(socket ++ bev.output).length] })

theorem next_cases {bev : Bufferevent} {socket : Bytes} {h : Account} {control : Control}
    (hn : next ⟨bev, socket, control⟩ = some t) :
    Step bev socket h control .next (t, account ⟨bev, socket, control⟩ .next h) := by
  cases control with
  | resting => cases hn
  | lines =>
    rcases evbufferReadln_cases bev.input with ⟨-, hno⟩ | ⟨line, rest, -, hline, hin⟩
    · have hend := next_lines_end socket hno
      by_cases hlong : maxLine ≤ bev.input.length
      · rw [if_pos hlong] at hend
        obtain rfl := Option.some.inj (hend.symm.trans hn)
        simp only [account, hend, Option.map_some]
        exact .drain
      · rw [if_neg hlong] at hend
        obtain rfl := Option.some.inj (hend.symm.trans hn)
        simp only [account, hend, Option.map_some]
        exact .rest hno (Nat.lt_of_not_le hlong)
    · have hnext := next_line socket hline hin
      rcases Nat.lt_or_ge intMax line.length with hlong | hcount
      · rw [rotLoop_overflow hlong, Option.map_none] at hnext
        rw [hnext] at hn
        cases hn
      · rw [rotLoop_line hcount, Option.map_some] at hnext
        obtain rfl := Option.some.inj (hnext.symm.trans hn)
        simp only [account, hnext, Option.map_some]
        exact .line hline hin
  | draining =>
    by_cases hin : bev.input = []
    · have hend := next_drain_end socket hin
      obtain rfl := Option.some.inj (hend.symm.trans hn)
      simp only [account, hend, Option.map_some]
      exact .drainEnds hin
    · have hnext := next_block socket (mt List.eq_nil_of_length_eq_zero hin)
      obtain rfl := Option.some.inj (hnext.symm.trans hn)
      simp only [account, hnext, Option.map_some]
      exact .block

theorem step_cases {h : Account} (hk : accounted.step (s, h) m = some q) :
    Step s.bev s.socket h s.control m q := by
  obtain ⟨hs, ha⟩ := noting_cases hk
  obtain ⟨t, g⟩ := q
  obtain ⟨bev, socket, control⟩ := s
  dsimp only at hs ha ⊢
  subst ha
  cases m with
  | read chunk =>
    simp only [serving, step] at hs
    split_ifs at hs with hc
    subst hc
    cases hs
    exact .read chunk
  | write n =>
    simp only [serving, step] at hs
    split_ifs at hs with hc
    obtain ⟨rfl, -⟩ := hc
    cases hs
    exact .write n
  | next => exact next_cases hs

/-- What holds of a connection at every loop head. -/
structure Sound (p : Serving × Account) : Prop where
  conserves : (channel p).Conserves rot13Char newline
  drained : Drained p
  wmReadHigh : p.1.bev.wmReadHigh = maxLine
  rested : p.1.control = .resting → newline ∉ p.1.bev.input ∧ p.1.bev.input.length < maxLine

theorem Step.conserves {bev : Bufferevent} {socket : Bytes} {h : Account} {control : Control}
    (hc : (channel (⟨bev, socket, control⟩, h)).Conserves rot13Char newline)
    (hst : Step bev socket h control m q) : (channel q).Conserves rot13Char newline := by
  cases hst with
  | read chunk => exact hc.take chunk
  | write n =>
    simpa only [channel, total, List.append_assoc, List.take_append_drop] using hc
  | @line line rest hline hin =>
    have hpass := hc.pass (line.length + 1)
    have happ : bev.input = (line ++ [newline]) ++ rest := by simp [hin]
    have hlen : (line ++ [newline]).length = line.length + 1 := by simp
    have htake : bev.input.take (line.length + 1) = line ++ [newline] := by
      rw [happ, List.take_left' hlen]
    have hdrop : bev.input.drop (line.length + 1) = rest := by rw [happ, List.drop_left' hlen]
    simpa only [channel, Channel.pass, total, htake, hdrop, List.map_append, List.map_cons,
      List.map_nil, rot13Char_newline, List.append_assoc] using hpass
  | rest _ _ | drain => exact hc
  | block =>
    have hpass := hc.pass 1024
    simpa only [channel, Channel.pass, total, List.append_assoc] using hpass
  | drainEnds _ =>
    have hinsert := hc.insert
    simpa only [channel, Channel.insert, total, List.append_assoc] using hinsert

theorem Step.drained {bev : Bufferevent} {socket : Bytes} {h : Account} {control : Control}
    (hd : Drained (⟨bev, socket, control⟩, h)) (hst : Step bev socket h control m q) :
    Drained q := by
  unfold Drained at hd ⊢
  cases hst with
  | read _ | write _ | line _ _ | rest _ _ | block => exact hd
  | drain | drainEnds _ =>
    simp at hd ⊢
    omega

theorem Step.rested {bev : Bufferevent} {socket : Bytes} {h : Account} {control : Control}
    (hr : control = .resting → newline ∉ bev.input ∧ bev.input.length < maxLine)
    (hst : Step bev socket h control m q) (hq : q.1.control = .resting) :
    newline ∉ q.1.bev.input ∧ q.1.bev.input.length < maxLine := by
  cases hst with
  | read _ | line _ _ | drain | block => cases hq
  | write _ => exact hr rfl
  | rest hno hlen => exact ⟨hno, hlen⟩
  | drainEnds hin =>
    show newline ∉ bev.input ∧ bev.input.length < maxLine
    rw [hin]
    decide

theorem Sound.step (hs : Sound p) (hk : accounted.step p m = some q) : Sound q := by
  obtain ⟨⟨bev, socket, control⟩, h⟩ := p
  have hst := step_cases hk
  refine ⟨hst.conserves hs.conserves, hst.drained hs.drained, ?_, hst.rested hs.rested⟩
  cases hst with
  | read _ | write _ | line _ _ | rest _ _ | drain | block | drainEnds _ => exact hs.wmReadHigh

end Serving

/-- A connection just accepted. -/
def start : Serving × Account := (⟨⟨[], [], 0, maxLine⟩, [], .resting⟩, ⟨[], 0, []⟩)

end BaseCom.Rot13
