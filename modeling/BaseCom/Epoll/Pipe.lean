import BaseCom.Transition.Run
import BaseCom.Epoll.Message

/-! The pipe between the two threads, byte by byte. The writer copies 14 bytes of
a message variable per write, all or nothing; the reader polls with a
non-blocking read of 14 bytes into its own variable and then judges the return
value and the descriptor field. Interleaved in any order, the reader decodes a
prefix of what was written and the pipe holds the images of the rest. -/

namespace BaseCom.Epoll

open Transition Wire

/-- A non-blocking `read(m_rfd, &msg, 14)`: the return value, the bytes left in
the pipe and the message variable. -/
def readMsg (pipe : List UInt8) (msg : MsgMem) : ℤ × List UInt8 × MsgMem :=
  if pipe = [] then (-1, pipe, msg)
  else
    ((pipe.take wireLen).length, pipe.drop wireLen,
      msg.put 0 (pipe.take wireLen) (by
        have h : (pipe.take wireLen).length ≤ wireLen := List.length_take_le _ _
        unfold wireLen sizeofPipemsg at *
        omega))

/-- The branches of `ReadPipe` between the read and the test of `op`. -/
inductive Verdict
  | again
  | notFourteen
  | badFd
  | message (msg : Pipemsg)
  deriving DecidableEq

def verdict (ret : ℤ) (msg : Pipemsg) : Verdict :=
  if ret ≤ 0 then .again
  else if 14 ≠ ret then .notFourteen
  else if msg.fd ≤ 0 then .badFd
  else .message msg

/-- Whether `ReadPipe` is in its loop, or by which branch it returned. -/
inductive ReadStatus
  | looping
  | notFourteen
  | badFd
  deriving DecidableEq

/-- The pipe, the reader's message variable and status, and the messages written
and decoded so far. -/
structure Handoff where
  pipe : List UInt8
  msg : MsgMem
  status : ReadStatus
  sent : List Pipemsg
  decoded : List Pipemsg

namespace Handoff

/-- A successful `write(m_wfd, &msg, 14)`, after the fields of the variable
`garbage` were assigned. -/
def write (h : Handoff) (msg : Pipemsg) (garbage : MsgMem) : Handoff :=
  { h with pipe := h.pipe ++ (garbage.assign msg).wire, sent := h.sent ++ [msg] }

/-- The head of the reader's loop. -/
def read (h : Handoff) : Verdict × Handoff :=
  let (ret, pipe, msg) := readMsg h.pipe h.msg
  match verdict ret msg.load with
  | .again => (.again, { h with pipe := pipe, msg := msg })
  | .notFourteen =>
    (.notFourteen, { h with pipe := pipe, msg := msg, status := .notFourteen })
  | .badFd =>
    (.badFd, { h with pipe := pipe, msg := msg, status := .badFd,
                      decoded := h.decoded ++ [msg.load] })
  | .message m =>
    (.message m, { h with pipe := pipe, msg := msg, decoded := h.decoded ++ [m] })

/-- A read changes the status only by the branches that return. -/
theorem read_status (h : Handoff) :
    h.read.2.status = h.status ∨ h.read.1 = .notFourteen ∨ h.read.1 = .badFd := by
  simp only [read]
  split
  · exact .inl rfl
  · exact .inr (.inl rfl)
  · exact .inr (.inr rfl)
  · exact .inl rfl

/-- The pipe holds exactly the messages written and not yet decoded, and the
reader has not met a short message. -/
def Framed (h : Handoff) (unread : List Pipemsg) : Prop :=
  h.sent = h.decoded ++ unread ∧ h.pipe = msgCodec.stream unread ∧ h.status ≠ .notFourteen

theorem write_framed {h : Handoff} {unread : List Pipemsg} (hf : h.Framed unread) (msg : Pipemsg)
    (garbage : MsgMem) : (h.write msg garbage).Framed (unread ++ [msg]) := by
  obtain ⟨hs, hp, hst⟩ := hf
  refine ⟨?_, ?_, hst⟩
  · simp only [write, hs, List.append_assoc]
  · simp only [write, hp, MsgMem.wire_assign, msgCodec.stream_append, msgCodec.stream_singleton]
    rfl

/-- Nothing unread: the poll comes back empty-handed. -/
theorem read_nil {h : Handoff} (hf : h.Framed []) : h.read = (.again, h) := by
  have hp : h.pipe = [] := hf.2.1
  simp only [read, readMsg, if_pos hp, verdict]
  rfl

/-- The read that takes the oldest message. -/
theorem read_cons {h : Handoff} {m : Pipemsg} {ms : List Pipemsg} (hf : h.Framed (m :: ms)) :
    ∃ mem : MsgMem, h.read =
      if m.fd ≤ 0 then
        (.badFd, { h with pipe := msgCodec.stream ms, msg := mem, status := .badFd,
                          decoded := h.decoded ++ [m] })
      else
        (.message m, { h with pipe := msgCodec.stream ms, msg := mem,
                              decoded := h.decoded ++ [m] }) := by
  have hne : h.pipe ≠ [] := by
    rw [hf.2.1, Ne, msgCodec.stream_eq_nil]
    exact List.cons_ne_nil _ _
  have htake : h.pipe.take wireLen = encodeMsg m := by
    rw [hf.2.1]
    exact msgCodec.take_stream_cons m ms
  have hdrop : h.pipe.drop wireLen = msgCodec.stream ms := by
    rw [hf.2.1]
    exact msgCodec.drop_stream_cons m ms
  have hlen : (h.pipe.take wireLen).length = wireLen := by rw [htake, length_encodeMsg]
  have hfit : 0 + (h.pipe.take wireLen).length ≤ sizeofPipemsg := by rw [hlen]; decide
  have hload : (h.msg.put 0 (h.pipe.take wireLen) hfit).load = m := by
    rw [MsgMem.load_eq_decode, MsgMem.wire_put _ _ _ hlen, htake, decodeMsg_encodeMsg]
  refine ⟨h.msg.put 0 (h.pipe.take wireLen) hfit, ?_⟩
  have hret : ((h.pipe.take wireLen).length : ℤ) = 14 := by rw [hlen]; rfl
  simp only [read, readMsg, if_neg hne, hret, hload, hdrop, verdict]
  by_cases hfd : m.fd ≤ 0
  · simp [hfd]
  · simp [hfd]

theorem framed_read {h : Handoff} {unread : List Pipemsg} (hf : h.Framed unread) :
    ∃ rest, (unread = [] ∧ rest = [] ∨ ∃ m, unread = m :: rest) ∧ h.read.2.Framed rest := by
  cases unread with
  | nil => exact ⟨[], .inl ⟨rfl, rfl⟩, by rwa [read_nil hf]⟩
  | cons m ms =>
    obtain ⟨mem, hr⟩ := read_cons hf
    have hsent : h.sent = h.decoded ++ [m] ++ ms := by rw [hf.1, List.append_assoc]; rfl
    refine ⟨ms, .inr ⟨m, rfl⟩, ?_⟩
    rw [hr]
    split
    · exact ⟨hsent, rfl, by simp⟩
    · exact ⟨hsent, rfl, hf.2.2⟩

end Handoff

/-! ### Runs of writer and reader -/

/-- One step of either thread. The failing ones are a write that returns an error
and a read that is interrupted. -/
inductive HandoffAct
  | write (msg : Pipemsg) (garbage : MsgMem)
  | writeFails
  | read
  | readFails

def handoffStep (h : Handoff) : HandoffAct → Option Handoff
  | .write msg garbage => some (h.write msg garbage)
  | .writeFails => some h
  | .read => if h.status = .looping then some h.read.2 else none
  | .readFails => if h.status = .looping then some h else none

/-- Any writer, which writes any messages, and the reader. -/
def handoff : Lts Handoff HandoffAct where
  init h := h.pipe = [] ∧ h.status = .looping ∧ h.sent = [] ∧ h.decoded = []
  step := handoffStep

theorem handoffStep_framed (h : Handoff) (a : HandoffAct) (k : Handoff)
    (hf : ∃ unread, h.Framed unread) (hs : handoffStep h a = some k) :
    ∃ unread, k.Framed unread := by
  obtain ⟨unread, hf⟩ := hf
  cases a with
  | write msg garbage =>
    obtain rfl : h.write msg garbage = k := Option.some.inj hs
    exact ⟨_, Handoff.write_framed hf msg garbage⟩
  | writeFails =>
    obtain rfl : h = k := Option.some.inj hs
    exact ⟨_, hf⟩
  | read =>
    simp only [handoffStep] at hs
    split_ifs at hs
    obtain rfl : h.read.2 = k := Option.some.inj hs
    obtain ⟨rest, -, hr⟩ := Handoff.framed_read hf
    exact ⟨rest, hr⟩
  | readFails =>
    simp only [handoffStep] at hs
    split_ifs at hs
    obtain rfl : h = k := Option.some.inj hs
    exact ⟨_, hf⟩

theorem handoff_framed {h : Handoff} (hr : Reachable handoff h) : ∃ unread, h.Framed unread := by
  refine hr.invariant ?_ handoffStep_framed
  rintro k ⟨hp, hst, hs, hd⟩
  exact ⟨[], by simp [hs, hd], by rw [hp]; rfl, by simp [hst]⟩

/-- At every moment the decoded messages are a prefix of the written ones, equal
field by field; the pipe holds the images of the others and nothing else, so its
length is a multiple of 14 and the reader never meets a short message. Each of
the four fields is decided by the 14 bytes that are copied. -/
theorem handoff_lossless {h : Handoff} (hr : Reachable handoff h) :
    h.decoded <+: h.sent ∧
      h.pipe = msgCodec.stream (h.sent.drop h.decoded.length) ∧
      14 ∣ h.pipe.length ∧ h.status ≠ .notFourteen ∧
      ∀ m m' : MsgMem, m.wire = m'.wire → m.load = m'.load := by
  obtain ⟨unread, hs, hp, hst⟩ := handoff_framed hr
  refine ⟨⟨unread, hs.symm⟩, ?_, ?_, hst, ?_⟩
  · rw [hs, List.drop_left, hp]
  · rw [hp]
    exact msgCodec.width_dvd_length_stream unread
  · intro m m' hw
    rw [m.load_eq_decode, m'.load_eq_decode, hw]

/-- Two messages written, one of them read. -/
theorem handoff_lossless_one_read :
    let start : Handoff := ⟨[], .zero, .looping, [], []⟩
    let h := ((start.write ⟨1, 9, 16777343, 4660⟩ .zero).write ⟨1, -7, 4294967295, 0⟩ .zero).read.2
    h.decoded <+: h.sent ∧ h.decoded = [⟨1, 9, 16777343, 4660⟩] ∧ h.pipe.length = 14 := by
  intro start h
  have h₀ : Reachable handoff start := .of_init ⟨rfl, rfl, rfl, rfl⟩
  have h₁ := h₀.trans (.single (a := .write ⟨1, 9, 16777343, 4660⟩ .zero) rfl)
  have h₂ := h₁.trans (.single (a := .write ⟨1, -7, 4294967295, 0⟩ .zero) rfl)
  have h₃ := h₂.trans (.single (a := .read) (t := h) (by simp only [handoff, handoffStep]; rfl))
  exact ⟨(handoff_lossless h₃).1, by decide +kernel, by decide +kernel⟩

end BaseCom.Epoll
