import BaseCom.Streaming.Transducer
import Mathlib.Data.Int.Order.Basic

/-! The connection handler of the rot13 server: `do_accept` sets a connection up,
and `readcb` runs after every delivery into its input buffer. The event buffers
are byte lists with the operations `readcb` uses. Both loops of `readcb` take
bytes off the input buffer, so both come to an end, but for a line that the `int`
counting its bytes cannot count. -/

namespace BaseCom.Rot13

abbrev Bytes := List UInt8

def newline : UInt8 := '\n'.toUInt8

/-- `MAX_LINE`: high watermark of the input buffer and longest pending line. -/
def maxLine : ℕ := 16384

/-- The largest `int`. -/
def intMax : ℕ := 2147483647

/-- `FD_SETSIZE`. -/
def fdSetSize : ℤ := 1024

/-- `rot13_char`. All four ranges lie below 128, so the comparisons come out the
same whether `char` is signed or not, and neither sum leaves the byte. -/
def rot13Char (c : UInt8) : UInt8 :=
  if ('a'.toUInt8 ≤ c ∧ c ≤ 'm'.toUInt8) ∨ ('A'.toUInt8 ≤ c ∧ c ≤ 'M'.toUInt8) then c + 13
  else if ('n'.toUInt8 ≤ c ∧ c ≤ 'z'.toUInt8) ∨ ('N'.toUInt8 ≤ c ∧ c ≤ 'Z'.toUInt8) then c - 13
  else c

/-! ### Event buffers -/

/-- `evbuffer_readln` with `EVBUFFER_EOL_LF`: the bytes before the first newline,
which is dropped, and the bytes after it. -/
def evbufferReadln : Bytes → Option (Bytes × Bytes)
  | [] => none
  | b :: bs =>
    if b = newline then some ([], bs)
    else (evbufferReadln bs).map fun p => (b :: p.1, p.2)

/-- `evbuffer_remove`: at most `size` bytes off the front. -/
def evbufferRemove (size : ℕ) (buf : Bytes) : Bytes × Bytes := (buf.take size, buf.drop size)

/-- `evbuffer_add`. -/
def evbufferAdd (buf data : Bytes) : Bytes := buf ++ data

theorem evbufferReadln_none {buf : Bytes} (h : newline ∉ buf) : evbufferReadln buf = none := by
  induction buf with
  | nil => rfl
  | cons b bs ih =>
    simp only [List.mem_cons, not_or] at h
    simp only [evbufferReadln, if_neg (Ne.symm h.1), ih h.2, Option.map_none]

theorem evbufferReadln_line (line rest : Bytes) (h : newline ∉ line) :
    evbufferReadln (line ++ newline :: rest) = some (line, rest) := by
  induction line with
  | nil => simp [evbufferReadln]
  | cons b bs ih =>
    simp only [List.mem_cons, not_or] at h
    simp only [List.cons_append, evbufferReadln, if_neg (Ne.symm h.1), ih h.2, Option.map_some]

theorem evbufferReadln_length {buf line rest : Bytes} (h : evbufferReadln buf = some (line, rest)) :
    rest.length < buf.length := by
  induction buf generalizing line with
  | nil => simp [evbufferReadln] at h
  | cons b bs ih =>
    simp only [evbufferReadln] at h
    split_ifs at h with hb
    · obtain ⟨-, rfl⟩ : [] = line ∧ bs = rest := by simpa using h
      simp
    · obtain ⟨p, hp, he⟩ := Option.map_eq_some_iff.mp h
      obtain ⟨-, rfl⟩ : b :: p.1 = line ∧ p.2 = rest := by simpa using he
      have := ih hp
      rw [List.length_cons]
      omega

/-! ### The read callback -/

/-- `for (i = 0; i < n; ++i)` over a line, from `i` on. The bound is a `size_t` and the
counter an `int`: `++i` at the largest `int` is undefined. -/
def rotLoop (i : ℕ) : Bytes → Option Bytes
  | [] => some []
  | b :: line => if i = intMax then none else (rotLoop (i + 1) line).map (rot13Char b :: ·)

/-- The `evbuffer_readln` loop: each complete line goes out rotated, with its
newline put back. Returns the input and the output buffer. -/
def lineLoop (input output : Bytes) : Option (Bytes × Bytes) :=
  match _h : evbufferReadln input with
  | none => some (input, output)
  | some (line, rest) =>
    match rotLoop 0 line with
    | none => none
    | some line => lineLoop rest (evbufferAdd (evbufferAdd output line) [newline])
termination_by input.length
decreasing_by exact evbufferReadln_length _h

/-- The `evbuffer_remove` loop: the input goes out rotated, 1024 bytes at a time, which
`i` can count. -/
def drainLoop (input output : Bytes) : Bytes × Bytes :=
  if _h : input.length ≠ 0 then
    drainLoop (evbufferRemove 1024 input).2
      (evbufferAdd output ((evbufferRemove 1024 input).1.map rot13Char))
  else (input, output)
termination_by input.length
decreasing_by simp only [evbufferRemove, List.length_drop]; omega

/-- The part of a `bufferevent` the handler works on. A high watermark of zero
would mean no limit. -/
structure Bufferevent where
  input : Bytes
  output : Bytes
  wmReadLow : ℕ
  wmReadHigh : ℕ
  deriving DecidableEq

/-- `readcb`, if it comes to its end. -/
def readcb (bev : Bufferevent) : Option Bufferevent :=
  (lineLoop bev.input bev.output).map fun (input, output) =>
    if input.length ≥ maxLine then
      let (input, output) := drainLoop input output
      { bev with input := input, output := evbufferAdd output [newline] }
    else { bev with input := input, output := output }

/-- What `do_accept` does with the result of `accept`. -/
inductive AcceptOutcome
  | perror
  | close (fd : ℤ)
  | serve (bev : Bufferevent)
  deriving DecidableEq

/-- `do_accept`. A served connection starts with empty buffers and the read
watermarks zero and `MAX_LINE`; `readcb` is its read callback. -/
def doAccept (fd : ℤ) : AcceptOutcome :=
  if fd < 0 then .perror
  else if fd > fdSetSize then .close fd
  else .serve { input := [], output := [], wmReadLow := 0, wmReadHigh := maxLine }

/-- One read event: the bytes are appended to the input buffer and `readcb` runs. -/
def deliver (bev : Bufferevent) (chunk : Bytes) : Option Bufferevent :=
  readcb { bev with input := bev.input ++ chunk }

/-- What may be read from the socket in one event: something, and no more than
takes the input buffer to its high watermark. -/
def WithinWatermark (bev : Bufferevent) (chunk : Bytes) : Prop :=
  chunk ≠ [] ∧ bev.input.length + chunk.length ≤ bev.wmReadHigh

instance (bev : Bufferevent) (chunk : Bytes) : Decidable (WithinWatermark bev chunk) :=
  inferInstanceAs (Decidable (_ ∧ _))

/-- A sequence of read events the watermark allows. -/
abbrev Deliveries : Bufferevent → List Bytes → Prop :=
  Streaming.Admissible deliver WithinWatermark

/-! ### What the loops compute -/

theorem rotLoop_eq {i : ℕ} (hi : i ≤ intMax) (line : Bytes) :
    rotLoop i line = if i + line.length ≤ intMax then some (line.map rot13Char) else none := by
  induction line generalizing i with
  | nil => rw [if_pos (by simpa using hi), rotLoop, List.map_nil]
  | cons b line ih =>
    rw [rotLoop, List.length_cons]
    by_cases he : i = intMax
    · have hlong : ¬ i + (line.length + 1) ≤ intMax := by omega
      rw [if_pos he, if_neg hlong]
    · rw [if_neg he, ih (by omega), show i + 1 + line.length = i + (line.length + 1) by omega]
      split_ifs
      · rfl
      · rfl

/-- A line is rotated if its length is an `int`. -/
theorem rotLoop_line {line : Bytes} (h : line.length ≤ intMax) :
    rotLoop 0 line = some (line.map rot13Char) := by
  rw [rotLoop_eq (Nat.zero_le _), if_pos (by omega)]

theorem rotLoop_overflow {line : Bytes} (h : intMax < line.length) : rotLoop 0 line = none := by
  rw [rotLoop_eq (Nat.zero_le _), if_neg (by omega)]

theorem lineLoop_none {input : Bytes} (h : newline ∉ input) (output : Bytes) :
    lineLoop input output = some (input, output) := by
  rw [lineLoop]
  split
  · rfl
  · rename_i hs
    rw [evbufferReadln_none h] at hs
    contradiction

/-- The line loop at a complete line. -/
theorem lineLoop_cons (line rest output : Bytes) (h : newline ∉ line) :
    lineLoop (line ++ newline :: rest) output = (rotLoop 0 line).bind fun line =>
      lineLoop rest (output ++ (line ++ [newline])) := by
  rw [lineLoop]
  split
  · rename_i hs
    rw [evbufferReadln_line line rest h] at hs
    contradiction
  · rename_i hs
    rw [evbufferReadln_line line rest h, Option.some.injEq, Prod.mk.injEq] at hs
    obtain ⟨rfl, rfl⟩ := hs
    cases rotLoop 0 line with
    | none => rfl
    | some out => simp only [evbufferAdd, List.append_assoc, Option.bind_some]

theorem drainLoop_eq (input output : Bytes) :
    drainLoop input output = ([], output ++ input.map rot13Char) := by
  induction h : input.length using Nat.strongRecOn generalizing input output with
  | ind n ih =>
    rw [drainLoop]
    split_ifs with hne
    · simp only [evbufferRemove, evbufferAdd]
      rw [ih _ (by rw [List.length_drop]; omega) _ _ rfl, List.append_assoc, ← List.map_append,
        List.take_append_drop]
    · obtain rfl : input = [] := List.eq_nil_of_length_eq_zero (by omega)
      simp

/-- A complete line of the input goes out before anything else happens. -/
theorem readcb_line (bev : Bufferevent) (line rest : Bytes) (h : newline ∉ line)
    (hlen : line.length ≤ intMax) :
    readcb { bev with input := line ++ newline :: rest } =
      readcb { bev with input := rest,
                        output := bev.output ++ (line.map rot13Char ++ [newline]) } := by
  simp only [readcb, lineLoop_cons line rest bev.output h, rotLoop_line hlen, Option.bind_some]

/-- A line too long to be counted is the end of it. -/
theorem readcb_overflow (bev : Bufferevent) (line rest : Bytes) (h : newline ∉ line)
    (hlen : intMax < line.length) :
    readcb { bev with input := line ++ newline :: rest } = none := by
  simp only [readcb, lineLoop_cons line rest bev.output h, rotLoop_overflow hlen,
    Option.bind_none, Option.map_none]

/-- A short input without a newline stays where it is. -/
theorem readcb_short {bev : Bufferevent} (h : newline ∉ bev.input)
    (hlen : bev.input.length < maxLine) : readcb bev = some bev := by
  have hge : ¬ bev.input.length ≥ maxLine := by omega
  simp only [readcb, lineLoop_none h, Option.map_some, if_neg hge]

/-- A long input without a newline goes out whole, with a newline of its own. -/
theorem readcb_long {bev : Bufferevent} (h : newline ∉ bev.input)
    (hlen : maxLine ≤ bev.input.length) :
    readcb bev = some { bev with
      input := []
      output := bev.output ++ (bev.input.map rot13Char ++ [newline]) } := by
  simp only [readcb, lineLoop_none h, Option.map_some, if_pos hlen, drainLoop_eq, evbufferAdd,
    List.append_assoc]

end BaseCom.Rot13
