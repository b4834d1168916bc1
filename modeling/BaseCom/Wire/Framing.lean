import Mathlib.Data.List.Basic
import Mathlib.Algebra.Order.Ring.Nat

/-! Records of one fixed width sent over a byte stream. A stream that carries
whole records is the concatenation of their images; cutting one width off its
front takes the oldest record, and appending an image adds the newest. -/

namespace BaseCom.Wire

/-- An encoding into a fixed positive number of symbols, with its inverse. -/
structure Codec (μ β : Type*) where
  width : ℕ
  width_pos : 0 < width
  encode : μ → List β
  decode : List β → μ
  length_encode : ∀ m, (encode m).length = width
  decode_encode : ∀ m, decode (encode m) = m

namespace Codec

variable {μ β : Type*} (C : Codec μ β)

/-- The stream that carries the records in order. -/
def stream (ms : List μ) : List β := (ms.map C.encode).flatten

/-- The records of a stream cut into blocks of the record width. -/
def unframe (bs : List β) : List μ :=
  (List.range (bs.length / C.width)).map fun i => C.decode ((bs.drop (i * C.width)).take C.width)

@[simp] theorem stream_nil : C.stream [] = [] := rfl

theorem stream_cons (m : μ) (ms : List μ) : C.stream (m :: ms) = C.encode m ++ C.stream ms := by
  simp [stream]

theorem stream_append (ms ns : List μ) : C.stream (ms ++ ns) = C.stream ms ++ C.stream ns := by
  simp [stream]

theorem stream_singleton (m : μ) : C.stream [m] = C.encode m := by simp [stream]

theorem length_stream (ms : List μ) : (C.stream ms).length = ms.length * C.width := by
  induction ms with
  | nil => simp
  | cons m ms ih =>
    rw [stream_cons, List.length_append, C.length_encode, ih, List.length_cons, Nat.succ_mul,
      Nat.add_comm]

theorem width_dvd_length_stream (ms : List μ) : C.width ∣ (C.stream ms).length := by
  rw [length_stream]
  exact Nat.dvd_mul_left _ _

theorem stream_eq_nil {ms : List μ} : C.stream ms = [] ↔ ms = [] := by
  have hw := C.width_pos
  rw [← List.length_eq_zero_iff, length_stream, Nat.mul_eq_zero, List.length_eq_zero_iff]
  constructor
  · rintro (h | h)
    · exact h
    · omega
  · exact .inl

theorem take_stream_cons (m : μ) (ms : List μ) :
    (C.stream (m :: ms)).take C.width = C.encode m := by
  rw [stream_cons, ← C.length_encode m, List.take_left']
  rfl

theorem drop_stream_cons (m : μ) (ms : List μ) :
    (C.stream (m :: ms)).drop C.width = C.stream ms := by
  rw [stream_cons, ← C.length_encode m, List.drop_left']
  rfl

theorem unframe_stream (ms : List μ) : C.unframe (C.stream ms) = ms := by
  induction ms with
  | nil => simp [unframe]
  | cons m ms ih =>
    have hlen : (C.stream (m :: ms)).length / C.width = ms.length + 1 := by
      rw [length_stream, List.length_cons, Nat.mul_div_cancel _ C.width_pos]
    have hlen' : (C.stream ms).length / C.width = ms.length := by
      rw [length_stream, Nat.mul_div_cancel _ C.width_pos]
    have hdrop : ∀ i, (C.stream (m :: ms)).drop ((i + 1) * C.width) =
        (C.stream ms).drop (i * C.width) := by
      intro i
      rw [Nat.succ_mul, Nat.add_comm, ← List.drop_drop, drop_stream_cons]
    rw [unframe, hlen, List.range_succ_eq_map, List.map_cons, List.map_map]
    rw [unframe, hlen'] at ih
    simp only [Nat.zero_mul, List.drop_zero, take_stream_cons, C.decode_encode,
      Function.comp_def, Nat.succ_eq_add_one, hdrop, ih]

end Codec

end BaseCom.Wire
