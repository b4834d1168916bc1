import BaseCom.Wire.LittleEndian
import BaseCom.Wire.Framing

/-! The hand-off message as it lies in memory. Both threads copy the first 14
bytes of a `pipemsg` variable; the last two of its 16 bytes are padding. The
acceptor assigns the four fields of an uninitialised variable, the reader has
one variable that every read overwrites from its first byte on. -/

namespace BaseCom.Epoll

open Wire

/-- The fields of `struct pipemsg`. -/
structure Pipemsg where
  op : Int32
  fd : Int32
  ip : UInt32
  port : UInt16
  deriving DecidableEq

/-- `sizeof(pipemsg)`. -/
def sizeofPipemsg : ℕ := 16

/-- The length both threads pass to `read` and `write`. -/
def wireLen : ℕ := 14

/-- The memory of a `pipemsg` variable. -/
structure MsgMem where
  bytes : List UInt8
  size : bytes.length = sizeofPipemsg

namespace MsgMem

def zero : MsgMem := ⟨List.replicate sizeofPipemsg 0, List.length_replicate⟩

/-- Overwrite the bytes from an offset on. -/
def put (m : MsgMem) (off : ℕ) (bs : List UInt8) (h : off + bs.length ≤ sizeofPipemsg) :
    MsgMem where
  bytes := m.bytes.take off ++ (bs ++ m.bytes.drop (off + bs.length))
  size := by
    have hm := m.size
    simp only [List.length_append, List.length_take, List.length_drop]
    omega

theorem field_fits {off len : ℕ} {bs : List UInt8} (hlen : bs.length = len)
    (h : off + len ≤ sizeofPipemsg) : off + bs.length ≤ sizeofPipemsg := hlen ▸ h

/-- The bytes of a field. -/
def get (m : MsgMem) (off len : ℕ) : List UInt8 := (m.bytes.drop off).take len

/-- The variable read as a `pipemsg`, with its fields at offsets 0, 4, 8 and 12. -/
def load (m : MsgMem) : Pipemsg where
  op := int32OfBytes (m.get 0 4)
  fd := int32OfBytes (m.get 4 4)
  ip := uint32OfBytes (m.get 8 4)
  port := uint16OfBytes (m.get 12 2)

/-- The four assignments `msg.op = ..`, `msg.fd = ..`, `msg.ip = ..`, `msg.port = ..`. -/
def assign (m : MsgMem) (msg : Pipemsg) : MsgMem :=
  let m₁ := m.put 0 (int32Bytes msg.op) (field_fits (length_int32Bytes _) (by decide))
  let m₂ := m₁.put 4 (int32Bytes msg.fd) (field_fits (length_int32Bytes _) (by decide))
  let m₃ := m₂.put 8 (uint32Bytes msg.ip) (field_fits (length_uint32Bytes _) (by decide))
  m₃.put 12 (uint16Bytes msg.port) (field_fits (length_uint16Bytes _) (by decide))

/-- The bytes `write(m_wfd, &msg, 14)` copies. -/
def wire (m : MsgMem) : List UInt8 := m.bytes.take wireLen

/-! ### Offsets -/

theorem getElem?_put (m : MsgMem) (off : ℕ) (bs : List UInt8) (h : off + bs.length ≤ sizeofPipemsg)
    (i : ℕ) : (m.put off bs h).bytes[i]? =
      if i < off then m.bytes[i]?
      else if i < off + bs.length then bs[i - off]? else m.bytes[i]? := by
  have hm := m.size
  simp only [put, List.getElem?_append, List.getElem?_take, List.getElem?_drop, List.length_take]
  have hoff : min off m.bytes.length = off := by omega
  rw [hoff]
  by_cases h₁ : i < off
  · rw [if_pos h₁, if_pos h₁, if_pos h₁]
  · by_cases h₂ : i < off + bs.length
    · rw [if_neg h₁, if_neg h₁, if_pos h₂, if_pos (by omega)]
    · rw [if_neg h₁, if_neg h₁, if_neg h₂, if_neg (by omega)]
      congr 1
      omega

/-- A field reads back what was stored over it. -/
theorem get_put (m : MsgMem) (off len : ℕ) (bs : List UInt8) (h : off + bs.length ≤ sizeofPipemsg)
    (hlen : bs.length = len) : (m.put off bs h).get off len = bs := by
  apply List.ext_getElem?
  intro i
  simp only [get, List.getElem?_take, List.getElem?_drop, getElem?_put]
  by_cases hi : i < len
  · rw [if_pos hi, if_neg (by omega), if_pos (by omega), Nat.add_sub_cancel_left]
  · rw [if_neg hi, List.getElem?_eq_none (by omega)]

/-- A field away from the store keeps its value. -/
theorem get_put_of_disjoint (m : MsgMem) (off off' len : ℕ) (bs : List UInt8)
    (h : off + bs.length ≤ sizeofPipemsg) (hd : off' + len ≤ off ∨ off + bs.length ≤ off') :
    (m.put off bs h).get off' len = m.get off' len := by
  apply List.ext_getElem?
  intro i
  simp only [get, List.getElem?_take, List.getElem?_drop, getElem?_put]
  by_cases hi : i < len
  · rw [if_pos hi, if_pos hi]
    rcases hd with hd | hd
    · rw [if_pos (by omega)]
    · rw [if_neg (by omega), if_neg (by omega)]
  · rw [if_neg hi, if_neg hi]

/-- The four fields after the assignments, whatever the variable held before. -/
theorem get_assign (m : MsgMem) (msg : Pipemsg) :
    (m.assign msg).get 0 4 = int32Bytes msg.op ∧ (m.assign msg).get 4 4 = int32Bytes msg.fd ∧
      (m.assign msg).get 8 4 = uint32Bytes msg.ip ∧
      (m.assign msg).get 12 2 = uint16Bytes msg.port := by
  unfold assign
  refine ⟨?_, ?_, ?_, ?_⟩
  · rw [get_put_of_disjoint _ _ _ _ _ _ (by simp), get_put_of_disjoint _ _ _ _ _ _ (by simp),
      get_put_of_disjoint _ _ _ _ _ _ (by simp), get_put _ _ _ _ _ (length_int32Bytes _)]
  · rw [get_put_of_disjoint _ _ _ _ _ _ (by simp), get_put_of_disjoint _ _ _ _ _ _ (by simp),
      get_put _ _ _ _ _ (length_int32Bytes _)]
  · rw [get_put_of_disjoint _ _ _ _ _ _ (by simp), get_put _ _ _ _ _ (length_uint32Bytes _)]
  · rw [get_put _ _ _ _ _ (length_uint16Bytes _)]

theorem load_assign (m : MsgMem) (msg : Pipemsg) : (m.assign msg).load = msg := by
  obtain ⟨hop, hfd, hip, hport⟩ := m.get_assign msg
  unfold load
  rw [hop, hfd, hip, hport]
  simp only [int32OfBytes_int32Bytes, uint32OfBytes_uint32Bytes, uint16OfBytes_uint16Bytes]

/-- The copied bytes are the four fields, without gaps. -/
theorem wire_eq_fields (m : MsgMem) :
    m.wire = m.get 0 4 ++ (m.get 4 4 ++ (m.get 8 4 ++ m.get 12 2)) := by
  have hsplit : m.bytes.take (4 + (4 + (4 + 2))) =
      m.bytes.take 4 ++ ((m.bytes.drop 4).take 4 ++ ((m.bytes.drop (4 + 4)).take 4 ++
        (m.bytes.drop (4 + 4 + 4)).take 2)) := by
    simp only [List.take_add, List.drop_drop]
  exact hsplit

theorem wire_put (m : MsgMem) (bs : List UInt8) (h : 0 + bs.length ≤ sizeofPipemsg)
    (hlen : bs.length = wireLen) : (m.put 0 bs h).wire = bs :=
  get_put m 0 wireLen bs h hlen

end MsgMem

/-! ### The wire image -/

/-- The 14 bytes of a message on the pipe. -/
def encodeMsg (msg : Pipemsg) : List UInt8 :=
  int32Bytes msg.op ++ (int32Bytes msg.fd ++ (uint32Bytes msg.ip ++ uint16Bytes msg.port))

def decodeMsg (bs : List UInt8) : Pipemsg where
  op := int32OfBytes ((bs.drop 0).take 4)
  fd := int32OfBytes ((bs.drop 4).take 4)
  ip := uint32OfBytes ((bs.drop 8).take 4)
  port := uint16OfBytes ((bs.drop 12).take 2)

theorem length_encodeMsg (msg : Pipemsg) : (encodeMsg msg).length = wireLen := by
  simp [encodeMsg, wireLen]

theorem MsgMem.wire_assign (m : MsgMem) (msg : Pipemsg) : (m.assign msg).wire = encodeMsg msg := by
  obtain ⟨hop, hfd, hip, hport⟩ := m.get_assign msg
  rw [wire_eq_fields, hop, hfd, hip, hport, encodeMsg]

/-- Every field lies within the 14 copied bytes. -/
theorem MsgMem.load_eq_decode (m : MsgMem) : m.load = decodeMsg m.wire := by
  have hcut : ∀ off len, off + len ≤ wireLen → m.get off len = (m.wire.drop off).take len := by
    intro off len hin
    rw [get, wire, List.drop_take, List.take_take, Nat.min_eq_left (by omega)]
  unfold load decodeMsg
  rw [hcut 0 4 (by decide), hcut 4 4 (by decide), hcut 8 4 (by decide), hcut 12 2 (by decide)]

theorem decodeMsg_encodeMsg (msg : Pipemsg) : decodeMsg (encodeMsg msg) = msg := by
  rw [← MsgMem.zero.wire_assign, ← MsgMem.load_eq_decode, MsgMem.zero.load_assign]

/-- The record format of the pipe. -/
def msgCodec : Codec Pipemsg UInt8 where
  width := wireLen
  width_pos := by decide
  encode := encodeMsg
  decode := decodeMsg
  length_encode := length_encodeMsg
  decode_encode := decodeMsg_encodeMsg

end BaseCom.Epoll
