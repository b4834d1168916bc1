import Mathlib.Algebra.Order.Ring.Nat
import Mathlib.Tactic.Ring

/-! Fixed-width little-endian images of naturals and of the machine words the
wire formats use. Decoding the image of a number that fits gives it back. -/

namespace BaseCom.Wire

/-- The `w` low bytes of `n`, least significant first. -/
def toBytes : ℕ → ℕ → List UInt8
  | 0, _ => []
  | w + 1, n => UInt8.ofNat n :: toBytes w (n / 256)

/-- The number with the given little-endian bytes. -/
def ofBytes : List UInt8 → ℕ
  | [] => 0
  | b :: bs => b.toNat + 256 * ofBytes bs

@[simp] theorem length_toBytes (w n : ℕ) : (toBytes w n).length = w := by
  induction w generalizing n with
  | zero => rfl
  | succ w ih => rw [toBytes, List.length_cons, ih]

theorem ofBytes_toBytes (w n : ℕ) : ofBytes (toBytes w n) = n % 256 ^ w := by
  induction w generalizing n with
  | zero => simp only [toBytes, ofBytes, pow_zero, Nat.mod_one]
  | succ w ih =>
    have hb : (UInt8.ofNat n).toNat = n % 256 := UInt8.toNat_ofNat'
    rw [toBytes, ofBytes, ih, hb, pow_succ', Nat.mod_mul]

theorem ofBytes_toBytes_of_lt {w n : ℕ} (h : n < 256 ^ w) : ofBytes (toBytes w n) = n := by
  rw [ofBytes_toBytes, Nat.mod_eq_of_lt h]

/-! ### Machine words -/

def uint32Bytes (x : UInt32) : List UInt8 := toBytes 4 x.toNat

def uint32OfBytes (bs : List UInt8) : UInt32 := UInt32.ofNat (ofBytes bs)

def int32Bytes (x : Int32) : List UInt8 := uint32Bytes x.toUInt32

def int32OfBytes (bs : List UInt8) : Int32 := (uint32OfBytes bs).toInt32

def uint16Bytes (x : UInt16) : List UInt8 := toBytes 2 x.toNat

def uint16OfBytes (bs : List UInt8) : UInt16 := UInt16.ofNat (ofBytes bs)

@[simp] theorem length_uint32Bytes (x : UInt32) : (uint32Bytes x).length = 4 := length_toBytes _ _

@[simp] theorem length_int32Bytes (x : Int32) : (int32Bytes x).length = 4 := length_toBytes _ _

@[simp] theorem length_uint16Bytes (x : UInt16) : (uint16Bytes x).length = 2 := length_toBytes _ _

@[simp] theorem uint32OfBytes_uint32Bytes (x : UInt32) : uint32OfBytes (uint32Bytes x) = x := by
  have hx : x.toNat < 256 ^ 4 := x.toNat_lt
  rw [uint32OfBytes, uint32Bytes, ofBytes_toBytes_of_lt hx, UInt32.ofNat_toNat]

@[simp] theorem int32OfBytes_int32Bytes (x : Int32) : int32OfBytes (int32Bytes x) = x := by
  rw [int32OfBytes, int32Bytes, uint32OfBytes_uint32Bytes]
  rfl

@[simp] theorem uint16OfBytes_uint16Bytes (x : UInt16) : uint16OfBytes (uint16Bytes x) = x := by
  have hx : x.toNat < 256 ^ 2 := x.toNat_lt
  rw [uint16OfBytes, uint16Bytes, ofBytes_toBytes_of_lt hx, UInt16.ofNat_toNat]

end BaseCom.Wire
