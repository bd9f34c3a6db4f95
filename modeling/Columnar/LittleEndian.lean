/-
Numbers as bytes, the least significant byte first.
-/
import Columnar.Utf8

namespace Columnar.LittleEndian

/-- The low `width` bytes of a number. -/
def encode : (width : Nat) → Nat → Bytes
  | 0, _ => []
  | width + 1, n => UInt8.ofNat n :: encode width (n / 256)

/-- The number the bytes write. -/
def decode : Bytes → Nat
  | [] => 0
  | b :: rest => b.toNat + 256 * decode rest

end Columnar.LittleEndian
