/-
Elements in their machine form, and their bytes in memory.

The values of a form are words of its width: signed integers as bit patterns,
floats as theirs, truth values as such. They are stored the low byte first. A
truth value is written as one byte, zero or one, and any other byte than zero
reads as true.
-/
import Columnar.Binary
import Columnar.LittleEndian

namespace Columnar

/-- The values of a machine form. -/
abbrev Primitive.Carrier : Primitive → Type
  | .int w => BitVec w.bits
  | .float p => Binary p
  | .bool => Bool

namespace Primitive

instance decidableEqCarrier : (f : Primitive) → DecidableEq f.Carrier
  | .int w => inferInstanceAs (DecidableEq (BitVec w.bits))
  | .float p => inferInstanceAs (DecidableEq (Binary p))
  | .bool => inferInstanceAs (DecidableEq Bool)

/-- The bytes of an element. -/
def encode : (f : Primitive) → f.Carrier → Bytes
  | .int w, v => LittleEndian.encode w.bytes v.toNat
  | .float p, v => LittleEndian.encode p.bytes v.bits.toNat
  | .bool, v => [cond v 1 0]

/-- The element that the bytes write. -/
def decode : (f : Primitive) → Bytes → f.Carrier
  | .int w, bytes => BitVec.ofNat w.bits (LittleEndian.decode bytes)
  | .float p, bytes => ⟨BitVec.ofNat p.bits (LittleEndian.decode bytes)⟩
  | .bool, bytes => LittleEndian.decode bytes != 0

/-- Reads the element at the start of the bytes, if there are enough of them. -/
def read? (f : Primitive) (bytes : Bytes) : Option f.Carrier :=
  if f.width ≤ bytes.length then some (f.decode (bytes.take f.width)) else none

/-- Writes an element over the start of the bytes, if there are enough of them. -/
def write? (f : Primitive) (v : f.Carrier) (bytes : Bytes) : Option Bytes :=
  if f.width ≤ bytes.length then some (f.encode v ++ bytes.drop f.width) else none

end Primitive

end Columnar
