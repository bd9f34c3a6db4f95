/-
Binary floating-point numbers, bit for bit.

A number of a precision is its bit pattern. `Binary.datum` reads the pattern
as a sign, a significand and an exponent of two; `Binary.ofDyadic` gives the
pattern nearest to such a value, ties to the even significand. Every operation
here computes the exact result with integers and rounds once, so each is the
correctly rounded one.
-/
import Columnar.Kind
import Columnar.Size

namespace Columnar

/-- A floating-point number of a precision, as its bit pattern. -/
structure Binary (p : Precision) where
  bits : BitVec p.bits
  deriving DecidableEq, Repr

/-- What a bit pattern stands for. A finite datum is plus or minus
`significand * 2 ^ exponent`. -/
inductive Datum where
  | nan
  | infinite (negative : Bool)
  | finite (negative : Bool) (significand : Nat) (exponent : Int)
  deriving DecidableEq, Repr

namespace Precision

/-- The exponent of the least positive number, which every finite number is a
multiple of. -/
def leastExponent (p : Precision) : Int := 2 - 2 ^ (p.exponentBits - 1) - p.fractionBits

/-- The magnitude bits of an infinity: the exponent is all ones and the fraction zero. -/
def infinityBits (p : Precision) : Nat := (2 ^ p.exponentBits - 1) * 2 ^ p.fractionBits

end Precision

namespace Binary

variable {p : Precision}

/-- The sign and the magnitude bits put together. -/
def ofParts (p : Precision) (negative : Bool) (magnitude : Nat) : Binary p :=
  ⟨BitVec.ofNat p.bits (cond negative (2 ^ (p.bits - 1)) 0 + magnitude)⟩

def infinity (p : Precision) (negative : Bool) : Binary p := ofParts p negative p.infinityBits

/-- The quiet not-a-number with no further payload. -/
def nan (p : Precision) : Binary p := ofParts p false (p.infinityBits + 2 ^ (p.fractionBits - 1))

/-- What the bit pattern stands for. -/
def datum (x : Binary p) : Datum :=
  let negative := x.bits.msb
  let magnitude := x.bits.toNat % 2 ^ (p.bits - 1)
  let fraction := magnitude % 2 ^ p.fractionBits
  let exponent := magnitude / 2 ^ p.fractionBits
  if exponent = 2 ^ p.exponentBits - 1 then
    if fraction = 0 then .infinite negative else .nan
  else if exponent = 0 then .finite negative fraction p.leastExponent
  else .finite negative (2 ^ p.fractionBits + fraction) (p.leastExponent + exponent - 1)

def isNaN (x : Binary p) : Bool := x.datum == .nan

/-- Whether the number is a zero of either sign. -/
def isZero (x : Binary p) : Bool := x.bits.toNat % 2 ^ (p.bits - 1) == 0

/-- The quotient by `2 ^ k`, to nearest and ties to even. -/
def roundShift (m k : Nat) : Nat :=
  let q := m / 2 ^ k
  let r := m % 2 ^ k
  if 2 ^ k < 2 * r || (2 * r = 2 ^ k && q % 2 = 1) then q + 1 else q

/-- The significand of `m * 2 ^ e` as a multiple of `2 ^ e'`. -/
def rescale (m : Nat) (e e' : Int) : Nat :=
  if e' ≤ e then m * 2 ^ (e - e').toNat else roundShift m (e' - e).toNat

/-- The number nearest to plus or minus `m * 2 ^ e`, ties to the even
significand; past the greatest number it is an infinity.

The unit of the result is the one that leaves the significand its full length,
but no less than that of the least number. A significand that rounds up to the
next power of two carries into the exponent by itself. -/
def ofDyadic (p : Precision) (negative : Bool) (m : Nat) (e : Int) : Binary p :=
  if m = 0 then ofParts p negative 0
  else
    let unit := max p.leastExponent (e + m.log2 - p.fractionBits)
    let magnitude := rescale m e unit + (unit - p.leastExponent).toNat * 2 ^ p.fractionBits
    ofParts p negative (min magnitude p.infinityBits)

/-- The number nearest to an integer. -/
def ofInt (p : Precision) (x : Int) : Binary p := ofDyadic p (decide (x < 0)) x.natAbs 0

/-- The nearest number of another precision. -/
def resize (q : Precision) (x : Binary p) : Binary q :=
  match x.datum with
  | .nan => nan q
  | .infinite negative => infinity q negative
  | .finite negative m e => ofDyadic q negative m e

/-- The same number in double precision, which holds every number exactly. -/
def toDouble : {p : Precision} → Binary p → Binary .double
  | .single, x => x.resize .double
  | .double, x => x

/-- The nearest number to a double. -/
def ofDouble : (p : Precision) → Binary .double → Binary p
  | .single, x => x.resize .single
  | .double, x => x

end Binary

end Columnar
