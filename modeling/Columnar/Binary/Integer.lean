/-
Floating-point numbers as 64-bit integers.

A number is cut off toward zero. Where a signed word reaches, that is the word;
past it, the remainder by the number of words is taken, so that higher bits are dropped.
All of it is done in floating-point numbers, as far as the conversions at the end,
which hold what they are given within their range.
-/
import Columnar.Binary.Arithmetic

namespace Columnar

/-- The value without its fraction; zero for what is not finite. -/
def Datum.truncated : Datum → Int
  | finite negative m e =>
    let magnitude : Nat := m * 2 ^ e.toNat / 2 ^ (-e).toNat
    if negative then -magnitude else magnitude
  | _ => 0

namespace Binary

variable {p : Precision}

/-- Whether the number is neither an infinity nor a not-a-number. -/
def isFinite (x : Binary p) : Bool :=
  match x.datum with
  | .finite .. => true
  | _ => false

/-- The number without its sign. -/
def abs (x : Binary p) : Binary p := ofParts p false (x.bits.toNat % 2 ^ (p.bits - 1))

/-- The number without its fraction. -/
def trunc (x : Binary p) : Binary p :=
  match x.datum with
  | .finite negative m e => if 0 ≤ e then x else ofDyadic p negative (m / 2 ^ (-e).toNat) 0
  | _ => x

/-- Whether the first number is less. -/
def lt (x y : Binary p) : Bool := x.compare y == some .lt

/-- Whether the first number is less or equal. -/
def le (x y : Binary p) : Bool := x.compare y == some .lt || x.compare y == some .eq

/-- The remainder that is not negative, but for rounding: one that is has the divisor added. -/
def remEuclid (x y : Binary p) : Binary p :=
  let r := x.rem y
  if r.lt (ofInt p 0) then r.add y.abs else r

/-- The integer of a range nearest to the truncated number; zero for a not-a-number. -/
def saturate (low high : Int) (x : Binary p) : Int :=
  match x.datum with
  | .nan => 0
  | .infinite negative => if negative then low else high
  | .finite negative m e => max low (min high (Datum.finite negative m e).truncated)

/-- The number of words. The signed ones lie around zero, as many below it as not. -/
def wordSize : Int := 2 ^ Width.w64.bits

/-- As a signed word; past the ends of its range, the end. -/
def toSigned (x : Binary p) : BitVec 64 := BitVec.ofInt 64 (x.saturate (-(wordSize / 2)) (wordSize / 2 - 1))

/-- As an unsigned word; past the ends of its range, the end. -/
def toUnsigned (x : Binary p) : BitVec 64 := BitVec.ofInt 64 (x.saturate 0 (wordSize - 1))

/-- The value truncated toward zero as a 64-bit word, higher bits dropped; zero
for what is not finite. The greatest signed word rounds up. -/
def toWord (x : Binary .double) : BitVec 64 :=
  if x.isFinite then
    let whole := x.trunc
    if (ofInt .double (-(wordSize / 2))).le whole && whole.lt (ofInt .double (wordSize / 2 - 1)) then
      whole.toSigned
    else (whole.remEuclid (ofInt .double wordSize)).toUnsigned
  else 0

/-- The value truncated toward zero and wrapped into the signed 64-bit range. -/
def wrapToInt (x : Binary p) : Int := x.toDouble.toWord.toInt

end Binary

end Columnar
