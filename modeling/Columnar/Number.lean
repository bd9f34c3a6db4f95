/-
Numbers between forms.

Casts and arithmetic take an element out of its form into a number, which is
an integer without bounds or a double, and put the result into the form that
is wanted: integers keep their low bits, floats are rounded to nearest, and
truth values tell whether the number is zero.
-/
import Columnar.Binary.Integer
import Columnar.Scalar

namespace Columnar

/-- An element out of its form. -/
inductive Number where
  | int (v : Int)
  | float (x : Binary .double)
  deriving DecidableEq, Repr

namespace Number

/-- The integer part, wrapped into 64 bits if it comes from a float. -/
def toInt : Number → Int
  | int v => v
  | float x => x.wrapToInt

/-- The nearest double. -/
def toDouble : Number → Binary .double
  | int v => Binary.ofInt .double v
  | float x => x

/-- The nearest float of a precision, by one rounding. -/
def toBinary (p : Precision) : Number → Binary p
  | int v => Binary.ofInt p v
  | float x => Binary.ofDouble p x

def isZero : Number → Bool
  | int v => v == 0
  | float x => x.isZero

/-- Takes an element out of its form. -/
def ofElement : (f : Primitive) → f.Carrier → Number
  | .int _, v => .int v.toInt
  | .float _, x => .float x.toDouble
  | .bool, b => .int (cond b 1 0)

/-- Puts a number into a form. -/
def toElement : (f : Primitive) → Number → f.Carrier
  | .int w, n => BitVec.ofInt w.bits n.toInt
  | .float p, n => n.toBinary p
  | .bool, n => !n.isZero

/-- Reads the number an element's bytes stand for. -/
def read (f : Primitive) (bytes : Bytes) : Number := ofElement f (f.decode bytes)

/-- The bytes of a number put into a form. -/
def write (f : Primitive) (n : Number) : Bytes := f.encode (n.toElement f)

/-- What is left of a number once it has been put into a form. -/
def coerce (f : Primitive) (n : Number) : Number := ofElement f (n.toElement f)

/-- The number a scalar stands for; null and text stand for none. -/
def ofScalar? : Scalar → Option Number
  | .float p x => (Scalar.float p x).toDouble?.map float
  | s => s.toInt?.map int

end Number

end Columnar
