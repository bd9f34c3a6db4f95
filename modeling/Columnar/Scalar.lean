/-
Scalars: one element with its kind, or the null that stands for a missing one.

Scalars are equal when they have one kind and the same bits, so a
not-a-number equals itself and the two zeros differ.
-/
import Columnar.Binary.Decimal
import Columnar.Primitive

namespace Columnar

/-- One element read out of a column, or null. -/
inductive Scalar where
  | null
  | int (w : Width) (v : BitVec w.bits)
  | float (p : Precision) (x : Binary p)
  | bool (b : Bool)
  | date (days : BitVec 32)
  | string (s : String)
  deriving DecidableEq, Repr

namespace Scalar

/-- The kind of the element; null has none. -/
def kind? : Scalar → Option Kind
  | null => none
  | int w _ => some (.int w)
  | float p _ => some (.float p)
  | bool _ => some .bool
  | date _ => some .date
  | string _ => some .string

def isNull : Scalar → Bool
  | null => true
  | _ => false

/-- The element as an integer, for integers, truth values and dates. -/
def toInt? : Scalar → Option Int
  | int _ v => some v.toInt
  | bool b => some (cond b 1 0)
  | date days => some days.toInt
  | _ => none

/-- The element as a double, for floats and for what is an integer. -/
def toDouble? : Scalar → Option (Binary .double)
  | float _ x => some x.toDouble
  | s => s.toInt?.map (Binary.ofInt .double)

/-- The element as text. -/
def text : Scalar → String
  | null => "NULL"
  | int _ v => toString v.toInt
  | float _ x => x.text
  | bool b => if b then "true" else "false"
  | date days => s!"date({days.toInt})"
  | string s => s

end Scalar

/-- The scalar of a plain element. -/
def Primitive.toScalar : (f : Primitive) → f.Carrier → Scalar
  | .int w, v => .int w v
  | .float p, x => .float p x
  | .bool, b => .bool b

end Columnar
