/-
The cast matrix: which kinds convert into which, and by what rule.

Every kind of fixed width converts into every other, and a kind always
converts into itself; text converts into nothing else and nothing else into
text.
-/
import Columnar.Kind

namespace Columnar

/-- How one element changes in a cast. -/
inductive CastRule where
  /-- The same kind: the bytes are kept. -/
  | identity
  /-- To a wider integer: the sign is extended. -/
  | widen
  /-- To a narrower integer: the high bits are dropped. -/
  | truncate
  /-- Between a date and an integer: the day count is kept, then widened or
  truncated as a 32-bit integer is. -/
  | reinterpret
  /-- From an integer or a date, to the nearest float. -/
  | intToFloat
  /-- Toward zero, then modulo the width of the target; never clamped. -/
  | floatToInt
  /-- To the nearest float of the other precision. -/
  | floatResize
  /-- False is zero and true is one. -/
  | boolToNumber
  /-- All but zero is true. -/
  | numberToBool
  deriving DecidableEq, Repr

namespace CastRule

/-- Every rule. -/
def all : List CastRule :=
  [identity, widen, truncate, reinterpret, intToFloat, floatToInt, floatResize, boolToNumber,
    numberToBool]

/-- The name under which a rule is written down and read back. -/
def name : CastRule → String
  | identity => "Identity"
  | widen => "Widen"
  | truncate => "Truncate"
  | reinterpret => "Reinterpret"
  | intToFloat => "IntToFloat"
  | floatToInt => "FloatToInt"
  | floatResize => "FloatResize"
  | boolToNumber => "BoolToNumber"
  | numberToBool => "NumberToBool"

def ofName? (s : String) : Option CastRule := all.find? (·.name == s)

end CastRule

/-- The rule for a cast, or `none` where there is no such cast. -/
def Kind.castRule? (source target : Kind) : Option CastRule :=
  if source = target then some .identity
  else match source, target with
    | .string, _ => none
    | _, .string => none
    | .date, .int _ => some .reinterpret
    | .int _, .date => some .reinterpret
    | .int v, .int w => some (if v.bytes < w.bytes then .widen else .truncate)
    | .int _, .float _ => some .intToFloat
    | .date, .float _ => some .intToFloat
    | .float _, .int _ => some .floatToInt
    | .float _, .date => some .floatToInt
    | .float _, .float _ => some .floatResize
    | .bool, _ => some .boolToNumber
    | _, .bool => some .numberToBool
    | .date, .date => some .identity

end Columnar
