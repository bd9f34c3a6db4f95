/-
Reading vectors in a session.

Each read checks what can be checked without the data first, and brings the
data to the host only then. The shape of a vector, and that a vector without
validity bits has no nulls, is known without its data.
-/
import Columnar.Session

namespace Columnar.Action

/-- What is told of a vector. -/
def info (v : String) : Action VectorInfo := return (← storage v).2.info

/-- Whether row `i` is null. -/
def isNull (v : String) (i : Nat) : Action Bool := do
  let shape ← shape v
  (shape.checkIndex i).act
  if !shape.hasValidity then return false
  ((← materialize v).isNull i).act

/-- Whether bit `i` of the validity bits is clear, where the bits past the last
row count too. -/
def isNullExtended (v : String) (i : Nat) : Action Bool := do
  if !(← shape v).hasValidity then return false
  match (← materialize v).validity with
  | none => return false
  | some bits =>
    if i < bits.capacity then return !bits.isSet i
    else (refuse (.indexOutOfRange i bits.capacity)).act

/-- The number of validity bits there is room for. -/
def validityBits (v : String) : Action (Option Nat) := do
  if !(← shape v).hasValidity then return none
  return (← materialize v).validity.map Bitmap.capacity

/-- The element of a form at row `i`; at a null row it means nothing. -/
def element (v : String) (f : Primitive) (i : Nat) : Action f.Carrier := do
  let shape ← shape v
  (shape.checkIndex i).act
  (shape.checkForm f).act
  ((← materialize v).element f i).act

/-- The string at row `i`; at a null row it is empty. -/
def text (v : String) (i : Nat) : Action String := do
  let shape ← shape v
  (shape.checkIndex i).act
  ((← materialize v).text shape.kind i).act

/-- The scalar at row `i`. -/
def scalar (v : String) (i : Nat) : Action Scalar := do
  let shape ← shape v
  (shape.checkIndex i).act
  ((shape.column (← materialize v)).scalar i).act

/-- The elements of `count` rows from `start` on, `none` for null rows. -/
def scanRows (v : String) (f : Primitive) (start : Nat) :
    (count : Nat) → Action (List (Option f.Carrier))
  | 0 => return []
  | count + 1 => do
    let first ← if ← isNull v start then pure none else some <$> element v f start
    return first :: (← scanRows v f (start + 1) count)

/-- The bytes of a row in the answer of a scan: an element and the mark that it
is there, for which a truth value has bits to spare. -/
def slotWidth : Primitive → Nat
  | .int w => 2 * w.bytes
  | .float p => 2 * p.bytes
  | .bool => 1

/-- The elements of `count` rows from `start` on. The range is checked first,
and then that an answer of its length can be. -/
def scan (v : String) (f : Primitive) (start count : Nat) :
    Action (List (Option f.Carrier)) := do
  ((← shape v).checkRange start count).act
  if maxSize < count * slotWidth f then throw (.fault .outOfBounds)
  scanRows v f start count

/-- The scalars of `count` rows from `start` on. -/
def scalars (v : String) (start : Nat) : (count : Nat) → Action (List Scalar)
  | 0 => return []
  | count + 1 => return (← scalar v start) :: (← scalars v (start + 1) count)

/-- The raw content of a vector. -/
def view (v : String) : Action View := do
  let shape ← shape v
  return (shape.column (← materialize v)).view

end Columnar.Action
