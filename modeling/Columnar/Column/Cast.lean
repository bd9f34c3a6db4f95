/-
Casts of whole columns.

A cast takes every element, those of null rows included, out of its form and
puts it into the form of the target. Validity is carried over as it is, so the
rows that are null stay null.
-/
import Columnar.Column
import Columnar.Kind.Cast

namespace Columnar

/-- Element bytes of one form in another form. -/
def Elements.convert (source target : Primitive) (bytes : Bytes) : Bytes :=
  (pieces source.width (bytes.length / source.width) bytes).flatMap fun piece =>
    Number.write target (Number.read source piece)

/-- The elements after a cast by a rule. -/
def Elements.cast (rule : CastRule) (source target : Kind) (e : Elements Bytes) :
    Outcome (Elements Bytes) :=
  match rule, e, source.primitive?, target.primitive? with
  | .identity, e, _, _ => .ok e
  | _, .fixed bytes, some f, some g => .ok (.fixed (convert f g bytes))
  | _, _, _, _ => refuse (.unsupportedCast source target)

/-- The rule of a cast that there is. -/
def Kind.requireCast (source target : Kind) : Outcome CastRule :=
  match source.castRule? target with
  | some rule => .ok rule
  | none => refuse (.unsupportedCast source target)

/-- The column with its elements cast to another kind. -/
def Column.cast (c : Column) (target : Kind) : Outcome Column := do
  let rule ← c.kind.requireCast target
  let elements ← c.payload.elements.cast rule c.kind target
  return { c with kind := target, payload := { c.payload with elements := elements } }

end Columnar
