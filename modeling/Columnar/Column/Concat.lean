/-
Concatenation of columns of one kind.

The result starts empty, with all its validity bits set where it has any, and
takes over the parts one after the other: elements at the end, validity bits at
the row reached so far. A part without validity bits leaves the set bits be.
-/
import Columnar.Column

namespace Columnar

/-- A concatenation under way: the rows taken over so far. -/
structure Concatenation where
  kind : Kind
  rows : Nat
  elements : Elements Buffer
  validity : Option Bitmap
  deriving DecidableEq, Repr

namespace Concatenation

/-- The shape of the whole. -/
def shape (kind : Kind) (shapes : List Shape) : Shape where
  kind := kind
  rows := total (shapes.map Shape.rows)
  nulls := total (shapes.map Shape.nulls)
  hasValidity := shapes.any Shape.hasValidity

/-- The kind that all parts have, if there are parts and they agree. -/
def requireKind : List Shape → Outcome Kind
  | [] => refuse .nothingToConcatenate
  | first :: rest =>
    match rest.find? (·.kind ≠ first.kind) with
    | some other => refuse (.wrongKind first.kind other.kind)
    | none => .ok first.kind

/-- Nothing taken over yet, of a whole that will have this shape. -/
def empty (whole : Shape) : Concatenation where
  kind := whole.kind
  rows := 0
  elements := Elements.empty whole.kind
  validity := if whole.hasValidity then some (Bitmap.allValid whole.rows) else none

/-- Sets about a whole of this shape, where storage for all its rows can be set aside. -/
def start (whole : Shape) : Outcome Concatenation := do
  Elements.requireStorage whole.kind whole.rows
  return empty whole

/-- Takes over a part of this many rows. -/
def take (c : Concatenation) (rows : Nat) (part : Payload) : Outcome Concatenation := do
  let elements ← c.elements.extend part.elements rows c.kind.stride
  let validity ← match c.validity, part.validity with
    | some mine, some theirs => some <$> Outcome.ofOption (mine.merge? c.rows theirs rows)
    | mine, _ => pure mine
  return { c with rows := c.rows + rows, elements := elements, validity := validity }

def payload (c : Concatenation) : Payload := ⟨c.elements.finish, c.validity⟩

end Concatenation

/-- The rows of the columns, one column after the other. -/
def Column.concat (columns : List Column) : Outcome Column := do
  let kind ← Concatenation.requireKind (columns.map Column.shape)
  let whole := Concatenation.shape kind (columns.map Column.shape)
  let taken ← columns.foldlM (fun c part => c.take part.rows part.payload)
    (← Concatenation.start whole)
  return whole.column taken.payload

end Columnar
