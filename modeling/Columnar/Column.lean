/-
Columns: rows of one kind, some of them null, as they lie in host memory.

The elements are kept with a validity bitmap that tells which rows are null; a
column without one has no nulls. The number of nulls is kept too.

What can be read is checked in a fixed order: the index, then the form that is
asked for, and only then the bytes.
-/
import Columnar.Bitmap
import Columnar.Elements
import Columnar.Number

namespace Columnar

/-- What a column holds. -/
structure Payload where
  elements : Elements Bytes
  validity : Option Bitmap
  deriving DecidableEq, Repr

/-- What is known of a column without looking at what it holds. -/
structure Shape where
  kind : Kind
  rows : Nat
  nulls : Nat
  hasValidity : Bool
  deriving DecidableEq, Repr

/-- A column in host memory. -/
structure Column where
  kind : Kind
  rows : Nat
  nulls : Nat
  payload : Payload
  deriving DecidableEq, Repr

/-- The raw content of a column. -/
structure View where
  kind : Kind
  rows : Nat
  data : Bytes
  offsets : Option (List UInt32)
  validity : Option Bytes
  deriving DecidableEq, Repr

namespace Payload

/-- Whether row `i` is null. -/
def isNull (p : Payload) (i : Nat) : Outcome Bool :=
  match p.validity with
  | none => .ok false
  | some v => return !(← Outcome.ofOption (v.isSet? i))

/-- The element of a form at row `i`. -/
def element (p : Payload) (f : Primitive) (i : Nat) : Outcome f.Carrier :=
  match p.elements with
  | .fixed bytes => Outcome.ofOption (Elements.element? f bytes i)
  | .strings _ _ => refuse (.wrongKind .string f.kind)

/-- The string at row `i` of a column of some kind. -/
def text (p : Payload) (kind : Kind) (i : Nat) : Outcome String :=
  match p.elements with
  | .fixed _ => refuse (.wrongKind .string kind)
  | .strings offsets text => do
    let bytes ← Outcome.ofOption (Elements.textBytes? offsets text i)
    match Utf8.decode bytes with
    | .ok s => return s
    | .error fault => refuse (.corruptText fault)

/-- The element at row `i` of a column of some kind, null or not. -/
def scalar (p : Payload) (kind : Kind) (i : Nat) : Outcome Scalar :=
  match kind with
  | .int w => return .int w (← p.element (.int w) i)
  | .float q => return .float q (← p.element (.float q) i)
  | .bool => return .bool (← p.element .bool i)
  | .date => return .date (← p.element (.int .w32) i)
  | .string => return .string (← p.text kind i)

end Payload

namespace Shape

/-- Refuses an index past the last row. -/
def checkIndex (s : Shape) (i : Nat) : Outcome Unit :=
  if i < s.rows then .ok () else refuse (.indexOutOfRange i s.rows)

/-- Refuses a form that is not the one the elements are stored in. -/
def checkForm (s : Shape) (f : Primitive) : Outcome Unit :=
  if s.kind.storage = f.kind then .ok () else refuse (.wrongKind s.kind f.kind)

/-- Refuses a range of rows that is not wholly there. -/
def checkRange (s : Shape) (start count : Nat) : Outcome Unit :=
  if start + count ≤ s.rows then .ok () else refuse (.indexOutOfRange (max start s.rows) s.rows)

/-- The column of this shape with a payload. -/
def column (s : Shape) (p : Payload) : Column := ⟨s.kind, s.rows, s.nulls, p⟩

end Shape

namespace Column

def shape (c : Column) : Shape := ⟨c.kind, c.rows, c.nulls, c.payload.validity.isSome⟩

def view (c : Column) : View where
  kind := c.kind
  rows := c.rows
  data := c.payload.elements.data
  offsets := c.payload.elements.offsets?
  validity := c.payload.validity.map Bitmap.bytes

/-- The scalar at row `i`. -/
def scalar (c : Column) (i : Nat) : Outcome Scalar := do
  c.shape.checkIndex i
  if ← c.payload.isNull i then return .null
  c.payload.scalar c.kind i

/-- A column of fixed width from its raw parts. The data must have the length
that the rows ask for. The validity bits must cover the rows; they are padded to
an allocation, and those past the last row are set. Sizes have to be indices. -/
def ofParts (kind : Kind) (rows : Nat) (data : Bytes) (validity : Option Bytes) :
    Outcome Column := do
  let some width := kind.width? | refuse (.notFixedWidth kind)
  let expected ← Outcome.ofOption (index? (rows * width))
  if data.length ≠ expected then refuse (.wrongDataLength data.length expected)
  match validity with
  | none => return ⟨kind, rows, 0, ⟨.fixed data, none⟩⟩
  | some bytes =>
    let covered ← Outcome.ofOption (index? (8 * bytes.length))
    if covered < rows then refuse (.validityTooShort covered rows)
    let padded ← Outcome.ofOption (Bitmap.ofBytes? bytes rows)
    let nulls ← Outcome.ofOption (padded.countClear? rows)
    return ⟨kind, rows, nulls, ⟨.fixed data, some padded⟩⟩

end Column

end Columnar
