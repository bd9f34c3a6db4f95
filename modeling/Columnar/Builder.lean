/-
Builders: columns that rows can still be added to.

A builder has room for a fixed number of rows, and is made only where storage
for all of them can be set aside. An addition is an edit of the builder. It is
checked first, in a fixed order: that the builder is open, that the rows are of its
kind, that there is room for them, and for text that 32-bit offsets still reach its
end. Only then are the rows written, one after the other.

The validity bitmap is made when the first null needs it, for all rows there is
room for and with every bit set; rows added before need no writing then, and
rows added later only if they are null.

The content of a builder is taken out of it to make a column, and put back if no
column comes of it. A finished or closed builder keeps its counts and refuses
everything else.
-/
import Columnar.Column

namespace Columnar

/-- How far along a builder is. -/
inductive Phase where
  | opened | finished | closed
  deriving DecidableEq, Repr

/-- A column under construction. -/
structure Builder where
  kind : Kind
  capacity : Nat
  rows : Nat
  nulls : Nat
  elements : Elements Buffer
  validity : Option Bitmap
  phase : Phase
  deriving DecidableEq, Repr

/-- What the rows of a builder lie in. -/
structure Content where
  elements : Elements Buffer
  validity : Option Bitmap
  deriving DecidableEq, Repr

def Content.payload (c : Content) : Payload := ⟨c.elements.finish, c.validity⟩

/-- Rows to add, without those of other columns. -/
inductive Rows where
  | value (f : Primitive) (v : f.Carrier)
  | null
  | nulls (count : Nat)
  | repeated (f : Primitive) (v : f.Carrier) (count : Nat)
  | values (f : Primitive) (vs : List f.Carrier)
  /-- Elements, `none` for a null row. -/
  | options (f : Primitive) (vs : List (Option f.Carrier))
  | text (s : String)
  | texts (ss : List String)
  | optionTexts (ss : List (Option String))

namespace Builder

/-- A builder with room for `capacity` rows. -/
def new (kind : Kind) (capacity : Nat) : Builder where
  kind := kind
  capacity := capacity
  rows := 0
  nulls := 0
  elements := Elements.empty kind
  validity := none
  phase := .opened

/-- A builder whose column will have a validity bitmap, nulls or not. -/
def withValidity (kind : Kind) (capacity : Nat) : Builder :=
  { new kind capacity with validity := some (Bitmap.allValid capacity) }

/-- A new builder, where storage for all its rows can be set aside. -/
def create (kind : Kind) (capacity : Nat) (withValidityBits : Bool) : Outcome Builder := do
  Elements.requireStorage kind capacity
  return if withValidityBits then withValidity kind capacity else new kind capacity

/-- Rows that there is still room for. -/
def remaining (b : Builder) : Nat := b.capacity - b.rows

def requireOpen (b : Builder) : Outcome Unit :=
  match b.phase with
  | .opened => .ok ()
  | .finished => refuse .builderFinished
  | .closed => refuse .builderClosed

/-- Room for `n` more rows; a count past the greatest index is reported as that. -/
def requireRoom (b : Builder) (n : Nat) : Outcome Unit :=
  if b.rows + n ≤ b.capacity then .ok ()
  else refuse (.capacityExceeded (min (b.rows + n) (2 ^ indexBits - 1)) b.capacity)

/-- That elements of the form are stored here. -/
def requireForm (b : Builder) (f : Primitive) : Outcome Unit :=
  if b.kind.storage = f.kind then .ok () else refuse (.wrongKind b.kind f.kind)

/-- That rows of the kind are added here. -/
def requireKind (b : Builder) (kind : Kind) : Outcome Unit :=
  if b.kind = kind then .ok () else refuse (.wrongKind b.kind kind)

/-- That offsets reach the end of the text with this many more bytes. -/
def requireTextRoom (b : Builder) (bytes : Nat) : Outcome Unit :=
  match b.elements with
  | .strings _ text => if Elements.textFits text.length bytes then .ok () else refuse .textTooLong
  | .fixed _ => .ok ()

/-- What must hold before `n` elements of a form are added. -/
def requireElements (b : Builder) (f : Primitive) (n : Nat) : Outcome Unit := do
  b.requireOpen
  b.requireForm f
  b.requireRoom n

/-- What must hold before `n` strings of `bytes` bytes in all are added. -/
def requireTexts (b : Builder) (n bytes : Nat) : Outcome Unit := do
  b.requireOpen
  b.requireKind .string
  b.requireRoom n
  b.requireTextRoom bytes

/-- The validity bitmap, made if there is none yet. -/
def validityOrNew (b : Builder) : Bitmap := b.validity.getD (Bitmap.allValid b.capacity)

/-- The elements with bytes of fixed width after them. -/
def withBytes (b : Builder) (bytes : Bytes) : Elements Buffer :=
  match b.elements with
  | .fixed buffer => .fixed (buffer.append bytes)
  | .strings offsets text => .strings offsets text

/-- Adds an element. -/
def pushElement (b : Builder) (f : Primitive) (v : f.Carrier) : Builder :=
  { b with elements := b.withBytes (f.encode v), rows := b.rows + 1 }

/-- Adds a null row: zero bytes, or the empty text. -/
def pushNull (b : Builder) : Outcome Builder := do
  let validity ← Outcome.ofOption (b.validityOrNew.clear? b.rows)
  let elements := match b.elements with
    | .fixed buffer => .fixed (buffer.appendZeros b.kind.stride)
    | .strings offsets text => .strings (offsets ++ [UInt32.ofNat text.length]) text
  return { b with
    validity := some validity, elements := elements, rows := b.rows + 1, nulls := b.nulls + 1 }

/-- Adds a string. -/
def pushText (b : Builder) (s : String) : Builder :=
  let elements := match b.elements with
    | .strings offsets text =>
      let text := text.append (Utf8.encode s)
      .strings (offsets ++ [UInt32.ofNat text.length]) text
    | .fixed buffer => .fixed buffer
  { b with elements := elements, rows := b.rows + 1 }

/-- Adds one element many times. -/
def pushRepeated (b : Builder) (f : Primitive) (v : f.Carrier) (count : Nat) : Outcome Builder := do
  let elements ← match b.elements with
    | .fixed buffer => .fixed <$> Outcome.ofOption (buffer.appendRepeated? (f.encode v) count)
    | .strings offsets text => pure (.strings offsets text)
  return { b with elements := elements, rows := b.rows + count }

/-- Adds an element or a null row. -/
def pushOption (b : Builder) (f : Primitive) : Option f.Carrier → Outcome Builder
  | some v => .ok (b.pushElement f v)
  | none => b.pushNull

/-- Adds a string or a null row. -/
def pushOptionText (b : Builder) : Option String → Outcome Builder
  | some s => .ok (b.pushText s)
  | none => b.pushNull

/-- The bytes of a string. -/
def textSize (s : String) : Nat := (Utf8.encode s).length

/-- What must hold before rows are added. -/
def requireRows (b : Builder) : Rows → Outcome Unit
  | .value f _ => b.requireElements f 1
  | .null => do
    b.requireOpen
    b.requireRoom 1
  | .nulls count => do
    b.requireOpen
    b.requireRoom count
  | .repeated f _ count => b.requireElements f count
  | .values f vs => b.requireElements f vs.length
  | .options f vs => b.requireElements f vs.length
  | .text s => b.requireTexts 1 (textSize s)
  | .texts ss => b.requireTexts ss.length (total (ss.map textSize))
  | .optionTexts ss => b.requireTexts ss.length (total (ss.map fun s => s.elim 0 textSize))

/-- Writes rows one after the other, those of a fill in one go. -/
def writeRows : Rows → Edit Builder Unit
  | .value f v => modify (·.pushElement f v)
  | .null => Edit.step pushNull
  | .nulls count => (Edit.step pushNull).times count
  | .repeated f v count => Edit.step (·.pushRepeated f v count)
  | .values f vs => vs.forM fun v => modify (·.pushElement f v)
  | .options f vs => vs.forM fun v => Edit.step (·.pushOption f v)
  | .text s => modify (·.pushText s)
  | .texts ss => ss.forM fun s => modify (·.pushText s)
  | .optionTexts ss => ss.forM fun s => Edit.step (·.pushOptionText s)

/-- Adds rows. -/
def addRows (r : Rows) : Edit Builder Unit := do
  Edit.check (·.requireRows r)
  writeRows r

/-- The builder with rows added to it. -/
def append (b : Builder) (r : Rows) : Outcome Builder := (addRows r).outcome b

/-- What must hold before the rows of a column are added, which is checked
before the column is looked into. -/
def requireColumn (b : Builder) (source : Shape) : Outcome Unit := do
  b.requireOpen
  b.requireKind source.kind
  b.requireRoom source.rows

/-- Takes over validity bits for the rows that are added next. -/
def mergeValidity (b : Builder) (theirs : Bitmap) (rows : Nat) : Outcome Builder := do
  let merged ← Outcome.ofOption (b.validityOrNew.merge? b.rows theirs rows)
  return { b with validity := some merged }

/-- Takes over the elements of a column. -/
def takeElements (source : Shape) (payload : Payload) : Edit Builder Unit := do
  let width := (← get).kind.stride
  Edit.part Builder.elements (fun b elements => { b with elements := elements })
    (Elements.takeOver payload.elements source.rows width)

/-- Takes over the validity bits of a column, if it has any. -/
def takeValidity (source : Shape) (payload : Payload) : Edit Builder Unit :=
  match payload.validity with
  | some theirs => Edit.step (·.mergeValidity theirs source.rows)
  | none => return

/-- Writes the rows of a column of this shape, its nulls bit for bit. -/
def writeColumn (source : Shape) (payload : Payload) : Edit Builder Unit := do
  takeElements source payload
  takeValidity source payload
  modify fun b => { b with nulls := b.nulls + source.nulls }
  modify fun b => { b with rows := b.rows + source.rows }

/-- Adds the rows of a column. -/
def addColumn (source : Shape) (payload : Payload) : Edit Builder Unit := do
  Edit.check (·.requireColumn source)
  writeColumn source payload

/-- The builder with the rows of a column added to it. -/
def appendColumn (b : Builder) (source : Shape) (payload : Payload) : Outcome Builder :=
  (addColumn source payload).outcome b

/-- What the builder holds. -/
def payload (b : Builder) : Payload := ⟨b.elements.finish, b.validity⟩

/-- The shape of the column that the builder holds. -/
def shape (b : Builder) : Shape := ⟨b.kind, b.rows, b.nulls, b.validity.isSome⟩

/-- The column that the builder holds. -/
def column (b : Builder) : Column := b.shape.column b.payload

/-- The builder without content. -/
def emptied (b : Builder) : Builder := { b with elements := Elements.empty b.kind, validity := none }

/-- Takes the content out. -/
def takeContent : Edit Builder Content := modifyGet fun b => (⟨b.elements, b.validity⟩, b.emptied)

/-- Puts content back. -/
def putBack (c : Content) : Edit Builder Unit :=
  modify fun b => { b with elements := c.elements, validity := c.validity }

/-- Nothing more can be added. -/
def finalize : Edit Builder Unit := modify fun b => { b with phase := .finished }

/-- The builder once a column has been made of its content. -/
def finish (b : Builder) : Builder := { b.emptied with phase := .finished }

/-- The builder without content and closed for good. -/
def close (b : Builder) : Builder :=
  match b.phase with
  | .closed => b
  | _ => { b.emptied with phase := .closed }

/-- Whether the builder has been given up on purpose: it is finished or closed. -/
def givenUp (b : Builder) : Bool := b.phase ≠ .opened

end Builder

end Columnar
