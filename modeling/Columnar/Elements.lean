/-
Element storage.

Elements of fixed width lie one after the other. Strings share one stretch of
text, and offsets say where each begins and ends: one offset more than there
are rows, the first zero. While rows are still being added the bytes are in a
growable buffer, and in a finished column they are plain bytes.
-/
import Columnar.Buffer
import Columnar.Edit
import Columnar.Primitive

namespace Columnar

/-- Element storage over some type of byte buffer. -/
inductive Elements (β : Type) where
  | fixed (bytes : β)
  | strings (offsets : List UInt32) (text : β)
  deriving DecidableEq, Repr

namespace Elements

def map {β γ : Type} (f : β → γ) : Elements β → Elements γ
  | fixed bytes => fixed (f bytes)
  | strings offsets text => strings offsets (f text)

/-- The bytes of the elements, or of the text of strings. -/
def data {β : Type} : Elements β → β
  | fixed bytes => bytes
  | strings _ text => text

/-- The offsets of strings. -/
def offsets? {β : Type} : Elements β → Option (List UInt32)
  | fixed _ => none
  | strings offsets _ => some offsets

/-- No elements of a kind. -/
def empty (kind : Kind) : Elements Buffer :=
  if kind.isFixedWidth then fixed Buffer.empty else strings [0] Buffer.empty

/-- The bytes set aside for this many rows of a kind before there are any: for
the elements of fixed width, or for the offsets of strings. -/
def reserved (kind : Kind) (rows : Nat) : Nat :=
  match kind.width? with
  | some width => aligned (rows * width)
  | none => 4 * (rows + 1)

/-- That so much can be set aside. -/
def requireStorage (kind : Kind) (rows : Nat) : Outcome Unit :=
  if reserved kind rows ≤ maxSize then .ok () else .error .outOfBounds

/-- The finished elements. -/
def finish (e : Elements Buffer) : Elements Bytes := e.map Buffer.toList

/-- Whether text of this length has room for more in 32-bit offsets. -/
def textFits (length added : Nat) : Bool := length + added ≤ maxTextBytes

/-- The first `n` bytes, if there are as many. -/
def first? (bytes : Bytes) (n : Nat) : Option Bytes :=
  if n ≤ bytes.length then some (bytes.take n) else none

/-- An offset counted from a base. -/
def rebase? (base offset : UInt32) : Option UInt32 :=
  if base.toNat + offset.toNat < 2 ^ offsetBits then some (base + offset) else none

/-- Appends the first `rows` rows of finished elements of the same kind, of which
those of fixed width take `width` bytes each. The offsets of strings count on from
the text that is there; text that they would not reach the end of is refused before
anything is written. -/
def takeOver (src : Elements Bytes) (rows width : Nat) : Edit (Elements Buffer) Unit := do
  match ← get, src with
  | fixed buffer, fixed bytes =>
    set (fixed (buffer.append (← Outcome.ofOption (first? bytes (rows * width)))))
  | strings offsets text, strings srcOffsets srcText =>
    let stop := (← Outcome.ofOption srcOffsets[rows]?).toNat
    if !textFits text.length stop then throw (.refused .textTooLong)
    let grown := text.append (← Outcome.ofOption (first? srcText stop))
    set (strings offsets grown)
    let base := UInt32.ofNat text.length
    let moved ← Outcome.ofOption (((srcOffsets.drop 1).take rows).mapM (rebase? base))
    set (strings (offsets ++ moved) grown)
  | _, _ => throw .outOfBounds

/-- The elements with the first `rows` rows of others behind them. -/
def extend (dst : Elements Buffer) (src : Elements Bytes) (rows width : Nat) :
    Outcome (Elements Buffer) :=
  (takeOver src rows width).outcome dst

/-- The first `count` pieces of `width` bytes. -/
def pieces (width : Nat) : (count : Nat) → Bytes → List Bytes
  | 0, _ => []
  | count + 1, bytes => bytes.take width :: pieces width count (bytes.drop width)

/-- The element of a form at row `i`. -/
def element? (f : Primitive) (bytes : Bytes) (i : Nat) : Option f.Carrier :=
  f.read? (bytes.drop (i * f.width))

/-- The bytes of the string at row `i`. -/
def textBytes? (offsets : List UInt32) (text : Bytes) (i : Nat) : Option Bytes := do
  let start := (← offsets[i]?).toNat
  let stop := (← offsets[i + 1]?).toNat
  if start ≤ stop ∧ stop ≤ text.length then some ((text.take stop).drop start) else none

end Elements

end Columnar
