/-
Validity bitmaps: one bit a row, set where the row holds a value and clear
where it is null.

Bits are packed into bytes from the least significant one up. Allocations are
rounded up to 64 bytes, and the bits past the last row are set, so that a row
added later needs no write of its own unless it is null.

A range of bits is written a byte at a time: whole bytes at once, and those that the
range only begins or ends in under a mask. Bits of another bitmap are copied byte for
byte where their place begins with a byte, and shifted into place where it does not.
The operations whose names end in a question mark answer `none` where they would touch
a byte that the bitmap does not have.
-/
import Columnar.Error
import Columnar.Size

namespace Columnar

/-- Validity bits, packed. -/
structure Bitmap where
  bytes : Bytes
  deriving DecidableEq, Repr

namespace Bitmap

/-- The bytes allocated for this many rows. -/
def allocationSize (rows : Nat) : Nat := aligned ((rows + 7) / 8)

/-- Room for the rows, every bit set. -/
def allValid (rows : Nat) : Bitmap := ⟨List.replicate (allocationSize rows) 0xFF⟩

/-- The bits there are. -/
def capacity (b : Bitmap) : Nat := 8 * b.bytes.length

/-- The low `n` bits of a byte. -/
def lowMask (n : Nat) : UInt8 := if 8 ≤ n then 0xFF else (1 <<< UInt8.ofNat n) - 1

/-- A single bit of a byte. -/
def bit (i : Nat) : UInt8 := 1 <<< UInt8.ofNat (i % 8)

/-- Sets or clears the bits of a mask. -/
def paint (valid : Bool) (mask byte : UInt8) : UInt8 :=
  if valid then byte ||| mask else byte &&& ~~~mask

/-- Takes the bits of a mask from `fresh` and the others from `old`. -/
def blend (mask old fresh : UInt8) : UInt8 := (old &&& ~~~mask) ||| (fresh &&& mask)

/-- Whether bit `i` is set; past the end none is. -/
def isSet (b : Bitmap) (i : Nat) : Bool := (b.bytes.getD (i / 8) 0 &&& bit i) != 0

def set (b : Bitmap) (i : Nat) : Bitmap := ⟨b.bytes.modify (i / 8) (paint true (bit i))⟩

def clear (b : Bitmap) (i : Nat) : Bitmap := ⟨b.bytes.modify (i / 8) (paint false (bit i))⟩

/-- The clear bits of a byte. -/
def zeros (byte : UInt8) : Nat := (List.range 8).countP fun i => byte &&& bit i == 0

def isSet? (b : Bitmap) (i : Nat) : Option Bool :=
  if i < b.capacity then some (b.isSet i) else none

def set? (b : Bitmap) (i : Nat) : Option Bitmap := if i < b.capacity then some (b.set i) else none

def clear? (b : Bitmap) (i : Nat) : Option Bitmap :=
  if i < b.capacity then some (b.clear i) else none

/-- Gives the bits of a mask of byte `j` one value. -/
def paint? (b : Bitmap) (j : Nat) (mask : UInt8) (valid : Bool) : Option Bitmap :=
  (b.bytes[j]?).map fun old => ⟨b.bytes.set j (paint valid mask old)⟩

/-- Gives the bits from `start` to the end of its byte one value, unless a byte begins there. -/
def paintFrom? (b : Bitmap) (start : Nat) (valid : Bool) : Option Bitmap :=
  if start % 8 = 0 then some b else b.paint? (start / 8) (0xFF <<< UInt8.ofNat (start % 8)) valid

/-- Gives the bits of the byte that `stop` is in one value up to there, if there are any. -/
def paintUpTo? (b : Bitmap) (stop : Nat) (valid : Bool) : Option Bitmap :=
  if stop % 8 = 0 then some b else b.paint? (stop / 8) (lowMask (stop % 8)) valid

/-- Gives all bits of the bytes from `first` up to `last` one value. -/
def fillBytes? (b : Bitmap) (first last : Nat) (valid : Bool) : Option Bitmap :=
  if first ≤ last ∧ last ≤ b.bytes.length then
    let full := List.replicate (last - first) (if valid then 0xFF else 0)
    some ⟨b.bytes.take first ++ full ++ b.bytes.drop last⟩
  else none

/-- Gives the `length` bits from `start` on one value: under one mask if they lie in one
byte, and else under a mask where the range begins inside a byte, whole bytes at once, and
under a mask again where it ends inside one. The end of the range is to be an index. -/
def setRange? (b : Bitmap) (start length : Nat) (valid : Bool) : Option Bitmap := do
  if length = 0 then return b
  let stop ← index? (start + length)
  if start / 8 = stop / 8 then
    b.paint? (start / 8) (lowMask length <<< UInt8.ofNat (start % 8)) valid
  else
    let begun ← b.paintFrom? start valid
    let filled ← begun.fillBytes? ((start + 7) / 8) (stop / 8) valid
    filled.paintUpTo? stop valid

/-- Bytes with set bits behind them, up to what is allocated for this many rows. -/
def enlarged (bytes : Bytes) (rows : Nat) : Bitmap :=
  ⟨bytes ++ List.replicate (allocationSize rows - bytes.length) 0xFF⟩

/-- Bytes given as the bits of this many rows, enlarged to an allocation; the bits past the last row
are set. -/
def ofBytes? (bytes : Bytes) (rows : Nat) : Option Bitmap :=
  (enlarged bytes rows).setRange? rows ((enlarged bytes rows).capacity - rows) true

/-- How many of the first `n` bits are clear, where there are as many. -/
def countClear? (b : Bitmap) (n : Nat) : Option Nat :=
  if n / 8 ≤ b.bytes.length then
    let whole := total ((b.bytes.take (n / 8)).map zeros)
    if n % 8 = 0 then some whole
    else (b.bytes[n / 8]?).map fun last => whole + zeros (last ||| ~~~lowMask (n % 8))
  else none

/-- Takes the bits of a mask of byte `j` from `fresh`. -/
def patch? (b : Bitmap) (j : Nat) (mask fresh : UInt8) : Option Bitmap :=
  (b.bytes[j]?).map fun old => ⟨b.bytes.set j (blend mask old fresh)⟩

/-- The `n` bits from bit `i` on, eight at most, as the low bits of a byte. They may begin in
one byte and end in the next. -/
def window? (b : Bitmap) (i n : Nat) : Option UInt8 := do
  let low := (← b.bytes[i / 8]?) >>> UInt8.ofNat (i % 8)
  if i % 8 + n ≤ 8 then return low &&& lowMask n
  let high := (← b.bytes[i / 8 + 1]?) <<< UInt8.ofNat (8 - i % 8)
  return (low ||| high) &&& lowMask n

/-- Copies the first `count` bytes of `source` to the bytes from `j` on. -/
def copyBytes? (b : Bitmap) (j : Nat) (source : Bitmap) (count : Nat) : Option Bitmap :=
  if j + count ≤ b.bytes.length ∧ count ≤ source.bytes.length then
    some ⟨b.bytes.take j ++ source.bytes.take count ++ b.bytes.drop (j + count)⟩
  else none

/-- Copies the first `n` bits of `source` to the bits from byte `j` on: whole bytes at once, and
what is left under a mask. -/
def mergeAligned? (b : Bitmap) (j : Nat) (source : Bitmap) (n : Nat) : Option Bitmap := do
  let copied ← b.copyBytes? j source (n / 8)
  if n % 8 = 0 then return copied
  copied.patch? (j + n / 8) (lowMask (n % 8)) (← source.bytes[n / 8]?)

/-- Copies the `n` bits of `source` from bit `start` on to the bits from `offset` on, as many in
one go as the byte at `offset` has room for. -/
def mergeShifted? (b : Bitmap) (offset : Nat) (source : Bitmap) (start n : Nat) : Option Bitmap :=
  if n = 0 then some b
  else do
    let count := min (8 - offset % 8) n
    let shift := UInt8.ofNat (offset % 8)
    let bits ← source.window? start count
    let patched ← b.patch? (offset / 8) (lowMask count <<< shift) (bits <<< shift)
    patched.mergeShifted? (offset + count) source (start + count) (n - count)
termination_by n
decreasing_by omega

/-- Copies the first `n` bits of `source` to the bits from `offset` on, byte for byte if that is
where a byte begins, and shifted into place if not. -/
def merge? (b : Bitmap) (offset : Nat) (source : Bitmap) (n : Nat) : Option Bitmap :=
  if n = 0 then some b
  else if offset % 8 = 0 then b.mergeAligned? (offset / 8) source n
  else b.mergeShifted? offset source 0 n

end Bitmap

end Columnar
