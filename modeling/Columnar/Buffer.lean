/-
Growable byte buffers with aligned, zero-padded storage.

A buffer's storage is a multiple of 64 bytes long and only ever grows. Its
content is the first `length` bytes; the rest is zero and waits for what is
appended next. Growth at least doubles the storage, so that appending many
small pieces copies each byte a bounded number of times on average.

The operations whose names end in a question mark answer `none` where more
would be allocated than can be, or where they would reach outside the content.
The others grow the storage to whatever is needed.
-/
import Columnar.Error
import Columnar.Size

namespace Columnar

/-- A growable byte buffer. -/
structure Buffer where
  /-- All bytes allocated. -/
  storage : Bytes
  /-- The bytes in use. -/
  length : Nat
  length_le : length ≤ storage.length
  deriving DecidableEq, Repr

namespace Buffer

/-- The content, which is also what a buffer leaves that is given up. -/
def toList (b : Buffer) : Bytes := b.storage.take b.length

def capacity (b : Buffer) : Nat := b.storage.length

/-- A buffer with nothing allocated. -/
def empty : Buffer := ⟨[], 0, Nat.le_refl 0⟩

/-- An empty buffer with this many bytes allocated. -/
def withStorage (n : Nat) : Buffer := ⟨List.replicate n 0, 0, Nat.zero_le _⟩

/-- An empty buffer with room for this many bytes. -/
def withCapacity? (n : Nat) : Option Buffer :=
  if aligned n ≤ maxSize then some (withStorage (aligned n)) else none

/-- A buffer that holds the bytes. -/
def ofList (bytes : Bytes) : Buffer where
  storage := bytes ++ List.replicate (aligned bytes.length - bytes.length) 0
  length := bytes.length
  length_le := by simp

/-- Room for `n` more bytes. -/
def reserve (b : Buffer) (n : Nat) : Buffer where
  storage :=
    if b.length + n ≤ b.capacity then b.storage
    else
      let grown := aligned (max (b.length + n) (2 * b.capacity))
      b.storage ++ List.replicate (grown - b.capacity) 0
  length := b.length
  length_le := by
    have := b.length_le
    split <;> simp <;> omega

theorem length_add_le_reserve (b : Buffer) (n : Nat) :
    b.length + n ≤ (b.reserve n).storage.length := by
  by_cases h : b.length + n ≤ b.storage.length
  · simp [reserve, capacity, h]
  · have := le_aligned (max (b.length + n) (2 * b.storage.length))
    simp only [reserve, capacity, h, if_false, List.length_append, List.length_replicate]
    omega

/-- Puts bytes over the storage from `start` on. -/
def overlay (storage : Bytes) (start : Nat) (bytes : Bytes) : Bytes :=
  storage.take start ++ bytes ++ storage.drop (start + bytes.length)

/-- Puts a pattern over the chunks of a region, as many as there are to be. -/
def fillWith (pattern : Bytes) : Nat → Bytes → Bytes
  | 0, region => region
  | chunks + 1, region => pattern ++ fillWith pattern chunks (region.drop pattern.length)

theorem length_le_overlay (storage : Bytes) (start : Nat) (bytes : Bytes) :
    storage.length ≤ (overlay storage start bytes).length := by
  simp only [overlay, List.length_append, List.length_take, List.length_drop]
  omega

theorem length_le_fillWith (pattern : Bytes) (chunks : Nat) (region : Bytes) :
    region.length ≤ (fillWith pattern chunks region).length := by
  induction chunks generalizing region with
  | zero => exact Nat.le_refl _
  | succ chunks ih =>
    have := ih (region.drop pattern.length)
    simp only [fillWith, List.length_append, List.length_drop] at this ⊢
    omega

/-- Appends bytes. -/
def append (b : Buffer) (bytes : Bytes) : Buffer where
  storage := overlay (b.reserve bytes.length).storage b.length bytes
  length := b.length + bytes.length
  length_le := Nat.le_trans (b.length_add_le_reserve bytes.length) (length_le_overlay _ _ _)

/-- Appends as many whole patterns as fit into `n` bytes. What is left of these stays as it was
allocated. -/
def appendWhole (b : Buffer) (n : Nat) (pattern : Bytes) : Buffer where
  storage :=
    let storage := (b.reserve n).storage
    storage.take b.length ++ fillWith pattern (n / max 1 pattern.length) (storage.drop b.length)
  length := b.length + n
  length_le := by
    have hroom := b.length_add_le_reserve n
    have hfilled := length_le_fillWith pattern (n / max 1 pattern.length) ((b.reserve n).storage.drop b.length)
    simp only [List.length_append, List.length_take, List.length_drop] at hfilled ⊢
    omega

/-- Appends zeros. -/
def appendZeros (b : Buffer) (n : Nat) : Buffer := b.append (List.replicate n 0)

/-- Writes bytes over the content from `start` on. -/
def write? (b : Buffer) (start : Nat) (bytes : Bytes) : Option Buffer :=
  if start + bytes.length ≤ b.length then
    some
      { storage := overlay b.storage start bytes
        length := b.length
        length_le := Nat.le_trans b.length_le (length_le_overlay _ _ _) }
  else none

/-- Room for `n` more bytes. -/
def reserve? (b : Buffer) (n : Nat) : Option Buffer := do
  let needed ← index? (b.length + n)
  if needed ≤ b.capacity then return b
  else if aligned (max needed (2 * b.capacity)) ≤ maxSize then return b.reserve n
  else none

/-- Appends a pattern a number of times. -/
def appendRepeated? (b : Buffer) (pattern : Bytes) (count : Nat) : Option Buffer := do
  let added ← index? (pattern.length * count)
  if aligned (b.length + added) ≤ maxSize then return b.appendWhole added pattern
  else none

/-- Appends zeros. -/
def appendZeros? (b : Buffer) (n : Nat) : Option Buffer :=
  if aligned (b.length + n) ≤ maxSize then some (b.appendZeros n) else none

end Buffer

end Columnar
