/-
Elements and their bytes, and the buffers that bytes are gathered in.

An element takes as many bytes as its form is wide and reads back from them.
A growable buffer is the list of its content: `Buffer.toList_append` is the
fact the rest is built on.
-/
import Columnar.Buffer
import Columnar.Primitive

namespace Columnar

/-! ## Elements -/

namespace LittleEndian

@[simp] theorem length_encode (width n : Nat) : (encode width n).length = width := by
  induction width generalizing n with
  | zero => rfl
  | succ width ih => simp [encode, ih]

theorem decode_encode (width n : Nat) : decode (encode width n) = n % 256 ^ width := by
  induction width generalizing n with
  | zero => simp [encode, decode, Nat.mod_one]
  | succ width ih =>
    rw [encode, decode, ih, Nat.pow_succ', Nat.mod_mul]
    simp

/-- A number that fits into the bytes reads back. -/
theorem decode_encode_of_lt {width n : Nat} (h : n < 2 ^ (8 * width)) :
    decode (encode width n) = n := by
  rw [decode_encode, show 256 ^ width = 2 ^ (8 * width) by rw [Nat.pow_mul], Nat.mod_eq_of_lt h]

theorem decode_lt (bytes : Bytes) : decode bytes < 256 ^ bytes.length := by
  induction bytes with
  | nil => simp [decode]
  | cons b bytes ih =>
    have hb : b.toNat < 256 := b.toNat_lt
    rw [decode, List.length_cons, Nat.pow_succ']
    omega

/-- **Bytes are written** by the number that they write. -/
theorem encode_decode (bytes : Bytes) : encode bytes.length (decode bytes) = bytes := by
  induction bytes with
  | nil => rfl
  | cons b bytes ih =>
    have hlow : UInt8.ofNat (b.toNat + 256 * decode bytes) = b := by
      refine UInt8.toNat_inj.mp ?_
      rw [UInt8.toNat_ofNat', Nat.add_mul_mod_self_left, Nat.mod_eq_of_lt b.toNat_lt]
    have hhigh : (b.toNat + 256 * decode bytes) / 256 = decode bytes := by
      have hb : b.toNat < 256 := b.toNat_lt
      omega
    rw [List.length_cons, decode, encode, hlow, hhigh, ih]

end LittleEndian

namespace Primitive

theorem width_pos (f : Primitive) : 0 < f.width := by
  cases f with
  | int w => cases w <;> decide
  | float p => cases p <;> decide
  | bool => decide

theorem width_le (f : Primitive) : f.width ≤ 8 := by
  cases f with
  | int w => cases w <;> decide
  | float p => cases p <;> decide
  | bool => decide

@[simp] theorem length_encode (f : Primitive) (v : f.Carrier) : (f.encode v).length = f.width := by
  cases f with
  | int w => exact LittleEndian.length_encode _ _
  | float p => exact LittleEndian.length_encode _ _
  | bool => rfl

/-- **An element reads back from its bytes.** -/
theorem decode_encode (f : Primitive) (v : f.Carrier) : f.decode (f.encode v) = v := by
  cases f with
  | int w =>
    have hv : BitVec.toNat v < 2 ^ (8 * w.bytes) := BitVec.isLt (w := w.bits) v
    simp only [encode, decode, LittleEndian.decode_encode_of_lt hv]
    exact BitVec.ofNat_toNat (n := w.bits) w.bits v |>.trans (BitVec.setWidth_eq _)
  | float p =>
    have hp : p.bits = 8 * p.bytes := by cases p <;> rfl
    have hv : v.bits.toNat < 2 ^ (8 * p.bytes) := hp ▸ v.bits.isLt
    simp only [encode, decode, LittleEndian.decode_encode_of_lt hv]
    simp
  | bool => cases v <;> rfl

/-- An integer is written with the bytes that it is read from. -/
theorem encode_decode_int {w : Width} {cell : Bytes} (h : cell.length = w.bytes) :
    encode (.int w) (decode (.int w) cell) = cell := by
  have hlt : LittleEndian.decode cell < 2 ^ w.bits := by
    have hdecode := LittleEndian.decode_lt cell
    rwa [h, show 256 ^ w.bytes = 2 ^ w.bits from (Nat.pow_mul 2 8 w.bytes).symm] at hdecode
  rw [encode, decode, BitVec.toNat_ofNat, Nat.mod_eq_of_lt hlt, ← h, LittleEndian.encode_decode]

end Primitive

/-! ## Buffers -/

namespace Buffer

@[simp] theorem toList_empty : empty.toList = [] := rfl

@[simp] theorem length_toList (b : Buffer) : b.toList.length = b.length := by
  simp [toList, b.length_le]

@[simp] theorem toList_reserve (b : Buffer) (n : Nat) : (b.reserve n).toList = b.toList := by
  simp only [toList, reserve]
  split
  · rfl
  · exact List.take_append_of_le_length b.length_le

@[simp] theorem length_append (b : Buffer) (bytes : Bytes) :
    (b.append bytes).length = b.length + bytes.length := rfl

/-- **Appending** puts the bytes after the content. -/
@[simp] theorem toList_append (b : Buffer) (bytes : Bytes) :
    (b.append bytes).toList = b.toList ++ bytes := by
  have hroom := b.length_add_le_reserve bytes.length
  have hkept : (b.reserve bytes.length).storage.take b.length = b.toList :=
    b.toList_reserve bytes.length
  have hlen : (b.toList ++ bytes).length = b.length + bytes.length := by simp
  simp only [toList, append, overlay, hkept] at hlen ⊢
  rw [List.take_append_of_le_length (by omega), List.take_of_length_le (by omega)]

@[simp] theorem toList_appendZeros (b : Buffer) (n : Nat) :
    (b.appendZeros n).toList = b.toList ++ List.replicate n 0 := by
  simp [appendZeros]

/-- Chunks that are filled one after another are filled at once. -/
theorem fillWith_eq (pattern : Bytes) (chunks : Nat) (region : Bytes) :
    fillWith pattern chunks region =
      (List.replicate chunks pattern).flatten ++ region.drop (pattern.length * chunks) := by
  induction chunks generalizing region with
  | zero => rfl
  | succ chunks ih =>
    rw [fillWith, ih, List.drop_drop, List.replicate_succ, List.flatten_cons, List.append_assoc,
      Nat.mul_succ, Nat.add_comm pattern.length]

/-- **Whole patterns** that leave nothing over are all appended. -/
theorem appendWhole_eq (b : Buffer) (pattern : Bytes) (count : Nat) :
    b.appendWhole (pattern.length * count) pattern = b.append (List.replicate count pattern).flatten := by
  have hsize : (List.replicate count pattern).flatten.length = pattern.length * count := by
    simp [Nat.mul_comm]
  rcases Nat.eq_zero_or_pos pattern.length with hempty | hpos
  · -- There is no chunk of an empty pattern, and none of its copies is anything.
    obtain rfl := List.eq_nil_of_length_eq_zero hempty
    simp [appendWhole, append, overlay, fillWith]
  · simp only [appendWhole, append, overlay, hsize, Nat.max_eq_right hpos, Nat.mul_div_cancel_left _ hpos,
      fillWith_eq, List.drop_drop, List.append_assoc]

/-- A repeated append is refused only for want of room: all that fits into an allocation has an
index for its size. -/
theorem appendRepeated?_eq (b : Buffer) (pattern : Bytes) (count : Nat) :
    b.appendRepeated? pattern count =
      if aligned (b.length + pattern.length * count) ≤ maxSize then
        some (b.appendWhole (pattern.length * count) pattern)
      else none := by
  by_cases hindex : pattern.length * count < 2 ^ indexBits
  · simp [appendRepeated?, index?, hindex]
  · have hlarge : maxSize < 2 ^ indexBits := by decide
    have hle := le_aligned (b.length + pattern.length * count)
    simp [appendRepeated?, index?, hindex,
      show ¬ aligned (b.length + pattern.length * count) ≤ maxSize by omega]

/-- **A repeated append** adds the copies of the pattern. -/
theorem toList_appendRepeated? {b b' : Buffer} {pattern : Bytes} {count : Nat}
    (h : b.appendRepeated? pattern count = some b') :
    b'.toList = b.toList ++ (List.replicate count pattern).flatten := by
  simp only [appendRepeated?_eq, appendWhole_eq, Option.ite_none_right_eq_some] at h
  obtain ⟨-, h⟩ := h
  obtain rfl := Option.some.inj h
  exact b.toList_append _

end Buffer

end Columnar
