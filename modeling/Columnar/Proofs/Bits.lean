/-
Validity bitmaps bit by bit.

A bitmap is written a byte at a time; here each write is told by what it does
to `isSet`. A range that is written, and the count of clear bits, have a form
without an end here (`fill`, `countClear`). `isSet_fill` and `isSet_merge` say that a range is written and
every other bit stays, `countClear_eq` that the count of clear bits is the
count one would take bit by bit, and `eq_of_isSet` that a bitmap is its length
and its bits.
-/
import Columnar.Bitmap
import Columnar.Proofs.Outcomes

namespace Columnar.Bitmap

/-- The bits of byte `j` that lie in the range from `start` up to `stop`. -/
def spanMask (start stop j : Nat) : UInt8 := lowMask (stop - 8 * j) &&& ~~~lowMask (start - 8 * j)

/-- Gives the bits from `start` up to `stop` one value. -/
def fill (b : Bitmap) (start stop : Nat) (valid : Bool) : Bitmap :=
  ⟨b.bytes.mapIdx fun j byte => paint valid (spanMask start stop j) byte⟩

/-- How many of the first `n` bits are clear: whole bytes by their counts, and
of the last byte the bits below `n`. -/
def countClear (b : Bitmap) (n : Nat) : Nat :=
  total ((b.bytes.take (n / 8)).map zeros) +
    if n % 8 = 0 then 0 else zeros (b.bytes.getD (n / 8) 0 ||| ~~~lowMask (n % 8))

/-! ## Bytes -/

/-- Bit `k` of a byte. -/
def test (byte : UInt8) (k : Nat) : Bool := byte.toBitVec.getLsbD k

@[simp] theorem test_or (a b : UInt8) (k : Nat) : test (a ||| b) k = (test a k || test b k) := by
  simp [test]

@[simp] theorem test_and (a b : UInt8) (k : Nat) : test (a &&& b) k = (test a k && test b k) := by
  simp [test]

theorem test_not {a : UInt8} {k : Nat} (hk : k < 8) : test (~~~a) k = !test a k := by
  simp [test, hk]

@[simp] theorem test_ones {k : Nat} (hk : k < 8) : test 0xFF k = true := by
  have : ∀ k < 8, test 0xFF k = true := by decide
  exact this k hk

@[simp] theorem test_zero (k : Nat) : test 0 k = false := by simp [test]

theorem eq_of_test {a b : UInt8} (h : ∀ k < 8, test a k = test b k) : a = b :=
  UInt8.toBitVec_inj.mp (BitVec.eq_of_getLsbD_eq h)

theorem test_bit (i k : Nat) : test (bit i) k = decide (k = i % 8) := by
  have hi : i % 8 < 8 := Nat.mod_lt _ (by decide)
  have hbit : (bit i).toBitVec = BitVec.twoPow 8 (i % 8) := by
    have : ∀ r < 8, (1 <<< UInt8.ofNat r : UInt8).toBitVec = BitVec.twoPow 8 r := by decide
    exact this _ hi
  rw [test, hbit, BitVec.getLsbD_twoPow]
  simp [hi, eq_comm]

/-- A byte meets a single bit where it has that bit. -/
theorem and_bit_ne_zero (byte : UInt8) (i : Nat) : (byte &&& bit i != 0) = test byte (i % 8) := by
  have hi : i % 8 < 8 := Nat.mod_lt _ (by decide)
  cases h : test byte (i % 8) with
  | true =>
    simp only [bne_iff_ne, ne_eq]
    intro hz
    have := congrArg (test · (i % 8)) hz
    simp [h, test_bit] at this
  | false =>
    have hz : byte &&& bit i = 0 := eq_of_test fun k _ => by
      by_cases hk : k = i % 8
      · simp [hk, h]
      · simp [test_bit, hk]
    simp [hz]

theorem test_lowMask (n : Nat) {k : Nat} (hk : k < 8) : test (lowMask n) k = decide (k < n) := by
  by_cases hn : 8 ≤ n
  · simp only [lowMask, hn, if_true, test_ones hk]
    exact (decide_eq_true (by omega)).symm
  · have : ∀ n < 8, ∀ k < 8, test (lowMask n) k = decide (k < n) := by decide
    exact this n (by omega) k hk

theorem test_spanMask (start stop j : Nat) {k : Nat} (hk : k < 8) :
    test (spanMask start stop j) k = decide (start ≤ 8 * j + k ∧ 8 * j + k < stop) := by
  rw [spanMask, test_and, test_not hk, test_lowMask _ hk, test_lowMask _ hk, Bool.eq_iff_iff]
  simp only [Bool.and_eq_true, Bool.not_eq_true', decide_eq_true_eq, decide_eq_false_iff_not]
  omega

theorem test_paint (valid : Bool) (mask byte : UInt8) {k : Nat} (hk : k < 8) :
    test (paint valid mask byte) k = if test mask k then valid else test byte k := by
  cases valid <;> cases h : test mask k <;> simp [paint, test_not hk, h]

theorem test_blend (mask old fresh : UInt8) {k : Nat} (hk : k < 8) :
    test (blend mask old fresh) k = if test mask k then test fresh k else test old k := by
  cases h : test mask k <;> simp [blend, test_not hk, h]

theorem test_of_le (byte : UInt8) {k : Nat} (hk : 8 ≤ k) : test byte k = false :=
  BitVec.getLsbD_of_ge _ _ hk

theorem toNat_shiftAmount {s : Nat} (hs : s < 8) : ((UInt8.ofNat s).toBitVec % 8).toNat = s := by
  have : ∀ s < 8, ((UInt8.ofNat s).toBitVec % 8).toNat = s := by decide
  exact this s hs

theorem test_shiftLeft (byte : UInt8) {s k : Nat} (hs : s < 8) (hk : k < 8) :
    test (byte <<< UInt8.ofNat s) k = (decide (s ≤ k) && test byte (k - s)) := by
  rw [test, UInt8.toBitVec_shiftLeft, BitVec.shiftLeft_eq', toNat_shiftAmount hs,
    BitVec.getLsbD_shiftLeft, Bool.eq_iff_iff]
  simp only [Bool.and_eq_true, decide_eq_true_eq, Bool.not_eq_true', decide_eq_false_iff_not, test]
  constructor
  · rintro ⟨⟨-, h⟩, ht⟩
    exact ⟨by omega, ht⟩
  · rintro ⟨h, ht⟩
    exact ⟨⟨hk, by omega⟩, ht⟩

/-- The bits of a mask that is shifted to its place. -/
theorem test_lowMask_shiftLeft (n : Nat) {s k : Nat} (hs : s < 8) (hk : k < 8) :
    test (lowMask n <<< UInt8.ofNat s) k = decide (s ≤ k ∧ k < s + n) := by
  rw [test_shiftLeft _ hs hk, test_lowMask _ (by omega), Bool.eq_iff_iff]
  simp only [Bool.and_eq_true, decide_eq_true_eq]
  omega

theorem test_shiftRight (byte : UInt8) {s : Nat} (hs : s < 8) (k : Nat) :
    test (byte >>> UInt8.ofNat s) k = test byte (s + k) := by
  rw [test, UInt8.toBitVec_shiftRight, BitVec.ushiftRight_eq', toNat_shiftAmount hs,
    BitVec.getLsbD_ushiftRight, test]

/-! ## Single bits and ranges -/

theorem isSet_eq (b : Bitmap) (i : Nat) : b.isSet i = test (b.bytes.getD (i / 8) 0) (i % 8) := by
  rw [isSet, and_bit_ne_zero]

theorem isSet_of_capacity_le {b : Bitmap} {i : Nat} (h : b.capacity ≤ i) : b.isSet i = false := by
  simp only [capacity] at h
  rw [isSet_eq, List.getD_eq_getElem?_getD, List.getElem?_eq_none (by omega)]
  exact test_zero _

theorem getD_mapIdx (f : Nat → UInt8 → UInt8) (bytes : Bytes) (j : Nat) :
    (bytes.mapIdx f).getD j 0 = if j < bytes.length then f j (bytes.getD j 0) else 0 := by
  by_cases h : j < bytes.length
  · simp [List.getD_eq_getElem?_getD, h]
  · simp [List.getD_eq_getElem?_getD, h]

@[simp] theorem capacity_clear (b : Bitmap) (i : Nat) : (b.clear i).capacity = b.capacity := by
  simp [clear, capacity]

@[simp] theorem capacity_fill (b : Bitmap) (start stop : Nat) (valid : Bool) :
    (b.fill start stop valid).capacity = b.capacity := by
  simp [fill, capacity]

theorem isSet_allValid {rows i : Nat} (h : i < (allValid rows).capacity) :
    (allValid rows).isSet i = true := by
  have hi : i / 8 < allocationSize rows := by
    simp only [allValid, capacity, List.length_replicate] at h; omega
  rw [isSet_eq, allValid, List.getD_eq_getElem?_getD, List.getElem?_replicate_of_lt hi]
  exact test_ones (Nat.mod_lt _ (by decide))

/-- An allocation reaches every row it is made for. -/
theorem le_capacity_allValid (rows : Nat) : rows ≤ (allValid rows).capacity := by
  have := le_aligned ((rows + 7) / 8)
  simp only [allValid, capacity, List.length_replicate, allocationSize]
  omega

/-- **A byte rewritten** has its new bits, and every other bit stays. -/
theorem isSet_setByte (b : Bitmap) {j : Nat} (hj : j < b.bytes.length) (byte : UInt8) (i : Nat) :
    (⟨b.bytes.set j byte⟩ : Bitmap).isSet i = if i / 8 = j then test byte (i % 8) else b.isSet i := by
  rw [isSet_eq, List.getD_eq_getElem?_getD]
  by_cases hbyte : i / 8 = j
  · simp [hbyte, hj]
  · rw [if_neg hbyte, List.getElem?_set_ne (Ne.symm hbyte), isSet_eq, List.getD_eq_getElem?_getD]

/-- **Bytes put over others** bring their bits, and every other bit stays. -/
theorem isSet_splice (b : Bitmap) (first : Nat) (bytes : Bytes)
    (h : first + bytes.length ≤ b.bytes.length) (i : Nat) :
    (⟨b.bytes.take first ++ bytes ++ b.bytes.drop (first + bytes.length)⟩ : Bitmap).isSet i =
      if 8 * first ≤ i ∧ i < 8 * (first + bytes.length) then (⟨bytes⟩ : Bitmap).isSet (i - 8 * first)
      else b.isSet i := by
  have hfirst : (b.bytes.take first).length = first := by simp; omega
  simp only [isSet_eq, List.getD_eq_getElem?_getD, List.getElem?_append, List.length_append, hfirst]
  by_cases hbefore : i / 8 < first
  · rw [if_pos (by omega), if_pos hbefore, if_neg (by omega), List.getElem?_take_of_lt hbefore]
  · by_cases hin : i / 8 < first + bytes.length
    · rw [if_pos hin, if_neg hbefore, if_pos (by omega), show (i - 8 * first) / 8 = i / 8 - first by omega,
        show (i - 8 * first) % 8 = i % 8 by omega]
    · rw [if_neg hin, if_neg (by omega), List.getElem?_drop,
        show first + bytes.length + (i / 8 - (first + bytes.length)) = i / 8 by omega]

/-- A single bit written. -/
theorem isSet_modify (b : Bitmap) (i : Nat) (valid : Bool) (j : Nat) :
    (⟨b.bytes.modify (i / 8) (paint valid (bit i))⟩ : Bitmap).isSet j =
      if j = i ∧ i < b.capacity then valid else b.isSet j := by
  simp only [isSet_eq, List.getD_eq_getElem?_getD, List.getElem?_modify, capacity]
  cases hb : b.bytes[j / 8]? with
  | none =>
    have hj : b.bytes.length ≤ j / 8 := List.getElem?_eq_none_iff.mp hb
    rw [if_neg (by omega)]
    rfl
  | some byte =>
    have hj : j / 8 < b.bytes.length := (List.getElem?_eq_some_iff.mp hb).1
    by_cases hbyte : i / 8 = j / 8
    · have hbit : j % 8 = i % 8 ↔ j = i ∧ i < 8 * b.bytes.length := by omega
      simp [hbyte, test_paint, Nat.mod_lt, test_bit, hbit]
    · have hne : ¬ (j = i ∧ i < 8 * b.bytes.length) := by omega
      simp [hbyte, hne]

theorem isSet_clear (b : Bitmap) (i j : Nat) :
    (b.clear i).isSet j = (b.isSet j && decide (j ≠ i)) := by
  rw [clear, isSet_modify]
  by_cases hi : j = i
  · subst hi
    by_cases hcap : j < b.capacity
    · simp [hcap]
    · simp [hcap, isSet_of_capacity_le (Nat.le_of_not_lt hcap)]
  · simp [hi]

theorem isSet?_of_lt {b : Bitmap} {i : Nat} (h : i < b.capacity) : b.isSet? i = some (b.isSet i) := if_pos h

/-- The bits that a write by bytes leaves, where each new byte is known bit by
bit. -/
theorem isSet_mapIdx (b : Bitmap) (f : Nat → UInt8 → UInt8) (g : Nat → Bool) (i : Nat)
    (h : test (f (i / 8) (b.bytes.getD (i / 8) 0)) (i % 8) = g i) :
    (⟨b.bytes.mapIdx f⟩ : Bitmap).isSet i = (decide (i < b.capacity) && g i) := by
  rw [isSet_eq, getD_mapIdx]
  by_cases hi : i / 8 < b.bytes.length
  · have : i < b.capacity := by simp only [capacity]; omega
    simp only [hi, if_true, this, decide_true, Bool.true_and, h]
  · have : ¬ i < b.capacity := by simp only [capacity]; omega
    simp [hi, this]

/-- **Filling a range** gives its bits the value and leaves every other bit. -/
theorem isSet_fill (b : Bitmap) (start stop : Nat) (valid : Bool) (i : Nat) :
    (b.fill start stop valid).isSet i =
      if start ≤ i ∧ i < stop ∧ i < b.capacity then valid else b.isSet i := by
  have hdiv : 8 * (i / 8) + i % 8 = i := Nat.div_add_mod i 8
  have hbit : i % 8 < 8 := Nat.mod_lt _ (by decide)
  rw [fill, isSet_mapIdx b _ (fun i => if start ≤ i ∧ i < stop then valid else b.isSet i) i]
  · by_cases hi : i < b.capacity
    · simp [hi]
    · simp [hi, isSet_of_capacity_le (Nat.le_of_not_lt hi)]
  · simp only [test_paint _ _ _ hbit, test_spanMask _ _ _ hbit, hdiv, decide_eq_true_eq, isSet_eq]

/-! ## Merging -/

/-- The byte that stands at place `j` once the bits have been moved up by
`offset`: the high bits of one byte below the low bits of the next. -/
def shifted (source : Bitmap) (offset j : Nat) : UInt8 :=
  let low := source.bytes.getD (j - offset / 8) 0
  if offset % 8 = 0 then low
  else
    let carried := if offset / 8 < j then source.bytes.getD (j - offset / 8 - 1) 0 else 0
    (low <<< UInt8.ofNat (offset % 8)) ||| (carried >>> UInt8.ofNat (8 - offset % 8))

/-- What copying the first `n` bits of `source` to the bits from `offset` on makes of every byte:
it is put together from at most two bytes of the source, shifted into place. -/
def merge (b : Bitmap) (offset : Nat) (source : Bitmap) (n : Nat) : Bitmap :=
  ⟨b.bytes.mapIdx fun j byte =>
    blend (spanMask offset (offset + n) j) byte (source.shifted offset j)⟩

@[simp] theorem capacity_merge (b : Bitmap) (offset : Nat) (source : Bitmap) (n : Nat) :
    (b.merge offset source n).capacity = b.capacity := by
  simp [merge, capacity]

/-- Bit `k` of the byte that a shift puts at place `j` is the bit that lies
`offset` before it. -/
theorem test_shifted (source : Bitmap) {offset j k : Nat} (hk : k < 8) (h : offset ≤ 8 * j + k) :
    test (source.shifted offset j) k = source.isSet (8 * j + k - offset) := by
  rw [isSet_eq, shifted]
  by_cases hr : offset % 8 = 0
  · have h1 : (8 * j + k - offset) / 8 = j - offset / 8 := by omega
    have h2 : (8 * j + k - offset) % 8 = k := by omega
    simp [hr, h1, h2]
  · have hr8 : offset % 8 < 8 := Nat.mod_lt _ (by decide)
    simp only [hr, if_false, test_or, test_shiftLeft _ hr8 hk,
      test_shiftRight _ (show 8 - offset % 8 < 8 by omega)]
    by_cases hlow : offset % 8 ≤ k
    · have h1 : (8 * j + k - offset) / 8 = j - offset / 8 := by omega
      have h2 : (8 * j + k - offset) % 8 = k - offset % 8 := by omega
      simp [hlow, h1, h2, test_of_le _ (show 8 ≤ 8 - offset % 8 + k by omega)]
    · have h1 : (8 * j + k - offset) / 8 = j - offset / 8 - 1 := by omega
      have h2 : (8 * j + k - offset) % 8 = 8 - offset % 8 + k := by omega
      simp [hlow, h1, h2, show offset / 8 < j by omega]

/-- **Merging** copies the first bits of the source to the range that begins at
the offset and leaves every other bit. -/
theorem isSet_merge (b : Bitmap) (offset : Nat) (source : Bitmap) (n i : Nat) :
    (b.merge offset source n).isSet i =
      if offset ≤ i ∧ i < offset + n ∧ i < b.capacity then source.isSet (i - offset)
      else b.isSet i := by
  have hdiv : 8 * (i / 8) + i % 8 = i := Nat.div_add_mod i 8
  have hbit : i % 8 < 8 := Nat.mod_lt _ (by decide)
  rw [merge, isSet_mapIdx b _
    (fun i => if offset ≤ i ∧ i < offset + n then source.isSet (i - offset) else b.isSet i) i]
  · by_cases hi : i < b.capacity
    · simp [hi]
    · simp [hi, isSet_of_capacity_le (Nat.le_of_not_lt hi)]
  · simp only [test_blend _ _ _ hbit, test_spanMask _ _ _ hbit, hdiv, decide_eq_true_eq, isSet_eq]
    by_cases hin : offset ≤ i ∧ i < offset + n
    · rw [if_pos hin, if_pos hin, test_shifted source hbit (by omega), hdiv, isSet_eq]
    · rw [if_neg hin, if_neg hin]

/-- A bitmap is its length and its bits. -/
theorem eq_of_isSet {a b : Bitmap} (hlen : a.bytes.length = b.bytes.length)
    (h : ∀ i < a.capacity, a.isSet i = b.isSet i) : a = b := by
  have hbytes : a.bytes = b.bytes := by
    refine List.ext_getElem hlen fun j hj hj' => eq_of_test fun k hk => ?_
    have := h (8 * j + k) (by simp only [capacity]; omega)
    simp only [isSet_eq, show (8 * j + k) / 8 = j by omega, show (8 * j + k) % 8 = k by omega] at this
    simpa [List.getD_eq_getElem?_getD, hj, hj'] using this
  cases a; cases b; simpa using hbytes

/-! ## Counting -/

theorem zeros_eq (byte : UInt8) : zeros byte = (List.range 8).countP fun k => !test byte k := by
  refine List.countP_congr fun k hk => ?_
  have := and_bit_ne_zero byte k
  rw [Nat.mod_eq_of_lt (List.mem_range.mp hk)] at this
  rw [← this]
  simp [bne]

theorem countP_range_add (p : Nat → Bool) (m n : Nat) :
    (List.range (m + n)).countP p =
      (List.range m).countP p + (List.range n).countP fun i => p (m + i) := by
  rw [List.range_add, List.countP_append, List.countP_map]
  rfl

theorem total_zeros_take (b : Bitmap) {m : Nat} (hm : m ≤ b.bytes.length) :
    total ((b.bytes.take m).map zeros) = (List.range (8 * m)).countP fun i => !b.isSet i := by
  induction m with
  | zero => rfl
  | succ m ih =>
    have hlt : m < b.bytes.length := hm
    rw [List.take_succ_eq_append_getElem hlt, List.map_append, total_append, ih (by omega),
      Nat.mul_succ, countP_range_add]
    simp only [List.map_cons, List.map_nil, total, Nat.add_zero, zeros_eq]
    congr 1
    refine List.countP_congr fun k hk => ?_
    have hk8 : k < 8 := List.mem_range.mp hk
    rw [isSet_eq, show (8 * m + k) / 8 = m by omega, show (8 * m + k) % 8 = k by omega]
    simp [List.getD_eq_getElem?_getD, hlt]

theorem zeros_or_not_lowMask (byte : UInt8) {r : Nat} (hr : r ≤ 8) :
    zeros (byte ||| ~~~lowMask r) = (List.range r).countP fun k => !test byte k := by
  rw [zeros_eq, show 8 = r + (8 - r) by omega, countP_range_add]
  have hlow : (List.range r).countP (fun k => !test (byte ||| ~~~lowMask r) k) =
      (List.range r).countP fun k => !test byte k := by
    refine List.countP_congr fun k hk => ?_
    have hkr : k < r := List.mem_range.mp hk
    have hk8 : k < 8 := by omega
    simp [test_not hk8, test_lowMask _ hk8, hkr]
  have hhigh : (List.range (8 - r)).countP (fun i => !test (byte ||| ~~~lowMask r) (r + i)) = 0 := by
    refine List.countP_eq_zero.mpr fun i hi => ?_
    have hk8 : r + i < 8 := by have := List.mem_range.mp hi; omega
    simp [test_not hk8, test_lowMask _ hk8]
  rw [hlow, hhigh, Nat.add_zero]

/-- **Counting** by bytes gives the number of clear bits below `n`. -/
theorem countClear_eq (b : Bitmap) {n : Nat} (hn : n ≤ b.capacity) :
    b.countClear n = (List.range n).countP fun i => !b.isSet i := by
  simp only [capacity] at hn
  have hsplit : 8 * (n / 8) + n % 8 = n := Nat.div_add_mod n 8
  have hlast : (if n % 8 = 0 then 0 else zeros (b.bytes.getD (n / 8) 0 ||| ~~~lowMask (n % 8))) =
      (List.range (n % 8)).countP fun k => !b.isSet (8 * (n / 8) + k) := by
    by_cases hr : n % 8 = 0
    · simp [hr]
    · rw [if_neg hr, zeros_or_not_lowMask _ (by omega)]
      refine List.countP_congr fun k hk => ?_
      have hk8 : k < n % 8 := List.mem_range.mp hk
      rw [isSet_eq, show (8 * (n / 8) + k) / 8 = n / 8 by omega,
        show (8 * (n / 8) + k) % 8 = k by omega]
  rw [countClear, total_zeros_take b (by omega), hlast, ← countP_range_add, hsplit]

end Columnar.Bitmap
