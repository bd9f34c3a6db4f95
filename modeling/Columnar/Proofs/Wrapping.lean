/-
Floating-point numbers wrapped into integers, by the value of their bits.

The sign, exponent and fraction fields of a double give it an exact value, a rational
number (`Binary.value`). What the double stands for elsewhere is that value
(`Binary.datum_of_fields`), so what it is cut off to is the whole part of the value
(`Binary.truncated_of_fields`). A word takes that over modulo its size, however far
the value is from its range.
-/
import Mathlib.Data.Int.ModEq
import Mathlib.Data.Rat.Floor
import Columnar.Proofs.Exactness

namespace Columnar

namespace Binary

/-! ## Fields and values -/

/-- The exponent field of a double; all ones for what is not finite. -/
def exponentField (bits : BitVec 64) : Nat := bits.toNat / 2 ^ 52 % 2 ^ 11

/-- The fraction field of a double. -/
def fractionField (bits : BitVec 64) : Nat := bits.toNat % 2 ^ 52

/-- The fraction with its leading one, which subnormal numbers do not have. -/
def significand (bits : BitVec 64) : Nat :=
  if exponentField bits = 0 then fractionField bits else 2 ^ 52 + fractionField bits

/-- The exact value of a finite double. -/
def value (bits : BitVec 64) : ℚ :=
  (if bits.msb then -1 else 1) * significand bits * 2 ^ (max 1 (exponentField bits : ℤ) - 1075)

/-- The exact value truncated toward zero. -/
def wholePart (bits : BitVec 64) : ℤ := if bits.msb then -⌊|value bits|⌋ else ⌊|value bits|⌋

variable {bits : BitVec 64}

/-- **What a double stands for**, by its fields. -/
theorem datum_of_fields (bits : BitVec 64) :
    (⟨bits⟩ : Binary .double).datum =
      if exponentField bits = 2047 then if fractionField bits = 0 then .infinite bits.msb else .nan
      else .finite bits.msb (significand bits) (max 1 (exponentField bits : ℤ) - 1075) := by
  have hexponent : bits.toNat % 2 ^ 63 / 2 ^ 52 = exponentField bits := by
    rw [exponentField]
    omega
  have hfraction : bits.toNat % 2 ^ 63 % 2 ^ 52 = fractionField bits := by
    rw [fractionField]
    omega
  have hdatum : (⟨bits⟩ : Binary .double).datum =
      if exponentField bits = 2047 then if fractionField bits = 0 then .infinite bits.msb else .nan
      else if exponentField bits = 0 then .finite bits.msb (fractionField bits) (-1074)
      else .finite bits.msb (2 ^ 52 + fractionField bits) (-1074 + exponentField bits - 1) := by
    rw [← hexponent, ← hfraction]
    rfl
  rw [hdatum, significand]
  split
  next => rfl
  next =>
    split
    next hzero => rw [hzero]; rfl
    next hzero =>
      congr 1
      omega

theorem floor_mul_zpow (m : Nat) (e : ℤ) :
    ⌊(m : ℚ) * 2 ^ e⌋ = ((m * 2 ^ e.toNat / 2 ^ (-e).toNat : Nat) : ℤ) := by
  by_cases he : 0 ≤ e
  · obtain ⟨k, rfl⟩ := Int.eq_ofNat_of_zero_le he
    have hwhole : (m : ℚ) * 2 ^ (k : ℤ) = ((m * 2 ^ k : Nat) : ℚ) := by
      push_cast
      rw [zpow_natCast]
    rw [hwhole, Int.floor_natCast]
    simp
  · obtain ⟨k, rfl⟩ : ∃ k : Nat, e = -k := ⟨(-e).toNat, by omega⟩
    have hquotient : (m : ℚ) * 2 ^ (-k : ℤ) = (m : ℚ) / ((2 ^ k : Nat) : ℚ) := by
      push_cast
      rw [zpow_neg, zpow_natCast, div_eq_mul_inv]
    rw [hquotient, Rat.floor_natCast_div_natCast]
    simp

/-- **What a double is cut off to** is the whole part of its value. -/
theorem truncated_of_fields (h : exponentField bits ≠ 2047) :
    (⟨bits⟩ : Binary .double).datum.truncated = wholePart bits := by
  have hscale : (0 : ℚ) ≤ 2 ^ (max 1 (exponentField bits : ℤ) - 1075) := zpow_nonneg two_pos.le _
  have habs : |value bits| = (significand bits : ℚ) * 2 ^ (max 1 (exponentField bits : ℤ) - 1075) := by
    rw [value, abs_mul, abs_mul, abs_of_nonneg hscale, Nat.abs_cast]
    split <;> simp
  rw [datum_of_fields, if_neg h, wholePart, habs, floor_mul_zpow]
  rfl

/-! ## Words -/

/-- A signed word is the one integer of its range that is congruent to what it is made of. -/
theorem eq_toInt_ofInt_iff (w : Width) (n v : ℤ) :
    n = (BitVec.ofInt w.bits v).toInt ↔
      -2 ^ (w.bits - 1) ≤ n ∧ n < 2 ^ (w.bits - 1) ∧ n ≡ v [ZMOD 2 ^ w.bits] := by
  have hsize : ((2 ^ w.bits : Nat) : ℤ) = 2 ^ w.bits := by norm_cast
  have hhalf : (2 : ℤ) ^ w.bits = 2 * 2 ^ (w.bits - 1) := by cases w <;> rfl
  constructor
  · rintro rfl
    refine ⟨BitVec.le_toInt _, BitVec.toInt_lt, ?_⟩
    rw [BitVec.toInt_ofInt, Int.ModEq, ← hsize, Int.bmod_emod]
  · rintro ⟨hlow, hhigh, hmod⟩
    rw [Int.ModEq, ← hsize] at hmod
    rw [BitVec.toInt_ofInt, ← Int.emod_bmod, ← hmod, Int.emod_bmod]
    exact (Int.bmod_eq_of_le_mul_two (by omega) (by omega)).symm

/-- **Wrapping is arithmetic modulo the size of the word.** For every pattern of 64 bits read as a
double, what is not finite becomes zero, and everything else the one signed integer of 64
bits that is congruent to its exact value truncated toward zero. Put into a form of fewer bits, it
becomes the one signed integer of that many bits that is congruent to the same. -/
theorem wrapToInt_exact (bits : BitVec 64) :
    let x : Binary .double := ⟨bits⟩
    (exponentField bits = 2047 → x.wrapToInt = 0) ∧
      (exponentField bits ≠ 2047 →
        (∀ n : ℤ, n = x.wrapToInt ↔
          -2 ^ 63 ≤ n ∧ n < 2 ^ 63 ∧ n ≡ wholePart bits [ZMOD 2 ^ 64]) ∧
        ∀ (w : Width) (n : ℤ), n = BitVec.toInt (Number.toElement (.int w) (.float x)) ↔
          -2 ^ (w.bits - 1) ≤ n ∧ n < 2 ^ (w.bits - 1) ∧ n ≡ wholePart bits [ZMOD 2 ^ w.bits]) := by
  intro x
  have hword : x.wrapToInt = (BitVec.ofInt Width.w64.bits x.datum.truncated).toInt := by
    rw [wrapToInt_eq_bmod, BitVec.toInt_ofInt]
  refine ⟨fun h => ?_, fun h => ?_⟩
  · have hzero : x.datum.truncated = 0 := by
      rw [datum_of_fields, if_pos h]
      split <;> rfl
    rw [hword, hzero]
    rfl
  · rw [truncated_of_fields h] at hword
    have hwhole : x.wrapToInt ≡ wholePart bits [ZMOD 2 ^ 64] := ((eq_toInt_ofInt_iff .w64 _ _).mp hword).2.2
    refine ⟨fun n => hword ▸ eq_toInt_ofInt_iff .w64 n _, fun w n => ?_⟩
    have hdvd : (2 : ℤ) ^ w.bits ∣ 2 ^ 64 := by cases w <;> decide
    rw [Int.ModEq, ← (hwhole.of_dvd hdvd).eq]
    exact eq_toInt_ofInt_iff w n x.wrapToInt

/-- A number past the range of a word, a negative one with a fraction, and an infinity. -/
theorem wrapToInt_exact_past_range :
    let long : BitVec 64 := 0x43F0000000000001
    let broken : BitVec 64 := 0xC072C80000000000
    let infinite : BitVec 64 := 0xFFF0000000000000
    (exponentField long ≠ 2047 ∧ value long = 2 ^ 64 + 4096 ∧ (⟨long⟩ : Binary .double).wrapToInt = 4096) ∧
      (exponentField broken ≠ 2047 ∧ value broken = -601 / 2 ∧
        BitVec.toInt (Number.toElement (.int .w8) (.float ⟨broken⟩)) = -44) ∧
      exponentField infinite = 2047 ∧ (⟨infinite⟩ : Binary .double).wrapToInt = 0 := by
  intro long broken infinite
  have hlong : value long = 2 ^ 64 + 4096 := by
    have hexponent : exponentField long = 1087 := by decide
    have hsignificand : significand long = 2 ^ 52 + 1 := by decide
    rw [value, if_neg (by decide), hexponent, hsignificand]
    norm_num
  have hbroken : value broken = -601 / 2 := by
    have hexponent : exponentField broken = 1031 := by decide
    have hsignificand : significand broken = 601 * 2 ^ 43 := by decide
    rw [value, if_pos (by decide), hexponent, hsignificand]
    norm_num
  refine ⟨⟨by decide, hlong, ?_⟩, ⟨by decide, hbroken, ?_⟩, by decide,
    (wrapToInt_exact infinite).1 (by decide)⟩
  · refine (((wrapToInt_exact long).2 (by decide)).1 4096).mpr ⟨by decide, by decide, ?_⟩ |>.symm
    have hwhole : wholePart long = 2 ^ 64 + 4096 := by
      rw [wholePart, if_neg (by decide), hlong]
      norm_num
    rw [hwhole]
    decide
  · refine (((wrapToInt_exact broken).2 (by decide)).2 .w8 (-44)).mpr ⟨by decide, by decide, ?_⟩ |>.symm
    have hwhole : wholePart broken = -300 := by
      rw [wholePart, if_pos (by decide), hbroken]
      norm_num
    rw [hwhole]
    decide

end Binary

end Columnar
