/-
What numbers stand for, whatever form they are in.

A floating-point number is put together of a sign and a magnitude and taken apart
into a datum (`Binary.datum_ofParts`). Doubles hold every number exactly: the datum
of a number is kept, with a longer significand (`Binary.refines_toDouble`), so it
does not matter whether it is looked at before or after. Whether a number is a zero is
a matter of its datum (`Binary.isZero_iff_datum`), and so is its integer part
(`Datum.Refines.truncated_eq`).
-/
import Columnar.Number
import Columnar.Proofs.Bytes

namespace Columnar

/-! ## Data of floating-point numbers -/

/-- That a datum is another one with a longer significand. -/
inductive Datum.Refines : Datum → Datum → Prop
  | nan : Refines nan nan
  | infinite (negative : Bool) : Refines (infinite negative) (infinite negative)
  | finite (negative : Bool) (m k : Nat) (e : Int) :
      Refines (finite negative (m * 2 ^ k) (e - k)) (finite negative m e)

namespace Datum

variable {d d' : Datum}

theorem Refines.refl (d : Datum) : d.Refines d := by
  cases d with
  | nan => exact .nan
  | infinite negative => exact .infinite negative
  | finite negative m e => simpa using Refines.finite negative m 0 e

/-- The integer part does not depend on the length of the significand. -/
theorem Refines.truncated_eq (h : d.Refines d') : d.truncated = d'.truncated := by
  cases h with
  | nan => rfl
  | infinite => rfl
  | finite negative m k e =>
    have hexponents : k + (e - k).toNat + (-e).toNat = e.toNat + (-(e - k)).toNat := by omega
    have hmagnitude : m * 2 ^ k * 2 ^ (e - k).toNat / 2 ^ (-(e - k)).toNat =
        m * 2 ^ e.toNat / 2 ^ (-e).toNat :=
      calc m * 2 ^ k * 2 ^ (e - k).toNat / 2 ^ (-(e - k)).toNat
        _ = m * 2 ^ (k + (e - k).toNat + (-e).toNat) / 2 ^ ((-e).toNat + (-(e - k)).toNat) := by
          rw [Nat.mul_assoc, ← Nat.pow_add, Nat.pow_add 2 (k + _), ← Nat.mul_assoc,
            Nat.add_comm (-e).toNat, Nat.pow_add 2 (-(e - k)).toNat,
            Nat.mul_div_mul_right _ _ (Nat.two_pow_pos _)]
        _ = m * 2 ^ e.toNat / 2 ^ (-e).toNat := by
          rw [hexponents, Nat.pow_add, Nat.pow_add, ← Nat.mul_assoc,
            Nat.mul_div_mul_right _ _ (Nat.two_pow_pos _)]
    simp only [truncated, hmagnitude]

end Datum

namespace Precision

/-- Fraction and exponent are what there is beside the sign. -/
theorem bits_sub_one (p : Precision) : p.bits - 1 = p.exponentBits + p.fractionBits := by
  rw [bits, Nat.add_sub_cancel, Nat.add_comm]

end Precision

namespace Binary

variable {p : Precision}

/-! ## Signs and magnitudes -/

/-- The bits beside the sign. -/
def magnitude (x : Binary p) : Nat := x.bits.toNat % 2 ^ (p.bits - 1)

theorem toNat_ofParts {m : Nat} (negative : Bool) (h : m < 2 ^ (p.bits - 1)) :
    (ofParts p negative m).bits.toNat = cond negative (2 ^ (p.bits - 1)) 0 + m := by
  have hbits : 2 ^ p.bits = 2 * 2 ^ (p.bits - 1) := by cases p <;> rfl
  rw [ofParts, BitVec.toNat_ofNat, hbits, Nat.mod_eq_of_lt]
  cases negative <;> simp only [cond_true, cond_false] <;> omega

theorem magnitude_ofParts {m : Nat} (negative : Bool) (h : m < 2 ^ (p.bits - 1)) :
    (ofParts p negative m).magnitude = m := by
  rw [magnitude, toNat_ofParts negative h]
  cases negative <;> simp [Nat.mod_eq_of_lt h]

theorem msb_ofParts {m : Nat} (negative : Bool) (h : m < 2 ^ (p.bits - 1)) :
    (ofParts p negative m).bits.msb = negative := by
  rw [BitVec.msb_eq_decide, toNat_ofParts negative h]
  cases negative <;> simp [h]

/-- Every number is its sign and its magnitude. -/
theorem eq_ofParts (x : Binary p) : x = ofParts p x.bits.msb x.magnitude := by
  have hlt : x.magnitude < 2 ^ (p.bits - 1) := Nat.mod_lt _ (Nat.two_pow_pos _)
  have hbits : 2 ^ p.bits = 2 * 2 ^ (p.bits - 1) := by cases p <;> rfl
  have hx : x.bits.toNat < 2 ^ p.bits := x.bits.isLt
  have hnat : x.bits.toNat = (ofParts p x.bits.msb x.magnitude).bits.toNat := by
    rw [toNat_ofParts _ hlt, BitVec.msb_eq_decide, magnitude]
    have hdiv := Nat.div_add_mod x.bits.toNat (2 ^ (p.bits - 1))
    by_cases hneg : 2 ^ (p.bits - 1) ≤ x.bits.toNat
    · rw [Nat.mod_eq_sub_mod hneg, Nat.mod_eq_of_lt (by omega)]
      simp [hneg]
    · rw [Nat.mod_eq_of_lt (by omega)]
      simp [hneg]
  obtain ⟨bits⟩ := x
  exact congrArg Binary.mk (BitVec.eq_of_toNat_eq hnat)

/-- What a sign and a magnitude stand for. -/
theorem datum_ofParts {m : Nat} (negative : Bool) (h : m < 2 ^ (p.bits - 1)) :
    (ofParts p negative m).datum =
      if m / 2 ^ p.fractionBits = 2 ^ p.exponentBits - 1 then
        if m % 2 ^ p.fractionBits = 0 then .infinite negative else .nan
      else if m / 2 ^ p.fractionBits = 0 then .finite negative (m % 2 ^ p.fractionBits) p.leastExponent
      else .finite negative (2 ^ p.fractionBits + m % 2 ^ p.fractionBits)
        (p.leastExponent + (m / 2 ^ p.fractionBits : Nat) - 1) := by
  have hmagnitude := magnitude_ofParts negative h
  rw [magnitude] at hmagnitude
  simp only [datum, msb_ofParts negative h, hmagnitude]

/-- How long a significand is, and how far an exponent reaches. -/
theorem bounds_of_datum {x : Binary p} {negative : Bool} {m : Nat} {e : Int}
    (h : x.datum = .finite negative m e) :
    m < 2 ^ (p.fractionBits + 1) ∧ p.leastExponent ≤ e ∧ e + 2 < p.leastExponent + 2 ^ p.exponentBits := by
  have hlt : x.magnitude < 2 ^ (p.bits - 1) := Nat.mod_lt _ (Nat.two_pow_pos _)
  have hfraction : x.magnitude % 2 ^ p.fractionBits < 2 ^ p.fractionBits :=
    Nat.mod_lt _ (Nat.two_pow_pos _)
  have hexponent : x.magnitude / 2 ^ p.fractionBits < 2 ^ p.exponentBits := by
    rw [Nat.div_lt_iff_lt_mul (Nat.two_pow_pos _), ← Nat.pow_add, ← p.bits_sub_one]
    exact hlt
  have hpow : (2 : Int) ^ p.exponentBits = (2 ^ p.exponentBits : Nat) := by norm_cast
  have hroom : 2 < 2 ^ p.exponentBits := by cases p <;> decide
  rw [x.eq_ofParts, datum_ofParts _ hlt] at h
  rw [Nat.pow_succ, hpow]
  generalize x.magnitude / 2 ^ p.fractionBits = exponent at h hexponent
  split at h
  next => split at h <;> cases h
  next =>
    split at h
    next =>
      cases h
      omega
    next =>
      cases h
      omega

/-! ## Zeros -/

/-- A zero is a zero of either sign. -/
theorem isZero_iff {x : Binary p} : x.isZero ↔ x = ofParts p false 0 ∨ x = ofParts p true 0 := by
  have hzero : x.isZero ↔ x.magnitude = 0 := beq_iff_eq
  rw [hzero]
  constructor
  · intro h
    have hx := x.eq_ofParts
    rw [h] at hx
    cases hneg : x.bits.msb with
    | false => exact .inl (hneg ▸ hx)
    | true => exact .inr (hneg ▸ hx)
  · rintro (rfl | rfl) <;> exact magnitude_ofParts _ (Nat.two_pow_pos _)

/-- A zero is a number without significand. -/
theorem isZero_iff_datum {x : Binary p} : x.isZero ↔ ∃ negative e, x.datum = .finite negative 0 e := by
  have hzero : x.isZero ↔ x.magnitude = 0 := beq_iff_eq
  have hlt : x.magnitude < 2 ^ (p.bits - 1) := Nat.mod_lt _ (Nat.two_pow_pos _)
  have hdatum := datum_ofParts x.bits.msb hlt
  rw [← x.eq_ofParts] at hdatum
  rw [hzero, hdatum]
  constructor
  · intro h
    rw [h, if_neg (by cases p <;> decide), if_pos (by simp), Nat.zero_mod]
    exact ⟨_, _, rfl⟩
  · rintro ⟨negative, e, h⟩
    have hpos := Nat.two_pow_pos p.fractionBits
    split at h
    next => split at h <;> cases h
    next =>
      split at h
      next hexponent =>
        simp only [Datum.finite.injEq] at h
        have := Nat.div_add_mod x.magnitude (2 ^ p.fractionBits)
        rw [hexponent, h.2.1] at this
        simpa using this.symm
      next =>
        simp only [Datum.finite.injEq] at h
        omega

/-! ## Doubles -/

/-- A significand of full length begins with a one. -/
theorem lengthened_significand {m n : Nat} (hm : m ≠ 0) (hlength : m.log2 ≤ n) :
    2 ^ n ≤ m * 2 ^ (n - m.log2) ∧ m * 2 ^ (n - m.log2) < 2 ^ n + 2 ^ n := by
  constructor
  · calc 2 ^ n = 2 ^ m.log2 * 2 ^ (n - m.log2) := by rw [← Nat.pow_add, Nat.add_sub_cancel' hlength]
      _ ≤ m * 2 ^ (n - m.log2) := Nat.mul_le_mul_right _ (Nat.log2_self_le hm)
  · calc m * 2 ^ (n - m.log2) < 2 ^ (m.log2 + 1) * 2 ^ (n - m.log2) :=
          Nat.mul_lt_mul_of_pos_right Nat.lt_log2_self (Nat.two_pow_pos _)
      _ = 2 ^ n + 2 ^ n := by
        rw [← Nat.pow_add, show m.log2 + 1 + (n - m.log2) = n + 1 by omega, Nat.pow_add_one, Nat.mul_two]

/-- What a fraction and an exponent of full length stand for. -/
theorem datum_ofParts_of_normal {q : Precision} {r u : Nat} (negative : Bool) (hr : r < 2 ^ q.fractionBits)
    (hu : u + 2 < 2 ^ q.exponentBits) :
    r + (u + 1) * 2 ^ q.fractionBits ≤ q.infinityBits ∧
      (ofParts q negative (r + (u + 1) * 2 ^ q.fractionBits)).datum =
        .finite negative (2 ^ q.fractionBits + r) (q.leastExponent + u) := by
  have hfits : r + (u + 1) * 2 ^ q.fractionBits ≤ q.infinityBits := by
    refine Nat.le_trans ?_ (Nat.mul_le_mul_right _ (show u + 2 ≤ 2 ^ q.exponentBits - 1 by omega))
    rw [show u + 2 = u + 1 + 1 from rfl, Nat.succ_mul (u + 1)]
    omega
  have hinf : q.infinityBits < 2 ^ (q.bits - 1) := by cases q <;> decide
  have hdiv : (r + (u + 1) * 2 ^ q.fractionBits) / 2 ^ q.fractionBits = u + 1 := by
    rw [Nat.add_mul_div_right _ _ (Nat.two_pow_pos _), Nat.div_eq_of_lt hr, Nat.zero_add]
  have hmod : (r + (u + 1) * 2 ^ q.fractionBits) % 2 ^ q.fractionBits = r := by
    rw [Nat.add_mul_mod_self_right, Nat.mod_eq_of_lt hr]
  refine ⟨hfits, ?_⟩
  rw [datum_ofParts negative (Nat.lt_of_le_of_lt hfits hinf), hdiv, hmod, if_neg (by omega),
    if_neg (by omega)]
  congr 1
  omega

/-- **A number in the reach of a precision** is held exactly, with a significand of full
length. -/
theorem datum_ofDyadic {q : Precision} {m : Nat} {e : Int} (negative : Bool) (hm : m ≠ 0)
    (hlength : m.log2 ≤ q.fractionBits) (hleast : q.leastExponent ≤ e + m.log2 - q.fractionBits)
    (hgreatest : e + m.log2 - q.fractionBits < q.leastExponent + (2 ^ q.exponentBits : Nat) - 2) :
    (ofDyadic q negative m e).datum =
      .finite negative (m * 2 ^ (q.fractionBits - m.log2)) (e - (q.fractionBits - m.log2 : Nat)) := by
  obtain ⟨hlow, hhigh⟩ := lengthened_significand hm hlength
  obtain ⟨r, hr⟩ := Nat.exists_eq_add_of_le hlow
  -- The unit of the significand, counted from the least one.
  obtain ⟨u, hu⟩ : ∃ u : Nat, e + m.log2 - q.fractionBits - q.leastExponent = u :=
    ⟨_, (Int.toNat_of_nonneg (by omega)).symm⟩
  obtain ⟨hfits, hdatum⟩ := datum_ofParts_of_normal negative (show r < 2 ^ q.fractionBits by omega)
    (show u + 2 < 2 ^ q.exponentBits by omega)
  have hunit : max q.leastExponent (e + m.log2 - q.fractionBits) = e + m.log2 - q.fractionBits := by omega
  have hscaled : rescale m e (e + m.log2 - q.fractionBits) = 2 ^ q.fractionBits + r := by
    rw [rescale, if_pos (by omega), ← hr]
    congr 2
    omega
  have hsum : 2 ^ q.fractionBits + r + u * 2 ^ q.fractionBits = r + (u + 1) * 2 ^ q.fractionBits := by
    rw [Nat.succ_mul]
    omega
  rw [ofDyadic, if_neg hm]
  simp only [hunit, hscaled, hu, Int.toNat_natCast, hsum, Nat.min_eq_left hfits]
  rw [hdatum, hr]
  congr 1
  omega

/-- **Doubles hold every number exactly.** -/
theorem refines_toDouble (x : Binary p) : x.toDouble.datum.Refines x.datum := by
  cases p with
  | double => exact .refl _
  | single =>
    rw [toDouble, resize]
    cases hx : x.datum with
    | nan =>
      rw [show (nan .double).datum = .nan by decide +kernel]
      exact .nan
    | infinite negative =>
      rw [show (infinity .double negative).datum = .infinite negative by
        cases negative <;> decide +kernel]
      exact .infinite negative
    | finite negative m e =>
      obtain ⟨hm, hleast, hgreatest⟩ := bounds_of_datum hx
      simp only [show Precision.single.leastExponent = -149 by decide] at hleast hgreatest
      by_cases hzero : m = 0
      · subst hzero
        have hdatum : (ofDyadic .double negative 0 e).datum = .finite negative 0 (-1074) := by
          rw [ofDyadic, if_pos rfl]
          cases negative <;> decide +kernel
        have := Datum.Refines.finite negative 0 (e + 1074).toNat e
        rwa [Nat.zero_mul, show e - (e + 1074).toNat = -1074 by omega, ← hdatum] at this
      · have hlength : m.log2 < 24 := (Nat.log2_lt hzero).mpr hm
        rw [datum_ofDyadic negative hzero]
        · exact .finite _ _ _ _
        all_goals
          simp only [Precision.fractionBits, Precision.exponentBits,
            show Precision.double.leastExponent = -1074 by decide] at *
          omega

/-- Whether a number is a zero can be asked of the double. -/
theorem isZero_toDouble (x : Binary p) : x.toDouble.isZero = x.isZero := by
  rw [Bool.eq_iff_iff, isZero_iff_datum, isZero_iff_datum]
  have h := x.refines_toDouble
  generalize x.toDouble.datum = d, x.datum = d' at h ⊢
  cases h with
  | nan => simp
  | infinite => simp
  | finite negative m k e =>
    have hzero : m * 2 ^ k = 0 ↔ m = 0 := by
      rw [Nat.mul_eq_zero, or_iff_left (Nat.ne_of_gt (Nat.two_pow_pos k))]
    simp only [Datum.finite.injEq, hzero, exists_and_left, exists_eq', and_true]

end Binary

end Columnar
