/-
Operations on floating-point numbers that are exact.

Every finite number is a multiple of the least positive one. `Binary.Is` tells which
multiple a number is, so what an operation makes of numbers is told in integers. A
multiple is a number if its significand is not too long (`Precision.Exact`); then it is
held as it is, in whatever unit it comes (`Binary.is_ofDyadic`). Remainders are always
such multiples (`Binary.Is.rem`), sums where their significand allows it
(`Binary.Is.add`), and whole numbers are multiples of `Precision.unity`.

The word of a number (`Binary.toWord_eq_ofInt`) follows its way through truncation,
comparison with the ends of the signed range, and the remainder by the number of words.
-/
import Columnar.Proofs.Numbers

namespace Columnar

/-! ## Multiples of the least number -/

namespace Precision

/-- How many of the least positive number make one. -/
def unity (p : Precision) : Nat := 2 ^ (-p.leastExponent).toNat

/-- That so many of the least positive number make a number: the significand is not too long,
nor the exponent too great. -/
structure Exact (p : Precision) (n : Nat) : Prop where
  short : ∃ m k : Nat, m < 2 ^ (p.fractionBits + 1) ∧ n = m * 2 ^ k
  lt : n < 2 ^ (p.fractionBits + 2 ^ p.exponentBits - 2)

theorem leastExponent_le (p : Precision) : p.leastExponent ≤ 0 := by cases p <;> decide

theorem unity_pos (p : Precision) : 0 < p.unity := Nat.two_pow_pos _

theorem unity_eq (p : Precision) {e : Int} (he : p.leastExponent ≤ e) (hneg : e ≤ 0) :
    p.unity = 2 ^ (-e).toNat * 2 ^ (e - p.leastExponent).toNat := by
  rw [unity, ← Nat.pow_add]
  congr 1
  omega

/-- Multiples of a power of two are numbers, so far as a significand reaches. -/
theorem exact_of_dvd {p : Precision} {n j : Nat} (hdvd : 2 ^ j ∣ n) (hn : n < 2 ^ (p.fractionBits + 1 + j))
    (hj : p.fractionBits + 1 + j + (-p.leastExponent).toNat ≤ p.fractionBits + 2 ^ p.exponentBits - 2) :
    p.Exact (n * p.unity) := by
  obtain ⟨m, rfl⟩ := hdvd
  rw [Nat.mul_comm, Nat.pow_add, Nat.mul_lt_mul_right (Nat.two_pow_pos j)] at hn
  rw [unity, Nat.mul_comm (2 ^ j), Nat.mul_assoc, ← Nat.pow_add]
  refine ⟨⟨m, _, hn, rfl⟩, ?_⟩
  calc m * 2 ^ (j + (-p.leastExponent).toNat)
    _ < 2 ^ (p.fractionBits + 1) * 2 ^ (j + (-p.leastExponent).toNat) :=
      Nat.mul_lt_mul_of_pos_right hn (Nat.two_pow_pos _)
    _ = 2 ^ (p.fractionBits + 1 + j + (-p.leastExponent).toNat) := by rw [← Nat.pow_add, Nat.add_assoc _ j]
    _ ≤ 2 ^ (p.fractionBits + 2 ^ p.exponentBits - 2) := Nat.pow_le_pow_right (by decide) hj

/-- A whole number that is longer than a significand is a multiple of a power of two. -/
theorem Exact.dvd {p : Precision} {n j : Nat} (h : p.Exact (n * p.unity))
    (hlong : 2 ^ (p.fractionBits + j) ≤ n) : 2 ^ j ∣ n := by
  obtain ⟨m, k, hm, heq⟩ := h.short
  have hlt : 2 ^ (p.fractionBits + j + (-p.leastExponent).toNat) < 2 ^ (p.fractionBits + 1 + k) := by
    calc 2 ^ (p.fractionBits + j + (-p.leastExponent).toNat)
      _ = 2 ^ (p.fractionBits + j) * p.unity := Nat.pow_add ..
      _ ≤ m * 2 ^ k := heq ▸ Nat.mul_le_mul_right _ hlong
      _ < 2 ^ (p.fractionBits + 1) * 2 ^ k := Nat.mul_lt_mul_of_pos_right hm (Nat.two_pow_pos k)
      _ = 2 ^ (p.fractionBits + 1 + k) := (Nat.pow_add ..).symm
  have hexponents := (Nat.pow_lt_pow_iff_right (by decide)).mp hlt
  have hsplit : m * 2 ^ k = m * 2 ^ (k - (-p.leastExponent).toNat) * p.unity := by
    rw [unity, Nat.mul_assoc, ← Nat.pow_add]
    congr 2
    omega
  rw [Nat.eq_of_mul_eq_mul_right p.unity_pos (heq.trans hsplit)]
  exact Nat.dvd_mul_left_of_dvd (Nat.pow_dvd_pow 2 (by omega)) m

/-- A remainder has no longer a significand than both its terms. -/
theorem Exact.mod {p : Precision} {m n : Nat} (hm : p.Exact m) (hn : p.Exact n) : p.Exact (m % n) := by
  refine ⟨?_, Nat.lt_of_le_of_lt (Nat.mod_le m n) hm.lt⟩
  obtain ⟨m', j, hm', rfl⟩ := hm.short
  obtain ⟨n', k, hn', rfl⟩ := hn.short
  by_cases hzero : n' = 0
  · rw [hzero, Nat.zero_mul, Nat.mod_zero]
    exact ⟨m', j, hm', rfl⟩
  by_cases hjk : j ≤ k
  · refine ⟨m' % (n' * 2 ^ (k - j)), j, Nat.lt_of_le_of_lt (Nat.mod_le ..) hm', ?_⟩
    rw [← Nat.mul_mod_mul_right, Nat.mul_assoc, ← Nat.pow_add, Nat.sub_add_cancel hjk]
  · refine ⟨m' * 2 ^ (j - k) % n', k, Nat.lt_trans (Nat.mod_lt _ (by omega)) hn', ?_⟩
    rw [← Nat.mul_mod_mul_right, Nat.mul_assoc, ← Nat.pow_add, Nat.sub_add_cancel (by omega)]

end Precision

namespace Binary

variable {p : Precision} {x y : Binary p} {a b : Int} {n : Nat} {negative : Bool}

/-- That a number is finite and so many of the least positive one. -/
def Is (x : Binary p) (n : Int) : Prop :=
  ∃ negative m e, x.datum = .finite negative m e ∧
    n = signed negative (m * 2 ^ (e - p.leastExponent).toNat)

@[simp] theorem natAbs_signed (negative : Bool) (m : Nat) : (signed negative m).natAbs = m := by
  cases negative <;> simp [signed]

/-- An integer is its magnitude with its sign. -/
theorem signed_natAbs (v : Int) : signed (decide (v < 0)) v.natAbs = v := by
  by_cases hneg : v < 0
  · rw [signed, if_pos (decide_eq_true hneg)]
    omega
  · rw [signed, if_neg (ne_true_of_eq_false (decide_eq_false hneg))]
    omega

theorem signed_mul (negative : Bool) (m k : Nat) : signed negative (m * k) = signed negative m * k := by
  cases negative with
  | false => exact Int.natCast_mul m k
  | true => exact (congrArg Int.neg (Int.natCast_mul m k)).trans (Int.neg_mul ..).symm

theorem signed_tmod (s t : Bool) (m n : Nat) : (signed s m).tmod (signed t n) = signed s (m % n) := by
  cases s <;> cases t <;> simp only [signed, if_true, Int.neg_tmod, Int.tmod_neg, Int.ofNat_tmod] <;> rfl

/-! ## Rounding -/

theorem log2_mul_two_pow {m : Nat} (hm : m ≠ 0) (k : Nat) : (m * 2 ^ k).log2 = m.log2 + k := by
  have hpos := Nat.two_pow_pos k
  rw [Nat.log2_eq_iff (Nat.mul_ne_zero hm (Nat.ne_of_gt hpos)), Nat.pow_add, Nat.add_right_comm,
    Nat.pow_add]
  exact ⟨Nat.mul_le_mul_right _ (Nat.log2_self_le hm), Nat.mul_lt_mul_of_pos_right Nat.lt_log2_self hpos⟩

/-- A factor of both parts of a quotient does not matter for its rounding. -/
theorem roundShift_mul (m j k : Nat) : roundShift (m * 2 ^ k) (j + k) = roundShift m j := by
  have hk : 0 < 2 ^ k := Nat.two_pow_pos k
  have hpow : 2 ^ (j + k) = 2 ^ j * 2 ^ k := Nat.pow_add ..
  have hless : 2 ^ j * 2 ^ k < 2 * (m % 2 ^ j * 2 ^ k) ↔ 2 ^ j < 2 * (m % 2 ^ j) := by
    rw [← Nat.mul_assoc, Nat.mul_lt_mul_right hk]
  have heq : 2 * (m % 2 ^ j * 2 ^ k) = 2 ^ j * 2 ^ k ↔ 2 * (m % 2 ^ j) = 2 ^ j := by
    rw [← Nat.mul_assoc, Nat.mul_right_cancel_iff hk]
  simp only [roundShift, hpow, Nat.mul_div_mul_right _ _ hk, Nat.mul_mod_mul_right, hless, heq]

theorem rescale_mul (m k : Nat) (e unit : Int) : rescale (m * 2 ^ k) e unit = rescale m (e + k) unit := by
  by_cases hlow : unit ≤ e
  · rw [rescale, rescale, if_pos hlow, if_pos (by omega), Nat.mul_assoc, ← Nat.pow_add]
    congr 2
    omega
  · rw [rescale, if_neg hlow]
    by_cases hhigh : unit ≤ e + k
    · have hsplit : m * 2 ^ k = m * 2 ^ (e + k - unit).toNat * 2 ^ (unit - e).toNat := by
        rw [Nat.mul_assoc, ← Nat.pow_add]
        congr 2
        omega
      have hexact := roundShift_mul (m * 2 ^ (e + k - unit).toNat) 0 (unit - e).toNat
      rw [Nat.zero_add, ← hsplit] at hexact
      rw [hexact, rescale, if_pos hhigh]
      simp [roundShift, Nat.mod_one]
    · rw [rescale, if_neg hhigh, ← roundShift_mul m _ k]
      congr 1
      omega

/-- **Rounding depends on the value alone.** -/
theorem ofDyadic_mul (p : Precision) (negative : Bool) (m k : Nat) (e : Int) :
    ofDyadic p negative (m * 2 ^ k) e = ofDyadic p negative m (e + k) := by
  by_cases hm : m = 0
  · simp [ofDyadic, hm]
  have hmk : m * 2 ^ k ≠ 0 := Nat.mul_ne_zero hm (Nat.ne_of_gt (Nat.two_pow_pos k))
  rw [ofDyadic, ofDyadic, if_neg hm, if_neg hmk, log2_mul_two_pow hm k]
  simp only [rescale_mul]
  rw [show e + ((m.log2 + k : Nat) : Int) - p.fractionBits = e + k + m.log2 - p.fractionBits by omega]

/-- A subnormal number is its own magnitude. -/
theorem datum_ofDyadic_subnormal (negative : Bool) (h : n < 2 ^ p.fractionBits) :
    (ofDyadic p negative n p.leastExponent).datum = .finite negative n p.leastExponent := by
  have hbits : n < 2 ^ (p.bits - 1) :=
    Nat.lt_trans h (Nat.pow_lt_pow_right (by decide) (by cases p <;> decide))
  have hdatum : (ofParts p negative n).datum = .finite negative n p.leastExponent := by
    rw [datum_ofParts negative hbits, Nat.div_eq_of_lt h, if_neg (by cases p <;> decide), if_pos rfl,
      Nat.mod_eq_of_lt h]
  by_cases hn : n = 0
  · rw [ofDyadic, if_pos hn]
    rwa [hn] at hdatum ⊢
  have hlog : n.log2 < p.fractionBits := (Nat.log2_lt hn).mpr h
  have hinf : n ≤ p.infinityBits :=
    Nat.le_trans (Nat.le_of_lt h) (Nat.le_mul_of_pos_left _ (by cases p <;> decide))
  have hunit : max p.leastExponent (p.leastExponent + n.log2 - p.fractionBits) = p.leastExponent := by omega
  rw [ofDyadic, if_neg hn]
  simp only [hunit, rescale, Int.sub_self, Int.toNat_zero, Int.le_refl, if_true, Nat.pow_zero,
    Nat.mul_one, Nat.zero_mul, Nat.add_zero, Nat.min_eq_left hinf, hdatum]

/-- **A number is held exactly** where its significand is not too long. -/
theorem is_ofDyadic_least (negative : Bool) (h : p.Exact n) :
    (ofDyadic p negative n p.leastExponent).Is (signed negative n) := by
  by_cases hsub : n < 2 ^ p.fractionBits
  · exact ⟨negative, n, p.leastExponent, datum_ofDyadic_subnormal negative hsub, by simp⟩
  obtain ⟨⟨m, k, hm, rfl⟩, hlt⟩ := h
  have hzero : m ≠ 0 := by
    rintro rfl
    exact hsub (by rw [Nat.zero_mul]; exact Nat.two_pow_pos _)
  have hproduct := Nat.mul_ne_zero hzero (Nat.ne_of_gt (Nat.two_pow_pos k))
  have hlength : m.log2 < p.fractionBits + 1 := (Nat.log2_lt hzero).mpr hm
  have hfull : p.fractionBits ≤ m.log2 + k := by
    rw [← log2_mul_two_pow hzero k]
    exact (Nat.le_log2 hproduct).mpr (Nat.le_of_not_lt hsub)
  have hreach : m.log2 + k < p.fractionBits + 2 ^ p.exponentBits - 2 := by
    rw [← log2_mul_two_pow hzero k]
    exact (Nat.log2_lt hproduct).mpr hlt
  rw [ofDyadic_mul]
  refine ⟨_, _, _, datum_ofDyadic negative hzero (by omega) (by omega) (by omega), ?_⟩
  rw [Nat.mul_assoc, ← Nat.pow_add]
  congr 3
  omega

/-- **A number is held exactly**, in whatever unit it is written. -/
theorem is_ofDyadic (negative : Bool) {m : Nat} {e : Int} (he : p.leastExponent ≤ e)
    (h : p.Exact (m * 2 ^ (e - p.leastExponent).toNat)) :
    (ofDyadic p negative m e).Is (signed negative (m * 2 ^ (e - p.leastExponent).toNat)) := by
  have hunit := ofDyadic_mul p negative m (e - p.leastExponent).toNat p.leastExponent
  rw [show p.leastExponent + ((e - p.leastExponent).toNat : Int) = e by omega] at hunit
  exact hunit ▸ is_ofDyadic_least negative h

/-- Every finite number is so many of the least one. -/
theorem Is.exact (h : x.Is a) : p.Exact a.natAbs := by
  obtain ⟨negative, m, e, hdatum, rfl⟩ := h
  obtain ⟨hm, hleast, hgreatest⟩ := bounds_of_datum hdatum
  rw [natAbs_signed]
  refine ⟨⟨m, _, hm, rfl⟩, ?_⟩
  have hpow : (2 : Int) ^ p.exponentBits = (2 ^ p.exponentBits : Nat) := by norm_cast
  calc m * 2 ^ (e - p.leastExponent).toNat
    _ < 2 ^ (p.fractionBits + 1) * 2 ^ (e - p.leastExponent).toNat :=
      Nat.mul_lt_mul_of_pos_right hm (Nat.two_pow_pos _)
    _ = 2 ^ (p.fractionBits + 1 + (e - p.leastExponent).toNat) := (Nat.pow_add ..).symm
    _ ≤ 2 ^ (p.fractionBits + 2 ^ p.exponentBits - 2) := Nat.pow_le_pow_right (by decide) (by omega)

/-! ## Operations on multiples -/

/-- The same value in a smaller unit. -/
theorem signed_unit {m : Nat} {e unit : Int} (hunit : p.leastExponent ≤ unit) (he : unit ≤ e) :
    signed negative (m * 2 ^ (e - p.leastExponent).toNat) =
      signed negative (m * 2 ^ (e - unit).toNat) * (2 ^ (unit - p.leastExponent).toNat : Nat) := by
  rw [← signed_mul, Nat.mul_assoc, ← Nat.pow_add]
  congr 3
  omega

theorem Is.isFinite (h : x.Is a) : x.isFinite := by
  obtain ⟨negative, m, e, hdatum, -⟩ := h
  simp only [Binary.isFinite, hdatum]

/-- The order of numbers is that of multiples. -/
theorem Is.compare (hx : x.Is a) (hy : y.Is b) : x.compare y = some (Ord.compare a b) := by
  obtain ⟨s, m, e, hm, rfl⟩ := hx
  obtain ⟨t, n, f, hn, rfl⟩ := hy
  obtain ⟨-, he, -⟩ := bounds_of_datum hm
  obtain ⟨-, hf, -⟩ := bounds_of_datum hn
  have hpos : (0 : Int) < (2 ^ (min e f - p.leastExponent).toNat : Nat) :=
    Int.natCast_pos.mpr (Nat.two_pow_pos _)
  simp only [Binary.compare, hm, hn]
  rw [signed_unit (by omega) (Int.min_le_left e f), signed_unit (by omega) (Int.min_le_right e f)]
  simp only [Ord.compare, compareOfLessAndEq, Int.mul_lt_mul_right hpos,
    Int.mul_eq_mul_right_iff (Int.ne_of_gt hpos)]

/-- **Remainders are exact.** -/
theorem Is.rem (hx : x.Is a) (hy : y.Is b) (hb : b ≠ 0) : (x.rem y).Is (a.tmod b) := by
  have hexact := hx.exact.mod hy.exact
  obtain ⟨s, m, e, hm, rfl⟩ := hx
  obtain ⟨t, n, f, hn, rfl⟩ := hy
  obtain ⟨-, he, -⟩ := bounds_of_datum hm
  obtain ⟨-, hf, -⟩ := bounds_of_datum hn
  have hn0 : n ≠ 0 := by
    rintro rfl
    simp [signed] at hb
  have hunit : m * 2 ^ (e - p.leastExponent).toNat % (n * 2 ^ (f - p.leastExponent).toNat) =
      m * 2 ^ (e - min e f).toNat % (n * 2 ^ (f - min e f).toNat) *
        2 ^ (min e f - p.leastExponent).toNat := by
    rw [← Nat.mul_mod_mul_right, Nat.mul_assoc, Nat.mul_assoc, ← Nat.pow_add, ← Nat.pow_add]
    congr 3 <;> omega
  rw [natAbs_signed, natAbs_signed, hunit] at hexact
  simp only [Binary.rem, hm, hn, if_neg hn0, signed_tmod, hunit]
  exact is_ofDyadic s (by omega) hexact

/-- **A sum is exact** where its significand is not too long. -/
theorem Is.add (hx : x.Is a) (hy : y.Is b) (hexact : p.Exact (a + b).natAbs) : (x.add y).Is (a + b) := by
  obtain ⟨s, m, e, hm, rfl⟩ := hx
  obtain ⟨t, n, f, hn, rfl⟩ := hy
  obtain ⟨-, he, -⟩ := bounds_of_datum hm
  obtain ⟨-, hf, -⟩ := bounds_of_datum hn
  simp only [Binary.add, hm, hn]
  rw [signed_unit (by omega) (Int.min_le_left e f), signed_unit (by omega) (Int.min_le_right e f),
    ← Int.add_mul] at hexact ⊢
  generalize signed s (m * 2 ^ (e - min e f).toNat) + signed t (n * 2 ^ (f - min e f).toNat) = sum
    at hexact ⊢
  generalize hneg : (if sum = 0 then s && t else decide (sum < 0)) = negative
  have hsum : signed negative sum.natAbs = sum := by
    subst hneg
    by_cases h0 : sum = 0
    · simp [h0, signed]
    · rw [if_neg h0, signed_natAbs]
  rw [Int.natAbs_mul, Int.natAbs_natCast] at hexact
  have his := is_ofDyadic negative (by omega) hexact
  rwa [signed_mul, hsum] at his

/-! ## Whole numbers -/

theorem signed_tdiv (s : Bool) (m n : Nat) : (signed s m).tdiv n = signed s (m / n) := by
  cases s <;> simp only [signed, if_true, Int.neg_tdiv, Int.ofNat_tdiv]
  rfl

theorem is_ofDyadic_whole (negative : Bool) {m : Nat} (h : p.Exact (m * p.unity)) :
    (ofDyadic p negative m 0).Is (signed negative (m * p.unity)) := by
  have his := is_ofDyadic negative p.leastExponent_le (by rwa [Int.zero_sub])
  rwa [Int.zero_sub] at his

/-- What is left of a number without its fraction. -/
theorem Is.truncated (h : x.Is a) : x.datum.truncated = a.tdiv p.unity := by
  obtain ⟨negative, m, e, hdatum, rfl⟩ := h
  obtain ⟨-, he, -⟩ := bounds_of_datum hdatum
  have hmagnitude : m * 2 ^ (e - p.leastExponent).toNat / p.unity = m * 2 ^ e.toNat / 2 ^ (-e).toNat := by
    by_cases hneg : e ≤ 0
    · rw [p.unity_eq he hneg, Nat.mul_div_mul_right _ _ (Nat.two_pow_pos _),
        show e.toNat = 0 by omega, Nat.pow_zero, Nat.mul_one]
    · rw [show (-e).toNat = 0 by omega, Nat.pow_zero, Nat.div_one,
        show (e - p.leastExponent).toNat = e.toNat + (-p.leastExponent).toNat by
          have := p.leastExponent_le; omega,
        Nat.pow_add, ← Nat.mul_assoc]
      exact Nat.mul_div_cancel _ p.unity_pos
  rw [hdatum, signed_tdiv, hmagnitude]
  rfl

/-- **Truncated numbers are whole.** -/
theorem Is.trunc (h : x.Is a) : x.trunc.Is (a.tdiv p.unity * p.unity) := by
  have hexact := h.exact
  obtain ⟨negative, m, e, hdatum, rfl⟩ := h
  obtain ⟨hm, he, -⟩ := bounds_of_datum hdatum
  have hleast := p.leastExponent_le
  simp only [Binary.trunc, hdatum]
  rw [signed_tdiv, ← signed_mul]
  by_cases hwhole : 0 ≤ e
  · have hmultiple : m * 2 ^ (e - p.leastExponent).toNat = m * 2 ^ e.toNat * p.unity := by
      rw [Precision.unity, Nat.mul_assoc, ← Nat.pow_add]
      congr 2
      omega
    rw [if_pos hwhole, Nat.div_mul_cancel ⟨_, hmultiple.trans (Nat.mul_comm ..)⟩]
    exact ⟨negative, m, e, hdatum, rfl⟩
  · have hunity := p.unity_eq he (by omega)
    have hquotient : m * 2 ^ (e - p.leastExponent).toNat / p.unity = m / 2 ^ (-e).toNat := by
      rw [hunity, Nat.mul_div_mul_right _ _ (Nat.two_pow_pos _)]
    have hle : m / 2 ^ (-e).toNat * p.unity ≤ m * 2 ^ (e - p.leastExponent).toNat := by
      rw [hunity, ← Nat.mul_assoc]
      exact Nat.mul_le_mul_right _ (Nat.div_mul_le_self ..)
    rw [natAbs_signed] at hexact
    rw [if_neg hwhole, hquotient]
    exact is_ofDyadic_whole negative
      ⟨⟨_, _, Nat.lt_of_le_of_lt (Nat.div_le_self ..) hm, rfl⟩, Nat.lt_of_le_of_lt hle hexact.lt⟩

theorem is_ofInt {v : Int} (h : p.Exact (v.natAbs * p.unity)) : (ofInt p v).Is (v * p.unity) := by
  have his := is_ofDyadic_whole (decide (v < 0)) h
  rwa [signed_mul, signed_natAbs] at his

theorem is_zero : (ofInt p 0).Is 0 := by
  have his := is_ofInt (Precision.exact_of_dvd (p := p) (n := (0 : Int).natAbs) (j := 0) (by simp)
    (Nat.two_pow_pos _) (by cases p <;> decide))
  rwa [Int.zero_mul] at his

theorem is_two_pow {v : Int} {k : Nat} (hv : v.natAbs = 2 ^ k)
    (hk : p.fractionBits + 1 + k + (-p.leastExponent).toNat ≤ p.fractionBits + 2 ^ p.exponentBits - 2) :
    (ofInt p v).Is (v * p.unity) :=
  is_ofInt (Precision.exact_of_dvd (hv ▸ Nat.dvd_refl _)
    (hv ▸ Nat.pow_lt_pow_right (by decide) (Nat.lt_add_of_pos_left (Nat.succ_pos _))) hk)

/-- Converted numbers stay within a range. -/
theorem Is.saturate (h : x.Is a) (low high : Int) :
    x.saturate low high = max low (min high (a.tdiv p.unity)) := by
  rw [← h.truncated]
  obtain ⟨negative, m, e, hdatum, -⟩ := h
  simp only [Binary.saturate, hdatum]

/-! ## Words -/

theorem Is.lt (hx : x.Is a) (hy : y.Is b) : x.lt y ↔ a < b := by
  rw [Binary.lt, hx.compare hy, beq_iff_eq, Option.some.injEq, Int.compare_eq_lt]

theorem Is.le (hx : x.Is a) (hy : y.Is b) : x.le y ↔ a ≤ b := by
  rw [Binary.le, hx.compare hy, Bool.or_eq_true, beq_iff_eq, beq_iff_eq, Option.some.injEq,
    Option.some.injEq, Int.compare_eq_lt, Int.compare_eq_eq, Int.le_iff_lt_or_eq]

theorem tdiv_unity (p : Precision) (v : Int) : (v * p.unity).tdiv p.unity = v :=
  Int.mul_tdiv_cancel _ (Int.natCast_ne_zero.mpr (Nat.ne_of_gt p.unity_pos))

theorem saturate_whole {v low high : Int} (h : x.Is (v * p.unity)) (hlow : low ≤ v) (hhigh : v ≤ high) :
    x.saturate low high = v := by
  rw [h.saturate, tdiv_unity]
  omega

theorem wordSize_eq : wordSize = 18446744073709551616 := rfl

/-- **Remainders by the number of words** are exact, also those that are made up for: they are
multiples of `2 ^ 11` then. -/
theorem is_remEuclid {x : Binary .double} {v : Int} (h : x.Is (v * Precision.double.unity))
    (hlong : v < 0 → wordSize / 2 ≤ v.natAbs) :
    (x.remEuclid (ofInt .double wordSize)).Is (v % wordSize * Precision.double.unity) := by
  have hunity : (0 : Int) < Precision.double.unity := Int.natCast_pos.mpr (Precision.unity_pos _)
  have hword : (ofInt .double wordSize).Is (wordSize * Precision.double.unity) :=
    is_two_pow (k := 64) (by decide) (by decide)
  have habs : (ofInt .double wordSize).abs = ofInt .double wordSize := by decide +kernel
  have hrem := h.rem hword (Int.mul_ne_zero (by decide) (Int.ne_of_gt hunity))
  rw [Int.mul_comm v, Int.mul_comm wordSize, Int.mul_tmod_mul_of_pos _ _ hunity, Int.mul_comm] at hrem
  have hsign : (x.rem (ofInt .double wordSize)).lt (ofInt .double 0) ↔ v.tmod wordSize < 0 := by
    have hscaled := Int.mul_lt_mul_right (b := v.tmod wordSize) (c := 0) hunity
    rwa [Int.zero_mul, ← hrem.lt is_zero] at hscaled
  have htmod : v.tmod wordSize = v % wordSize ∨ v < 0 ∧ v.tmod wordSize = v % wordSize - wordSize := by
    rw [Int.tmod_eq_emod, wordSize_eq]
    split <;> omega
  have hnonneg : 0 ≤ v % wordSize := Int.emod_nonneg _ (by decide)
  have hless : v % wordSize < wordSize := Int.emod_lt_of_pos _ (by decide)
  simp only [Binary.remEuclid, habs]
  by_cases hneg : v.tmod wordSize < 0
  · have hmod : v % wordSize = v.tmod wordSize + wordSize := by omega
    have hfar : 2 ^ (Precision.double.fractionBits + 11) ≤ v.natAbs := by
      have := hlong (by omega)
      rw [wordSize_eq] at this
      simp only [Precision.fractionBits]
      omega
    have hexact := h.exact
    rw [Int.natAbs_mul, Int.natAbs_natCast] at hexact
    have hdvd := hexact.dvd hfar
    rw [if_pos (hsign.mpr hneg), hmod, Int.add_mul]
    refine hrem.add hword ?_
    rw [← Int.add_mul, ← hmod, Int.natAbs_mul, Int.natAbs_natCast, wordSize_eq]
    exact Precision.exact_of_dvd (j := 11) (by omega) (by simp only [Precision.fractionBits]; omega)
      (by decide)
  · rwa [if_neg (mt hsign.mp hneg), show v % wordSize = v.tmod wordSize by omega]

/-- The word of a number is its integer part. -/
theorem toWord_eq_ofInt (x : Binary .double) : x.toWord = BitVec.ofInt 64 x.datum.truncated := by
  cases hdatum : x.datum with
  | nan => simp only [toWord, Binary.isFinite, hdatum]; rfl
  | infinite negative => simp only [toWord, Binary.isFinite, hdatum]; rfl
  | finite negative m e =>
    have hx : x.Is (signed negative (m * 2 ^ (e - Precision.double.leastExponent).toNat)) :=
      ⟨negative, m, e, hdatum, rfl⟩
    rw [← hdatum, hx.truncated]
    have hwhole := hx.trunc
    generalize (signed negative (m * 2 ^ (e - Precision.double.leastExponent).toNat)).tdiv
      Precision.double.unity = v at hwhole ⊢
    have hunity : (0 : Int) < Precision.double.unity := Int.natCast_pos.mpr (Precision.unity_pos _)
    have hlow : (ofInt .double (-(wordSize / 2))).Is (-(wordSize / 2) * Precision.double.unity) :=
      is_two_pow (k := 63) (by decide) (by decide)
    have hhigh : (ofInt .double (wordSize / 2 - 1)).Is (wordSize / 2 * Precision.double.unity) := by
      rw [show ofInt .double (wordSize / 2 - 1) = ofInt .double (wordSize / 2) by decide +kernel]
      exact is_two_pow (k := 63) (by decide) (by decide)
    rw [toWord, if_pos hx.isFinite]
    simp only [Bool.and_eq_true, hlow.le hwhole, hwhole.lt hhigh, Int.mul_lt_mul_right hunity,
      Int.mul_le_mul_right hunity]
    split
    next hrange =>
      rw [toSigned, saturate_whole hwhole hrange.1 (Int.le_sub_one_of_lt hrange.2)]
    next hrange =>
      have hmod := is_remEuclid hwhole (by omega)
      have hnonneg : 0 ≤ v % wordSize := Int.emod_nonneg _ (by decide)
      have hless : v % wordSize < wordSize := Int.emod_lt_of_pos _ (by decide)
      rw [toUnsigned, saturate_whole hmod hnonneg (Int.le_sub_one_of_lt hless)]
      exact BitVec.eq_of_toNat_eq (by simp [BitVec.toNat_ofInt, wordSize_eq])

theorem wrapToInt_toDouble (x : Binary p) : x.toDouble.wrapToInt = x.wrapToInt := by
  cases p <;> rfl

/-- **The integer part, wrapped into 64 bits.** -/
theorem wrapToInt_eq_bmod (x : Binary p) :
    x.wrapToInt = x.datum.truncated.bmod (2 ^ Width.w64.bits) := by
  rw [wrapToInt, toWord_eq_ofInt, x.refines_toDouble.truncated_eq]
  exact BitVec.toInt_ofInt _

end Binary

end Columnar
