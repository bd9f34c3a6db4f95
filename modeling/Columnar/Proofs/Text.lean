/-
Text and its UTF-8 form: what is written reads back.

`decode_encode` is the main statement. The bytes of a character are followed
through `decodeFrom` case by case, one case for each number of bytes.
-/
import Columnar.Utf8

namespace Columnar.Utf8

theorem toNat_ofNat {n : Nat} (h : n < 256) : (UInt8.ofNat n).toNat = n := by
  simp; omega

theorem le_iff_toNat (a b : UInt8) : a ≤ b ↔ a.toNat ≤ b.toNat := Iff.rfl

/-- A byte made of six payload bits continues a sequence and gives them back. -/
theorem continuation_ofNat (n : Nat) :
    isContinuation (UInt8.ofNat (n % 64 + 0x80)) = true ∧
      payload (UInt8.ofNat (n % 64 + 0x80)) = n % 64 := by
  have h : (UInt8.ofNat (n % 64 + 0x80)).toNat = n % 64 + 0x80 := toNat_ofNat (by omega)
  constructor
  · simp only [isContinuation, Bool.and_eq_true, decide_eq_true_eq, le_iff_toNat, h]
    exact ⟨Nat.le_add_left _ _, by simp; omega⟩
  · rw [payload, h]; omega

theorem decodeFrom_one {offset : Nat} {a : UInt8} {rest : Bytes} {cs : List Char}
    (ha : a.toNat < 0x80) (hr : decodeFrom (offset + 1) rest = .ok cs) :
    decodeFrom offset (a :: rest) = .ok (Char.ofNat a.toNat :: cs) := by
  have h : a < 0x80 := ha
  rw [decodeFrom.eq_def]
  simp only [h, if_true, hr]
  rfl

theorem decodeFrom_two {offset : Nat} {a b : UInt8} {rest : Bytes} {cs : List Char}
    (ha : 0xC2 ≤ a.toNat ∧ a.toNat < 0xE0) (hb : isContinuation b = true)
    (hr : decodeFrom (offset + 2) rest = .ok cs) :
    decodeFrom offset (a :: b :: rest) =
      .ok (Char.ofNat (a.toNat % 32 * 64 + payload b) :: cs) := by
  have h1 : ¬ a < 0x80 := Nat.not_lt.mpr (Nat.le_trans (by decide) ha.1)
  have h2 : ¬ a < 0xC2 := Nat.not_lt.mpr (Nat.le_trans (by decide) ha.1)
  have h3 : a < 0xE0 := ha.2
  rw [decodeFrom.eq_def]
  simp only [h1, h2, h3, if_false, if_true, hb, hr]
  rfl

theorem decodeFrom_three {offset : Nat} {a b c : UInt8} {rest : Bytes} {cs : List Char}
    (ha : 0xE0 ≤ a.toNat ∧ a.toNat < 0xF0) (hb : follows3 a b = true)
    (hc : isContinuation c = true) (hr : decodeFrom (offset + 3) rest = .ok cs) :
    decodeFrom offset (a :: b :: c :: rest) =
      .ok (Char.ofNat ((a.toNat % 16 * 64 + payload b) * 64 + payload c) :: cs) := by
  have h1 : ¬ a < 0x80 := Nat.not_lt.mpr (Nat.le_trans (by decide) ha.1)
  have h2 : ¬ a < 0xC2 := Nat.not_lt.mpr (Nat.le_trans (by decide) ha.1)
  have h3 : ¬ a < 0xE0 := Nat.not_lt.mpr (Nat.le_trans (by decide) ha.1)
  have h4 : a < 0xF0 := ha.2
  rw [decodeFrom.eq_def]
  simp only [h1, h2, h3, h4, if_false, if_true, hb, hc, hr]
  rfl

theorem decodeFrom_four {offset : Nat} {a b c d : UInt8} {rest : Bytes} {cs : List Char}
    (ha : 0xF0 ≤ a.toNat ∧ a.toNat < 0xF5) (hb : follows4 a b = true)
    (hc : isContinuation c = true) (hd : isContinuation d = true)
    (hr : decodeFrom (offset + 4) rest = .ok cs) :
    decodeFrom offset (a :: b :: c :: d :: rest) =
      .ok (Char.ofNat (((a.toNat % 8 * 64 + payload b) * 64 + payload c) * 64 + payload d) :: cs) := by
  have h1 : ¬ a < 0x80 := Nat.not_lt.mpr (Nat.le_trans (by decide) ha.1)
  have h2 : ¬ a < 0xC2 := Nat.not_lt.mpr (Nat.le_trans (by decide) ha.1)
  have h3 : ¬ a < 0xE0 := Nat.not_lt.mpr (Nat.le_trans (by decide) ha.1)
  have h4 : ¬ a < 0xF0 := Nat.not_lt.mpr (Nat.le_trans (by decide) ha.1)
  have h5 : a < 0xF5 := ha.2
  rw [decodeFrom.eq_def]
  simp only [h1, h2, h3, h4, h5, if_false, if_true, hb, hc, hd, hr]
  rfl

/-- After a lead byte of three, a continuation may follow that makes the form
neither overlong nor a surrogate. -/
theorem follows3_of_bounds {a b : UInt8} (hb : isContinuation b = true)
    (hlow : a.toNat = 0xE0 → 0xA0 ≤ b.toNat) (hhigh : a.toNat = 0xED → b.toNat ≤ 0x9F) :
    follows3 a b = true := by
  simp only [isContinuation, Bool.and_eq_true, decide_eq_true_eq] at hb
  unfold follows3
  split
  · next h =>
    subst h
    simp only [Bool.and_eq_true, decide_eq_true_eq]
    exact ⟨hlow rfl, hb.2⟩
  · split
    · next h =>
      subst h
      simp only [Bool.and_eq_true, decide_eq_true_eq]
      exact ⟨hb.1, hhigh rfl⟩
    · simpa [isContinuation] using hb

/-- After a lead byte of four, a continuation may follow that makes the form
neither overlong nor past the last code point. -/
theorem follows4_of_bounds {a b : UInt8} (hb : isContinuation b = true)
    (hlow : a.toNat = 0xF0 → 0x90 ≤ b.toNat) (hhigh : a.toNat = 0xF4 → b.toNat ≤ 0x8F) :
    follows4 a b = true := by
  simp only [isContinuation, Bool.and_eq_true, decide_eq_true_eq] at hb
  unfold follows4
  split
  · next h =>
    subst h
    simp only [Bool.and_eq_true, decide_eq_true_eq]
    exact ⟨hlow rfl, hb.2⟩
  · split
    · next h =>
      subst h
      simp only [Bool.and_eq_true, decide_eq_true_eq]
      exact ⟨hb.1, hhigh rfl⟩
    · simpa [isContinuation] using hb

/-- Code points leave out the surrogates and end at U+10FFFF. -/
theorem codePoint_bounds (c : Char) :
    c.val.toNat < 0xD800 ∨ 0xDFFF < c.val.toNat ∧ c.val.toNat < 0x110000 := c.valid

theorem decodeFrom_encodeChar (c : Char) {cs : List Char} {rest : Bytes}
    (hr : ∀ offset, decodeFrom offset rest = .ok cs) (offset : Nat) :
    decodeFrom offset (String.utf8EncodeChar c ++ rest) = .ok (c :: cs) := by
  have hv := codePoint_bounds c
  have hc : Char.ofNat c.val.toNat = c := Char.ofNat_toNat c
  fun_cases String.utf8EncodeChar c with
  | case1 v h =>
    have ha : (UInt8.ofNat v).toNat = v := toNat_ofNat (by omega)
    rw [List.singleton_append, decodeFrom_one (by omega) (hr _), ha, hc]
  | case2 v h1 h2 =>
    have ha : (UInt8.ofNat (v / 64 % 0x20 + 0xc0)).toNat = v / 64 % 32 + 0xc0 := toNat_ofNat (by omega)
    obtain ⟨hb, hbv⟩ := continuation_ofNat v
    rw [List.cons_append, List.singleton_append, decodeFrom_two (by omega) hb (hr _), ha, hbv]
    rw [show (v / 64 % 32 + 0xc0) % 32 * 64 + v % 64 = c.val.toNat by omega, hc]
  | case3 v h1 h2 h3 =>
    have ha : (UInt8.ofNat (v / 4096 % 0x10 + 0xe0)).toNat = v / 4096 % 16 + 0xe0 :=
      toNat_ofNat (by omega)
    have hb : (UInt8.ofNat (v / 64 % 64 + 0x80)).toNat = v / 64 % 64 + 0x80 := toNat_ofNat (by omega)
    obtain ⟨hb', hbv⟩ := continuation_ofNat (v / 64)
    obtain ⟨hd, hdv⟩ := continuation_ofNat v
    have hf : follows3 (UInt8.ofNat (v / 4096 % 0x10 + 0xe0)) (UInt8.ofNat (v / 64 % 64 + 0x80)) :=
      follows3_of_bounds hb' (by omega) (by omega)
    rw [List.cons_append, List.cons_append, List.singleton_append,
      decodeFrom_three (by omega) hf hd (hr _), ha, hbv, hdv,
      show ((v / 4096 % 16 + 0xe0) % 16 * 64 + v / 64 % 64) * 64 + v % 64 = c.val.toNat by omega, hc]
  | case4 v h1 h2 h3 =>
    have ha : (UInt8.ofNat (v / 262144 % 0x08 + 0xf0)).toNat = v / 262144 % 8 + 0xf0 :=
      toNat_ofNat (by omega)
    have hb : (UInt8.ofNat (v / 4096 % 64 + 0x80)).toNat = v / 4096 % 64 + 0x80 :=
      toNat_ofNat (by omega)
    obtain ⟨hb', hbv⟩ := continuation_ofNat (v / 4096)
    obtain ⟨hd, hdv⟩ := continuation_ofNat (v / 64)
    obtain ⟨he, hev⟩ := continuation_ofNat v
    have hf : follows4 (UInt8.ofNat (v / 262144 % 0x08 + 0xf0)) (UInt8.ofNat (v / 4096 % 64 + 0x80)) :=
      follows4_of_bounds hb' (by omega) (by omega)
    rw [List.cons_append, List.cons_append, List.cons_append, List.singleton_append,
      decodeFrom_four (by omega) hf hd he (hr _), ha, hbv, hdv, hev,
      show (((v / 262144 % 8 + 0xf0) % 8 * 64 + v / 4096 % 64) * 64 + v / 64 % 64) * 64 + v % 64 =
        c.val.toNat by omega, hc]

theorem decodeFrom_flatMap (cs : List Char) :
    ∀ offset, decodeFrom offset (cs.flatMap String.utf8EncodeChar) = .ok cs := by
  induction cs with
  | nil => intro offset; rw [List.flatMap_nil, decodeFrom.eq_def]
  | cons c cs ih =>
    intro offset
    rw [List.flatMap_cons]
    exact decodeFrom_encodeChar c ih offset

/-- **The UTF-8 form of a text reads back as the text.** -/
theorem decode_encode (s : String) : decode (encode s) = .ok s := by
  rw [decode, encode, decodeFrom_flatMap]
  simp [bind, Except.bind, pure, Except.pure]

end Columnar.Utf8
