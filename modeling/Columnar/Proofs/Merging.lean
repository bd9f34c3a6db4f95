/-
Copying validity bits to any place.

There are two ways that bits are copied: byte for byte with a masked rest
(`mergeAligned?`), and shifted into place, as many in one go as a byte has room for
(`mergeShifted?`). What is copied in one go is told by `Copied`, and goes add up
(`Copied.trans`). Each way copies where both bitmaps reach, and stops where one of them
does not, so the two ways come to the same (`merge?_eq`).
-/
import Columnar.Proofs.Bits

namespace Columnar.Bitmap

variable {b b' p source : Bitmap} {offset start m n : Nat}

/-- That the `n` bits of a source from `start` on have been copied to the bits from `offset` on,
and that every other bit is as it was. -/
structure Copied (b : Bitmap) (offset : Nat) (source : Bitmap) (start n : Nat) (b' : Bitmap) :
    Prop where
  length : b'.bytes.length = b.bytes.length
  isSet : ∀ i, b'.isSet i =
    if offset ≤ i ∧ i < offset + n then source.isSet (start + (i - offset)) else b.isSet i

namespace Copied

theorem zero (b : Bitmap) (offset : Nat) (source : Bitmap) (start : Nat) :
    Copied b offset source start 0 b :=
  ⟨rfl, fun i => by rw [if_neg (by omega)]⟩

theorem capacity_eq (h : Copied b offset source start n b') : b'.capacity = b.capacity :=
  congrArg (8 * ·) h.length

/-- **Bits copied after others** are copied with them. -/
theorem trans (h : Copied b offset source start m p)
    (h' : Copied p (offset + m) source (start + m) n b') :
    Copied b offset source start (m + n) b' := by
  refine ⟨h'.length.trans h.length, fun i => ?_⟩
  rw [h'.isSet, h.isSet]
  by_cases hsecond : offset + m ≤ i ∧ i < offset + m + n
  · rw [if_pos hsecond, if_pos (by omega)]
    congr 1
    omega
  · rw [if_neg hsecond]
    by_cases hfirst : offset ≤ i ∧ i < offset + m
    · rw [if_pos hfirst, if_pos (by omega)]
    · rw [if_neg hfirst, if_neg (by omega)]

/-- What is copied is determined. -/
theorem eq_merge (h : Copied b offset source 0 n b') (hb : offset + n ≤ b.capacity) :
    b' = b.merge offset source n := by
  refine eq_of_isSet (h.length.trans (by simp [merge])) fun i _ => ?_
  rw [h.isSet, isSet_merge, Nat.zero_add]
  by_cases hin : offset ≤ i ∧ i < offset + n
  · rw [if_pos hin, if_pos (by omega)]
  · rw [if_neg hin, if_neg (by omega)]

end Copied

/-! ## One byte -/

theorem patch?_eq_none {j : Nat} (hj : b.bytes.length ≤ j) (mask fresh : UInt8) :
    b.patch? j mask fresh = none := by
  rw [patch?, List.getElem?_eq_none hj, Option.map_none]

/-- **A byte under a mask** takes over the bits of the mask. -/
theorem copied_of_patch? (b source : Bitmap) (start j : Nat) (mask fresh : UInt8) {s : Nat}
    (hj : j < b.bytes.length) (hs : s + n ≤ 8)
    (hmask : ∀ k < 8, test mask k = decide (s ≤ k ∧ k < s + n))
    (hfresh : ∀ k, s ≤ k → k < s + n → test fresh k = source.isSet (start + (k - s))) :
    ∃ p, b.patch? j mask fresh = some p ∧ Copied b (8 * j + s) source start n p := by
  refine ⟨⟨b.bytes.set j (blend mask b.bytes[j] fresh)⟩, ?_, by simp, fun i => ?_⟩
  · rw [patch?, List.getElem?_eq_getElem hj, Option.map_some]
  have hbit : i % 8 < 8 := Nat.mod_lt _ (by decide)
  rw [isSet_setByte b hj]
  by_cases hbyte : i / 8 = j
  · have hold : b.bytes.getD j 0 = b.bytes[j] := by simp [List.getD_eq_getElem?_getD, hj]
    rw [if_pos hbyte, test_blend _ _ _ hbit, hmask _ hbit, isSet_eq b, hbyte, hold]
    by_cases hin : s ≤ i % 8 ∧ i % 8 < s + n
    · rw [if_pos (by simpa using hin), if_pos (by omega), hfresh _ hin.1 hin.2]
      congr 1
      omega
    · rw [if_neg (by simpa using hin), if_neg (by omega)]
  · rw [if_neg hbyte, if_neg (by omega)]

/-- **Bits read across bytes**, where there are as many. -/
theorem window?_ok {i : Nat} (hn : n ≤ 8) (hcap : i + n ≤ source.capacity) (hpos : 0 < n) :
    ∃ w, source.window? i n = some w ∧ ∀ k < n, test w k = source.isSet (i + k) := by
  simp only [capacity] at hcap
  have hlow : i / 8 < source.bytes.length := by omega
  have hshift : i % 8 < 8 := Nat.mod_lt _ (by decide)
  have hbyte (j : Nat) (hj : j < source.bytes.length) : source.bytes.getD j 0 = source.bytes[j] := by
    simp [List.getD_eq_getElem?_getD, hj]
  by_cases hone : i % 8 + n ≤ 8
  · refine ⟨_, by simp only [window?, List.getElem?_eq_getElem hlow, hone, if_true]; rfl, fun k hk => ?_⟩
    rw [test_and, test_shiftRight _ hshift, test_lowMask _ (by omega), isSet_eq,
      show (i + k) / 8 = i / 8 by omega, show (i + k) % 8 = i % 8 + k by omega, hbyte _ hlow]
    simp [hk]
  · have hhigh : i / 8 + 1 < source.bytes.length := by omega
    refine ⟨_, by
      simp only [window?, List.getElem?_eq_getElem hlow, List.getElem?_eq_getElem hhigh, hone, if_false]
      rfl, fun k hk => ?_⟩
    rw [test_and, test_or, test_shiftRight _ hshift, test_shiftLeft _ (by omega) (by omega),
      test_lowMask _ (by omega), isSet_eq]
    -- The low byte ends where the high one begins.
    by_cases hfirst : i % 8 + k < 8
    · rw [show (i + k) / 8 = i / 8 by omega, show (i + k) % 8 = i % 8 + k by omega, hbyte _ hlow]
      simp [hk, show ¬ 8 - i % 8 ≤ k by omega]
    · rw [show (i + k) / 8 = i / 8 + 1 by omega, show (i + k) % 8 = k - (8 - i % 8) by omega,
        hbyte _ hhigh, test_of_le _ (by omega)]
      simp [hk, show 8 - i % 8 ≤ k by omega]

theorem window?_eq_none {i : Nat} (hn : n ≤ 8) (hcap : source.capacity < i + n) :
    source.window? i n = none := by
  simp only [capacity] at hcap
  by_cases hlow : i / 8 < source.bytes.length
  · have hhigh : source.bytes.length ≤ i / 8 + 1 := by omega
    have htwo : ¬ i % 8 + n ≤ 8 := by omega
    simp only [window?, List.getElem?_eq_getElem hlow, List.getElem?_eq_none hhigh, htwo, if_false]
    rfl
  · simp only [window?, List.getElem?_eq_none (Nat.le_of_not_lt hlow)]
    rfl

/-! ## Shifted into place -/

/-- As many bits as the byte at their place has room for. -/
theorem copied_in_one_go (b source : Bitmap) (offset start : Nat) (hpos : 0 < n)
    (hroom : offset % 8 + n ≤ 8) (hsource : start + n ≤ source.capacity)
    (hb : offset + n ≤ b.capacity) :
    ∃ bits p, source.window? start n = some bits ∧
      b.patch? (offset / 8) (lowMask n <<< UInt8.ofNat (offset % 8))
        (bits <<< UInt8.ofNat (offset % 8)) = some p ∧
      Copied b offset source start n p := by
  have hshift : offset % 8 < 8 := Nat.mod_lt _ (by decide)
  obtain ⟨bits, hbits, htest⟩ := window?_ok (by omega) hsource hpos
  simp only [capacity] at hb
  obtain ⟨p, hp, hcopied⟩ := copied_of_patch? b source start (offset / 8) _
    (bits <<< UInt8.ofNat (offset % 8)) (by omega) hroom
    (fun k hk => test_lowMask_shiftLeft _ hshift hk) (fun k hle hlt => by
      rw [test_shiftLeft _ hshift (by omega), htest _ (by omega)]
      simp [hle])
  rw [Nat.div_add_mod] at hcopied
  exact ⟨bits, p, hbits, hp, hcopied⟩

/-- **Shifting bits into place** copies them, where both bitmaps reach. -/
theorem mergeShifted?_ok (hsource : start + n ≤ source.capacity) (hb : offset + n ≤ b.capacity) :
    ∃ b', b.mergeShifted? offset source start n = some b' ∧ Copied b offset source start n b' := by
  fun_induction mergeShifted? b offset source start n with
  | case1 b offset start => exact ⟨b, rfl, .zero ..⟩
  | case2 b offset start n hn count shift ih =>
    have hcount : count = min (8 - offset % 8) n := rfl
    obtain ⟨bits, p, hbits, hp, hgo⟩ := copied_in_one_go b source offset start (n := count) (by omega)
      (by omega) (by omega) (by omega)
    obtain ⟨b', hb', hrest⟩ := ih p (by omega) (by rw [hgo.capacity_eq]; omega)
    refine ⟨b', by
      simp only [hbits, Option.bind_eq_bind, Option.bind_some, shift, hp]
      exact hb', ?_⟩
    rw [show n = count + (n - count) by omega]
    exact hgo.trans hrest

/-- **Where a bitmap does not reach**, shifting stops. -/
theorem mergeShifted?_eq_none (hpos : 0 < n)
    (h : source.capacity < start + n ∨ b.capacity < offset + n) :
    b.mergeShifted? offset source start n = none := by
  fun_induction mergeShifted? b offset source start n with
  | case1 => omega
  | case2 b offset start n hn count shift ih =>
    have hcount : count = min (8 - offset % 8) n := rfl
    by_cases hsource : start + count ≤ source.capacity
    · by_cases hb : offset + count ≤ b.capacity
      · obtain ⟨bits, p, hbits, hp, hgo⟩ := copied_in_one_go b source offset start (n := count)
          (by omega) (by omega) hsource hb
        simp only [hbits, Option.bind_eq_bind, Option.bind_some, shift, hp]
        exact ih p (by omega) (by rw [hgo.capacity_eq]; omega)
      · have hj : b.bytes.length ≤ offset / 8 := by
          simp only [capacity] at hb
          omega
        cases hbits : source.window? start count with
        | none => rfl
        | some bits =>
          simp only [patch?_eq_none hj]
          rfl
    · rw [window?_eq_none (by omega) (by omega)]
      rfl

/-! ## Byte for byte -/

/-- **Whole bytes** are copied at once. -/
theorem copied_of_copyBytes? (b source : Bitmap) (j count : Nat) (hb : j + count ≤ b.bytes.length)
    (hsource : count ≤ source.bytes.length) :
    ∃ p, b.copyBytes? j source count = some p ∧ Copied b (8 * j) source 0 (8 * count) p := by
  refine ⟨⟨b.bytes.take j ++ source.bytes.take count ++ b.bytes.drop (j + count)⟩,
    if_pos ⟨hb, hsource⟩, ?_, fun i => ?_⟩
  · simp only [List.length_append, List.length_take, List.length_drop]
    omega
  have hcount : (source.bytes.take count).length = count := by simp; omega
  have hsplice := isSet_splice b j (source.bytes.take count) (by omega) i
  rw [hcount] at hsplice
  rw [hsplice]
  by_cases hin : 8 * j ≤ i ∧ i < 8 * j + 8 * count
  · rw [if_pos (by omega), if_pos hin, Nat.zero_add, isSet_eq, isSet_eq, List.getD_eq_getElem?_getD,
      List.getD_eq_getElem?_getD, List.getElem?_take_of_lt (by omega)]
  · rw [if_neg (by omega), if_neg hin]

/-- **Copying byte for byte** copies the bits, where both bitmaps reach. -/
theorem mergeAligned?_ok {j : Nat} (hsource : n ≤ source.capacity) (hb : 8 * j + n ≤ b.capacity) :
    ∃ b', b.mergeAligned? j source n = some b' ∧ Copied b (8 * j) source 0 n b' := by
  simp only [capacity] at hsource hb
  obtain ⟨p, hp, hwhole⟩ := copied_of_copyBytes? b source j (n / 8) (by omega) (by omega)
  by_cases hrest : n % 8 = 0
  · refine ⟨p, by simp only [mergeAligned?, hp, hrest, if_true]; rfl, ?_⟩
    rwa [show 8 * (n / 8) = n by omega] at hwhole
  · have hlast : n / 8 < source.bytes.length := by omega
    obtain ⟨b', hb', hpatched⟩ := copied_of_patch? p source (8 * (n / 8)) (j + n / 8)
      (lowMask (n % 8)) source.bytes[n / 8] (n := n % 8) (s := 0)
      (by rw [hwhole.length]; omega) (by omega)
      (fun k hk => by rw [test_lowMask _ hk]; simp)
      (fun k _ hk => by
        rw [isSet_eq, show (8 * (n / 8) + (k - 0)) / 8 = n / 8 by omega,
          show (8 * (n / 8) + (k - 0)) % 8 = k by omega]
        simp [List.getD_eq_getElem?_getD, hlast])
    refine ⟨b', by
      simp only [mergeAligned?, hp, hrest, if_false, List.getElem?_eq_getElem hlast]
      exact hb', ?_⟩
    have hlast : Copied p (8 * j + 8 * (n / 8)) source (0 + 8 * (n / 8)) (n % 8) b' := by
      rwa [Nat.zero_add, ← show 8 * (j + n / 8) + 0 = 8 * j + 8 * (n / 8) by omega]
    have hboth := hwhole.trans hlast
    rwa [Nat.div_add_mod] at hboth

/-- **Where a bitmap does not reach**, neither does copying byte for byte. -/
theorem mergeAligned?_eq_none {j : Nat} (h : source.capacity < n ∨ b.capacity < 8 * j + n) :
    b.mergeAligned? j source n = none := by
  simp only [capacity] at h
  by_cases hwhole : j + n / 8 ≤ b.bytes.length ∧ n / 8 ≤ source.bytes.length
  · obtain ⟨p, hp, hcopied⟩ := copied_of_copyBytes? b source j _ hwhole.1 hwhole.2
    have hrest : n % 8 ≠ 0 := by omega
    simp only [mergeAligned?, hp, hrest, if_false]
    -- All whole bytes are there, so it is the byte of the rest that is missing.
    by_cases hlast : n / 8 < source.bytes.length
    · have hj : p.bytes.length ≤ j + n / 8 := by rw [hcopied.length]; omega
      simp only [List.getElem?_eq_getElem hlast]
      exact patch?_eq_none hj _ _
    · simp only [List.getElem?_eq_none (Nat.le_of_not_lt hlast)]
      rfl
  · simp only [mergeAligned?, copyBytes?, if_neg hwhole]
    rfl

/-! ## Both ways -/

/-- **Merging** copies the bits, where both bitmaps reach. -/
theorem merge?_ok (b : Bitmap) (offset : Nat) (hsource : n ≤ source.capacity)
    (hb : offset + n ≤ b.capacity) :
    ∃ b', b.merge? offset source n = some b' ∧ Copied b offset source 0 n b' := by
  by_cases hn : n = 0
  · subst hn
    exact ⟨b, if_pos rfl, .zero ..⟩
  by_cases haligned : offset % 8 = 0
  · have hoffset : 8 * (offset / 8) = offset := by omega
    rw [merge?, if_neg hn, if_pos haligned]
    have := mergeAligned?_ok hsource (hoffset.symm ▸ hb)
    rwa [hoffset] at this
  · rw [merge?, if_neg hn, if_neg haligned]
    exact mergeShifted?_ok (by omega) hb

theorem merge?_eq_none (hpos : 0 < n) (h : source.capacity < n ∨ b.capacity < offset + n) :
    b.merge? offset source n = none := by
  rw [merge?, if_neg (Nat.ne_of_gt hpos)]
  by_cases haligned : offset % 8 = 0
  · rw [if_pos haligned]
    exact mergeAligned?_eq_none (by rwa [show 8 * (offset / 8) = offset by omega])
  · rw [if_neg haligned]
    exact mergeShifted?_eq_none hpos (by rwa [Nat.zero_add])

/-- **What a merge comes to**, whichever way it is done. -/
theorem merge?_eq (b : Bitmap) (offset : Nat) (source : Bitmap) (n : Nat) :
    b.merge? offset source n =
      if n = 0 then some b
      else if n ≤ source.capacity ∧ offset + n ≤ b.capacity then some (b.merge offset source n)
      else none := by
  by_cases hn : n = 0
  · rw [merge?, if_pos hn, if_pos hn]
  rw [if_neg hn]
  by_cases hreach : n ≤ source.capacity ∧ offset + n ≤ b.capacity
  · obtain ⟨b', hb', hcopied⟩ := merge?_ok b offset hreach.1 hreach.2
    rw [if_pos hreach, hb', hcopied.eq_merge hreach.2]
  · rw [if_neg hreach]
    exact merge?_eq_none (by omega) (by omega)

/-- **A merge is exact at any alignment.** Where the source has `n` bits and the target reaches
that far from the offset, the target keeps its length, and every bit of it answers as the source
does at its place in the range, and as it did before anywhere else. Where there are bits to copy
and one of the two does not reach, there is no answer. -/
theorem merge?_exact (b : Bitmap) (offset : Nat) (source : Bitmap) (n : Nat) :
    (n ≤ 8 * source.bytes.length → offset + n ≤ 8 * b.bytes.length →
      ∃ b', b.merge? offset source n = some b' ∧ b'.bytes.length = b.bytes.length ∧
        ∀ i, b'.isSet? i =
          if offset ≤ i ∧ i < offset + n then source.isSet? (i - offset) else b.isSet? i) ∧
    (0 < n → 8 * source.bytes.length < n ∨ 8 * b.bytes.length < offset + n →
      b.merge? offset source n = none) := by
  refine ⟨fun hsource hb => ?_, merge?_eq_none⟩
  obtain ⟨b', hb', hcopied⟩ := merge?_ok b offset hsource hb
  have hcapacity := hcopied.capacity_eq
  refine ⟨b', hb', hcopied.length, fun i => ?_⟩
  by_cases hin : offset ≤ i ∧ i < offset + n
  · have hthere : i < b'.capacity := by rw [hcapacity, capacity]; omega
    have hfrom : i - offset < source.capacity := by rw [capacity]; omega
    rw [isSet?_of_lt hthere, hcopied.isSet, if_pos hin, if_pos hin, Nat.zero_add, isSet?_of_lt hfrom]
  · rw [if_neg hin, isSet?, isSet?, hcapacity, hcopied.isSet, if_neg hin]

/-- Fourteen bits that lie across three bytes, and the same bits one place too far. -/
theorem merge?_exact_fourteen :
    let b : Bitmap := ⟨[0xFF, 0x00, 0xFF]⟩
    let source : Bitmap := ⟨[0x12, 0x34]⟩
    (∃ b', b.merge? 5 source 14 = some b' ∧ b'.bytes.length = 3 ∧
      b'.isSet? 6 = source.isSet? 1 ∧ b'.isSet? 18 = source.isSet? 13 ∧ b'.isSet? 19 = b.isSet? 19 ∧
      b' = ⟨[0x5F, 0x82, 0xFE]⟩) ∧
    b.merge? 11 source 14 = none := by
  intro b source
  obtain ⟨b', hb', hlength, hbits⟩ := (merge?_exact b 5 source 14).1 (by decide) (by decide)
  have hbytes : b.merge? 5 source 14 = some ⟨[0x5F, 0x82, 0xFE]⟩ := by decide +kernel
  exact ⟨⟨b', hb', hlength, hbits 6, hbits 18, hbits 19, Option.some.inj (hb'.symm.trans hbytes)⟩,
    (merge?_exact b 11 source 14).2 (by decide) (.inr (by decide))⟩

end Columnar.Bitmap
