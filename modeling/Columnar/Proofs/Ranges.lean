/-
Ranges of validity bits, written and counted by bytes.

A range is written in up to three pieces: the rest of the byte that it begins in, the bytes
that it has in full, and the head of the byte that it ends in. What a piece writes is told by
`Painted`, pieces that follow each other add up (`Painted.trans`), and what has been painted is
determined (`Painted.eq`). So the pieces come to what the bits would come to if they were
written one after another (`setRange?_bitwise`), and the count of clear bits that is taken by
bytes is the count of the rows that read as null (`countClear?_exact`).
-/
import Columnar.Proofs.Bits

namespace Columnar.Bitmap

variable {b b' p : Bitmap} {start mid stop length n : Nat} {valid : Bool}

/-- That the bits from `start` up to `stop` have been given one value, and that every other bit is
as it was. -/
structure Painted (b : Bitmap) (start stop : Nat) (valid : Bool) (b' : Bitmap) : Prop where
  length : b'.bytes.length = b.bytes.length
  isSet : ∀ i, b'.isSet i = if start ≤ i ∧ i < stop then valid else b.isSet i

namespace Painted

theorem nothing (b : Bitmap) (start : Nat) (valid : Bool) : Painted b start start valid b :=
  ⟨rfl, fun i => by rw [if_neg (by omega)]⟩

theorem capacity_eq (h : Painted b start stop valid b') : b'.capacity = b.capacity :=
  congrArg (8 * ·) h.length

/-- **Pieces that follow each other** are painted as one. -/
theorem trans (h : Painted b start mid valid p) (h' : Painted p mid stop valid b')
    (hstart : start ≤ mid) (hstop : mid ≤ stop) : Painted b start stop valid b' := by
  refine ⟨h'.length.trans h.length, fun i => ?_⟩
  rw [h'.isSet, h.isSet]
  by_cases hlater : mid ≤ i ∧ i < stop
  · rw [if_pos hlater, if_pos (by omega)]
  · by_cases hfirst : start ≤ i ∧ i < mid
    · rw [if_neg hlater, if_pos hfirst, if_pos (by omega)]
    · rw [if_neg hlater, if_neg hfirst, if_neg (by omega)]

/-- What is painted is determined. -/
theorem eq (h : Painted b start stop valid p) (h' : Painted b start stop valid b') : p = b' :=
  eq_of_isSet (h.length.trans h'.length.symm) fun i _ => by rw [h.isSet, h'.isSet]

end Painted

/-! ## The pieces -/

/-- **A byte under a mask** is painted where the mask has the bits of a range. -/
theorem painted_of_paint? (b : Bitmap) {j : Nat} (hj : j < b.bytes.length) (mask : UInt8) (valid : Bool)
    (hstart : 8 * j ≤ start) (hstop : stop ≤ 8 * j + 8)
    (hmask : ∀ k < 8, test mask k = decide (start ≤ 8 * j + k ∧ 8 * j + k < stop)) :
    ∃ p, b.paint? j mask valid = some p ∧ Painted b start stop valid p := by
  refine ⟨⟨b.bytes.set j (paint valid mask b.bytes[j])⟩, ?_, by simp, fun i => ?_⟩
  · rw [paint?, List.getElem?_eq_getElem hj, Option.map_some]
  have hbit : i % 8 < 8 := Nat.mod_lt _ (by decide)
  rw [isSet_setByte b hj]
  by_cases hbyte : i / 8 = j
  · have hold : b.bytes.getD j 0 = b.bytes[j] := by simp [List.getD_eq_getElem?_getD, hj]
    rw [if_pos hbyte, test_paint _ _ _ hbit, hmask _ hbit, isSet_eq b, hbyte, hold,
      show 8 * j + i % 8 = i by omega]
    simp only [decide_eq_true_eq]
  · rw [if_neg hbyte, if_neg (by omega)]

theorem paint?_eq_none {j : Nat} (hj : b.bytes.length ≤ j) (mask : UInt8) (valid : Bool) :
    b.paint? j mask valid = none := by
  rw [paint?, List.getElem?_eq_none hj, Option.map_none]

/-- **Whole bytes** are painted at once. -/
theorem painted_of_fillBytes? (b : Bitmap) {first last : Nat} (hfirst : first ≤ last)
    (hlast : last ≤ b.bytes.length) (valid : Bool) :
    ∃ p, b.fillBytes? first last valid = some p ∧ Painted b (8 * first) (8 * last) valid p := by
  refine ⟨_, by rw [fillBytes?, if_pos ⟨hfirst, hlast⟩], ?_, fun i => ?_⟩
  · simp
    omega
  have hlen : (List.replicate (last - first) (if valid then 0xFF else (0 : UInt8))).length =
      last - first := List.length_replicate
  have hsplice := isSet_splice b first (List.replicate (last - first) (if valid then 0xFF else 0))
    (by omega) i
  rw [hlen, show first + (last - first) = last by omega] at hsplice
  rw [hsplice]
  by_cases hin : 8 * first ≤ i ∧ i < 8 * last
  · rw [if_pos hin, if_pos hin, isSet_eq, List.getD_eq_getElem?_getD,
      List.getElem?_replicate_of_lt (by omega), Option.getD_some]
    cases valid with
    | true => exact test_ones (Nat.mod_lt _ (by decide))
    | false => exact test_zero _
  · rw [if_neg hin, if_neg hin]

/-- The byte that a range begins in, from there on. -/
theorem painted_of_paintFrom? (b : Bitmap) (start : Nat) (valid : Bool)
    (h : 8 * ((start + 7) / 8) ≤ b.capacity) :
    ∃ p, b.paintFrom? start valid = some p ∧ Painted b start (8 * ((start + 7) / 8)) valid p := by
  simp only [capacity] at h
  by_cases hwhole : start % 8 = 0
  · refine ⟨b, if_pos hwhole, ?_⟩
    rw [show 8 * ((start + 7) / 8) = start by omega]
    exact .nothing b start valid
  · rw [paintFrom?, if_neg hwhole]
    refine painted_of_paint? b (by omega) _ valid (by omega) (by omega) fun k hk => ?_
    rw [show (0xFF : UInt8) = lowMask 8 from rfl, test_lowMask_shiftLeft 8 (Nat.mod_lt _ (by decide)) hk]
    exact decide_eq_decide.mpr (by omega)

theorem length_of_paintFrom? (h : b.paintFrom? start valid = some p) :
    p.bytes.length = b.bytes.length := by
  unfold paintFrom? at h
  split at h
  · rw [← Option.some.inj h]
  · obtain ⟨old, -, rfl⟩ := Option.map_eq_some_iff.mp h
    exact List.length_set

/-- The byte that a range ends in, up to there. -/
theorem painted_of_paintUpTo? (b : Bitmap) (stop : Nat) (valid : Bool) (h : stop ≤ b.capacity) :
    ∃ p, b.paintUpTo? stop valid = some p ∧ Painted b (8 * (stop / 8)) stop valid p := by
  simp only [capacity] at h
  by_cases hwhole : stop % 8 = 0
  · refine ⟨b, if_pos hwhole, ?_⟩
    rw [show 8 * (stop / 8) = stop by omega]
    exact .nothing b stop valid
  · rw [paintUpTo?, if_neg hwhole]
    refine painted_of_paint? b (by omega) _ valid (by omega) (by omega) fun k hk => ?_
    rw [test_lowMask _ hk]
    exact decide_eq_decide.mpr (by omega)

/-! ## Ranges -/

/-- **A range that is there** is painted, whatever the pieces it falls into. -/
theorem setRange?_ok (b : Bitmap) (valid : Bool) (hindex : start + length < 2 ^ indexBits)
    (h : start + length ≤ b.capacity) :
    ∃ b', b.setRange? start length valid = some b' ∧ Painted b start (start + length) valid b' := by
  by_cases hnothing : length = 0
  · subst hnothing
    exact ⟨b, if_pos rfl, .nothing b start valid⟩
  have hcap := h
  simp only [capacity] at hcap
  simp only [setRange?, if_neg hnothing, index?_of_lt hindex, Option.bind_eq_bind, Option.bind_some]
  by_cases hone : start / 8 = (start + length) / 8
  · rw [if_pos hone]
    refine painted_of_paint? b (by omega) _ valid (by omega) (by omega) fun k hk => ?_
    rw [test_lowMask_shiftLeft _ (Nat.mod_lt _ (by decide)) hk]
    exact decide_eq_decide.mpr (by omega)
  · obtain ⟨begun, hbegun, hfirst⟩ := painted_of_paintFrom? b start valid (by simp only [capacity]; omega)
    obtain ⟨filled, hfilled, hfull⟩ := painted_of_fillBytes? begun
      (show (start + 7) / 8 ≤ (start + length) / 8 by omega) (by rw [hfirst.length]; omega) valid
    obtain ⟨b', hb', hlast⟩ := painted_of_paintUpTo? filled (start + length) valid
      (by rw [hfull.capacity_eq, hfirst.capacity_eq]; exact h)
    refine ⟨b', ?_, (hfirst.trans hfull (by omega) (by omega)).trans hlast (by omega) (by omega)⟩
    rw [if_neg hone]
    simp only [hbegun, hfilled, Option.bind_some, hb']

/-- **A range that is not there** in full is not written. -/
theorem setRange?_eq_none (valid : Bool) (hindex : start + length < 2 ^ indexBits) (hpos : 0 < length)
    (h : b.capacity < start + length) : b.setRange? start length valid = none := by
  simp only [capacity] at h
  simp only [setRange?, if_neg (Nat.ne_of_gt hpos), index?_of_lt hindex, Option.bind_eq_bind,
    Option.bind_some]
  by_cases hone : start / 8 = (start + length) / 8
  · rw [if_pos hone]
    exact paint?_eq_none (by omega) _ _
  rw [if_neg hone]
  cases hbegun : b.paintFrom? start valid with
  | none => rfl
  | some begun =>
    have hlen := length_of_paintFrom? hbegun
    -- If all whole bytes are there, it is the byte of the rest that is missing.
    by_cases hfull : (start + length) / 8 ≤ b.bytes.length
    · obtain ⟨filled, hfilled, hpainted⟩ := painted_of_fillBytes? begun
        (show (start + 7) / 8 ≤ (start + length) / 8 by omega) (by omega) valid
      have hrest : (start + length) % 8 ≠ 0 := by omega
      simp only [Option.bind_some, hfilled, paintUpTo?, if_neg hrest]
      exact paint?_eq_none (by rw [hpainted.length]; omega) _ _
    · have hfilled : begun.fillBytes? ((start + 7) / 8) ((start + length) / 8) valid = none :=
        if_neg (by omega)
      simp only [Option.bind_some, hfilled, Option.bind_none]

/-- **Filling** is what writing a range comes to. -/
theorem setRange?_eq_fill (b : Bitmap) (valid : Bool) (hindex : start + length < 2 ^ indexBits)
    (h : start + length ≤ b.capacity) :
    b.setRange? start length valid = some (b.fill start (start + length) valid) := by
  obtain ⟨b', hb', hpainted⟩ := setRange?_ok b valid hindex h
  have hfill : Painted b start (start + length) valid (b.fill start (start + length) valid) := by
    refine ⟨by simp [fill], fun i => ?_⟩
    rw [isSet_fill]
    by_cases hin : start ≤ i ∧ i < start + length
    · rw [if_pos (by omega), if_pos hin]
    · rw [if_neg (by omega), if_neg hin]
  rw [hb', hpainted.eq hfill]

/-- A range that lies within the bits is filled, wherever it is written. -/
theorem fill_of_setRange? (h : b.setRange? start length valid = some b')
    (hcap : start + length ≤ b.capacity) :
    b' = b.fill start (start + length) valid ∧ (length = 0 ∨ start + length < 2 ^ indexBits) := by
  by_cases hindex : start + length < 2 ^ indexBits
  · rw [setRange?_eq_fill b valid hindex hcap] at h
    exact ⟨(Option.some.inj h).symm, .inr hindex⟩
  · by_cases hnothing : length = 0
    · subst hnothing
      obtain rfl : b = b' := by simpa [setRange?] using h
      have hfill : Painted b start start valid (b.fill start start valid) :=
        ⟨by simp [fill], fun i => by rw [isSet_fill, if_neg (by omega), if_neg (by omega)]⟩
      exact ⟨(Painted.nothing b start valid).eq hfill, .inl rfl⟩
    · simp [setRange?, hnothing, index?, hindex] at h

/-! ## Bit by bit -/

/-- Gives one bit a value. -/
def setBit? (b : Bitmap) (i : Nat) (valid : Bool) : Option Bitmap :=
  if valid then b.set? i else b.clear? i

/-- Gives the `length` bits from `start` on one value, one after another. -/
def setEach? (b : Bitmap) (start length : Nat) (valid : Bool) : Option Bitmap :=
  (List.range' start length).foldlM (fun b i => b.setBit? i valid) b

theorem painted_of_setBit? {i : Nat} (valid : Bool) (h : i < b.capacity) :
    ∃ p, b.setBit? i valid = some p ∧ Painted b i (i + 1) valid p := by
  refine ⟨⟨b.bytes.modify (i / 8) (paint valid (bit i))⟩, ?_, by simp, fun j => ?_⟩
  · cases valid <;> exact if_pos h
  · rw [isSet_modify]
    by_cases hj : j = i
    · rw [if_pos ⟨hj, h⟩, if_pos (by omega)]
    · rw [if_neg (by simp [hj]), if_neg (by omega)]

theorem setBit?_eq_none {i : Nat} (valid : Bool) (h : b.capacity ≤ i) : b.setBit? i valid = none := by
  have hpast : ¬ i < b.capacity := Nat.not_lt.mpr h
  cases valid <;> exact if_neg hpast

/-- **One bit after another** paints the range, as far as there are bits. -/
theorem setEach?_ok (b : Bitmap) (valid : Bool) (h : start + length ≤ b.capacity) :
    ∃ b', b.setEach? start length valid = some b' ∧ Painted b start (start + length) valid b' := by
  induction length generalizing b start with
  | zero => exact ⟨b, rfl, .nothing b start valid⟩
  | succ length ih =>
    obtain ⟨p, hp, hfirst⟩ := painted_of_setBit? valid (show start < b.capacity by omega)
    obtain ⟨b', hb', hrest⟩ := ih p (show start + 1 + length ≤ p.capacity by rw [hfirst.capacity_eq]; omega)
    rw [show start + 1 + length = start + (length + 1) by omega] at hrest
    refine ⟨b', ?_, hfirst.trans hrest (by omega) (by omega)⟩
    rw [setEach?, List.range'_succ, List.foldlM_cons, hp]
    exact hb'

theorem setEach?_eq_none (valid : Bool) (hpos : 0 < length) (h : b.capacity < start + length) :
    b.setEach? start length valid = none := by
  induction length generalizing b start with
  | zero => omega
  | succ length ih =>
    rw [setEach?, List.range'_succ, List.foldlM_cons]
    by_cases hthere : start < b.capacity
    · obtain ⟨p, hp, hfirst⟩ := painted_of_setBit? valid hthere
      have hpast : p.capacity < start + 1 + length := by rw [hfirst.capacity_eq]; omega
      rw [hp]
      exact ih (by omega) hpast
    · rw [setBit?_eq_none valid (Nat.le_of_not_lt hthere)]
      rfl

/-- **Writing a range by bytes is writing it bit by bit.** Where the range ends at an index, the
bitmap is as one bit written after another would leave it, or there is no answer just where one of
these bits is missing. An empty range leaves the bitmap as it is. A range that is there keeps the
length, gives each of its bits the value, and leaves every other bit. -/
theorem setRange?_bitwise (b : Bitmap) (start length : Nat) (valid : Bool)
    (hindex : start + length < 2 ^ indexBits) :
    b.setRange? start length valid = b.setEach? start length valid ∧
      (length = 0 → b.setRange? start length valid = some b) ∧
      (start + length ≤ 8 * b.bytes.length →
        ∃ b', b.setRange? start length valid = some b' ∧ b'.bytes.length = b.bytes.length ∧
          ∀ i, b'.isSet? i = if start ≤ i ∧ i < start + length then some valid else b.isSet? i) ∧
      (0 < length → 8 * b.bytes.length < start + length → b.setRange? start length valid = none) := by
  refine ⟨?_, fun hnothing => if_pos hnothing, fun hthere => ?_, setRange?_eq_none valid hindex⟩
  · by_cases hthere : start + length ≤ b.capacity
    · obtain ⟨b', hb', hpainted⟩ := setRange?_ok b valid hindex hthere
      obtain ⟨p, hp, hbits⟩ := setEach?_ok b valid hthere
      rw [hb', hp, hpainted.eq hbits]
    · by_cases hnothing : length = 0
      · subst hnothing
        rfl
      · rw [setRange?_eq_none valid hindex (by omega) (by omega), setEach?_eq_none valid (by omega) (by omega)]
  · obtain ⟨b', hb', hpainted⟩ := setRange?_ok b valid hindex hthere
    refine ⟨b', hb', hpainted.length, fun i => ?_⟩
    rw [isSet?, hpainted.capacity_eq, hpainted.isSet]
    by_cases hin : start ≤ i ∧ i < start + length
    · rw [if_pos hin, if_pos hin, if_pos (by rw [capacity]; omega)]
    · rw [if_neg hin, if_neg hin, isSet?]

/-- Twenty bits that begin and end inside bytes, and the same bits eight places too far. -/
theorem setRange?_bitwise_twenty :
    let b : Bitmap := ⟨[0xCA, 0xCA, 0xCA, 0xCA]⟩
    (∃ b', b.setRange? 5 20 true = some b' ∧ b.setEach? 5 20 true = some b' ∧
      b'.bytes = [0xEA, 0xFF, 0xFF, 0xCB] ∧ b'.isSet? 5 = some true ∧ b'.isSet? 25 = b.isSet? 25) ∧
    b.setRange? 13 20 true = none := by
  intro b
  obtain ⟨hbitwise, -, hok, -⟩ := setRange?_bitwise b 5 20 true (by decide)
  obtain ⟨b', hb', -, hbits⟩ := hok (by decide)
  have hbytes : b.setRange? 5 20 true = some ⟨[0xEA, 0xFF, 0xFF, 0xCB]⟩ := by decide +kernel
  obtain rfl := Option.some.inj (hb'.symm.trans hbytes)
  exact ⟨⟨_, hb', hbitwise.symm.trans hb', rfl, hbits 5, hbits 25⟩,
    (setRange?_bitwise b 13 20 true (by decide)).2.2.2 (by decide) (by decide)⟩

/-! ## Counting -/

/-- Where there are as many bits, their clear ones are counted. -/
theorem countClear?_eq (h : n ≤ b.capacity) : b.countClear? n = some (b.countClear n) := by
  simp only [capacity] at h
  rw [countClear?, if_pos (by omega)]
  by_cases hrest : n % 8 = 0
  · simp [countClear, hrest]
  · have hlast : n / 8 < b.bytes.length := by omega
    simp [countClear, hrest, hlast, List.getD_eq_getElem?_getD]

theorem countClear?_ok (h : n ≤ b.capacity) :
    b.countClear? n = some ((List.range n).countP fun i => !b.isSet i) := by
  rw [countClear?_eq h, countClear_eq b h]

theorem countClear?_eq_none (h : b.capacity < n) : b.countClear? n = none := by
  simp only [capacity] at h
  by_cases hwhole : n / 8 ≤ b.bytes.length
  · have hlast : b.bytes.length ≤ n / 8 := by omega
    have hrest : n % 8 ≠ 0 := by omega
    simp [countClear?, hwhole, hrest, hlast]
  · exact if_neg hwhole

/-- **Counting by bytes counts the bits that read as null.** Where there are as many bits as are
asked for, the count is that of the bits below that are clear, and other bits have no part in it:
bitmaps that agree on these bits agree on the count. Where a bit is missing, there is no count. -/
theorem countClear?_exact (b : Bitmap) (n : Nat) :
    (n ≤ 8 * b.bytes.length →
      b.countClear? n = some ((List.range n).countP fun i => b.isSet? i = some false)) ∧
    (n ≤ 8 * b.bytes.length → ∀ b' : Bitmap, n ≤ 8 * b'.bytes.length →
      (∀ i < n, b'.isSet? i = b.isSet? i) → b'.countClear? n = b.countClear? n) ∧
    (8 * b.bytes.length < n → b.countClear? n = none) := by
  have hcount (b : Bitmap) (h : n ≤ b.capacity) :
      b.countClear? n = some ((List.range n).countP fun i => b.isSet? i = some false) := by
    rw [countClear?_ok h]
    refine congrArg some (List.countP_congr fun i hi => ?_)
    simp [isSet?_of_lt (Nat.lt_of_lt_of_le (List.mem_range.mp hi) h)]
  refine ⟨hcount b, fun h b' h' hsame => ?_, countClear?_eq_none⟩
  rw [hcount b h, hcount b' h']
  refine congrArg some (List.countP_congr fun i hi => ?_)
  rw [hsame i (List.mem_range.mp hi)]

/-- Eleven bits of which the last is in a second byte, with clear bits after it, and more than there
are. -/
theorem countClear?_exact_eleven :
    let b : Bitmap := ⟨[0xF7, 0x03]⟩
    b.countClear? 11 = some 2 ∧ (⟨[0xF7, 0xFB, 0x00]⟩ : Bitmap).countClear? 11 = some 2 ∧
      b.countClear? 17 = none := by
  intro b
  obtain ⟨hcount, hsame, hnone⟩ := countClear?_exact b 11
  have heleven : b.countClear? 11 = some 2 := (hcount (by decide)).trans (by decide +kernel)
  refine ⟨heleven, ?_, (countClear?_exact b 17).2.2 (by decide)⟩
  rw [hsame (by decide) ⟨[0xF7, 0xFB, 0x00]⟩ (by decide) (by decide +kernel), heleven]

end Columnar.Bitmap
