/-
Columns row by row.

A column holds rows (`Column.Holds`) if its elements are the cells of the rows
in memory and its validity bits mark the null ones. Everything a column answers
follows from the rows: `Holds.scalars` reads them all back, `Holds.null` one
mark, and `Holds.formed` says what the buffers look like.

Which rows are null is a matter of the validity bits alone (`Bitmap.nullFlags`).
Columns that count their nulls right are `Counted`, whatever their elements are.
-/
import Columnar.Proofs.Cells
import Columnar.Proofs.Merging

namespace Columnar

/-! ## Null rows of validity bits -/

namespace Bitmap

/-- Which of the first `n` rows are null. -/
def nullFlags (validity : Option Bitmap) (n : Nat) : List Bool :=
  (List.range n).map fun i => validity.any fun b => !b.isSet i

/-- That the rows from `n` on have never been written. -/
def FreshFrom (b : Bitmap) (n : Nat) : Prop := ∀ i, n ≤ i → i < b.capacity → b.isSet i = true

@[simp] theorem length_nullFlags (v : Option Bitmap) (n : Nat) : (nullFlags v n).length = n := by
  simp [nullFlags]

theorem nullFlags_none (n : Nat) : nullFlags none n = List.replicate n false := by
  simp [nullFlags, List.map_const']

@[simp] theorem count_nullFlags_none (n : Nat) : (nullFlags none n).count true = 0 := by
  simp [nullFlags_none, List.count_replicate]

theorem nullFlags_congr {v w : Option Bitmap} {n : Nat}
    (h : ∀ i < n, (v.any fun b => !b.isSet i) = w.any fun b => !b.isSet i) :
    nullFlags v n = nullFlags w n :=
  List.map_congr_left fun i hi => h i (List.mem_range.mp hi)

theorem nullFlags_add (v : Option Bitmap) (m n : Nat) :
    nullFlags v (m + n) =
      nullFlags v m ++ (List.range n).map fun i => v.any fun b => !b.isSet (m + i) := by
  simp [nullFlags, List.range_add, List.map_map, Function.comp_def]

/-- Rows that were never written are not null. -/
theorem nullFlags_add_of_fresh {b : Bitmap} {m n : Nat} (h : b.FreshFrom m) (hn : m + n ≤ b.capacity) :
    nullFlags (some b) (m + n) = nullFlags (some b) m ++ List.replicate n false := by
  rw [nullFlags_add, ← nullFlags_none]
  congr 1
  refine List.map_congr_left fun i hi => ?_
  have hi : i < n := List.mem_range.mp hi
  simp [h (m + i) (by omega) (by omega)]

/-- Nor are rows of no bits at all. -/
theorem nullFlags_add_valid {v : Option Bitmap} {m n : Nat}
    (h : ∀ b, v = some b → b.FreshFrom m ∧ m + n ≤ b.capacity) :
    nullFlags v (m + n) = nullFlags v m ++ List.replicate n false := by
  cases v with
  | none => simp only [nullFlags_none, List.replicate_append_replicate]
  | some b => exact nullFlags_add_of_fresh (h b rfl).1 (h b rfl).2

theorem nullFlags_clear (b : Bitmap) (n : Nat) :
    nullFlags (some (b.clear n)) (n + 1) = nullFlags (some b) n ++ [true] := by
  have hkept : nullFlags (some (b.clear n)) n = nullFlags (some b) n :=
    nullFlags_congr fun i hi => by simp [isSet_clear, Nat.ne_of_lt hi]
  rw [nullFlags_add, hkept]
  simp [isSet_clear]

theorem nullFlags_merge {b : Bitmap} {m n : Nat} (source : Bitmap) (h : m + n ≤ b.capacity) :
    nullFlags (some (b.merge m source n)) (m + n) =
      nullFlags (some b) m ++ nullFlags (some source) n := by
  have hkept : nullFlags (some (b.merge m source n)) m = nullFlags (some b) m :=
    nullFlags_congr fun i hi => by simp [isSet_merge, Nat.not_le_of_lt hi]
  rw [nullFlags_add, hkept]
  congr 1
  refine List.map_congr_left fun i hi => ?_
  have hi : i < n := List.mem_range.mp hi
  simp [isSet_merge, hi, show m + i < b.capacity by omega]

theorem freshFrom_allValid (rows n : Nat) : (allValid rows).FreshFrom n :=
  fun _ _ hi => isSet_allValid hi

theorem freshFrom_fill (b : Bitmap) (n : Nat) : (b.fill n b.capacity true).FreshFrom n := by
  intro i hi hcap
  rw [capacity_fill] at hcap
  rw [isSet_fill, if_pos ⟨hi, hcap, hcap⟩]

theorem nullFlags_allValid {rows n : Nat} (h : n ≤ (allValid rows).capacity) :
    nullFlags (some (allValid rows)) n = List.replicate n false := by
  rw [← nullFlags_none]
  exact nullFlags_congr fun i hi => by simp [isSet_allValid (Nat.lt_of_lt_of_le hi h)]

theorem FreshFrom.mono {b : Bitmap} {m n : Nat} (h : b.FreshFrom m) (hmn : m ≤ n) : b.FreshFrom n :=
  fun i hi => h i (Nat.le_trans hmn hi)

theorem FreshFrom.clear {b : Bitmap} {n : Nat} (h : b.FreshFrom n) : (b.clear n).FreshFrom (n + 1) := by
  intro i hi hc
  rw [capacity_clear] at hc
  rw [isSet_clear, h i (by omega) hc]
  exact decide_eq_true (by omega)

theorem FreshFrom.merge {b : Bitmap} {m n : Nat} (h : b.FreshFrom m) (source : Bitmap) :
    (b.merge m source n).FreshFrom (m + n) := by
  intro i hi hc
  rw [capacity_merge] at hc
  rw [isSet_merge, if_neg (by omega), h i (by omega) hc]

/-- A merge that succeeds marks the rows behind as the source does. -/
theorem merge?_eq_some {b b' source : Bitmap} {m n : Nat} (h : b.merge? m source n = some b') :
    nullFlags (some b') (m + n) = nullFlags (some b) m ++ nullFlags (some source) n ∧
      b'.capacity = b.capacity ∧ (b.FreshFrom m → b'.FreshFrom (m + n)) := by
  rw [merge?_eq] at h
  split at h
  next hn =>
    obtain rfl := Option.some.inj h
    subst hn
    exact ⟨by simp [nullFlags], rfl, id⟩
  next =>
    split at h
    next hcap =>
      obtain rfl := Option.some.inj h
      exact ⟨nullFlags_merge source hcap.2, by simp, fun hb => hb.merge source⟩
    next => cases h

/-- Counting clear bits counts null rows. -/
theorem countClear_eq_count (b : Bitmap) {n : Nat} (hn : n ≤ b.capacity) :
    b.countClear n = (nullFlags (some b) n).count true := by
  rw [countClear_eq b hn, nullFlags, List.count, List.countP_map]
  exact List.countP_congr fun i _ => by simp

end Bitmap

/-! ## Rows -/

/-- One row: whether it is null, and the bytes at its place. -/
structure Row where
  null : Bool
  cell : Bytes
  deriving DecidableEq, Repr

/-- The scalar that a row of a kind reads as. -/
def Row.scalar (k : Kind) (r : Row) : Scalar := if r.null then .null else k.readCell r.cell

/-- What a row of a kind can be: a cell, and the empty one if it is a null string. -/
def Kind.IsRow (k : Kind) (r : Row) : Prop :=
  k.IsCell r.cell ∧ (k = .string → r.null = true → r.cell = [])

namespace Column

/-- Which rows are null. -/
def nullFlags (c : Column) : List Bool := Bitmap.nullFlags c.payload.validity c.rows

/-- That the validity bits reach every row. -/
def Covered (c : Column) : Prop := ∀ b, c.payload.validity = some b → c.rows ≤ b.capacity

/-- That the validity bits past the last row are set. -/
def Padded (c : Column) : Prop := ∀ b, c.payload.validity = some b → b.FreshFrom c.rows

/-- A column whose null count is the number of its null rows. -/
structure Counted (c : Column) : Prop where
  suits : c.payload.elements.Suits c.kind
  covered : c.Covered
  nulls : c.nulls = c.nullFlags.count true

/-- The rows that a column holds. -/
structure Holds (c : Column) (rows : List Row) : Prop where
  flags : c.nullFlags = rows.map Row.null
  elements : c.payload.elements = Elements.lay c.kind (rows.map Row.cell)
  isRow : ∀ r ∈ rows, c.kind.IsRow r
  fits : Elements.Fits c.kind (rows.map Row.cell)
  covered : c.Covered

/-- A column that holds rows and counts its nulls right. -/
structure WellFormed (c : Column) : Prop where
  holds : ∃ rows, c.Holds rows
  nulls : c.nulls = c.nullFlags.count true

/-- The answers of the column to every row there is. -/
def scalars (c : Column) : List (Outcome Scalar) := (List.range c.rows).map c.scalar

/-- **What the buffers of a column look like**: elements of fixed width fill the
data exactly; the offsets of strings begin with zero, do not decrease, end with
the text and delimit well-formed text, which is empty at null rows; validity
bits reach every row. -/
structure Formed (c : Column) : Prop where
  fixed : ∀ f, c.kind.primitive? = some f →
    ∃ bytes, c.payload.elements = .fixed bytes ∧ bytes.length = c.rows * f.width
  strings : c.kind = .string →
    ∃ offsets text, c.payload.elements = .strings offsets text ∧
      offsets.length = c.rows + 1 ∧ offsets[0]? = some 0 ∧ offsets.Pairwise (· ≤ ·) ∧
      (∃ last, offsets[c.rows]? = some last ∧ last.toNat = text.length) ∧
      ∀ i < c.rows, ∃ bytes s, Elements.textBytes? offsets text i = some bytes ∧
        Utf8.decode bytes = .ok s ∧ (c.nullFlags[i]? = some true → bytes = [])
  validity : ∀ b, c.payload.validity = some b → c.rows ≤ b.capacity

theorem length_nullFlags (c : Column) : c.nullFlags.length = c.rows := Bitmap.length_nullFlags _ _

/-- Whether a row is null can be asked of every row. -/
theorem isNull_of_covered {c : Column} (h : c.Covered) {i : Nat} (hi : i < c.rows) :
    c.payload.isNull i = .ok (c.nullFlags.getD i false) := by
  cases hv : c.payload.validity with
  | none => simp [Payload.isNull, hv, nullFlags, Bitmap.nullFlags, hi]
  | some b =>
    have hcap : i < b.capacity := Nat.lt_of_lt_of_le hi (h b hv)
    simp [Payload.isNull, hv, nullFlags, Bitmap.nullFlags, Bitmap.isSet?, hcap, hi, Outcome.ofOption,
      bind, Except.bind, pure, Except.pure]

theorem checkIndex_of_lt {c : Column} {i : Nat} (hi : i < c.rows) : c.shape.checkIndex i = .ok () := by
  simp [Shape.checkIndex, shape, hi]

theorem checkIndex_of_le {c : Column} {i : Nat} (hi : c.rows ≤ i) :
    c.shape.checkIndex i = refuse (.indexOutOfRange i c.rows) := by
  simp [Shape.checkIndex, shape, Nat.not_lt.mpr hi]

namespace Holds

variable {c : Column} {rows : List Row}

theorem length (h : c.Holds rows) : rows.length = c.rows := by
  rw [← List.length_map Row.null, ← h.flags, length_nullFlags]

theorem null (h : c.Holds rows) {i : Nat} (hi : i < rows.length) :
    c.payload.isNull i = .ok rows[i].null := by
  rw [isNull_of_covered h.covered (h.length ▸ hi)]
  simp [h.flags, hi]

theorem isCell (h : c.Holds rows) : ∀ cell ∈ rows.map Row.cell, c.kind.IsCell cell := by
  intro cell hcell
  obtain ⟨r, hr, rfl⟩ := List.mem_map.mp hcell
  exact (h.isRow r hr).1

theorem suits (h : c.Holds rows) : c.payload.elements.Suits c.kind :=
  h.elements ▸ Elements.suits_lay _ _

/-- **Each row reads back.** -/
theorem scalar (h : c.Holds rows) {i : Nat} (hi : i < rows.length) :
    c.scalar i = .ok (rows[i].scalar c.kind) := by
  have hcheck := checkIndex_of_lt (h.length ▸ hi)
  have hread := Payload.scalar_lay h.elements h.isCell h.fits (i := i) (by simpa using hi)
  simp only [Column.scalar, hcheck, h.null hi, hread, List.getElem_map, bind, Except.bind, Row.scalar]
  cases rows[i].null <;> rfl

theorem scalars (h : c.Holds rows) : c.scalars = rows.map fun r => .ok (r.scalar c.kind) := by
  refine List.ext_getElem (by simp [Column.scalars, h.length]) fun i hi _ => ?_
  have hi : i < c.rows := by simpa [Column.scalars] using hi
  simp [Column.scalars, h.scalar (h.length ▸ hi)]

theorem formed (h : c.Holds rows) : c.Formed where
  fixed f hf := by
    refine ⟨_, h.elements.trans (Elements.lay_of_fixed hf _), ?_⟩
    rw [Elements.length_flatten_of_uniform fun cell hc => (Kind.isCell_iff hf cell).mp (h.isCell cell hc),
      List.length_map, h.length]
  strings hk := by
    have helements := h.elements
    have hfit : (rows.map Row.cell).flatten.length ≤ maxTextBytes := h.fits hk
    rw [hk, Elements.lay_string] at helements
    refine ⟨_, _, helements, by simp [h.length], rfl, Elements.pairwise_offsets hfit, ?_, ?_⟩
    · have hlast := Elements.getElem?_offsets (Nat.le_refl (rows.map Row.cell).length)
      rw [List.length_map, h.length] at hlast
      refine ⟨_, hlast, ?_⟩
      rw [List.take_of_length_le (by simp [h.length]), Elements.toNat_ofNat_of_le hfit]
    · intro i hi
      have hi : i < rows.length := h.length ▸ hi
      obtain ⟨hcell, hblank⟩ := h.isRow rows[i] (List.getElem_mem hi)
      rw [hk] at hcell
      obtain ⟨s, hs⟩ := hcell
      refine ⟨rows[i].cell, s, ?_, hs, fun hnull => hblank hk (by simpa [h.flags, hi] using hnull)⟩
      rw [Elements.textBytes?_lay hfit (by simpa using hi), List.getElem_map]
  validity := h.covered

end Holds

theorem WellFormed.counted {c : Column} (h : c.WellFormed) : c.Counted := by
  obtain ⟨rows, hrows⟩ := h.holds
  exact ⟨hrows.suits, hrows.covered, h.nulls⟩

end Column

end Columnar
