/-
Columns made of raw parts, cast, or computed row by row.

Each way to make a column keeps its null count right (`ofParts_counted`,
`Counted.cast`) and leaves rows that read back
(`ofParts_wellFormed`, `Holds.cast`); a column of results does both
(`operate_ok`, `operateScalar_ok`). Results are null exactly where there is no
number (`nullFlags_resultValidity`).
-/
import Columnar.Column.Cast
import Columnar.Column.Operation
import Columnar.Proofs.Ranges
import Columnar.Proofs.Rows

namespace Columnar

namespace Column

variable {c c' : Column}

/-- A column of fixed width holds the rows that its data is cut into. -/
theorem holds_of_fixed {f : Primitive} {data : Bytes} (hk : c.kind.primitive? = some f)
    (he : c.payload.elements = .fixed data) (hlen : data.length = c.rows * f.width)
    (hcovered : c.Covered) : ∃ rows, c.Holds rows := by
  have hnull : c.nullFlags.length = c.rows := c.length_nullFlags
  have hcells : (Elements.pieces f.width c.rows data).length = c.rows := Elements.length_pieces _ _ _
  refine ⟨List.zipWith Row.mk c.nullFlags (Elements.pieces f.width c.rows data), ?_⟩
  have hcell : (List.zipWith Row.mk c.nullFlags (Elements.pieces f.width c.rows data)).map Row.cell =
      Elements.pieces f.width c.rows data := by
    refine List.ext_getElem (by simp [hnull, hcells]) fun i _ _ => by simp
  exact {
    flags := List.ext_getElem (by simp [hnull, hcells]) fun i _ _ => by simp
    elements := by
      rw [hcell, Elements.lay_of_fixed hk, he, Elements.flatten_pieces hlen]
    isRow := fun r hr => by
      have hmem : r.cell ∈ Elements.pieces f.width c.rows data := hcell ▸ List.mem_map_of_mem hr
      refine ⟨(Kind.isCell_iff hk _).mpr (Elements.length_of_mem_pieces (Nat.le_of_eq hlen.symm) hmem), ?_⟩
      intro hstring
      rw [hstring] at hk
      cases hk
    fits := Elements.fits_of_fixed hk _
    covered := hcovered }

/-- The data of a column of fixed width that holds rows. -/
theorem Holds.length_data {rows : List Row} (h : c.Holds rows) {f : Primitive}
    (hk : c.kind.primitive? = some f) {data : Bytes} (he : c.payload.elements = .fixed data) :
    data.length = c.rows * f.width := by
  obtain ⟨bytes, hbytes, hlen⟩ := h.formed.fixed f hk
  rw [he] at hbytes
  cases hbytes
  exact hlen

end Column

/-! ## Raw parts -/

namespace Bitmap

/-- What bytes that are given as the bits of `n` rows come to. -/
def ofBytes (bytes : Bytes) (n : Nat) : Bitmap :=
  (enlarged bytes n).fill n (enlarged bytes n).capacity true

variable {bytes : Bytes} {n : Nat}

theorem length_enlarged (bytes : Bytes) (n : Nat) :
    (enlarged bytes n).bytes.length = max (allocationSize n) bytes.length := by
  rw [enlarged, List.length_append, List.length_replicate]
  omega

theorem length_ofBytes (bytes : Bytes) (n : Nat) :
    (ofBytes bytes n).bytes.length = max (allocationSize n) bytes.length :=
  List.length_mapIdx.trans (length_enlarged bytes n)

theorem le_capacity_ofBytes (h : n ≤ 8 * bytes.length) : n ≤ (ofBytes bytes n).capacity := by
  rw [capacity, length_ofBytes]
  omega

theorem freshFrom_ofBytes (bytes : Bytes) (n : Nat) : (ofBytes bytes n).FreshFrom n := freshFrom_fill _ _

/-- Bytes that cover the rows are padded where the bits have indices then. -/
theorem ofBytes?_eq_some_iff {b : Bitmap} (hcovers : n ≤ 8 * bytes.length)
    (hindex : 8 * bytes.length < 2 ^ indexBits) :
    ofBytes? bytes n = some b ↔ (ofBytes bytes n).capacity < 2 ^ indexBits ∧ b = ofBytes bytes n := by
  have hlen : (enlarged bytes n).capacity = 8 * max (allocationSize n) bytes.length := by
    rw [capacity, length_enlarged]
  have hcap : (ofBytes bytes n).capacity = (enlarged bytes n).capacity := capacity_fill _ _ _ _
  have hend : n + ((enlarged bytes n).capacity - n) = (enlarged bytes n).capacity := by omega
  constructor
  · intro h
    obtain ⟨rfl, hsize⟩ := fill_of_setRange? h (Nat.le_of_eq hend)
    rw [hend] at hsize ⊢
    refine ⟨?_, rfl⟩
    rw [hcap]
    -- Where there are no bits past the rows, those of the rows have indices.
    omega
  · rintro ⟨hsize, rfl⟩
    have hfill := setRange?_eq_fill (enlarged bytes n) true (by rwa [hend, ← hcap]) (Nat.le_of_eq hend)
    rw [hend] at hfill
    exact hfill

end Bitmap

namespace Column

variable {c c' : Column}

/-- The column of data and validity bits, with its nulls counted. -/
def ofBits (k : Kind) (n : Nat) (data : Bytes) (bits : Option Bitmap) : Column :=
  ⟨k, n, bits.elim 0 fun b => b.countClear n, ⟨.fixed data, bits⟩⟩

/-- That the sizes of raw parts are indices: of the data that the rows ask for, and of the validity
bits once they are padded. -/
def Indexed (width n : Nat) (validity : Option Bytes) : Prop :=
  n * width < 2 ^ indexBits ∧
    ∀ bytes ∈ validity, (Bitmap.ofBytes bytes n).capacity < 2 ^ indexBits

/-- Data and bits that are consistent, of sizes that are indices, make a column. -/
theorem ofParts_eq_ofBits {k : Kind} {f : Primitive} {n : Nat} {data : Bytes} {validity : Option Bytes}
    (hk : k.primitive? = some f) (hindexed : Indexed f.width n validity) (hlen : data.length = n * f.width)
    (hcovers : ∀ bytes ∈ validity, n ≤ 8 * bytes.length) :
    ofParts k n data validity = .ok (ofBits k n data (validity.map (Bitmap.ofBytes · n))) := by
  obtain ⟨hindex, hsize⟩ := hindexed
  have hwidth : k.width? = some f.width := by rw [Kind.width?, hk, Option.map_some]
  have hsame : (n * f.width ≠ n * f.width) = False := by simp
  cases validity with
  | none =>
    simp only [ofParts, hwidth, index?_of_lt hindex, hlen, Outcome.ofOption, bind, Except.bind, hsame, if_false]
    rfl
  | some bytes =>
    have hcovers := hcovers bytes rfl
    have hsize := hsize bytes rfl
    have hbits : 8 * bytes.length < 2 ^ indexBits := by
      rw [Bitmap.capacity, Bitmap.length_ofBytes] at hsize
      omega
    have hpadded := (Bitmap.ofBytes?_eq_some_iff hcovers hbits).mpr ⟨hsize, rfl⟩
    have hcount := Bitmap.countClear?_eq (Bitmap.le_capacity_ofBytes hcovers)
    simp only [ofParts, hwidth, index?_of_lt hindex, hlen, index?_of_lt hbits, Outcome.ofOption, bind,
      Except.bind, hsame, if_false, if_neg (Nat.not_lt_of_le hcovers), hpadded, hcount]
    rfl

/-- **Raw parts** make a column if the data is as long as it has to be, and the bits reach all rows;
sizes that are no indices end everything. -/
theorem ofParts_eq_ok_iff {k : Kind} {n : Nat} {data : Bytes} {validity : Option Bytes} :
    ofParts k n data validity = .ok c ↔ ∃ f, k.primitive? = some f ∧ Indexed f.width n validity ∧
      data.length = n * f.width ∧ (∀ bytes ∈ validity, n ≤ 8 * bytes.length) ∧
      c = ofBits k n data (validity.map (Bitmap.ofBytes · n)) := by
  constructor
  · intro h
    unfold ofParts at h
    cases hk : k.primitive? with
    | none => simp [Kind.width?, hk] at h
    | some f =>
      simp only [Kind.width?, hk, Option.map_some, Outcome.bind_eq_ok, Outcome.ofOption_eq_ok,
        index?_eq_some] at h
      obtain ⟨_, ⟨hindex, rfl⟩, h⟩ := h
      refine ⟨f, rfl, ?_⟩
      split at h
      next => cases h
      next hlen =>
        rw [ne_eq, Decidable.not_not] at hlen
        cases validity with
        | none => exact ⟨⟨hindex, by simp⟩, hlen, by simp, (Outcome.pure_eq_ok.mp h).symm⟩
        | some bytes =>
          simp only [Outcome.bind_eq_ok, Outcome.ofOption_eq_ok, index?_eq_some] at h
          obtain ⟨_, ⟨hbits, rfl⟩, h⟩ := h
          split at h
          next => cases h
          next hcovers =>
            have hcovers := Nat.le_of_not_lt hcovers
            simp only [Outcome.bind_eq_ok, Outcome.ofOption_eq_ok,
              Bitmap.ofBytes?_eq_some_iff hcovers hbits] at h
            obtain ⟨_, ⟨hsize, rfl⟩, nulls, hnulls, h⟩ := h
            rw [Bitmap.countClear?_eq (Bitmap.le_capacity_ofBytes hcovers)] at hnulls
            cases hnulls
            refine ⟨⟨hindex, fun _ hbytes => ?_⟩, hlen, fun _ hbytes => ?_, (Outcome.pure_eq_ok.mp h).symm⟩
            · cases hbytes
              exact hsize
            · cases hbytes
              exact hcovers
  · rintro ⟨f, hk, hindexed, hlen, hcovers, rfl⟩
    exact ofParts_eq_ofBits hk hindexed hlen hcovers

/-- What a column of raw parts is. -/
theorem ofParts_eq_ok {k : Kind} {n : Nat} {data : Bytes} {validity : Option Bytes}
    (h : ofParts k n data validity = .ok c) :
    ∃ f v, k.primitive? = some f ∧ data.length = n * f.width ∧
      (∀ b, v = some b → n ≤ b.capacity) ∧ (∀ b, v = some b → b.FreshFrom n) ∧
      c = ⟨k, n, (v.elim 0 fun b => b.countClear n), ⟨.fixed data, v⟩⟩ := by
  obtain ⟨f, hk, -, hlen, hcovers, rfl⟩ := ofParts_eq_ok_iff.mp h
  refine ⟨f, _, hk, hlen, fun b hb => ?_, fun b hb => ?_, rfl⟩
  all_goals obtain ⟨bytes, hbytes, rfl⟩ := Option.map_eq_some_iff.mp hb
  · exact Bitmap.le_capacity_ofBytes (hcovers bytes hbytes)
  · exact Bitmap.freshFrom_ofBytes bytes n

theorem ofParts_counted {k : Kind} {n : Nat} {data : Bytes} {validity : Option Bytes}
    (h : ofParts k n data validity = .ok c) : c.Counted := by
  obtain ⟨f, v, hk, -, hcovers, -, rfl⟩ := ofParts_eq_ok h
  refine ⟨?_, hcovers, ?_⟩
  · rintro rfl
    cases hk
  · cases v with
    | none => simp [nullFlags]
    | some b => exact b.countClear_eq_count (hcovers b rfl)

/-- **Raw parts** are rows. -/
theorem ofParts_wellFormed {k : Kind} {n : Nat} {data : Bytes} {validity : Option Bytes}
    (h : ofParts k n data validity = .ok c) : c.WellFormed := by
  refine ⟨?_, (ofParts_counted h).nulls⟩
  obtain ⟨f, v, hk, hlen, hcovers, -, rfl⟩ := ofParts_eq_ok h
  exact holds_of_fixed hk rfl hlen hcovers

/-! ## Casts -/

theorem castRule?_eq_identity {source target : Kind} (h : source.castRule? target = some .identity) :
    source = target := by
  by_cases heq : source = target
  · exact heq
  · rw [Kind.castRule?.eq_def, if_neg heq] at h
    cases source <;> cases target <;> simp at h heq
    split at h <;> cases h

/-- The elements of a cast: the same, or converted piece by piece. -/
theorem cast_eq_ok {target : Kind} (h : c.cast target = .ok c') :
    ∃ e, c' = { c with kind := target, payload := { c.payload with elements := e } } ∧
      (c.kind = target ∧ e = c.payload.elements ∨
        ∃ f g bytes, c.kind.primitive? = some f ∧ target.primitive? = some g ∧
          c.payload.elements = .fixed bytes ∧ e = .fixed (Elements.convert f g bytes)) := by
  simp only [cast, Outcome.bind_eq_ok, Outcome.pure_eq_ok] at h
  obtain ⟨rule, hrule, e, he, rfl⟩ := h
  refine ⟨e, rfl, ?_⟩
  unfold Elements.cast at he
  split at he
  next =>
    left
    cases he
    refine ⟨castRule?_eq_identity ?_, rfl⟩
    unfold Kind.requireCast at hrule
    split at hrule
    next hcast =>
      cases hrule
      exact hcast
    next => cases hrule
  next hbytes hf hg =>
    right
    cases he
    exact ⟨_, _, _, hf, hg, hbytes, rfl⟩
  next => cases he

/-- **A cast** leaves the null rows and their count. -/
theorem Counted.cast (h : c.Counted) {target : Kind} (hc : c.cast target = .ok c') :
    c'.nullFlags = c.nullFlags ∧ c'.Counted := by
  obtain ⟨e, rfl, he⟩ := cast_eq_ok hc
  refine ⟨rfl, ?_, h.covered, h.nulls⟩
  rcases he with ⟨hkind, rfl⟩ | ⟨f, g, bytes, -, hg, -, rfl⟩
  · exact hkind ▸ h.suits
  · rintro rfl
    cases hg

theorem length_convert {f g : Primitive} {bytes : Bytes} {n : Nat} (h : bytes.length = n * f.width) :
    (Elements.convert f g bytes).length = n * g.width := by
  rw [Elements.convert, h, Nat.mul_div_cancel _ f.width_pos, List.flatMap_def,
    Elements.length_flatten_of_uniform (w := g.width)]
  · rw [List.length_map, Elements.length_pieces]
  · intro cell hcell
    obtain ⟨piece, -, rfl⟩ := List.mem_map.mp hcell
    exact g.length_encode _

theorem Holds.cast {rows : List Row} (h : c.Holds rows) {target : Kind} (hc : c.cast target = .ok c') :
    ∃ rows', c'.Holds rows' := by
  obtain ⟨e, rfl, he⟩ := cast_eq_ok hc
  rcases he with ⟨rfl, rfl⟩ | ⟨f, g, bytes, hf, hg, hbytes, rfl⟩
  · exact ⟨rows, h⟩
  · exact holds_of_fixed hg rfl (length_convert (h.length_data hf hbytes)) h.covered

end Column

/-! ## Results -/

namespace Operation

/-- Clearing the bits of missing results, from place `k` on. -/
theorem isSet_foldl_clear (results : List (Option Number)) (k : Nat) (b : Bitmap) (i : Nat) :
    ((results.zipIdx k).foldl (fun v (r, i) => if r.isNone then v.clear i else v) b).isSet i =
      (b.isSet i && !(decide (k ≤ i) && results[i - k]?.any Option.isNone)) := by
  induction results generalizing k b with
  | nil => simp
  | cons r results ih =>
    rw [List.zipIdx_cons, List.foldl_cons, ih]
    have hhead : (if r.isNone then b.clear k else b).isSet i =
        (b.isSet i && !(decide (k = i) && r.isNone)) := by
      cases r <;> simp [Bitmap.isSet_clear, eq_comm]
    rw [hhead, Bool.and_assoc]
    congr 1
    rcases Nat.lt_trichotomy k i with hlt | rfl | hgt
    · obtain ⟨d, rfl⟩ := Nat.exists_eq_add_of_lt hlt
      simp [show k + d + 1 - k = d + 1 by omega, show k + d + 1 - (k + 1) = d by omega,
        show k ≤ k + d + 1 by omega, show ¬ k = k + d + 1 by omega]
    · simp
    · simp [Nat.not_le_of_lt hgt, Nat.ne_of_gt hgt, show ¬ k + 1 ≤ i by omega]

theorem capacity_foldl_clear (results : List (Option Number)) (k : Nat) (b : Bitmap) :
    ((results.zipIdx k).foldl (fun v (r, i) => if r.isNone then v.clear i else v) b).capacity =
      b.capacity := by
  induction results generalizing k b with
  | nil => rfl
  | cons r results ih =>
    rw [List.zipIdx_cons, List.foldl_cons, ih]
    cases r <;> simp

theorem le_capacity_resultValidity (results : List (Option Number)) :
    results.length ≤ (resultValidity results).capacity := by
  rw [resultValidity, capacity_foldl_clear]
  exact Bitmap.le_capacity_allValid _

/-- The bits past the results are set. -/
theorem freshFrom_resultValidity (results : List (Option Number)) :
    (resultValidity results).FreshFrom results.length := by
  intro i hi hcap
  rw [resultValidity, capacity_foldl_clear] at hcap
  rw [resultValidity, isSet_foldl_clear, Bitmap.isSet_allValid hcap, Nat.sub_zero,
    List.getElem?_eq_none hi]
  simp

/-- **Results are null** where there is no number. -/
theorem nullFlags_resultValidity (results : List (Option Number)) :
    Bitmap.nullFlags (some (resultValidity results)) results.length = results.map Option.isNone := by
  refine List.ext_getElem (by simp) fun i hi _ => ?_
  have hi : i < results.length := by simpa using hi
  have hcap : i < (Bitmap.allValid results.length).capacity :=
    Nat.lt_of_lt_of_le hi (Bitmap.le_capacity_allValid _)
  have hbit := isSet_foldl_clear results 0 (Bitmap.allValid results.length) i
  rw [Bitmap.isSet_allValid hcap, Nat.sub_zero, List.getElem?_eq_getElem hi] at hbit
  simp only [Bitmap.nullFlags, List.getElem_map, List.getElem_range, Option.any_some, resultValidity,
    hbit]
  simp

theorem length_resultBytes (form : Primitive) (results : List (Option Number)) :
    (resultBytes form results).length = results.length * form.width := by
  rw [resultBytes, List.flatMap_def, Elements.length_flatten_of_uniform (w := form.width),
    List.length_map]
  intro cell hcell
  obtain ⟨r, -, rfl⟩ := List.mem_map.mp hcell
  cases r with
  | none => simp
  | some n => exact form.length_encode _

/-- What an evaluation is a column of. -/
theorem evaluate_eq_ok {op : Operation} {out : Kind} {l r : Operand} {c : Column}
    (h : op.evaluate out l r = .ok c) :
    ∃ form results nullable, out.primitive? = some form ∧ results.length ≤ maxSize ∧
      (nullable = false → results.countP Option.isNone = 0) ∧
      c = ⟨out, results.length, results.countP Option.isNone,
        ⟨.fixed (resultBytes form results), if nullable then some (resultValidity results) else none⟩⟩ := by
  unfold evaluate at h
  split at h
  next => cases h
  next form hform =>
    rw [Outcome.bind_eq_ok] at h
    obtain ⟨_, hstorage, h⟩ := h
    cases h
    refine ⟨form, _, _, hform, ?_, fun hnullable => ?_, rfl⟩
    · have hleft := Nat.le_trans (Elements.le_reserved out _) (Elements.requireStorage_eq_ok.mp hstorage)
      rw [results, List.length_zipWith]
      exact Nat.le_trans (Nat.min_le_left _ _) hleft
    · simp only [Bool.or_eq_false_iff, bne_eq_false_iff_eq] at hnullable
      exact hnullable.2

/-- **An evaluation counts its nulls right**, and its rows read back. -/
theorem evaluate_ok {op : Operation} {out : Kind} {l r : Operand} {c : Column}
    (h : op.evaluate out l r = .ok c) : c.Counted ∧ ∃ rows, c.Holds rows := by
  obtain ⟨form, results, nullable, hform, -, hnone, rfl⟩ := evaluate_eq_ok h
  have hcovered : Column.Covered ⟨out, results.length, results.countP Option.isNone,
      ⟨.fixed (resultBytes form results), if nullable then some (resultValidity results) else none⟩⟩ := by
    intro v hv
    cases nullable with
    | false => cases hv
    | true =>
      obtain rfl : resultValidity results = v := by simpa using hv
      exact le_capacity_resultValidity results
  refine ⟨⟨?_, hcovered, ?_⟩, Column.holds_of_fixed hform rfl (length_resultBytes form results) hcovered⟩
  · rintro rfl
    cases hform
  · cases nullable with
    | false => simp [Column.nullFlags, hnone rfl]
    | true =>
      simp only [Column.nullFlags, if_true, nullFlags_resultValidity, List.count, List.countP_map]
      exact List.countP_congr fun r _ => by simp

end Operation

namespace Column

/-- A column of results is an evaluation. -/
theorem evaluate_of_operate {op : Operation} {out : Kind} {l r c : Column}
    (h : operate op out l r = .ok c) : ∃ l' r', op.evaluate out l' r' = .ok c := by
  simp only [operate, Outcome.bind_eq_ok] at h
  obtain ⟨-, -, r', -, l', -, h⟩ := h
  exact ⟨l', r', h⟩

theorem evaluate_of_operateScalar {op : Operation} {out : Kind} {l c : Column} {r : Scalar}
    (h : operateScalar op out l r = .ok c) : ∃ l' r', op.evaluate out l' r' = .ok c := by
  simp only [operateScalar, Outcome.bind_eq_ok] at h
  obtain ⟨-, -, l', -, h⟩ := h
  exact ⟨l', _, h⟩

theorem operate_ok {op : Operation} {out : Kind} {l r c : Column} (h : operate op out l r = .ok c) :
    c.Counted ∧ ∃ rows, c.Holds rows := by
  obtain ⟨l', r', h⟩ := evaluate_of_operate h
  exact Operation.evaluate_ok h

theorem operateScalar_ok {op : Operation} {out : Kind} {l c : Column} {r : Scalar}
    (h : operateScalar op out l r = .ok c) : c.Counted ∧ ∃ rows, c.Holds rows := by
  obtain ⟨l', r', h⟩ := evaluate_of_operateScalar h
  exact Operation.evaluate_ok h

end Column

end Columnar
