/-
Integers that survive floats.

An integer no longer than a significand is a float, and one past that if it is a power of two; so up
to `2 ^ (fractionBits + 1)` a conversion to floats is exact, and the word that is cut off a float of
that kind is the integer again (`Binary.wrapToInt_ofInt`). A cast to floats and back therefore leaves
every such cell as it was (`Primitive.throughFloat_eq`), and all of those of a width that is narrow
enough. What lies at null rows may be longer than that, so rows are compared as they read
(`Column.scalar_throughFloats`).
-/
import Columnar.Proofs.Computing
import Columnar.Proofs.Recasting
import Columnar.Proofs.Yielding

namespace Columnar

/-! ## Numbers -/

namespace Precision

/-- Whole numbers up to the first that is longer than a significand are numbers. -/
theorem exact_of_le {p : Precision} {n : Nat} (h : n ≤ 2 ^ (p.fractionBits + 1)) :
    p.Exact (n * p.unity) := by
  rcases Nat.lt_or_eq_of_le h with hlt | rfl
  · exact exact_of_dvd (j := 0) (Nat.one_dvd n) hlt (by cases p <;> decide)
  · exact exact_of_dvd (j := 1) (Nat.pow_dvd_pow 2 (Nat.le_add_left 1 _))
      (Nat.pow_lt_pow_right (by decide) (Nat.lt_succ_self _)) (by cases p <;> decide)

end Precision

namespace Binary

/-- **The word of a converted integer** is the integer, as far as words hold it. -/
theorem wrapToInt_ofInt {p : Precision} {v : Int} (h : v.natAbs ≤ 2 ^ (p.fractionBits + 1)) :
    (ofInt p v).wrapToInt = v.bmod (2 ^ Width.w64.bits) := by
  rw [wrapToInt_eq_bmod, (is_ofInt (Precision.exact_of_le h)).truncated, tdiv_unity]

end Binary

/-! ## Cells -/

namespace Primitive

variable {p : Width} {q : Precision} {cell : Bytes}

/-- A cell of integers put into floats and back. -/
def throughFloat (p : Width) (q : Precision) (cell : Bytes) : Bytes :=
  Number.write (.int p) (Number.read (.float q) (Number.write (.float q) (Number.read (.int p) cell)))

theorem natAbs_signed_le (p : Width) (cell : Bytes) : (signed p cell).natAbs ≤ 2 ^ (p.bits - 1) := by
  have hlow : -2 ^ (p.bits - 1) ≤ signed p cell := BitVec.le_toInt _
  have hhigh : signed p cell < 2 ^ (p.bits - 1) := BitVec.toInt_lt
  have hcast : ((2 ^ (p.bits - 1) : Nat) : Int) = 2 ^ (p.bits - 1) := by norm_cast
  omega

/-- **Integers survive floats**, if they are no longer than significands. -/
theorem throughFloat_eq (hcell : cell.length = p.bytes)
    (h : (signed p cell).natAbs ≤ 2 ^ (q.fractionBits + 1)) : throughFloat p q cell = cell := by
  have hword : p.bytes ≤ Width.w64.bytes := by cases p <;> decide
  have hwritten : (throughFloat p q cell).length = p.bytes := (Primitive.int p).length_encode _
  refine eq_of_signed hwritten hcell ?_
  rw [throughFloat, Number.signed_write, Number.read_float, Number.floating_write, Number.read_int,
    Number.toInt, Binary.wrapToInt_toDouble, Number.toBinary, Binary.wrapToInt_ofInt h,
    bmod_signed hword, bmod_signed (Nat.le_refl _)]

end Primitive

/-! ## Elements -/

namespace Elements

/-- **Reading an element** finds its cell, if there is one. -/
theorem element?_flatten {f : Primitive} {cells : List Bytes} (hc : ∀ cell ∈ cells, cell.length = f.width)
    (i : Nat) : element? f cells.flatten i = cells[i]?.map f.decode := by
  by_cases hlt : i < cells.length
  · rw [element?_lay hc hlt, List.getElem?_eq_getElem hlt]
    rfl
  · have hend : cells.flatten.length ≤ i * f.width := by
      rw [length_flatten_of_uniform hc]
      exact Nat.mul_le_mul_right _ (Nat.le_of_not_lt hlt)
    have hnone : ¬ f.width ≤ ([] : Bytes).length := Nat.not_le_of_lt f.width_pos
    rw [element?, List.drop_of_length_le hend, Primitive.read?, if_neg hnone,
      List.getElem?_eq_none (Nat.le_of_not_lt hlt)]
    rfl

end Elements

/-! ## Columns -/

namespace Column

variable {c : Column} {p : Width} {q : Precision}

/-- Casts between kinds of different forms convert the data. -/
theorem cast_of_ne {target : Kind} {f g : Primitive} (hne : c.kind ≠ target)
    (hf : c.kind.primitive? = some f) (hg : target.primitive? = some g) {bytes : Bytes}
    (hbytes : c.payload.elements = .fixed bytes) :
    c.cast target = .ok { c with
      kind := target, payload := { c.payload with elements := .fixed (Elements.convert f g bytes) } } := by
  obtain ⟨rule, hrule⟩ := Kind.castRule?_of_forms hf hg
  refine cast_of_forms hrule ?_ hf hg hbytes
  rintro rfl
  exact hne (castRule?_eq_identity hrule)

/-- The data of a column of fixed width is that of its cells. -/
theorem Holds.exists_cells {rows : List Row} (h : c.Holds rows) {f : Primitive}
    (hf : c.kind.primitive? = some f) :
    ∃ cells : List Bytes, (∀ cell ∈ cells, cell.length = f.width) ∧
      c.payload.elements = .fixed cells.flatten :=
  ⟨_, fun cell hcell => (Kind.isCell_iff hf cell).mp (h.isCell cell hcell),
    h.elements.trans (Elements.lay_of_fixed hf _)⟩

/-- The column with every cell put into floats and back. -/
def throughFloats (c : Column) (p : Width) (q : Precision) (cells : List Bytes) : Column :=
  { c with payload := { c.payload with elements := .fixed (cells.map (Primitive.throughFloat p q)).flatten } }

/-- **To floats and back**, cell by cell. -/
theorem cast_float_cast (hp : c.kind.primitive? = some (.int p)) (q : Precision) {cells : List Bytes}
    (hcells : ∀ cell ∈ cells, cell.length = p.bytes) (hdata : c.payload.elements = .fixed cells.flatten) :
    ∃ d, c.cast (.float q) = .ok d ∧ d.kind = .float q ∧ d.rows = c.rows ∧
      d.cast c.kind = .ok (c.throughFloats p q cells) := by
  have hne : c.kind ≠ .float q := by
    intro hkind
    rw [hkind] at hp
    cases hp
  have hconverted := Elements.convert_flatten (f := .int p) (g := .float q) hcells
  have hwritten : ∀ cell ∈ cells.map fun cell => Number.write (.float q) (Number.read (.int p) cell),
      cell.length = (Primitive.float q).width := by
    intro cell hcell
    obtain ⟨_, -, rfl⟩ := List.mem_map.mp hcell
    exact (Primitive.float q).length_encode _
  refine ⟨_, cast_of_ne hne hp rfl hdata, rfl, rfl, ?_⟩
  rw [cast_of_ne (c := { c with kind := .float q, payload := { c.payload with elements := .fixed _ } })
    hne.symm rfl hp rfl, hconverted, Elements.convert_flatten hwritten, List.map_map]
  rfl

/-- **An element is as before**, unless it is an integer that floats do not hold. -/
theorem element_throughFloats {cells : List Bytes} (hcells : ∀ cell ∈ cells, cell.length = p.bytes)
    (hdata : c.payload.elements = .fixed cells.flatten) {i : Nat}
    (hfits : ∀ x : BitVec p.bits, c.payload.element (.int p) i = .ok x →
      x.toInt.natAbs ≤ 2 ^ (q.fractionBits + 1)) :
    (c.throughFloats p q cells).payload.element (.int p) i = c.payload.element (.int p) i := by
  have hwritten : ∀ cell ∈ cells.map (Primitive.throughFloat p q), cell.length = p.bytes := by
    intro cell hcell
    obtain ⟨_, -, rfl⟩ := List.mem_map.mp hcell
    exact (Primitive.int p).length_encode _
  have hread := Elements.element?_flatten (f := .int p) hcells i
  have hread' := Elements.element?_flatten (f := .int p) hwritten i
  simp only [Payload.element, hdata, hread] at hfits
  simp only [throughFloats, Payload.element, hdata, hread, hread', List.getElem?_map]
  cases hcell : cells[i]? with
  | none => rfl
  | some cell =>
    rw [hcell] at hfits
    rw [Option.map_some,
      Primitive.throughFloat_eq (hcells cell (List.mem_of_getElem? hcell)) (hfits _ rfl)]

/-- How rows of a kind of integers read: an element each, from which the integer can be told. -/
theorem exists_scalar_eq {k : Kind} (hp : k.primitive? = some (.int p)) :
    ∃ make : BitVec p.bits → Scalar, (∀ v, (make v).toInt? = some v.toInt) ∧
      ∀ (payload : Payload) (i : Nat), payload.scalar k i = make <$> payload.element (.int p) i := by
  cases k with
  | int w =>
    obtain rfl : w = p := Primitive.int.inj (Option.some.inj hp)
    exact ⟨.int w, fun _ => rfl, fun _ _ => rfl⟩
  | date =>
    obtain rfl : Width.w32 = p := Primitive.int.inj (Option.some.inj hp)
    exact ⟨.date, fun _ => rfl, fun _ _ => rfl⟩
  | _ => cases hp

/-- **A row reads as before**, unless it reads as an integer that floats do not hold. -/
theorem scalar_throughFloats (hp : c.kind.primitive? = some (.int p)) {cells : List Bytes}
    (hcells : ∀ cell ∈ cells, cell.length = p.bytes) (hdata : c.payload.elements = .fixed cells.flatten)
    {i : Nat} (hfits : ∀ x n, c.scalar i = .ok x → x.toInt? = some n →
      n.natAbs ≤ 2 ^ (q.fractionBits + 1)) :
    (c.throughFloats p q cells).scalar i = c.scalar i := by
  obtain ⟨make, hmake, hscalar⟩ := exists_scalar_eq hp
  have hcheck : (c.throughFloats p q cells).shape.checkIndex i = c.shape.checkIndex i := rfl
  have hnull : (c.throughFloats p q cells).payload.isNull i = c.payload.isNull i := rfl
  have hkind : (c.throughFloats p q cells).kind = c.kind := rfl
  simp only [Column.scalar, hscalar] at hfits
  simp only [Column.scalar, hscalar, hcheck, hnull, hkind]
  cases hindex : c.shape.checkIndex i with
  | error fault => rfl
  | ok _ =>
    cases hmark : c.payload.isNull i with
    | error fault => rfl
    | ok null =>
      cases null with
      | true => rfl
      | false =>
        have helement := element_throughFloats (q := q) hcells hdata fun x hx => by
          rw [hindex, hmark, hx] at hfits
          exact hfits _ _ rfl (hmake x)
        rw [helement]

/-- **All cells of narrow integers** are as before. -/
theorem throughFloats_eq {cells : List Bytes} (hcells : ∀ cell ∈ cells, cell.length = p.bytes)
    (hdata : c.payload.elements = .fixed cells.flatten) (hnarrow : p.bits ≤ q.fractionBits + 2) :
    c.throughFloats p q cells = c := by
  have hsame : cells.map (Primitive.throughFloat p q) = cells := by
    refine (List.map_congr_left fun cell hcell => ?_).trans (List.map_id cells)
    refine Primitive.throughFloat_eq (hcells cell hcell) (Nat.le_trans (Primitive.natAbs_signed_le p cell) ?_)
    exact Nat.pow_le_pow_right (by decide) (by omega)
  rw [throughFloats, hsame, ← hdata]

end Column

/-! ## Every reachable session -/

namespace Session

variable {s : Session} {u v w : String} {c : Column} {p : Width}

/-- **Integers survive a trip through floats.** In every session that commands lead to, a cast of a
vector of integers or dates to floats and back, where there is room for both, yields a vector of the
same shape with the same validity bits, unless a device fails to bring some data. Every row reads as
before but for those that read as an integer past `2 ^ 53` of doubles, or past `2 ^ 24` of singles,
and so does every element, at null rows too; for widths that are narrow enough it is the same vector
altogether. There is room for the casts of vectors that memory holds. -/
theorem cast_through_floats (hs : s.Reachable .unlimited) (hc : s.shown? v = some c)
    (hp : c.kind.primitive? = some (.int p)) (q : Precision) (hu : s.vectors.find? u = none)
    (hw : s.vectors.find? w = none) (hne : u ≠ w) :
    ∃ e : Column,
      (Elements.reserved (.float q) c.rows ≤ maxSize → Elements.reserved c.kind c.rows ≤ maxSize →
        s.Yields [.make (.cast v (.float q)) u, .make (.cast u c.kind) w] w (.ok e)) ∧
      (c.InMemory →
        Elements.reserved (.float q) c.rows ≤ maxSize ∧ Elements.reserved c.kind c.rows ≤ maxSize) ∧
      e.shape = c.shape ∧ e.payload.validity = c.payload.validity ∧
      (∀ i, (∀ x n, c.scalar i = .ok x → x.toInt? = some n → n.natAbs ≤ 2 ^ (q.fractionBits + 1)) →
        e.scalar i = c.scalar i) ∧
      (∀ i, (∀ x : BitVec p.bits, c.payload.element (.int p) i = .ok x →
          x.toInt.natAbs ≤ 2 ^ (q.fractionBits + 1)) →
        e.payload.element (.int p) i = c.payload.element (.int p) i) ∧
      (p.bits ≤ q.fractionBits + 2 → e = c) := by
  obtain ⟨rows, hheld⟩ := ((hs.sound invariant_wellFormed).shown hc).holds
  obtain ⟨cells, hcells, hdata⟩ := hheld.exists_cells hp
  obtain ⟨d, hd, hkind, hrows, hback⟩ := Column.cast_float_cast hp q hcells hdata
  refine ⟨c.throughFloats p q cells, fun hfloats hints => ?_, fun hmemory => ?_, rfl, rfl,
    fun i => Column.scalar_throughFloats hp hcells hdata,
    fun i => Column.element_throughFloats hcells hdata, Column.throughFloats_eq hcells hdata⟩
  · have hthrough := yields_make_cast hs (Action.comesTo_cast hs hc (.inr hfloats)) hu hw
      hne (k := c.kind) fun d' hd' => .inr (Except.ok.inj (hd.symm.trans hd') ▸ hrows ▸ hints)
    rw [hd] at hthrough
    exact hback ▸ hthrough
  · exact ⟨hmemory.reserved_le hheld hp rfl, hmemory.reserved_le hheld hp hp⟩

set_option maxRecDepth 4000 in
/-- The words `2 ^ 53` and its opposite, and one that no double holds at a null row: all rows read as
before, though the element at the null row is another. -/
theorem cast_through_floats_words :
    let s := (Session.run { config := none } [
      .make (.ofParts (.int .w64) 3 [0, 0, 0, 0, 0, 0, 0x20, 0, 0, 0, 0, 0, 0, 0, 0xE0, 0xFF,
        1, 0, 0, 0, 0, 0, 0x20, 0] (some [0xFB])) "v"]).2
    let c : Column := ⟨.int .w64, 3, 1, ⟨.fixed [0, 0, 0, 0, 0, 0, 0x20, 0, 0, 0, 0, 0, 0, 0, 0xE0, 0xFF,
      1, 0, 0, 0, 0, 0, 0x20, 0], some ⟨0xFB :: List.replicate 63 0xFF⟩⟩⟩
    let script : List Command := [.make (.cast "v" (.float .double)) "u", .make (.cast "u" (.int .w64)) "w"]
    s.Reachable .unlimited ∧ s.shown? "v" = some c ∧ c.InMemory ∧
      ∃ e : Column, (s.run script).2.Displays "w" e ∧ e.shape = c.shape ∧ (∀ i < 3, e.scalar i = c.scalar i) ∧
        e ≠ c := by
  intro s c script
  have hs : s.Reachable .unlimited := by
    refine (Session.Reachable.start none).run ?_
    simp [Command.Within]
  have hc : s.shown? "v" = some c := by decide +kernel
  have hmemory : c.InMemory := by
    unfold Column.InMemory
    decide
  obtain ⟨e, hyields, hrooms, hshape, -, hscalar, -⟩ := cast_through_floats (u := "u") (w := "w") hs hc rfl
    .double (by decide +kernel) (by decide +kernel) (by decide)
  obtain ⟨hfloats, hints⟩ := hrooms hmemory
  have hdisplays := (hyields hfloats hints).displays rfl (undisturbed_of_all (by decide +kernel))
  refine ⟨hs, hc, hmemory, e, hdisplays, hshape, fun i hi => hscalar i fun x n hx hn => ?_, ?_⟩
  · obtain rfl | rfl | rfl : i = 0 ∨ i = 1 ∨ i = 2 := by omega
    all_goals
      cases hx
      cases hn
    all_goals decide
  · intro hsame
    have hother : (s.run script).2.shown? "w" ≠ some c := by decide +kernel
    exact hother (hsame ▸ hdisplays.shown)

end Session

end Columnar
