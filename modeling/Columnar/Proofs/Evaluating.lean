/-
Operations on columns, row by row.

An operation takes two columns apart into numbers, computes at every row, and puts the
results together again. `Row.operate` is what it makes of one row on either side. The column
that it makes has just these rows, and nothing else of the operands matters but whether they
have validity bits (`Column.operate_rows`). Where storage for the results cannot be set aside, it
goes out of bounds (`Column.operate_outOfBounds`).

In a session both operands are brought to the host first, the right one before the left
(`Action.exec_operate`).
-/
import Columnar.Proofs.Leading
import Columnar.Proofs.Packing

namespace Columnar

/-! ## Rows -/

/-- The number that a row of a form stands for; a null row stands for none. -/
def Row.number (f : Primitive) (r : Row) : Option Number :=
  if r.null then none else some (Number.read f r.cell)

/-- A result as a row; without a result it is null, with zeros for a cell. -/
def Row.ofResult (form : Primitive) : Option Number → Row
  | some n => ⟨false, Number.write form n⟩
  | none => ⟨true, List.replicate form.width 0⟩

/-- What an operation makes of two rows. -/
def Row.operate (op : Operation) (form f g : Primitive) (r r' : Row) : Row :=
  .ofResult form do op.apply form (← r.number f) (← r'.number g)

@[simp] theorem Row.null_ofResult (form : Primitive) (result : Option Number) :
    (Row.ofResult form result).null = result.isNone := by
  cases result <;> rfl

theorem Row.length_cell_ofResult (form : Primitive) (result : Option Number) :
    (Row.ofResult form result).cell.length = form.width := by
  cases result with
  | none => exact List.length_replicate
  | some n => exact form.length_encode _

/-! ## Checks -/

/-- Numbers and dates have a fixed width. -/
theorem Kind.primitive_of_arithmetic {k : Kind} (h : k.isNumeric ∨ k.isTemporal) :
    ∃ f, k.primitive? = some f := by
  cases k with
  | string => exact absurd h (by decide)
  | _ => exact ⟨_, rfl⟩

namespace Operation

variable {op : Operation} {out : Kind}

theorem requireArithmetic_eq_ok {k : Kind} :
    requireArithmetic k = .ok () ↔ k.isNumeric ∨ k.isTemporal := by
  rw [requireArithmetic, Outcome.check_eq_ok, Bool.or_eq_true]

theorem requireArithmetic_ok {k : Kind} (h : k.isNumeric ∨ k.isTemporal) : requireArithmetic k = .ok () :=
  requireArithmetic_eq_ok.mpr h

/-- Every kind that an operation accepts for its output has a fixed width. -/
theorem primitive_of_requireOutput (h : op.requireOutput out = .ok ()) :
    ∃ form, out.primitive? = some form := by
  cases out with
  | string =>
    rw [requireOutput] at h
    split at h <;> cases h
  | _ => exact ⟨_, rfl⟩

/-- What is asked of two columns, in whatever order. -/
theorem requireColumns_eq_ok {a b : Column} : op.requireColumns out a.shape b.shape = .ok () ↔
    (a.kind.isNumeric ∨ a.kind.isTemporal) ∧ (b.kind.isNumeric ∨ b.kind.isTemporal) ∧
      op.requireOutput out = .ok () ∧ a.rows = b.rows := by
  simp only [requireColumns, Outcome.seq_eq_ok, Column.shape, requireArithmetic_eq_ok]
  by_cases hrows : a.rows = b.rows
  · simp [hrows, pure, Except.pure]
  · simp [hrows, refuse]

theorem requireColumns_ok {a b : Column} (ha : a.kind.isNumeric ∨ a.kind.isTemporal)
    (hb : b.kind.isNumeric ∨ b.kind.isTemporal) (hout : op.requireOutput out = .ok ())
    (hrows : a.rows = b.rows) : op.requireColumns out a.shape b.shape = .ok () :=
  requireColumns_eq_ok.mpr ⟨ha, hb, hout, hrows⟩

end Operation

/-! ## Operands -/

namespace Operand

variable {c : Column} {rows : List Row} {f : Primitive}

/-- **An operand** is the numbers of its rows. -/
theorem ofPayload_of_holds (h : c.Holds rows) (hf : c.kind.primitive? = some f) :
    ofPayload c.kind c.rows c.payload =
      .ok ⟨rows.map (Row.number f), c.payload.validity.isSome⟩ := by
  have hcells : ∀ cell ∈ rows.map Row.cell, cell.length = f.width := fun cell hcell =>
    (Kind.isCell_iff hf cell).mp (h.isCell cell hcell)
  have helements := h.elements.trans (Elements.lay_of_fixed hf _)
  have hlength : ¬ (rows.map Row.cell).flatten.length < c.rows * f.width := by
    rw [Elements.length_flatten_of_uniform hcells, List.length_map, h.length]
    exact Nat.lt_irrefl _
  have hpieces : Elements.pieces f.width c.rows (rows.map Row.cell).flatten = rows.map Row.cell := by
    have hall := Elements.pieces_flatten hcells
    rwa [List.length_map, h.length] at hall
  simp only [ofPayload, helements, hf, if_neg hlength, hpieces]
  congr 2
  refine List.ext_getElem (by simp) fun i hi _ => ?_
  have hi : i < rows.length := by simpa using hi
  have hnull : (c.payload.validity.any fun b => !b.isSet i) = rows[i].null := by
    have hflag : c.nullFlags[i]? = some rows[i].null := by simp [h.flags, hi]
    simpa [Column.nullFlags, Bitmap.nullFlags, ← h.length, hi] using hflag
  have hvalid : c.payload.validity.all (·.isSet i) = !rows[i].null := by
    rw [← hnull]
    cases c.payload.validity <;> simp
  simp only [List.getElem_mapIdx, List.getElem_map, hvalid, Row.number]
  cases rows[i].null <;> rfl

/-- An operand has a value for every row. -/
theorem length_values {k : Kind} {n : Nat} {p : Payload} {o : Operand}
    (h : ofPayload k n p = .ok o) : o.values.length = n := by
  unfold ofPayload at h
  split at h
  next bytes f hbytes hf =>
    split at h
    next => cases h
    next =>
      cases h
      simp [Elements.length_pieces]
  next => cases h

end Operand

/-! ## Results -/

namespace Operation

variable {out : Kind} {form : Primitive}

/-- The bytes of results are those of their rows. -/
theorem resultBytes_eq (form : Primitive) (results : List (Option Number)) :
    resultBytes form results = ((results.map (Row.ofResult form)).map Row.cell).flatten := by
  rw [resultBytes, List.flatMap_def, List.map_map]
  congr 2
  funext result
  cases result <;> rfl

theorem map_null_ofResult (form : Primitive) (results : List (Option Number)) :
    (results.map (Row.ofResult form)).map Row.null = results.map Option.isNone := by
  rw [List.map_map]
  exact List.map_congr_left fun result _ => Row.null_ofResult form result

theorem any_null_ofResult (form : Primitive) (results : List (Option Number)) :
    (results.map (Row.ofResult form)).any Row.null = results.any Option.isNone := by
  rw [List.any_map]
  congr 1
  funext result
  exact Row.null_ofResult form result

/-- A column of results has validity bits if an operand has, or if there is a null among them. -/
theorem validity_resultColumn (out : Kind) (form : Primitive) (nullable : Bool)
    (results : List (Option Number)) :
    (resultColumn out form nullable results).payload.validity =
      if nullable || results.any Option.isNone then some (resultValidity results) else none := by
  have hany : (results.countP Option.isNone != 0) = results.any Option.isNone := by
    rw [Bool.eq_iff_iff, bne_iff_ne, ← Nat.pos_iff_ne_zero, List.countP_pos_iff, List.any_eq_true]
  rw [← hany]
  rfl

theorem eq_resultValidity {nullable : Bool} {results : List (Option Number)} {b : Bitmap}
    (hb : (resultColumn out form nullable results).payload.validity = some b) :
    b = resultValidity results := by
  rw [validity_resultColumn] at hb
  split at hb
  next => exact (Option.some.inj hb).symm
  next => cases hb

/-- **A column of results** holds them. -/
theorem holds_resultColumn (hform : out.primitive? = some form) (nullable : Bool)
    (results : List (Option Number)) :
    (resultColumn out form nullable results).Holds (results.map (Row.ofResult form)) where
  flags := by
    rw [Column.nullFlags, validity_resultColumn, map_null_ofResult]
    split
    next => exact nullFlags_resultValidity results
    next hnone =>
      simp only [Bool.or_eq_true, not_or, Bool.not_eq_true, List.any_eq_false] at hnone
      rw [Bitmap.nullFlags_none]
      exact (List.map_eq_replicate_iff.mpr hnone.2).symm
  elements :=
    (congrArg Elements.fixed (resultBytes_eq form results)).trans (Elements.lay_of_fixed hform _).symm
  isRow r hr := by
    obtain ⟨result, -, rfl⟩ := List.mem_map.mp hr
    refine ⟨(Kind.isCell_iff hform _).mpr (Row.length_cell_ofResult form result), ?_⟩
    rintro rfl
    cases hform
  fits := Elements.fits_of_fixed hform _
  covered b hb := eq_resultValidity hb ▸ le_capacity_resultValidity results

/-- **Columns of results are packed.** -/
theorem packed_resultColumn (hform : out.primitive? = some form) (nullable : Bool)
    (results : List (Option Number)) :
    (resultColumn out form nullable results).Packed out (results.map (Row.ofResult form))
      (nullable || results.any Option.isNone) where
  toHolds := holds_resultColumn hform nullable results
  kind := rfl
  nulls := by
    rw [map_null_ofResult, List.count, List.countP_map]
    exact List.countP_congr fun result _ => by simp
  bits := by
    rw [validity_resultColumn]
    cases nullable || results.any Option.isNone <;> rfl
  allotted b hb := eq_resultValidity hb ▸ length_resultValidity results
  padded b hb := eq_resultValidity hb ▸ freshFrom_resultValidity results

end Operation

namespace Column

variable {a b c : Column} {as bs : List Row} {f g form : Primitive} {op : Operation} {out : Kind}

theorem operate_eq_ok : operate op out a b = .ok c ↔ op.requireColumns out a.shape b.shape = .ok () ∧
    ∃ l r, Operand.ofPayload a.kind a.rows a.payload = .ok l ∧
      Operand.ofPayload b.kind b.rows b.payload = .ok r ∧ op.evaluate out l r = .ok c := by
  rw [operate, Outcome.seq_eq_ok]
  simp only [Outcome.bind_eq_ok]
  refine and_congr_right fun _ => ⟨?_, ?_⟩
  · rintro ⟨r, hr, l, hl, hc⟩
    exact ⟨l, r, hl, hr, hc⟩
  · rintro ⟨l, r, hl, hr, hc⟩
    exact ⟨r, hr, l, hl, hc⟩

/-- What an operation answers has as many rows as the left operand, and storage was set aside for
all of them. -/
theorem rows_operate (h : operate op out a b = .ok c) :
    c.rows = a.rows ∧ Elements.reserved out a.rows ≤ maxSize := by
  obtain ⟨hchecks, l, r, hl, hr, hc⟩ := operate_eq_ok.mp h
  obtain ⟨-, -, -, hrows⟩ := Operation.requireColumns_eq_ok.mp hchecks
  have hlength := Operand.length_values hl
  unfold Operation.evaluate at hc
  split at hc
  next => cases hc
  next form hform =>
    obtain ⟨hstorage, hc⟩ := Outcome.seq_eq_ok.mp hc
    cases hc
    refine ⟨?_, hlength ▸ Elements.requireStorage_eq_ok.mp hstorage⟩
    show (op.results form l r).length = a.rows
    rw [Operation.results, List.length_zipWith, hlength, Operand.length_values hr, ← hrows, Nat.min_self]

/-- **Operations are row by row.** -/
theorem operate_rows (ha : a.Holds as) (hb : b.Holds bs) (hf : a.kind.primitive? = some f)
    (hg : b.kind.primitive? = some g) (hform : out.primitive? = some form)
    (hchecks : op.requireColumns out a.shape b.shape = .ok ())
    (hroom : Elements.reserved out a.rows ≤ maxSize) :
    ∃ c, operate op out a b = .ok c ∧
      c.Packed out (List.zipWith (Row.operate op form f g) as bs)
        ((a.payload.validity.isSome || b.payload.validity.isSome) ||
          (List.zipWith (Row.operate op form f g) as bs).any Row.null) := by
  obtain ⟨results, hresults⟩ : ∃ results, op.results form
      ⟨as.map (Row.number f), a.payload.validity.isSome⟩
      ⟨bs.map (Row.number g), b.payload.validity.isSome⟩ = results := ⟨_, rfl⟩
  have hrows : List.zipWith (Row.operate op form f g) as bs = results.map (Row.ofResult form) := by
    rw [← hresults, Operation.results, List.zipWith_map, List.map_zipWith]
    rfl
  have hstorage : Elements.requireStorage out (as.map (Row.number f)).length = .ok () := by
    rw [Elements.requireStorage, List.length_map, ha.length, if_pos hroom]
  refine ⟨Operation.resultColumn out form
    (a.payload.validity.isSome || b.payload.validity.isSome) results, ?_, ?_⟩
  · simp only [operate, hchecks, Operand.ofPayload_of_holds ha hf, Operand.ofPayload_of_holds hb hg,
      Operation.evaluate, hform, hstorage, hresults, bind, Except.bind, pure, Except.pure]
  · rw [hrows, Operation.any_null_ofResult]
    exact Operation.packed_resultColumn hform _ results

/-- **An operation goes out of bounds** where there is no room for its results. -/
theorem operate_outOfBounds (ha : a.Holds as) (hb : b.Holds bs) (hf : a.kind.primitive? = some f)
    (hg : b.kind.primitive? = some g) (hform : out.primitive? = some form)
    (hchecks : op.requireColumns out a.shape b.shape = .ok ())
    (h : maxSize < Elements.reserved out a.rows) : operate op out a b = .error .outOfBounds := by
  have hstorage : Elements.requireStorage out (as.map (Row.number f)).length = .error .outOfBounds := by
    rw [Elements.requireStorage, List.length_map, ha.length, if_neg (Nat.not_le_of_lt h)]
  simp only [operate, hchecks, Operand.ofPayload_of_holds ha hf, Operand.ofPayload_of_holds hb hg,
    Operation.evaluate, hform, hstorage, bind, Except.bind]

end Column

/-! ## Sessions -/

namespace Action

open Session

variable {s s₁ s₂ : Session} {l r : String} {a b c : Column} {op : Operation} {out : Kind}

/-- An operation stops where the right operand is not brought. -/
theorem exec_operate_of_error (hs : s.Coherent) (ha : s.shown? l = some a) (hb : s.shown? r = some b)
    (hchecks : op.requireColumns out a.shape b.shape = .ok ()) {stop : Stop}
    (hr : (materialize r).exec s = (.error stop, s₁)) :
    (operate op out l r).exec s = (.error stop, s₁) := by
  simp only [operate, exec_bind, exec_shape hs ha, exec_shape hs hb, exec_act, hchecks, hr]

/-- An operation stops where the left operand is not brought after the right one. -/
theorem exec_operate_of_error_left (hs : s.Coherent) (ha : s.shown? l = some a)
    (hb : s.shown? r = some b) (hchecks : op.requireColumns out a.shape b.shape = .ok ()) {p : Payload}
    (hr : (materialize r).exec s = (.ok p, s₁)) {stop : Stop}
    (hl : (materialize l).exec s₁ = (.error stop, s₂)) :
    (operate op out l r).exec s = (.error stop, s₂) := by
  simp only [operate, exec_bind, exec_shape hs ha, exec_shape hs hb, exec_act, hchecks, hr, hl]

/-- **An operation on vectors** is that on their columns, once the data of both is brought. -/
theorem exec_operate {C : Column → Prop} {B : Builder → Prop} (hs : s.Sound C B)
    (ha : s.shown? l = some a) (hb : s.shown? r = some b)
    (hchecks : op.requireColumns out a.shape b.shape = .ok ()) {p q : Payload}
    (hr : (materialize r).exec s = (.ok p, s₁)) (hl : (materialize l).exec s₁ = (.ok q, s₂)) :
    (∀ c, Column.operate op out a b = .ok c → ∃ id s', (operate op out l r).exec s = (.ok id, s') ∧
      s'.storages.find? id = some ⟨c.shape, .host c.payload, 1⟩) ∧
    ∀ fault, Column.operate op out a b = .error fault →
      ((operate op out l r).exec s).1 = .error (.fault fault) := by
  obtain ⟨hs₁, hlater, -⟩ := safe_materialize hs r
  rw [hr] at hs₁ hlater
  obtain rfl := payload_of_materialize hs.coherent hb (by rw [hr])
  obtain rfl := payload_of_materialize hs₁.coherent (hlater.shown? ha) (by rw [hl])
  have hcolumns : Column.operate op out (a.shape.column a.payload) (b.shape.column b.payload) =
      Column.operate op out a b := rfl
  refine ⟨fun c hc => ?_, fun fault hfault => ?_⟩
  · simp only [operate, exec_bind, exec_shape hs.coherent ha, exec_shape hs.coherent hb, exec_act, hchecks,
      hr, hl, exec_modify, hcolumns, hc]
    exact ⟨_, _, rfl, Table.find?_insert_self _ _ _⟩
  · simp only [operate, exec_bind, exec_shape hs.coherent ha, exec_shape hs.coherent hb, exec_act, hchecks,
      hr, hl, exec_modify, hcolumns, hfault]

/-- **An operation can be carried out** on vectors if it can on their columns. -/
theorem gives_operate {C : Column → Prop} {B : Builder → Prop} (hs : s.Sound C B)
    (ha : s.shown? l = some a) (hb : s.shown? r = some b)
    (hchecks : op.requireColumns out a.shape b.shape = .ok ())
    (hc : Column.operate op out a b = .ok c) : (Making.operate op out l r).Gives c s := by
  obtain ⟨-, hlater, -⟩ := safe_materialize hs r
  rcases hr : (materialize r).exec s with ⟨stop | p, s₁⟩
  · obtain ⟨e, rfl⟩ := error_of_materialize hb (by rw [hr])
    exact .inr ⟨e, s₁, exec_operate_of_error hs.coherent ha hb hchecks hr⟩
  rw [hr] at hlater
  rcases hl : (materialize l).exec s₁ with ⟨stop | q, s₂⟩
  · obtain ⟨e, rfl⟩ := error_of_materialize (hlater.shown? ha) (by rw [hl])
    exact .inr ⟨e, s₂, exec_operate_of_error_left hs.coherent ha hb hchecks hr hl⟩
  · exact .inl ((exec_operate hs ha hb hchecks hr hl).1 c hc)

end Action

end Columnar
