/-
Which rows of an operation are null.

Nulls have three sources: the rows of either operand, and divisions, which leave no whole quotient
and no remainder in an output of integers where the divisor is zero in it. Nothing else does. That an
operation has no result in words for a quotient in doubles, say, is of no consequence, as it never
comes to that (`Operation.apply_eq_none`).

So the null rows of a result are told from the rows of what the operands are cast to
(`nulls_of_operate`), and with them the null count, whether there are validity bits, and where the
data is zero.
-/
import Columnar.Proofs.Computing

namespace Columnar

open Primitive

/-! ## Null rows -/

/-- The operations that divide without leaving the integers. -/
def Operation.divisions : List Operation := [.div, .mod, .rdiv, .rmod]

/-- The operand that a division divides by. -/
def Operation.divisor {α : Type} (op : Operation) (left right : α) : α :=
  if op.unreversed?.isSome then left else right

/-- Whether a cell of a kind is the integer zero. -/
def Kind.isZero (k : Kind) (cell : Bytes) : Bool :=
  match k.primitive? with
  | some (.int w) => signed w cell == 0
  | _ => false

/-- Whether an operation makes a null row of two rows, which are of the kind of its output. -/
def Operation.nullifies (op : Operation) (out : Kind) (r r' : Row) : Bool :=
  r.null || r'.null || (divisions.contains op && out.isZero (op.divisor r.cell r'.cell))

/-- That the null rows of a column are those that an operation makes of the rows of two others, that
they are counted, and that their data is zero. It has validity bits if an operand had some
(`nullable`), or for its own null rows. -/
structure Column.Nulled (c : Column) (op : Operation) (nullable : Bool) (x y : Column) : Prop where
  flags : ∃ xs ys, x.Holds xs ∧ y.Holds ys ∧ c.nullFlags = List.zipWith (op.nullifies c.kind) xs ys
  nulls : c.nulls = c.nullFlags.count true
  bits : c.payload.validity.isSome = (nullable || c.nullFlags.contains true)
  zeros : ∃ zs, c.Holds zs ∧ ∀ z ∈ zs, z.null → z.cell = List.replicate c.kind.stride 0

/-! ## Results that there are not -/

namespace Operation

variable {op : Operation} {out : Kind} {form : Primitive}

theorem unbounded?_eq_none (hop : op ∈ integral) (x y : Int) :
    op.unbounded? x y = none ↔ op ∈ divisions ∧ op.divisor x y = 0 := by
  cases op with
  | add | sub | mul | rsub => exact iff_of_false nofun fun h => absurd h.1 (by decide)
  | div | mod | rdiv | rmod =>
    simp only [unbounded?, ite_eq_left_iff, reduceCtorEq, imp_false, Decidable.not_not]
    exact (and_iff_right (by decide)).symm
  | _ => exact absurd hop (by decide)

theorem divisions_subset : divisions ⊆ integral := by decide

/-- All other operations have results, whatever the form of the output. -/
theorem apply_ne_none (hop : op ∉ integral) (form : Primitive) (a b : Number) :
    op.apply form a b ≠ none := by
  cases op with
  | add | sub | mul | div | mod | rsub | rdiv | rmod => exact absurd (by decide) hop
  | _ => exact Option.some_ne_none _

/-- In floats there is a result whatever the divisor. -/
theorem apply_float_ne_none (op : Operation) (p : Precision) (a b : Number) :
    op.apply (.float p) a b ≠ none := by
  cases op <;> exact Option.some_ne_none _

/-- Only comparisons have an output of truth values. -/
theorem isComparison_of_bool (hout : op.requireOutput out = .ok ()) (hform : out.primitive? = some .bool) :
    op.isComparison := by
  refine Decidable.of_not_not fun hcomparison => ?_
  rw [requireOutput, if_neg hcomparison] at hout
  cases out with
  | bool => cases hout
  | _ => cases hform

/-- **There is no result** only where a division in integers has a divisor that is zero in the width
of the output. -/
theorem apply_eq_none (hout : op.requireOutput out = .ok ()) (hform : out.primitive? = some form)
    (a b : Number) : op.apply form a b = none ↔
      op ∈ divisions ∧ ∃ w, form = .int w ∧ (op.divisor a b).toInt.bmod (2 ^ w.bits) = 0 := by
  by_cases hop : op ∈ integral
  · -- Only here can there be none: then there is none on unbounded integers either.
    cases form with
    | int w =>
      have hdivisor : op.divisor (a.toInt.bmod (2 ^ w.bits)) (b.toInt.bmod (2 ^ w.bits)) =
          (op.divisor a b).toInt.bmod (2 ^ w.bits) := by
        unfold divisor
        split <;> rfl
      rw [← Option.map_eq_none_iff, apply_int hop, wrapped?, Option.map_eq_none_iff,
        unbounded?_eq_none hop, hdivisor]
      simp
    | float p => exact iff_of_false (apply_float_ne_none op p a b) (by simp)
    | bool =>
      have hcomparison := isComparison_of_bool hout hform
      cases op with
      | equal | notEqual | less | greater | lessEqual | greaterEqual => exact absurd hop (by decide)
      | _ => cases hcomparison
  · exact iff_of_false (apply_ne_none hop form a b) fun h => hop (divisions_subset h.1)

end Operation

/-! ## Rows -/

variable {k k' out : Kind} {f g form : Primitive} {op : Operation}

/-- A null result has zeros for a cell. -/
theorem Row.cell_ofResult_of_null {result : Option Number} (h : (ofResult form result).null) :
    (ofResult form result).cell = List.replicate form.width 0 := by
  cases result with
  | none => rfl
  | some n => cases h

/-- Zero in a cell of another form. -/
theorem Kind.isZero_recast (hf : k.primitive? = some f) (hform : out.primitive? = some form)
    (cell : Bytes) : out.isZero (k.recast out cell) ↔
      ∃ w, form = .int w ∧ (Number.read f cell).toInt.bmod (2 ^ w.bits) = 0 := by
  rw [isZero, hform]
  cases form with
  | int w => simp [signed_recast hf hform]
  | _ => simp

/-- **A row of results is null** as the rows tell that its operands' rows are cast to. -/
theorem Row.null_operate (hout : op.requireOutput out = .ok ()) (hf : k.primitive? = some f)
    (hg : k'.primitive? = some g) (hform : out.primitive? = some form) (r r' : Row) :
    (operate op form f g r r').null = op.nullifies out (r.recast k out) (r'.recast k' out) := by
  have hzero : out.isZero (op.divisor (k.recast out r.cell) (k'.recast out r'.cell)) ↔
      ∃ w, form = .int w ∧
        (op.divisor (Number.read f r.cell) (Number.read g r'.cell)).toInt.bmod (2 ^ w.bits) = 0 := by
    unfold Operation.divisor
    split
    · exact Kind.isZero_recast hf hform _
    · exact Kind.isZero_recast hg hform _
  rw [operate, null_ofResult, Operation.nullifies, number, number, recast, recast]
  cases r.null with
  | true => rfl
  | false =>
    cases r'.null with
    | true => rfl
    | false =>
      have hnone := Operation.apply_eq_none hout hform (Number.read f r.cell) (Number.read g r'.cell)
      rw [← hzero] at hnone
      rw [Bool.eq_iff_iff]
      simpa using hnone

/-! ## Columns -/

namespace Column

variable {a b c x y : Column}

/-- Casts take validity bits over. -/
theorem nullFlags_cast (h : a.cast out = .ok x) : x.nullFlags = a.nullFlags := by
  obtain ⟨e, rfl, -⟩ := cast_eq_ok h
  rfl

/-- **The null rows of an operation** on columns of numbers. -/
theorem nulled_of_operate (ha : a.WellFormed) (hb : b.WellFormed) (hrows : a.rows = b.rows)
    (hf : a.kind.primitive? = some f) (hg : b.kind.primitive? = some g) (hform : out.primitive? = some form)
    (hout : op.requireOutput out = .ok ()) (hchecks : op.requireColumns out a.shape b.shape = .ok ())
    (hroom : Elements.reserved out a.rows ≤ maxSize) (hx : a.cast out = .ok x) (hy : b.cast out = .ok y) :
    ∃ c, operate op out a b = .ok c ∧ c.kind = out ∧ c.rows = a.rows ∧
      c.Nulled op (a.payload.validity.isSome || b.payload.validity.isSome) x y := by
  obtain ⟨as, bs, c, hxs, hys, hc, hcount, hpacked⟩ :=
    operate_cast ha hb hrows hf hg hform hchecks hroom hx hy
  refine ⟨c, hc, hpacked.kind, hcount, ⟨_, _, hxs, hys, ?_⟩, ?_, ?_, _, hpacked.toHolds,
    fun z hz hnull => ?_⟩
  · rw [hpacked.flags, hpacked.kind, List.map_zipWith, List.zipWith_map]
    congr 1
    funext r r'
    exact Row.null_operate hout hf hg hform r r'
  · rw [hpacked.nulls, hpacked.flags]
  · rw [hpacked.bits, hpacked.flags, List.contains_eq_any_beq, List.any_map]
    congr 2
    funext r
    exact (Bool.true_beq r.null).symm
  · obtain ⟨r, r', rfl⟩ : ∃ r r', Row.operate op form f g r r' = z := by
      obtain ⟨i, hi, rfl⟩ := List.mem_iff_getElem.mp hz
      exact ⟨_, _, List.getElem_zipWith.symm⟩
    rw [hpacked.kind, Kind.stride_eq hform]
    exact Row.cell_ofResult_of_null hnull

end Column

/-! ## Every reachable session -/

open Columnar.Action Session

namespace Action

variable {s s' : Session} {l r : String} {id : Nat} {a b : Column}

/-- An operation on vectors that answers has made the results of their columns. -/
theorem exec_operate_eq_ok {C : Column → Prop} {B : Builder → Prop} (hs : s.Sound C B)
    (ha : s.shown? l = some a) (hb : s.shown? r = some b)
    (hchecks : op.requireColumns out a.shape b.shape = .ok ())
    (h : (operate op out l r).exec s = (.ok id, s')) :
    ∃ c, Column.operate op out a b = .ok c ∧
      s'.storages.find? id = some ⟨c.shape, .host c.payload, 1⟩ := by
  rcases hr : (materialize r).exec s with ⟨stop | p, s₁⟩
  · rw [exec_operate_of_error hs.coherent ha hb hchecks hr] at h
    cases h
  rcases hl : (materialize l).exec s₁ with ⟨stop | q, s₂⟩
  · rw [exec_operate_of_error_left hs.coherent ha hb hchecks hr hl] at h
    cases h
  obtain ⟨hmade, hfault⟩ := exec_operate hs ha hb hchecks hr hl
  cases hc : Column.operate op out a b with
  | error fault =>
    have hstop := hfault fault hc
    rw [h] at hstop
    cases hstop
  | ok c =>
    obtain ⟨id', s'', hexec, hst⟩ := hmade c hc
    obtain ⟨hid, rfl⟩ := Prod.mk.inj (h.symm.trans hexec)
    obtain rfl : id = id' := Except.ok.inj hid
    exact ⟨c, rfl, hst⟩

end Action

/-- **The null rows of an operation.** In every session that commands lead to, whatever an operation
answers on two vectors of numbers or dates with as many rows is a new vector on the host with as many
rows again. Its null rows are those where an operand is null, and for divisions in integers also those
where the divisor is zero in the kind of the output; they are counted, their data is zero, and there
are validity bits just if an operand has some or there is such a row. It does answer where the vectors
are in memory, unless a device fails to bring their data. -/
theorem nulls_of_operate {s : Session} (hs : s.Reachable .unlimited) {l r : String} {a b : Column}
    (ha : s.shown? l = some a) (hb : s.shown? r = some b) (hk : a.kind.isNumeric ∨ a.kind.isTemporal)
    (hk' : b.kind.isNumeric ∨ b.kind.isTemporal) (hrows : a.rows = b.rows)
    (hout : op.requireOutput out = .ok ()) :
    ∃ x y, a.cast out = .ok x ∧ b.cast out = .ok y ∧ x.nullFlags = a.nullFlags ∧
      y.nullFlags = b.nullFlags ∧
      (∀ id s', (operate op out l r).exec s = (.ok id, s') →
        ∃ c : Column, s'.storages.find? id = some ⟨c.shape, .host c.payload, 1⟩ ∧ c.kind = out ∧
          c.rows = a.rows ∧
          c.Nulled op (a.payload.validity.isSome || b.payload.validity.isSome) x y) ∧
      (a.InMemory →
        (∃ id s', (operate op out l r).exec s = (.ok id, s')) ∨
          ∃ e s', (operate op out l r).exec s = (.error (.fault (.refused (.device e))), s')) := by
  have hsound := hs.sound invariant_wellFormed
  have ha_well := hsound.shown ha
  have hb_well := hsound.shown hb
  obtain ⟨f, hf⟩ := Kind.primitive_of_arithmetic hk
  obtain ⟨g, hg⟩ := Kind.primitive_of_arithmetic hk'
  obtain ⟨form, hform⟩ := Operation.primitive_of_requireOutput hout
  obtain ⟨rule, hrule⟩ := Kind.castRule?_of_forms hf hform
  obtain ⟨rule', hrule'⟩ := Kind.castRule?_of_forms hg hform
  obtain ⟨x, hx⟩ := Column.cast_ok ha_well.counted.suits hrule
  obtain ⟨y, hy⟩ := Column.cast_ok hb_well.counted.suits hrule'
  have hchecks : op.requireColumns out a.shape b.shape = .ok () :=
    Operation.requireColumns_ok hk hk' hout hrows
  refine ⟨x, y, hx, hy, Column.nullFlags_cast hx, Column.nullFlags_cast hy, fun id s' hexec => ?_,
    fun hmemory => ?_⟩
  · obtain ⟨c, hc, hst⟩ := exec_operate_eq_ok hsound ha hb hchecks hexec
    obtain ⟨c', hc', hkind, hcount, hnulled⟩ := Column.nulled_of_operate ha_well hb_well hrows hf hg hform
      hout hchecks (Column.rows_operate hc).2 hx hy
    obtain rfl : c' = c := Except.ok.inj (hc'.symm.trans hc)
    exact ⟨c', hst, hkind, hcount, hnulled⟩
  · obtain ⟨rows, hheld⟩ := ha_well.holds
    obtain ⟨c, hc, -⟩ := Column.nulled_of_operate ha_well hb_well hrows hf hg hform hout hchecks
      (hmemory.reserved_le hheld hf hform) hx hy
    rcases gives_operate hsound ha hb hchecks hc with ⟨id, s', hexec, -⟩ | hfailed
    · exact .inl ⟨id, s', hexec⟩
    · exact .inr hfailed

set_option maxRecDepth 4000 in
/-- Remainders in eight bits: by 256, which is zero there, by a null, and by two. -/
theorem nulls_of_remainders :
    let s := (Session.run { config := none } [
      .make (.ofParts (.int .w8) 3 [7, 7, 7] none) "l",
      .make (.ofParts (.int .w16) 3 [0, 1, 5, 0, 2, 0] (some [0xFD])) "r"]).2
    s.Reachable .unlimited ∧ ∃ a b x y, s.shown? "l" = some a ∧ s.shown? "r" = some b ∧
      a.cast (.int .w8) = .ok x ∧ b.cast (.int .w8) = .ok y ∧
      ∃ (id : Nat) (s' : Session) (c : Column), (operate .mod (.int .w8) "l" "r").exec s = (.ok id, s') ∧
        s'.storages.find? id = some ⟨c.shape, .host c.payload, 1⟩ ∧ c.Nulled .mod true x y ∧
        c.nulls = 2 ∧ c.nullFlags = [true, true, false] ∧ c.payload.elements = .fixed [0, 0, 1] := by
  intro s
  have hs : s.Reachable .unlimited := by
    refine (Session.Reachable.start none).run ?_
    simp [Command.Within]
  have hl : s.shown? "l" = some ⟨.int .w8, 3, 0, ⟨.fixed [7, 7, 7], none⟩⟩ := rfl
  have hr : s.shown? "r" = some ⟨.int .w16, 3, 1, ⟨.fixed [0, 1, 5, 0, 2, 0],
      some ⟨0xFD :: List.replicate 63 0xFF⟩⟩⟩ := rfl
  have hout : Operation.mod.requireOutput (.int .w8) = .ok () := rfl
  obtain ⟨x, y, hx, hy, -, -, hanswer, -⟩ := nulls_of_operate hs hl hr (.inl rfl) (.inl rfl) rfl hout
  have hid : ((operate .mod (.int .w8) "l" "r").exec s).1 = .ok 3 := rfl
  have hmade : ((operate .mod (.int .w8) "l" "r").exec s).2.storages.find? 3 = some ⟨⟨.int .w8, 3, 2, true⟩,
      .host ⟨.fixed [0, 0, 1], some ⟨0xFC :: List.replicate 63 0xFF⟩⟩, 1⟩ := rfl
  rcases hexec : (operate .mod (.int .w8) "l" "r").exec s with ⟨result, s'⟩
  rw [hexec] at hid hmade
  obtain rfl : result = .ok 3 := hid
  obtain ⟨c, hst, -, -, hnulled⟩ := hanswer 3 s' hexec
  obtain ⟨hshape, hplace, -⟩ := Storage.mk.inj (Option.some.inj (hst.symm.trans hmade))
  obtain ⟨kind, rows, nulls, payload⟩ := c
  obtain ⟨rfl, rfl, rfl, -⟩ := Shape.mk.inj hshape
  obtain rfl := Place.host.inj hplace
  exact ⟨hs, _, _, x, y, hl, hr, hx, hy, 3, s', _, rfl, hst, hnulled, rfl, rfl, rfl⟩

end Columnar
