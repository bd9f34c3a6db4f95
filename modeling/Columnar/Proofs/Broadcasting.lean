/-
Operations with a scalar are operations with a column of it.

A column broadcasts a scalar if all its rows read as it (`Column.Broadcasts`). An operation takes a
scalar for a number by what it is, and the rows of a column by what their bytes are in the kind of
the column; both come to the same number (`Row.ofScalar?_scalar`). So one and the same operand is
made of the scalar and of the column (`Operand.ofPayload_of_broadcasts`), and though the checks come
in another order, the results are the same (`Column.operateScalar_eq_ok_iff`).
-/
import Columnar.Proofs.Yielding

namespace Columnar

/-- That all rows of a column read as a scalar. It is of the kind of the scalar and has no validity
bits; where the scalar is null, it is of any kind of numbers, and has them. -/
structure Column.Broadcasts (c : Column) (x : Scalar) : Prop where
  rows : ∃ held, c.Holds held ∧ ∀ r ∈ held, r.scalar c.kind = x
  kind : ∀ k, x.kind? = some k → c.kind = k
  numeric : x.kind? = none → c.kind.isNumeric ∨ c.kind.isTemporal
  bits : c.payload.validity.isSome = x.isNull

/-- What a well-formed column answers to every row shows that it broadcasts a scalar. -/
theorem Column.Broadcasts.of_scalars {c : Column} {x : Scalar} (h : c.WellFormed)
    (hscalars : c.scalars = List.replicate c.rows (.ok x)) (hkind : ∀ k, x.kind? = some k → c.kind = k)
    (hnumeric : x.kind? = none → c.kind.isNumeric ∨ c.kind.isTemporal)
    (hbits : c.payload.validity.isSome = x.isNull) : c.Broadcasts x := by
  obtain ⟨held, hheld⟩ := h.holds
  rw [hheld.scalars, ← hheld.length, List.map_eq_replicate_iff] at hscalars
  exact ⟨⟨held, hheld, fun r hr => Except.ok.inj (hscalars r hr)⟩, hkind, hnumeric, hbits⟩

/-- One element of a fixed width at every row, without validity bits. -/
def Column.constant (k : Kind) (f : Primitive) (v : f.Carrier) (n : Nat) : Column :=
  ⟨k, n, 0, ⟨.fixed (List.replicate n (f.encode v)).flatten, none⟩⟩

theorem Column.holds_constant {k : Kind} {f : Primitive} (hf : k.primitive? = some f) (v : f.Carrier)
    (n : Nat) : (constant k f v n).Holds (List.replicate n ((Entry.element f v).row k)) where
  flags := by
    rw [List.map_replicate]
    exact Bitmap.nullFlags_none n
  elements := by
    rw [List.map_replicate]
    exact (Elements.lay_of_fixed hf _).symm
  isRow r hr := List.eq_of_mem_replicate hr ▸ Entry.isRow_row hf
  fits := Elements.fits_of_fixed hf _
  covered b hb := by cases hb

theorem Column.broadcasts_constant {k : Kind} {f : Primitive} (hf : k.primitive? = some f) (v : f.Carrier)
    (hk : (k.scalarOf f v).kind? = some k) (hnull : (k.scalarOf f v).isNull = false) (n : Nat) :
    (constant k f v n).Broadcasts (k.scalarOf f v) where
  rows := ⟨_, holds_constant hf v n, fun r hr => List.eq_of_mem_replicate hr ▸ Entry.scalar_row hf⟩
  kind _ h := Option.some.inj (hk.symm.trans h)
  numeric h := by simp [hk] at h
  bits := hnull.symm

/-- **There is a column of every scalar** but text, with as many rows as there are to be. -/
theorem Column.exists_broadcasts {x : Scalar} (hx : x.kind? ≠ some .string) (n : Nat) :
    ∃ c : Column, c.rows = n ∧ c.Broadcasts x := by
  cases x with
  | null =>
    refine ⟨Operation.resultColumn (.int .w8) (.int .w8) true (List.replicate n none),
      List.length_replicate, ?_⟩
    refine ⟨⟨_, Operation.holds_resultColumn rfl _ _, fun r hr => ?_⟩, ?_, fun _ => .inl rfl, rfl⟩
    · rw [List.map_replicate] at hr
      exact List.eq_of_mem_replicate hr ▸ rfl
    · rintro k ⟨⟩
  | int w v => exact ⟨_, rfl, broadcasts_constant (k := .int w) (f := .int w) rfl v rfl rfl n⟩
  | float p v => exact ⟨_, rfl, broadcasts_constant (k := .float p) (f := .float p) rfl v rfl rfl n⟩
  | bool b => exact ⟨_, rfl, broadcasts_constant (k := .bool) (f := .bool) rfl b rfl rfl n⟩
  | date d => exact ⟨_, rfl, broadcasts_constant (k := .date) (f := .int .w32) rfl d rfl rfl n⟩
  | string => exact absurd rfl hx

/-! ## Operands -/

/-- **The number of a row** is that of the scalar that it reads as. -/
theorem Row.ofScalar?_scalar {k : Kind} {f : Primitive} (hf : k.primitive? = some f) (r : Row) :
    Number.ofScalar? (r.scalar k) = r.number f := by
  rw [scalar, number]
  cases r.null with
  | true => rfl
  | false => cases k <;> cases hf <;> rfl

/-- All scalars but null and text stand for a number. -/
theorem Number.isNone_ofScalar? {x : Scalar} (h : x.kind? ≠ some .string) :
    (Number.ofScalar? x).isNone = x.isNull := by
  cases x with
  | string => exact absurd rfl h
  | _ => rfl

namespace Operand

/-- **The operand of a column** that broadcasts a scalar is that of the scalar. -/
theorem ofPayload_of_broadcasts {c : Column} {x : Scalar} (h : c.Broadcasts x)
    (hk : c.kind.isNumeric ∨ c.kind.isTemporal) :
    ofPayload c.kind c.rows c.payload = .ok (ofScalar c.rows x) := by
  obtain ⟨held, hheld, hscalar⟩ := h.rows
  obtain ⟨f, hf⟩ := Kind.primitive_of_arithmetic hk
  have hvalues : held.map (Row.number f) = List.replicate c.rows (Number.ofScalar? x) := by
    rw [← hheld.length, List.map_eq_replicate_iff]
    intro r hr
    rw [← Row.ofScalar?_scalar hf, hscalar r hr]
  have hx : x.kind? ≠ some .string := by
    intro hstring
    rw [h.kind _ hstring] at hf
    cases hf
  rw [ofPayload_of_holds hheld hf, hvalues, h.bits, ← Number.isNone_ofScalar? hx]
  rfl

end Operand

/-! ## Columns -/

namespace Operation

variable {op : Operation} {out : Kind} {a b : Column} {x : Scalar}

/-- No less is asked of a scalar than of a column that broadcasts it. -/
theorem requireScalar_eq_ok (hb : b.Broadcasts x) : op.requireScalar out a.shape x = .ok () ↔
    (a.kind.isNumeric ∨ a.kind.isTemporal) ∧ (b.kind.isNumeric ∨ b.kind.isTemporal) ∧
      op.requireOutput out = .ok () := by
  simp only [requireScalar, Outcome.seq_eq_ok, Column.shape, requireArithmetic_eq_ok]
  refine and_congr_right fun _ => and_comm.trans (and_congr_left fun _ => ?_)
  split
  next k hk => exact hb.kind k hk ▸ requireArithmetic_eq_ok
  next hnull => exact iff_of_true rfl (hb.numeric hnull)

end Operation

namespace Column

variable {op : Operation} {out : Kind} {a b c : Column} {x : Scalar}

theorem operateScalar_eq_ok : operateScalar op out a x = .ok c ↔ op.requireScalar out a.shape x = .ok () ∧
    ∃ l, Operand.ofPayload a.kind a.rows a.payload = .ok l ∧
      op.evaluate out l (Operand.ofScalar a.rows x) = .ok c := by
  rw [operateScalar, Outcome.seq_eq_ok, Outcome.bind_eq_ok]

/-- **An operation with a scalar** answers just as that with a column that broadcasts it. -/
theorem operateScalar_eq_ok_iff (hb : b.Broadcasts x) (hrows : b.rows = a.rows) :
    operateScalar op out a x = .ok c ↔ operate op out a b = .ok c := by
  rw [operateScalar_eq_ok, operate_eq_ok, Operation.requireScalar_eq_ok hb, Operation.requireColumns_eq_ok]
  constructor
  · rintro ⟨⟨ha_kind, hb_kind, hout⟩, l, hl, hc⟩
    have hr := Operand.ofPayload_of_broadcasts hb hb_kind
    exact ⟨⟨ha_kind, hb_kind, hout, hrows.symm⟩, l, _, hl, hr, hrows ▸ hc⟩
  · rintro ⟨⟨ha_kind, hb_kind, hout, -⟩, l, r, hl, hr, hc⟩
    obtain rfl := Except.ok.inj ((Operand.ofPayload_of_broadcasts hb hb_kind).symm.trans hr)
    exact ⟨⟨ha_kind, hb_kind, hout⟩, l, hl, hrows ▸ hc⟩

end Column

namespace Session

variable {s : Session} {l r w : String} {a b : Column} {x : Scalar}

/-! ## Every reachable session -/

/-- **An operation with a scalar is one with a column of it.** In every session that commands lead
to, an operation on a vector and a scalar, and the operation on that vector and one with as many
rows that all read as the scalar, yield the results on their columns, unless a device fails to bring
some data. The one succeeds if and only if the other does, and then they make the same vector. -/
theorem operateScalar_broadcast (hs : s.Reachable .unlimited) (ha : s.shown? l = some a)
    (hb : s.shown? r = some b) (hx : b.Broadcasts x) (hrows : b.rows = a.rows)
    (hw : s.vectors.find? w = none) (op : Operation) (out : Kind) :
    s.Yields [.make (.operateScalar op out l x) w] w (Column.operateScalar op out a x) ∧
      s.Yields [.make (.operate op out l r) w] w (Column.operate op out a b) ∧
      ∀ c, Column.operateScalar op out a x = .ok c ↔ Column.operate op out a b = .ok c := by
  have hcoherent := (hs.sound invariant_wellFormed).coherent
  exact ⟨yields_make hs (Action.comesTo_operateScalar hcoherent ha x) hw,
    yields_make hs (Action.comesTo_operate hcoherent ha hb) hw,
    fun _ => Column.operateScalar_eq_ok_iff hx hrows⟩

/-- A session with three integers on the host, one of them zero and one null, and on a device the
same integer three times and no numbers but nulls. -/
def besideConstants : Session := (Session.run { config := none } [
  .make (.ofParts (.int .w16) 3 [7, 0, 0, 0, 9, 0] (some [0xFB])) "a",
  .newRuntime "r" Runtime.faultless.plan,
  .newBuilder "x" (.int .w8) 3 false,
  .append "x" (.rows (.repeated (.int .w8) (100 : BitVec 8) 3)),
  .build "x" (.runtime "r") "b",
  .newBuilder "y" (.float .double) 3 true,
  .append "y" (.rows (.nulls 3)),
  .build "y" (.runtime "r") "n"]).2

theorem reachable_besideConstants : besideConstants.Reachable .unlimited := by
  refine (Reachable.start none).run ?_
  simp [Command.Within, faithful_faultless]

/-- The column under the name `a`. -/
def threeIntegers : Column :=
  ⟨.int .w16, 3, 1, ⟨.fixed [7, 0, 0, 0, 9, 0], some ⟨0xFB :: List.replicate 63 0xFF⟩⟩⟩

/-- The column under the name `b`. -/
def hundreds : Column := ⟨.int .w8, 3, 0, ⟨.fixed [100, 100, 100], none⟩⟩

/-- The column under the name `n`. -/
def threeNulls : Column :=
  ⟨.float .double, 3, 3, ⟨.fixed (List.replicate 24 0), some ⟨0xF8 :: List.replicate 63 0xFF⟩⟩⟩

set_option maxRecDepth 4000 in
theorem broadcasts_hundreds : hundreds.Broadcasts (.int .w8 (100 : BitVec 8)) := by
  refine .of_scalars (Column.ofParts_wellFormed
    (show Column.ofParts (.int .w8) 3 [100, 100, 100] none = _ from rfl)) rfl ?_ ?_ rfl
  · rintro k ⟨⟩
    rfl
  · rintro ⟨⟩

set_option maxRecDepth 4000 in
theorem broadcasts_threeNulls : threeNulls.Broadcasts .null := by
  refine .of_scalars (Column.ofParts_wellFormed
    (show Column.ofParts (.float .double) 3 (List.replicate 24 0) (some [0xF8]) = _ from rfl))
    rfl ?_ (fun _ => .inl rfl) rfl
  rintro k ⟨⟩

set_option maxRecDepth 4000 in
/-- A hundred by three integers: one of them is zero and one is null. Nothing is less than null. -/
theorem operateScalar_broadcast_rdiv :
    let quotients : Column :=
      ⟨.int .w8, 3, 2, ⟨.fixed [14, 0, 0], some ⟨0xF9 :: List.replicate 63 0xFF⟩⟩⟩
    let nothing : Column := ⟨.bool, 3, 3, ⟨.fixed [0, 0, 0], some ⟨0xF8 :: List.replicate 63 0xFF⟩⟩⟩
    (besideConstants.run
        [.make (.operateScalar .rdiv (.int .w8) "a" (.int .w8 (100 : BitVec 8))) "w"]).2.Displays
        "w" quotients ∧
      (besideConstants.run [.make (.operate .rdiv (.int .w8) "a" "b") "w"]).2.Displays "w" quotients ∧
      (besideConstants.run [.make (.operateScalar .less .bool "a" .null) "w"]).2.Displays "w" nothing ∧
      (besideConstants.run [.make (.operate .less .bool "a" "n") "w"]).2.Displays "w" nothing := by
  intro quotients nothing
  have ha : besideConstants.shown? "a" = some threeIntegers := by decide +kernel
  have hb : besideConstants.shown? "b" = some hundreds := by decide +kernel
  have hn : besideConstants.shown? "n" = some threeNulls := by decide +kernel
  have hw : besideConstants.vectors.find? "w" = none := by decide +kernel
  obtain ⟨hscalar, hcolumn, hsame⟩ := operateScalar_broadcast reachable_besideConstants ha hb
    broadcasts_hundreds rfl hw .rdiv (.int .w8)
  obtain ⟨hnull, hnulls, hsame'⟩ := operateScalar_broadcast reachable_besideConstants ha hn
    broadcasts_threeNulls rfl hw .less .bool
  have hquotients : Column.operate .rdiv (.int .w8) threeIntegers hundreds = .ok quotients := rfl
  have hnothing : Column.operate .less .bool threeIntegers threeNulls = .ok nothing := rfl
  exact ⟨hscalar.displays ((hsame _).mpr hquotients) (undisturbed_of_all (by decide +kernel)),
    hcolumn.displays hquotients (undisturbed_of_all (by decide +kernel)),
    hnull.displays ((hsame' _).mpr hnothing) (undisturbed_of_all (by decide +kernel)),
    hnulls.displays hnothing (undisturbed_of_all (by decide +kernel))⟩

end Session

end Columnar
